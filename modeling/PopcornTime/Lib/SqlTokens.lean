import PopcornTime.Lib.Sqlite

namespace PopcornTime

/-!
# The tokens of a text that SQLite reads

Words, decimal numbers, a few symbols, and texts in double quotes, where a quote is written twice.
`lex` answers none for every other text, and for one that SQLite cuts off at a NUL.

* `lex_quoted_of_plain` — a text without quotes stands in quotes for itself.
* `plain_of_lex_quoted` — no other text does.
* `lex_append_symbol` — behind a symbol the rest is read for itself; `Lead` is a piece of a
  template with this property.
-/

namespace Sqlite

/-! ### Tokens -/

inductive Token
  | word (s : String)
  | quoted (s : List Char)
  | number (n : ℕ)
  | symbol (c : Char)
deriving DecidableEq, Repr

namespace Token

/-- The value of a literal. -/
def value? : Token → Option Value
  | quoted s => some (.text (.ofList s))
  | number n => some (.integer n)
  | _ => none

end Token

/-- Where in a token the reader is, with the characters of the token read, the last one first;
    `closing` is behind a quote that ends the text unless a second one follows. -/
inductive Mode
  | between
  | word (acc : List Char)
  | number (acc : List Char)
  | quoted (acc : List Char)
  | closing (acc : List Char)

def isWordChar (c : Char) : Bool :=
  c.isAlphanum || c == '_'

/-- The character that ends the text for SQLite. -/
def nul : Char := Char.ofNat 0

/-- A character in front of which no token is open. -/
def begin (c : Char) (rest : Mode → Option (List Token)) : Option (List Token) :=
  if c.isWhitespace then rest .between
  else if c = '"' then rest (.quoted [])
  else if c.isDigit then rest (.number [c])
  else if isWordChar c then rest (.word [c])
  else if c = '=' ∨ c = '(' ∨ c = ')' then (rest .between).map (.symbol c :: ·)
  else none

def lex : Mode → List Char → Option (List Token)
  | .between, [] => some []
  | .word acc, [] => some [.word (.ofList acc.reverse)]
  | .number acc, [] => some [.number (Nat.ofDigitChars 10 acc.reverse 0)]
  | .quoted _, [] => none
  | .closing acc, [] => some [.quoted acc.reverse]
  | .between, c :: cs => begin c (lex · cs)
  | .word acc, c :: cs =>
    if isWordChar c then lex (.word (c :: acc)) cs
    else (begin c (lex · cs)).map (.word (.ofList acc.reverse) :: ·)
  | .number acc, c :: cs =>
    if c.isDigit then lex (.number (c :: acc)) cs
    -- a number that runs into a word is no token
    else if isWordChar c then none
    else (begin c (lex · cs)).map (.number (Nat.ofDigitChars 10 acc.reverse 0) :: ·)
  | .quoted acc, c :: cs =>
    if c = '"' then lex (.closing acc) cs
    else if c = nul then none
    else lex (.quoted (c :: acc)) cs
  | .closing acc, c :: cs =>
    if c = '"' then lex (.quoted ('"' :: acc)) cs
    else (begin c (lex · cs)).map (.quoted acc.reverse :: ·)

attribute [local simp] lex

/-! ### Texts in quotes -/

/-- A text that stands in quotes for itself. -/
def Plain (s : List Char) : Prop :=
  ∀ c ∈ s, c ≠ '"' ∧ c ≠ nul

instance (s : List Char) : Decidable (Plain s) :=
  List.decidableBAll _ s

variable {acc w s tail : List Char} {ts : List Token}

theorem lex_closing (h : tail.head? ≠ some '"') :
    lex (.closing acc) tail =
      (lex .between tail).map (.quoted acc.reverse :: ·) := by
  cases tail with
  | nil => rfl
  | cons c cs =>
    have hc : c ≠ '"' := by simpa using h
    simp only [lex, if_neg hc]

theorem lex_quoted_of_plain (hs : Plain s) (h : tail.head? ≠ some '"') :
    lex (.quoted acc) (s ++ '"' :: tail) =
      (lex .between tail).map (.quoted (acc.reverse ++ s) :: ·) := by
  induction s generalizing acc with
  | nil =>
    rw [List.nil_append, lex, if_pos rfl, lex_closing h, List.append_nil]
  | cons c s ih =>
    obtain ⟨hquote, hnul⟩ := hs c List.mem_cons_self
    have hs : Plain s := fun c hc => hs c (List.mem_cons_of_mem _ hc)
    rw [List.cons_append, lex, if_neg hquote, if_neg hnul, ih hs]
    simp

/-- An open text comes first, and goes on from what is read of it. -/
theorem exists_of_lex_quoted (cs : List Char) :
    (lex (.quoted acc) cs = some ts →
      ∃ w ts', ts = .quoted (acc.reverse ++ w) :: ts') ∧
    (lex (.closing acc) cs = some ts →
      ∃ w ts', ts = .quoted (acc.reverse ++ w) :: ts') := by
  induction cs generalizing acc with
  | nil =>
    refine ⟨fun h => ?_, fun h => ?_⟩
    · simp at h
    · refine ⟨[], [], ?_⟩
      simpa [eq_comm] using h
  | cons c cs ih =>
    refine ⟨fun h => ?_, fun h => ?_⟩
    · rw [lex] at h
      split_ifs at h
      · exact ih.2 h
      · obtain ⟨w, ts', rfl⟩ := ih.1 h
        exact ⟨c :: w, ts', by simp⟩
    · rw [lex] at h
      split_ifs at h
      · obtain ⟨w, ts', rfl⟩ := ih.1 h
        exact ⟨'"' :: w, ts', by simp⟩
      · obtain ⟨ts', -, rfl⟩ := Option.map_eq_some_iff.mp h
        exact ⟨[], ts', by simp⟩

/-- What is read behind an open text is the text itself and what follows it. -/
theorem of_lex_quoted_cons {c : Char} {cs : List Char} (hc : c ≠ '"')
    (h : lex (.quoted acc) (c :: cs) = some (.quoted (acc.reverse ++ w) :: ts)) :
    c ≠ nul ∧ ∃ w', w = c :: w' ∧
      lex (.quoted (c :: acc)) cs = some (.quoted ((c :: acc).reverse ++ w') :: ts) := by
  rw [lex, if_neg hc] at h
  split_ifs at h with hnul
  obtain ⟨w', ts', hts⟩ := (exists_of_lex_quoted cs).1 h
  obtain ⟨hw, rfl⟩ : w = c :: w' ∧ ts = ts' := by simpa using hts
  refine ⟨hnul, w', hw, ?_⟩
  rw [h, hts]

/-- A quote ends the text, or is the first of two. -/
theorem of_lex_quoted_quote {cs : List Char}
    (h : lex (.quoted acc) ('"' :: cs) = some (.quoted (acc.reverse ++ w) :: ts)) :
    w = [] ∨ ∃ cs' w', cs = '"' :: cs' ∧ w = '"' :: w' ∧
      lex (.quoted ('"' :: acc)) cs' =
        some (.quoted (('"' :: acc).reverse ++ w') :: ts) := by
  rw [lex, if_pos rfl] at h
  cases cs with
  | nil => exact .inl (by simpa using h : w = [] ∧ ts = []).1
  | cons c cs =>
    rw [lex] at h
    split_ifs at h with hc
    · obtain ⟨w', ts', hts⟩ := (exists_of_lex_quoted cs).1 h
      obtain ⟨hw, rfl⟩ : w = '"' :: w' ∧ ts = ts' := by simpa using hts
      refine .inr ⟨cs, w', by rw [hc], hw, ?_⟩
      rw [h, hts]
    · obtain ⟨ts', -, hts⟩ := Option.map_eq_some_iff.mp h
      exact .inl (by simpa using hts : w = [] ∧ ts' = ts).1

/-- What is read ends, or goes on with a quote, only where the text has a quote. -/
theorem head?_of_lex_quoted {cs : List Char} (hw : w.head?.getD '"' = '"')
    (h : lex (.quoted acc) cs = some (.quoted (acc.reverse ++ w) :: ts)) :
    cs.head? = some '"' := by
  cases cs with
  | nil => simp at h
  | cons c cs =>
    by_cases hc : c = '"'
    · rw [hc, List.head?_cons]
    · obtain ⟨-, w', rfl, -⟩ := of_lex_quoted_cons hc h
      exact absurd hw hc

/-- Lower-casing makes no quote. -/
theorem toLower_eq_quote {c : Char} (h : c.toLower = '"') : c = '"' := by
  unfold Char.toLower at h
  split_ifs at h with hupper
  · have hval : (c.toNat + 32) % 4294967296 = 34 := by
      simpa using congrArg (fun c : Char => c.val.toNat) h
    have hlo : 65 ≤ c.toNat := UInt32.le_iff_toNat_le.mp hupper.1
    have hhi : c.toNat ≤ 90 := UInt32.le_iff_toNat_le.mp hupper.2
    omega
  · exact h

theorem eq_quote_cons_of_toLower {s' : List Char}
    (h : w.map Char.toLower = ('"' :: s').map Char.toLower) :
    ∃ w', w = '"' :: w' ∧ w'.map Char.toLower = s'.map Char.toLower := by
  cases w with
  | nil => cases h
  | cons c w' =>
    rw [List.map_cons, List.map_cons, List.cons_eq_cons] at h
    exact ⟨w', by rw [toLower_eq_quote h.1], h.2⟩

/-- Past `k + 1` pairs of quotes what is read has fallen behind what is written, and would have
    to go on with quotes. -/
theorem lex_quoted_ne_of_replicate (htail : tail.head? ≠ some '"') :
    ∀ (s : List Char) {k : ℕ} {acc w : List Char},
      w.map Char.toLower = (List.replicate (k + 1) '"' ++ s).map Char.toLower →
      lex (.quoted acc) (s ++ '"' :: tail) ≠ some (.quoted (acc.reverse ++ w) :: ts)
  | [], k, acc, w, hw, h => by
    obtain ⟨w', rfl, -⟩ := eq_quote_cons_of_toLower hw
    obtain hnil | ⟨cs', -, hcs, -⟩ := of_lex_quoted_quote h
    · cases hnil
    · exact htail (by rw [hcs]; rfl)
  | [c], k, acc, w, hw, h => by
    rw [List.replicate_succ, List.cons_append] at hw
    obtain ⟨w', rfl, hw'⟩ := eq_quote_cons_of_toLower hw
    obtain rfl : c = '"' := by simpa using head?_of_lex_quoted rfl h
    -- the last quote of the text and the one behind it are read as one
    obtain hnil | ⟨cs', w'', hcs, hww, hlex⟩ := of_lex_quoted_quote h
    · cases hnil
    · cases hcs
      cases hww
      rw [← List.replicate_succ', List.replicate_succ] at hw'
      obtain ⟨w'', rfl, -⟩ := eq_quote_cons_of_toLower hw'
      exact htail (head?_of_lex_quoted rfl hlex)
  | c :: c' :: s, k, acc, w, hw, h => by
    rw [List.replicate_succ, List.cons_append] at hw
    obtain ⟨w', rfl, hw'⟩ := eq_quote_cons_of_toLower hw
    obtain rfl : c = '"' := by simpa using head?_of_lex_quoted rfl h
    obtain hnil | ⟨cs', w'', hcs, hww, hlex⟩ := of_lex_quoted_quote h
    · cases hnil
    · cases hcs
      cases hww
      have hk : List.replicate k '"' ++ '"' :: '"' :: s = List.replicate (k + 2) '"' ++ s := by
        simp [List.replicate_succ', List.append_assoc]
      rw [hk] at hw'
      exact lex_quoted_ne_of_replicate htail s hw' hlex

/-- **Texts that stand for themselves.**  A text in quotes that is read as itself, up to the case
    of its letters, has no quote in it. -/
theorem plain_of_lex_quoted (htail : tail.head? ≠ some '"')
    (hw : w.map Char.toLower = s.map Char.toLower)
    (h : lex (.quoted acc) (s ++ '"' :: tail) = some (.quoted (acc.reverse ++ w) :: ts)) :
    Plain s := by
  induction s generalizing acc w with
  | nil => exact fun c hc => absurd hc List.not_mem_nil
  | cons c s ih =>
    by_cases hc : c = '"'
    · subst hc
      obtain ⟨w', rfl, hw'⟩ := eq_quote_cons_of_toLower hw
      obtain hnil | ⟨cs', w'', hcs, hww, hlex⟩ := of_lex_quoted_quote h
      · cases hnil
      · cases hww
        cases s with
        | nil =>
          cases hcs
          obtain rfl : w' = [] := List.map_eq_nil_iff.mp hw'
          exact absurd (head?_of_lex_quoted rfl hlex) htail
        | cons c s =>
          cases hcs
          exact absurd hlex (lex_quoted_ne_of_replicate (k := 0) htail s hw')
    · obtain ⟨hnul, w', rfl, hlex⟩ := of_lex_quoted_cons hc h
      rw [List.map_cons, List.map_cons, List.cons_eq_cons] at hw
      exact List.forall_mem_cons.mpr ⟨⟨hc, hnul⟩, ih hw.2 hlex⟩

/-- A decimal number is read up to the character behind it. -/
theorem lex_number {digits : List Char} (hdigits : ∀ c ∈ digits, c.isDigit)
    (htail : ∀ c ∈ tail.head?, ¬isWordChar c) :
    lex (.number acc) (digits ++ tail) =
      (lex .between tail).map (.number (Nat.ofDigitChars 10 (acc.reverse ++ digits) 0) :: ·) := by
  induction digits generalizing acc with
  | nil =>
    cases tail with
    | nil => simp
    | cons c cs =>
      have hc : ¬isWordChar c := htail c rfl
      have hdigit : ¬c.isDigit := fun h => hc (by simp [isWordChar, Char.isAlphanum, h])
      simp only [List.nil_append, lex, if_neg hc, if_neg hdigit, List.append_nil]
  | cons c digits ih =>
    rw [List.forall_mem_cons] at hdigits
    rw [List.cons_append, lex, if_pos hdigits.1, ih hdigits.2]
    simp

theorem begin_digit {c : Char} (h : c.isDigit) (rest : Mode → Option (List Token)) :
    begin c rest = rest (.number [c]) := by
  have hspace : ¬c.isWhitespace := by
    intro hc
    simp only [Char.isWhitespace, Bool.or_eq_true, decide_eq_true_eq] at hc
    rcases hc with ((rfl | rfl) | rfl) | rfl <;> cases h
  have hquote : c ≠ '"' := by rintro rfl; cases h
  rw [begin, if_neg hspace, if_neg hquote, if_pos h]

/-- A number is the token of its digits. -/
theorem lex_toDigits (n : ℕ) (htail : ∀ c ∈ tail.head?, ¬isWordChar c) :
    lex .between (Nat.toDigits 10 n ++ tail) = (lex .between tail).map (.number n :: ·) := by
  have hvalue : Nat.ofDigitChars 10 (Nat.toDigits 10 n) 0 = n := Nat.ofDigitChars_ten_toDigits
  have hdigits : ∀ c ∈ Nat.toDigits 10 n, c.isDigit :=
    fun c hc => Nat.isDigit_of_mem_toDigits (by decide) (by decide) hc
  cases hn : Nat.toDigits 10 n with
  | nil => exact absurd hn Nat.toDigits_ne_nil
  | cons c digits =>
    rw [hn] at hvalue hdigits
    rw [List.forall_mem_cons] at hdigits
    rw [List.cons_append, lex, begin_digit hdigits.1, lex_number hdigits.2 htail,
      List.reverse_singleton, List.singleton_append, hvalue]

/-! ### Pieces of a template -/

/-- A piece of a template that is read as tokens without a literal, whatever follows. -/
structure Lead (cs : List Char) (tokens : List Token) : Prop where
  lex : ∀ rest, lex .between (cs ++ rest) = (lex .between rest).map (tokens ++ ·)
  noValue : tokens.filterMap Token.value? = []
  noQuote : cs.head?.getD '"' ≠ '"'

theorem Lead.head? {cs : List Char} {tokens : List Token} (hlead : Lead cs tokens) :
    (cs ++ tail).head? ≠ some '"' := by
  have hne := hlead.noQuote
  cases cs with
  | nil => exact absurd rfl hne
  | cons c cs => simpa using hne

theorem begin_append {c : Char} {f g : Mode → Option (List Token)} {more : Option (List Token)}
    (hfg : ∀ mode ts, f mode = some ts → g mode = more.map (ts ++ ·))
    (h : begin c f = some ts) : begin c g = more.map (ts ++ ·) := by
  unfold begin at h ⊢
  split_ifs at h ⊢
  · exact hfg _ _ h
  · exact hfg _ _ h
  · exact hfg _ _ h
  · exact hfg _ _ h
  · obtain ⟨ts', hts', rfl⟩ := Option.map_eq_some_iff.mp h
    rw [hfg _ _ hts']
    cases more <;> rfl

/-- A token in front of what is read on both sides. -/
theorem map_cons_append {t : Token} {left right more : Option (List Token)}
    (hlr : ∀ ts, left = some ts → right = more.map (ts ++ ·))
    (h : left.map (t :: ·) = some ts) : right.map (t :: ·) = more.map (ts ++ ·) := by
  obtain ⟨ts', hts', rfl⟩ := Option.map_eq_some_iff.mp h
  rw [hlr _ hts']
  cases more <;> rfl

/-- One character more in front of both. -/
theorem lex_cons_append {c : Char} {cs cs' : List Char} {more : Option (List Token)}
    (hcs : ∀ mode ts, lex mode cs = some ts → lex mode cs' = more.map (ts ++ ·)) (mode : Mode)
    (h : lex mode (c :: cs) = some ts) : lex mode (c :: cs') = more.map (ts ++ ·) := by
  have hbegin : ∀ ts, begin c (lex · cs) = some ts → begin c (lex · cs') = more.map (ts ++ ·) :=
    fun _ => begin_append hcs
  cases mode with
  | between => exact hbegin _ h
  | word acc =>
    rw [lex] at h ⊢
    split_ifs at h ⊢
    · exact hcs _ _ h
    · exact map_cons_append hbegin h
  | number acc =>
    rw [lex] at h ⊢
    split_ifs at h ⊢
    · exact hcs _ _ h
    · exact map_cons_append hbegin h
  | quoted acc =>
    rw [lex] at h ⊢
    split_ifs at h ⊢
    · exact hcs _ _ h
    · exact hcs _ _ h
  | closing acc =>
    rw [lex] at h ⊢
    split_ifs at h ⊢
    · exact hcs _ _ h
    · exact map_cons_append hbegin h

/-- **A closed piece.**  Behind a symbol nothing that was read is open, so what follows is read
    for itself. -/
theorem lex_append_symbol {cs : List Char} {c : Char} (hc : c = '=' ∨ c = '(' ∨ c = ')')
    (mode : Mode) (h : lex mode (cs ++ [c]) = some ts) (rest : List Char) :
    lex mode (cs ++ c :: rest) = (lex .between rest).map (ts ++ ·) := by
  induction cs generalizing mode ts with
  | cons d cs ih => exact lex_cons_append (fun mode ts h => ih mode h) mode h
  | nil =>
    -- a symbol is a token of its own, and what follows starts afresh
    have hsymbol : ∀ f : Mode → Option (List Token),
        begin c f = (f .between).map (.symbol c :: ·) := by
      intro f
      rcases hc with rfl | rfl | rfl <;> simp [begin, isWordChar]
    have hbegin : ∀ ts, begin c (lex · []) = some ts →
        begin c (lex · rest) = (lex .between rest).map (ts ++ ·) := by
      intro ts h
      rw [hsymbol] at h ⊢
      cases h
      rfl
    have hnot : ¬isWordChar c ∧ ¬c.isDigit ∧ c ≠ '"' ∧ c ≠ nul := by
      rcases hc with rfl | rfl | rfl <;> decide
    obtain ⟨hword, hdigit, hquote, hnul⟩ := hnot
    cases mode with
    | between => exact hbegin _ h
    | word acc =>
      rw [List.nil_append, lex, if_neg hword] at h ⊢
      exact map_cons_append hbegin h
    | number acc =>
      rw [List.nil_append, lex, if_neg hdigit, if_neg hword] at h ⊢
      exact map_cons_append hbegin h
    | quoted acc =>
      rw [List.nil_append, lex, if_neg hquote, if_neg hnul] at h
      cases h
    | closing acc =>
      rw [List.nil_append, lex, if_neg hquote] at h ⊢
      exact map_cons_append hbegin h

/-- A piece that ends with a symbol. -/
theorem Lead.of_lex {cs : List Char} {tokens : List Token}
    (hlast : cs.getLast? = some '=' ∨ cs.getLast? = some '(' ∨ cs.getLast? = some ')')
    (hlex : Sqlite.lex .between cs = some tokens) (hvalue : tokens.filterMap Token.value? = [])
    (hquote : cs.head?.getD '"' ≠ '"') : Lead cs tokens where
  lex rest := by
    obtain ⟨c, hc, hsymbol⟩ : ∃ c, cs.getLast? = some c ∧ (c = '=' ∨ c = '(' ∨ c = ')') := by
      obtain h | h | h := hlast
      · exact ⟨_, h, .inl rfl⟩
      · exact ⟨_, h, .inr (.inl rfl)⟩
      · exact ⟨_, h, .inr (.inr rfl)⟩
    obtain ⟨init, rfl⟩ := List.getLast?_eq_some_iff.mp hc
    rw [List.append_assoc]
    exact lex_append_symbol hsymbol .between hlex rest
  noValue := hvalue
  noQuote := hquote

/-- A number between two pieces. -/
theorem Lead.lex_number {cs cs' rest : List Char} {tokens tokens' : List Token}
    (hlead : Lead cs tokens) (hlead' : Lead cs' tokens') (n : ℕ)
    (hstart : cs'.head?.any isWordChar = false) :
    Sqlite.lex .between (cs ++ (Nat.toDigits 10 n ++ (cs' ++ rest))) =
      (Sqlite.lex .between rest).map (tokens ++ (.number n :: tokens') ++ ·) := by
  have hhead : ∀ c ∈ (cs' ++ rest).head?, ¬isWordChar c := by
    cases cs' with
    | nil => exact absurd rfl hlead'.noQuote
    | cons c cs' => simpa using hstart
  rw [hlead.lex, lex_toDigits n hhead, hlead'.lex]
  cases Sqlite.lex .between rest <;> simp

/-- A text in quotes behind such a lead. -/
theorem Lead.exists_text {cs : List Char} {tokens : List Token} (hlead : Lead cs tokens)
    (h : Sqlite.lex .between (cs ++ '"' :: (s ++ '"' :: tail)) = some ts) :
    ∃ w ts', ts = tokens ++ .quoted w :: ts' ∧
      Sqlite.lex (.quoted []) (s ++ '"' :: tail) = some (.quoted w :: ts') := by
  rw [hlead.lex] at h
  obtain ⟨ts₁, h₁, rfl⟩ := Option.map_eq_some_iff.mp h
  obtain ⟨w, ts', rfl⟩ := (exists_of_lex_quoted _).1 h₁
  exact ⟨w, ts', rfl, h₁⟩

/-- A text that stands for itself, and what is read behind it. -/
theorem eq_of_lex_quoted (htail : tail.head? ≠ some '"') (hs : Plain s)
    (h : lex (.quoted []) (s ++ '"' :: tail) = some (.quoted w :: ts)) :
    w = s ∧ lex .between tail = some ts := by
  rw [lex_quoted_of_plain hs htail] at h
  obtain ⟨ts', hts', hcons⟩ := Option.map_eq_some_iff.mp h
  cases hcons
  exact ⟨rfl, hts'⟩

/-- A text is plain that is read as itself, up to its case. -/
theorem plain_of_nocaseEq (htail : tail.head? ≠ some '"')
    (hw : nocaseEq (.ofList s) (.ofList w))
    (h : lex (.quoted []) (s ++ '"' :: tail) = some (.quoted w :: ts)) : Plain s := by
  unfold nocaseEq at hw
  rw [String.toList_ofList, String.toList_ofList, beq_iff_eq] at hw
  exact plain_of_lex_quoted htail hw.symm h

theorem Lead.value {cs : List Char} {tokens : List Token} (hlead : Lead cs tokens) :
    (tokens ++ .quoted w :: ts).filterMap Token.value? =
      .text (.ofList w) :: ts.filterMap Token.value? := by
  rw [List.filterMap_append, hlead.noValue, List.nil_append]
  rfl

/-- The tokens of a template filled in with plain texts. -/
theorem lex_of_plain {pre mid s' post : List Char} {pre' mid' : List Token}
    (hpre : Lead pre pre') (hmid : Lead mid mid') (hpost : post.head? ≠ some '"')
    (hs : Plain s) (hs' : Plain s') :
    lex .between (pre ++ '"' :: (s ++ '"' :: (mid ++ '"' :: (s' ++ '"' :: post)))) =
      (lex .between post).map fun ts => pre' ++ .quoted s :: (mid' ++ .quoted s' :: ts) := by
  have hquote : ∀ cs, lex .between ('"' :: cs) = lex (.quoted []) cs := fun _ => rfl
  rw [hpre.lex, hquote, lex_quoted_of_plain hs hmid.head?, hmid.lex, hquote,
    lex_quoted_of_plain hs' hpost]
  cases lex .between post <;> rfl

end Sqlite

end PopcornTime
