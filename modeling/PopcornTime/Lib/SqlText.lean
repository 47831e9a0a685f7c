import PopcornTime.Lib.SqlTokens

namespace PopcornTime

/-!
# The text of a condition as SQLite reads it

What stands behind `WHERE`, for the conditions that compare columns with literals: combinations
by `AND`, `OR` and parentheses of `column=literal`, each with or without `COLLATE NOCASE`.  A
literal is a text in double quotes or a decimal number; a text in double quotes that names a
column is that column.  `readCondition` answers none for every other text: SQLite refuses it, or
it says something other than such a comparison.

* `exists_comparison` — two rows are told apart by a comparison that tells them apart.
* `parse_spells` — the literals of a condition are those of its text, in order.
* `plain_of_readCondition` — a template filled in with texts that its condition tells rows apart
  by has plain texts in it.
-/

namespace Sqlite

/-! ### Conditions -/

inductive Collation
  | binary
  | nocase
deriving DecidableEq, Repr

/-- `column=literal` -/
structure Comparison (κ : Type*) where
  column : κ
  literal : Value
  collation : Collation
deriving DecidableEq

/-- What `=` says of two values that are not NULL. -/
def Collation.same : Collation → Value → Value → Bool
  | nocase, .text s, .text s' => nocaseEq s s'
  | _, v, v' => decide (v = v')

/-- Equal texts differ at most in the case of their letters. -/
theorem nocaseEq_of_same {collation : Collation} {s s' : String}
    (h : collation.same (.text s) (.text s')) : nocaseEq s s' := by
  cases collation with
  | binary =>
    obtain rfl : s = s' := by simpa [Collation.same] using h
    exact beq_self_eq_true _
  | nocase => exact h

inductive Condition (κ : Type*)
  | equals (c : Comparison κ)
  | and (a b : Condition κ)
  | or (a b : Condition κ)

/-- `AND` in the three truth values of SQL. -/
def bothTrue : Option Bool → Option Bool → Option Bool
  | some false, _ => some false
  | _, some false => some false
  | some true, some true => some true
  | _, _ => none

/-- `OR` in the three truth values of SQL. -/
def eitherTrue : Option Bool → Option Bool → Option Bool
  | some true, _ => some true
  | _, some true => some true
  | some false, some false => some false
  | _, _ => none

@[simp] theorem bothTrue_eq_true {u v : Option Bool} :
    bothTrue u v = some true ↔ u = some true ∧ v = some true := by
  rcases u with _ | _ | _ <;> rcases v with _ | _ | _ <;> simp [bothTrue]

@[simp] theorem eitherTrue_eq_true {u v : Option Bool} :
    eitherTrue u v = some true ↔ u = some true ∨ v = some true := by
  rcases u with _ | _ | _ <;> rcases v with _ | _ | _ <;> simp [eitherTrue]

variable {κ : Type*}

namespace Comparison

/-- A comparison with NULL is unknown. -/
def eval (r : Row κ) (c : Comparison κ) : Option Bool :=
  match r c.column with
  | .null => none
  | v => some (c.collation.same v c.literal)

/-- A row is selected where the comparison is true. -/
def Holds (c : Comparison κ) (r : Row κ) : Prop :=
  c.eval r = some true

/-- A text is compared in the collation of the comparison. -/
theorem holds_text {c : Comparison κ} {r : Row κ} {s : String} (h : r c.column = .text s) :
    c.Holds r ↔ c.collation.same (.text s) c.literal := by
  simp [Holds, eval, h]

/-- Texts that are compared letter by letter; NULL is equal to none. -/
theorem holds_ofText {k : κ} {r : Row κ} {v : Option String} {s : String}
    (h : r k = .ofText v) : Holds ⟨k, .text s, .binary⟩ r ↔ v = some s := by
  cases v <;> simp [Holds, eval, h, Value.ofText, Collation.same]

/-- Numbers are compared as such; NULL is equal to none. -/
theorem holds_ofInteger {k : κ} {r : Row κ} {v : Option ℤ} {n : ℤ}
    (h : r k = .ofInteger v) : Holds ⟨k, .integer n, .binary⟩ r ↔ v = some n := by
  cases v <;> simp [Holds, eval, h, Value.ofInteger, Collation.same]

/-- A comparison looks at its own column. -/
theorem holds_congr {c : Comparison κ} {r r' : Row κ} (h : r c.column = r' c.column) :
    c.Holds r ↔ c.Holds r' := by
  simp only [Holds, eval, h]

end Comparison

namespace Condition

def eval (r : Row κ) : Condition κ → Option Bool
  | equals c => c.eval r
  | and a b => bothTrue (a.eval r) (b.eval r)
  | or a b => eitherTrue (a.eval r) (b.eval r)

/-- `WHERE` selects a row where the condition is true. -/
def holds (e : Condition κ) (r : Row κ) : Bool :=
  decide (e.eval r = some true)

/-- The comparisons from left to right. -/
def comparisons : Condition κ → List (Comparison κ)
  | equals c => [c]
  | and a b => a.comparisons ++ b.comparisons
  | or a b => a.comparisons ++ b.comparisons

def columns (e : Condition κ) : List κ :=
  e.comparisons.map Comparison.column

variable {a b e : Condition κ} {r r' : Row κ}

@[simp] theorem holds_equals {c : Comparison κ} : (equals c).holds r ↔ c.Holds r :=
  decide_eq_true_iff

@[simp] theorem holds_and : (and a b).holds r ↔ a.holds r ∧ b.holds r := by
  simp only [holds, decide_eq_true_eq, eval, bothTrue_eq_true]

@[simp] theorem holds_or : (or a b).holds r ↔ a.holds r ∨ b.holds r := by
  simp only [holds, decide_eq_true_eq, eval, eitherTrue_eq_true]

/-- There is no negation: more comparisons that hold never make the condition false. -/
theorem holds_of_comparisons (h : ∀ c ∈ e.comparisons, c.Holds r → c.Holds r')
    (he : e.holds r) : e.holds r' := by
  induction e with
  | equals c =>
    rw [holds_equals] at he ⊢
    exact h c (List.mem_singleton_self c) he
  | and a b iha ihb =>
    rw [comparisons, List.forall_mem_append] at h
    rw [holds_and] at he ⊢
    exact ⟨iha h.1 he.1, ihb h.2 he.2⟩
  | or a b iha ihb =>
    rw [comparisons, List.forall_mem_append] at h
    rw [holds_or] at he ⊢
    exact he.imp (iha h.1) (ihb h.2)

/-- **What tells two rows apart.**  Where one of two rows is selected and not the other, some
    comparison holds of the first only. -/
theorem exists_comparison (h : e.holds r) (h' : ¬e.holds r') :
    ∃ c ∈ e.comparisons, c.Holds r ∧ ¬c.Holds r' := by
  by_contra hall
  push Not at hall
  exact h' (holds_of_comparisons hall h)

end Condition

/-! ### Reading a condition -/

/-- A name of a column, in any case of its letters. -/
structure Name (κ : Type*) where
  name : String
  column : κ
  type : ColumnType
deriving DecidableEq, Repr

def resolve (names : List (Name κ)) (text : String) : Option (Name κ) :=
  names.find? fun n => nocaseEq n.name text

/-- A literal of a type a column has; a larger number would be a REAL. -/
def literal (names : List (Name κ)) (type : ColumnType) : Token → Option Value
  | .quoted s =>
    if type = .text ∧ (resolve names (.ofList s)).isNone then some (.text (.ofList s)) else none
  | .number n =>
    if (type = .integer ∨ type = .integerPrimaryKey) ∧ n < 2 ^ 63 then some (.integer n) else none
  | _ => none

/-- `COLLATE NOCASE`, if it is there. -/
def collate : List Token → Collation × List Token
  | .word w :: .word w' :: rest =>
    if nocaseEq w "COLLATE" && nocaseEq w' "NOCASE" then (.nocase, rest)
    else (.binary, .word w :: .word w' :: rest)
  | rest => (.binary, rest)

def comparison (names : List (Name κ)) : List Token → Option (Comparison κ × List Token)
  | .word w :: .symbol '=' :: value :: rest =>
    (resolve names w).bind fun n =>
      (literal names n.type value).map fun v =>
        (⟨n.column, v, (collate rest).1⟩, (collate rest).2)
  | _ => none

/-- How tightly what is read binds: alternatives, of conjunctions, of comparisons and of what is
    in parentheses. -/
inductive Level
  | alternatives
  | conjunction
  | operand

/-- The first token, if it is a keyword. -/
def afterKeyword (keyword : String) : List Token → Option (List Token)
  | .word w :: rest => if nocaseEq w keyword then some rest else none
  | _ => none

/-- What reads a condition at the front of the tokens answers it and the tokens behind it. -/
abbrev Reader (κ : Type*) := List Token → Option (Condition κ × List Token)

/-- Operands around a keyword. -/
def chain (keyword : String) (join : Condition κ → Condition κ → Condition κ)
    (first others : Reader κ) : Reader κ := fun ts =>
  (first ts).bind fun (a, rest) =>
    match afterKeyword keyword rest with
    | none => some (a, rest)
    | some rest => (others rest).map fun (b, rest) => (join a b, rest)

/-- A condition in parentheses, or a comparison. -/
def operand (names : List (Name κ)) (inner : Reader κ) : Reader κ
  | .symbol '(' :: ts =>
    match inner ts with
    | some (a, .symbol ')' :: rest) => some (a, rest)
    | _ => none
  | ts => (comparison names ts).map fun (c, rest) => (.equals c, rest)

def parse (names : List (Name κ)) : ℕ → Level → Reader κ
  | 0, _ => fun _ => none
  | n + 1, .alternatives =>
    chain "OR" .or (parse names n .conjunction) (parse names n .alternatives)
  | n + 1, .conjunction =>
    chain "AND" .and (parse names n .operand) (parse names n .conjunction)
  | n + 1, .operand => operand names (parse names n .alternatives)

/-- A level is left behind at most three times between two tokens. -/
def readTokens (names : List (Name κ)) (ts : List Token) : Option (Condition κ) :=
  match parse names (3 * ts.length + 3) .alternatives ts with
  | some (e, []) => some e
  | _ => none

/-- The condition a text is read as, if it is one. -/
def readCondition (names : List (Name κ)) (text : String) : Option (Condition κ) :=
  (lex .between text.toList).bind (readTokens names)

/-- Tokens whose literals are those of a condition, in order; none of its texts is a name. -/
structure Spells (names : List (Name κ)) (used : List Token) (e : Condition κ) : Prop where
  literals : e.comparisons.map Comparison.literal = used.filterMap Token.value?
  notNames : ∀ s, .quoted s ∈ used → resolve names (.ofList s) = none

variable {names : List (Name κ)} {a b e : Condition κ} {ts rest : List Token}

/-- Two conditions around a keyword. -/
theorem Spells.append {used used' : List Token} {w : String} (ha : Spells names used a)
    (hb : Spells names used' b) (he : e.comparisons = a.comparisons ++ b.comparisons) :
    Spells names (used ++ .word w :: used') e where
  literals := by
    rw [he, List.map_append, ha.literals, hb.literals, List.filterMap_append,
      List.filterMap_cons_none rfl]
  notNames := by
    intro s hs
    rw [List.mem_append, List.mem_cons] at hs
    obtain hs | hs | hs := hs
    · exact ha.notNames s hs
    · cases hs
    · exact hb.notNames s hs

/-- A keyword is a word. -/
theorem afterKeyword_eq_some {keyword : String} (h : afterKeyword keyword ts = some rest) :
    ∃ w, ts = .word w :: rest := by
  unfold afterKeyword at h
  split at h
  · split_ifs at h
    cases h
    exact ⟨_, rfl⟩
  · cases h

/-- A collation is words only. -/
theorem exists_collate (ts : List Token) :
    ∃ words, ts = words ++ (collate ts).2 ∧ ∀ t ∈ words, ∃ w, t = .word w := by
  unfold collate
  split
  · split_ifs
    · exact ⟨[_, _], rfl, by simp⟩
    · exact ⟨[], rfl, by simp⟩
  · exact ⟨[], rfl, by simp⟩

/-- A literal is that of its token, which is no name. -/
theorem literal_eq_some {type : ColumnType} {t : Token} {v : Value}
    (h : literal names type t = some v) :
    t.value? = some v ∧ ∀ s, t = .quoted s → resolve names (.ofList s) = none := by
  unfold literal at h
  split at h
  · split_ifs at h with hs
    cases h
    refine ⟨rfl, fun s hs' => ?_⟩
    cases hs'
    simpa using hs.2
  · split_ifs at h
    cases h
    exact ⟨rfl, fun s hs' => by cases hs'⟩
  · cases h

/-- A comparison has the literal of its tokens. -/
theorem comparison_spells {c : Comparison κ} (h : comparison names ts = some (c, rest)) :
    ∃ used, ts = used ++ rest ∧ Spells names used (.equals c) := by
  unfold comparison at h
  split at h
  next w value ts' =>
    obtain ⟨n, -, h⟩ := Option.bind_eq_some_iff.mp h
    obtain ⟨v, hv, h⟩ := Option.map_eq_some_iff.mp h
    obtain ⟨hvalue, hname⟩ := literal_eq_some hv
    obtain ⟨words, hwords, hword⟩ := exists_collate ts'
    cases h
    have hnone : words.filterMap Token.value? = [] := by
      rw [List.filterMap_eq_nil_iff]
      intro t ht
      obtain ⟨w, rfl⟩ := hword t ht
      rfl
    refine ⟨.word w :: .symbol '=' :: value :: words, by simp [← hwords], ?_, ?_⟩
    · rw [List.filterMap_cons_none rfl, List.filterMap_cons_none rfl,
        List.filterMap_cons_some hvalue, hnone]
      rfl
    · intro s hs
      simp only [List.mem_cons, reduceCtorEq, false_or] at hs
      obtain hs | hs := hs
      · exact hname s hs.symm
      · obtain ⟨w, hw⟩ := hword _ hs
        cases hw
  next => cases h

/-- A reader that answers conditions with the literals of the tokens it takes. -/
def Reader.Spells (names : List (Name κ)) (f : Reader κ) : Prop :=
  ∀ {ts e rest}, f ts = some (e, rest) → ∃ used, ts = used ++ rest ∧ Sqlite.Spells names used e

/-- Operands around keywords have theirs, from left to right. -/
theorem chain_spells {keyword : String} {join : Condition κ → Condition κ → Condition κ}
    {first others : Reader κ} (hfirst : first.Spells names) (hothers : others.Spells names)
    (hjoin : ∀ a b, (join a b).comparisons = a.comparisons ++ b.comparisons) :
    (chain keyword join first others).Spells names := by
  intro ts e rest h
  obtain ⟨⟨a, rest'⟩, ha, hrest⟩ := Option.bind_eq_some_iff.mp h
  obtain ⟨used, rfl, hused⟩ := hfirst ha
  dsimp only at hrest
  split at hrest
  next => cases hrest; exact ⟨used, rfl, hused⟩
  next rest'' hkey =>
    obtain ⟨⟨b, _⟩, hb, hjoined⟩ := Option.map_eq_some_iff.mp hrest
    obtain ⟨used', rfl, hused'⟩ := hothers hb
    obtain ⟨w, rfl⟩ := afterKeyword_eq_some hkey
    cases hjoined
    exact ⟨used ++ .word w :: used', by simp, hused.append hused' (hjoin a b)⟩

/-- Parentheses add none. -/
theorem operand_spells {inner : Reader κ} (hinner : inner.Spells names) :
    (operand names inner).Spells names := by
  intro ts e rest h
  unfold operand at h
  split at h
  · split at h
    next a rest' ha =>
      cases h
      obtain ⟨used, rfl, hused⟩ := hinner ha
      refine ⟨.symbol '(' :: used ++ [.symbol ')'], by simp, ?_, ?_⟩
      · simpa [List.filterMap_cons, Token.value?] using hused.literals
      · intro s hs
        exact hused.notNames s (by simpa using hs)
    next => cases h
  · obtain ⟨⟨c, rest'⟩, hc, h⟩ := Option.map_eq_some_iff.mp h
    cases h
    exact comparison_spells hc

/-- **The literals of a text.**  A condition that is read off tokens has their literals, in
    order. -/
theorem parse_spells (n : ℕ) (level : Level) : (parse names n level).Spells names := by
  induction n generalizing level with
  | zero => intro ts e rest h; cases h
  | succ n ih =>
    cases level with
    | alternatives => exact chain_spells (ih _) (ih _) fun _ _ => rfl
    | conjunction => exact chain_spells (ih _) (ih _) fun _ _ => rfl
    | operand => exact operand_spells (ih _)

/-- What a text is read as has the literals of all its tokens. -/
theorem readCondition_spells {text : String} (h : readCondition names text = some e) :
    ∃ ts, lex .between text.toList = some ts ∧ Spells names ts e := by
  obtain ⟨ts, hts, h⟩ := Option.bind_eq_some_iff.mp h
  refine ⟨ts, hts, ?_⟩
  unfold readTokens at h
  split at h
  next e' hparse =>
    obtain ⟨used, hused, hspells⟩ := parse_spells _ _ hparse
    cases h
    rwa [hused, List.append_nil]
  next => cases h

/-! ### How conditions are read -/

section

variable {n : ℕ} {rest' rest'' : List Token}

attribute [local simp] parse

/-- Two alternatives, -/
theorem parse_or (ha : parse names n .conjunction ts = some (a, rest))
    (hkey : afterKeyword "OR" rest = some rest')
    (hb : parse names n .alternatives rest' = some (b, rest'')) :
    parse names (n + 1) .alternatives ts = some (.or a b, rest'') := by
  simp [chain, ha, hkey, hb]

/-- or the last one. -/
theorem parse_alternative (ha : parse names n .conjunction ts = some (a, rest))
    (hkey : afterKeyword "OR" rest = none) :
    parse names (n + 1) .alternatives ts = some (a, rest) := by
  simp [chain, ha, hkey]

/-- Two conjuncts, -/
theorem parse_and (ha : parse names n .operand ts = some (a, rest))
    (hkey : afterKeyword "AND" rest = some rest')
    (hb : parse names n .conjunction rest' = some (b, rest'')) :
    parse names (n + 1) .conjunction ts = some (.and a b, rest'') := by
  simp [chain, ha, hkey, hb]

/-- or the last one. -/
theorem parse_conjunct (ha : parse names n .operand ts = some (a, rest))
    (hkey : afterKeyword "AND" rest = none) :
    parse names (n + 1) .conjunction ts = some (a, rest) := by
  simp [chain, ha, hkey]

/-- A condition in parentheses. -/
theorem parse_parentheses (h : parse names n .alternatives ts = some (a, .symbol ')' :: rest)) :
    parse names (n + 1) .operand (.symbol '(' :: ts) = some (a, rest) := by
  simp [operand, h]

/-- A column is compared with a text, -/
theorem parse_text {m : Name κ} {w text : String} (hm : resolve names w = some m)
    (htype : m.type = .text) (htext : resolve names text = none) :
    parse names (n + 1) .operand (.word w :: .symbol '=' :: .quoted text.toList :: rest) =
      some (.equals ⟨m.column, .text text, (collate rest).1⟩, (collate rest).2) := by
  have hliteral : literal names m.type (.quoted text.toList) = some (.text text) := by
    rw [literal, String.ofList_toList, if_pos ⟨htype, by rw [htext]; rfl⟩]
  simp [operand, comparison, hm, hliteral]

/-- or with a number. -/
theorem parse_number {m : Name κ} {w : String} {value : ℕ} (hm : resolve names w = some m)
    (htype : m.type = .integer) (hvalue : value < 2 ^ 63) :
    parse names (n + 1) .operand (.word w :: .symbol '=' :: .number value :: rest) =
      some (.equals ⟨m.column, .integer value, (collate rest).1⟩, (collate rest).2) := by
  have hliteral : literal names m.type (.number value) = some (.integer value) :=
    if_pos ⟨.inl htype, hvalue⟩
  simp [operand, comparison, hm, hliteral]

/-- A condition that takes all tokens is what they are read as. -/
theorem readTokens_eq (h : parse names (3 * ts.length + 3) .alternatives ts = some (e, [])) :
    readTokens names ts = some e := by
  rw [readTokens, h]

end

/-! ### Texts in a template -/

/-- The comparison of a column that is compared once. -/
theorem Condition.literal_of_column {i : ℕ} {k : κ} {v : Value} (hnodup : e.columns.Nodup)
    (hcolumn : e.columns[i]? = some k)
    (hliteral : (e.comparisons.map Comparison.literal)[i]? = some v) {c : Comparison κ}
    (hc : c ∈ e.comparisons) (hk : c.column = k) : c.literal = v := by
  obtain ⟨j, hj⟩ := List.getElem?_of_mem hc
  have hcolumn' : e.columns[j]? = some k := by
    rw [Condition.columns, List.getElem?_map, hj, Option.map_some, hk]
  obtain ⟨hi, -⟩ := List.getElem?_eq_some_iff.mp hcolumn
  obtain rfl : i = j := (List.getElem?_inj hi hnodup).mp (hcolumn.trans hcolumn'.symm)
  rw [List.getElem?_map, hj, Option.map_some, Option.some.injEq] at hliteral
  exact hliteral

/-- Two rows that differ in one column, where one has a text; a condition selects it, and not
    the other. -/
def TellsApart (e : Condition κ) (k : κ) (text : String) : Prop :=
  ∃ r r' : Row κ, e.holds r ∧ ¬e.holds r' ∧ r k = .text text ∧ ∀ c, c ≠ k → r c = r' c

/-- What tells two rows apart by a text compares with this text, up to its case. -/
theorem TellsApart.nocaseEq {k : κ} {text w : String} (h : TellsApart e k text)
    (hliteral : ∀ c ∈ e.comparisons, c.column = k → c.literal = .text w) :
    nocaseEq text w := by
  obtain ⟨r, r', hr, hr', htext, hrest⟩ := h
  obtain ⟨c, hc, hholds, hnot⟩ := Condition.exists_comparison hr hr'
  have hk : c.column = k := by
    by_contra hne
    exact hnot ((Comparison.holds_congr (hrest _ hne)).mp hholds)
  have hsame := (Comparison.holds_text (hk ▸ htext)).mp hholds
  rw [hliteral c hc hk] at hsame
  exact nocaseEq_of_same hsame

/-- **A template with two texts.**  Where the text that fills it in is read as a condition on the
    columns of the template, each of the two is plain and no name if the condition tells rows
    apart by it; so it is where it is plain. -/
theorem plain_of_readCondition {text : String} {pre s mid s' post : List Char}
    {pre' mid' : List Token} {k k' : κ} {columns : List κ} (hpre : Lead pre pre') (hmid : Lead mid mid')
    (hpost : post.head? ≠ some '"')
    (htext : text.toList = pre ++ '"' :: (s ++ '"' :: (mid ++ '"' :: (s' ++ '"' :: post))))
    (hread : readCondition names text = some e) (hcolumns : e.columns = k :: k' :: columns)
    (hnodup : e.columns.Nodup)
    (hs : Plain s ∨ TellsApart e k (.ofList s)) (hs' : Plain s' ∨ TellsApart e k' (.ofList s')) :
    (Plain s ∧ resolve names (.ofList s) = none) ∧
      Plain s' ∧ resolve names (.ofList s') = none := by
  obtain ⟨ts, hlex, hspells⟩ := readCondition_spells hread
  rw [htext] at hlex
  obtain ⟨w, ts₁, rfl, hlex₁⟩ := hpre.exists_text hlex
  have hliterals := hspells.literals
  rw [hpre.value] at hliterals
  have hplain : Plain s := by
    refine hs.elim id fun happart => plain_of_nocaseEq hmid.head? ?_ hlex₁
    refine happart.nocaseEq fun c hc hk => ?_
    exact Condition.literal_of_column (i := 0) hnodup (by rw [hcolumns]; rfl)
      (by rw [hliterals]; rfl) hc hk
  obtain ⟨rfl, hlex₂⟩ := eq_of_lex_quoted hmid.head? hplain hlex₁
  -- the second text is the second literal now that the first one is read as it is written
  obtain ⟨w', ts₂, rfl, hlex₃⟩ := hmid.exists_text hlex₂
  rw [hmid.value] at hliterals
  have hplain' : Plain s' := by
    refine hs'.elim id fun happart => plain_of_nocaseEq hpost ?_ hlex₃
    refine happart.nocaseEq fun c hc hk => ?_
    exact Condition.literal_of_column (i := 1) hnodup (by rw [hcolumns]; rfl)
      (by rw [hliterals]; rfl) hc hk
  obtain ⟨rfl, -⟩ := eq_of_lex_quoted hpost hplain' hlex₃
  exact ⟨⟨hplain, hspells.notNames _ (by simp)⟩, hplain', hspells.notNames _ (by simp)⟩

end Sqlite

end PopcornTime
