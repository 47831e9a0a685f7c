import PopcornTime.Lib.FramedReads

namespace PopcornTime

/-!
# Framed messages

A stream of pieces: plain stretches, and messages between an opening and a closing pair.

* `Framing.Piece.Fits` — the pieces that can stand next to each other.
* `Framing.tokens_eq_iff` — every message is read as it was meant exactly if each is `Carried`.
* `Framing.readTokens_eq_iff` — and in reads, exactly if every cut between them is harmless.
-/

namespace Framing

variable {α τ : Type*} [DecidableEq α] (F : Framing α τ)

/-! ### Messages -/

/-- A part of a stream: a plain stretch, or a message with what stands behind its closing pair and
    the token it is meant to be read as. -/
inductive Piece (α τ : Type*)
  | plain (xs : List α)
  | message (body rest : List α) (want : τ)

namespace Piece

/-- The items of a piece. -/
def items : Piece α τ → List α
  | .plain xs => xs
  | .message body rest _ =>
    F.opener :: F.opener :: (body ++ F.closer :: F.closer :: rest)

/-- The token that a piece is meant to be read as. -/
def want? : Piece α τ → Option τ
  | .plain _ => none
  | .message _ _ want => some want

/-- A plain stretch holds no opening pair and begins none; behind a message stand at least the items
    that are passed over and one more, but not enough for a message. -/
def Fits (size : τ → ℕ) : Piece α τ → Prop
  | .plain xs => ¬ [F.opener, F.opener] <:+: xs ∧ xs.getLast? ≠ some F.opener
  | .message body rest want =>
    F.opener ∉ rest ∧ F.skipped < rest.length ∧ rest.length < F.skipped + 4 ∧
      0 < body.length ∧ size want = body.length

/-- The message comes through: its body does not end early, and it is read as it is meant. -/
def Carried : Piece α τ → Prop
  | .plain _ => True
  | .message body _ want =>
    ¬ [F.closer, F.closer] <:+: body ++ [F.closer] ∧ F.token body = some want

end Piece

/-- A plain stretch leaves nothing behind. -/
theorem afterMarked_plain (es : List (α × Bool))
    (h : ¬ [F.opener, F.opener] <:+: es.map Prod.fst) :
    (F.afterMarked .gap es = .gap ∨
        F.afterMarked .gap es = .half ∧ (es.map Prod.fst).getLast? = some F.opener) ∧
      F.tokensMarked .gap es = [] := by
  -- from the end, since only the last item can be half an opener
  induction es using List.reverseRecOn with
  | nil => exact ⟨.inl rfl, rfl⟩
  | append_singleton es e ih =>
    rw [List.map_append, List.map_singleton, pair_infix_concat, not_or] at h
    obtain ⟨hafter, htok⟩ := ih h.1
    -- a cut only takes the reader back to the gap
    have hcut : ∀ s : Pos α, (s = .gap ∨ s = .half ∧ e.1 = F.opener) →
        ((if e.2 then cut s else s) = .gap ∨
          (if e.2 then cut s else s) = .half ∧ e.1 = F.opener) := by
      rintro s (rfl | ⟨rfl, he⟩)
      · exact .inl (by split_ifs <;> rfl)
      · split_ifs
        · exact .inl rfl
        · exact .inr ⟨rfl, he⟩
    rw [afterMarked_append, tokensMarked_append, htok]
    rcases hafter with hgap | ⟨hhalf, hlast⟩
    · rw [hgap]
      refine ⟨?_, rfl⟩
      simp only [afterMarked_cons, afterMarked_nil, List.map_append, List.map_cons, List.map_nil,
        List.getLast?_append, List.getLast?_singleton, Option.some_or, Option.some.injEq]
      refine hcut _ ?_
      by_cases he : e.1 = F.opener
      · exact .inr ⟨by simp [next, he], he⟩
      · exact .inl (by simp [next, he])
    · have he : e.1 ≠ F.opener := fun he => h.2 ⟨hlast, he⟩
      rw [hhalf]
      refine ⟨.inl ?_, rfl⟩
      simp only [afterMarked_cons, afterMarked_nil, nextMarked, next, if_neg he]
      split_ifs <;> rfl

omit [DecidableEq α] in
/-- A pair with its marks. -/
theorem exists_marked_pair {x : α} {es : List (α × Bool)} (h : es.map Prod.fst = [x, x]) :
    ∃ a b, es = [(x, a), (x, b)] := by
  obtain ⟨⟨_, a⟩, es₁, rfl, rfl, h₁⟩ := List.map_eq_cons_iff.mp h
  obtain ⟨⟨_, b⟩, es₂, rfl, hb, h₂⟩ := List.map_eq_cons_iff.mp h₁
  obtain rfl : es₂ = [] := List.map_eq_nil_iff.mp h₂
  obtain rfl : _ = _ := hb
  exact ⟨a, b, rfl⟩

/-- The body of a message that does not end early, in an open frame. -/
theorem tokensMarked_body (p : List α) {xs : List α} {es : List (α × Bool)}
    (h : ¬ [F.closer, F.closer] <:+: p ++ xs ++ [F.closer])
    (hes : es.map Prod.fst = xs ++ [F.closer, F.closer]) :
    F.tokensMarked (.frame p) es = (F.token (p ++ xs)).toList := by
  induction xs generalizing p es with
  | nil =>
    rw [List.append_nil, pair_infix_concat, not_or] at h
    obtain ⟨a, b, rfl⟩ := exists_marked_pair hes
    have hlast : p.getLast? ≠ some F.closer := fun hl => h.2 ⟨hl, rfl⟩
    have hfirst : F.nextMarked (.frame p) (F.closer, a) = .frame (p ++ [F.closer]) := by
      simp [nextMarked, next, hlast, cut]
    have hemit : F.emit (.frame p) F.closer = none := by simp [emit, hlast]
    rw [tokensMarked_cons, tokensMarked_cons, tokensMarked_nil, hfirst, hemit]
    simp [emit]
  | cons x xs ih =>
    obtain ⟨e, es, rfl, he, hes⟩ := List.map_eq_cons_iff.mp hes
    have hsplit : p ++ (x :: xs) = p ++ [x] ++ xs := by simp
    have hopen : ¬ (p.getLast? = some F.closer ∧ x = F.closer) := fun hend =>
      h ((pair_infix_concat.mpr (.inr hend)).trans ⟨[], xs ++ [F.closer], by simp⟩)
    have hnext : F.nextMarked (.frame p) e = .frame (p ++ [x]) := by
      simp only [nextMarked, next, he, if_neg hopen, cut, ite_self]
    have hemit : F.emit (.frame p) e.1 = none := by simp only [emit, he, if_neg hopen]
    rw [tokensMarked_cons, hnext, hemit, ih (p ++ [x]) (by rwa [← hsplit]) hes, hsplit]
    rfl

/-- Items behind a closing pair. -/
theorem tokens_behind (xs : List α) :
    F.tokens F.behind xs = F.tokens .gap (xs.drop F.skipped) := by
  cases hskip : F.skipped with
  | zero => simp [behind, hskip]
  | succ n =>
    simp only [behind, hskip]
    exact (F.after_skip n xs).2

/-- A message is left behind at its end, and what stands behind its closing pair emits nothing. -/
theorem afterMarked_message (body : List α) {rest : List α} {es es' : List (α × Bool)}
    (hrest : F.opener ∉ rest) (hlen : F.skipped ≤ rest.length)
    (hes : es.map Prod.fst = F.opener :: F.opener :: (body ++ [F.closer, F.closer]))
    (hes' : es'.map Prod.fst = rest) :
    F.afterMarked .gap (es ++ es') = .gap ∧
      F.tokensMarked .gap (es ++ es') = F.tokensMarked .gap es := by
  have hsplit : F.opener :: F.opener :: (body ++ [F.closer, F.closer]) =
      (F.opener :: F.opener :: body) ++ [F.closer, F.closer] := by simp
  rw [hsplit, List.map_eq_append_iff] at hes
  obtain ⟨es₁, es₂, rfl, -, hclosers⟩ := hes
  obtain ⟨a, b, rfl⟩ := exists_marked_pair hclosers
  obtain ⟨hout, hleft⟩ := F.afterMarked_closers (a := a) (b := b) (F.left_afterMarked_le es₁)
  rw [← afterMarked_append] at hout hleft
  have hno : F.opener ∉ es'.map Prod.fst := by rw [hes']; exact hrest
  refine ⟨?_, ?_⟩
  · rw [afterMarked_append]
    refine F.afterMarked_of_not_mem hout hno (hleft.trans ?_)
    rw [← List.length_map (f := Prod.fst), hes']
    exact hlen
  · rw [tokensMarked_append, (F.tokensMarked_of_not_mem hout hno).1, List.append_nil]

/-- A message whose opening pair lies within a read. -/
theorem tokensMarked_whole {body : List α} {b : Bool} {es : List (α × Bool)}
    (h : ¬ [F.closer, F.closer] <:+: body ++ [F.closer])
    (hes : es.map Prod.fst = body ++ [F.closer, F.closer]) :
    F.tokensMarked .gap ((F.opener, false) :: (F.opener, b) :: es) = (F.token body).toList := by
  have hhalf : F.nextMarked .gap (F.opener, false) = .half := by simp [nextMarked, next]
  have hopen : F.nextMarked .half (F.opener, b) = .frame [] := by simp [nextMarked, next, cut]
  rw [tokensMarked_cons, tokensMarked_cons, hhalf, hopen, F.tokensMarked_body [] h hes]
  rfl

section Size

variable (size : τ → ℕ) (hsize : ∀ p t, F.token p = some t → size t ≤ p.length)

include hsize

/-- A message whose opening pair lies in two reads: what is read of it is shorter. -/
theorem sum_size_torn {body : List α} {b : Bool} {es : List (α × Bool)} (hpos : 0 < body.length)
    (hes : es.map Prod.fst = body ++ [F.closer, F.closer]) :
    ((F.tokensMarked .gap ((F.opener, true) :: (F.opener, b) :: es)).map size).sum <
      body.length := by
  have hgap : F.nextMarked .gap (F.opener, true) = .gap := by simp [nextMarked, next, cut]
  have hroom : room (F.nextMarked .gap (F.opener, b)) ≤ 1 := by
    simp only [nextMarked, next]
    split_ifs <;> simp [room, cut]
  have hlen : es.length = body.length + 2 := by
    rw [← List.length_map (f := Prod.fst), hes, List.length_append]; rfl
  rw [tokensMarked_cons, tokensMarked_cons, hgap, emit_gap, Option.toList_none, List.nil_append,
    List.nil_append]
  exact F.sum_size_lt size hsize hpos (by omega)

/-- A message that ends early, within a single read: what is read of it is shorter. -/
theorem sum_size_early {body rest : List α} (hrest : rest.length < F.skipped + 4)
    (h : [F.closer, F.closer] <:+: body ++ [F.closer]) :
    ((F.tokens .gap (F.opener :: F.opener :: (body ++ F.closer :: F.closer :: rest))).map
      size).sum < body.length := by
  obtain ⟨⟨p, w⟩, hfound⟩ : ∃ parts, (body ++ [F.closer]).dropInfix? [F.closer, F.closer] =
      some parts := by
    rw [← Option.ne_none_iff_exists']
    exact fun hnone => not_infix_of_dropInfix?_eq_none hnone h
  obtain ⟨hbody, hp⟩ := (dropInfix?_eq_some_iff_first (by simp)).mp hfound
  have hlen := congrArg List.length hbody
  simp only [List.length_append, List.length_cons, List.length_nil] at hlen
  have hsplit : F.opener :: F.opener :: (body ++ F.closer :: F.closer :: rest) =
      ([] ++ [F.opener, F.opener] ++ (p ++ [F.closer, F.closer])) ++
        (w ++ F.closer :: rest) := by
    have : body ++ F.closer :: F.closer :: rest = body ++ [F.closer] ++ F.closer :: rest := by simp
    rw [this, hbody]
    simp
  obtain ⟨hafter, htok⟩ := F.after_framed [] p (by simp [List.infix_cons_iff]) hp
  rw [hsplit, tokens_append, hafter, htok, tokens_behind, List.map_append, List.sum_append]
  -- the rest of the body and what stands behind it may hold further messages, but shorter ones
  have hfirst : ((F.token p).toList.map size).sum ≤ p.length := by
    cases ht : F.token p with
    | none => simp
    | some t => simpa using hsize p t ht
  have hothers : ((F.tokens .gap ((w ++ F.closer :: rest).drop F.skipped)).map size).sum <
      body.length - p.length := by
    rw [← (F.afterMarked_unmarked _ _).2]
    refine F.sum_size_lt size hsize (by omega) ?_
    simp only [room, unmarked, List.length_map, List.length_drop, List.length_append,
      List.length_cons]
    omega
  omega

end Size

/-! ### Streams of messages -/

/-- Where the message is torn: a read ends within its opening pair. -/
def Piece.Torn : Piece α τ → List (α × Bool) → Prop
  | .message _ _ _, e :: _ => e.2 = true
  | _, _ => False

section Streams

variable {F} {size : τ → ℕ}

omit [DecidableEq α] in
/-- A message with the marks of the reads. -/
theorem Piece.exists_marks {body rest : List α} {want : τ} {es : List (α × Bool)}
    (hes : es.map Prod.fst = (Piece.message body rest want).items F) :
    ∃ a b es₁ es₂, es = ((F.opener, a) :: (F.opener, b) :: es₁) ++ es₂ ∧
      es₁.map Prod.fst = body ++ [F.closer, F.closer] ∧ es₂.map Prod.fst = rest := by
  have hsplit : (Piece.message body rest want).items F =
      [F.opener, F.opener] ++ (body ++ [F.closer, F.closer]) ++ rest := by simp [Piece.items]
  rw [hsplit, List.map_eq_append_iff] at hes
  obtain ⟨es', es₂, rfl, hes', hes₂⟩ := hes
  rw [List.map_eq_append_iff] at hes'
  obtain ⟨es₀, es₁, rfl, hopeners, hes₁⟩ := hes'
  obtain ⟨a, b, rfl⟩ := exists_marked_pair hopeners
  exact ⟨a, b, es₁, es₂, rfl, hes₁, hes₂⟩

/-- A piece that fits is left behind at its end. -/
theorem Piece.Fits.afterMarked {piece : Piece α τ} {es : List (α × Bool)}
    (h : piece.Fits F size) (hes : es.map Prod.fst = piece.items F) :
    F.afterMarked .gap es = .gap := by
  match piece with
  | .plain xs =>
    obtain ⟨hafter, -⟩ := F.afterMarked_plain es (by rw [hes]; exact h.1)
    rcases hafter with hgap | ⟨-, hlast⟩
    · exact hgap
    · rw [hes] at hlast
      exact absurd hlast h.2
  | .message body rest want =>
    obtain ⟨a, b, es₁, es₂, rfl, hes₁, hes₂⟩ := Piece.exists_marks hes
    exact (F.afterMarked_message body h.1 h.2.1.le (by simp [hes₁]) hes₂).1

/-- A piece that comes through, in a stretch where it is not torn. -/
theorem Piece.Carried.tokensMarked {piece : Piece α τ} {es : List (α × Bool)}
    (hfits : piece.Fits F size) (h : piece.Carried F) (hes : es.map Prod.fst = piece.items F)
    (hwhole : ¬ piece.Torn es) : F.tokensMarked .gap es = piece.want?.toList := by
  match piece with
  | .plain xs => exact (F.afterMarked_plain es (by rw [hes]; exact hfits.1)).2
  | .message body rest want =>
    obtain ⟨a, b, es₁, es₂, rfl, hes₁, hes₂⟩ := Piece.exists_marks hes
    obtain rfl : a = false := by simpa [Piece.Torn] using hwhole
    rw [(F.afterMarked_message body hfits.1 hfits.2.1.le (by simp [hes₁]) hes₂).2,
      F.tokensMarked_whole h.1 hes₁, h.2]
    rfl

variable (F) in
/-- What is read of a piece that does not end early: of a message, one token. -/
def Piece.ReadWhole : Piece α τ → Prop
  | .plain xs => F.tokens .gap xs = []
  | .message body rest want =>
    ¬ [F.closer, F.closer] <:+: body ++ [F.closer] ∧
      ∃ t, F.token body = some t ∧
        F.tokens .gap ((Piece.message body rest want).items F) = [t]

variable (hsize : ∀ p t, F.token p = some t → size t ≤ p.length)

include hsize

/-- A piece that comes through, where it is torn: what is read of it is too short. -/
theorem Piece.Torn.sum_lt {piece : Piece α τ} {es : List (α × Bool)} (hfits : piece.Fits F size)
    (hes : es.map Prod.fst = piece.items F) (h : piece.Torn es) :
    ((F.tokensMarked .gap es).map size).sum < (piece.want?.toList.map size).sum := by
  match piece, es, h with
  | .message body rest want, e :: es, h =>
    obtain ⟨a, b, es₁, es₂, heq, hes₁, hes₂⟩ := Piece.exists_marks hes
    rw [List.cons_append] at heq
    obtain ⟨rfl, rfl⟩ := List.cons.inj heq
    obtain rfl : a = true := h
    rw [← List.cons_append, (F.afterMarked_message body hfits.1 hfits.2.1.le (by simp [hes₁]) hes₂).2]
    simpa [Piece.want?, hfits.2.2.2.2] using F.sum_size_torn size hsize hfits.2.2.2.1 hes₁

/-- What is read of a piece within a single read is at most as long as what is meant, and as long
    only if no message ends early. -/
theorem Piece.Fits.sum_le {piece : Piece α τ} (h : piece.Fits F size) :
    ((F.tokens .gap (piece.items F)).map size).sum ≤ (piece.want?.toList.map size).sum ∧
      (((F.tokens .gap (piece.items F)).map size).sum = (piece.want?.toList.map size).sum →
        piece.ReadWhole F) := by
  have hmarks : (unmarked (piece.items F)).map Prod.fst = piece.items F := by
    simp [unmarked, Function.comp_def]
  have htok := (F.afterMarked_unmarked .gap (piece.items F)).2
  cases piece with
  | plain xs =>
    have hnone : F.tokens .gap ((Piece.plain xs : Piece α τ).items F) = [] := by
      rw [← htok]; exact (F.afterMarked_plain _ (by rw [hmarks]; exact h.1)).2
    exact ⟨by simp [hnone], fun _ => hnone⟩
  | message body rest want =>
    have hwant : ((Piece.message body rest want).want?.toList.map size).sum = body.length := by
      simpa [Piece.want?] using h.2.2.2.2
    rw [hwant]
    -- a body that closes early is read as less than it says
    by_cases hearly : [F.closer, F.closer] <:+: body ++ [F.closer]
    · have hlt := F.sum_size_early size hsize h.2.2.1 hearly
      exact ⟨hlt.le, fun heq => absurd heq hlt.ne⟩
    · have hread : F.tokens .gap ((Piece.message body rest want).items F) =
          (F.token body).toList := by
        obtain ⟨a, b, es₁, es₂, heq, hes₁, hes₂⟩ := Piece.exists_marks hmarks
        -- the marks of a piece that came in one read are all down
        have ha : a = false := by
          have := congrArg List.head? heq
          simpa [unmarked, Piece.items] using this.symm
        rw [← htok, heq, (F.afterMarked_message body h.1 h.2.1.le (by simp [hes₁]) hes₂).2, ha]
        exact F.tokensMarked_whole hearly hes₁
      cases ht : F.token body with
      | none =>
        rw [ht] at hread
        rw [hread]
        exact ⟨by simp, fun heq => absurd heq (by simpa using h.2.2.2.1.ne)⟩
      | some t =>
        rw [ht] at hread
        exact ⟨by simpa [hread] using hsize body t ht, fun _ => ⟨hearly, t, ht, hread⟩⟩

/-- What is read of a stream within a single read is at most as long as what is meant. -/
theorem sum_tokens_le {pieces : List (Piece α τ)} (h : ∀ piece ∈ pieces, piece.Fits F size) :
    ((F.tokens .gap (pieces.flatMap (Piece.items F))).map size).sum ≤
      ((pieces.flatMap (fun piece => piece.want?.toList)).map size).sum := by
  induction pieces with
  | nil => simp
  | cons piece pieces ih =>
    rw [List.forall_mem_cons] at h
    have hafter : F.after .gap (piece.items F) = .gap := by
      rw [← (F.afterMarked_unmarked _ _).1]
      exact h.1.afterMarked (by simp [unmarked, Function.comp_def])
    rw [List.flatMap_cons, List.flatMap_cons, tokens_append, hafter, List.map_append,
      List.map_append, List.sum_append, List.sum_append]
    exact Nat.add_le_add (h.1.sum_le hsize).1 (ih h.2)

/-- In a single read, every message is read as it was meant exactly if each comes through. -/
theorem tokens_eq_iff {pieces : List (Piece α τ)} (h : ∀ piece ∈ pieces, piece.Fits F size) :
    F.tokens .gap (pieces.flatMap (Piece.items F)) =
        pieces.flatMap (fun piece => piece.want?.toList) ↔
      ∀ piece ∈ pieces, piece.Carried F := by
  induction pieces with
  | nil => simp
  | cons piece pieces ih =>
    rw [List.forall_mem_cons] at h ⊢
    have hmarks : (unmarked (piece.items F)).map Prod.fst = piece.items F := by
      simp [unmarked, Function.comp_def]
    have hafter : F.after .gap (piece.items F) = .gap := by
      rw [← (F.afterMarked_unmarked _ _).1]; exact h.1.afterMarked hmarks
    rw [List.flatMap_cons, List.flatMap_cons, tokens_append, hafter]
    constructor
    · intro heq
      obtain ⟨hle, hexact⟩ := h.1.sum_le hsize
      -- each part is at most as long as what is meant, and both together are as long
      have hsum : ((F.tokens .gap (piece.items F)).map size).sum =
          (piece.want?.toList.map size).sum := by
        have hrest := sum_tokens_le hsize h.2
        have htotal := congrArg (fun ts => (ts.map size).sum) heq
        simp only [List.map_append, List.sum_append] at htotal
        omega
      cases piece with
      | plain xs =>
        have hnone : F.tokens .gap ((Piece.plain xs : Piece α τ).items F) = [] := hexact hsum
        rw [hnone] at heq
        exact ⟨trivial, (ih h.2).mp heq⟩
      | message body rest want =>
        obtain ⟨hwhole, t, ht, hread⟩ := hexact hsum
        rw [hread] at heq
        obtain ⟨rfl, hrest⟩ := List.cons.inj (show t :: _ = want :: _ from heq)
        exact ⟨⟨hwhole, ht⟩, (ih h.2).mp hrest⟩
    · rintro ⟨hcarried, hrest⟩
      have htorn : ¬ piece.Torn (unmarked (piece.items F)) := by
        cases piece <;> simp [Piece.Torn, unmarked, Piece.items]
      rw [← (F.afterMarked_unmarked _ _).2, hcarried.tokensMarked h.1 hmarks htorn,
        (ih h.2).mpr hrest]

end Streams

/-! ### Streams of messages in reads -/

/-- Behind a closing pair, a stretch without openers that is longer than what is passed over. -/
theorem harmlessMarked_of_not_mem {s : Pos α} {es es' : List (α × Bool)}
    (hs : s = .gap ∨ ∃ n, s = .skip n ∧ n + 1 < es.length) (hes : F.opener ∉ es.map Prod.fst)
    (h : F.HarmlessMarked .gap es') :
    F.HarmlessCut s (nextRead (es ++ es')) ∧ F.HarmlessMarked s (es ++ es') := by
  induction es generalizing s with
  | nil =>
    rcases hs with rfl | ⟨n, -, hn⟩
    · exact ⟨trivial, h⟩
    · exact absurd hn (by simp)
  | cons e es ih =>
    have hmem := hes
    rw [List.map_cons, List.mem_cons, not_or] at hmem
    have he : e.1 ≠ F.opener := fun he => hmem.1 he.symm
    rcases hs with rfl | ⟨n, rfl, hn⟩
    · have hgap : F.next .gap e.1 = .gap := by simp [next, he]
      obtain ⟨hcut, hrest⟩ := ih (.inl rfl) hmem.2
      exact ⟨trivial, F.harmlessMarked_cons hgap hcut hrest⟩
    · rw [List.length_cons] at hn
      refine ⟨fun hin => hes ?_, ?_⟩
      · -- what is skipped lies within these items, none of which opens a message
        have hprefix : (nextRead (e :: es ++ es')).take (n + 2) <+: (e :: es).map Prod.fst := by
          have htake := (nextRead_isPrefix (e :: es ++ es')).take (n + 2)
          rw [List.map_append, List.take_append_of_le_length (by
            rw [List.length_map, List.length_cons]; omega)] at htake
          exact htake.trans (List.take_prefix _ _)
        exact (hin.trans hprefix.isInfix).subset (by simp)
      · have hnext : F.next (.skip n) e.1 = .gap ∨
            ∃ m, F.next (.skip n) e.1 = .skip m ∧ m + 1 < es.length := by
          cases n with
          | zero => exact .inl rfl
          | succ n => exact .inr ⟨n, rfl, by omega⟩
        obtain ⟨hcut, hrest⟩ := ih hnext hmem.2
        exact ⟨fun _ => hcut, hrest⟩

/-- A plain stretch, of which an opener may stand ahead. -/
theorem harmlessMarked_plain {s : Pos α} {es es' : List (α × Bool)}
    (hs : s = .gap ∧ ¬ [F.opener, F.opener] <:+: es.map Prod.fst ∨
      s = .half ∧ ¬ [F.opener, F.opener] <:+: F.opener :: es.map Prod.fst ∧ es ≠ [])
    (hlast : (es.map Prod.fst).getLast? ≠ some F.opener) (h : F.HarmlessMarked .gap es') :
    F.HarmlessMarked s (es ++ es') := by
  induction es generalizing s with
  | nil =>
    rcases hs with ⟨rfl, -⟩ | ⟨-, -, hne⟩
    · exact h
    · exact absurd rfl hne
  | cons e es ih =>
    have hlast' : (es.map Prod.fst).getLast? ≠ some F.opener := fun hl =>
      hlast (by rw [List.map_cons, List.getLast?_cons, hl]; rfl)
    rcases hs with ⟨rfl, hno⟩ | ⟨rfl, hno, -⟩
    · by_cases he : e.1 = F.opener
      · -- half an opener: another item follows, and it does not complete the pair
        have hhalf : F.next .gap e.1 = .half := by simp [next, he]
        rw [List.map_cons, he] at hno
        have hne : es ≠ [] := by
          rintro rfl
          exact hlast (by simp [he])
        have hhead : F.HarmlessCut .half (nextRead (es ++ es')) := by
          obtain ⟨e', es, rfl⟩ := List.exists_cons_of_ne_nil hne
          intro hhead
          refine hno ⟨[], es.map Prod.fst, ?_⟩
          simpa [nextRead] using hhead.symm
        exact F.harmlessMarked_cons hhalf hhead (ih (.inr ⟨rfl, hno, hne⟩) hlast')
      · have hgap : F.next .gap e.1 = .gap := by simp [next, he]
        have hno' : ¬ [F.opener, F.opener] <:+: es.map Prod.fst := fun hin =>
          hno (hin.trans (List.suffix_cons _ _).isInfix)
        exact F.harmlessMarked_cons hgap trivial (ih (.inl ⟨rfl, hno'⟩) hlast')
    · -- behind half an opener any other item is back in the gap
      have he : e.1 ≠ F.opener := fun he => hno ⟨[], es.map Prod.fst, by simp [he]⟩
      have hgap : F.next .half e.1 = .gap := by simp [next, he]
      have hno' : ¬ [F.opener, F.opener] <:+: es.map Prod.fst := fun hin =>
        hno (hin.trans ⟨[F.opener, e.1], [], by simp⟩)
      exact F.harmlessMarked_cons hgap trivial (ih (.inl ⟨rfl, hno'⟩) hlast')

/-- In an open frame no cut makes a difference. -/
theorem harmlessMarked_body (p : List α) {xs : List α} {es es' : List (α × Bool)}
    (hwhole : ¬ [F.closer, F.closer] <:+: p ++ xs ++ [F.closer])
    (hes : es.map Prod.fst = xs ++ [F.closer, F.closer])
    (hcut : F.HarmlessCut F.behind (nextRead es')) (h : F.HarmlessMarked F.behind es') :
    F.HarmlessMarked (.frame p) (es ++ es') := by
  induction xs generalizing p es with
  | nil =>
    rw [List.append_nil, pair_infix_concat, not_or] at hwhole
    obtain ⟨a, b, rfl⟩ := exists_marked_pair hes
    have hlast : p.getLast? ≠ some F.closer := fun hl => hwhole.2 ⟨hl, rfl⟩
    have hfirst : F.next (.frame p) F.closer = .frame (p ++ [F.closer]) := by simp [next, hlast]
    have hsecond : F.next (.frame (p ++ [F.closer])) F.closer = F.behind := by simp [next]
    exact F.harmlessMarked_cons hfirst trivial (F.harmlessMarked_cons hsecond hcut h)
  | cons x xs ih =>
    obtain ⟨e, es, rfl, he, hes⟩ := List.map_eq_cons_iff.mp hes
    have hopen : ¬ (p.getLast? = some F.closer ∧ x = F.closer) := fun hend =>
      hwhole ((pair_infix_concat.mpr (.inr hend)).trans ⟨[], xs ++ [F.closer], by simp⟩)
    have hnext : F.next (.frame p) e.1 = .frame (p ++ [x]) := by
      simp only [next, he, if_neg hopen]
    have hsplit : p ++ [x] ++ xs = p ++ (x :: xs) := by simp
    exact F.harmlessMarked_cons hnext trivial (ih (p ++ [x]) (by rwa [hsplit]) hes)

section Streams

variable {F} {size : τ → ℕ}

/-- A piece that comes through and is not torn. -/
theorem Piece.Carried.harmlessMarked {piece : Piece α τ} {es es' : List (α × Bool)}
    (hfits : piece.Fits F size) (h : piece.Carried F) (hes : es.map Prod.fst = piece.items F)
    (hwhole : ¬ piece.Torn es) (hrest : F.HarmlessMarked .gap es') :
    F.HarmlessMarked .gap (es ++ es') := by
  match piece with
  | .plain xs =>
    have hxs : es.map Prod.fst = xs := hes
    exact F.harmlessMarked_plain (.inl ⟨rfl, by rw [hxs]; exact hfits.1⟩)
      (by rw [hxs]; exact hfits.2) hrest
  | .message body rest want =>
    obtain ⟨a, b, es₁, es₂, rfl, hes₁, hes₂⟩ := Piece.exists_marks hes
    -- a message that is not torn begins inside a read
    obtain rfl : a = false := by simpa [Piece.Torn] using hwhole
    have hlen : es₂.length = rest.length := by rw [← hes₂, List.length_map]
    -- what is skipped behind the body ends inside the message
    have hbehind : F.behind = .gap ∨ ∃ n, F.behind = .skip n ∧ n + 1 < es₂.length := by
      have hlt := hfits.2.1
      unfold behind
      split
      case h_1 => exact .inl rfl
      case h_2 n hn => exact .inr ⟨n, rfl, by omega⟩
    obtain ⟨hcut, hpassed⟩ :=
      F.harmlessMarked_of_not_mem hbehind (by rw [hes₂]; exact hfits.1) hrest
    rw [List.append_assoc]
    refine ⟨fun hmark => absurd hmark (by simp), ?_⟩
    have hhalf : F.next .gap F.opener = .half := by simp [next]
    have hopen : F.next .half F.opener = .frame [] := by simp [next]
    show F.HarmlessMarked (F.next .gap F.opener) ((F.opener, b) :: (es₁ ++ (es₂ ++ es')))
    rw [hhalf]
    exact F.harmlessMarked_cons hopen trivial (F.harmlessMarked_body [] h.1 hes₁ hcut hpassed)

variable (hsize : ∀ p t, F.token p = some t → size t ≤ p.length)

include hsize

/-- What is read of a marked stream is at most as long as what is meant. -/
theorem sum_tokensMarked_le {pieces : List (Piece α τ)} {es : List (α × Bool)}
    (h : ∀ piece ∈ pieces, piece.Fits F size ∧ piece.Carried F)
    (hes : es.map Prod.fst = pieces.flatMap (Piece.items F)) :
    ((F.tokensMarked .gap es).map size).sum ≤
      ((pieces.flatMap (fun piece => piece.want?.toList)).map size).sum := by
  induction pieces generalizing es with
  | nil =>
    obtain rfl : es = [] := List.map_eq_nil_iff.mp hes
    exact le_rfl
  | cons piece pieces ih =>
    rw [List.forall_mem_cons] at h
    rw [List.flatMap_cons, List.map_eq_append_iff] at hes
    obtain ⟨es₁, es₂, rfl, hes₁, hes₂⟩ := hes
    have hfirst : ((F.tokensMarked .gap es₁).map size).sum ≤
        (piece.want?.toList.map size).sum := by
      by_cases htorn : piece.Torn es₁
      · exact (htorn.sum_lt hsize h.1.1 hes₁).le
      · rw [h.1.2.tokensMarked h.1.1 hes₁ htorn]
    rw [List.flatMap_cons, tokensMarked_append, h.1.1.afterMarked hes₁, List.map_append,
      List.map_append, List.sum_append, List.sum_append]
    exact Nat.add_le_add hfirst (ih h.2 hes₂)

/-- If every message is read as it was meant, no message is torn. -/
theorem harmlessMarked_of_tokens {pieces : List (Piece α τ)} {es : List (α × Bool)}
    (h : ∀ piece ∈ pieces, piece.Fits F size ∧ piece.Carried F)
    (hes : es.map Prod.fst = pieces.flatMap (Piece.items F))
    (heq : F.tokensMarked .gap es = pieces.flatMap (fun piece => piece.want?.toList)) :
    F.HarmlessMarked .gap es := by
  induction pieces generalizing es with
  | nil =>
    obtain rfl : es = [] := List.map_eq_nil_iff.mp hes
    exact trivial
  | cons piece pieces ih =>
    rw [List.forall_mem_cons] at h
    rw [List.flatMap_cons, List.map_eq_append_iff] at hes
    obtain ⟨es₁, es₂, rfl, hes₁, hes₂⟩ := hes
    rw [List.flatMap_cons, tokensMarked_append, h.1.1.afterMarked hes₁] at heq
    have htorn : ¬ piece.Torn es₁ := fun htorn => by
      have hlt := htorn.sum_lt hsize h.1.1 hes₁
      have hle := sum_tokensMarked_le hsize h.2 hes₂
      have htotal := congrArg (fun ts => (ts.map size).sum) heq
      simp only [List.map_append, List.sum_append] at htotal
      omega
    rw [h.1.2.tokensMarked h.1.1 hes₁ htorn, List.append_cancel_left_eq] at heq
    exact h.1.2.harmlessMarked h.1.1 hes₁ htorn (ih h.2 hes₂ heq)

/-- Where every message comes through, the stream in reads is read as in a single one exactly if
    every cut is harmless. -/
theorem readTokens_eq_iff {pieces : List (Piece α τ)} {reads : List (List α)}
    (h : ∀ piece ∈ pieces, piece.Fits F size ∧ piece.Carried F)
    (hreads : reads.flatten = pieces.flatMap (Piece.items F)) :
    F.readTokens .gap reads = F.tokens .gap reads.flatten ↔ F.HarmlessCuts .gap reads := by
  constructor
  · intro heq
    have hmarks : (reads.flatMap markRead).map Prod.fst = pieces.flatMap (Piece.items F) := by
      rw [List.map_flatMap, ← hreads]
      simp [map_markRead, List.flatMap_def]
    rw [hreads, (tokens_eq_iff hsize (fun piece hp => (h piece hp).1)).mpr
      (fun piece hp => (h piece hp).2), readTokens_eq_tokensMarked F rfl] at heq
    exact F.harmlessCuts_of_marked trivial (harmlessMarked_of_tokens hsize h hmarks heq)
  · exact fun hharmless => F.readTokens_of_harmlessCuts hharmless

end Streams

end Framing

end PopcornTime
