import Mathlib.Algebra.Order.BigOperators.Group.List
import Mathlib.Algebra.Order.Ring.Nat
import PopcornTime.Lib.Framing

namespace PopcornTime

/-!
# The reads a framed stream arrives in

A stream whose items carry a mark where they are the last of their read, so that any part of it can
be looked at without its neighbours.

* `Framing.afterMarked`, `Framing.tokensMarked` — a marked stream item by item.
* `Framing.sum_size_le` — what is read of a stream is no longer than the stream.
* `Framing.harmlessCuts_of_marked` — the cuts of a stream are those of its parts.
-/

namespace Framing

variable {α τ : Type*} (F : Framing α τ)

/-! ### Marks and places -/

/-- A stretch within a single read. -/
def unmarked (xs : List α) : List (α × Bool) :=
  xs.map (fun x => (x, false))

/-- The items of a read, the last of them marked. -/
def markRead : List α → List (α × Bool)
  | [] => []
  | [x] => [(x, true)]
  | x :: y :: r => (x, false) :: markRead (y :: r)

/-- The marks can be taken away again. -/
theorem map_markRead (r : List α) : (markRead r).map Prod.fst = r := by
  induction r using markRead.induct with
  | case1 => rfl
  | case2 x => rfl
  | case3 x y r ih => simp [markRead, ih]

/-- How many items the reader passes over whatever they are. -/
def left : Pos α → ℕ
  | .half => 1
  | .skip n => n + 1
  | _ => 0

/-- The end of a read leaves no more to be passed over. -/
theorem left_cut_le (s : Pos α) : left (cut s) ≤ left s := by
  cases s <;> simp [cut, left]

/-- Behind a frame there is what the framing says. -/
theorem left_behind : left F.behind = F.skipped := by
  unfold behind; split <;> simp_all [left]

/-- Behind a frame there is no frame yet. -/
theorem behind_ne_frame (p : List α) : F.behind ≠ .frame p := by
  unfold behind; split <;> simp

/-- Only what is in a frame already is in it behind the end of a read. -/
theorem cut_eq_frame {s : Pos α} {p : List α} : cut s = .frame p ↔ s = .frame p := by
  cases s <;> simp [cut]

variable [DecidableEq α]

/-! ### Marked streams -/

/-- The place behind one more item, and behind the read if it ends there. -/
def nextMarked (s : Pos α) (e : α × Bool) : Pos α :=
  if e.2 then cut (F.next s e.1) else F.next s e.1

/-- The place behind a stretch of a marked stream. -/
def afterMarked (s : Pos α) (es : List (α × Bool)) : Pos α :=
  es.foldl F.nextMarked s

/-- The tokens of a stretch of a marked stream. -/
def tokensMarked : Pos α → List (α × Bool) → List τ
  | _, [] => []
  | s, e :: es => (F.emit s e.1).toList ++ tokensMarked (F.nextMarked s e) es

@[simp] theorem afterMarked_nil (s : Pos α) : F.afterMarked s [] = s := rfl

@[simp] theorem afterMarked_cons (s : Pos α) (e : α × Bool) (es : List (α × Bool)) :
    F.afterMarked s (e :: es) = F.afterMarked (F.nextMarked s e) es := rfl

@[simp] theorem afterMarked_append (s : Pos α) (es es' : List (α × Bool)) :
    F.afterMarked s (es ++ es') = F.afterMarked (F.afterMarked s es) es' :=
  List.foldl_append

@[simp] theorem tokensMarked_nil (s : Pos α) : F.tokensMarked s [] = [] := rfl

@[simp] theorem tokensMarked_cons (s : Pos α) (e : α × Bool) (es : List (α × Bool)) :
    F.tokensMarked s (e :: es) =
      (F.emit s e.1).toList ++ F.tokensMarked (F.nextMarked s e) es := rfl

@[simp] theorem tokensMarked_append (s : Pos α) (es es' : List (α × Bool)) :
    F.tokensMarked s (es ++ es') =
      F.tokensMarked s es ++ F.tokensMarked (F.afterMarked s es) es' := by
  induction es generalizing s with
  | nil => rfl
  | cons e es ih => simp [ih]

/-- Without marks it is the stretch of one read. -/
theorem afterMarked_unmarked (s : Pos α) (xs : List α) :
    F.afterMarked s (unmarked xs) = F.after s xs ∧
      F.tokensMarked s (unmarked xs) = F.tokens s xs := by
  induction xs generalizing s with
  | nil => exact ⟨rfl, rfl⟩
  | cons x xs ih => simpa [unmarked, nextMarked] using ih (F.next s x)

/-- The mark of a read is its end. -/
theorem afterMarked_markRead {s : Pos α} (hs : cut s = s) (r : List α) :
    F.afterMarked s (markRead r) = cut (F.after s r) := by
  suffices go : ∀ t, r ≠ [] → F.afterMarked t (markRead r) = cut (F.after t r) by
    by_cases hr : r = []
    · subst hr; exact hs.symm
    · exact go s hr
  induction r using markRead.induct with
  | case1 => exact fun _ h => absurd rfl h
  | case2 x => exact fun t _ => rfl
  | case3 x y r ih => exact fun t _ => ih (F.next t x) (by simp)

/-- A mark emits nothing. -/
theorem tokensMarked_markRead (s : Pos α) (r : List α) :
    F.tokensMarked s (markRead r) = F.tokens s r := by
  induction r using markRead.induct generalizing s with
  | case1 => rfl
  | case2 x => rfl
  | case3 x y r ih => exact congrArg _ (ih (F.next s x))

/-- A stream that arrives in reads is a marked stream. -/
theorem readTokens_eq_tokensMarked {s : Pos α} (hs : cut s = s) (reads : List (List α)) :
    F.readTokens s reads = F.tokensMarked s (reads.flatMap markRead) := by
  induction reads generalizing s with
  | nil => rfl
  | cons r rs ih =>
    rw [readTokens, List.flatMap_cons, tokensMarked_append, tokensMarked_markRead,
      F.afterMarked_markRead hs, ih (cut_cut _)]

/-! ### What is passed over -/

/-- An item leaves no more to be passed over than there was, or than comes with a frame. -/
theorem left_next_le (s : Pos α) (x : α) :
    left (F.next s x) ≤ max (left s) (max 1 F.skipped) := by
  match s with
  | .gap => simp only [next]; split_ifs <;> simp only [left] <;> omega
  | .half => simp only [next]; split_ifs <;> simp [left]
  | .skip 0 => simp [left]
  | .skip (n + 1) => simp only [next_skip_succ, left]; omega
  | .frame p =>
    simp only [next]
    split_ifs
    · rw [left_behind]; omega
    · simp [left]

/-- A mark leaves no more to be passed over. -/
theorem left_nextMarked_le (s : Pos α) (e : α × Bool) :
    left (F.nextMarked s e) ≤ left (F.next s e.1) := by
  unfold nextMarked
  split_ifs
  · exact left_cut_le _
  · exact le_rfl

/-- From a gap on, no more than a frame leaves. -/
theorem left_afterMarked_le (es : List (α × Bool)) :
    left (F.afterMarked .gap es) ≤ max 1 F.skipped := by
  induction es using List.reverseRecOn with
  | nil => simp [left]
  | append_singleton es e ih =>
    have h := (F.left_nextMarked_le (F.afterMarked .gap es) e).trans (F.left_next_le _ _)
    rw [afterMarked_append]
    exact h.trans (by omega)

/-- Outside of a frame, an item other than the opener. -/
theorem nextMarked_of_ne {s : Pos α} {e : α × Bool} (hs : ∀ p, s ≠ .frame p)
    (he : e.1 ≠ F.opener) :
    (∀ p, F.nextMarked s e ≠ .frame p) ∧ left (F.nextMarked s e) ≤ left s - 1 ∧
      F.emit s e.1 = none := by
  suffices h : (∀ p, F.next s e.1 ≠ .frame p) ∧ left (F.next s e.1) ≤ left s - 1 ∧
      F.emit s e.1 = none by
    refine ⟨fun p => ?_, (F.left_nextMarked_le s e).trans h.2.1, h.2.2⟩
    unfold nextMarked
    split_ifs
    · rw [Ne, cut_eq_frame]; exact h.1 p
    · exact h.1 p
  match s with
  | .gap => simp [next, he, left]
  | .half => simp [next, he, left]
  | .skip 0 => simp [left]
  | .skip (n + 1) => simp [left]
  | .frame p => exact absurd rfl (hs p)

/-- Outside of a frame, a stretch without openers emits nothing. -/
theorem tokensMarked_of_not_mem {s : Pos α} {es : List (α × Bool)} (hs : ∀ p, s ≠ .frame p)
    (hes : F.opener ∉ es.map Prod.fst) :
    F.tokensMarked s es = [] ∧ ∀ p, F.afterMarked s es ≠ .frame p := by
  induction es generalizing s with
  | nil => exact ⟨rfl, hs⟩
  | cons e es ih =>
    rw [List.map_cons, List.mem_cons, not_or] at hes
    obtain ⟨hnext, -, hemit⟩ := F.nextMarked_of_ne hs (fun he => hes.1 he.symm)
    obtain ⟨htok, hafter⟩ := ih hnext hes.2
    exact ⟨by rw [tokensMarked_cons, hemit, htok]; rfl, hafter⟩

/-- It leads to a gap if it is long enough. -/
theorem afterMarked_of_not_mem {s : Pos α} {es : List (α × Bool)} (hs : ∀ p, s ≠ .frame p)
    (hes : F.opener ∉ es.map Prod.fst) (hleft : left s ≤ es.length) :
    F.afterMarked s es = .gap := by
  induction es generalizing s with
  | nil =>
    match s with
    | .gap => rfl
    | .half => simp [left] at hleft
    | .skip n => simp [left] at hleft
    | .frame p => exact absurd rfl (hs p)
  | cons e es ih =>
    rw [List.map_cons, List.mem_cons, not_or] at hes
    obtain ⟨hnext, hle, -⟩ := F.nextMarked_of_ne hs (fun he => hes.1 he.symm)
    rw [List.length_cons] at hleft
    exact ih hnext hes.2 (by omega)

/-- A closing pair leads out of a frame, whatever stands in it. -/
theorem afterMarked_closers {s : Pos α} {a b : Bool} (hs : left s ≤ max 1 F.skipped) :
    (∀ p, F.afterMarked s [(F.closer, a), (F.closer, b)] ≠ .frame p) ∧
      left (F.afterMarked s [(F.closer, a), (F.closer, b)]) ≤ F.skipped := by
  have hne : F.closer ≠ F.opener := fun h => F.distinct h.symm
  by_cases hframe : ∃ p, s = .frame p
  · obtain ⟨p, rfl⟩ := hframe
    by_cases hlast : p.getLast? = some F.closer
    · -- the first of the two ends the frame
      have hfirst : F.nextMarked (.frame p) (F.closer, a) = (if a then cut F.behind else F.behind) := by
        simp [nextMarked, next, hlast]
      have hout : ∀ q, F.nextMarked (.frame p) (F.closer, a) ≠ .frame q := by
        intro q
        rw [hfirst]
        split_ifs
        · rw [Ne, cut_eq_frame]; exact F.behind_ne_frame q
        · exact F.behind_ne_frame q
      have hleft : left (F.nextMarked (.frame p) (F.closer, a)) ≤ F.skipped := by
        rw [hfirst, ← F.left_behind]
        split_ifs
        · exact left_cut_le _
        · exact le_rfl
      obtain ⟨hnext, hle, -⟩ := F.nextMarked_of_ne (e := (F.closer, b)) hout hne
      exact ⟨hnext, by simp only [afterMarked_cons, afterMarked_nil]; omega⟩
    · have hfirst : F.nextMarked (.frame p) (F.closer, a) = .frame (p ++ [F.closer]) := by
        simp [nextMarked, next, hlast, cut]
      have hsecond : F.nextMarked (.frame (p ++ [F.closer])) (F.closer, b) =
          (if b then cut F.behind else F.behind) := by
        simp [nextMarked, next]
      rw [afterMarked_cons, afterMarked_cons, afterMarked_nil, hfirst, hsecond]
      split_ifs
      · exact ⟨fun q => by rw [Ne, cut_eq_frame]; exact F.behind_ne_frame q,
          (left_cut_le _).trans F.left_behind.le⟩
      · exact ⟨F.behind_ne_frame, F.left_behind.le⟩
  · have hout : ∀ p, s ≠ .frame p := fun p hp => hframe ⟨p, hp⟩
    obtain ⟨hnext, hle, -⟩ := F.nextMarked_of_ne (e := (F.closer, a)) hout hne
    obtain ⟨hnext', hle', -⟩ := F.nextMarked_of_ne (e := (F.closer, b)) hnext hne
    exact ⟨hnext', by simp only [afterMarked_cons, afterMarked_nil]; omega⟩

/-! ### Sizes -/

/-- The items that stand for the place in a frame. -/
def room : Pos α → ℕ
  | .half => 1
  | .frame p => p.length + 2
  | _ => 0

omit [DecidableEq α] in
/-- The end of a read leaves no more items in a frame. -/
theorem room_cut_le (s : Pos α) : room (cut s) ≤ room s := by
  cases s <;> simp [cut, room]

section Size

variable (size : τ → ℕ) (hsize : ∀ p t, F.token p = some t → size t ≤ p.length)

include hsize

/-- A token is paid for by the items of its frame. -/
theorem size_emit_le (s : Pos α) (x : α) :
    ((F.emit s x).toList.map (size · + 4)).sum + room (F.next s x) ≤ room s + 1 := by
  match s with
  | .gap => simp only [emit_gap, next]; split_ifs <;> simp [room]
  | .half => simp only [emit_half, next]; split_ifs <;> simp [room]
  | .skip 0 => simp [room]
  | .skip (n + 1) => simp [room]
  | .frame p =>
    simp only [emit, next]
    split_ifs with hend
    · have hroom : room F.behind = 0 := by unfold behind; split <;> rfl
      -- a body that ends here holds its closer, which is not part of the message
      have hp : 0 < p.length := by
        rcases p with _ | ⟨y, p⟩
        · simp at hend
        · simp
      cases htok : F.token p.dropLast with
      | none => simp [hroom]
      | some t =>
        have hle := hsize _ _ htok
        rw [List.length_dropLast] at hle
        rw [hroom]
        simp only [Option.toList_some, List.map_cons, List.map_nil, List.sum_cons, List.sum_nil,
          room]
        omega
    · simp [room]

/-- A token takes four items more than it is long. -/
theorem sum_size_le (s : Pos α) (es : List (α × Bool)) :
    ((F.tokensMarked s es).map (size · + 4)).sum ≤ room s + es.length := by
  induction es generalizing s with
  | nil => simp
  | cons e es ih =>
    have hstep := F.size_emit_le size hsize s e.1
    have hrest := ih (F.nextMarked s e)
    have hroom : room (F.nextMarked s e) ≤ room (F.next s e.1) := by
      unfold nextMarked
      split_ifs
      · exact room_cut_le _
      · exact le_rfl
    rw [tokensMarked_cons, List.map_append, List.sum_append, List.length_cons]
    omega

/-- Tokens are shorter than what they are read of. -/
theorem sum_size_lt {s : Pos α} {es : List (α × Bool)} {n : ℕ} (hn : 0 < n)
    (h : room s + es.length < n + 4) : ((F.tokensMarked s es).map size).sum < n := by
  have hle := F.sum_size_le size hsize s es
  cases htok : F.tokensMarked s es with
  | nil => simpa using hn
  | cons t ts =>
    have hmono : (ts.map size).sum ≤ (ts.map (size · + 4)).sum :=
      List.sum_le_sum (fun t _ => Nat.le_add_right _ _)
    rw [htok] at hle
    simp only [List.map_cons, List.sum_cons] at hle ⊢
    omega

end Size

/-! ### Harmless marks -/

/-- The items up to the end of the read. -/
def nextRead : List (α × Bool) → List α
  | [] => []
  | e :: es => e.1 :: if e.2 then [] else nextRead es

omit [DecidableEq α] in
/-- The read is the beginning of the stream. -/
theorem nextRead_isPrefix (es : List (α × Bool)) : nextRead es <+: es.map Prod.fst := by
  induction es with
  | nil => exact List.prefix_rfl
  | cons e es ih =>
    rw [nextRead, List.map_cons, List.prefix_cons_inj]
    split_ifs
    · exact List.nil_prefix
    · exact ih

/-- Every read of a marked stream ends where it makes no difference. -/
def HarmlessMarked : Pos α → List (α × Bool) → Prop
  | _, [] => True
  | s, e :: es =>
    (e.2 = true → F.HarmlessCut (F.next s e.1) (nextRead es)) ∧ HarmlessMarked (F.next s e.1) es

/-- An item ahead of others. -/
theorem harmlessMarked_cons {s t : Pos α} {e : α × Bool} {es : List (α × Bool)}
    (ht : F.next s e.1 = t) (hcut : F.HarmlessCut t (nextRead es))
    (h : F.HarmlessMarked t es) : F.HarmlessMarked s (e :: es) := by
  subst ht
  exact ⟨fun _ => hcut, h⟩

omit [DecidableEq α] in
/-- A cut with nothing behind it is harmless. -/
theorem harmlessCut_nil (s : Pos α) : F.HarmlessCut s [] := by
  cases s <;> simp [HarmlessCut]

/-- A read ahead of others. -/
theorem harmlessMarked_markRead {s : Pos α} {r : List α} {es : List (α × Bool)} (hr : r ≠ [])
    (h : F.HarmlessMarked s (markRead r ++ es)) :
    F.HarmlessCut (F.after s r) (nextRead es) ∧ F.HarmlessMarked (F.after s r) es := by
  induction r using markRead.induct generalizing s with
  | case1 => exact absurd rfl hr
  | case2 x => exact ⟨h.1 rfl, h.2⟩
  | case3 x y r ih => exact ih (by simp) h.2

omit [DecidableEq α] in
/-- The items of a read end with it. -/
theorem nextRead_markRead {r : List α} (hr : r ≠ []) (es : List (α × Bool)) :
    nextRead (markRead r ++ es) = r := by
  induction r using markRead.induct with
  | case1 => exact absurd rfl hr
  | case2 x => rfl
  | case3 x y r ih => exact congrArg _ (ih (by simp))

/-- **The cuts of a stream** are harmless if its marks are. -/
theorem harmlessCuts_of_marked {s : Pos α} {reads : List (List α)}
    (hcut : F.HarmlessCut s (nextRead (reads.flatMap markRead)))
    (h : F.HarmlessMarked s (reads.flatMap markRead)) : F.HarmlessCuts s reads := by
  induction reads generalizing s with
  | nil => exact trivial
  | cons r rs ih =>
    rw [List.flatMap_cons] at hcut h
    by_cases hr : r = []
    · subst hr
      exact ⟨F.harmlessCut_nil s, ih hcut h⟩
    · obtain ⟨hnext, hrest⟩ := F.harmlessMarked_markRead hr h
      rw [nextRead_markRead hr] at hcut
      exact ⟨hcut, ih hnext hrest⟩

end Framing

end PopcornTime
