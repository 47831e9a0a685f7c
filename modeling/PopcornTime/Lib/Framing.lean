import Mathlib.Data.List.Infix
import Mathlib.Tactic.SplitIfs

namespace PopcornTime

/-!
# Framed streams

A stream carries payloads between a doubled opening item and a doubled closing item; the reader
passes over a fixed number of items behind a closing pair.  The stream arrives in reads, and a
reader that keeps nothing but an open frame between two reads forgets where it stood at a **cut**.

* `Framing.after`, `Framing.tokens` — the stream item by item.
* `Framing.readTokens` — the stream in reads, with `Framing.cut` behind each.
* `Framing.readTokens_of_harmlessCuts` — which cuts change nothing.
-/

/-! ### The first place of a pattern -/

section Infix

variable {α : Type*} [BEq α] [LawfulBEq α]

/-- A pattern that is not found does not occur. -/
theorem not_infix_of_dropInfix?_eq_none {l pat : List α} (h : l.dropInfix? pat = none) :
    ¬ pat <:+: l := by
  suffices go : ∀ acc, List.dropInfix?.go pat l acc = none → ¬ pat <:+: l from go [] h
  intro acc hgo
  clear h
  induction l generalizing acc with
  | nil =>
    intro hpat
    rw [List.infix_nil] at hpat
    subst hpat
    simp [List.dropInfix?.go] at hgo
  | cons x l ih =>
    rw [List.dropInfix?.go] at hgo
    split at hgo
    case h_2 => exact absurd hgo (by simp)
    case h_1 hx =>
      rw [List.infix_cons_iff, not_or]
      refine ⟨?_, ih _ hgo⟩
      rintro ⟨rest, hrest⟩
      have hfound : (x :: l).dropPrefix? pat = some rest := by
        rw [← hrest]; exact List.dropPrefix?_append_of_beq rest (by simp)
      rw [hfound] at hx
      exact absurd hx (by simp)

/-- The first occurrence of a pattern: it has none that begins further ahead. -/
theorem dropInfix?_eq_some_iff_first {l pat u v : List α} (hne : pat ≠ []) :
    l.dropInfix? pat = some (u, v) ↔ l = u ++ pat ++ v ∧ ¬ pat <:+: u ++ pat.dropLast := by
  have hpos : 0 < pat.length := List.length_pos_iff.mpr hne
  rw [List.dropInfix?_eq_some_iff]
  constructor
  · rintro ⟨⟨i, hl, hi⟩, hfirst⟩
    obtain rfl : i = pat := by simpa using hi
    refine ⟨hl, ?_⟩
    rintro ⟨u', v', hocc⟩
    have hlen := congrArg List.length hocc
    have hsplit : l = u' ++ i ++ (v' ++ [i.getLast hne] ++ v) := by
      rw [hl]
      conv_lhs => rw [← List.dropLast_append_getLast hne, ← List.append_assoc u, ← hocc]
      simp
    have hle := hfirst u' i _ hsplit (by simp)
    simp only [List.length_append, List.length_dropLast] at hlen
    omega
  · rintro ⟨hl, hfirst⟩
    refine ⟨⟨pat, hl, by simp⟩, fun u' i v' hl' hi => ?_⟩
    obtain rfl : i = pat := by simpa using hi
    by_contra hlt
    -- an occurrence that begins further ahead lies in front of the last item of this one
    have hu' : u' ++ i <+: l := ⟨v', hl'.symm⟩
    have hu : u ++ i.dropLast <+: l := by
      refine ⟨[i.getLast hne] ++ v, ?_⟩
      conv_rhs => rw [hl, ← List.dropLast_append_getLast hne]
      simp
    have hle : (u' ++ i).length ≤ (u ++ i.dropLast).length := by
      simp only [List.length_append, List.length_dropLast]; omega
    exact hfirst ((List.suffix_append u' i).isInfix.trans
      (List.prefix_of_prefix_length_le hu' hu hle).isInfix)

end Infix

/-- Two items that are the same occur in a longer list by now, or with its last item. -/
theorem pair_infix_concat {α : Type*} {m x : α} {l : List α} :
    [m, m] <:+: l ++ [x] ↔ [m, m] <:+: l ∨ l.getLast? = some m ∧ x = m := by
  rw [List.infix_concat_iff, or_comm]
  apply or_congr_right
  rw [List.suffix_concat_iff]
  simp only [List.cons_ne_nil, false_or]
  constructor
  · rintro ⟨t, ht, u, rfl⟩
    obtain ⟨rfl, rfl⟩ : t = [m] ∧ x = m := by
      have := List.append_inj' (show [m] ++ [m] = t ++ [x] from ht) rfl
      exact ⟨this.1.symm, by simpa using this.2.symm⟩
    simp
  · rintro ⟨hlast, rfl⟩
    obtain ⟨u, rfl⟩ := List.getLast?_eq_some_iff.mp hlast
    exact ⟨[x], rfl, u, rfl⟩

/-! ### The stream item by item -/

/-- How a stream is framed; `token` is what a payload is read as. -/
structure Framing (α τ : Type*) where
  opener : α
  closer : α
  distinct : opener ≠ closer
  /-- How many items behind a closing pair are passed over. -/
  skipped : ℕ
  token : List α → Option τ

namespace Framing

/-- Where a reader of the stream stands: outside of a frame, behind the first item of an opening
    pair, in a frame, or with `left + 1` items to pass over. -/
inductive Pos (α : Type*)
  | gap
  | half
  | frame (payload : List α)
  | skip (left : ℕ)
deriving DecidableEq, Repr

variable {α τ : Type*} [DecidableEq α] (F : Framing α τ)

/-- The place behind a closing pair. -/
def behind : Pos α :=
  match F.skipped with
  | 0 => .gap
  | n + 1 => .skip n

/-- The place behind one more item. -/
def next : Pos α → α → Pos α
  | .gap, x => if x = F.opener then .half else .gap
  | .half, x => if x = F.opener then .frame [] else .gap
  | .frame p, x =>
    if p.getLast? = some F.closer ∧ x = F.closer then F.behind else .frame (p ++ [x])
  | .skip 0, _ => .gap
  | .skip (n + 1), _ => .skip n

/-- What one more item lets the reader emit. -/
def emit : Pos α → α → Option τ
  | .frame p, x =>
    if p.getLast? = some F.closer ∧ x = F.closer then F.token p.dropLast else none
  | _, _ => none

/-- The place behind a stretch of the stream. -/
def after (s : Pos α) (xs : List α) : Pos α :=
  xs.foldl F.next s

/-- The tokens of a stretch of the stream. -/
def tokens : Pos α → List α → List τ
  | _, [] => []
  | s, x :: xs => (F.emit s x).toList ++ tokens (F.next s x) xs

@[simp] theorem after_nil (s : Pos α) : F.after s [] = s := rfl

@[simp] theorem after_cons (s : Pos α) (x : α) (xs : List α) :
    F.after s (x :: xs) = F.after (F.next s x) xs := rfl

@[simp] theorem after_append (s : Pos α) (xs ys : List α) :
    F.after s (xs ++ ys) = F.after (F.after s xs) ys :=
  List.foldl_append

@[simp] theorem tokens_nil (s : Pos α) : F.tokens s [] = [] := rfl

@[simp] theorem tokens_cons (s : Pos α) (x : α) (xs : List α) :
    F.tokens s (x :: xs) = (F.emit s x).toList ++ F.tokens (F.next s x) xs := rfl

@[simp] theorem tokens_append (s : Pos α) (xs ys : List α) :
    F.tokens s (xs ++ ys) = F.tokens s xs ++ F.tokens (F.after s xs) ys := by
  induction xs generalizing s with
  | nil => rfl
  | cons x xs ih => simp [ih]

@[simp] theorem emit_gap (x : α) : F.emit .gap x = none := rfl
@[simp] theorem emit_half (x : α) : F.emit .half x = none := rfl
@[simp] theorem emit_skip (n : ℕ) (x : α) : F.emit (.skip n) x = none := rfl
@[simp] theorem next_skip_zero (x : α) : F.next (.skip 0) x = .gap := rfl
@[simp] theorem next_skip_succ (n : ℕ) (x : α) : F.next (.skip (n + 1)) x = .skip n := rfl

/-- A stretch without an opening pair. -/
theorem after_gap {xs : List α} (h : ¬ [F.opener, F.opener] <:+: xs) :
    F.after .gap xs = (if xs.getLast? = some F.opener then .half else .gap) ∧
      F.tokens .gap xs = [] := by
  induction xs using List.reverseRecOn with
  | nil => exact ⟨rfl, rfl⟩
  | append_singleton xs x ih =>
    rw [pair_infix_concat, not_or] at h
    obtain ⟨hafter, htok⟩ := ih h.1
    by_cases hlast : xs.getLast? = some F.opener
    · have hx : x ≠ F.opener := fun hx => h.2 ⟨hlast, hx⟩
      simp [hafter, htok, hlast, next, hx]
    · by_cases hx : x = F.opener <;> simp [hafter, htok, hlast, next, hx]

/-- A stretch up to the first opening pair. -/
theorem after_opening (xs : List α) (h : ¬ [F.opener, F.opener] <:+: xs ++ [F.opener]) :
    F.after .gap (xs ++ [F.opener, F.opener]) = .frame [] ∧
      F.tokens .gap (xs ++ [F.opener, F.opener]) = [] := by
  rw [pair_infix_concat, not_or] at h
  obtain ⟨hafter, htok⟩ := F.after_gap h.1
  have hlast : xs.getLast? ≠ some F.opener := fun hl => h.2 ⟨hl, rfl⟩
  simp [hafter, htok, hlast, next]

/-- A stretch of a payload. -/
theorem after_frame (p xs : List α) (h : ¬ [F.closer, F.closer] <:+: p ++ xs) :
    F.after (.frame p) xs = .frame (p ++ xs) ∧ F.tokens (.frame p) xs = [] := by
  induction xs using List.reverseRecOn with
  | nil => simp
  | append_singleton xs x ih =>
    rw [← List.append_assoc, pair_infix_concat, not_or] at h
    obtain ⟨hafter, htok⟩ := ih h.1
    rw [after_append, tokens_append, hafter, htok, ← List.append_assoc]
    simp only [after_cons, after_nil, tokens_cons, tokens_nil, next, emit, if_neg h.2]
    simp

/-- The payload of an open frame holds no closing pair. -/
theorem not_infix_of_next {s : Pos α} {x : α} {p : List α}
    (hs : ∀ q, s = .frame q → ¬ [F.closer, F.closer] <:+: q) (h : F.next s x = .frame p) :
    ¬ [F.closer, F.closer] <:+: p := by
  match s with
  | .gap => simp only [next] at h; split_ifs at h
  | .half =>
    simp only [next] at h
    split_ifs at h
    cases h
    simp
  | .skip 0 => simp only [next] at h; cases h
  | .skip (n + 1) => simp only [next] at h; cases h
  | .frame q =>
    simp only [next] at h
    split_ifs at h with hend
    · unfold behind at h; split at h <;> cases h
    · cases h
      rw [pair_infix_concat, not_or]
      exact ⟨hs q rfl, hend⟩

theorem not_infix_of_after {xs p : List α} (h : F.after .gap xs = .frame p) :
    ¬ [F.closer, F.closer] <:+: p := by
  induction xs using List.reverseRecOn generalizing p with
  | nil => cases h
  | append_singleton xs x ih =>
    rw [after_append] at h
    exact F.not_infix_of_next (fun q hq => ih hq) h

/-- A payload up to the first closing pair. -/
theorem after_closing (p xs : List α) (h : ¬ [F.closer, F.closer] <:+: p ++ xs ++ [F.closer]) :
    F.after (.frame p) (xs ++ [F.closer, F.closer]) = F.behind ∧
      F.tokens (.frame p) (xs ++ [F.closer, F.closer]) = (F.token (p ++ xs)).toList := by
  obtain ⟨hafter, htok⟩ := F.after_frame p (xs ++ [F.closer]) (by rwa [← List.append_assoc])
  have hsplit : xs ++ [F.closer, F.closer] = (xs ++ [F.closer]) ++ [F.closer] := by simp
  have hlast : (p ++ (xs ++ [F.closer])).getLast? = some F.closer := by
    rw [← List.append_assoc]; simp
  have hpay : (p ++ (xs ++ [F.closer])).dropLast = p ++ xs := by
    rw [← List.append_assoc, List.dropLast_concat]
  rw [hsplit, after_append, tokens_append, hafter, htok]
  simp [next, emit, hlast, hpay]

/-- A whole frame. -/
theorem after_framed (xs p : List α) (hxs : ¬ [F.opener, F.opener] <:+: xs ++ [F.opener])
    (hp : ¬ [F.closer, F.closer] <:+: p ++ [F.closer]) :
    F.after .gap (xs ++ [F.opener, F.opener] ++ (p ++ [F.closer, F.closer])) = F.behind ∧
      F.tokens .gap (xs ++ [F.opener, F.opener] ++ (p ++ [F.closer, F.closer])) =
        (F.token p).toList := by
  obtain ⟨hopen, hnone⟩ := F.after_opening xs hxs
  obtain ⟨hclose, htok⟩ := F.after_closing [] p hp
  rw [after_append, tokens_append, hopen, hnone, hclose, htok]
  exact ⟨rfl, rfl⟩

/-! ### Reads -/

/-- Where the reader takes itself to stand at the end of a read. -/
def cut : Pos α → Pos α
  | .frame p => .frame p
  | _ => .gap

omit [DecidableEq α] in
@[simp] theorem cut_cut (s : Pos α) : cut (cut s) = cut s := by
  cases s <;> rfl

/-- The tokens of a stream that arrives in reads. -/
def readTokens : Pos α → List (List α) → List τ
  | _, [] => []
  | s, r :: rs => F.tokens s r ++ readTokens (cut (F.after s r)) rs

/-- Items to pass over, and what follows them. -/
theorem after_skip (n : ℕ) (xs : List α) :
    cut (F.after (.skip n) xs) = cut (F.after .gap (xs.drop (n + 1))) ∧
      F.tokens (.skip n) xs = F.tokens .gap (xs.drop (n + 1)) := by
  induction n generalizing xs with
  | zero => cases xs <;> simp [cut]
  | succ n ih =>
    cases xs with
    | nil => simp [cut]
    | cons x xs => simpa using ih xs

/-- A read that begins where the reader stood, or where the cut makes no difference: the read does
    not complete an opening pair, and none begins among the items that are passed over. -/
def HarmlessCut : Pos α → List α → Prop
  | .half, r => r.head? ≠ some F.opener
  | .skip n, r => ¬ [F.opener, F.opener] <:+: r.take (n + 2)
  | _, _ => True

/-- Every cut between the reads is harmless, where the stream stands. -/
def HarmlessCuts : Pos α → List (List α) → Prop
  | _, [] => True
  | s, r :: rs => F.HarmlessCut s r ∧ HarmlessCuts (F.after s r) rs

instance (s : Pos α) (r : List α) : Decidable (F.HarmlessCut s r) :=
  match s with
  | .half => inferInstanceAs (Decidable (r.head? ≠ some F.opener))
  | .skip n => inferInstanceAs (Decidable (¬ [F.opener, F.opener] <:+: r.take (n + 2)))
  | .gap => inferInstanceAs (Decidable True)
  | .frame _ => inferInstanceAs (Decidable True)

/-- A stretch ahead that neither holds an opening pair nor begins one makes no difference. -/
theorem after_gap_append {xs ys : List α} (h : ¬ [F.opener, F.opener] <:+: xs ++ ys.take 1) :
    cut (F.after .gap (xs ++ ys)) = cut (F.after .gap ys) ∧
      F.tokens .gap (xs ++ ys) = F.tokens .gap ys := by
  have hxs : ¬ [F.opener, F.opener] <:+: xs := fun hin =>
    h (hin.trans (List.prefix_append _ _).isInfix)
  obtain ⟨hafter, htok⟩ := F.after_gap hxs
  cases ys with
  | nil =>
    rw [List.append_nil, hafter, htok]
    exact ⟨by split_ifs <;> rfl, rfl⟩
  | cons y ys =>
    have hpair : ¬ [F.opener, F.opener] <:+: xs ++ [y] := h
    rw [pair_infix_concat, not_or] at hpair
    have hnext : F.next (F.after .gap xs) y = F.next .gap y := by
      rw [hafter]
      split_ifs with hlast
      · have hy : y ≠ F.opener := fun hy => hpair.2 ⟨hlast, hy⟩
        simp [next, hy]
      · rfl
    have hemit : F.emit (F.after .gap xs) y = none := by
      rw [hafter]; split_ifs <;> rfl
    simp [htok, hnext, hemit]

/-- A read behind a harmless cut. -/
theorem after_harmlessCut {s : Pos α} {r : List α} (h : F.HarmlessCut s r) :
    cut (F.after (cut s) r) = cut (F.after s r) ∧ F.tokens (cut s) r = F.tokens s r := by
  match s with
  | .gap => exact ⟨rfl, rfl⟩
  | .frame p => exact ⟨rfl, rfl⟩
  | .half =>
    cases r with
    | nil => exact ⟨rfl, rfl⟩
    | cons x xs =>
      have hx : x ≠ F.opener := by simpa [HarmlessCut] using h
      simp [cut, next, hx]
  | .skip n =>
    obtain ⟨hafter, htok⟩ := F.after_skip n r
    have hr : r = r.take (n + 1) ++ r.drop (n + 1) := (List.take_append_drop _ _).symm
    have hno : ¬ [F.opener, F.opener] <:+: r.take (n + 1) ++ (r.drop (n + 1)).take 1 := by
      rw [← List.take_add]; exact h
    obtain ⟨hafter', htok'⟩ := F.after_gap_append hno
    rw [← hr] at hafter' htok'
    exact ⟨hafter'.trans hafter.symm, htok'.trans htok.symm⟩

/-- Harmless cuts change nothing. -/
theorem readTokens_of_harmlessCuts {s : Pos α} {reads : List (List α)}
    (h : F.HarmlessCuts s reads) :
    F.readTokens (cut s) reads = F.tokens s reads.flatten := by
  induction reads generalizing s with
  | nil => rfl
  | cons r rs ih =>
    obtain ⟨hafter, htok⟩ := F.after_harmlessCut h.1
    rw [readTokens, hafter, htok, ih h.2, List.flatten_cons, tokens_append]

end Framing

end PopcornTime
