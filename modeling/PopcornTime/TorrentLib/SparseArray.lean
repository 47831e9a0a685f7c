import Mathlib.Data.List.Pairwise
import PopcornTime.Desktop.Integers
import PopcornTime.Lib.BinarySearch

namespace PopcornTime.TorrentLib

open PopcornTime BinarySearch
open PopcornTime.Desktop (int32 int32_eq)

/-!
# Torrent library — the array of the alert listeners

`SparseArray` maps integers to objects.  Its keys stand in the order of their values; a mapping that
is removed leaves its place behind, marked `DELETED`, until the garbage is collected.

* `SparseArray` — the arrays; `put`, `append`, `get`, `delete`, `removeAt` and the others.
* `mappings` — what is in it, from the first place to the last.
* `WellFormed` — what every operation keeps; `Represents`, the map that the array stands for.
* `put_spec`, `append_spec`, `delete_spec`, … — what each operation does to the map.
-/

/-! ### The arrays -/

/-- A place of `mValues`: `DELETED`, or a reference, which can be null. -/
inductive Cell (α : Type)
  | deleted
  | ref (value : Option α)
deriving DecidableEq, Repr

/-- `table` is the arrays `mKeys` and `mValues`, which have the same length, side by side. -/
structure SparseArray (α : Type) where
  mGarbage : Bool
  table : List (ℤ × Cell α)
  mSize : ℕ
deriving Repr

def idealByteArraySize (need : ℤ) : ℤ :=
  match (List.range' 4 28).find? fun i => need ≤ int32 (int32 (2 ^ i) - 12) with
  | some i => int32 (int32 (2 ^ i) - 12)
  | none => need

def idealIntArraySize (need : ℤ) : ℤ := (idealByteArraySize (int32 (need * 4))).tdiv 4

/-- `System.arraycopy`, which throws where a place is not in its array. -/
def arraycopy {β : Type} (src : List β) (srcPos : ℕ) (dest : List β) (destPos length : ℕ) :
    Option (List β) :=
  if srcPos + length ≤ src.length ∧ destPos + length ≤ dest.length then
    some (dest.take destPos ++ (src.drop srcPos).take length ++ dest.drop (destPos + length))
  else none

namespace SparseArray

variable {α : Type}

/-- `new int[n]` and `new Object[n]`. -/
def newTable (n : ℤ) : List (ℤ × Cell α) := List.replicate n.toNat (0, .ref none)

def new (initialCapacity : ℤ) : SparseArray α where
  mGarbage := false
  table := if initialCapacity = 0 then [] else newTable (idealIntArraySize initialCapacity)
  mSize := 0

def mKeys (s : SparseArray α) : List ℤ := s.table.map Prod.fst

def mValues (s : SparseArray α) : List (Cell α) := s.table.map Prod.snd

def search (s : SparseArray α) (key : ℤ) : Option ℤ := binarySearch s.mKeys s.mSize key

def get (s : SparseArray α) (key : ℤ) (valueIfKeyNotFound : Option α) : Option (Option α) := do
  let i ← s.search key
  if i < 0 then some valueIfKeyNotFound
  else
    match ← get? s.mValues i with
    | .deleted => some valueIfKeyNotFound
    | .ref value => some value

def removeAt (s : SparseArray α) (index : ℤ) : Option (SparseArray α) := do
  let (key, value) ← get? s.table index
  match value with
  | .deleted => some s
  | .ref _ => some { s with mGarbage := true, table := s.table.set index.toNat (key, .deleted) }

def delete (s : SparseArray α) (key : ℤ) : Option (SparseArray α) := do
  let i ← s.search key
  if 0 ≤ i then s.removeAt i else some s

def removeAtRange (s : SparseArray α) (index size : ℤ) : Option (SparseArray α) :=
  let «end» := min (s.mSize : ℤ) (int32 (index + size))
  (Int.range index «end»).foldlM removeAt s

/-- One round of the loop in `gc`, with the arrays and `o`. -/
def gcRound (st : List (ℤ × Cell α) × ℕ) (i : ℕ) : List (ℤ × Cell α) × ℕ :=
  match st.1[i]? with
  | none => st
  | some (_, .deleted) => st
  | some (key, val) =>
    (if i ≠ st.2 then (st.1.set st.2 (key, val)).set i (key, .ref none) else st.1, st.2 + 1)

def gc (s : SparseArray α) : SparseArray α :=
  let (table, o) := (List.range s.mSize).foldl gcRound (s.table, 0)
  { mGarbage := false, table := table, mSize := o }

/-- A larger pair of arrays, if there is no place left. -/
def grow (s : SparseArray α) : Option (SparseArray α) := do
  if s.table.length ≤ s.mSize then
    let n := idealIntArraySize (int32 (s.mSize + 1))
    let table ← arraycopy s.table 0 (newTable n) 0 s.table.length
    some { s with table := table }
  else some s

/-- The places from `i` on move up, and the mapping goes into the place. -/
def insertAt (s : SparseArray α) (i : ℕ) (key : ℤ) (value : Option α) : Option (SparseArray α) := do
  let table ← arraycopy s.table i s.table (i + 1) (s.mSize - i)
  some { s with table := table.set i (key, .ref value), mSize := s.mSize + 1 }

def put (s : SparseArray α) (key : ℤ) (value : Option α) : Option (SparseArray α) := do
  let i ← s.search key
  if 0 ≤ i then
    some { s with table := s.table.set i.toNat (key, .ref value) }
  else
    let i := -i - 1
    if i < s.mSize ∧ get? s.mValues i matches some .deleted then
      some { s with table := s.table.set i.toNat (key, .ref value) }
    else if s.mGarbage ∧ s.table.length ≤ s.mSize then
      let s := s.gc
      -- the places have moved
      let i ← s.search key
      let s ← s.grow
      s.insertAt (-i - 1).toNat key value
    else
      let s ← s.grow
      s.insertAt i.toNat key value

/-- The mapping goes behind the others. -/
def appendLast (s : SparseArray α) (key : ℤ) (value : Option α) : Option (SparseArray α) := do
  let s := if s.mGarbage ∧ s.table.length ≤ s.mSize then s.gc else s
  let pos := s.mSize
  let s ← s.grow
  some { s with table := s.table.set pos (key, .ref value), mSize := pos + 1 }

def append (s : SparseArray α) (key : ℤ) (value : Option α) : Option (SparseArray α) := do
  if s.mSize ≠ 0 then
    let last ← get? s.mKeys (s.mSize - 1)
    if key ≤ last then s.put key value else s.appendLast key value
  else s.appendLast key value

/-- `if (mGarbage) gc();` -/
def collect (s : SparseArray α) : SparseArray α := if s.mGarbage then s.gc else s

def size (s : SparseArray α) : ℕ × SparseArray α := (s.collect.mSize, s.collect)

def keyAt (s : SparseArray α) (index : ℤ) : Option ℤ × SparseArray α :=
  (get? s.collect.mKeys index, s.collect)

def valueAt (s : SparseArray α) (index : ℤ) : Option (Cell α) × SparseArray α :=
  (get? s.collect.mValues index, s.collect)

def setValueAt (s : SparseArray α) (index : ℤ) (value : Option α) : Option (SparseArray α) := do
  let (key, _) ← get? s.collect.table index
  some { s.collect with table := s.collect.table.set index.toNat (key, .ref value) }

def indexOfKey (s : SparseArray α) (key : ℤ) : Option ℤ × SparseArray α :=
  (s.collect.search key, s.collect)

def indexOfValue [DecidableEq α] (s : SparseArray α) (value : Option α) : ℤ × SparseArray α :=
  match (Int.range 0 s.collect.mSize).find? fun i => get? s.collect.mValues i = some (.ref value) with
  | some i => (i, s.collect)
  | none => (-1, s.collect)

def clear (s : SparseArray α) : SparseArray α where
  mGarbage := false
  table := (s.table.take s.mSize).map (fun p => (p.1, .ref none)) ++ s.table.drop s.mSize
  mSize := 0

/-! ### What is in the array -/

/-- The places in use. -/
def places (s : SparseArray α) : List (ℤ × Cell α) := s.table.take s.mSize

def mapping : ℤ × Cell α → Option (ℤ × Option α)
  | (_, .deleted) => none
  | (key, .ref value) => some (key, value)

/-- The mappings, from the first place to the last. -/
def mappings (s : SparseArray α) : List (ℤ × Option α) := s.places.filterMap mapping

structure WellFormed (s : SparseArray α) : Prop where
  mSize_le : s.mSize ≤ s.table.length
  sorted : (s.places.map Prod.fst).Pairwise (· < ·)
  deleted_garbage : s.mGarbage = false → ∀ p ∈ s.places, p.2 ≠ .deleted

/-- The array stands for the map. -/
structure Represents (s : SparseArray α) (m : ℤ → Option (Option α)) : Prop extends
    s.WellFormed where
  mem_mappings_iff : ∀ key value, (key, value) ∈ s.mappings ↔ m key = some value

variable {s s' : SparseArray α} {m : ℤ → Option (Option α)} {key : ℤ} {value : Option α}
  {pre mid post : List (ℤ × Cell α)} {p : ℤ × Cell α}

/-- There are as many places in use as `mSize` says. -/
theorem length_places (h : s.WellFormed) : s.places.length = s.mSize :=
  List.length_take_of_le h.mSize_le

/-- The places in use are in front of the others. -/
theorem table_eq (s : SparseArray α) : s.table = s.places ++ s.table.drop s.mSize :=
  (List.take_append_drop s.mSize s.table).symm

/-- A place has a mapping unless it is marked. -/
theorem mapping_eq_some : mapping p = some (key, value) ↔ p = (key, .ref value) := by
  obtain ⟨k, cell | v⟩ := p
  · simp [mapping]
  · simp [mapping]

/-- A mapping is in the array if a place that is not marked has it. -/
theorem mem_mappings_iff_mem_places : (key, value) ∈ s.mappings ↔ (key, .ref value) ∈ s.places := by
  unfold mappings
  simp only [List.mem_filterMap, mapping_eq_some, exists_eq_right]

/-- The place after `pre`. -/
theorem getElem?_table (hs : s.places = pre ++ p :: post) : s.table[pre.length]? = some p := by
  rw [table_eq s, hs, List.append_assoc, List.getElem?_append_right (le_refl _), Nat.sub_self]
  rfl

/-- The same by an index that is an `int`. -/
theorem get?_table (hs : s.places = pre ++ p :: post) : get? s.table pre.length = some p := by
  rw [get?, if_pos (by omega), Int.toNat_natCast, getElem?_table hs]

/-- What is in `mValues` after `pre`. -/
theorem get?_mValues (hs : s.places = pre ++ p :: post) : get? s.mValues pre.length = some p.2 := by
  rw [get?, if_pos (by omega), Int.toNat_natCast, mValues, List.getElem?_map, getElem?_table hs]
  rfl

/-- The place after `pre` is written. -/
theorem take_set_table (hs : s.places = pre ++ p :: post) (h : s.WellFormed) (q : ℤ × Cell α) :
    (s.table.set pre.length q).take s.mSize = pre ++ q :: post := by
  have hlength : s.mSize = (pre ++ q :: post).length := by
    rw [← length_places h, hs, List.length_append, List.length_append, List.length_cons,
      List.length_cons]
  rw [table_eq s, hs, List.append_assoc, List.set_append_right _ _ (le_refl _), Nat.sub_self,
    List.cons_append, List.set_cons_zero, ← List.cons_append, ← List.append_assoc]
  exact List.take_left' hlength.symm

/-! ### The search -/

/-- The search never leaves the keys. -/
theorem search_eq (h : s.WellFormed) (key : ℤ) :
    s.search key = some (found (s.places.map Prod.fst) key) := by
  have hkeys : s.mKeys.take s.mSize = s.places.map Prod.fst := (List.map_take).symm
  rw [search, binarySearch_eq (hkeys ▸ h.sorted), hkeys]
  rw [mKeys, List.length_map]
  exact h.mSize_le

/-- **The search** cuts the places into the ones before the key, its own if there is one, and the
    ones after it. -/
theorem WellFormed.cut (h : s.WellFormed) (key : ℤ) :
    ∃ pre mid post, s.places = pre ++ mid ++ post ∧ (∀ p ∈ pre, p.1 < key) ∧
      (∀ p ∈ post, key < p.1) ∧
      ((mid = [] ∧ s.search key = some (-(pre.length : ℤ) - 1)) ∨
        ∃ cell, mid = [(key, cell)] ∧ s.search key = some (pre.length : ℤ)) := by
  have hsearch := search_eq h key
  set keys := s.places.map Prod.fst
  have hrank : rank keys key ≤ s.places.length :=
    (rank_le_length keys key).trans_eq (List.length_map _)
  have hpre : ∀ p ∈ s.places.take (rank keys key), p.1 < key := fun p hp =>
    lt_of_mem_take_rank (l := keys) (List.map_take ▸ List.mem_map_of_mem hp)
  -- cut at the rank of the key, with its slot in the middle when it has one
  by_cases hmem : key ∈ keys
  · have hat := (mem_iff_getElem?_rank h.sorted).mp hmem
    rw [found, if_pos hmem] at hsearch
    obtain ⟨p, hp, hkey⟩ : ∃ p, s.places[rank keys key]? = some p ∧ p.1 = key := by
      rw [List.getElem?_map, Option.map_eq_some_iff] at hat
      exact hat
    obtain ⟨hlt, hp⟩ := List.getElem?_eq_some_iff.mp hp
    refine ⟨s.places.take (rank keys key), [p], s.places.drop (rank keys key + 1), ?_, hpre, ?_, ?_⟩
    · rw [List.append_assoc, List.singleton_append, ← hp, ← List.drop_eq_getElem_cons hlt,
        List.take_append_drop]
    · intro q hq
      refine lt_of_mem_drop h.sorted (Nat.le_succ _) ?_ (List.map_drop ▸ List.mem_map_of_mem hq)
      intro hnext
      have hr := (List.getElem?_eq_some_iff.mp hat)
      have hn := (List.getElem?_eq_some_iff.mp hnext)
      -- sorted keys differ, so the slot behind does not hold the key again
      have heq := (List.Nodup.getElem_inj_iff (h.sorted.imp ne_of_lt)).mp (hr.2.trans hn.2.symm)
      exact absurd heq (Nat.ne_of_lt (Nat.lt_succ_self _))
    · refine .inr ⟨p.2, by rw [← hkey], ?_⟩
      rw [hsearch, List.length_take_of_le hrank]
  · rw [found, if_neg hmem] at hsearch
    refine ⟨s.places.take (rank keys key), [], s.places.drop (rank keys key), ?_, hpre, ?_, ?_⟩
    · rw [List.append_nil, List.take_append_drop]
    · intro q hq
      exact lt_of_mem_drop h.sorted (le_refl _) (fun hat => hmem (List.mem_of_getElem? hat))
        (List.map_drop ▸ List.mem_map_of_mem hq)
    · refine .inl ⟨rfl, ?_⟩
      rw [hsearch, List.length_take_of_le hrank]

/-! ### What an operation does to the places -/

/-- **A mapping comes in** between the smaller and the larger keys, in the place of its own or of a
    removed one. -/
theorem Represents.insert (h : s.Represents m) (hs : s.places = pre ++ mid ++ post)
    (hs' : s'.places = pre ++ (key, .ref value) :: post) (hle : s'.mSize ≤ s'.table.length)
    (hgarbage : s'.mGarbage = s.mGarbage) (hpre : ∀ p ∈ pre, p.1 < key)
    (hpost : ∀ p ∈ post, key < p.1) (hmid : ∀ p ∈ mid, p.1 = key ∨ p.2 = .deleted) :
    s'.Represents (Function.update m key (some value)) where
  mSize_le := hle
  sorted := by
    have hsorted := h.sorted
    rw [hs, List.map_append, List.map_append, List.append_assoc, List.pairwise_append] at hsorted
    rw [hs', List.map_append, List.map_cons, List.pairwise_append, List.pairwise_cons]
    have hbefore : ∀ k ∈ pre.map Prod.fst, k < key := by
      rw [List.forall_mem_map]
      exact hpre
    have hafter : ∀ k ∈ post.map Prod.fst, key < k := by
      rw [List.forall_mem_map]
      exact hpost
    refine ⟨hsorted.1, ⟨hafter, (List.pairwise_append.mp hsorted.2.1).2.1⟩, fun a ha b hb => ?_⟩
    rcases List.mem_cons.mp hb with rfl | hb
    · exact hbefore a ha
    · exact (hbefore a ha).trans (hafter b hb)
  deleted_garbage := by
    intro hg p hp
    have hold := h.deleted_garbage (hgarbage ▸ hg)
    rw [hs] at hold
    rw [hs', List.mem_append, List.mem_cons] at hp
    rcases hp with hp | rfl | hp
    · exact hold p (by simp [hp])
    · exact fun hcell => by cases hcell
    · exact hold p (by simp [hp])
  mem_mappings_iff := by
    intro k v
    have hold := h.mem_mappings_iff k v
    rw [mem_mappings_iff_mem_places, hs, List.mem_append, List.mem_append] at hold
    rw [mem_mappings_iff_mem_places, hs', List.mem_append, List.mem_cons]
    by_cases hk : k = key
    · subst hk
      rw [Function.update_self, Option.some.injEq]
      have hnpre : (k, Cell.ref v) ∉ pre := fun hp => lt_irrefl k (hpre _ hp)
      have hnpost : (k, Cell.ref v) ∉ post := fun hp => lt_irrefl k (hpost _ hp)
      simp [hnpre, hnpost, eq_comm]
    · rw [Function.update_of_ne hk, ← hold]
      -- the slots that are overwritten hold the key itself or are marked deleted
      have hnmid : (k, Cell.ref v) ∉ mid := fun hp => by
        rcases hmid _ hp with heq | heq
        · exact hk heq
        · cases heq
      simp [hk, hnmid]

/-- **A mapping goes**, its place is kept. -/
theorem Represents.remove {cell : Cell α} (h : s.Represents m)
    (hs : s.places = pre ++ (key, cell) :: post) (hs' : s'.places = pre ++ (key, .deleted) :: post)
    (hle : s'.mSize ≤ s'.table.length) (hgarbage : s'.mGarbage = true) :
    s'.Represents (Function.update m key none) where
  mSize_le := hle
  sorted := by
    have hsorted := h.sorted
    rw [hs, List.map_append, List.map_cons] at hsorted
    rw [hs', List.map_append, List.map_cons]
    exact hsorted
  deleted_garbage := by
    intro hg
    rw [hgarbage] at hg
    exact Bool.noConfusion hg
  mem_mappings_iff := by
    intro k v
    have hold := h.mem_mappings_iff k v
    rw [mem_mappings_iff_mem_places, hs, List.mem_append, List.mem_cons] at hold
    rw [mem_mappings_iff_mem_places, hs', List.mem_append, List.mem_cons]
    by_cases hk : k = key
    · subst hk
      rw [Function.update_self]
      have hsorted := h.sorted
      rw [hs, List.map_append, List.map_cons, List.pairwise_append, List.pairwise_cons] at hsorted
      -- keys are sorted strictly, so no other slot has this one
      have hnpre : (k, Cell.ref v) ∉ pre := fun hp =>
        lt_irrefl k (hsorted.2.2 k (List.mem_map_of_mem hp) k List.mem_cons_self)
      have hnpost : (k, Cell.ref v) ∉ post := fun hp =>
        lt_irrefl k (hsorted.2.1.1 k (List.mem_map_of_mem hp))
      simp [hnpre, hnpost]
    · rw [Function.update_of_ne hk, ← hold]
      simp [hk]

/-! ### The garbage -/

/-- The loop over the first `n` places has moved the mappings that are left to the front. -/
theorem foldl_gcRound (table : List (ℤ × Cell α)) {n : ℕ} (hn : n ≤ table.length) :
    ∃ t o, (List.range n).foldl gcRound (table, 0) = (t, o) ∧ o ≤ n ∧ t.length = table.length ∧
      t.take o = (table.take n).filter (fun p => p.2 matches .ref _) ∧
      t.drop n = table.drop n := by
  -- after `n` rounds the kept slots stand at the front, the slots from `n` on are untouched
  induction n with
  | zero => exact ⟨table, 0, rfl, le_refl 0, rfl, rfl, rfl⟩
  | succ n ih =>
    obtain ⟨t, o, hfold, ho, hlength, htake, hdrop⟩ := ih (Nat.le_of_succ_le hn)
    have hat : t[n]? = some table[n] := by
      rw [← List.getElem?_eq_getElem, ← Nat.add_zero n, ← List.getElem?_drop, hdrop,
        List.getElem?_drop]
    have hnext : t.drop (n + 1) = table.drop (n + 1) := by
      rw [← List.drop_drop, hdrop, List.drop_drop]
    rw [List.range_succ, List.foldl_append, hfold, List.foldl_cons, List.foldl_nil, gcRound, hat,
      List.take_succ_eq_append_getElem hn, List.filter_append]
    rcases hp : table[n] with ⟨key, cell | value⟩
    · exact ⟨t, o, rfl, Nat.le_succ_of_le ho, hlength, by simp [htake], hnext⟩
    · rcases eq_or_ne n o with rfl | hne
      · refine ⟨t, n + 1, by simp, le_refl _, hlength, ?_, hnext⟩
        rw [hp] at hat
        obtain ⟨hlt, hat⟩ := List.getElem?_eq_some_iff.mp hat
        rw [List.take_succ_eq_append_getElem hlt, htake, hat]
        simp
      · have hlt : o < n := lt_of_le_of_ne ho (Ne.symm hne)
        -- the slot moves down to `o`, and its old place is emptied
        refine ⟨(t.set o (key, .ref value)).set n (key, .ref none), o + 1, by simp [hne],
          Nat.succ_le_succ ho, by simp [hlength], ?_, ?_⟩
        · rw [List.take_set_of_le (by omega),
            List.take_succ_eq_append_getElem (by rw [List.length_set]; omega),
            List.take_set_of_le (le_refl o), htake, List.getElem_set_self]
          simp
        · rw [List.drop_set_of_lt (by omega), List.drop_set_of_lt (by omega), hnext]

/-- A marked place has no mapping. -/
theorem mapping_eq_none_of_not (h : ¬ (p.2 matches .ref _)) : mapping p = none := by
  obtain ⟨k, cell | v⟩ := p
  · rfl
  · exact absurd rfl h

/-- The collection leaves the places that are not marked, in their order. -/
theorem gc_places (h : s.WellFormed) :
    s.gc.places = s.places.filter (fun p => p.2 matches .ref _) := by
  obtain ⟨t, o, hfold, -, -, htake, -⟩ := foldl_gcRound s.table h.mSize_le
  rw [gc, hfold]
  exact htake

/-- **The garbage collection** keeps the mappings, and none of its places is a removed one. -/
theorem gc_spec (h : s.WellFormed) :
    s.gc.WellFormed ∧ s.gc.mGarbage = false ∧ s.gc.mappings = s.mappings ∧
      s.gc.mSize ≤ s.mSize := by
  obtain ⟨t, o, hfold, ho, hlength, -, -⟩ := foldl_gcRound s.table h.mSize_le
  have hgc : s.gc = ⟨false, t, o⟩ := by
    rw [gc, hfold]
  have hplaces := gc_places h
  refine ⟨⟨?_, ?_, fun _ p hp => ?_⟩, by rw [hgc], ?_, by rw [hgc]; exact ho⟩
  · rw [hgc]
    show o ≤ t.length
    rw [hlength]
    exact ho.trans h.mSize_le
  · rw [hplaces]
    exact h.sorted.sublist (List.filter_sublist.map Prod.fst)
  · rw [hplaces] at hp
    intro hdeleted
    -- only references are kept
    have href := (List.mem_filter.mp hp).2
    rw [hdeleted] at href
    exact Bool.noConfusion href
  · rw [mappings, hplaces, mappings, List.filterMap_filter]
    apply List.filterMap_congr
    intro p _
    split_ifs with href
    · rfl
    · exact (mapping_eq_none_of_not href).symm

/-- The collection leaves the map. -/
theorem Represents.gc (h : s.Represents m) : s.gc.Represents m := by
  obtain ⟨hw, -, hmappings, -⟩ := gc_spec h.toWellFormed
  exact ⟨hw, fun key value => by rw [hmappings]; exact h.mem_mappings_iff key value⟩

/-- So does a collection that is made where there is garbage only. -/
theorem Represents.collect (h : s.Represents m) : s.collect.Represents m := by
  unfold SparseArray.collect
  split_ifs
  · exact h.gc
  · exact h

/-- Behind it there is no garbage. -/
theorem collect_mGarbage (h : s.WellFormed) : s.collect.mGarbage = false := by
  unfold SparseArray.collect
  split_ifs with hg
  · exact (gc_spec h).2.1
  · exact Bool.not_eq_true _ ▸ hg

/-- It keeps the mappings. -/
theorem collect_mappings (h : s.WellFormed) : s.collect.mappings = s.mappings := by
  unfold SparseArray.collect
  split_ifs
  · exact (gc_spec h).2.2.1
  · rfl

/-- It takes no more places than there were. -/
theorem collect_mSize_le (h : s.WellFormed) : s.collect.mSize ≤ s.mSize := by
  unfold SparseArray.collect
  split_ifs
  · exact (gc_spec h).2.2.2
  · exact le_refl _

/-- Without garbage every place in use has a mapping. -/
theorem places_eq_map_mappings (h : s.WellFormed) (hg : s.mGarbage = false) :
    s.places = s.mappings.map fun p => (p.1, .ref p.2) := by
  have hall := h.deleted_garbage hg
  unfold mappings
  generalize s.places = l at hall ⊢
  induction l with
  | nil => rfl
  | cons p l ih =>
    obtain ⟨hp, hl⟩ := List.forall_mem_cons.mp hall
    obtain ⟨k, cell | v⟩ := p
    · exact absurd rfl hp
    · rw [List.filterMap_cons_some (show mapping (k, .ref v) = some (k, v) from rfl), List.map_cons,
        ← ih hl]

/-! ### Room for one more -/

/-- The size of an array is never below what is needed. -/
theorem le_idealByteArraySize (need : ℤ) : need ≤ idealByteArraySize need := by
  unfold idealByteArraySize
  split
  · next i hfind => simpa using List.find?_some hfind
  · exact le_refl need

/-- `need * 4` stays in an `int`. -/
theorem le_idealIntArraySize {n : ℤ} (h₀ : 0 ≤ n) (h₁ : n < 2 ^ 29) : n ≤ idealIntArraySize n := by
  have hle := le_idealByteArraySize (int32 (n * 4))
  rw [int32_eq (by omega) (by omega)] at hle
  rw [idealIntArraySize, int32_eq (by omega) (by omega), Int.tdiv_eq_ediv_of_nonneg (by omega)]
  omega

/-- There is a place left behind it, and those in use are as they were. -/
theorem grow_spec (hle : s.mSize ≤ s.table.length) (hsize : s.mSize + 1 < 2 ^ 29) :
    ∃ s', s.grow = some s' ∧ s'.mSize = s.mSize ∧ s'.mGarbage = s.mGarbage ∧
      s'.mSize < s'.table.length ∧ s'.places = s.places := by
  unfold grow
  dsimp only
  split_ifs with hfull
  · have hn : (s.mSize : ℤ) + 1 ≤ idealIntArraySize (int32 (s.mSize + 1)) := by
      rw [int32_eq (by omega) (by omega)]
      exact le_idealIntArraySize (by omega) (by omega)
    have htable : s.table.length <
        (newTable (idealIntArraySize (int32 (s.mSize + 1))) : List (ℤ × Cell α)).length := by
      rw [newTable, List.length_replicate]
      omega
    generalize newTable (idealIntArraySize (int32 (s.mSize + 1))) = table at htable ⊢
    have hcopy : arraycopy s.table 0 table 0 s.table.length =
        some (s.table ++ table.drop s.table.length) := by
      rw [arraycopy, if_pos ⟨by omega, by omega⟩, List.take_zero, List.nil_append, List.drop_zero,
        List.take_length, Nat.zero_add]
    refine ⟨{ s with table := s.table ++ table.drop s.table.length }, by simp [hcopy], rfl, rfl, ?_, ?_⟩
    · show s.mSize < (s.table ++ table.drop s.table.length).length
      rw [List.length_append, List.length_drop]
      omega
    · exact List.take_append_of_le_length hle
  · exact ⟨s, rfl, rfl, rfl, not_le.mp hfull, rfl⟩

/-- The mapping is in its place, and those behind it have moved up by one. -/
theorem insertAt_spec (hlt : s.mSize < s.table.length) (hs : s.places = pre ++ post) :
    ∃ s', s.insertAt pre.length key value = some s' ∧ s'.mSize = s.mSize + 1 ∧
      s'.mGarbage = s.mGarbage ∧ s'.mSize ≤ s'.table.length ∧
      s'.places = pre ++ (key, .ref value) :: post := by
  have hlength : s.mSize = pre.length + post.length := by
    rw [← List.length_append, ← hs, places, List.length_take_of_le (le_of_lt hlt)]
  have htake : s.table.take (pre.length + 1) = pre ++ [s.table[pre.length]] := by
    rw [List.take_succ_eq_append_getElem (by omega), List.append_cancel_right_eq]
    have hprefix := congrArg (List.take pre.length) hs
    rwa [places, List.take_take, min_eq_left (by omega), List.take_left] at hprefix
  -- the slots behind the place move up by one
  have hmoved : (s.table.drop pre.length).take (s.mSize - pre.length) = post := by
    rw [List.take_drop, Nat.add_sub_cancel' (by omega)]
    exact (congrArg (List.drop pre.length) hs).trans List.drop_left
  have hcopy : arraycopy s.table pre.length s.table (pre.length + 1) (s.mSize - pre.length) =
      some (pre ++ [s.table[pre.length]] ++ post ++ s.table.drop (s.mSize + 1)) := by
    rw [arraycopy, if_pos ⟨by omega, by omega⟩, htake, hmoved]
    congr 3
    omega
  have hset : (pre ++ [s.table[pre.length]] ++ post ++ s.table.drop (s.mSize + 1)).set pre.length
      (key, .ref value) = pre ++ (key, .ref value) :: post ++ s.table.drop (s.mSize + 1) := by
    simp
  refine ⟨{ s with
    table := pre ++ (key, .ref value) :: post ++ s.table.drop (s.mSize + 1)
    mSize := s.mSize + 1 }, ?_, rfl, rfl, ?_, ?_⟩
  · rw [insertAt, hcopy, ← hset]
    rfl
  · show s.mSize + 1 ≤ List.length _
    simp only [List.length_append, List.length_cons, List.length_drop]
    omega
  · exact List.take_left' (by simp only [List.length_append, List.length_cons]; omega)

/-! ### The operations -/

/-- A written place of the arrays is a place of the new ones. -/
theorem Represents.set (h : s.Represents m) (value : Option α) (hs : s.places = pre ++ p :: post)
    (hp : p.1 = key ∨ p.2 = .deleted) (hpre : ∀ p ∈ pre, p.1 < key) (hpost : ∀ p ∈ post, key < p.1) :
    { s with table := s.table.set pre.length (key, .ref value) }.Represents
      (Function.update m key (some value)) := by
  have hcut : s.places = pre ++ [p] ++ post := by
    rw [hs, List.append_assoc]
    rfl
  refine h.insert hcut (take_set_table hs h.toWellFormed _) ?_ rfl hpre hpost (by simpa using hp)
  rw [List.length_set]
  exact h.mSize_le

/-- What the map has stands in a place that is not marked. -/
theorem Represents.eq_some_iff_mem (h : s.Represents m) :
    m key = some value ↔ (key, .ref value) ∈ s.places := by
  rw [← h.mem_mappings_iff, mem_mappings_iff_mem_places]

/-- A key that would stand between two places is not in the map. -/
theorem Represents.eq_none (h : s.Represents m) (hs : s.places = pre ++ post)
    (hpre : ∀ p ∈ pre, p.1 < key) (hpost : ∀ p ∈ post, key < p.1) : m key = none := by
  rw [Option.eq_none_iff_forall_ne_some]
  intro value hvalue
  have hmem := h.eq_some_iff_mem.mp hvalue
  rw [hs, List.mem_append] at hmem
  rcases hmem with hmem | hmem
  · exact lt_irrefl key (hpre _ hmem)
  · exact lt_irrefl key (hpost _ hmem)

/-- A key with a place of its own has in the map what is there, or nothing if it is marked. -/
theorem Represents.eq_of_place {cell : Cell α} (h : s.Represents m)
    (hs : s.places = pre ++ (key, cell) :: post) (hpre : ∀ p ∈ pre, p.1 < key)
    (hpost : ∀ p ∈ post, key < p.1) : m key = some value ↔ cell = .ref value := by
  rw [h.eq_some_iff_mem, hs, List.mem_append, List.mem_cons]
  have hnpre : (key, Cell.ref value) ∉ pre := fun hp => lt_irrefl key (hpre _ hp)
  have hnpost : (key, Cell.ref value) ∉ post := fun hp => lt_irrefl key (hpost _ hp)
  simp [hnpre, hnpost, eq_comm]

/-- **`get`** reads the map. -/
theorem get_spec (h : s.Represents m) (key : ℤ) (default : Option α) :
    s.get key default = some ((m key).getD default) := by
  obtain ⟨pre, mid, post, hs, hpre, hpost, ⟨rfl, hsearch⟩ | ⟨cell, rfl, hsearch⟩⟩ := h.cut key
  · rw [List.append_nil] at hs
    rw [get, hsearch, h.eq_none hs hpre hpost]
    simp only [Option.bind_eq_bind, Option.bind_some, Option.getD_none]
    exact if_pos (by omega)
  · rw [List.append_assoc, List.singleton_append] at hs
    rw [get, hsearch]
    simp only [Option.bind_eq_bind, Option.bind_some]
    rw [if_neg (by omega), get?_mValues hs]
    cases cell with
    | deleted =>
      have hnone : m key = none := by
        rw [Option.eq_none_iff_forall_ne_some]
        exact fun value hvalue => by cases (h.eq_of_place hs hpre hpost).mp hvalue
      rw [hnone]
      rfl
    | ref value =>
      rw [(h.eq_of_place hs hpre hpost).mpr rfl]
      rfl

/-- A mapping with a new key, for which the arrays may have to grow. -/
theorem Represents.grow_insertAt (value : Option α) (h : s.Represents m) (hs : s.places = pre ++ post)
    (hpre : ∀ p ∈ pre, p.1 < key) (hpost : ∀ p ∈ post, key < p.1) (hsize : s.mSize + 1 < 2 ^ 29) :
    ∃ s', (s.grow.bind fun s => s.insertAt pre.length key value) = some s' ∧
      s'.Represents (Function.update m key (some value)) ∧ s'.mSize = s.mSize + 1 := by
  obtain ⟨s₁, hgrow, hsize₁, hgarbage₁, hroom, hplaces⟩ := grow_spec h.mSize_le hsize
  obtain ⟨s₂, hinsert, hsize₂, hgarbage₂, hle, hplaces₂⟩ :=
    insertAt_spec hroom (hplaces.trans hs)
  refine ⟨s₂, ?_, ?_, by omega⟩
  · rw [hgrow]
    exact hinsert
  · have hcut : s.places = pre ++ [] ++ post := by
      rw [List.append_nil]
      exact hs
    exact h.insert hcut hplaces₂ hle (hgarbage₂.trans hgarbage₁) hpre hpost (by simp)

/-- **`put`** writes the mapping, however many garbage there is. -/
theorem put_spec (h : s.Represents m) (key : ℤ) (value : Option α)
    (hsize : s.mSize + 1 < 2 ^ 29) :
    ∃ s', s.put key value = some s' ∧ s'.Represents (Function.update m key (some value)) ∧
      s'.mSize ≤ s.mSize + 1 := by
  obtain ⟨pre, mid, post, hs, hpre, hpost, ⟨rfl, hsearch⟩ | ⟨cell, rfl, hsearch⟩⟩ := h.cut key
  · rw [put, hsearch]
    simp only [Option.bind_eq_bind, Option.bind_some]
    rw [if_neg (by omega)]
    have hi : -(-(pre.length : ℤ) - 1) - 1 = pre.length := by omega
    rw [hi]
    rw [List.append_nil] at hs
    split_ifs with hreuse hgarbage
    · -- the next place is a removed one
      obtain ⟨hlt, hcell⟩ := hreuse
      have hlength := length_places h.toWellFormed
      rw [hs, List.length_append] at hlength
      cases post with
      | nil =>
        rw [List.length_nil] at hlength
        omega
      | cons p post =>
        have hdeleted : p.2 = .deleted := by
          rw [get?_mValues hs] at hcell
          revert hcell
          cases p.2 <;> simp
        refine ⟨_, rfl, h.set value hs (.inr hdeleted) hpre
          fun q hq => hpost q (List.mem_cons_of_mem p hq),
          Nat.le_succ _⟩
    · -- the garbage is collected, and the key is not there either
      obtain ⟨hw, hclean, hmappings, hgc⟩ := gc_spec h.toWellFormed
      obtain ⟨pre', mid', post', hs', hpre', hpost', ⟨rfl, hsearch'⟩ | ⟨cell, rfl, hsearch'⟩⟩ :=
        h.gc.cut key
      · rw [List.append_nil] at hs'
        have hi' : (-(-(pre'.length : ℤ) - 1) - 1).toNat = pre'.length := by omega
        obtain ⟨s', hput, hrep, hsize'⟩ := h.gc.grow_insertAt value hs' hpre' hpost' (by omega)
        refine ⟨s', ?_, hrep, by omega⟩
        rw [hsearch', Option.bind_some, hi']
        exact hput
      · rw [List.append_assoc, List.singleton_append] at hs'
        obtain ⟨value', rfl⟩ : ∃ value', cell = .ref value' := by
          have hne := hw.deleted_garbage hclean (key, cell) (by simp [hs'])
          cases cell with
          | deleted => exact absurd rfl hne
          | ref value' => exact ⟨value', rfl⟩
        have hmem : (key, value') ∈ s.mappings := by
          rw [← hmappings, mem_mappings_iff_mem_places, hs']
          simp
        rw [mem_mappings_iff_mem_places, hs, List.mem_append] at hmem
        rcases hmem with hmem | hmem
        · exact absurd (hpre _ hmem) (lt_irrefl key)
        · exact absurd (hpost _ hmem) (lt_irrefl key)
    · obtain ⟨s', hput, hrep, hsize'⟩ := h.grow_insertAt value hs hpre hpost hsize
      exact ⟨s', hput, hrep, by omega⟩
  · rw [put, hsearch]
    simp only [Option.bind_eq_bind, Option.bind_some]
    rw [if_pos (by omega), Int.toNat_natCast]
    rw [List.append_assoc, List.singleton_append] at hs
    exact ⟨_, rfl, h.set value hs (.inl rfl) hpre hpost, Nat.le_succ _⟩

/-- A mapping with the largest key, for which the arrays may have to grow. -/
theorem Represents.grow_set (h : s.Represents m) (hbefore : ∀ p ∈ s.places, p.1 < key)
    (value : Option α) (hsize : s.mSize + 1 < 2 ^ 29) :
    ∃ s', (s.grow.bind fun s₁ => some { s₁ with
        table := s₁.table.set s.mSize (key, .ref value), mSize := s.mSize + 1 }) = some s' ∧
      s'.Represents (Function.update m key (some value)) ∧ s'.mSize = s.mSize + 1 := by
  obtain ⟨s₁, hgrow, hsize₁, hgarbage₁, hroom, hplaces⟩ := grow_spec h.mSize_le hsize
  have hplaces' : (s₁.table.set s.mSize (key, .ref value)).take (s.mSize + 1) =
      s.places ++ [(key, .ref value)] := by
    rw [List.take_succ_eq_append_getElem (by rw [List.length_set]; omega),
      List.take_set_of_le (le_refl _), List.getElem_set_self, ← hplaces, places, hsize₁]
  have hcut : s.places = s.places ++ [] ++ [] := by
    rw [List.append_nil, List.append_nil]
  have hle : s.mSize + 1 ≤ (s₁.table.set s.mSize (key, .ref value)).length := by
    rw [List.length_set]
    omega
  refine ⟨_, by rw [hgrow]; rfl, ?_, rfl⟩
  exact h.insert hcut hplaces' hle hgarbage₁ hbefore (List.forall_mem_nil _) (List.forall_mem_nil _)

/-- A mapping with the largest key is written behind the others. -/
theorem appendLast_spec (h : s.Represents m) (hbefore : ∀ p ∈ s.places, p.1 < key)
    (hsize : s.mSize + 1 < 2 ^ 29) :
    ∃ s', s.appendLast key value = some s' ∧ s'.Represents (Function.update m key (some value)) ∧
      s'.mSize ≤ s.mSize + 1 := by
  rw [appendLast]
  split_ifs
  · have hgc := (gc_spec h.toWellFormed).2.2.2
    have hbefore' : ∀ p ∈ s.gc.places, p.1 < key := fun p hp =>
      hbefore p (List.mem_of_mem_filter (gc_places h.toWellFormed ▸ hp))
    obtain ⟨s', happend, hrep, hsize'⟩ := h.gc.grow_set hbefore' value (by omega)
    exact ⟨s', happend, hrep, by omega⟩
  · obtain ⟨s', happend, hrep, hsize'⟩ := h.grow_set hbefore value hsize
    exact ⟨s', happend, hrep, by omega⟩

/-- **`append`** writes a key that is larger than all the others without a search. -/
theorem append_spec (h : s.Represents m) (key : ℤ) (value : Option α)
    (hsize : s.mSize + 1 < 2 ^ 29) :
    ∃ s', s.append key value = some s' ∧ s'.Represents (Function.update m key (some value)) ∧
      s'.mSize ≤ s.mSize + 1 := by
  have hlength := length_places h.toWellFormed
  rw [append]
  obtain hnil | ⟨init, p, hs⟩ := List.eq_nil_or_concat s.places
  · rw [hnil, List.length_nil] at hlength
    rw [if_neg (not_not.mpr hlength.symm)]
    exact appendLast_spec h (by simp [hnil]) hsize
  · rw [List.concat_eq_append] at hs
    rw [hs, List.length_append, List.length_singleton] at hlength
    -- the last slot decides, marked deleted or not
    have hget : get? s.mKeys ((s.mSize : ℤ) - 1) = some p.1 := by
      have hplace : (s.mSize : ℤ) - 1 = init.length := by omega
      rw [hplace, get?, if_pos (by omega), Int.toNat_natCast, mKeys, List.getElem?_map,
        getElem?_table hs]
      rfl
    rw [if_pos (by omega), hget]
    simp only [Option.bind_eq_bind, Option.bind_some]
    split_ifs with hle
    · exact put_spec h key value hsize
    · refine appendLast_spec h (fun q hq => ?_) hsize
      have hsorted := h.sorted
      rw [hs] at hq
      rw [hs, List.map_append, List.pairwise_append] at hsorted
      rcases List.mem_append.mp hq with hq | hq
      · have hqp : q.1 < p.1 := hsorted.2.2 q.1 (List.mem_map_of_mem hq) p.1 (by simp)
        exact hqp.trans (not_le.mp hle)
      · rw [List.mem_singleton.mp hq]
        exact not_le.mp hle

/-! ### Removal -/

/-- A removed place is removed once. -/
theorem Represents.removeAt {cell : Cell α} (h : s.Represents m)
    (hs : s.places = pre ++ (key, cell) :: post) :
    ∃ s', s.removeAt pre.length = some s' ∧ s'.Represents (Function.update m key none) ∧
      s'.mSize = s.mSize ∧ s'.places = pre ++ (key, .deleted) :: post := by
  cases cell with
  | deleted =>
    refine ⟨s, by rw [SparseArray.removeAt, get?_table hs]; rfl, ?_, rfl, hs⟩
    refine h.remove hs hs h.mSize_le ?_
    by_contra hclean
    exact h.deleted_garbage (Bool.not_eq_true _ ▸ hclean) (key, .deleted) (by simp [hs]) rfl
  | ref value =>
    have hplaces := take_set_table hs h.toWellFormed (key, .deleted)
    have hle : s.mSize ≤ (s.table.set pre.length (key, .deleted)).length := by
      rw [List.length_set]
      exact h.mSize_le
    refine ⟨{ s with mGarbage := true, table := s.table.set pre.length (key, .deleted) }, ?_,
      h.remove hs hplaces hle rfl, rfl, hplaces⟩
    rw [SparseArray.removeAt, get?_table hs]
    rfl

/-- **`delete`** takes the key out of the map, if it is in it. -/
theorem delete_spec (h : s.Represents m) (key : ℤ) :
    ∃ s', s.delete key = some s' ∧ s'.Represents (Function.update m key none) ∧
      s'.mSize = s.mSize := by
  obtain ⟨pre, mid, post, hs, hpre, hpost, ⟨rfl, hsearch⟩ | ⟨cell, rfl, hsearch⟩⟩ := h.cut key
  · rw [List.append_nil] at hs
    refine ⟨s, ?_, ?_, rfl⟩
    · rw [delete, hsearch]
      simp only [Option.bind_eq_bind, Option.bind_some]
      exact if_neg (by omega)
    · rw [← h.eq_none hs hpre hpost, Function.update_eq_self]
      exact h
  · rw [List.append_assoc, List.singleton_append] at hs
    obtain ⟨s', hremove, hrep, hsize, -⟩ := h.removeAt hs
    refine ⟨s', ?_, hrep, hsize⟩
    rw [delete, hsearch]
    simp only [Option.bind_eq_bind, Option.bind_some]
    rw [if_pos (by omega)]
    exact hremove

/-- A cleared array stands for the empty map, -/
theorem clear_spec (s : SparseArray α) : s.clear.Represents fun _ => none := by
  have hplaces : s.clear.places = [] := List.take_zero
  refine ⟨⟨Nat.zero_le _, by rw [hplaces]; exact .nil, by simp [hplaces]⟩, fun key value => ?_⟩
  rw [mem_mappings_iff_mem_places, hplaces]
  simp

/-- and so does a new one. -/
theorem new_spec (initialCapacity : ℤ) :
    (new initialCapacity : SparseArray α).Represents fun _ => none := by
  have hplaces : (new initialCapacity : SparseArray α).places = [] := List.take_zero
  refine ⟨⟨Nat.zero_le _, by rw [hplaces]; exact .nil, by simp [hplaces]⟩, fun key value => ?_⟩
  rw [mem_mappings_iff_mem_places, hplaces]
  simp

end SparseArray

end PopcornTime.TorrentLib
