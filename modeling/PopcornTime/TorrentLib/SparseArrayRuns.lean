import Mathlib.Data.List.Sort
import PopcornTime.TorrentLib.SparseArray

namespace PopcornTime.TorrentLib

open PopcornTime BinarySearch
open PopcornTime.Desktop (int32)

/-!
# Torrent library — the sparse array over any sequence of operations

What the arrays hold is one list, the mappings in the order of their keys.  Every operation does to
the list what it should, whatever garbage there is and however often the arrays have grown.

An index counts the places of the arrays, the removed ones included.  It counts mappings only behind
a call that has collected the garbage, so the operations with an index are taken behind `size`.

* `Op` — the operations; `Op.run`, what they do to the arrays; `Op.apply`, to the list.
* `Reads` — what the reading functions return.
* `run_reads` — the arrays read as the list, after any sequence of operations.
-/

namespace SparseArray

variable {α : Type} {s s' : SparseArray α} {m : ℤ → Option (Option α)} {key : ℤ} {value : Option α}
  {l : List (ℤ × Option α)}

/-! ### The mappings as a sorted list -/

def Sorted (l : List (ℤ × Option α)) : Prop := (l.map Prod.fst).Pairwise (· < ·)

/-- The mappings are in the order of their keys. -/
theorem mappings_sorted (h : s.WellFormed) : Sorted s.mappings := by
  refine List.Pairwise.sublist ?_ h.sorted
  unfold mappings
  generalize s.places = places
  induction places with
  | nil => exact .slnil
  | cons p places ih =>
    obtain ⟨k, cell | v⟩ := p
    · exact ih.cons k
    · exact ih.cons_cons k

/-- Sorted lists with the same mappings are the same. -/
theorem Represents.mappings_eq (h : s.Represents m) (hl : Sorted l)
    (hmem : ∀ key value, (key, value) ∈ l ↔ m key = some value) : s.mappings = l := by
  have hs := List.pairwise_map.mp (mappings_sorted h.toWellFormed)
  have hl := List.pairwise_map.mp hl
  have hperm : s.mappings.Perm l := by
    refine (List.perm_ext_iff_of_nodup (hs.imp fun hlt => ?_) (hl.imp fun hlt => ?_)).mpr ?_
    · exact ne_of_apply_ne Prod.fst (ne_of_lt hlt)
    · exact ne_of_apply_ne Prod.fst (ne_of_lt hlt)
    · rintro ⟨key, value⟩
      rw [h.mem_mappings_iff, hmem]
  exact hperm.eq_of_pairwise (fun a b _ _ hab hba => absurd (hab.trans hba) (lt_irrefl _)) hs hl

/-- The map of a list. -/
def lookup (l : List (ℤ × Option α)) (key : ℤ) : Option (Option α) :=
  (l.find? fun p => p.1 = key).map Prod.snd

/-- A sorted list has one value for a key. -/
theorem Sorted.mem_iff_lookup (hl : Sorted l) : (key, value) ∈ l ↔ lookup l key = some value := by
  unfold lookup
  induction l with
  | nil => simp
  | cons p l ih =>
    obtain ⟨hp, hl⟩ := List.pairwise_cons.mp hl
    by_cases hkey : p.1 = key
    · rw [List.find?_cons_of_pos (by simpa using hkey), Option.map_some, Option.some.injEq,
        List.mem_cons]
      have hnot : (key, value) ∉ l := fun hmem =>
        absurd (hp key (List.mem_map_of_mem hmem)) (by rw [hkey]; exact lt_irrefl key)
      simp [hnot, Prod.ext_iff, hkey, eq_comm]
    · rw [List.find?_cons_of_neg (by simpa using hkey), List.mem_cons, ← ih hl]
      have hne : (key, value) ≠ p := fun heq => hkey (congrArg Prod.fst heq).symm
      simp [hne]

/-- The arrays stand for the map of their mappings. -/
theorem WellFormed.represents (h : s.WellFormed) : s.Represents (lookup s.mappings) :=
  ⟨h, fun _ _ => (mappings_sorted h).mem_iff_lookup⟩

/-! ### The operations -/

/-- The operations.  The ones with an index stand behind a call of `size`; the index of `removeAt`
    and of `setValueAt` is one that `size` allows. -/
inductive Op (α : Type)
  | put (key : ℤ) (value : Option α)
  | append (key : ℤ) (value : Option α)
  | delete (key : ℤ)
  | clear
  | size
  | setValueAt (index : ℕ) (value : Option α)
  | removeAt (index : ℕ)
  | removeAtRange (index count : ℕ)

def Op.run (s : SparseArray α) : Op α → Option (SparseArray α)
  | .put key value => s.put key value
  | .append key value => s.append key value
  | .delete key => s.delete key
  | .clear => some s.clear
  | .size => some s.size.2
  | .setValueAt index value =>
    if index < s.size.1 then s.size.2.setValueAt index value else some s.size.2
  | .removeAt index => if index < s.size.1 then s.size.2.removeAt index else some s.size.2
  | .removeAtRange index count => s.size.2.removeAtRange index count

/-- What the operation does to the list of the mappings; `index + count` is an `int`. -/
def Op.apply (l : List (ℤ × Option α)) : Op α → List (ℤ × Option α)
  | .put key value | .append key value =>
    l.filter (fun p => p.1 < key) ++ (key, value) :: l.filter fun p => key < p.1
  | .delete key => l.filter fun p => p.1 ≠ key
  | .clear => []
  | .size => l
  | .setValueAt index value => l.modify index fun p => (p.1, value)
  | .removeAt index => l.eraseIdx index
  | .removeAtRange index count => l.take index ++ l.drop (max index (int32 (index + count)).toNat)

/-- The operations that can need a place more. -/
def Op.adds : Op α → Bool
  | .put _ _ | .append _ _ => true
  | _ => false

/-- A put key has the new value, the others have theirs. -/
theorem mem_put_iff {k : ℤ} {v : Option α} (hl : Sorted l) :
    (k, v) ∈ l.filter (fun p => p.1 < key) ++ (key, value) :: l.filter (fun p => key < p.1) ↔
      Function.update (lookup l) key (some value) k = some v := by
  rw [List.mem_append, List.mem_cons, List.mem_filter, List.mem_filter, decide_eq_true_eq,
    decide_eq_true_eq]
  rcases eq_or_ne k key with rfl | hne
  · rw [Function.update_self]
    simp [eq_comm]
  · rw [Function.update_of_ne hne, ← hl.mem_iff_lookup, Prod.mk.injEq]
    rcases lt_or_gt_of_ne hne with hlt | hgt
    · simp [hlt, hne, not_lt_of_gt hlt]
    · simp [hgt, hne, not_lt_of_gt hgt]

/-- It comes in at its place. -/
theorem sorted_put (hl : Sorted l) :
    Sorted (l.filter (fun p => p.1 < key) ++ (key, value) :: l.filter fun p => key < p.1) := by
  have hl := List.pairwise_map.mp hl
  refine List.pairwise_map.mpr (List.pairwise_append.mpr ⟨hl.filter _, ?_, ?_⟩)
  · refine List.pairwise_cons.mpr ⟨fun p hp => ?_, hl.filter _⟩
    simpa using (List.mem_filter.mp hp).2
  · intro p hp q hq
    have hpk : p.1 < key := by simpa using (List.mem_filter.mp hp).2
    rcases List.mem_cons.mp hq with rfl | hq
    · exact hpk
    · have hkq : key < q.1 := by simpa using (List.mem_filter.mp hq).2
      exact hpk.trans hkq

/-- A deleted key has no value, the others have theirs. -/
theorem mem_delete_iff {k : ℤ} {v : Option α} (hl : Sorted l) :
    (k, v) ∈ l.filter (fun p => p.1 ≠ key) ↔ Function.update (lookup l) key none k = some v := by
  rw [List.mem_filter, decide_eq_true_eq]
  rcases eq_or_ne k key with rfl | hne
  · rw [Function.update_self]
    simp
  · rw [Function.update_of_ne hne, ← hl.mem_iff_lookup]
    simp [hne]

/-- The others stay in order. -/
theorem sorted_delete (hl : Sorted l) : Sorted (l.filter fun p => p.1 ≠ key) :=
  List.pairwise_map.mpr ((List.pairwise_map.mp hl).filter _)

/-! ### The operations with an index -/

/-- Behind the collection every place has a mapping. -/
theorem places_collect (h : s.WellFormed) :
    s.collect.places = s.mappings.map fun p => (p.1, .ref p.2) := by
  rw [places_eq_map_mappings h.represents.collect.toWellFormed (collect_mGarbage h),
    collect_mappings h]

/-- So there are as many places as mappings. -/
theorem collect_mSize (h : s.WellFormed) : s.collect.mSize = s.mappings.length := by
  rw [← length_places h.represents.collect.toWellFormed, places_collect h, List.length_map]

/-- A second collection does nothing. -/
theorem collect_collect (h : s.WellFormed) : s.collect.collect = s.collect :=
  if_neg (Bool.not_eq_true _ ▸ collect_mGarbage h)

/-- Places that are not marked have their mappings. -/
theorem filterMap_mapping_map (l : List (ℤ × Option α)) :
    (l.map fun p => (p.1, Cell.ref p.2)).filterMap mapping = l := by
  rw [List.filterMap_map]
  exact List.filterMap_some

/-- The loop of `removeAtRange` takes every mapping of its places. -/
theorem foldlM_removeAt {pre mid post : List (ℤ × Cell α)} (h : s.WellFormed)
    (hs : s.places = pre ++ mid ++ post) :
    ∃ s', (Int.range pre.length (pre.length + mid.length)).foldlM removeAt s = some s' ∧
      s'.WellFormed ∧ s'.mSize = s.mSize ∧
      s'.mappings = pre.filterMap mapping ++ post.filterMap mapping := by
  induction mid generalizing pre s with
  | nil =>
    rw [List.append_nil] at hs
    refine ⟨s, ?_, h, rfl, by rw [mappings, hs, List.filterMap_append]⟩
    rw [range_eq_nil (by simp)]
    rfl
  | cons p mid ih =>
    have hcut : s.places = pre ++ (p.1, p.2) :: (mid ++ post) := by
      rw [hs, List.append_assoc, List.cons_append]
    obtain ⟨s₁, hremove, hrep, hsize, hplaces⟩ := h.represents.removeAt hcut
    -- the slot is marked and keeps its place, so the next index is the next slot
    have hplaces' : s₁.places = (pre ++ [(p.1, .deleted)]) ++ mid ++ post := by
      rw [hplaces]
      simp
    obtain ⟨s', hfold, hw, hsize', hmappings⟩ := ih hrep.toWellFormed hplaces'
    refine ⟨s', ?_, hw, hsize'.trans hsize, ?_⟩
    · rw [range_eq_cons (by rw [List.length_cons]; omega), List.foldlM_cons, hremove]
      have hlo : (((pre ++ [(p.1, Cell.deleted)]).length : ℕ) : ℤ) = pre.length + 1 := by simp
      have hhi : (pre.length : ℤ) + 1 + mid.length = pre.length + (p :: mid).length := by
        rw [List.length_cons]
        omega
      rw [hlo, hhi] at hfold
      exact hfold
    · rw [hmappings, List.filterMap_append]
      simp [mapping]

/-- **A range is removed**, as far as there are places in it. -/
theorem removeAtRange_spec (h : s.WellFormed) (index count : ℕ) :
    ∃ s', s.collect.removeAtRange index count = some s' ∧ s'.WellFormed ∧
      s'.mSize = s.collect.mSize ∧
      s'.mappings = (Op.removeAtRange index count).apply s.mappings := by
  have hw := h.represents.collect.toWellFormed
  have hplaces := places_collect h
  have hlength := collect_mSize h
  rw [removeAtRange, Op.apply]
  set «end» : ℤ := int32 (index + count)
  rcases le_or_gt (min (s.collect.mSize : ℤ) «end») index with hle | hgt
  · -- an empty range, also where the sum overflows: nothing is removed
    refine ⟨s.collect, by rw [range_eq_nil hle]; rfl, hw, rfl, ?_⟩
    rw [collect_mappings h]
    rcases le_or_gt s.mappings.length index with hout | hin
    · rw [List.take_of_length_le hout, List.drop_eq_nil_of_le (by omega), List.append_nil]
    · rw [max_eq_left (by omega), List.take_append_drop]
  · obtain ⟨n, hn, hlast⟩ : ∃ n : ℕ, min (s.collect.mSize : ℤ) «end» = index + n ∧
        index + n ≤ s.mappings.length :=
      ⟨(min (s.collect.mSize : ℤ) «end» - index).toNat, by omega, by omega⟩
    -- right behind a collection the slots are the mappings, so the range cuts both alike
    set toPlace := fun p : ℤ × Option α => (p.1, Cell.ref p.2)
    have hcut : s.collect.places = (s.mappings.take index).map toPlace ++
        ((s.mappings.drop index).take n).map toPlace ++ (s.mappings.drop (index + n)).map toPlace := by
      rw [hplaces, ← List.map_append, ← List.map_append, List.append_assoc, ← List.drop_drop,
        List.take_append_drop, List.take_append_drop]
    obtain ⟨s', hfold, hw', hsize, hmappings⟩ := foldlM_removeAt hw hcut
    refine ⟨s', ?_, hw', hsize, ?_⟩
    · rw [List.length_map, List.length_take_of_le (by omega), List.length_map,
        List.length_take_of_le (by rw [List.length_drop]; omega)] at hfold
      rw [hn]
      exact hfold
    · rw [hmappings, filterMap_mapping_map, filterMap_mapping_map, List.append_cancel_left_eq]
      rcases min_cases (s.collect.mSize : ℤ) «end» with ⟨hmin, hend⟩ | ⟨hmin, hend⟩
      · rw [List.drop_eq_nil_of_le (by omega), List.drop_eq_nil_of_le (by omega)]
      · have hdrop : index + n = max index «end».toNat := by omega
        rw [hdrop]

/-- Behind the collection, the place of an index is that of its mapping. -/
theorem places_collect_cut (h : s.WellFormed) {index : ℕ} (hindex : index < s.mappings.length) :
    s.collect.places = (s.mappings.take index).map (fun p => (p.1, .ref p.2)) ++
      (s.mappings[index].1, .ref s.mappings[index].2) ::
        (s.mappings.drop (index + 1)).map fun p => (p.1, .ref p.2) := by
  have hcut : s.mappings =
      s.mappings.take index ++ s.mappings[index] :: s.mappings.drop (index + 1) := by
    rw [List.getElem_cons_drop, List.take_append_drop]
  rw [places_collect h]
  conv_lhs => rw [hcut]
  rw [List.map_append, List.map_cons]

/-- **A value is set** at the place of its index. -/
theorem setValueAt_spec (h : s.WellFormed) {index : ℕ} (hindex : index < s.collect.mSize) :
    ∃ s', s.collect.setValueAt index value = some s' ∧ s'.WellFormed ∧
      s'.mSize = s.collect.mSize ∧
      s'.mappings = (Op.setValueAt index value).apply s.mappings := by
  have hw := h.represents.collect.toWellFormed
  have hin : index < s.mappings.length := collect_mSize h ▸ hindex
  have hs := places_collect_cut h hin
  have hsorted := hw.sorted
  rw [hs, List.map_append, List.map_cons, List.pairwise_append, List.pairwise_cons] at hsorted
  have hset := hw.represents.set value hs (.inl rfl)
    (fun p hp => hsorted.2.2 p.1 (List.mem_map_of_mem hp) _ List.mem_cons_self)
    (fun p hp => hsorted.2.1.1 p.1 (List.mem_map_of_mem hp))
  have hwritten := take_set_table hs hw (s.mappings[index].1, .ref value)
  have hget := get?_table hs
  rw [List.length_map, List.length_take_of_le (le_of_lt hin)] at hset hwritten hget
  refine ⟨_, ?_, hset.toWellFormed, rfl, ?_⟩
  · rw [setValueAt, collect_collect h, hget]
    rfl
  · rw [mappings, places, hwritten, List.filterMap_append, filterMap_mapping_map,
      List.filterMap_cons_some (show mapping (s.mappings[index].1, Cell.ref value) =
        some (s.mappings[index].1, value) from rfl),
      filterMap_mapping_map, Op.apply, List.modify_eq_take_cons_drop hin]

/-- **A mapping is removed** at the place of its index. -/
theorem removeAt_spec (h : s.WellFormed) {index : ℕ} (hindex : index < s.collect.mSize) :
    ∃ s', s.collect.removeAt index = some s' ∧ s'.WellFormed ∧ s'.mSize = s.collect.mSize ∧
      s'.mappings = (Op.removeAt index).apply s.mappings := by
  have hin : index < s.mappings.length := collect_mSize h ▸ hindex
  obtain ⟨s', hremove, hrep, hsize, hplaces⟩ :=
    h.represents.collect.removeAt (places_collect_cut h hin)
  rw [List.length_map, List.length_take_of_le (le_of_lt hin)] at hremove
  refine ⟨s', hremove, hrep.toWellFormed, hsize, ?_⟩
  have hdeleted : mapping (s.mappings[index].1, (Cell.deleted : Cell α)) = none := rfl
  rw [mappings, hplaces, List.filterMap_append, filterMap_mapping_map,
    List.filterMap_cons_none hdeleted, filterMap_mapping_map, Op.apply,
    List.eraseIdx_eq_take_drop_succ]

/-! ### Every operation -/

/-- **One operation** does to the list what it should. -/
theorem run_spec (h : s.WellFormed) (op : Op α) (hsize : op.adds = true → s.mSize + 1 < 2 ^ 29) :
    ∃ s', op.run s = some s' ∧ s'.WellFormed ∧ s'.mappings = op.apply s.mappings ∧
      s'.mSize ≤ s.mSize + if op.adds then 1 else 0 := by
  -- an index out of range leaves the mappings as they are
  have hl := mappings_sorted h
  cases op with
  | put key value =>
    obtain ⟨s', hrun, hrep, hle⟩ := put_spec h.represents key value (hsize rfl)
    exact ⟨s', hrun, hrep.toWellFormed, hrep.mappings_eq (sorted_put hl) fun _ _ => mem_put_iff hl,
      hle⟩
  | append key value =>
    obtain ⟨s', hrun, hrep, hle⟩ := append_spec h.represents key value (hsize rfl)
    exact ⟨s', hrun, hrep.toWellFormed, hrep.mappings_eq (sorted_put hl) fun _ _ => mem_put_iff hl,
      hle⟩
  | delete key =>
    obtain ⟨s', hrun, hrep, hle⟩ := delete_spec h.represents key
    exact ⟨s', hrun, hrep.toWellFormed,
      hrep.mappings_eq (sorted_delete hl) fun _ _ => mem_delete_iff hl, hle.le⟩
  | clear =>
    exact ⟨s.clear, rfl, (clear_spec s).toWellFormed,
      (clear_spec s).mappings_eq .nil (by simp [Op.apply]), Nat.zero_le _⟩
  | size =>
    exact ⟨s.collect, rfl, h.represents.collect.toWellFormed, collect_mappings h,
      collect_mSize_le h⟩
  | setValueAt index value =>
    by_cases hindex : index < s.collect.mSize
    · obtain ⟨s', hrun, hw, hsize, hmappings⟩ := setValueAt_spec h hindex
      exact ⟨s', (if_pos hindex).trans hrun, hw, hmappings, hsize.le.trans (collect_mSize_le h)⟩
    · refine ⟨s.collect, if_neg hindex, h.represents.collect.toWellFormed, ?_, collect_mSize_le h⟩
      rw [collect_mappings h, Op.apply, List.modify_eq_self]
      rw [← collect_mSize h]
      exact not_lt.mp hindex
  | removeAt index =>
    by_cases hindex : index < s.collect.mSize
    · obtain ⟨s', hrun, hw, hsize, hmappings⟩ := removeAt_spec h hindex
      exact ⟨s', (if_pos hindex).trans hrun, hw, hmappings, hsize.le.trans (collect_mSize_le h)⟩
    · refine ⟨s.collect, if_neg hindex, h.represents.collect.toWellFormed, ?_, collect_mSize_le h⟩
      rw [collect_mappings h, Op.apply, List.eraseIdx_of_length_le]
      rw [← collect_mSize h]
      exact not_lt.mp hindex
  | removeAtRange index count =>
    obtain ⟨s', hrun, hw, hsize, hmappings⟩ := removeAtRange_spec h index count
    exact ⟨s', hrun, hw, hmappings, hsize.le.trans (collect_mSize_le h)⟩

/-! ### Reading -/

/-- Every reading function reads the list. -/
structure Reads [DecidableEq α] (s : SparseArray α) (l : List (ℤ × Option α)) : Prop where
  get : ∀ key valueIfKeyNotFound,
    s.get key valueIfKeyNotFound = some ((lookup l key).getD valueIfKeyNotFound)
  size : s.size.1 = l.length
  keyAt : ∀ index (h : index < l.length), (s.keyAt index).1 = some (l[index]).1
  valueAt : ∀ index (h : index < l.length), (s.valueAt index).1 = some (.ref (l[index]).2)
  indexOfKey : ∀ key, (s.indexOfKey key).1 = some (found (l.map Prod.fst) key)
  indexOfValue : ∀ value, (s.indexOfValue value).1 =
    match l.findIdx? fun p => p.2 = value with
    | some index => (index : ℤ)
    | none => -1

/-- Behind the collection an index leads to its mapping. -/
theorem get?_collect_table (h : s.WellFormed) {index : ℕ} (hindex : index < s.mappings.length) :
    get? s.collect.table index = some (s.mappings[index].1, .ref s.mappings[index].2) := by
  rw [get?, if_pos (by omega), Int.toNat_natCast, table_eq, places_collect h,
    List.getElem?_append_left (by rw [List.length_map]; exact hindex), List.getElem?_map,
    List.getElem?_eq_getElem hindex]
  rfl

/-- The index of a key is negative if there is no mapping for it. -/
theorem indexOfKey_spec (h : s.Represents m) (key : ℤ) :
    ∃ i, (s.indexOfKey key).1 = some i ∧ (0 ≤ i ↔ m key ≠ none) := by
  refine ⟨_, search_eq h.collect.toWellFormed key, ?_⟩
  have hmem : key ∈ s.collect.places.map Prod.fst ↔ m key ≠ none := by
    rw [places_collect h.toWellFormed, List.map_map, Option.ne_none_iff_exists']
    simp [← h.mem_mappings_iff]
  rw [← hmem, found]
  split_ifs with hin
  · exact iff_of_true (Int.natCast_nonneg _) hin
  · exact iff_of_false (by omega) hin

/-- A mapped list is read by an `int` as the list is. -/
theorem get?_map {β γ : Type} (f : β → γ) (l : List β) (i : ℤ) :
    get? (l.map f) i = (get? l i).map f := by
  unfold get?
  split_ifs
  · exact List.getElem?_map
  · rfl

/-- **Every reading function** reads the mappings, behind a collection where it makes one. -/
theorem WellFormed.reads [DecidableEq α] (h : s.WellFormed) : s.Reads s.mappings where
  get key := get_spec h.represents key
  size := collect_mSize h
  keyAt index hindex := by
    show get? (s.collect.table.map Prod.fst) index = _
    rw [get?_map, get?_collect_table h hindex]
    rfl
  valueAt index hindex := by
    show get? (s.collect.table.map Prod.snd) index = _
    rw [get?_map, get?_collect_table h hindex]
    rfl
  indexOfKey key := by
    show s.collect.search key = _
    rw [search_eq h.represents.collect.toWellFormed, places_collect h, List.map_map]
    rfl
  indexOfValue value := by
    -- behind a collection the slots are the mappings in their order
    have hread : ∀ i : ℕ, ∀ hi : i < s.mappings.length,
        (get? s.collect.mValues i = some (.ref value)) = (s.mappings[i].2 = value) := by
      intro i hi
      rw [mValues, get?_map, get?_collect_table h hi]
      simp
    rw [indexOfValue, collect_mSize h]
    cases hfind : s.mappings.findIdx? fun p => p.2 = value with
    | none =>
      have hnone := List.findIdx?_eq_none_iff.mp hfind
      rw [find?_range_eq_none.mpr fun j h₀ hj => ?_]
      obtain ⟨i, rfl⟩ := Int.eq_ofNat_of_zero_le h₀
      simp only [hread i (by omega)]
      exact hnone _ (List.getElem_mem _)
    | some index =>
      obtain ⟨hlt, hat, hbefore⟩ := List.findIdx?_eq_some_iff_getElem.mp hfind
      rw [find?_range_eq_some.mpr ⟨Int.natCast_nonneg index, by omega, ?_, fun j h₀ hj => ?_⟩]
      · simp only [hread index hlt]
        exact hat
      · obtain ⟨i, rfl⟩ := Int.eq_ofNat_of_zero_le h₀
        simp only [hread i (by omega)]
        simpa using hbefore i (by omega)

/-- **Over any sequence of operations** with less than `2 ^ 29` new mappings nothing throws, and
    the arrays read as the list does. -/
theorem run_reads [DecidableEq α] (initialCapacity : ℤ) (ops : List (Op α))
    (hops : ops.countP Op.adds < 2 ^ 29) :
    ∃ s, ops.foldlM Op.run (new initialCapacity) = some s ∧ Sorted (ops.foldl Op.apply []) ∧
      s.Reads (ops.foldl Op.apply []) := by
  -- from any array: its size and the adds still to come stay below the limit
  suffices go : ∀ (s : SparseArray α), s.WellFormed → s.mSize + ops.countP Op.adds < 2 ^ 29 →
      ∃ s', ops.foldlM Op.run s = some s' ∧ s'.WellFormed ∧
        s'.mappings = ops.foldl Op.apply s.mappings by
    have hnew := new_spec (α := α) initialCapacity
    have hempty : (new initialCapacity : SparseArray α).mappings = [] :=
      hnew.mappings_eq .nil (by simp)
    obtain ⟨s, hrun, hw, hmappings⟩ := go _ hnew.toWellFormed (by show 0 + _ < _; omega)
    rw [hempty] at hmappings
    rw [← hmappings]
    exact ⟨s, hrun, mappings_sorted hw, hw.reads⟩
  clear hops
  induction ops with
  | nil => exact fun s h _ => ⟨s, rfl, h, rfl⟩
  | cons op ops ih =>
    intro s h hsize
    rw [List.countP_cons] at hsize
    obtain ⟨s₁, hrun, hw, hmappings, hle⟩ := run_spec h op fun hadds => by
      rw [if_pos hadds] at hsize
      omega
    obtain ⟨s', hrest, hw', hmappings'⟩ := ih s₁ hw (by omega)
    refine ⟨s', ?_, hw', ?_⟩
    · rw [List.foldlM_cons, hrun]
      exact hrest
    · rw [hmappings', hmappings]
      rfl

/-- Behind a removed key the indices are those of the mappings that are left. -/
theorem run_reads_five : ∃ s, [Op.put 5 (some 1), .put 3 none, .append 9 (some 2), .delete 3,
    .removeAt 0].foldlM Op.run (new 1 : SparseArray ℕ) = some s ∧ Sorted [(9, some 2)] ∧
      s.Reads [(9, some 2)] :=
  run_reads 1 [.put 5 (some 1), .put 3 none, .append 9 (some 2), .delete 3, .removeAt 0]
    (by decide)

end SparseArray

end PopcornTime.TorrentLib
