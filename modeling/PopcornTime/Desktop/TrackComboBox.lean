import Mathlib.Data.List.Infix
import Mathlib.Data.List.Lex
import Mathlib.Order.Nat
import PopcornTime.Lib.FirstMatch
import PopcornTime.Lib.KeyedList
import PopcornTime.Desktop.NjsProcess

namespace PopcornTime.Desktop

open PopcornTime KeyedList

/-!
# Desktop — the box of the audio tracks

The player keeps the tracks in a map under their names, and the box finds the track of an entry by
the first name that occurs in its text.

* `onInternalAudioTracksChanged` — the map of a list of tracks.
* `TTrackComboBox.setAudioTrackList`, `TTrackComboBox.itemSelected` — the box.
* `audioTracksRight_iff` — when every track has an entry that leads to it.
-/

/-- The code units of a text in the source. -/
def ofLatin1 (text : String) : QString :=
  text.toList.map fun c => UInt16.ofNat c.toNat

/-- A text as `operator<` compares it. -/
def units (text : QString) : List ℕ :=
  text.map UInt16.toNat

theorem units_injective : Function.Injective units :=
  List.map_injective_iff.mpr fun _ _ => UInt16.toNat_inj.mp

/-- `TIndexedString`: the entries of a `QMap<QString, int>`, in its order. -/
abbrev TIndexedString := List (QString × Int32)

/-- What the entries of the map are ordered by. -/
def entryUnits (e : QString × Int32) : List ℕ :=
  units e.1

/-- `QMap::value` -/
def TIndexedString.value (list : TIndexedString) (key : QString) : Int32 :=
  ((list.find? fun e => decide (e.1 = key)).map Prod.snd).getD 0

/-- A track of `internalAudioTracks`. -/
structure AudioTrack where
  id : Int32
  language : QString
deriving DecidableEq

/-- The name of a track in the box. -/
def AudioTrack.name (t : AudioTrack) : QString :=
  if t.language = [] ∨ t.language = ofLatin1 "und" then
    ofLatin1 "Track " ++ ofLatin1 (toString (t.id + 1).toInt)
  else t.language

/-- `VideoPlayer::onInternalAudioTracksChanged`: the list of `newAudioTrackList`. -/
def onInternalAudioTracksChanged (tracks : List AudioTrack) : TIndexedString :=
  tracks.foldl (fun list t =>
    if t.id = -1 then list else insertKeyed entryUnits (t.name, t.id) list) []

/-- The fields of the box: the texts of its entries with their data, and the current one. -/
structure TTrackComboBox where
  trackList : TIndexedString
  items : List (QString × Option Int32)
  currentIndex : ℕ
  enabled : Bool

namespace TTrackComboBox

def clearItems : TTrackComboBox where
  trackList := []
  items := [(ofLatin1 "No extra audio tracks", none)]
  currentIndex := 0
  enabled := false

def setAudioTrackList (list : TIndexedString) (active : Int32) : TTrackComboBox :=
  if list.length < 2 then clearItems
  else
    { trackList := list
      items := (list.map Prod.fst).map fun key => (key, some (list.value key))
      currentIndex := list.zipIdx.foldl (fun index (e, i) => if active = e.2 then i else index) 0
      enabled := true }

/-- `itemSelected`: what it emits with `newTrackIndex`. -/
def itemSelected (box : TTrackComboBox) (text : QString) : Option Int32 :=
  (box.trackList.find? fun e => decide (e.1 <:+: text)).map fun e => box.trackList.value e.1

end TTrackComboBox

open TTrackComboBox

/-- The tracks that are there. -/
def audioTracks (tracks : List AudioTrack) : List AudioTrack :=
  tracks.filter fun t => decide (t.id ≠ -1)

/-- The box has an entry for each of them, and the text of an entry leads to its id. -/
def AudioTracksRight (tracks : List AudioTrack) (active : Int32) : Prop :=
  let box := setAudioTrackList (onInternalAudioTracksChanged tracks) active
  box.items.Perm ((audioTracks tracks).map fun t => (t.name, some t.id)) ∧
    ∀ item ∈ box.items, box.itemSelected item.1 = item.2

/-- The first of the names that occur in the name of a track is its own, or that of a track of the
    same id. -/
def FirstOccurring (tracks : List AudioTrack) : Prop :=
  ∀ t ∈ audioTracks tracks, ∀ u ∈ audioTracks tracks, u.name <:+: t.name →
    units u.name < units t.name →
    (∀ v ∈ audioTracks tracks, v.name <:+: t.name → ¬units v.name < units u.name) → u.id = t.id

variable {list : TIndexedString} {e f : QString × Int32} {tracks : List AudioTrack}
  {active : Int32}

/-! ### The map -/

theorem onInternalAudioTracksChanged_eq (tracks : List AudioTrack) :
    onInternalAudioTracksChanged tracks =
      keyed entryUnits ((audioTracks tracks).map fun t => (t.name, t.id)) := by
  unfold onInternalAudioTracksChanged keyed audioTracks
  rw [List.foldl_map, List.foldl_filter]
  congr 1
  funext list t
  by_cases hid : t.id = -1 <;> simp [hid]

theorem eq_of_units_eq (hlist : list.Pairwise fun e f => entryUnits e < entryUnits f)
    (he : e ∈ list) (hf : f ∈ list) (h : entryUnits f = entryUnits e) : f = e :=
  List.inj_on_of_nodup_map (List.pairwise_map.mpr (hlist.imp ne_of_lt)) hf he h

theorem value_of_mem (hlist : list.Pairwise fun e f => entryUnits e < entryUnits f)
    (he : e ∈ list) : list.value e.1 = e.2 := by
  have hfind : list.find? (fun f => decide (f.1 = e.1)) = some e := by
    refine (find?_eq_some_iff_of_sorted hlist).mpr ⟨he, by simp, fun f _ hlt heq => ?_⟩
    have hkeys : entryUnits f = entryUnits e := congrArg units (of_decide_eq_true heq)
    exact absurd hlt hkeys.not_lt
  rw [TIndexedString.value, hfind]
  rfl

/-- The track an entry leads to: that of the first name that occurs in its text. -/
theorem itemSelected_eq_iff {box : TTrackComboBox}
    (hlist : box.trackList.Pairwise fun e f => entryUnits e < entryUnits f)
    (he : e ∈ box.trackList) :
    box.itemSelected e.1 = some e.2 ↔
      ∀ f ∈ box.trackList, f.1 <:+: e.1 → entryUnits f < entryUnits e →
        (∀ g ∈ box.trackList, g.1 <:+: e.1 → ¬entryUnits g < entryUnits f) → f.2 = e.2 := by
  unfold itemSelected
  constructor
  · intro h f hf hinfix _ hfirst
    -- the first text contained in the chosen one is taken
    have hfind : box.trackList.find? (fun g => decide (g.1 <:+: e.1)) = some f := by
      refine (find?_eq_some_iff_of_sorted hlist).mpr ⟨hf, by simpa using hinfix, ?_⟩
      intro g hg hlt hinfix'
      exact hfirst g hg (of_decide_eq_true hinfix') hlt
    rw [hfind, Option.map_some, value_of_mem hlist hf] at h
    exact Option.some.inj h
  · intro h
    obtain ⟨f, hfind⟩ : ∃ f, box.trackList.find? (fun g => decide (g.1 <:+: e.1)) = some f := by
      rw [← Option.isSome_iff_exists, List.find?_isSome]
      exact ⟨e, he, by simp⟩
    obtain ⟨hf, hinfix, hfirst⟩ := (find?_eq_some_iff_of_sorted hlist).mp hfind
    rw [hfind, Option.map_some, value_of_mem hlist hf, Option.some.injEq]
    rcases lt_trichotomy (entryUnits f) (entryUnits e) with hlt | heq | hgt
    · refine h f hf (of_decide_eq_true hinfix) hlt fun g hg hinfix' hlt' => ?_
      exact hfirst g hg hlt' (by simpa using hinfix')
    · rw [eq_of_units_eq hlist he hf heq]
    · exact absurd (by simp) (hfirst e he hgt)

/-! ### The box -/

theorem map_units_nodup_iff :
    (((audioTracks tracks).map fun t => (t.name, t.id)).map entryUnits).Nodup ↔
      ((audioTracks tracks).map AudioTrack.name).Nodup := by
  rw [List.map_map, ← List.nodup_map_iff units_injective, List.map_map]
  rfl

/-- With two names at least the box has the names of the map. -/
theorem setAudioTrackList_of_two (hlist : list.Pairwise fun e f => entryUnits e < entryUnits f)
    (htwo : 2 ≤ list.length) (active : Int32) :
    (setAudioTrackList list active).trackList = list ∧
      (setAudioTrackList list active).items = list.map fun e => (e.1, some e.2) := by
  unfold setAudioTrackList
  rw [if_neg (Nat.not_lt.mpr htwo)]
  refine ⟨rfl, ?_⟩
  rw [List.map_map]
  refine List.map_congr_left fun e he => ?_
  rw [Function.comp_apply, value_of_mem hlist he]

theorem forall_itemSelected_iff
    (hlist : list.Pairwise fun e f => entryUnits e < entryUnits f) (htwo : 2 ≤ list.length)
    (hperm : list.Perm ((audioTracks tracks).map fun t => (t.name, t.id))) :
    (∀ item ∈ (setAudioTrackList list active).items,
      (setAudioTrackList list active).itemSelected item.1 = item.2) ↔ FirstOccurring tracks := by
  obtain ⟨htracks, hitems⟩ := setAudioTrackList_of_two hlist htwo active
  rw [hitems, List.forall_mem_map]
  have hselected : ∀ e ∈ list, (setAudioTrackList list active).itemSelected e.1 = some e.2 ↔ _ :=
    fun e he => itemSelected_eq_iff (htracks.symm ▸ hlist) (htracks.symm ▸ he)
  rw [forall₂_congr hselected, htracks]
  simp only [hperm.mem_iff, List.forall_mem_map]
  rfl

/-- **The box of the audio tracks.**  With two tracks at least, every one has an entry that leads to
    it exactly if the names are different and none that occurs in another one is found ahead of
    it. -/
theorem audioTracksRight_iff (htwo : 2 ≤ (audioTracks tracks).length) (active : Int32) :
    AudioTracksRight tracks active ↔
      ((audioTracks tracks).map AudioTrack.name).Nodup ∧ FirstOccurring tracks := by
  unfold AudioTracksRight
  rw [onInternalAudioTracksChanged_eq, ← map_units_nodup_iff, ← keyed_perm_iff]
  have hlist := pairwise_keyed entryUnits ((audioTracks tracks).map fun t => (t.name, t.id))
  have hlength : ((audioTracks tracks).map fun t => (t.name, t.id)).length =
      (audioTracks tracks).length := List.length_map _
  generalize keyed entryUnits ((audioTracks tracks).map fun t => (t.name, t.id)) = list at *
  by_cases hfew : list.length < 2
  · -- the box is empty, and so few names are not those of the tracks
    refine iff_of_false (fun h => ?_) fun h => ?_
    · have hlen := h.1.length_eq
      rw [setAudioTrackList, if_pos hfew, List.length_map] at hlen
      have : (1 : ℕ) = (audioTracks tracks).length := hlen
      omega
    · have hlen := h.1.length_eq
      omega
  · have htwo' := Nat.not_lt.mp hfew
    have hitems := (setAudioTrackList_of_two hlist htwo' active).2
    have hperm : (setAudioTrackList list active).items.Perm
        ((audioTracks tracks).map fun t => (t.name, some t.id)) ↔
        list.Perm ((audioTracks tracks).map fun t => (t.name, t.id)) := by
      have hinjective : Function.Injective fun e : QString × Int32 => (e.1, some e.2) := by
        rintro ⟨_, _⟩ ⟨_, _⟩ h
        simpa using h
      rw [hitems, ← List.map_perm_map_iff hinjective, List.map_map]
      rfl
    refine (and_congr_left fun _ => hperm).trans ?_
    exact and_congr_right fun hperm => forall_itemSelected_iff hlist htwo' hperm

/-- Two tracks that are told apart. -/
theorem audioTracksRight_en_ru :
    AudioTracksRight [⟨1, ofLatin1 "en"⟩, ⟨2, ofLatin1 "ru"⟩] 1 :=
  (audioTracksRight_iff (by decide +kernel) 1).mpr (by unfold FirstOccurring; decide +kernel)

/-- The one entry of two tracks of a language, and a name that is found in another one. -/
theorem not_audioTracksRight_eng :
    ¬AudioTracksRight [⟨1, ofLatin1 "eng"⟩, ⟨2, ofLatin1 "eng"⟩] 1 ∧
      ¬AudioTracksRight [⟨1, ofLatin1 "en"⟩, ⟨2, ofLatin1 "eng"⟩] 1 := by
  refine ⟨?_, ?_⟩
  · unfold AudioTracksRight
    decide +kernel
  · unfold AudioTracksRight
    decide +kernel

end PopcornTime.Desktop
