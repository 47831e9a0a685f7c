import PopcornTime.Android.SRTBlocks
import PopcornTime.Lib.FirstMatch
import PopcornTime.Lib.Machine

namespace PopcornTime.Android

open PopcornTime

/-!
# Android player — `SubtitlesRenderer`

The renderer shows the caption of the time it is called with.  It remembers the key of the caption
that it found last and tries it before it searches the map, in the order of the keys.

* `CaptionMap.ofParse` — the maps that `setSubtitlesTrack` loads.
* `onUpdate_eq` — what a call shows is the remembered caption or the first one found.
* `onUpdate_iff` — for which maps the remembered key never changes what is shown.
-/

/-- The time is between the two of the caption, or one of them. -/
def Caption.covers (timeMillis : ℤ) (caption : Caption) : Bool :=
  decide (timeMillis ≥ caption.startMillis) && decide (timeMillis ≤ caption.endMillis)

/-- Captions in the order of their keys, which are numbers from one on. -/
structure CaptionMap where
  entries : List (ℕ × Caption)
  sorted : entries.Pairwise fun e e' => e.1 < e'.1
  positive : ∀ e ∈ entries, 1 ≤ e.1

namespace CaptionMap

variable {m : CaptionMap} {e : ℕ × Caption} {timeMillis : ℤ}

/-- The map of a parsed text. -/
def ofParse (formatter : Option (List Char → List Char)) (text : List Char) : CaptionMap where
  entries := SRTFormat.parse formatter text
  sorted := by
    rw [SRTFormat.parse_eq_captions, ← List.pairwise_map (f := Prod.fst) (R := (· < ·)),
      SRTFormat.map_fst_keyed]
    exact List.pairwise_lt_range'
  positive := by
    intro e he
    have hkey := List.mem_map_of_mem (f := Prod.fst) he
    rw [SRTFormat.parse_eq_captions, SRTFormat.map_fst_keyed, List.mem_range'_1] at hkey
    exact hkey.1

def entry (m : CaptionMap) (key : ℕ) : Option (ℕ × Caption) :=
  m.entries.find? fun e => decide (e.1 = key)

/-- `containsKey` and `get` -/
def get (m : CaptionMap) (key : ℕ) : Option Caption :=
  (m.entry key).map Prod.snd

/-- Does an entry show at a time? -/
def showsAt (timeMillis : ℤ) (e : ℕ × Caption) : Bool :=
  e.2.covers timeMillis

/-- `searchCaption`: the first entry of the time. -/
def searchCaption (m : CaptionMap) (timeMillis : ℤ) : Option (ℕ × Caption) :=
  m.entries.find? (showsAt timeMillis)

theorem entry_eq_some_iff {key : ℕ} : m.entry key = some e ↔ e ∈ m.entries ∧ e.1 = key := by
  unfold entry
  rw [find?_eq_some_iff_of_sorted m.sorted]
  simp only [decide_eq_true_eq]
  refine ⟨fun ⟨he, hkey, _⟩ => ⟨he, hkey⟩, fun ⟨he, hkey⟩ => ⟨he, hkey, fun b _ hlt heq => ?_⟩⟩
  omega

theorem searchCaption_eq_some_iff :
    m.searchCaption timeMillis = some e ↔
      e ∈ m.entries ∧ showsAt timeMillis e ∧ ∀ b ∈ m.entries, b.1 < e.1 → ¬showsAt timeMillis b :=
  find?_eq_some_iff_of_sorted m.sorted

/-- A caption with a time of its own, that is no time of a caption in front of it. -/
def Uncovered (m : CaptionMap) (e : ℕ × Caption) : Prop :=
  ∃ t, showsAt t e ∧ ∀ b ∈ m.entries, b.1 < e.1 → ¬showsAt t b

/-- A caption with a time of its own has no time in common with a caption in front of it. -/
def Guard (m : CaptionMap) : Prop :=
  ∀ e ∈ m.entries, m.Uncovered e → ∀ b ∈ m.entries, b.1 < e.1 → ∀ t, ¬(showsAt t b ∧ showsAt t e)

theorem guard_iff : m.Guard ↔ ∀ e ∈ m.entries, m.Uncovered e → StaysFirst showsAt m.entries e := by
  refine forall₂_congr fun e he => imp_congr_right fun _ => ?_
  exact (staysFirst_iff_of_sorted m.sorted he).symm

/-- Nothing is in front of the key one. -/
theorem staysFirst_of_key_one (he : e ∈ m.entries) (hkey : e.1 = 1) :
    StaysFirst showsAt m.entries e := by
  refine (staysFirst_iff_of_sorted m.sorted he).mpr fun b hb hlt => ?_
  have := m.positive b hb
  omega

end CaptionMap

open CaptionMap

/-- The fields of the renderer, with whether there is a view. -/
structure SubtitlesRenderer where
  subtitlesView : Bool
  captions : Option CaptionMap
  index : ℕ

namespace SubtitlesRenderer

/-- What is called; `loaded` is the run that `setSubtitlesTrack` posts, with the map that it
    parses unless this fails. -/
inductive Call
  | setSubtitlesView (subtitlesView : Bool)
  | disable
  | loaded (captions : Option CaptionMap)
  | onUpdate (timeMillis : ℤ)

/-- A caption that is searched for, and its key remembered. -/
def search (r : SubtitlesRenderer) (captions : CaptionMap) (timeMillis : ℤ) :
    SubtitlesRenderer × Option Caption :=
  match captions.searchCaption timeMillis with
  | some (key, caption) => ({ r with index := key }, some caption)
  | none => (r, none)

/-- `onUpdate`, and what it sets on the view: a caption, or that it is gone. -/
def onUpdate (r : SubtitlesRenderer) (timeMillis : ℤ) :
    SubtitlesRenderer × Option (Option Caption) :=
  match r.captions with
  | none => (r, none)
  | some captions =>
    if r.subtitlesView then
      match captions.get r.index with
      | some caption =>
        -- the caption of the last call is looked at first
        if caption.covers timeMillis then (r, some (some caption))
        else ((r.search captions timeMillis).1, some (r.search captions timeMillis).2)
      | none => ((r.search captions timeMillis).1, some (r.search captions timeMillis).2)
    else (r, none)

def call (r : SubtitlesRenderer) : Call → SubtitlesRenderer
  | .setSubtitlesView subtitlesView => { r with subtitlesView := subtitlesView }
  | .disable => { r with captions := none }
  | .loaded none => { r with captions := none }
  | .loaded (some captions) => { r with captions := some captions, index := 1 }
  | .onUpdate timeMillis => (r.onUpdate timeMillis).1

/-- A new renderer and its calls. -/
def machine : Machine SubtitlesRenderer Call :=
  .ofFun (fun r => r = ⟨false, none, 0⟩) fun r c => some (r.call c)

/-- Runs that load maps of a kind only. -/
def Loads (P : CaptionMap → Prop) (_ : SubtitlesRenderer) : Call → Prop
  | .loaded (some captions) => P captions
  | _ => True

/-- Whatever the next time is, the caption that the plain search finds is shown. -/
def ShowsSearch (r : SubtitlesRenderer) : Prop :=
  ∀ captions, r.captions = some captions → r.subtitlesView → ∀ timeMillis,
    (r.onUpdate timeMillis).2 = some ((captions.searchCaption timeMillis).map Prod.snd)

variable {P : CaptionMap → Prop} {m : CaptionMap} {r : SubtitlesRenderer} {timeMillis : ℤ}

/-- **What a call shows.**  It is the remembered caption or the first one found. -/
theorem onUpdate_eq (hm : r.captions = some m) (hview : r.subtitlesView) (timeMillis : ℤ) :
    (r.onUpdate timeMillis).2 =
      some ((recalled showsAt m.entries (m.entry r.index) timeMillis).map Prod.snd) := by
  have hsearch : (r.search m timeMillis).2 = (m.searchCaption timeMillis).map Prod.snd := by
    unfold search
    split
    next key caption h => rw [h]; rfl
    next h => rw [h]; rfl
  simp only [onUpdate, hm, if_pos hview, CaptionMap.get]
  cases hentry : m.entry r.index with
  | none => simp [recalled, hsearch, searchCaption]
  | some e =>
    by_cases hcovers : e.2.covers timeMillis
    · simp [recalled, Option.filter, showsAt, hcovers]
    · simp [recalled, Option.filter, showsAt, hcovers, hsearch, searchCaption]

theorem search_fst (r : SubtitlesRenderer) (m : CaptionMap) (timeMillis : ℤ) :
    (r.search m timeMillis).1 = r ∨ ∃ e, m.searchCaption timeMillis = some e ∧
      (r.search m timeMillis).1 = { r with index := e.1 } := by
  unfold search
  split
  next key caption h => exact .inr ⟨_, h, rfl⟩
  next => exact .inl rfl

/-- A call remembers the key that it finds. -/
theorem onUpdate_fst (hm : r.captions = some m) (timeMillis : ℤ) :
    (r.onUpdate timeMillis).1 = r ∨ ∃ e, m.searchCaption timeMillis = some e ∧
      (r.onUpdate timeMillis).1 = { r with index := e.1 } := by
  have hsearch := search_fst r m timeMillis
  unfold onUpdate
  split
  next => exact .inl rfl
  next captions hcaptions =>
    obtain rfl : m = captions := Option.some.inj (hm.symm.trans hcaptions)
    split_ifs
    · split
      · split_ifs
        · exact .inl rfl
        · exact hsearch
      · exact hsearch
    · exact .inl rfl

theorem onUpdate_of_no_captions (h : r.captions = none) (timeMillis : ℤ) :
    (r.onUpdate timeMillis).1 = r := by
  simp only [onUpdate, h]

/-- The remembered caption is the first one of a time of its own. -/
def Remembered (r : SubtitlesRenderer) : Prop :=
  ∀ m, r.captions = some m → ∀ e ∈ m.entry r.index, e.1 = 1 ∨ m.Uncovered e

theorem uncovered_of_searchCaption {e : ℕ × Caption} (h : m.searchCaption timeMillis = some e) :
    m.Uncovered e :=
  ⟨timeMillis, (searchCaption_eq_some_iff.mp h).2⟩

/-- One call: the maps loaded are of the kind, and what is remembered was found. -/
theorem call_keeps {c : Call} (hP : ∀ m, r.captions = some m → P m) (hr : r.Remembered)
    (hc : Loads P r c) :
    (∀ m, (r.call c).captions = some m → P m) ∧ (r.call c).Remembered := by
  cases c with
  | setSubtitlesView subtitlesView => exact ⟨hP, hr⟩
  | disable => exact ⟨nofun, nofun⟩
  | loaded captions =>
    cases captions with
    | none => exact ⟨nofun, nofun⟩
    | some captions =>
      refine ⟨?_, ?_⟩
      · rintro m ⟨⟩
        exact hc
      · rintro m ⟨⟩ e he
        exact .inl (entry_eq_some_iff.mp he).2
  | onUpdate timeMillis =>
    cases hm : r.captions with
    | none =>
      rw [call, onUpdate_of_no_captions hm]
      exact ⟨hP, hr⟩
    | some m =>
      obtain hsame | ⟨e, hfound, hindex⟩ := onUpdate_fst hm timeMillis
      · rw [call, hsame]
        exact ⟨hP, hr⟩
      · rw [call, hindex]
        refine ⟨hP, ?_⟩
        intro m' hm' e' he'
        obtain rfl : m = m' := Option.some.inj (hm.symm.trans hm')
        -- the entry with the key that was found is the one that was found
        have he : m.entry e.1 = some e :=
          entry_eq_some_iff.mpr ⟨(searchCaption_eq_some_iff.mp hfound).1, rfl⟩
        obtain rfl : e = e' := Option.some.inj (he.symm.trans he')
        exact .inr (uncovered_of_searchCaption hfound)

/-- **Every run.**  What is remembered has key one or was found at some time. -/
theorem remembered_of_runUnder (h : machine.RunUnder (fun _ => True) (Loads P) r) :
    (∀ m, r.captions = some m → P m) ∧ r.Remembered := by
  refine Machine.RunUnder.invariant
    (I := fun r => (∀ m, r.captions = some m → P m) ∧ r.Remembered) ?_ ?_ h
  · rintro r rfl -
    exact ⟨nofun, nofun⟩
  · rintro r c r' ⟨hP, hr⟩ hc hstep
    obtain rfl := Option.some.inj hstep
    exact call_keeps hP hr hc

theorem showsSearch_of_guard (hguard : ∀ m, P m → m.Guard)
    (h : machine.RunUnder (fun _ => True) (Loads P) r) : r.ShowsSearch := by
  obtain ⟨hP, hr⟩ := remembered_of_runUnder h
  intro m hm hview timeMillis
  have hfirst : ∀ e ∈ m.entry r.index, StaysFirst showsAt m.entries e := by
    intro e he
    have hmem := (entry_eq_some_iff.mp he).1
    rcases hr m hm e he with hone | huncovered
    · exact staysFirst_of_key_one hmem hone
    · exact guard_iff.mp (hguard m (hP m hm)) e hmem huncovered
  rw [onUpdate_eq hm hview, recalled_eq_iff.mpr hfirst timeMillis]
  rfl

/-- A search from the key one finds every caption at a time of its own. -/
theorem onUpdate_first {e : ℕ × Caption} (he : e ∈ m.entries) (hne : e.1 ≠ 1)
    (hshows : showsAt timeMillis e)
    (hfirst : ∀ b ∈ m.entries, b.1 < e.1 → ¬showsAt timeMillis b) :
    ((⟨true, some m, 1⟩ : SubtitlesRenderer).onUpdate timeMillis).1 = ⟨true, some m, e.1⟩ := by
  have hsearch : m.searchCaption timeMillis = some e :=
    searchCaption_eq_some_iff.mpr ⟨he, hshows, hfirst⟩
  have hfound : ((⟨true, some m, 1⟩ : SubtitlesRenderer).search m timeMillis).1 =
      ⟨true, some m, e.1⟩ := by
    rw [search, hsearch]
  simp only [onUpdate, CaptionMap.get, if_true]
  cases hone : m.entry 1 with
  | none => exact hfound
  | some b =>
    -- the caption with key one is in front of it
    obtain ⟨hb, hkey⟩ := entry_eq_some_iff.mp hone
    have hlt : b.1 < e.1 := by
      have := m.positive e he
      omega
    have hnot : ¬b.2.covers timeMillis := hfirst b hb hlt
    rw [Option.map_some]
    simp only [if_neg hnot]
    exact hfound

/-- A renderer that remembers a caption with a time of its own. -/
theorem exists_remembering {e : ℕ × Caption} (hm : P m) (he : e ∈ m.entries) (hne : e.1 ≠ 1)
    (huncovered : m.Uncovered e) :
    machine.RunUnder (fun _ => True) (Loads P) ⟨true, some m, e.1⟩ := by
  obtain ⟨t, hshows, hfirst⟩ := huncovered
  have hview : machine.RunUnder (fun _ => True) (Loads P) ⟨true, none, 0⟩ :=
    .next (e := .setSubtitlesView true) (.start rfl trivial) trivial rfl
  have hloaded : machine.RunUnder (fun _ => True) (Loads P) ⟨true, some m, 1⟩ :=
    .next (e := .loaded (some m)) hview hm rfl
  refine .next (e := .onUpdate t) hloaded trivial ?_
  exact congrArg some (onUpdate_first he hne hshows hfirst)

theorem guard_of_showsSearch
    (h : ∀ r, machine.RunUnder (fun _ => True) (Loads P) r → r.ShowsSearch) (hm : P m) :
    m.Guard := by
  refine guard_iff.mpr fun e he huncovered => ?_
  by_cases hone : e.1 = 1
  · exact staysFirst_of_key_one he hone
  have hentry : m.entry e.1 = some e := entry_eq_some_iff.mpr ⟨he, rfl⟩
  intro t ht
  have hshown := h _ (exists_remembering hm he hone huncovered) m rfl rfl t
  have hrecalled : recalled showsAt m.entries (some e) t = some e := by
    simp [recalled, Option.filter, ht]
  rw [onUpdate_eq rfl rfl, hentry, hrecalled, Option.some.injEq] at hshown
  obtain ⟨e', hfound, hcaption⟩ := Option.map_eq_some_iff.mp hshown.symm
  obtain ⟨he', ht', hfirst⟩ := searchCaption_eq_some_iff.mp hfound
  -- an entry in front of it would have the same times, and the caption no time of its own
  have hnot : ¬e'.1 < e.1 := by
    intro hlt
    obtain ⟨t₀, hshows, hnone⟩ := huncovered
    apply hnone e' he' hlt
    rw [showsAt, hcaption]
    exact hshows
  have hkey : e'.1 = e.1 := by
    by_contra hne
    exact hfirst e he (by omega) ht
  have hsame : m.entry e.1 = some e' := entry_eq_some_iff.mpr ⟨he', hkey⟩
  rw [hentry] at hsame
  rw [Option.some.inj hsame]
  exact hfound

/-- **The remembered key.**  In every run that loads maps of a kind, every call shows what the
    plain search finds, exactly if no caption of such a map that has a time of its own has a time
    in common with a caption in front of it. -/
theorem onUpdate_iff (P : CaptionMap → Prop) :
    (∀ r, machine.RunUnder (fun _ => True) (Loads P) r → r.ShowsSearch) ↔ ∀ m, P m → m.Guard :=
  ⟨fun h _ hm => guard_of_showsSearch h hm, fun h _ hrun => showsSearch_of_guard h hrun⟩

/-- Two captions, the second of which begins where the first ends. -/
def touchingCaptions : CaptionMap where
  entries := [(1, ⟨0, 10, ['a']⟩), (2, ⟨10, 20, ['b']⟩)]
  sorted := by decide
  positive := by decide

/-- The calls for a track with these captions, a time of the second and a step back to where it
    begins. -/
def seekBack : List Call :=
  [.setSubtitlesView true, .loaded (some touchingCaptions), .onUpdate 15]

/-- The second caption stays, and the search finds the first. -/
theorem seekBack_shows_second :
    ((seekBack.foldl call ⟨false, none, 0⟩).onUpdate 10).2 = some (some ⟨10, 20, ['b']⟩) ∧
      touchingCaptions.searchCaption 10 = some (1, ⟨0, 10, ['a']⟩) := by
  decide

end SubtitlesRenderer

end PopcornTime.Android
