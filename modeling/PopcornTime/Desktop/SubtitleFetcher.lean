import Mathlib.Data.Int.Notation
import Mathlib.Data.List.Basic
import Mathlib.Data.List.Count
import Mathlib.Tactic.Cases
import Mathlib.Tactic.SplitIfs
import PopcornTime.Lib.Machine

namespace PopcornTime.Desktop

open PopcornTime

/-!
# Desktop — the subtitle fetchers of a language

A fetcher downloads the subtitles of a language one after the other, a failed download three times,
and drops what it cannot get from the list of the language.  The fetcher made at the start stops at
the first subtitle that works; the one made when the language is selected wants all of them.  Both
work on the same list.

* `SubtitleLanguage` — the list, and what has been unpacked of its items.
* `SubtitleFetcher` — a fetcher: `request`, `onFinished` and `getNextSub`.
* `Fetching` — a language with its fetchers; `machine` — their replies in any order.
* `Fetching.Bounded`, `Fetching.Finishes`, `Fetching.Kept` — what is to hold; `Fetching.Guard` — when
  a step keeps an unpacked item.
-/

/-- What the server answers: an error, or a content. -/
inductive Answer
  | error
  | content (archive : Option (List UInt8))
deriving DecidableEq, Repr

/-- A `SubtitleLanguage`; an item is its place in the list that the language has started with. -/
structure SubtitleLanguage where
  /-- `m_data` of the items. -/
  data : ℕ → List UInt8
  subs : List ℕ

namespace SubtitleLanguage

def canDisplay (lang : SubtitleLanguage) (sub : ℕ) : Bool :=
  !(lang.data sub).isEmpty

def removeOne (lang : SubtitleLanguage) (sub : ℕ) : SubtitleLanguage :=
  { lang with subs := lang.subs.erase sub }

/-- `setZipData` of an item, where `archive` is what its file in the archive reads as, or nothing
    where there is no such file. -/
def setZipData (lang : SubtitleLanguage) (sub : ℕ) (archive : Option (List UInt8)) :
    SubtitleLanguage × Bool :=
  match archive with
  | none => (lang, false)
  | some data => ({ lang with data := Function.update lang.data sub data }, !data.isEmpty)

/-- The branch of `onFinished` for a reply without an error. -/
def load (lang : SubtitleLanguage) (sub : ℕ) (archive : Option (List UInt8)) : SubtitleLanguage :=
  let (lang, unpacked) := lang.setZipData sub archive
  if unpacked then
    if !lang.canDisplay sub then lang.removeOne sub else lang
  else lang.removeOne sub

/-- `getNextSub` -/
def getNextSub (lang : SubtitleLanguage) (fetchAll : Bool) : Option ℕ :=
  if fetchAll || lang.subs.isEmpty || !lang.subs.head?.any lang.canDisplay then
    lang.subs.find? fun sub => !lang.canDisplay sub
  else none

end SubtitleLanguage

/-- What a fetcher waits for. -/
inductive Waiting
  | reply
  | retry
  | nothing
deriving DecidableEq, Repr

def SUBTITLE_DOWNLOAD_RETRIES : ℤ := 2

structure SubtitleFetcher where
  fetchAll : Bool
  currSub : Option ℕ
  retriesLeft : ℤ
  waiting : Waiting
  /-- The signal has been emitted. -/
  finished : Bool
  /-- The requests made so far, and those that have been answered. -/
  requests : ℕ
  answers : ℕ
  /-- The number of items when the fetcher was made. -/
  items : ℕ
deriving DecidableEq, Repr

namespace SubtitleFetcher

def hasRetries (f : SubtitleFetcher) : Bool :=
  decide (0 < f.retriesLeft)

/-- `request`; without its language the fetcher just goes. -/
def request (f : SubtitleFetcher) (language : Option SubtitleLanguage) : SubtitleFetcher :=
  match language with
  | none => { f with waiting := .nothing }
  | some _ =>
    match f.currSub with
    -- no item is left
    | none => { f with finished := true, waiting := .nothing }
    | some _ =>
      { f with
        retriesLeft := f.retriesLeft - 1
        waiting := .reply
        requests := f.requests + 1 }

/-- The constructor. -/
def new (lang : SubtitleLanguage) (fetchAll : Bool) : SubtitleFetcher :=
  let f : SubtitleFetcher := ⟨fetchAll, none, SUBTITLE_DOWNLOAD_RETRIES + 1, .nothing, false, 0, 0,
    lang.subs.length⟩
  match lang.subs.head? with
  | none => { f with finished := true }
  | some sub => { f with currSub := some sub }.request (some lang)

/-- The end of `onFinished`: on to the next item. -/
def goOn (f : SubtitleFetcher) (lang : SubtitleLanguage) : SubtitleFetcher :=
  { f with
    currSub := lang.getNextSub f.fetchAll
    retriesLeft := SUBTITLE_DOWNLOAD_RETRIES + 1 }.request (some lang)

/-- `onFinished`, with what becomes of the language; a reply is only awaited for an item. -/
def onFinished (f : SubtitleFetcher) (language : Option SubtitleLanguage) (answer : Answer) :
    Option SubtitleLanguage × SubtitleFetcher :=
  let f := { f with answers := f.answers + 1 }
  match language with
  -- the language is gone: the fetcher does not go on
  | none => (none, { f with waiting := .nothing })
  | some lang =>
    match f.currSub with
    | none => (some lang, { f with waiting := .nothing })
    | some sub =>
      match answer with
      | .error =>
        if f.hasRetries then (some lang, { f with waiting := .retry })
        else (some (lang.removeOne sub), f.goOn (lang.removeOne sub))
      | .content archive => (some (lang.load sub archive), f.goOn (lang.load sub archive))

/-- The last error, or an archive of no use. -/
def Fails (f : SubtitleFetcher) : Answer → Prop
  | .error => f.hasRetries = false
  | .content archive => archive.getD [] = []

end SubtitleFetcher

/-! ### The steps -/

/-- A language, as long as it is held, with the fetchers that have been made for it. -/
structure Fetching where
  language : Option SubtitleLanguage
  /-- It is the current language. -/
  selected : Bool
  fetchers : List SubtitleFetcher
  /-- The items that have been unpacked while they were in the list. -/
  loaded : List ℕ

inductive FetchingEvent
  | reply (fetcher : ℕ) (answer : Answer)
  | retry (fetcher : ℕ)
  /-- The language is selected, or left for another one. -/
  | useLanguage
  | leaveLanguage
  /-- Nothing holds the language any more. -/
  | clear
deriving DecidableEq, Repr

namespace Fetching

/-- `startSubtitles`, for a language of as many items. -/
def start (items : ℕ) : Fetching :=
  let lang : SubtitleLanguage := ⟨fun _ => [], List.range items⟩
  ⟨some lang, false, [.new lang false], []⟩

/-- The item of the list that an answer unpacks. -/
def unpacks (s : Fetching) (f : SubtitleFetcher) (answer : Answer) : List ℕ :=
  match s.language, f.currSub, answer with
  | some lang, some sub, .content (some data) =>
    if data ≠ [] ∧ sub ∈ lang.subs then [sub] else []
  | _, _, _ => []

def onFinished (s : Fetching) (k : ℕ) (f : SubtitleFetcher) (answer : Answer) : Fetching :=
  { s with
    language := (f.onFinished s.language answer).1
    fetchers := s.fetchers.set k (f.onFinished s.language answer).2
    loaded := s.loaded ++ s.unpacks f answer }

def useLanguage (s : Fetching) (lang : SubtitleLanguage) : Fetching :=
  if s.selected then s
  else if 1 < lang.subs.length then
    { s with selected := true, fetchers := s.fetchers ++ [.new lang true] }
  else { s with selected := true }

def next (s : Fetching) : FetchingEvent → Option Fetching
  | .reply k answer =>
    (s.fetchers[k]?).bind fun f =>
      if f.waiting = .reply then some (s.onFinished k f answer) else none
  | .retry k =>
    (s.fetchers[k]?).bind fun f =>
      if f.waiting = .retry then
        some { s with fetchers := s.fetchers.set k (f.request s.language) }
      else none
  | .useLanguage => s.language.map s.useLanguage
  | .leaveLanguage => some { s with selected := false }
  | .clear => some { s with language := none, selected := false }

def machine : Machine Fetching FetchingEvent :=
  .ofFun (fun s => ∃ items, 0 < items ∧ s = start items) next

/-! ### What is to hold of the fetchers -/

/-- **A fetcher** makes at most three requests for every item there was when it was made, and has
    ended when so many are answered, with its signal where the language is still held. -/
def Bounded (s : Fetching) : Prop :=
  ∀ f ∈ s.fetchers, f.requests ≤ 3 * f.items ∧ (3 * f.items ≤ f.answers → f.waiting = .nothing) ∧
    (f.waiting = .nothing → f.finished = true ∨ s.language = none)

/-- **Where a fetcher finishes**, all items left can be displayed, or the first one. -/
def Finishes (s s' : Fetching) : Prop :=
  ∀ (k : ℕ) f, s'.fetchers[k]? = some f → f.finished = true →
    (∀ f, s.fetchers[k]? = some f → f.finished = false) →
      ∃ lang, s'.language = some lang ∧
        (f.fetchAll = true → ∀ sub ∈ lang.subs, lang.canDisplay sub = true) ∧
        (f.fetchAll = false → ∀ sub, lang.subs.head? = some sub → lang.canDisplay sub = true)

/-- **What has been unpacked** is in the list. -/
def Kept (s : Fetching) : Prop :=
  ∀ lang, s.language = some lang → ∀ sub ∈ s.loaded, sub ∈ lang.subs

/-- The answer does not fail for an item in the list that can be displayed. -/
def Guard (s : Fetching) : FetchingEvent → Prop
  | .reply k answer => ∀ lang f sub, s.language = some lang → s.fetchers[k]? = some f →
      f.currSub = some sub → sub ∈ lang.subs → lang.canDisplay sub = true → ¬ f.Fails answer
  | _ => True

end Fetching

/-! ### The list -/

namespace SubtitleLanguage

variable {lang lang' : SubtitleLanguage} {sub : ℕ}

/-- An item can be displayed once it has data. -/
theorem canDisplay_iff : lang.canDisplay sub = true ↔ lang.data sub ≠ [] := by
  simp [canDisplay]

/-- The next item is one of the list that cannot be displayed. -/
theorem getNextSub_eq_some {fetchAll : Bool} (h : lang.getNextSub fetchAll = some sub) :
    sub ∈ lang.subs ∧ lang.canDisplay sub = false := by
  unfold getNextSub at h
  split_ifs at h
  have hnot := List.find?_some h
  exact ⟨List.mem_of_find?_eq_some h, by simpa using hnot⟩

/-- Where there is no next item, all can be displayed, or the first one. -/
theorem getNextSub_eq_none {fetchAll : Bool} (h : lang.getNextSub fetchAll = none) :
    (fetchAll = true → ∀ sub ∈ lang.subs, lang.canDisplay sub = true) ∧
      (fetchAll = false → ∀ sub, lang.subs.head? = some sub → lang.canDisplay sub = true) := by
  unfold getNextSub at h
  split_ifs at h with hsearch
  · have hall : ∀ sub ∈ lang.subs, lang.canDisplay sub = true := by
      intro sub hsub
      have hnot := List.find?_eq_none.mp h sub hsub
      simpa using hnot
    exact ⟨fun _ => hall, fun _ sub hhead => hall sub (List.mem_of_head? hhead)⟩
  · simp only [Bool.or_eq_true, Bool.not_eq_true', not_or, Bool.not_eq_false] at hsearch
    obtain ⟨⟨hfirst, -⟩, hhead⟩ := hsearch
    refine ⟨fun hall => absurd hall hfirst, fun _ sub hsub => ?_⟩
    rw [hsub] at hhead
    exact hhead

/-- A content is for its own item only. -/
theorem load_canDisplay_of_ne (archive : Option (List UInt8)) {sub' : ℕ} (hne : sub' ≠ sub) :
    (lang.load sub archive).canDisplay sub' = lang.canDisplay sub' := by
  have hdata : (lang.load sub archive).data = lang.data ∨
      ∃ data, (lang.load sub archive).data = Function.update lang.data sub data := by
    unfold load setZipData
    cases archive with
    | none => exact .inl rfl
    | some data =>
      refine .inr ⟨data, ?_⟩
      dsimp only
      split_ifs <;> rfl
  unfold canDisplay
  rcases hdata with hdata | ⟨data, hdata⟩
  · rw [hdata]
  · rw [hdata, Function.update_of_ne hne]

/-- **A content**: an archive of no use drops the item, another one is unpacked. -/
theorem load_cases (lang : SubtitleLanguage) (sub : ℕ) (archive : Option (List UInt8)) :
    archive.getD [] = [] ∧ (lang.load sub archive).subs = lang.subs.erase sub ∨
      ¬ archive.getD [] = [] ∧ (lang.load sub archive).subs = lang.subs ∧
        (lang.load sub archive).canDisplay sub = true ∧
        ∃ data, Answer.content archive = .content (some data) ∧ data ≠ [] := by
  unfold load setZipData
  cases archive with
  | none => exact .inl ⟨rfl, rfl⟩
  | some data =>
    by_cases hdata : data = []
    · subst hdata
      exact .inl ⟨rfl, rfl⟩
    · have hdisplay :
          canDisplay { lang with data := Function.update lang.data sub data } sub = true := by
        rw [canDisplay_iff]
        show Function.update lang.data sub data sub ≠ []
        rw [Function.update_self]
        exact hdata
      right
      refine ⟨hdata, ?_, ?_, data, rfl, hdata⟩
      · simp [hdata, hdisplay]
      · simp [hdata, hdisplay]

/-- The items that a fetcher still has before it. -/
def ahead (lang : SubtitleLanguage) (currSub : Option ℕ) : ℕ :=
  lang.subs.countP fun sub => !lang.canDisplay sub && decide (some sub ≠ currSub)

/-- Fewer items are ahead as the list gets shorter and its items are unpacked. -/
theorem ahead_le (hsubs : lang'.subs.Sublist lang.subs)
    (hkeep : ∀ sub ∈ lang'.subs, lang.canDisplay sub = true → lang'.canDisplay sub = true)
    (currSub : Option ℕ) : lang'.ahead currSub ≤ lang.ahead currSub := by
  refine Nat.le_trans ?_ hsubs.countP_le
  apply List.countP_mono_left
  intro sub hsub h
  simp only [Bool.and_eq_true, Bool.not_eq_true', decide_eq_true_eq] at h ⊢
  refine ⟨?_, h.2⟩
  by_contra hdisplay
  rw [Bool.not_eq_false] at hdisplay
  rw [hkeep sub hsub hdisplay] at h
  exact absurd h.1 nofun

/-- One item fewer is ahead of the fetcher that goes on. -/
theorem ahead_lt {currSub : Option ℕ} (hsub : sub ∈ lang.subs) (hnot : lang.canDisplay sub = false)
    (hdone : ∀ sub ∈ lang.subs, lang.canDisplay sub = false → some sub ≠ currSub) :
    lang.ahead (some sub) < lang.ahead currSub := by
  have hall : lang.ahead currSub = lang.subs.countP fun sub => !lang.canDisplay sub := by
    apply List.countP_congr
    intro sub' hsub'
    simp only [Bool.and_eq_true, Bool.not_eq_true', decide_eq_true_eq]
    exact and_iff_left_of_imp (hdone sub' hsub')
  rw [hall, ahead, List.countP_eq_length_filter, List.countP_eq_length_filter]
  have hfilter : (lang.subs.filter fun sub' => !lang.canDisplay sub' && decide (some sub' ≠ some sub)) =
      (lang.subs.filter fun sub => !lang.canDisplay sub).filter fun sub' => decide (sub' ≠ sub) := by
    rw [List.filter_filter]
    apply List.filter_congr
    intro sub' _
    rw [Bool.and_comm]
    simp
  rw [hfilter, List.length_filter_lt_length_iff_exists]
  exact ⟨sub, List.mem_filter.mpr ⟨hsub, by simp [hnot]⟩, by simp⟩

/-- An item is done with: it is out of the list, or it can be displayed. -/
structure Done (lang : SubtitleLanguage) (sub : ℕ) (lang' : SubtitleLanguage) : Prop where
  sublist : lang'.subs.Sublist lang.subs
  other : ∀ sub', sub' ≠ sub → lang'.canDisplay sub' = lang.canDisplay sub'
  self : sub ∈ lang'.subs → lang'.canDisplay sub = true

/-- An item is dropped. -/
theorem Done.of_erase (hnodup : lang.subs.Nodup) (hsubs : lang'.subs = lang.subs.erase sub)
    (hother : ∀ sub', sub' ≠ sub → lang'.canDisplay sub' = lang.canDisplay sub') :
    lang.Done sub lang' where
  sublist := hsubs ▸ List.erase_sublist
  other := hother
  self := fun hmem => absurd (hsubs ▸ hmem) hnodup.not_mem_erase

/-- An item is unpacked. -/
theorem Done.of_display (hsubs : lang'.subs = lang.subs) (hdisplay : lang'.canDisplay sub = true)
    (hother : ∀ sub', sub' ≠ sub → lang'.canDisplay sub' = lang.canDisplay sub') :
    lang.Done sub lang' where
  sublist := hsubs ▸ List.Sublist.refl _
  other := hother
  self := fun _ => hdisplay

/-- What still cannot be displayed is another item. -/
theorem Done.ne (h : lang.Done sub lang') {sub' : ℕ} (hmem : sub' ∈ lang'.subs)
    (hnot : lang'.canDisplay sub' = false) : sub' ≠ sub := by
  rintro rfl
  exact absurd ((h.self hmem).symm.trans hnot) nofun

/-- Nothing comes ahead by an item that is done with. -/
theorem Done.ahead_le (h : lang.Done sub lang') (currSub : Option ℕ) :
    lang'.ahead currSub ≤ lang.ahead currSub := by
  apply SubtitleLanguage.ahead_le h.sublist
  intro sub' hmem hdisplay
  by_contra hnot
  rw [Bool.not_eq_true] at hnot
  rw [h.other sub' (h.ne hmem hnot), hdisplay] at hnot
  exact absurd hnot nofun

/-- The first item is not ahead. -/
theorem ahead_head (h : lang.subs.head? = some sub) : lang.ahead (some sub) < lang.subs.length := by
  rw [ahead, List.countP_lt_length_iff]
  exact ⟨sub, List.mem_of_head? h, by simp⟩

end SubtitleLanguage

/-! ### A fetcher -/

namespace SubtitleFetcher

variable {f : SubtitleFetcher} {lang : SubtitleLanguage} {language language' : Option SubtitleLanguage}

/-- **What a fetcher has left**: three requests for every item ahead, and its retries. -/
structure InBounds (f : SubtitleFetcher) (language : Option SubtitleLanguage) : Prop where
  requests_le : f.requests ≤ 3 * f.items
  reply : f.waiting = .reply → f.answers + 1 = f.requests ∧ 0 ≤ f.retriesLeft
  retry : f.waiting = .retry → f.answers = f.requests ∧ 0 < f.retriesLeft
  nothing : f.waiting = .nothing → f.finished = true ∨ language = none
  currSub : f.waiting ≠ .nothing → ∃ sub, f.currSub = some sub
  budget : f.waiting ≠ .nothing → ∃ ahead : ℕ,
    (∀ lang, language = some lang → lang.ahead f.currSub ≤ ahead) ∧
      f.requests + f.retriesLeft + 3 * ahead ≤ 3 * f.items

/-- What the other fetchers do leaves less to be done. -/
theorem InBounds.mono (h : f.InBounds language) (hahead : ∀ lang', language' = some lang' →
    ∃ lang, language = some lang ∧ ∀ currSub, lang'.ahead currSub ≤ lang.ahead currSub) :
    f.InBounds language' where
  requests_le := h.requests_le
  reply := h.reply
  retry := h.retry
  nothing := by
    intro hwaiting
    refine (h.nothing hwaiting).imp_right fun hnone => ?_
    cases hlanguage : language' with
    | none => rfl
    | some lang' =>
      obtain ⟨lang, hlang, -⟩ := hahead lang' hlanguage
      rw [hnone] at hlang
      exact absurd hlang nofun
  currSub := h.currSub
  budget := by
    intro hwaiting
    obtain ⟨ahead, hle, hbudget⟩ := h.budget hwaiting
    refine ⟨ahead, fun lang' hlang' => ?_, hbudget⟩
    obtain ⟨lang, hlang, hfewer⟩ := hahead lang' hlang'
    exact Nat.le_trans (hfewer f.currSub) (hle lang hlang)

/-- A request takes one of the retries. -/
theorem InBounds.request {sub : ℕ} (hcurr : f.currSub = some sub) (hanswers : f.answers = f.requests)
    (hretries : 0 < f.retriesLeft)
    (hbudget : f.requests + f.retriesLeft + 3 * lang.ahead f.currSub ≤ 3 * f.items) :
    (f.request (some lang)).InBounds (some lang) := by
  have hrequest : f.request (some lang) = { f with
      retriesLeft := f.retriesLeft - 1
      waiting := .reply
      requests := f.requests + 1 } := by
    simp only [SubtitleFetcher.request, hcurr]
  rw [hrequest]
  refine ⟨?_, fun _ => ⟨?_, ?_⟩, nofun, nofun, fun _ => ⟨sub, hcurr⟩, fun _ => ?_⟩
  · show f.requests + 1 ≤ 3 * f.items
    omega
  · show f.answers + 1 = f.requests + 1
    omega
  · show 0 ≤ f.retriesLeft - 1
    omega
  · refine ⟨lang.ahead f.currSub, ?_, ?_⟩
    · rintro _ ⟨⟩
      exact Nat.le_refl _
    · show ((f.requests + 1 : ℕ) : ℤ) + (f.retriesLeft - 1) + 3 * lang.ahead f.currSub ≤ 3 * f.items
      omega

/-- A new fetcher has made one request of those it has, if any. -/
theorem inBounds_new (lang : SubtitleLanguage) (fetchAll : Bool) :
    (new lang fetchAll).InBounds (some lang) := by
  unfold new
  cases hhead : lang.subs.head? with
  | none => exact ⟨Nat.zero_le _, nofun, nofun, fun _ => .inl rfl, nofun, nofun⟩
  | some sub =>
    have hahead := SubtitleLanguage.ahead_head hhead
    apply InBounds.request rfl rfl
    · show 0 < SUBTITLE_DOWNLOAD_RETRIES + 1
      decide
    · show ((0 : ℕ) : ℤ) + 3 + 3 * lang.ahead (some sub) ≤ 3 * lang.subs.length
      omega

/-- The next item takes three of the requests that are left. -/
theorem InBounds.goOn (hanswers : f.answers = f.requests) (hrequests : f.requests ≤ 3 * f.items)
    (hbudget : f.requests + 3 * lang.ahead f.currSub ≤ 3 * f.items)
    (hdone : ∀ sub ∈ lang.subs, lang.canDisplay sub = false → some sub ≠ f.currSub) :
    (f.goOn lang).InBounds (some lang) := by
  unfold SubtitleFetcher.goOn
  cases hnext : lang.getNextSub f.fetchAll with
  | none => exact ⟨hrequests, nofun, nofun, fun _ => .inl rfl, nofun, nofun⟩
  | some sub =>
    obtain ⟨hsub, hnot⟩ := SubtitleLanguage.getNextSub_eq_some hnext
    have hlt := SubtitleLanguage.ahead_lt hsub hnot hdone
    apply InBounds.request rfl
    · exact hanswers
    · show 0 < SUBTITLE_DOWNLOAD_RETRIES + 1
      decide
    · show (f.requests : ℤ) + 3 + 3 * lang.ahead (some sub) ≤ 3 * f.items
      omega

/-- A fetcher that goes on finishes where there is no next item. -/
theorem goOn_finished (hfinished : f.finished = false) (h : (f.goOn lang).finished = true) :
    lang.getNextSub f.fetchAll = none := by
  unfold goOn request at h
  cases hnext : lang.getNextSub f.fetchAll with
  | none => rfl
  | some sub =>
    simp only [hnext] at h
    exact absurd (h.symm.trans hfinished) nofun

@[simp] theorem goOn_fetchAll (f : SubtitleFetcher) (lang : SubtitleLanguage) :
    (f.goOn lang).fetchAll = f.fetchAll := by
  unfold goOn request
  cases lang.getNextSub f.fetchAll <;> rfl

/-- **What a reply does**: it is waited for another one, or the fetcher goes on with the item dropped
    or unpacked. -/
theorem onFinished_cases {sub : ℕ} (hcurr : f.currSub = some sub) (lang : SubtitleLanguage)
    (answer : Answer) :
    (answer = .error ∧ f.hasRetries = true ∧ f.onFinished (some lang) answer =
      (some lang, { f with answers := f.answers + 1, waiting := .retry })) ∨
    ∃ lang', f.onFinished (some lang) answer =
        (some lang', { f with answers := f.answers + 1 }.goOn lang') ∧
      (∀ sub', sub' ≠ sub → lang'.canDisplay sub' = lang.canDisplay sub') ∧
      (f.Fails answer ∧ lang'.subs = lang.subs.erase sub ∨
        ¬ f.Fails answer ∧ lang'.subs = lang.subs ∧ lang'.canDisplay sub = true ∧
          ∃ data, answer = .content (some data) ∧ data ≠ []) := by
  unfold onFinished
  dsimp only
  simp only [hcurr]
  cases answer with
  | error =>
    cases hretries : f.hasRetries with
    | true => exact .inl ⟨rfl, rfl, if_pos hretries⟩
    | false =>
      refine .inr ⟨lang.removeOne sub, if_neg ?_, fun _ _ => rfl, .inl ⟨hretries, rfl⟩⟩
      exact fun h => absurd (hretries.symm.trans h) nofun
  | content archive =>
    refine .inr ⟨lang.load sub archive, rfl, fun sub' hne => ?_, ?_⟩
    · exact SubtitleLanguage.load_canDisplay_of_ne archive hne
    · exact SubtitleLanguage.load_cases lang sub archive

end SubtitleFetcher

/-! ### The fetchers of a language -/

namespace Fetching

open SubtitleFetcher

variable {s s' : Fetching} {k : ℕ} {f : SubtitleFetcher} {lang lang' : SubtitleLanguage} {sub : ℕ}
  {answer : Answer}

/-- **What holds in every run.** -/
structure Consistent (s : Fetching) : Prop where
  nodup : ∀ lang, s.language = some lang → lang.subs.Nodup
  loaded : ∀ lang, s.language = some lang → ∀ sub ∈ lang.subs,
    (lang.canDisplay sub = true ↔ sub ∈ s.loaded)
  inBounds : ∀ f ∈ s.fetchers, f.InBounds s.language

/-- At the start no item is unpacked. -/
theorem consistent_start (items : ℕ) : (start items).Consistent := by
  refine ⟨?_, ?_, ?_⟩
  · rintro _ ⟨⟩
    exact List.nodup_range
  · rintro _ ⟨⟩ sub -
    exact iff_of_false nofun List.not_mem_nil
  · intro f hf
    rw [List.mem_singleton.mp hf]
    exact inBounds_new _ false

/-- **A reply that is heard**, in the terms of the language before it. -/
theorem onFinished_cases (hc : s.Consistent) (hk : s.fetchers[k]? = some f)
    (hwaiting : f.waiting = .reply) (hlanguage : s.language = some lang) (answer : Answer) :
    ∃ sub, f.currSub = some sub ∧
      ((answer = .error ∧ f.hasRetries = true ∧ s.onFinished k f answer = { s with
          fetchers := s.fetchers.set k { f with answers := f.answers + 1, waiting := .retry } }) ∨
      ∃ lang', s.onFinished k f answer = { s with
          language := some lang'
          fetchers := s.fetchers.set k ({ f with answers := f.answers + 1 }.goOn lang')
          loaded := s.loaded ++ s.unpacks f answer } ∧
        (∀ sub', sub' ≠ sub → lang'.canDisplay sub' = lang.canDisplay sub') ∧
        (f.Fails answer ∧ s.unpacks f answer = [] ∧ lang'.subs = lang.subs.erase sub ∨
          ¬ f.Fails answer ∧ s.unpacks f answer = (if sub ∈ lang.subs then [sub] else []) ∧
            lang'.subs = lang.subs ∧ lang'.canDisplay sub = true)) := by
  have hf := hc.inBounds f (List.mem_of_getElem? hk)
  obtain ⟨sub, hcurr⟩ := hf.currSub (by rw [hwaiting]; exact nofun)
  refine ⟨sub, hcurr, ?_⟩
  unfold onFinished
  rw [hlanguage]
  rcases SubtitleFetcher.onFinished_cases hcurr lang answer with
    ⟨rfl, hretries, heq⟩ | ⟨lang', heq, hother, hcases⟩
  · left
    have hunpacks : s.unpacks f .error = [] := by
      unfold unpacks
      rw [hlanguage, hcurr]
    refine ⟨rfl, hretries, ?_⟩
    rw [heq, hunpacks, List.append_nil, ← hlanguage]
  · right
    refine ⟨lang', by rw [heq], hother, ?_⟩
    rcases hcases with ⟨hfails, hsubs⟩ | ⟨hfails, hsubs, hdisplay, data, rfl, hdata⟩
    · refine .inl ⟨hfails, ?_, hsubs⟩
      unfold unpacks
      rw [hlanguage, hcurr]
      cases answer with
      | error => rfl
      | content archive =>
        cases archive with
        | none => rfl
        | some data =>
          have hempty : data = [] := hfails
          simp [hempty]
    · refine .inr ⟨hfails, ?_, hsubs, hdisplay⟩
      unfold unpacks
      rw [hlanguage, hcurr]
      simp [hdata]

/-- A fetcher that goes on, with its item done. -/
theorem consistent_goOn (hc : s.Consistent) (hk : s.fetchers[k]? = some f)
    (hwaiting : f.waiting = .reply) (hlanguage : s.language = some lang) (hcurr : f.currSub = some sub)
    (hdone : lang.Done sub lang') {loaded : List ℕ}
    (hloaded : ∀ sub ∈ lang'.subs, (lang'.canDisplay sub = true ↔ sub ∈ loaded)) :
    Consistent { s with
      language := some lang'
      fetchers := s.fetchers.set k ({ f with answers := f.answers + 1 }.goOn lang')
      loaded := loaded } := by
  have hf := hc.inBounds f (List.mem_of_getElem? hk)
  obtain ⟨hanswers, hretries⟩ := hf.reply hwaiting
  obtain ⟨ahead, hle, hbudget⟩ := hf.budget (by rw [hwaiting]; exact nofun)
  refine ⟨?_, ?_, fun f' hf' => ?_⟩
  · rintro _ ⟨⟩
    exact hdone.sublist.nodup (hc.nodup lang hlanguage)
  · rintro _ ⟨⟩
    exact hloaded
  · rcases List.mem_or_eq_of_mem_set hf' with hf' | rfl
    · refine (hc.inBounds f' hf').mono ?_
      rintro _ ⟨⟩
      exact ⟨lang, hlanguage, hdone.ahead_le⟩
    · -- what is ahead of the fetcher does not grow, so its budget holds
      have hahead := Nat.le_trans (hdone.ahead_le f.currSub) (hle lang hlanguage)
      apply InBounds.goOn
      · exact hanswers
      · exact hf.requests_le
      · show f.requests + 3 * lang'.ahead f.currSub ≤ 3 * f.items
        omega
      · show ∀ sub' ∈ lang'.subs, lang'.canDisplay sub' = false → some sub' ≠ f.currSub
        intro sub' hmem hnot heq
        rw [hcurr] at heq
        exact hdone.ne hmem hnot (Option.some.inj heq)

/-- A reply keeps the invariant: for a retry, for an item done with, and without a language. -/
theorem consistent_onFinished (hc : s.Consistent) (hk : s.fetchers[k]? = some f)
    (hwaiting : f.waiting = .reply) (answer : Answer) : (s.onFinished k f answer).Consistent := by
  have hf := hc.inBounds f (List.mem_of_getElem? hk)
  cases hlanguage : s.language with
  | none =>
    have hgone : s.onFinished k f answer = { s with
        fetchers := s.fetchers.set k { f with answers := f.answers + 1, waiting := .nothing } } := by
      simp [onFinished, SubtitleFetcher.onFinished, unpacks, hlanguage]
    rw [hgone]
    refine ⟨hc.nodup, hc.loaded, fun f' hf' => ?_⟩
    rcases List.mem_or_eq_of_mem_set hf' with hf' | rfl
    · exact hc.inBounds f' hf'
    · exact ⟨hf.requests_le, nofun, nofun, fun _ => .inr hlanguage, nofun, nofun⟩
  | some lang =>
    have hnodup := hc.nodup lang hlanguage
    have hold := hc.loaded lang hlanguage
    obtain ⟨sub, hcurr, ⟨-, hretries, heq⟩ | ⟨lang', heq, hother, hcases⟩⟩ :=
      onFinished_cases hc hk hwaiting hlanguage answer
    · rw [heq]
      refine ⟨hc.nodup, hc.loaded, fun f' hf' => ?_⟩
      rcases List.mem_or_eq_of_mem_set hf' with hf' | rfl
      · exact hc.inBounds f' hf'
      · -- the item is asked for once more, on its own budget of retries
        have hanswers := (hf.reply hwaiting).1
        have hbudget := hf.budget (by rw [hwaiting]; exact nofun)
        exact ⟨hf.requests_le, nofun, fun _ => ⟨hanswers, of_decide_eq_true hretries⟩, nofun,
          fun _ => ⟨sub, hcurr⟩, fun _ => hbudget⟩
    · rw [heq]
      rcases hcases with ⟨-, hunpacks, hsubs⟩ | ⟨-, hunpacks, hsubs, hdisplay⟩
      · -- a failure takes the item out of the language
        apply consistent_goOn hc hk hwaiting hlanguage hcurr (.of_erase hnodup hsubs hother)
        rw [hunpacks, List.append_nil, hsubs]
        intro sub' hmem
        obtain ⟨hne, hmem⟩ := (hnodup.mem_erase_iff).mp hmem
        rw [hother sub' hne]
        exact hold sub' hmem
      · -- unpacked data are shown from now on
        apply consistent_goOn hc hk hwaiting hlanguage hcurr (.of_display hsubs hdisplay hother)
        rw [hunpacks, hsubs]
        intro sub' hmem
        rw [List.mem_append]
        by_cases hsub : sub' = sub
        · subst hsub
          rw [if_pos hmem]
          exact iff_of_true hdisplay (.inr (List.mem_singleton_self _))
        · rw [hother sub' hsub, hold sub' hmem]
          split_ifs <;> simp [hsub]

/-- A retry takes one of the requests that are left. -/
theorem consistent_retry (hc : s.Consistent) (hk : s.fetchers[k]? = some f)
    (hwaiting : f.waiting = .retry) :
    Consistent { s with fetchers := s.fetchers.set k (f.request s.language) } := by
  have hf := hc.inBounds f (List.mem_of_getElem? hk)
  have hwaits : f.waiting ≠ .nothing := by
    rw [hwaiting]
    exact nofun
  obtain ⟨hanswers, hretries⟩ := hf.retry hwaiting
  obtain ⟨sub, hcurr⟩ := hf.currSub hwaits
  obtain ⟨ahead, hle, hbudget⟩ := hf.budget hwaits
  refine ⟨hc.nodup, hc.loaded, fun f' hf' => ?_⟩
  rcases List.mem_or_eq_of_mem_set hf' with hf' | rfl
  · exact hc.inBounds f' hf'
  · show (f.request s.language).InBounds s.language
    cases hlanguage : s.language with
    | none => exact ⟨hf.requests_le, nofun, nofun, fun _ => .inr rfl, nofun, nofun⟩
    | some lang =>
      have hahead := hle lang hlanguage
      apply InBounds.request hcurr hanswers hretries
      omega

/-- The fetcher of a selected language is a new one. -/
theorem consistent_useLanguage (hc : s.Consistent) (hlanguage : s.language = some lang) :
    (s.useLanguage lang).Consistent := by
  unfold useLanguage
  split_ifs
  · exact hc
  · refine ⟨hc.nodup, hc.loaded, fun f hf => ?_⟩
    rcases List.mem_append.mp hf with hf | hf
    · exact hc.inBounds f hf
    · rw [List.mem_singleton.mp hf]
      show (new lang true).InBounds s.language
      rw [hlanguage]
      exact inBounds_new lang true
  · exact ⟨hc.nodup, hc.loaded, hc.inBounds⟩

/-- A fetcher's event is one of a fetcher that waits for it. -/
theorem next_fetcher {waiting : Waiting} {g : SubtitleFetcher → Fetching}
    (h : ((s.fetchers[k]?).bind fun f => if f.waiting = waiting then some (g f) else none) = some s') :
    ∃ f, s.fetchers[k]? = some f ∧ f.waiting = waiting ∧ s' = g f := by
  obtain ⟨f, hk, hf⟩ := Option.bind_eq_some_iff.mp h
  rw [Option.ite_none_right_eq_some] at hf
  exact ⟨f, hk, hf.1, (Option.some.inj hf.2).symm⟩

/-- **A step** keeps the invariant. -/
theorem consistent_next (hc : s.Consistent) {e : FetchingEvent} (h : s.next e = some s') :
    s'.Consistent := by
  cases e with
  | reply k answer =>
    obtain ⟨f, hk, hwaiting, rfl⟩ := next_fetcher h
    exact consistent_onFinished hc hk hwaiting answer
  | retry k =>
    obtain ⟨f, hk, hwaiting, rfl⟩ := next_fetcher h
    exact consistent_retry hc hk hwaiting
  | useLanguage =>
    obtain ⟨lang, hlanguage, rfl⟩ := Option.map_eq_some_iff.mp h
    exact consistent_useLanguage hc hlanguage
  | leaveLanguage =>
    obtain rfl := Option.some.inj h
    exact ⟨hc.nodup, hc.loaded, hc.inBounds⟩
  | clear =>
    obtain rfl := Option.some.inj h
    exact ⟨nofun, nofun, fun f hf => (hc.inBounds f hf).mono nofun⟩

/-- **Every run** keeps the invariant. -/
theorem consistent_of_reachable (h : machine.Reachable s) : s.Consistent := by
  refine h.invariant (I := Consistent) ?_ fun _ _ _ hc hstep => consistent_next hc hstep
  rintro _ ⟨items, -, rfl⟩
  exact consistent_start items

/-! ### The requests -/

/-- What is left of the requests is never negative. -/
theorem bounded_of_consistent (hc : s.Consistent) : s.Bounded := by
  intro f hf
  have hin := hc.inBounds f hf
  refine ⟨hin.requests_le, fun hanswers => ?_, hin.nothing⟩
  have hle := hin.requests_le
  cases hwaiting : f.waiting with
  | reply =>
    have := (hin.reply hwaiting).1
    omega
  | retry =>
    obtain ⟨hall, hretries⟩ := hin.retry hwaiting
    obtain ⟨ahead, -, hbudget⟩ := hin.budget (by rw [hwaiting]; exact nofun)
    omega
  | nothing => rfl

/-! ### Where a fetcher finishes -/

/-- A step that leaves every other fetcher alone. -/
theorem finishes_of_set {g : SubtitleFetcher} (hk : s.fetchers[k]? = some f)
    (hset : s'.fetchers = s.fetchers.set k g)
    (hg : f.finished = false → g.finished = true → ∃ lang, s'.language = some lang ∧
      (g.fetchAll = true → ∀ sub ∈ lang.subs, lang.canDisplay sub = true) ∧
      (g.fetchAll = false → ∀ sub, lang.subs.head? = some sub → lang.canDisplay sub = true)) :
    Finishes s s' := by
  intro j f' hj hfinished hbefore
  rw [hset, List.getElem?_set] at hj
  by_cases hjk : k = j
  · subst hjk
    rw [if_pos rfl, if_pos (List.getElem?_eq_some_iff.mp hk).1] at hj
    obtain rfl := Option.some.inj hj
    exact hg (hbefore f hk) hfinished
  · rw [if_neg hjk] at hj
    exact absurd ((hbefore f' hj).symm.trans hfinished) nofun

/-- No fetcher finishes where they stay as they are. -/
theorem finishes_of_eq (heq : s'.fetchers = s.fetchers) : Finishes s s' := by
  intro j f hj hfinished hbefore
  rw [heq] at hj
  exact absurd ((hbefore f hj).symm.trans hfinished) nofun

/-- A fetcher finishes by a reply when it has no next item. -/
theorem finishes_onFinished (hc : s.Consistent) (hk : s.fetchers[k]? = some f)
    (hwaiting : f.waiting = .reply) (answer : Answer) : Finishes s (s.onFinished k f answer) := by
  apply finishes_of_set hk rfl
  intro hfinished hg
  cases hlanguage : s.language with
  | none =>
    rw [hlanguage] at hg
    exact absurd (hfinished.symm.trans hg) nofun
  | some lang =>
    obtain ⟨sub, hcurr⟩ := (hc.inBounds f (List.mem_of_getElem? hk)).currSub (by
      rw [hwaiting]
      exact nofun)
    unfold onFinished
    rw [hlanguage] at hg ⊢
    rcases SubtitleFetcher.onFinished_cases hcurr lang answer with
      ⟨-, -, heq⟩ | ⟨lang', heq, -⟩
    · rw [heq] at hg
      exact absurd (hfinished.symm.trans hg) nofun
    · rw [heq] at hg ⊢
      have hnone := goOn_finished (f := { f with answers := f.answers + 1 }) hfinished hg
      rw [goOn_fetchAll]
      exact ⟨lang', rfl, SubtitleLanguage.getNextSub_eq_none hnone⟩

/-- A fetcher that has finished when it is made has nothing to fetch. -/
theorem new_finished {fetchAll : Bool} (h : (new lang fetchAll).finished = true) : lang.subs = [] := by
  rw [← List.head?_eq_none_iff]
  unfold new at h
  cases hhead : lang.subs.head? with
  | none => rfl
  | some sub =>
    rw [hhead] at h
    exact absurd h nofun

/-- A new fetcher has two items at least, so it does not finish. -/
theorem finishes_useLanguage (hlanguage : s.language = some lang) :
    Finishes s (s.useLanguage lang) := by
  unfold useLanguage
  split_ifs
  · exact finishes_of_eq rfl
  · intro j f hj hfinished hbefore
    by_cases hlt : j < s.fetchers.length
    · rw [List.getElem?_append_left hlt] at hj
      exact absurd ((hbefore f hj).symm.trans hfinished) nofun
    · rw [List.getElem?_append_right (Nat.le_of_not_lt hlt)] at hj
      have hnew : f = new lang true := List.mem_singleton.mp (List.mem_of_getElem? hj)
      have hempty := new_finished (hnew ▸ hfinished)
      refine ⟨lang, hlanguage, fun _ sub hsub => ?_, fun _ sub hsub => ?_⟩
      · rw [hempty] at hsub
        exact absurd hsub List.not_mem_nil
      · rw [hempty] at hsub
        exact absurd hsub nofun
  · exact finishes_of_eq rfl

/-- **A step** by which a fetcher finishes leaves it nothing to fetch. -/
theorem finishes_next (hc : s.Consistent) {e : FetchingEvent} (h : s.next e = some s') :
    Finishes s s' := by
  cases e with
  | reply k answer =>
    obtain ⟨f, hk, hwaiting, rfl⟩ := next_fetcher h
    exact finishes_onFinished hc hk hwaiting answer
  | retry k =>
    obtain ⟨f, hk, hwaiting, rfl⟩ := next_fetcher h
    apply finishes_of_set hk rfl
    intro hfinished hg
    -- there is an item to be requested
    obtain ⟨sub, hcurr⟩ := (hc.inBounds f (List.mem_of_getElem? hk)).currSub (by
      rw [hwaiting]
      exact nofun)
    have hsame : (f.request s.language).finished = f.finished := by
      unfold request
      cases s.language with
      | none => rfl
      | some lang => simp only [hcurr]
    exact absurd (hfinished.symm.trans (hsame.symm.trans hg)) nofun
  | useLanguage =>
    obtain ⟨lang, hlanguage, rfl⟩ := Option.map_eq_some_iff.mp h
    exact finishes_useLanguage hlanguage
  | leaveLanguage =>
    obtain rfl := Option.some.inj h
    exact finishes_of_eq rfl
  | clear =>
    obtain rfl := Option.some.inj h
    exact finishes_of_eq rfl

/-! ### What is kept -/

/-- The guard of a reply, for the item it is a reply for. -/
theorem guard_reply_iff (hk : s.fetchers[k]? = some f) (hlanguage : s.language = some lang)
    (hcurr : f.currSub = some sub) : s.Guard (.reply k answer) ↔
      (sub ∈ lang.subs → lang.canDisplay sub = true → ¬ f.Fails answer) := by
  constructor
  · exact fun h => h lang f sub hlanguage hk hcurr
  · intro h lang' f' sub' hlang' hk' hcurr'
    obtain rfl := Option.some.inj (hlanguage.symm.trans hlang')
    obtain rfl := Option.some.inj (hk.symm.trans hk')
    obtain rfl := Option.some.inj (hcurr.symm.trans hcurr')
    exact h

/-- **A reply** keeps what has been unpacked exactly if it does not fail for such an item. -/
theorem kept_onFinished_iff (hc : s.Consistent) (hkept : s.Kept) (hk : s.fetchers[k]? = some f)
    (hwaiting : f.waiting = .reply) (answer : Answer) :
    (s.onFinished k f answer).Kept ↔ s.Guard (.reply k answer) := by
  cases hlanguage : s.language with
  | none =>
    -- without a language there is nothing to keep
    have hgone : (s.onFinished k f answer).language = none := by
      simp [onFinished, SubtitleFetcher.onFinished, hlanguage]
    refine iff_of_true ?_ ?_
    · intro lang hlang
      exact absurd (hgone.symm.trans hlang) nofun
    · intro lang f' sub hlang
      exact absurd (hlanguage.symm.trans hlang) nofun
  | some lang =>
    obtain ⟨sub, hcurr, hcases⟩ := onFinished_cases hc hk hwaiting hlanguage answer
    have hold := hkept lang hlanguage
    have hloaded := hc.loaded lang hlanguage sub
    rw [guard_reply_iff hk hlanguage hcurr]
    rcases hcases with ⟨rfl, hretries, heq⟩ | ⟨lang', heq, -, hcases⟩
    · rw [heq]
      refine iff_of_true hkept fun _ _ hfails => ?_
      exact absurd (hretries.symm.trans hfails) nofun
    · -- what the player has is kept when the language still lists it
      have hiff : (s.onFinished k f answer).Kept ↔
          ∀ sub' ∈ s.loaded ++ s.unpacks f answer, sub' ∈ lang'.subs := by
        rw [heq]
        constructor
        · exact fun h => h lang' rfl
        · rintro h _ ⟨⟩
          exact h
      rw [hiff]
      rcases hcases with ⟨hfails, hunpacks, hsubs⟩ | ⟨hfails, hunpacks, hsubs, -⟩
      · rw [hunpacks, List.append_nil, hsubs]
        constructor
        · intro h hmem hdisplay
          -- an item that was unpacked before is dropped by this failure
          exact absurd (h sub ((hloaded hmem).mp hdisplay)) (hc.nodup lang hlanguage).not_mem_erase
        · intro h sub' hsub'
          have hmem := hold sub' hsub'
          have hne : sub' ≠ sub := by
            rintro rfl
            exact h hmem ((hloaded hmem).mpr hsub') hfails
          exact (List.mem_erase_of_ne hne).mpr hmem
      · refine iff_of_true (fun sub' hsub' => ?_) fun _ _ => hfails
        rw [hsubs]
        rcases List.mem_append.mp hsub' with hsub' | hsub'
        · exact hold sub' hsub'
        · rw [hunpacks] at hsub'
          split_ifs at hsub' with hmem
          · exact List.mem_singleton.mp hsub' ▸ hmem
          · exact absurd hsub' List.not_mem_nil

/-- **A step** keeps what has been unpacked exactly if it meets the guard. -/
theorem kept_next_iff (hc : s.Consistent) (hkept : s.Kept) {e : FetchingEvent}
    (h : s.next e = some s') : s'.Kept ↔ s.Guard e := by
  cases e with
  | reply k answer =>
    obtain ⟨f, hk, hwaiting, rfl⟩ := next_fetcher h
    exact kept_onFinished_iff hc hkept hk hwaiting answer
  | retry k =>
    obtain ⟨f, -, -, rfl⟩ := next_fetcher h
    exact iff_of_true hkept trivial
  | useLanguage =>
    obtain ⟨lang, -, rfl⟩ := Option.map_eq_some_iff.mp h
    refine iff_of_true ?_ trivial
    unfold useLanguage
    split_ifs
    · exact hkept
    · exact hkept
    · exact hkept
  | leaveLanguage =>
    obtain rfl := Option.some.inj h
    exact iff_of_true hkept trivial
  | clear =>
    obtain rfl := Option.some.inj h
    exact iff_of_true nofun trivial

/-- The guard is met exactly by the steps that keep what has been unpacked. -/
theorem exactGuard_kept : machine.ExactGuard (fun _ => True) Guard Kept where
  init_iff := by
    rintro _ ⟨items, -, rfl⟩
    exact iff_of_true (fun _ _ _ h => absurd h List.not_mem_nil) trivial
  step_iff := fun _ _ _ hreach hkept hstep =>
    kept_next_iff (consistent_of_reachable hreach) hkept hstep

/-- **The fetchers of a language**: in every run they are bounded, and finish as they should; in a
    run whose steps all meet the guard what has been unpacked is kept, and a further step keeps it
    exactly if it meets the guard. -/
theorem fetching (s : Fetching) :
    (machine.Reachable s → s.Bounded ∧ ∀ e s', s.next e = some s' → Finishes s s') ∧
    (machine.RunUnder (fun _ => True) Guard s →
      s.Kept ∧ ∀ e s', s.next e = some s' → (s'.Kept ↔ s.Guard e)) := by
  constructor
  · intro h
    have hc := consistent_of_reachable h
    exact ⟨bounded_of_consistent hc, fun e s' => finishes_next hc⟩
  · intro h
    have hkept := exactGuard_kept.runUnder h
    exact ⟨hkept, fun e s' => exactGuard_kept.step_iff s e s' h.reachable hkept⟩

/-- The first of two items is unpacked, and then dropped by the fetcher of the selected language, which
    starts with it again and gets three errors. -/
theorem fetching_drops : ∃ s, machine.Reachable s ∧ ¬ s.Kept := by
  have hrun : Machine.runEvents next (start 2)
      [.reply 0 (.content (some [83])), .useLanguage, .reply 1 .error, .retry 1, .reply 1 .error,
        .retry 1, .reply 1 .error] = some _ := rfl
  refine ⟨_, .of_runEvents (.start ⟨2, by decide, rfl⟩) hrun, fun h => ?_⟩
  exact absurd (h _ rfl 0 (by decide)) (by decide)

end Fetching

end PopcornTime.Desktop
