import Mathlib.Logic.Function.Basic
import PopcornTime.Lib.Machine

namespace PopcornTime.Android

open PopcornTime

/-!
# Android catalogue — `ContentUseCase`

The catalogue is loaded page by page.  A change of the provider, of its filters or of the keywords
starts anew with an empty list and a new iterator, but the requests under way go on, and all of
them report to one observer: whatever arrives is appended to the list, and whichever request ends
takes `disposable` away.

* `ContentUseCase.next` — the calls and the replies, in any order and with any delay.
* `ContentUseCase.Right` — the list is the pages of the current content, each once and in order,
  and `isLoading` tells whether a request for it is under way.
* `ContentGuard` — what may arrive from requests of earlier contents.
* `catalogue_of_guard` — in every run that meets the guard all is right, and the guard is exact.
-/

/-- `ContentIterator`, told from the others by a number. -/
structure ContentIterator (P : Type) where
  id : ℕ
  provider : P
  keywords : Option String
  page : ℕ
  next : Bool

def ContentIterator.DEFAULT_LIMIT : ℕ := 75

/-- `accept`, as the page arrives. -/
def ContentIterator.accept {P V : Type} (videos : List V) (it : ContentIterator P) :
    ContentIterator P :=
  { it with next := decide (DEFAULT_LIMIT = videos.length), page := it.page + 1 }

/-- What has come of a request: nothing yet, its page, its page and its end, or an error. -/
inductive ContentReply (V : Type)
  | pending
  | replied (videos : List V)
  | completed (videos : List V)
  | failed

namespace ContentReply

variable {V : Type}

def videos : ContentReply V → List V
  | pending | failed => []
  | replied videos | completed videos => videos

def isInFlight : ContentReply V → Bool
  | pending | replied _ => true
  | completed _ | failed => false

def isCompleted : ContentReply V → Bool
  | completed _ => true
  | pending | replied _ | failed => false

def hasPage : ContentReply V → Bool
  | replied _ | completed _ => true
  | pending | failed => false

end ContentReply

/-- A request for a page, with what it asks for: `getVideos` reads the filters as it is called. -/
structure ContentRequest (P F V : Type) where
  iterator : ℕ
  provider : P
  keywords : Option String
  filters : F
  page : ℕ
  reply : ContentReply V

/-- `ContentUseCase`, with the filters of the providers and all requests so far. -/
structure ContentUseCase (P F V : Type) where
  contentProvider : P
  filters : P → F
  /-- The providers whose filters have a listener. -/
  listening : P → Bool
  keywords : Option String
  list : List V
  iterator : ContentIterator P
  /-- The request whose `Disposable` is held. -/
  disposable : Option ℕ
  /-- `error` is not null. -/
  error : Bool
  requests : List (ContentRequest P F V)

/-- The calls of the pages and of the filters, and what the requests deliver. -/
inductive ContentEvent (P F V : Type)
  | setContentProvider (contentProvider : P)
  | setKeywords (keywords : Option String)
  | setChecked (provider : P) (filters : F)
  | getContent (reset : Bool)
  | onNext (i : ℕ) (videos : List V)
  | onComplete (i : ℕ)
  | onError (i : ℕ)

namespace ContentUseCase

variable {P F V : Type}

def isLoading (u : ContentUseCase P F V) : Bool :=
  u.disposable.isSome

/-- `iterator.next().subscribe`, with `onSubscribe`. -/
def request (u : ContentUseCase P F V) : ContentUseCase P F V :=
  { u with
    disposable := some u.requests.length
    error := false
    requests := u.requests ++ [⟨u.iterator.id, u.iterator.provider, u.iterator.keywords,
      u.filters u.iterator.provider, u.iterator.page, .pending⟩] }

/-- The list is cleared and the iterator replaced; the requests under way are not disposed of. -/
def reset (u : ContentUseCase P F V) : ContentUseCase P F V :=
  { u with
    list := []
    iterator := ⟨u.iterator.id + 1, u.contentProvider, u.keywords, 1, true⟩ }

def getContent (reset : Bool) (u : ContentUseCase P F V) : ContentUseCase P F V :=
  let u := if reset then u.reset else u
  if u.iterator.next then u.request else u

/-- What has just been requested, received or failed. -/
def setReply (i : ℕ) (r : ContentRequest P F V) (reply : ContentReply V)
    (u : ContentUseCase P F V) : ContentUseCase P F V :=
  { u with requests := u.requests.set i { r with reply := reply } }

/-- A page arrives: the iterator of its request accepts it, and the list takes it. -/
def onNext (i : ℕ) (r : ContentRequest P F V) (videos : List V) (u : ContentUseCase P F V) :
    ContentUseCase P F V :=
  { u.setReply i r (.replied videos) with
    iterator := if r.iterator = u.iterator.id then u.iterator.accept videos else u.iterator
    list := u.list ++ videos }

def onComplete (i : ℕ) (r : ContentRequest P F V) (videos : List V) (u : ContentUseCase P F V) :
    ContentUseCase P F V :=
  { u.setReply i r (.completed videos) with disposable := none }

def onError (i : ℕ) (r : ContentRequest P F V) (u : ContentUseCase P F V) :
    ContentUseCase P F V :=
  { u.setReply i r .failed with error := true, disposable := none }

def setKeywords (keywords : Option String) (u : ContentUseCase P F V) : ContentUseCase P F V :=
  if u.keywords = keywords then u else getContent true { u with keywords := keywords }

section

variable [DecidableEq P]

/-- `setContentProvider`; the listeners it removes are those that it sets again. -/
def setContentProvider (contentProvider : P) (u : ContentUseCase P F V) : ContentUseCase P F V :=
  getContent true { u with
    contentProvider := contentProvider
    listening := Function.update u.listening contentProvider true }

/-- `Filter.setChecked` of a filter of a provider, with `onFilterChecked`.  One that several providers
    share is a change of each of them in turn; the last supersedes the requests of the others. -/
def setChecked (provider : P) (filters : F) (u : ContentUseCase P F V) : ContentUseCase P F V :=
  let u := { u with filters := Function.update u.filters provider filters }
  if u.listening provider then getContent true u else u

/-- The constructor; there is no iterator before its call of `setContentProvider`. -/
def new (filters : P → F) (contentProvider : P) : ContentUseCase P F V :=
  setContentProvider contentProvider
    ⟨contentProvider, filters, fun _ => false, none, [], ⟨0, contentProvider, none, 1, true⟩, none,
      false, []⟩

/-- The code that runs on an event; `none` where it cannot happen.  The list asks for more only
    while nothing is loading and there was no error. -/
def next (u : ContentUseCase P F V) : ContentEvent P F V → Option (ContentUseCase P F V)
  | .setContentProvider contentProvider => some (u.setContentProvider contentProvider)
  | .setKeywords keywords => some (u.setKeywords keywords)
  | .setChecked provider filters => some (u.setChecked provider filters)
  | .getContent reset =>
    if reset = true ∨ (u.isLoading = false ∧ u.error = false) then some (u.getContent reset)
    else none
  | .onNext i videos => do
    let r ← u.requests[i]?
    match r.reply with
    | .pending => some (u.onNext i r videos)
    | _ => none
  | .onComplete i => do
    let r ← u.requests[i]?
    match r.reply with
    | .replied videos => some (u.onComplete i r videos)
    | _ => none
  | .onError i => do
    let r ← u.requests[i]?
    match r.reply with
    | .pending => some (u.onError i r)
    | _ => none

variable (P F V) in
def machine : Machine (ContentUseCase P F V) (ContentEvent P F V) :=
  Machine.ofFun (fun u => ∃ filters contentProvider, u = new filters contentProvider) next

end

/-! ### What should hold -/

/-- The requests for the current content: those since the last change or reset. -/
def current (u : ContentUseCase P F V) : List (ContentRequest P F V) :=
  u.requests.filter fun r => r.iterator == u.iterator.id

/-- The catalogue shows the pages of its content. -/
structure Right (u : ContentUseCase P F V) : Prop where
  /-- What is asked for is the content of the provider, the keywords and the filters there are. -/
  asked : ∀ r ∈ u.current, r.provider = u.contentProvider ∧ r.keywords = u.keywords ∧
    r.filters = u.filters u.contentProvider
  /-- The pages are asked for in order, none twice and none skipped, ... -/
  pages : u.current.map ContentRequest.page = List.range' 1 u.current.length
  /-- ... each behind the end of the one before it. -/
  sequential : u.current.Pairwise fun r _ => r.reply.isCompleted = true
  /-- The list is what they have brought, in this order, and nothing else. -/
  list : u.list = u.current.flatMap fun r => r.reply.videos
  loading : u.isLoading = true ↔ ∃ r ∈ u.current, r.reply.isInFlight = true

/-- The request is for the current content. -/
def IsCurrent (u : ContentUseCase P F V) (i : ℕ) : Prop :=
  ∃ r, u.requests[i]? = some r ∧ r.iterator = u.iterator.id

/-- A request for another content brings nothing, and ends only while no request for the current
    content is under way. -/
def ContentGuard (u : ContentUseCase P F V) : ContentEvent P F V → Prop
  | .onNext i videos => u.IsCurrent i ∨ videos = []
  | .onComplete i | .onError i =>
    u.IsCurrent i ∨ ∀ r ∈ u.current, r.reply.isInFlight = false
  | .setContentProvider _ | .setKeywords _ | .setChecked .. | .getContent _ => True

/-- What is known without the guard. -/
structure Inv (u : ContentUseCase P F V) : Prop where
  listening : u.listening u.contentProvider = true
  provider : u.iterator.provider = u.contentProvider
  keywords : u.iterator.keywords = u.keywords
  older : ∀ r ∈ u.requests, r.iterator ≤ u.iterator.id
  asked : ∀ r ∈ u.current, r.provider = u.contentProvider ∧ r.keywords = u.keywords ∧
    r.filters = u.filters u.contentProvider
  page : u.iterator.page = u.current.countP (fun r => r.reply.hasPage) + 1
  failed : u.error = false → ∀ r ∈ u.current, r.reply ≠ .failed

variable {u u' : ContentUseCase P F V} {e : ContentEvent P F V} {i : ℕ} {r : ContentRequest P F V}
  {reply : ContentReply V}

/-! ### The requests for the current content -/

/-- A list around one of its elements. -/
theorem set_of_getElem? {α : Type} {l : List α} {a : α} (h : l[i]? = some a) :
    ∃ pre post, l = pre ++ a :: post ∧ ∀ b, l.set i b = pre ++ b :: post := by
  obtain ⟨hi, rfl⟩ := List.getElem?_eq_some_iff.mp h
  refine ⟨l.take i, l.drop (i + 1), ?_, fun b => ?_⟩
  · rw [← List.drop_eq_getElem_cons hi, List.take_append_drop]
  · rw [List.set_eq_take_append_cons_drop, if_pos hi]

/-- What comes of a request for another content is of no matter to the current one. -/
theorem current_setReply_of_ne (hr : u.requests[i]? = some r) (hne : r.iterator ≠ u.iterator.id) :
    (u.setReply i r reply).current = u.current := by
  obtain ⟨pre, post, heq, hset⟩ := set_of_getElem? hr
  have hcur : u.current = (pre ++ r :: post).filter fun r => r.iterator == u.iterator.id :=
    congrArg (List.filter _) heq
  have hcur' : (u.setReply i r reply).current =
      (pre ++ { r with reply := reply } :: post).filter fun r => r.iterator == u.iterator.id :=
    congrArg (List.filter _) (hset _)
  rw [hcur, hcur', List.filter_append, List.filter_append, List.filter_cons, List.filter_cons]
  simp [hne]

/-- What comes of a request for the current content. -/
theorem current_setReply (hr : u.requests[i]? = some r) (hcurrent : r.iterator = u.iterator.id) :
    ∃ pre post, u.current = pre ++ r :: post ∧
      ∀ reply, (u.setReply i r reply).current = pre ++ { r with reply := reply } :: post := by
  obtain ⟨pre, post, heq, hset⟩ := set_of_getElem? hr
  refine ⟨pre.filter fun r => r.iterator == u.iterator.id,
    post.filter fun r => r.iterator == u.iterator.id, ?_, fun reply => ?_⟩
  · have hcur : u.current = (pre ++ r :: post).filter fun r => r.iterator == u.iterator.id :=
      congrArg (List.filter _) heq
    rw [hcur, List.filter_append, List.filter_cons]
    simp [hcurrent]
  · have hcur : (u.setReply i r reply).current =
        (pre ++ { r with reply := reply } :: post).filter fun r => r.iterator == u.iterator.id :=
      congrArg (List.filter _) (hset _)
    rw [hcur, List.filter_append, List.filter_cons]
    simp [hcurrent]

/-- A request under way is not completed. -/
theorem isCompleted_of_isInFlight {reply : ContentReply V} (h : reply.isInFlight = true) :
    reply.isCompleted = false := by
  cases reply with
  | pending | replied videos | failed => rfl
  | completed videos => exact absurd h (by simp [ContentReply.isInFlight])

/-- Of the requests for one content, only the last one is not completed. -/
theorem Right.last (h : u.Right) {pre post : List (ContentRequest P F V)}
    (heq : u.current = pre ++ r :: post) (hr : r.reply.isCompleted = false) :
    post = [] ∧ ∀ r' ∈ pre, r'.reply.isCompleted = true := by
  have hpair := h.sequential
  rw [heq, List.pairwise_append, List.pairwise_cons] at hpair
  obtain ⟨-, ⟨hpost, -⟩, hpre⟩ := hpair
  refine ⟨List.eq_nil_iff_forall_not_mem.mpr fun r' hr' => ?_,
    fun r' hr' => hpre r' hr' r List.mem_cons_self⟩
  rw [hpost r' hr'] at hr
  exact absurd hr (by simp)

/-- A request under way is the last one for its content, and another reply to it leaves the pages in
    their order. -/
theorem Right.current_setReply (h : u.Right) (hr : u.requests[i]? = some r)
    (hcurrent : r.iterator = u.iterator.id) (hincomplete : r.reply.isCompleted = false)
    (reply : ContentReply V) :
    ∃ pre, u.current = pre ++ [r] ∧ (∀ r' ∈ pre, r'.reply.isCompleted = true) ∧
      (u.setReply i r reply).current = pre ++ [{ r with reply := reply }] ∧
      (u.setReply i r reply).current.map ContentRequest.page =
        List.range' 1 (u.setReply i r reply).current.length ∧
      (u.setReply i r reply).current.Pairwise fun r _ => r.reply.isCompleted = true := by
  obtain ⟨pre, post, heq, hset⟩ := ContentUseCase.current_setReply hr hcurrent
  obtain ⟨rfl, hpre⟩ := h.last heq hincomplete
  have hpages := h.pages
  have hsequential := h.sequential
  rw [heq] at hpages hsequential
  refine ⟨pre, heq, hpre, hset reply, ?_, ?_⟩
  · rw [hset]
    simpa using hpages
  · rw [hset]
    exact List.pairwise_append.mpr ⟨(List.pairwise_append.mp hsequential).1,
      List.pairwise_singleton _ _, fun r hr _ _ => hpre r hr⟩

/-- A request is for the current content if it is one of its iterator. -/
theorem isCurrent_iff (hr : u.requests[i]? = some r) :
    u.IsCurrent i ↔ r.iterator = u.iterator.id := by
  constructor
  · rintro ⟨r', hr', hid⟩
    obtain rfl := Option.some.inj (hr.symm.trans hr')
    exact hid
  · exact fun hid => ⟨r, hr, hid⟩

/-! ### A new content -/

/-- A page is asked for behind those there are. -/
theorem current_request : u.request.current = u.current ++ [⟨u.iterator.id, u.iterator.provider,
    u.iterator.keywords, u.filters u.iterator.provider, u.iterator.page, .pending⟩] := by
  show List.filter _ (u.requests ++ [_]) = _
  rw [List.filter_append]
  simp [current, request]

/-- All requests so far are for earlier contents. -/
theorem current_reset (h : ∀ r ∈ u.requests, r.iterator ≤ u.iterator.id) :
    u.reset.current = [] := by
  refine List.filter_eq_nil_iff.mpr fun r hr => ?_
  have hle := h r hr
  simp only [reset, beq_iff_eq]
  omega

/-- A content that is asked for anew: one request is under way, and the list is empty. -/
theorem getContent_reset_spec (hlistening : u.listening u.contentProvider = true)
    (holder : ∀ r ∈ u.requests, r.iterator ≤ u.iterator.id) :
    (getContent true u).Inv ∧ (getContent true u).Right := by
  -- a new iterator has one request so far, the one made here
  have hcur : (getContent true u).current = [⟨u.iterator.id + 1, u.contentProvider, u.keywords,
      u.filters u.contentProvider, 1, .pending⟩] := by
    show u.reset.request.current = _
    rw [current_request, current_reset holder]
    rfl
  have hasked : ∀ r ∈ (getContent true u).current, r.provider = u.contentProvider ∧
      r.keywords = u.keywords ∧ r.filters = u.filters u.contentProvider := by
    rw [hcur]
    simp
  refine ⟨⟨hlistening, rfl, rfl, ?_, hasked, ?_, ?_⟩, ⟨hasked, ?_, ?_, ?_, ?_⟩⟩
  · intro r hr
    rcases List.mem_append.mp hr with hold | hnew
    · exact Nat.le_succ_of_le (holder r hold)
    · rw [List.mem_singleton.mp hnew]
      exact Nat.le_refl _
  · rw [hcur]
    rfl
  · rw [hcur]
    simp
  · rw [hcur]
    rfl
  · rw [hcur]
    exact List.pairwise_singleton _ _
  · rw [hcur]
    rfl
  · rw [hcur]
    simp [getContent, isLoading, request, reset, ContentReply.isInFlight]

/-! ### More of the current content -/

/-- Another page is asked for with nothing failed. -/
theorem Inv.request (h : u.Inv) (herror : u.error = false) : u.request.Inv := by
  refine ⟨h.listening, h.provider, h.keywords, ?_, ?_, ?_, fun _ => ?_⟩
  · intro r hr
    rcases List.mem_append.mp hr with hold | hnew
    · exact h.older r hold
    · rw [List.mem_singleton.mp hnew]
      exact Nat.le_refl _
  · rw [current_request]
    intro r hr
    rcases List.mem_append.mp hr with hold | hnew
    · exact h.asked r hold
    · rw [List.mem_singleton.mp hnew]
      exact ⟨h.provider, h.keywords, congrArg u.filters h.provider⟩
  · rw [current_request, List.countP_append]
    exact h.page
  · rw [current_request]
    intro r hr
    rcases List.mem_append.mp hr with hold | hnew
    · exact h.failed herror r hold
    · rw [List.mem_singleton.mp hnew]
      exact nofun

/-- With nothing under way and nothing failed, every request has brought its page. -/
theorem Right.allCompleted (h : u.Inv) (hright : u.Right) (hidle : u.isLoading = false)
    (herror : u.error = false) : ∀ r ∈ u.current, r.reply.isCompleted = true := by
  intro r hr
  have hnot : ¬r.reply.isInFlight = true := fun hin => by
    rw [hright.loading.mpr ⟨r, hr, hin⟩] at hidle
    exact absurd hidle (by simp)
  have hfailed := h.failed herror r hr
  cases hreply : r.reply with
  | pending | replied videos => simp [hreply, ContentReply.isInFlight] at hnot
  | completed videos => rfl
  | failed => exact absurd hreply hfailed

/-- It is the one behind the last, which is completed. -/
theorem Right.request (h : u.Inv) (hright : u.Right) (hidle : u.isLoading = false)
    (herror : u.error = false) : u.request.Right := by
  have hcompleted := hright.allCompleted h hidle herror
  have hpage : u.iterator.page = u.current.length + 1 := by
    rw [h.page, List.countP_eq_length.mpr fun r hr => ?_]
    have hr := hcompleted r hr
    cases hreply : r.reply with
    | replied videos | completed videos => rfl
    | pending | failed => simp [hreply, ContentReply.isCompleted] at hr
  refine ⟨(h.request herror).asked, ?_, ?_, ?_, ?_⟩
  · rw [current_request, List.map_append, hright.pages, List.length_append, List.length_singleton,
      List.range'_1_concat, Nat.add_comm 1, ← hpage]
    rfl
  · rw [current_request]
    exact List.pairwise_append.mpr
      ⟨hright.sequential, List.pairwise_singleton _ _, fun r hr _ _ => hcompleted r hr⟩
  · rw [current_request, List.flatMap_append]
    simp [ContentReply.videos, ContentUseCase.request, hright.list]
  · rw [current_request]
    simp [ContentUseCase.request, isLoading, ContentReply.isInFlight]

/-! ### What the requests deliver -/

/-- A reply is no request of a newer iterator. -/
theorem Inv.older_setReply (h : u.Inv) (hr : u.requests[i]? = some r) :
    ∀ r' ∈ (u.setReply i r reply).requests, r'.iterator ≤ u.iterator.id := by
  intro r' hr'
  rcases List.mem_or_eq_of_mem_set hr' with hold | rfl
  · exact h.older r' hold
  · exact h.older r (List.mem_of_getElem? hr)

/-- What holds of the requests for the current content still does if it holds of the one whose
    reply changes. -/
theorem forall_current_setReply {Q : ContentRequest P F V → Prop} (hr : u.requests[i]? = some r)
    (hall : ∀ r ∈ u.current, Q r) (hnew : Q r → Q { r with reply := reply }) :
    ∀ r' ∈ (u.setReply i r reply).current, Q r' := by
  by_cases hcurrent : r.iterator = u.iterator.id
  · obtain ⟨pre, post, heq, hset⟩ := current_setReply hr hcurrent
    rw [heq] at hall
    rw [hset]
    intro r' hr'
    rcases List.mem_append.mp hr' with hpre | hpost
    · exact hall r' (List.mem_append_left _ hpre)
    · rcases List.mem_cons.mp hpost with rfl | hpost
      · exact hnew (hall r (List.mem_append_right _ List.mem_cons_self))
      · exact hall r' (List.mem_append_right _ (List.mem_cons_of_mem _ hpost))
  · rw [current_setReply_of_ne hr hcurrent]
    exact hall

/-- The pages that have come, where the reply to one request changes. -/
theorem countP_setReply (reply : ContentReply V) (hr : u.requests[i]? = some r) :
    (u.setReply i r reply).current.countP (fun r => r.reply.hasPage) +
        (if r.iterator = u.iterator.id then r.reply.hasPage.toNat else 0) =
      u.current.countP (fun r => r.reply.hasPage) +
        if r.iterator = u.iterator.id then reply.hasPage.toNat else 0 := by
  by_cases hcurrent : r.iterator = u.iterator.id
  · obtain ⟨pre, post, heq, hset⟩ := current_setReply hr hcurrent
    rw [heq, hset, if_pos hcurrent, if_pos hcurrent]
    rw [List.countP_append, List.countP_append, List.countP_cons, List.countP_cons]
    cases r.reply.hasPage <;> cases reply.hasPage <;> simp <;> omega
  · rw [current_setReply_of_ne hr hcurrent, if_neg hcurrent, if_neg hcurrent]

/-- A page replaces no iterator. -/
theorem id_onNext (u : ContentUseCase P F V) (i : ℕ) (r : ContentRequest P F V) (videos : List V) :
    (u.onNext i r videos).iterator.id = u.iterator.id := by
  unfold ContentUseCase.onNext
  split_ifs <;> rfl

/-- It is for the requests what its reply is. -/
theorem current_onNext (u : ContentUseCase P F V) (i : ℕ) (r : ContentRequest P F V)
    (videos : List V) :
    (u.onNext i r videos).current = (u.setReply i r (.replied videos)).current := by
  rw [current, id_onNext]
  rfl

/-- A page that arrives is counted by its own iterator. -/
theorem Inv.onNext (h : u.Inv) (hr : u.requests[i]? = some r) (hpending : r.reply = .pending)
    {videos : List V} : (u.onNext i r videos).Inv := by
  have hcount := countP_setReply (.replied videos) hr
  refine ⟨h.listening, ?_, ?_, ?_, ?_, ?_, ?_⟩
  · refine Eq.trans ?_ h.provider
    unfold ContentUseCase.onNext
    split_ifs <;> rfl
  · refine Eq.trans ?_ h.keywords
    unfold ContentUseCase.onNext
    split_ifs <;> rfl
  · rw [id_onNext]
    exact h.older_setReply hr
  · rw [current_onNext]
    exact forall_current_setReply hr h.asked id
  · rw [current_onNext]
    have hpage := h.page
    -- a page of the current iterator is answered and counted at once
    by_cases hcurrent : r.iterator = u.iterator.id
    · have hnew : (u.onNext i r videos).iterator.page = u.iterator.page + 1 := by
        rw [ContentUseCase.onNext, if_pos hcurrent]
        rfl
      rw [if_pos hcurrent, if_pos hcurrent, hpending] at hcount
      have hone : _ + 0 = _ + 1 := hcount
      omega
    · have hnew : (u.onNext i r videos).iterator.page = u.iterator.page := by
        rw [ContentUseCase.onNext, if_neg hcurrent]
      rw [if_neg hcurrent, if_neg hcurrent] at hcount
      omega
  · rw [current_onNext]
    exact fun herror => forall_current_setReply hr (h.failed herror) fun _ => nofun

/-- The end of a request brings no page. -/
theorem Inv.onComplete (h : u.Inv) (hr : u.requests[i]? = some r) {videos : List V}
    (hreplied : r.reply = .replied videos) : (u.onComplete i r videos).Inv := by
  have hcount := countP_setReply (.completed videos) hr
  refine ⟨h.listening, h.provider, h.keywords, h.older_setReply hr,
    forall_current_setReply hr h.asked id, ?_,
    fun herror => forall_current_setReply hr (h.failed herror) fun _ => nofun⟩
  rw [hreplied] at hcount
  exact h.page.trans (congrArg (· + 1) (Nat.add_right_cancel hcount).symm)

/-- Nor does an error, which is remembered. -/
theorem Inv.onError (h : u.Inv) (hr : u.requests[i]? = some r) (hpending : r.reply = .pending) :
    (u.onError i r).Inv := by
  have hcount := countP_setReply .failed hr
  refine ⟨h.listening, h.provider, h.keywords, h.older_setReply hr,
    forall_current_setReply hr h.asked id, ?_, nofun⟩
  rw [hpending] at hcount
  exact h.page.trans (congrArg (· + 1) (Nat.add_right_cancel hcount).symm)

/-! ### When the catalogue is right -/

/-- The page of the current content is the next one of the list. -/
theorem Right.onNext (h : u.Inv) (hright : u.Right) (hr : u.requests[i]? = some r)
    (hpending : r.reply = .pending) {videos : List V} (hcurrent : r.iterator = u.iterator.id) :
    (u.onNext i r videos).Right := by
  obtain ⟨pre, heq, -, hset, hpages, hsequential⟩ :=
    hright.current_setReply hr hcurrent (by rw [hpending]; rfl) (.replied videos)
  have hlist := hright.list
  have hloading := hright.loading
  rw [heq] at hlist hloading
  rw [← current_onNext] at hset hpages hsequential
  refine ⟨(h.onNext hr hpending).asked, hpages, hsequential, ?_, ?_⟩
  · rw [hset]
    show u.list ++ videos = _
    rw [hlist]
    simp [hpending, ContentReply.videos]
  · rw [hset]
    show u.isLoading = true ↔ _
    refine iff_of_true (hloading.mpr ⟨r, by simp, by rw [hpending]; rfl⟩) ?_
    exact ⟨{ r with reply := .replied videos }, by simp, rfl⟩

/-- A request for another content adds its page to the list all the same. -/
theorem right_onNext_iff (h : u.Inv) (hright : u.Right) (hr : u.requests[i]? = some r)
    (hpending : r.reply = .pending) {videos : List V} :
    (u.onNext i r videos).Right ↔ u.IsCurrent i ∨ videos = [] := by
  by_cases hcurrent : r.iterator = u.iterator.id
  · exact iff_of_true (hright.onNext h hr hpending hcurrent) (.inl ⟨r, hr, hcurrent⟩)
  have hcur := current_onNext u i r videos
  rw [current_setReply_of_ne hr hcurrent] at hcur
  rw [or_iff_right (mt (isCurrent_iff hr).mp hcurrent)]
  constructor
  · intro hright'
    have hlist := hright'.list
    rw [hcur, ← hright.list] at hlist
    exact List.append_right_eq_self.mp hlist
  · rintro rfl
    refine ⟨(h.onNext hr hpending).asked, ?_, ?_, ?_, ?_⟩
    · rw [hcur]
      exact hright.pages
    · rw [hcur]
      exact hright.sequential
    · rw [hcur]
      exact (List.append_nil _).trans hright.list
    · rw [hcur]
      exact hright.loading

/-- A request that ends takes `disposable` away, whose ever it is. -/
theorem right_end_iff (reply : ContentReply V) (hright : u.Right) (hr : u.requests[i]? = some r)
    (hinFlight : r.reply.isInFlight = true) (hvideos : reply.videos = r.reply.videos)
    (hended : reply.isInFlight = false) (hinv : u'.Inv)
    (hcur : u'.current = (u.setReply i r reply).current) (hlist : u'.list = u.list)
    (hdisposable : u'.disposable = none) :
    u'.Right ↔ u.IsCurrent i ∨ ∀ r ∈ u.current, r.reply.isInFlight = false := by
  have hidle : u'.isLoading = false := by rw [isLoading, hdisposable]; rfl
  -- a reply to the current iterator ends its request; another only stops the loading sign
  by_cases hcurrent : r.iterator = u.iterator.id
  · refine iff_of_true ?_ (.inl ⟨r, hr, hcurrent⟩)
    obtain ⟨pre, heq, hpre, hset, hpages, hsequential⟩ :=
      hright.current_setReply hr hcurrent (isCompleted_of_isInFlight hinFlight) reply
    have hold := hright.list
    rw [heq] at hold
    rw [← hcur] at hset hpages hsequential
    refine ⟨hinv.asked, hpages, hsequential, ?_, ?_⟩
    · rw [hset, hlist, hold]
      simp [hvideos]
    · rw [hset, hidle]
      refine iff_of_false (by simp) ?_
      rintro ⟨r', hr', hin⟩
      rcases List.mem_append.mp hr' with hmem | hmem
      · have hdone := hpre r' hmem
        rw [isCompleted_of_isInFlight hin] at hdone
        exact absurd hdone (by simp)
      · rw [List.mem_singleton.mp hmem, hended] at hin
        exact absurd hin (by simp)
  · rw [current_setReply_of_ne hr hcurrent] at hcur
    rw [or_iff_right (mt (isCurrent_iff hr).mp hcurrent)]
    constructor
    · intro hright' r' hr'
      by_contra hin
      rw [Bool.not_eq_false] at hin
      -- a request still in flight would show as loading, but the disposable is gone
      have hloading := hright'.loading.mpr ⟨r', hcur ▸ hr', hin⟩
      rw [hidle] at hloading
      exact absurd hloading (by simp)
    · intro hnone
      refine ⟨hinv.asked, ?_, ?_, ?_, ?_⟩
      · rw [hcur]
        exact hright.pages
      · rw [hcur]
        exact hright.sequential
      · rw [hcur, hlist]
        exact hright.list
      · rw [hcur, hidle]
        refine iff_of_false (by simp) ?_
        rintro ⟨r', hr', hin⟩
        rw [hnone r' hr'] at hin
        exact absurd hin (by simp)

variable [DecidableEq P]

/-- What the events are. -/
theorem next_cases (hnext : u.next e = some u') :
    (∃ contentProvider, e = .setContentProvider contentProvider ∧
      u' = u.setContentProvider contentProvider) ∨
    (∃ keywords, e = .setKeywords keywords ∧ u' = u.setKeywords keywords) ∨
    (∃ provider filters, e = .setChecked provider filters ∧ u' = u.setChecked provider filters) ∨
    (∃ reset, e = .getContent reset ∧
      (reset = true ∨ (u.isLoading = false ∧ u.error = false)) ∧ u' = u.getContent reset) ∨
    (∃ i r videos, e = .onNext i videos ∧ u.requests[i]? = some r ∧ r.reply = .pending ∧
      u' = u.onNext i r videos) ∨
    (∃ i r videos, e = .onComplete i ∧ u.requests[i]? = some r ∧ r.reply = .replied videos ∧
      u' = u.onComplete i r videos) ∨
    ∃ i r, e = .onError i ∧ u.requests[i]? = some r ∧ r.reply = .pending ∧ u' = u.onError i r := by
  cases e with
  | setContentProvider contentProvider => exact .inl ⟨_, rfl, (Option.some.inj hnext).symm⟩
  | setKeywords keywords => exact .inr (.inl ⟨_, rfl, (Option.some.inj hnext).symm⟩)
  | setChecked provider filters =>
    exact .inr (.inr (.inl ⟨_, _, rfl, (Option.some.inj hnext).symm⟩))
  | getContent reset =>
    obtain ⟨hidle, rfl⟩ := Machine.of_ite_eq_some hnext
    exact .inr (.inr (.inr (.inl ⟨_, rfl, hidle, rfl⟩)))
  | onNext i videos =>
    obtain ⟨r, hr, hr'⟩ := Option.bind_eq_some_iff.mp hnext
    cases hreply : r.reply with
    | pending =>
      rw [hreply] at hr'
      exact .inr (.inr (.inr (.inr (.inl ⟨_, r, _, rfl, hr, hreply, (Option.some.inj hr').symm⟩))))
    | replied | completed | failed =>
      rw [hreply] at hr'
      exact absurd hr' nofun
  | onComplete i =>
    obtain ⟨r, hr, hr'⟩ := Option.bind_eq_some_iff.mp hnext
    cases hreply : r.reply with
    | replied videos =>
      rw [hreply] at hr'
      exact .inr (.inr (.inr (.inr (.inr (.inl
        ⟨_, r, _, rfl, hr, hreply, (Option.some.inj hr').symm⟩)))))
    | pending | completed | failed =>
      rw [hreply] at hr'
      exact absurd hr' nofun
  | onError i =>
    obtain ⟨r, hr, hr'⟩ := Option.bind_eq_some_iff.mp hnext
    cases hreply : r.reply with
    | pending =>
      rw [hreply] at hr'
      exact .inr (.inr (.inr (.inr (.inr (.inr
        ⟨_, r, rfl, hr, hreply, (Option.some.inj hr').symm⟩)))))
    | replied | completed | failed =>
      rw [hreply] at hr'
      exact absurd hr' nofun

/-- A provider that is set is listened to. -/
theorem setContentProvider_spec (holder : ∀ r ∈ u.requests, r.iterator ≤ u.iterator.id)
    (contentProvider : P) :
    (u.setContentProvider contentProvider).Inv ∧ (u.setContentProvider contentProvider).Right :=
  getContent_reset_spec (u := { u with
    contentProvider := contentProvider
    listening := Function.update u.listening contentProvider true })
    (Function.update_self _ _ _) holder

omit [DecidableEq P] in
/-- New keywords are a new content, the same ones change nothing. -/
theorem setKeywords_spec (h : u.Inv) (keywords : Option String) :
    (u.setKeywords keywords).Inv ∧ (u.Right → (u.setKeywords keywords).Right) := by
  unfold setKeywords
  split_ifs
  · exact ⟨h, id⟩
  · obtain ⟨hinv, hright⟩ :=
      getContent_reset_spec (u := { u with keywords := keywords }) h.listening h.older
    exact ⟨hinv, fun _ => hright⟩

/-- The filters of a provider without a listener are not those of the content. -/
theorem setChecked_spec (h : u.Inv) (provider : P) (filters : F) :
    (u.setChecked provider filters).Inv ∧ (u.Right → (u.setChecked provider filters).Right) := by
  unfold setChecked
  by_cases hlistening : u.listening provider = true
  · obtain ⟨hinv, hright⟩ := getContent_reset_spec
      (u := { u with filters := Function.update u.filters provider filters }) h.listening h.older
    simp only [hlistening, if_true]
    exact ⟨hinv, fun _ => hright⟩
  · have hne : u.contentProvider ≠ provider := fun heq => hlistening (heq ▸ h.listening)
    have hfilters : Function.update u.filters provider filters u.contentProvider =
        u.filters u.contentProvider := Function.update_of_ne hne _ _
    simp only [hlistening]
    have hasked : ∀ r ∈ u.current, r.provider = u.contentProvider ∧ r.keywords = u.keywords ∧
        r.filters = Function.update u.filters provider filters u.contentProvider := by
      rw [hfilters]
      exact h.asked
    exact ⟨⟨h.listening, h.provider, h.keywords, h.older, hasked, h.page, h.failed⟩,
      fun hright =>
        ⟨hasked, hright.pages, hright.sequential, hright.list, hright.loading⟩⟩

/-- **One event** keeps the invariant. -/
theorem Inv.next (h : u.Inv) (hnext : u.next e = some u') : u'.Inv := by
  rcases next_cases hnext with ⟨contentProvider, -, rfl⟩ | ⟨keywords, -, rfl⟩ |
    ⟨provider, filters, -, rfl⟩ | ⟨reset, -, hidle, rfl⟩ | ⟨i, r, videos, -, hr, hpending, rfl⟩ |
    ⟨i, r, videos, -, hr, hreplied, rfl⟩ | ⟨i, r, -, hr, hpending, rfl⟩
  · exact (setContentProvider_spec h.older contentProvider).1
  · exact (setKeywords_spec h keywords).1
  · exact (setChecked_spec h provider filters).1
  · cases reset with
    | true => exact (getContent_reset_spec h.listening h.older).1
    | false =>
      unfold getContent
      simp only [Bool.false_eq_true, if_false]
      split_ifs
      · exact h.request (hidle.resolve_left (by simp)).2
      · exact h
  · exact h.onNext hr hpending
  · exact h.onComplete hr hreplied
  · exact h.onError hr hpending

/-- **One event** keeps the catalogue right exactly if it meets the guard. -/
theorem right_next_iff (h : u.Inv) (hright : u.Right) (hnext : u.next e = some u') :
    u'.Right ↔ u.ContentGuard e := by
  have hinv := h.next hnext
  rcases next_cases hnext with ⟨contentProvider, rfl, rfl⟩ | ⟨keywords, rfl, rfl⟩ |
    ⟨provider, filters, rfl, rfl⟩ | ⟨reset, rfl, hidle, rfl⟩ | ⟨i, r, videos, rfl, hr, hpending, rfl⟩ |
    ⟨i, r, videos, rfl, hr, hreplied, rfl⟩ | ⟨i, r, rfl, hr, hpending, rfl⟩
  · exact iff_of_true (setContentProvider_spec h.older contentProvider).2 trivial
  · exact iff_of_true ((setKeywords_spec h keywords).2 hright) trivial
  · exact iff_of_true ((setChecked_spec h provider filters).2 hright) trivial
  · refine iff_of_true ?_ trivial
    cases reset with
    | true => exact (getContent_reset_spec h.listening h.older).2
    | false =>
      obtain ⟨hloading, herror⟩ := hidle.resolve_left (by simp)
      unfold getContent
      simp only [Bool.false_eq_true, if_false]
      split_ifs
      · exact hright.request h hloading herror
      · exact hright
  · exact right_onNext_iff h hright hr hpending
  · exact right_end_iff (.completed videos) hright hr (by rw [hreplied]; rfl)
      (by rw [hreplied]; rfl) rfl hinv rfl rfl rfl
  · exact right_end_iff .failed hright hr (by rw [hpending]; rfl)
      (by rw [hpending]; rfl) rfl hinv rfl rfl rfl

/-- The constructor asks for the first page. -/
theorem new_spec (filters : P → F) (contentProvider : P) :
    (new filters contentProvider : ContentUseCase P F V).Inv ∧
      (new filters contentProvider : ContentUseCase P F V).Right :=
  setContentProvider_spec (by simp) contentProvider

/-- **Every run** keeps the invariant. -/
theorem inv_of_reachable (h : (machine P F V).Reachable u) : u.Inv := by
  refine Machine.Reachable.invariant ?_ (fun u e u' hinv hnext => hinv.next hnext) h
  rintro u ⟨filters, contentProvider, rfl⟩
  exact (new_spec filters contentProvider).1

/-- The guard is met exactly by the events that keep the catalogue right. -/
theorem contentGuard_exact (P F V : Type) [DecidableEq P] :
    (machine P F V).ExactGuard (fun _ => True) ContentGuard Right where
  init_iff := by
    rintro u ⟨filters, contentProvider, rfl⟩
    exact iff_of_true (new_spec filters contentProvider).2 trivial
  step_iff := fun _ _ _ hreach hright hnext => right_next_iff (inv_of_reachable hreach) hright hnext

/-- **The catalogue.**  In every run in which requests for earlier contents bring nothing, and end
    only while no request for the current content is under way, the list is the pages of the
    current content, each once and in order, and `isLoading` tells whether a request for it is under
    way.  The guard is exact. -/
theorem catalogue_of_guard (P F V : Type) [DecidableEq P] :
    (∀ u, (machine P F V).RunUnder (fun _ => True) ContentGuard u → u.Right) ∧
    (machine P F V).ExactGuard (fun _ => True) ContentGuard Right :=
  ⟨fun _ => (contentGuard_exact P F V).runUnder, contentGuard_exact P F V⟩

/-- New keywords while the first page is under way: its videos arrive, and stand in front of those
    that were searched for.  And its end makes the search look finished. -/
theorem late_page :
    (∃ u, (machine ℕ ℕ ℕ).Reachable u ∧ u.list = [1, 2] ∧ ¬u.Right) ∧
    ∃ u, (machine ℕ ℕ ℕ).Reachable u ∧ u.isLoading = false ∧ ¬u.Right := by
  constructor
  · have hrun : (Machine.runEvents next (new (fun _ => 0) 0 : ContentUseCase ℕ ℕ ℕ)
        -- request 0 is of the empty keywords: its page is kept under the new ones
        [.setKeywords (some "a"), .onNext 0 [1], .onComplete 0, .onNext 1 [2]]).map
          (fun u => (u.list, u.current.flatMap fun r => r.reply.videos)) = some ([1, 2], [2]) := by
      decide
    obtain ⟨u, hreach, heq⟩ := Machine.Reachable.exists_of_runEvents
      (show (machine ℕ ℕ ℕ).Reachable _ from .start ⟨_, _, rfl⟩) hrun
    simp only [Prod.mk.injEq] at heq
    refine ⟨u, hreach, heq.1, fun hright => ?_⟩
    have hlist := hright.list
    rw [heq.1, heq.2] at hlist
    exact absurd hlist (by decide)
  · have hrun : (Machine.runEvents next (new (fun _ => 0) 0 : ContentUseCase ℕ ℕ ℕ)
        -- its completion drops the disposable of request 1, which is still in flight
        [.setKeywords (some "a"), .onNext 0 [], .onComplete 0]).map
          (fun u => (u.isLoading, u.current.map fun r => r.reply.isInFlight)) =
        some (false, [true]) := by
      decide
    obtain ⟨u, hreach, heq⟩ := Machine.Reachable.exists_of_runEvents
      (show (machine ℕ ℕ ℕ).Reachable _ from .start ⟨_, _, rfl⟩) hrun
    simp only [Prod.mk.injEq] at heq
    refine ⟨u, hreach, heq.1, fun hright => ?_⟩
    have htrue : true ∈ u.current.map fun r => r.reply.isInFlight := by
      rw [heq.2]
      exact List.mem_singleton_self true
    have hloading := hright.loading.mpr (List.mem_map.mp htrue)
    rw [heq.1] at hloading
    exact absurd hloading (by simp)

end ContentUseCase

end PopcornTime.Android
