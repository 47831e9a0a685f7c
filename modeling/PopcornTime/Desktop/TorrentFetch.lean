import Mathlib.Data.Nat.Notation
import Mathlib.Order.Nat
import Mathlib.Tactic.SplitIfs
import PopcornTime.Lib.Machine

namespace PopcornTime.Desktop

open PopcornTime

/-!
# Desktop — torrent files and the one requester

Every `TorrentDownloadThread` has its torrent file fetched by the same `Requester`, which keeps one
reply and announces what it has read to whoever listens.

* `getTorrentFile`, `onTorrentFileReqestFinished` — the slots of the requester.
* `FetchEvent` — its queue, the network, and the threads, which wait for a file or a timeout.
* `Separate` — no thread has anything of another's request.
* `separate_of_guard` — one fetch at a time is separate, and a second one can always go wrong.
-/

/-- What a reply has brought; `owner` is the thread that asked for `origin`. -/
structure TorrentFile where
  body : List UInt8
  owner : ℕ
  origin : String
deriving DecidableEq, Repr

/-- A request under way: for the thread `owner`, which has asked for `origin`; redirections have led
    to `url`. -/
structure TorrentReply where
  owner : ℕ
  origin : String
  url : String
deriving DecidableEq, Repr

/-- `TorrentDownloadThread::getAddTorrentFile`, from its connection to the requester on. -/
structure FetchThread where
  url : String
  connected : Bool
  /-- The files that have been announced and not been received. -/
  mailbox : List TorrentFile
  /-- `data` -/
  data : Option TorrentFile
  timerActive : Bool
  /-- Its event loop has been told to quit. -/
  quit : Bool
  /-- The argument of `torrentAddImport`. -/
  imported : Option TorrentFile
  failed : Bool
  /-- Its reply has been aborted for another thread's request while it was waiting. -/
  robbed : Bool
deriving DecidableEq, Repr

/-- A thread that has just connected. -/
def FetchThread.new (url : String) : FetchThread where
  url := url
  connected := true
  mailbox := []
  data := none
  timerActive := true
  quit := false
  imported := none
  failed := false
  robbed := false

/-- `onTorrentFileDownloaded` -/
def FetchThread.onTorrentFileDownloaded (t : FetchThread) (file : TorrentFile) : FetchThread :=
  { t with data := some file, quit := true }

/-- `getAddTorrentFile` behind its event loop. -/
def FetchThread.leave (t : FetchThread) : FetchThread :=
  let t := { t with connected := false }
  match t.data with
  | none => { t with failed := true }
  | some file =>
    if t.timerActive ∧ file.body ≠ [] then { t with imported := some file }
    else { t with failed := true }

/-- A thread keeps its url, -/
theorem FetchThread.leave_url (t : FetchThread) : t.leave.url = t.url := by
  unfold FetchThread.leave
  cases t.data with
  | none => rfl
  | some file =>
    simp only
    split_ifs <;> rfl

/-- and is connected no more. -/
theorem FetchThread.leave_connected (t : FetchThread) : t.leave.connected = false := by
  unfold FetchThread.leave
  cases t.data with
  | none => rfl
  | some file =>
    simp only
    split_ifs <;> rfl

structure Requester where
  /-- The queued calls of `getTorrentFile`, by their threads. -/
  queue : List ℕ
  torrentReply : Option TorrentReply
  threads : List FetchThread
deriving DecidableEq, Repr

/-- What may happen. -/
inductive FetchEvent
  /-- Another thread connects and queues its request. -/
  | start (url : String)
  /-- The requester comes to the next queued call. -/
  | take
  /-- The reply finishes with a status, a target if it is a redirection, and a body. -/
  | finished (statusCode : ℕ) (target : String) (body : List UInt8)
  /-- The reply finishes with an error. -/
  | error
  /-- `onTorrentFileDownloaded` of the `k`-th thread. -/
  | received (k : ℕ)
  | timeout (k : ℕ)
  /-- The event loop of the `k`-th thread returns. -/
  | leave (k : ℕ)
deriving DecidableEq, Repr

namespace Requester

def new : Requester where
  queue := []
  torrentReply := none
  threads := []

/-- The reply of a thread is aborted. -/
def abort (s : Requester) (reply : TorrentReply) : Requester :=
  { s with threads := s.threads.modify reply.owner fun t => { t with robbed := t.connected } }

/-- `getTorrentFile`; the threads ask for valid urls only. -/
def getTorrentFile (s : Requester) (owner : ℕ) (url : String) : Requester :=
  let s := match s.torrentReply with
    | none => s
    | some reply => s.abort reply
  { s with torrentReply := some ⟨owner, url, url⟩ }

/-- The signal `haveTorrentFile`. -/
def haveTorrentFile (s : Requester) (file : TorrentFile) : Requester :=
  { s with threads := s.threads.map fun t =>
    if t.connected then { t with mailbox := t.mailbox ++ [file] } else t }

/-- `onTorrentFileReqestFinished` for a reply without an error. -/
def onTorrentFileReqestFinished (s : Requester) (reply : TorrentReply) (statusCode : ℕ)
    (target : String) (body : List UInt8) : Requester :=
  if statusCode = 301 ∨ statusCode = 302 ∨ statusCode = 307 then
    { s with torrentReply := some { reply with url := target } }
  else
    let s := if statusCode = 200 then s.haveTorrentFile ⟨body, reply.owner, reply.origin⟩ else s
    { s with torrentReply := none }

/-- `onTorrentFileReqestFinished` for a reply with an error. -/
def onTorrentFileReqestError (s : Requester) (reply : TorrentReply) : Requester :=
  { s.haveTorrentFile ⟨[], reply.owner, reply.origin⟩ with torrentReply := none }

/-- What the event does, or `none` where it cannot happen. -/
def next (s : Requester) : FetchEvent → Option Requester
  | .start url =>
    some { s with
      threads := s.threads ++ [FetchThread.new url]
      queue := s.queue ++ [s.threads.length] }
  -- the queued call of the thread that asked first, from the requester's own thread
  | .take =>
    match s.queue with
    | [] => none
    | owner :: queue =>
      match s.threads[owner]? with
      | none => none
      | some t => some ({ s with queue := queue }.getTorrentFile owner t.url)
  | .finished statusCode target body =>
    s.torrentReply.map fun reply => s.onTorrentFileReqestFinished reply statusCode target body
  | .error => s.torrentReply.map fun reply => s.onTorrentFileReqestError reply
  | .received k =>
    match s.threads[k]? with
    | none => none
    | some t =>
      -- a signal reaches a thread only while it is connected
      match t.connected, t.mailbox with
      | true, file :: mailbox =>
        some { s with
          threads := s.threads.set k ({ t with mailbox := mailbox }.onTorrentFileDownloaded file) }
      | _, _ => none
  | .timeout k =>
    match s.threads[k]? with
    | none => none
    | some t =>
      -- the timer ends the thread's loop, with no file
      if t.connected ∧ t.timerActive then
        some { s with threads := s.threads.set k { t with timerActive := false, quit := true } }
      else none
  | .leave k =>
    match s.threads[k]? with
    | none => none
    | some t =>
      if t.connected ∧ t.quit then some { s with threads := s.threads.set k t.leave }
      else none

def machine : Machine Requester FetchEvent :=
  .ofFun (fun s => s = new) next

/-- A file is of the thread's own request, or at least what the server has for its url. -/
def Own (k : ℕ) (t : FetchThread) (file : TorrentFile) : Prop :=
  file.origin = t.url ∧ (file.owner = k ∨ file.body ≠ [])

/-- Nothing the thread has comes of another's request, which has not made it fail either. -/
structure ThreadSeparate (k : ℕ) (t : FetchThread) : Prop where
  data : ∀ file ∈ t.data, Own k t file
  imported : ∀ file ∈ t.imported, file.origin = t.url
  failed : t.robbed = true → t.failed = false

/-- No thread is touched by another's request. -/
def Separate (s : Requester) : Prop :=
  ∀ k t, s.threads[k]? = some t → ThreadSeparate k t

/-- **The guard.**  A thread begins its fetch while no other is connected and no request is under
    way. -/
def FetchGuard (s : Requester) : FetchEvent → Prop
  | .start _ => s.queue = [] ∧ s.torrentReply = none ∧ ∀ t ∈ s.threads, t.connected = false
  | _ => True

/-! ### One fetch at a time -/

/-- What holds of a thread while the fetches do not overlap. -/
structure ThreadAlone (k : ℕ) (t : FetchThread) : Prop where
  mailbox : ∀ file ∈ t.mailbox, file.owner = k ∧ file.origin = t.url
  data : ∀ file ∈ t.data, file.owner = k ∧ file.origin = t.url
  imported : ∀ file ∈ t.imported, file.origin = t.url
  robbed : t.robbed = false

/-- Only the last thread is connected, has a queued call or a reply under way. -/
structure Alone (s : Requester) : Prop where
  threads : ∀ k t, s.threads[k]? = some t →
    ThreadAlone k t ∧ (t.connected = true → k + 1 = s.threads.length)
  queue : s.queue = [] ∨ s.torrentReply = none ∧ ∃ owner, s.queue = [owner] ∧
    owner + 1 = s.threads.length
  reply : ∀ reply ∈ s.torrentReply, reply.owner + 1 = s.threads.length ∧
    ∀ t, s.threads[reply.owner]? = some t → reply.origin = t.url

/-! ### What an event does -/

section Inversion

variable {s s' : Requester}

/-- A queued call is one of a thread that has started. -/
theorem next_take (h : s.next .take = some s') : ∃ owner queue t, s.queue = owner :: queue ∧
    s.threads[owner]? = some t ∧
    s' = ({ s with queue := queue } : Requester).getTorrentFile owner t.url := by
  simp only [next] at h
  split at h
  · cases h
  · next owner queue hqueue =>
    split at h
    · cases h
    · next t ht => exact ⟨owner, queue, t, hqueue, ht, (Option.some.inj h).symm⟩

/-- A file is received by a thread that is connected. -/
theorem next_received {k : ℕ} (h : s.next (.received k) = some s') :
    ∃ t file mailbox, s.threads[k]? = some t ∧ t.connected = true ∧ t.mailbox = file :: mailbox ∧
      s' = { s with threads :=
        s.threads.set k ({ t with mailbox := mailbox }.onTorrentFileDownloaded file) } := by
  simp only [next] at h
  split at h
  · cases h
  · next t ht =>
    split at h
    · next file mailbox hc hmail =>
      exact ⟨t, file, mailbox, ht, hc, hmail, (Option.some.inj h).symm⟩
    · cases h

/-- A timeout tells the event loop to quit. -/
theorem next_timeout {k : ℕ} (h : s.next (.timeout k) = some s') :
    ∃ t, s.threads[k]? = some t ∧
      s' = { s with threads := s.threads.set k { t with timerActive := false, quit := true } } := by
  simp only [next] at h
  split at h
  · cases h
  · next t ht =>
    split_ifs at h
    exact ⟨t, ht, (Option.some.inj h).symm⟩

/-- The event loop returns, with a file or without. -/
theorem next_leave {k : ℕ} (h : s.next (.leave k) = some s') :
    ∃ t, s.threads[k]? = some t ∧ s' = { s with threads := s.threads.set k t.leave } := by
  simp only [next] at h
  split at h
  · cases h
  · next t ht =>
    split_ifs at h
    exact ⟨t, ht, (Option.some.inj h).symm⟩

end Inversion

section Alone

variable {s s' : Requester}

/-- Threads that are alone have nothing of another's request. -/
theorem Alone.separate (h : s.Alone) : s.Separate := by
  intro k t hk
  obtain ⟨ht, -⟩ := h.threads k t hk
  refine ⟨fun file hfile => ?_, ht.imported, fun hrobbed => ?_⟩
  · obtain ⟨howner, horigin⟩ := ht.data file hfile
    exact ⟨horigin, .inl howner⟩
  · rw [ht.robbed] at hrobbed
    cases hrobbed

/-- At the start there are no threads. -/
theorem alone_new : Requester.new.Alone where
  threads := fun k t hk => by simp [new] at hk
  queue := .inl rfl
  reply := fun reply hreply => by simp [new] at hreply

/-- A thread that begins alone is the last one. -/
theorem Alone.start (h : s.Alone) (url : String) (hguard : s.FetchGuard (.start url)) :
    ({ s with threads := s.threads ++ [FetchThread.new url]
              queue := s.queue ++ [s.threads.length] } : Requester).Alone := by
  obtain ⟨hqueue, hreply, hconnected⟩ := hguard
  refine ⟨fun k t hk => ?_, .inr ⟨hreply, s.threads.length, by simp [hqueue], by simp⟩, ?_⟩
  · rw [List.getElem?_append] at hk
    split_ifs at hk with hlt
    · refine ⟨(h.threads k t hk).1, fun hc => ?_⟩
      rw [hconnected t (List.mem_of_getElem? hk)] at hc
      cases hc
    · rw [List.getElem?_singleton] at hk
      split_ifs at hk with heq
      obtain rfl := Option.some.inj hk
      refine ⟨⟨?_, ?_, ?_, rfl⟩, fun _ => ?_⟩
      · exact fun file hfile => absurd hfile List.not_mem_nil
      · exact fun file hfile => absurd hfile (by simp [FetchThread.new])
      · exact fun file hfile => absurd hfile (by simp [FetchThread.new])
      · rw [List.length_append, List.length_singleton]
        omega
  · intro reply hr
    rw [hreply] at hr
    cases hr

/-- **One thread changes**, keeps its url and does not connect. -/
theorem Alone.set (h : s.Alone) {k : ℕ} {t t' : FetchThread} (hk : s.threads[k]? = some t)
    (hurl : t'.url = t.url) (hconnected : t'.connected = true → t.connected = true)
    (ht' : ThreadAlone k t') : ({ s with threads := s.threads.set k t' } : Requester).Alone := by
  refine ⟨fun j u hj => ?_, ?_, fun reply hr => ?_⟩
  · rw [List.getElem?_set] at hj
    rw [List.length_set]
    split_ifs at hj with hkj hlt
    · obtain rfl := Option.some.inj hj
      subst hkj
      exact ⟨ht', fun hc => (h.threads k t hk).2 (hconnected hc)⟩
    · exact h.threads j u hj
  · show _ ∨ _ ∧ ∃ owner, _ ∧ owner + 1 = (s.threads.set k t').length
    rw [List.length_set]
    exact h.queue
  · obtain ⟨hlen, horigin⟩ := h.reply reply hr
    rw [List.length_set]
    refine ⟨hlen, fun u hu => ?_⟩
    rw [List.getElem?_set] at hu
    split_ifs at hu with heq hlt
    · obtain rfl := Option.some.inj hu
      rw [hurl]
      exact horigin t (heq ▸ hk)
    · exact horigin u hu

/-- **The reply of the last thread is announced**: only this thread hears of it. -/
theorem Alone.haveTorrentFile (h : s.Alone) {reply : TorrentReply} (hr : s.torrentReply = some reply)
    (body : List UInt8) :
    ({ s.haveTorrentFile ⟨body, reply.owner, reply.origin⟩ with torrentReply := none } :
      Requester).Alone := by
  obtain ⟨hlen, horigin⟩ := h.reply reply hr
  refine ⟨fun k t hk => ?_, ?_, fun r hnone => absurd hnone (by simp)⟩
  · simp only [Requester.haveTorrentFile, List.getElem?_map, Option.map_eq_some_iff,
      List.length_map] at hk ⊢
    obtain ⟨u, hu, rfl⟩ := hk
    obtain ⟨halone, hlast⟩ := h.threads k u hu
    split_ifs with hc
    · refine ⟨⟨fun file hfile => ?_, halone.data, halone.imported, halone.robbed⟩, hlast⟩
      rcases List.mem_append.mp hfile with hfile | hfile
      · exact halone.mailbox file hfile
      · obtain rfl := List.mem_singleton.mp hfile
        have howner : reply.owner = k := by
          have := hlast hc
          omega
        exact ⟨howner, horigin u (howner ▸ hu)⟩
    · exact ⟨halone, hlast⟩
  · rcases h.queue with hqueue | ⟨hnone, -⟩
    · exact .inl hqueue
    · rw [hr] at hnone
      cases hnone

/-- The reply is done with. -/
theorem Alone.replyDone (h : s.Alone) : ({ s with torrentReply := none } : Requester).Alone where
  threads := h.threads
  queue := h.queue.imp_right fun ⟨_, howner⟩ => ⟨rfl, howner⟩
  reply := fun _ hnone => absurd hnone (by simp)

/-- A reply is redirected, or it is announced to the last thread. -/
theorem Alone.onTorrentFileReqestFinished (h : s.Alone) {reply : TorrentReply}
    (hr : s.torrentReply = some reply) (statusCode : ℕ) (target : String) (body : List UInt8) :
    (s.onTorrentFileReqestFinished reply statusCode target body).Alone := by
  unfold Requester.onTorrentFileReqestFinished
  split_ifs with hredirect hok
  · -- the reply goes on elsewhere, for the same thread
    have hqueue : s.queue = [] := h.queue.resolve_right fun ⟨hnone, _⟩ => by
      rw [hr] at hnone
      cases hnone
    refine ⟨h.threads, .inl hqueue, fun r hr' => ?_⟩
    obtain rfl := Option.some.inj hr'
    exact h.reply reply hr
  · exact h.haveTorrentFile hr body
  · exact h.replyDone

/-- The call of the last thread is the only one, and there is no reply to abort. -/
theorem Alone.take (h : s.Alone) {owner : ℕ} {queue : List ℕ} {t : FetchThread}
    (hqueue : s.queue = owner :: queue) (ht : s.threads[owner]? = some t) :
    (({ s with queue := queue } : Requester).getTorrentFile owner t.url).Alone := by
  rcases h.queue with hnil | ⟨hnone, last, hlast, hlen⟩
  · rw [hnil] at hqueue
    cases hqueue
  · rw [hqueue, List.cons.injEq] at hlast
    obtain ⟨rfl, rfl⟩ := hlast
    simp only [Requester.getTorrentFile, hnone]
    refine ⟨h.threads, .inl rfl, fun reply hr => ?_⟩
    obtain rfl := Option.some.inj hr
    refine ⟨hlen, fun u hu => ?_⟩
    rw [ht] at hu
    rw [Option.some.inj hu]

/-- The file that is imported is the one the thread has received. -/
theorem ThreadAlone.leave {k : ℕ} {t : FetchThread} (h : ThreadAlone k t) : ThreadAlone k t.leave := by
  unfold FetchThread.leave
  cases hdata : t.data with
  | none => exact ⟨h.mailbox, fun file hfile => h.data file (hdata ▸ hfile), h.imported, h.robbed⟩
  | some file =>
    have hfile := h.data file hdata
    have hall : ∀ x ∈ some file, x.owner = k ∧ x.origin = t.url := fun x hx =>
      Option.some.inj hx ▸ hfile
    simp only
    split_ifs
    · exact ⟨h.mailbox, hall, fun x hx => (hall x hx).2, h.robbed⟩
    · exact ⟨h.mailbox, hall, h.imported, h.robbed⟩

/-- **One event** of a guarded run. -/
theorem Alone.next {e : FetchEvent} (h : s.Alone) (hguard : s.FetchGuard e)
    (hnext : s.next e = some s') : s'.Alone := by
  cases e with
  | start url =>
    obtain rfl := Option.some.inj hnext
    exact h.start url hguard
  | take =>
    obtain ⟨owner, queue, t, hqueue, ht, rfl⟩ := next_take hnext
    exact h.take hqueue ht
  | finished statusCode target body =>
    obtain ⟨reply, hr, rfl⟩ := Option.map_eq_some_iff.mp hnext
    exact h.onTorrentFileReqestFinished hr statusCode target body
  | error =>
    obtain ⟨reply, hr, rfl⟩ := Option.map_eq_some_iff.mp hnext
    exact h.haveTorrentFile hr []
  | received k =>
    obtain ⟨t, file, mailbox, hk, hc, hmail, rfl⟩ := next_received hnext
    obtain ⟨halone, -⟩ := h.threads k t hk
    -- what a thread receives was in its own mailbox
    have hfile : file ∈ t.mailbox := by
      rw [hmail]
      exact List.mem_cons_self
    refine h.set hk rfl id ⟨fun x hx => ?_, fun x hx => ?_, halone.imported, halone.robbed⟩
    · exact halone.mailbox x (hmail ▸ List.mem_cons_of_mem _ hx)
    · obtain rfl := Option.some.inj hx
      exact halone.mailbox file hfile
  | timeout k =>
    obtain ⟨t, hk, rfl⟩ := next_timeout hnext
    obtain ⟨halone, -⟩ := h.threads k t hk
    exact h.set hk rfl id ⟨halone.mailbox, halone.data, halone.imported, halone.robbed⟩
  | leave k =>
    obtain ⟨t, hk, rfl⟩ := next_leave hnext
    obtain ⟨halone, -⟩ := h.threads k t hk
    refine h.set hk t.leave_url (fun hc => ?_) halone.leave
    rw [t.leave_connected] at hc
    cases hc

/-- **Every guarded run** keeps the invariant. -/
theorem alone_of_runUnder (h : machine.RunUnder (fun _ => True) FetchGuard s) : s.Alone :=
  h.invariant (fun _ hinit _ => hinit ▸ alone_new) fun _ _ _ halone hguard hstep =>
    halone.next hguard hstep

end Alone

/-! ### Overlapping fetches -/

/-- A run that goes on from here ends with a thread that is touched by another's request. -/
def GoesWrong (s : Requester) : Prop :=
  ∃ s', (machine.goingOn s).Reachable s' ∧ ¬ s'.Separate

section Overlap

variable {s s' : Requester}

/-- Calls and replies are of threads that have started. -/
structure Ok (s : Requester) : Prop where
  queue : ∀ owner ∈ s.queue, owner < s.threads.length
  reply : ∀ reply ∈ s.torrentReply, reply.owner < s.threads.length

/-- A call leaves the others queued. -/
theorem getTorrentFile_queue (owner : ℕ) (url : String) :
    (s.getTorrentFile owner url).queue = s.queue := by
  unfold getTorrentFile
  cases s.torrentReply <;> rfl

/-- The reply is now the one of the call. -/
theorem getTorrentFile_reply (owner : ℕ) (url : String) :
    (s.getTorrentFile owner url).torrentReply = some ⟨owner, url, url⟩ := rfl

/-- No thread comes or goes by it. -/
theorem getTorrentFile_length (owner : ℕ) (url : String) :
    (s.getTorrentFile owner url).threads.length = s.threads.length := by
  unfold getTorrentFile
  cases s.torrentReply with
  | none => rfl
  | some reply => exact List.length_modify _ _ _

/-- A call leaves the other threads connected. -/
theorem getTorrentFile_connected {k : ℕ} {t : FetchThread} (hk : s.threads[k]? = some t)
    (owner : ℕ) (url : String) : ∃ t', (s.getTorrentFile owner url).threads[k]? = some t' ∧
      t'.connected = t.connected := by
  unfold getTorrentFile
  cases s.torrentReply with
  | none => exact ⟨t, hk, rfl⟩
  | some reply =>
    simp only [abort, List.getElem?_modify, hk]
    split_ifs
    · exact ⟨_, rfl, rfl⟩
    · exact ⟨_, rfl, rfl⟩

/-- Nor by an announcement. -/
theorem haveTorrentFile_length (file : TorrentFile) :
    (s.haveTorrentFile file).threads.length = s.threads.length :=
  List.length_map _

/-- A redirected reply stays with its thread. -/
theorem Ok.onTorrentFileReqestFinished (h : s.Ok) {reply : TorrentReply}
    (hr : s.torrentReply = some reply) (statusCode : ℕ) (target : String) (body : List UInt8) :
    (s.onTorrentFileReqestFinished reply statusCode target body).Ok := by
  unfold Requester.onTorrentFileReqestFinished
  split_ifs with hredirect hok
  · refine ⟨h.queue, fun r hr' => ?_⟩
    obtain rfl := Option.some.inj hr'
    exact h.reply reply hr
  · refine ⟨fun owner howner => ?_, fun r hnone => absurd hnone (by simp)⟩
    exact (haveTorrentFile_length _).symm ▸ h.queue owner howner
  · exact ⟨h.queue, fun r hnone => absurd hnone (by simp)⟩

/-- A change of one thread keeps the numbers. -/
theorem Ok.set (h : s.Ok) (k : ℕ) (t : FetchThread) :
    ({ s with threads := s.threads.set k t } : Requester).Ok where
  queue := fun owner howner => by
    rw [List.length_set]
    exact h.queue owner howner
  reply := fun reply hr => by
    rw [List.length_set]
    exact h.reply reply hr

/-- **One event** of any run. -/
theorem Ok.next {e : FetchEvent} (h : s.Ok) (hnext : s.next e = some s') : s'.Ok := by
  cases e with
  | start url =>
    obtain rfl := Option.some.inj hnext
    have hlen : (s.threads ++ [FetchThread.new url]).length = s.threads.length + 1 := by simp
    refine ⟨fun owner howner => ?_, fun reply hr => ?_⟩
    · rw [hlen]
      rcases List.mem_append.mp howner with howner | howner
      · exact Nat.lt_succ_of_lt (h.queue owner howner)
      · rw [List.mem_singleton.mp howner]
        exact Nat.lt_succ_self _
    · rw [hlen]
      exact Nat.lt_succ_of_lt (h.reply reply hr)
  | take =>
    obtain ⟨owner, queue, t, hqueue, ht, rfl⟩ := next_take hnext
    -- the request that is taken belongs to a thread, and the reply keeps its owner
    have howner : owner < s.threads.length := h.queue owner (hqueue ▸ List.mem_cons_self)
    refine ⟨fun k hk => ?_, fun reply hr => ?_⟩
    · rw [getTorrentFile_queue] at hk
      rw [getTorrentFile_length]
      exact h.queue k (hqueue ▸ List.mem_cons_of_mem _ hk)
    · rw [getTorrentFile_reply] at hr
      obtain rfl := Option.some.inj hr
      rw [getTorrentFile_length]
      exact howner
  | finished statusCode target body =>
    obtain ⟨reply, hr, rfl⟩ := Option.map_eq_some_iff.mp hnext
    exact h.onTorrentFileReqestFinished hr statusCode target body
  | error =>
    obtain ⟨reply, hr, rfl⟩ := Option.map_eq_some_iff.mp hnext
    refine ⟨fun owner howner => ?_, fun r hnone => absurd hnone (by simp [onTorrentFileReqestError])⟩
    exact (haveTorrentFile_length _).symm ▸ h.queue owner howner
  | received k =>
    obtain ⟨t, file, mailbox, -, -, -, rfl⟩ := next_received hnext
    exact h.set k _
  | timeout k =>
    obtain ⟨t, -, rfl⟩ := next_timeout hnext
    exact h.set k _
  | leave k =>
    obtain ⟨t, -, rfl⟩ := next_leave hnext
    exact h.set k _

/-- **Every run** keeps the invariant. -/
theorem ok_of_reachable (h : machine.Reachable s) : s.Ok := by
  refine h.invariant ?_ fun s e s' hok hstep => hok.next hstep
  rintro s rfl
  exact ⟨fun _ h => absurd h List.not_mem_nil, fun _ h => absurd h (by simp [new])⟩

/-- What can go wrong behind a step can go wrong before it. -/
theorem GoesWrong.of_next {e : FetchEvent} (h : s'.GoesWrong) (hnext : s.next e = some s') :
    s.GoesWrong := by
  obtain ⟨s'', hreach, hwrong⟩ := h
  have hs' : (machine.goingOn s).Reachable s' :=
    Machine.Reachable.next (Machine.Reachable.start rfl) (e := e) hnext
  exact ⟨s'', hs'.trans hreach, hwrong⟩

/-- **A foreign file in the mailbox** of a thread that is connected comes to be its data. -/
theorem goesWrong_of_mailbox {k : ℕ} {t : FetchThread} {file : TorrentFile}
    (hk : s.threads[k]? = some t) (hc : t.connected = true) (hfile : file ∈ t.mailbox)
    (hforeign : ¬ Own k t file) : s.GoesWrong := by
  obtain ⟨mailbox, hmail⟩ : ∃ mailbox, t.mailbox = mailbox := ⟨_, rfl⟩
  induction mailbox generalizing s t with
  | nil =>
    rw [hmail] at hfile
    cases hfile
  | cons head mailbox ih =>
    have hlt : k < s.threads.length := (List.getElem?_eq_some_iff.mp hk).1
    have hnext : s.next (.received k) = some { s with
        threads := s.threads.set k
          ({ t with mailbox := mailbox }.onTorrentFileDownloaded head) } := by
      simp only [next, hk, hc, hmail]
    refine GoesWrong.of_next ?_ hnext
    rw [hmail] at hfile
    rcases List.mem_cons.mp hfile with rfl | hfile
    · refine ⟨_, Machine.Reachable.start rfl, fun hsep => hforeign ?_⟩
      exact (hsep k _ (List.getElem?_set_self hlt)).data file rfl
    · exact ih (List.getElem?_set_self hlt) hc hfile hforeign rfl

/-- **A reply of another thread** may fail, and is announced as an empty file. -/
theorem goesWrong_of_reply {reply : TorrentReply} {k : ℕ} {t : FetchThread}
    (hr : s.torrentReply = some reply) (hk : s.threads[k]? = some t) (hc : t.connected = true)
    (hne : reply.owner ≠ k) : s.GoesWrong := by
  have hnext : s.next .error = some (s.onTorrentFileReqestError reply) := by
    simp only [next, hr, Option.map_some]
  refine GoesWrong.of_next ?_ hnext
  have hk' : (s.onTorrentFileReqestError reply).threads[k]? =
      some { t with mailbox := t.mailbox ++ [⟨[], reply.owner, reply.origin⟩] } := by
    simp [onTorrentFileReqestError, haveTorrentFile, hk, hc]
  refine goesWrong_of_mailbox hk' hc (List.mem_append_right _ List.mem_cons_self) ?_
  rintro ⟨-, howner | hbody⟩
  · exact hne howner
  · exact hbody rfl

/-- **A call of another thread** comes next. -/
theorem goesWrong_of_queue (hok : s.Ok) {owner k : ℕ} {queue : List ℕ} {t : FetchThread}
    (hqueue : s.queue = owner :: queue) (hk : s.threads[k]? = some t) (hc : t.connected = true)
    (hne : owner ≠ k) : s.GoesWrong := by
  have hlt : owner < s.threads.length := hok.queue owner (hqueue ▸ List.mem_cons_self)
  have hnext : s.next .take = some
      (({ s with queue := queue } : Requester).getTorrentFile owner s.threads[owner].url) := by
    simp only [next, hqueue, List.getElem?_eq_getElem hlt]
  refine GoesWrong.of_next ?_ hnext
  obtain ⟨t', hk', hc'⟩ := getTorrentFile_connected (s := { s with queue := queue }) hk owner
    s.threads[owner].url
  exact goesWrong_of_reply (getTorrentFile_reply owner _) hk' (hc'.trans hc) hne

/-- **A fetch that overlaps** with another one can go wrong. -/
theorem goesWrong_of_start (hok : s.Ok) {url : String} (hguard : ¬ s.FetchGuard (.start url))
    (hnext : s.next (.start url) = some s') : s'.GoesWrong := by
  have hok' : s'.Ok := hok.next hnext
  have hs' := Option.some.inj hnext
  have hqueue' : s'.queue = s.queue ++ [s.threads.length] := by rw [← hs']
  have hr' : s'.torrentReply = s.torrentReply := by rw [← hs']
  have hthreads' : s'.threads = s.threads ++ [FetchThread.new url] := by rw [← hs']
  have hnew : s'.threads[s.threads.length]? = some (FetchThread.new url) := by
    rw [hthreads']
    exact List.getElem?_concat_length
  cases hqueue : s.queue with
  | cons owner queue =>
    have hne : owner ≠ s.threads.length :=
      Nat.ne_of_lt (hok.queue owner (hqueue ▸ List.mem_cons_self))
    rw [hqueue, List.cons_append] at hqueue'
    exact goesWrong_of_queue hok' hqueue' hnew rfl hne
  | nil =>
    cases hr : s.torrentReply with
    | some reply =>
      exact goesWrong_of_reply (hr'.trans hr) hnew rfl (Nat.ne_of_lt (hok.reply reply hr))
    | none =>
      -- the new thread's own call is next, and another thread hears of its reply
      obtain ⟨t, ht, hc⟩ : ∃ t ∈ s.threads, t.connected = true := by
        by_contra hnot
        refine hguard ⟨hqueue, hr, fun t ht => ?_⟩
        rw [← Bool.not_eq_true]
        exact fun hc => hnot ⟨t, ht, hc⟩
      obtain ⟨k, hk⟩ := List.mem_iff_getElem?.mp ht
      have hlt : k < s.threads.length := (List.getElem?_eq_some_iff.mp hk).1
      have hk' : s'.threads[k]? = some t := by
        rw [hthreads']
        exact (List.getElem?_append_left hlt).trans hk
      rw [hqueue, List.nil_append] at hqueue'
      exact goesWrong_of_queue hok' hqueue' hk' hc (Nat.ne_of_gt hlt)

end Overlap

/-- **Separate fetches.**  While every thread begins its fetch alone, a thread imports only what the
    server has for its own url and is handed nothing of another's request; a thread that begins
    otherwise can make it go wrong. -/
theorem separate_of_guard (s : Requester) :
    (machine.RunUnder (fun _ => True) FetchGuard s → s.Separate) ∧
    ∀ url s', machine.Reachable s → s.next (.start url) = some s' →
      ¬ s.FetchGuard (.start url) → s'.GoesWrong :=
  ⟨fun h => (alone_of_runUnder h).separate, fun _ _ hreach hnext hguard =>
    goesWrong_of_start (ok_of_reachable hreach) hguard hnext⟩

/-- The second thread imports what the server has for the url of the first, and a reply that is
    aborted for the second thread's request leaves the first one to its timeout. -/
theorem imports_foreign :
    (∃ s, machine.Reachable s ∧
      s.threads.map (fun t => (t.url, t.imported)) =
        [("http://a/", some ⟨[100], 0, "http://a/"⟩), ("http://b/", some ⟨[100], 0, "http://a/"⟩)] ∧
      ¬ s.Separate) ∧
    ∃ s, machine.Reachable s ∧ s.threads.map (fun t => (t.robbed, t.failed)) =
      [(true, true), (false, false)] ∧ ¬ s.Separate := by
  constructor
  · have hrun : (Machine.runEvents next new
        -- the second import starts before the reply to the first is there: one reply wakes both
        [.start "http://a/", .take, .start "http://b/", .finished 200 "" [100],
          .received 0, .received 1, .leave 0, .leave 1]).map
          (fun s => s.threads.map fun t => (t.url, t.imported)) =
        some [("http://a/", some ⟨[100], 0, "http://a/"⟩),
          ("http://b/", some ⟨[100], 0, "http://a/"⟩)] := by
      decide
    obtain ⟨s, hreach, heq⟩ := Machine.Reachable.exists_of_runEvents
      (show machine.Reachable _ from .start rfl) hrun
    refine ⟨s, hreach, heq, fun hsep => ?_⟩
    obtain ⟨t₀, rest, hthreads, -, hrest⟩ := List.map_eq_cons_iff.mp heq
    obtain ⟨t, rest', rfl, ht, -⟩ := List.map_eq_cons_iff.mp hrest
    rw [Prod.mk.injEq] at ht
    have hk : s.threads[1]? = some t := by
      rw [hthreads]
      rfl
    have horigin := (hsep 1 t hk).imported _ ht.2
    rw [ht.1] at horigin
    exact absurd horigin (by decide)
  · have hrun : (Machine.runEvents next new
        -- the second request takes the reply's place, so the first import times out
        [.start "http://a/", .take, .start "http://b/", .take, .timeout 0, .leave 0]).map
          (fun s => s.threads.map fun t => (t.robbed, t.failed)) =
        some [(true, true), (false, false)] := by
      decide
    obtain ⟨s, hreach, heq⟩ := Machine.Reachable.exists_of_runEvents
      (show machine.Reachable _ from .start rfl) hrun
    refine ⟨s, hreach, heq, fun hsep => ?_⟩
    obtain ⟨t, rest, hthreads, ht, -⟩ := List.map_eq_cons_iff.mp heq
    rw [Prod.mk.injEq] at ht
    have hk : s.threads[0]? = some t := by
      rw [hthreads]
      rfl
    have hfailed := (hsep 0 t hk).failed ht.1
    rw [ht.2] at hfailed
    cases hfailed

end Requester

end PopcornTime.Desktop
