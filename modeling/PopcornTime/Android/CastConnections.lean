import Mathlib.Data.Finset.Erase
import Mathlib.Data.Finset.Insert
import Mathlib.Tactic.SplitIfs
import PopcornTime.Lib.Machine

namespace PopcornTime.Android

open PopcornTime

/-!
# Android — the connections of the cast server

The server runs in threads: a main listener that accepts connections, a thread for each of them, and
whoever stops the server.  What is `synchronized` is one step, and so is each call of a socket.

* `NanoHTTPD.next` — the steps of the threads, in any order.
* `NanoHTTPD.Inv` — which connections are registered, and who may still close one.
* `NanoHTTPD.stop_closes` — when `stop` leaves no connection open, and that it leaves one at most.
-/

namespace NanoHTTPD

/-- Where the thread of a connection is. -/
inductive RequestProcessor
  | notStarted
  | serving
  /-- Its streams and its socket are closed. -/
  | closing
  | ended
deriving DecidableEq, Repr

/-- Where the main listener is. -/
inductive MainListener
  | accepting
  | registering (socket : ℕ)
  /-- At `setSoTimeout` and `getInputStream`. -/
  | starting (socket : ℕ)
  | executing (socket : ℕ)
  | looping
  | ended
deriving DecidableEq, Repr

/-- Where the caller of `stop` is. -/
inductive Stop
  | notCalled
  | closing
  | joining
  | returned
deriving DecidableEq, Repr

/-- The server.  Sockets are told by how many were accepted before them. -/
structure Server where
  isClosed : Bool
  accepted : ℕ
  isClosedSocket : ℕ → Bool
  processor : ℕ → RequestProcessor
  openConnections : Finset ℕ
  listener : MainListener
  stop : Stop

inductive Event
  | accept
  | acceptFails
  | registerConnection
  | start
  | startFails
  | exec
  | loop
  | close (socket : ℕ)
  | unRegisterConnection (socket : ℕ)
  | closeServer
  | closeAllConnections
  | join
deriving DecidableEq, Repr

/-- A server that has been started. -/
def Server.start : Server where
  isClosed := false
  accepted := 0
  isClosedSocket _ := false
  processor _ := .notStarted
  openConnections := ∅
  listener := .accepting
  stop := .notCalled

/-- A step of one of the threads; `none` where it is not at this step. -/
def next (s : Server) : Event → Option Server
  | .accept =>
    if s.listener = .accepting ∧ s.isClosed = false then
      some { s with accepted := s.accepted + 1, listener := .registering s.accepted }
    else none
  | .acceptFails =>
    if s.listener = .accepting then some { s with listener := .looping } else none
  | .registerConnection =>
    match s.listener with
    | .registering socket => some { s with
        openConnections := insert socket s.openConnections
        listener := .starting socket }
    | _ => none
  | .start =>
    match s.listener with
    | .starting socket =>
      if s.isClosedSocket socket then none else some { s with listener := .executing socket }
    | _ => none
  | .startFails =>
    match s.listener with
    -- the connection stays registered, and no thread will close it
    | .starting _ => some { s with listener := .looping }
    | _ => none
  | .exec =>
    match s.listener with
    | .executing socket => some { s with
        processor := Function.update s.processor socket .serving
        listener := .looping }
    | _ => none
  | .loop =>
    if s.listener = .looping then
      some { s with listener := if s.isClosed then .ended else .accepting }
    else none
  | .close socket =>
    if s.processor socket = .serving then some { s with
      isClosedSocket := Function.update s.isClosedSocket socket true
      processor := Function.update s.processor socket .closing }
    else none
  | .unRegisterConnection socket =>
    if s.processor socket = .closing then some { s with
      openConnections := s.openConnections.erase socket
      processor := Function.update s.processor socket .ended }
    else none
  | .closeServer =>
    if s.stop = .notCalled then some { s with isClosed := true, stop := .closing } else none
  | .closeAllConnections =>
    if s.stop = .closing then some { s with
      isClosedSocket := fun socket =>
        if socket ∈ s.openConnections then true else s.isClosedSocket socket
      stop := .joining }
    else none
  | .join =>
    if s.stop = .joining ∧ s.listener = .ended then some { s with stop := .returned } else none

def machine : Machine Server Event :=
  .ofFun (fun s => s = Server.start) next

/-! ### What is kept -/

/-- The connection that the listener has in hand. -/
def MainListener.socket? : MainListener → Option ℕ
  | .registering socket | .starting socket | .executing socket => some socket
  | _ => none

/-- `closeAllConnections` has been called. -/
def Stop.IsPast (stop : Stop) : Prop := stop = .joining ∨ stop = .returned

/-- What holds between the steps of the threads. -/
structure Inv (s : Server) : Prop where
  registered : ∀ n, n ∈ s.openConnections ↔
    n < s.accepted ∧ s.listener ≠ .registering n ∧ s.processor n ≠ .ended
  inHand : ∀ n, s.listener.socket? = some n → n + 1 = s.accepted ∧ s.processor n = .notStarted
  accepted : ∀ n, s.processor n ≠ .notStarted → n < s.accepted
  closed : ∀ n, s.processor n = .closing ∨ s.processor n = .ended → s.isClosedSocket n = true
  unregistered : ∀ n, s.isClosedSocket n = true → n < s.accepted ∧ s.listener ≠ .registering n
  stopped : s.stop ≠ .notCalled → s.isClosed = true
  past : s.stop.IsPast → ∀ n < s.accepted, s.isClosedSocket n = false → n + 1 = s.accepted
  joined : s.stop = .returned → s.listener = .ended

variable {s s' : Server}

theorem Inv.start : Inv .start where
  registered n := by simp [Server.start]
  inHand n h := by simp [Server.start, MainListener.socket?] at h
  accepted n h := absurd rfl h
  closed n h := by simp [Server.start] at h
  unregistered n h := by simp [Server.start] at h
  stopped h := absurd rfl h
  past h := by simp [Server.start, Stop.IsPast] at h
  joined h := by simp [Server.start] at h

/-- Before the listener has ended, `stop` has not returned. -/
theorem Inv.not_returned (h : Inv s) (hlistener : s.listener ≠ .ended) : s.stop ≠ .returned :=
  fun hreturned => hlistener (h.joined hreturned)

/-- A connection in hand is being served by no one. -/
theorem Inv.ne_of_started (h : Inv s) {n m : ℕ} (hn : s.processor n ≠ .notStarted)
    (hm : s.listener.socket? = some m) : m ≠ n := by
  rintro rfl
  exact hn (h.inHand m hm).2

/-- The listener goes on with the connection that it has in hand, or without one. -/
theorem Inv.setListener (h : Inv s) {listener : MainListener}
    (hbefore : ∀ n, s.listener ≠ .registering n) (hafter : ∀ n, listener ≠ .registering n)
    (hsocket : ∀ n, listener.socket? = some n → s.listener.socket? = some n)
    (hended : s.listener ≠ .ended) : Inv { s with listener := listener } := by
  refine ⟨?_, ?_, h.accepted, h.closed, ?_, h.stopped, h.past, ?_⟩
  · intro n
    rw [h.registered n]
    exact ⟨fun ⟨hn, _, hp⟩ => ⟨hn, hafter n, hp⟩, fun ⟨hn, _, hp⟩ => ⟨hn, hbefore n, hp⟩⟩
  · exact fun n hn => h.inHand n (hsocket n hn)
  · exact fun n hn => ⟨(h.unregistered n hn).1, hafter n⟩
  · exact fun hreturned => absurd hreturned (h.not_returned hended)

theorem Inv.accept (h : Inv s) (hlistener : s.listener = .accepting) (hopen : s.isClosed = false) :
    Inv { s with accepted := s.accepted + 1, listener := .registering s.accepted } := by
  have hstop : s.stop = .notCalled := by
    by_contra hcalled
    exact absurd (hopen.symm.trans (h.stopped hcalled)) Bool.false_ne_true
  have hfresh : s.processor s.accepted = .notStarted := by
    by_contra hstarted
    exact absurd (h.accepted _ hstarted) (lt_irrefl _)
  refine ⟨?_, ?_, ?_, h.closed, ?_, h.stopped, ?_, ?_⟩
  · intro n
    rw [h.registered n, hlistener]
    constructor
    · rintro ⟨hn, -, hp⟩
      refine ⟨Nat.lt_succ_of_lt hn, ?_, hp⟩
      rintro ⟨⟩
      exact absurd hn (lt_irrefl _)
    · rintro ⟨hn, hne, hp⟩
      have hother : n ≠ s.accepted := fun heq => hne (by rw [heq])
      exact ⟨lt_of_le_of_ne (Nat.lt_succ_iff.mp hn) hother, nofun, hp⟩
  · rintro n ⟨⟩
    exact ⟨rfl, hfresh⟩
  · exact fun n hn => Nat.lt_succ_of_lt (h.accepted n hn)
  · intro n hn
    obtain ⟨hlt, -⟩ := h.unregistered n hn
    refine ⟨Nat.lt_succ_of_lt hlt, ?_⟩
    rintro ⟨⟩
    exact absurd hlt (lt_irrefl _)
  · intro hpast
    change s.stop.IsPast at hpast
    rw [hstop] at hpast
    exact absurd hpast (by simp [Stop.IsPast])
  · intro hreturned
    exact absurd (hstop.symm.trans hreturned) (by decide)

theorem Inv.registerConnection (h : Inv s) {socket : ℕ} (hlistener : s.listener = .registering socket) :
    Inv { s with
      openConnections := insert socket s.openConnections
      listener := .starting socket } := by
  have hhand : s.listener.socket? = some socket := by rw [hlistener]; rfl
  obtain ⟨hlast, hfresh⟩ := h.inHand socket hhand
  refine ⟨?_, ?_, h.accepted, h.closed, ?_, h.stopped, h.past, ?_⟩
  · intro n
    change n ∈ insert socket s.openConnections ↔
      n < s.accepted ∧ MainListener.starting socket ≠ .registering n ∧ s.processor n ≠ .ended
    rw [Finset.mem_insert, h.registered n, hlistener]
    constructor
    · rintro (rfl | ⟨hn, -, hp⟩)
      · exact ⟨by omega, nofun, by rw [hfresh]; nofun⟩
      · exact ⟨hn, nofun, hp⟩
    · rintro ⟨hn, -, hp⟩
      by_cases heq : n = socket
      · exact .inl heq
      · refine .inr ⟨hn, ?_, hp⟩
        rintro ⟨⟩
        exact heq rfl
  · rintro n ⟨⟩
    exact ⟨hlast, hfresh⟩
  · exact fun n hn => ⟨(h.unregistered n hn).1, nofun⟩
  · exact fun hreturned => absurd hreturned (h.not_returned (by rw [hlistener]; nofun))

theorem Inv.exec (h : Inv s) {socket : ℕ} (hlistener : s.listener = .executing socket) :
    Inv { s with
      processor := Function.update s.processor socket .serving
      listener := .looping } := by
  have hhand : s.listener.socket? = some socket := by rw [hlistener]; rfl
  obtain ⟨hlast, hfresh⟩ := h.inHand socket hhand
  refine ⟨?_, nofun, ?_, ?_, ?_, h.stopped, h.past, ?_⟩
  · intro n
    change n ∈ s.openConnections ↔ n < s.accepted ∧ MainListener.looping ≠ .registering n ∧
      Function.update s.processor socket .serving n ≠ .ended
    rw [h.registered n, hlistener]
    by_cases heq : n = socket
    · subst heq
      rw [Function.update_self, hfresh]
      exact ⟨fun ⟨hn, _, _⟩ => ⟨hn, nofun, nofun⟩, fun ⟨hn, _, _⟩ => ⟨hn, nofun, nofun⟩⟩
    · rw [Function.update_of_ne heq]
      exact ⟨fun ⟨hn, _, hp⟩ => ⟨hn, nofun, hp⟩, fun ⟨hn, _, hp⟩ => ⟨hn, nofun, hp⟩⟩
  · intro n hn
    change Function.update s.processor socket .serving n ≠ .notStarted at hn
    by_cases heq : n = socket
    · show n < s.accepted
      omega
    · rw [Function.update_of_ne heq] at hn
      exact h.accepted n hn
  · intro n hn
    change Function.update s.processor socket .serving n = _ ∨
      Function.update s.processor socket .serving n = _ at hn
    by_cases heq : n = socket
    · rw [heq, Function.update_self] at hn
      exact absurd hn (by decide)
    · rw [Function.update_of_ne heq] at hn
      exact h.closed n hn
  · exact fun n hn => ⟨(h.unregistered n hn).1, nofun⟩
  · exact fun hreturned => absurd hreturned (h.not_returned (by rw [hlistener]; nofun))

theorem Inv.close (h : Inv s) {socket : ℕ} (hserving : s.processor socket = .serving) :
    Inv { s with
      isClosedSocket := Function.update s.isClosedSocket socket true
      processor := Function.update s.processor socket .closing } := by
  have hstarted : s.processor socket ≠ .notStarted := by rw [hserving]; nofun
  refine ⟨?_, ?_, ?_, ?_, ?_, h.stopped, ?_, h.joined⟩
  · intro n
    -- the connection stays registered until its thread takes it out
    change n ∈ s.openConnections ↔ n < s.accepted ∧ s.listener ≠ .registering n ∧
      Function.update s.processor socket .closing n ≠ .ended
    rw [h.registered n]
    by_cases heq : n = socket
    · subst heq
      rw [Function.update_self, hserving]
      exact ⟨fun ⟨hn, hl, _⟩ => ⟨hn, hl, nofun⟩, fun ⟨hn, hl, _⟩ => ⟨hn, hl, nofun⟩⟩
    · rw [Function.update_of_ne heq]
  · intro n hn
    show n + 1 = s.accepted ∧ Function.update s.processor socket .closing n = .notStarted
    rw [Function.update_of_ne (h.ne_of_started hstarted hn)]
    exact h.inHand n hn
  · intro n hn
    change Function.update s.processor socket .closing n ≠ .notStarted at hn
    by_cases heq : n = socket
    · rw [heq]
      exact h.accepted socket hstarted
    · rw [Function.update_of_ne heq] at hn
      exact h.accepted n hn
  · intro n hn
    show Function.update s.isClosedSocket socket true n = true
    change Function.update s.processor socket .closing n = _ ∨
      Function.update s.processor socket .closing n = _ at hn
    by_cases heq : n = socket
    · rw [heq, Function.update_self]
    · rw [Function.update_of_ne heq] at hn ⊢
      exact h.closed n hn
  · intro n hn
    change Function.update s.isClosedSocket socket true n = true at hn
    by_cases heq : n = socket
    · subst heq
      refine ⟨h.accepted n hstarted, fun hlistener => ?_⟩
      -- a socket in the listener's hand has no thread yet, so it is not the one that closes
      have hhand : s.listener.socket? = some n := by rw [hlistener]; rfl
      exact h.ne_of_started hstarted hhand rfl
    · rw [Function.update_of_ne heq] at hn
      exact h.unregistered n hn
  · intro hpast n hn hstays
    change Function.update s.isClosedSocket socket true n = false at hstays
    have heq : n ≠ socket := by
      rintro rfl
      rw [Function.update_self] at hstays
      exact Bool.noConfusion hstays
    rw [Function.update_of_ne heq] at hstays
    exact h.past hpast n hn hstays

theorem Inv.unRegisterConnection (h : Inv s) {socket : ℕ} (hclosing : s.processor socket = .closing) :
    Inv { s with
      openConnections := s.openConnections.erase socket
      processor := Function.update s.processor socket .ended } := by
  have hstarted : s.processor socket ≠ .notStarted := by rw [hclosing]; nofun
  refine ⟨?_, ?_, ?_, ?_, h.unregistered, h.stopped, h.past, h.joined⟩
  · intro n
    change n ∈ s.openConnections.erase socket ↔ n < s.accepted ∧ s.listener ≠ .registering n ∧
      Function.update s.processor socket .ended n ≠ .ended
    -- the ended connection is the one that leaves the set
    rw [Finset.mem_erase, h.registered n]
    by_cases heq : n = socket
    · subst heq
      rw [Function.update_self]
      exact ⟨fun ⟨hne, _⟩ => absurd rfl hne, fun ⟨_, _, hne⟩ => absurd rfl hne⟩
    · rw [Function.update_of_ne heq]
      exact ⟨And.right, fun hn => ⟨heq, hn⟩⟩
  · intro n hn
    show n + 1 = s.accepted ∧ Function.update s.processor socket .ended n = .notStarted
    rw [Function.update_of_ne (h.ne_of_started hstarted hn)]
    exact h.inHand n hn
  · intro n hn
    change Function.update s.processor socket .ended n ≠ .notStarted at hn
    by_cases heq : n = socket
    · rw [heq]
      exact h.accepted socket hstarted
    · rw [Function.update_of_ne heq] at hn
      exact h.accepted n hn
  · intro n hn
    change Function.update s.processor socket .ended n = _ ∨
      Function.update s.processor socket .ended n = _ at hn
    by_cases heq : n = socket
    · rw [heq]
      exact h.closed socket (.inl hclosing)
    · rw [Function.update_of_ne heq] at hn
      exact h.closed n hn

/-- Behind `closeAllConnections` only a connection that is not registered yet is open. -/
theorem Inv.isClosedSocket_of_registered (h : Inv s) {n : ℕ} (hn : n < s.accepted)
    (hregistering : s.listener ≠ .registering n) :
    (if n ∈ s.openConnections then true else s.isClosedSocket n) = true := by
  by_cases hmem : n ∈ s.openConnections
  · exact if_pos hmem
  · rw [if_neg hmem]
    have hended : s.processor n = .ended := by
      by_contra hne
      exact hmem ((h.registered n).mpr ⟨hn, hregistering, hne⟩)
    exact h.closed n (.inr hended)

theorem Inv.closeAllConnections (h : Inv s) (hclosing : s.stop = .closing) :
    Inv { s with
      isClosedSocket := fun socket =>
        if socket ∈ s.openConnections then true else s.isClosedSocket socket
      stop := .joining } := by
  have hclosed : s.isClosed = true := h.stopped (by rw [hclosing]; nofun)
  refine ⟨h.registered, h.inHand, h.accepted, ?_, ?_, fun _ => hclosed, ?_, nofun⟩
  · intro n hn
    show (if n ∈ s.openConnections then true else s.isClosedSocket n) = true
    split_ifs
    · rfl
    · exact h.closed n hn
  · intro n hn
    change (if n ∈ s.openConnections then true else s.isClosedSocket n) = true at hn
    by_cases hmem : n ∈ s.openConnections
    · obtain ⟨hlt, hregistering, -⟩ := (h.registered n).mp hmem
      exact ⟨hlt, hregistering⟩
    · rw [if_neg hmem] at hn
      exact h.unregistered n hn
  · intro _ n hn hstays
    by_contra hother
    -- any accepted socket but the last is registered, and so it was closed
    have hregistering : s.listener ≠ .registering n := by
      intro hlistener
      exact hother (h.inHand n (by rw [hlistener]; rfl)).1
    exact absurd (hstays.symm.trans (h.isClosedSocket_of_registered hn hregistering))
      Bool.false_ne_true

/-- **What every step keeps.** -/
theorem Inv.next (h : Inv s) {e : Event} (hstep : next s e = some s') : Inv s' := by
  cases e with
  | accept =>
    obtain ⟨⟨hlistener, hopen⟩, rfl⟩ := Machine.of_ite_eq_some hstep
    exact h.accept hlistener hopen
  | acceptFails =>
    obtain ⟨hlistener, rfl⟩ := Machine.of_ite_eq_some hstep
    exact h.setListener (fun n => by rw [hlistener]; nofun) nofun nofun (by rw [hlistener]; nofun)
  | registerConnection =>
    cases hlistener : s.listener with
    | registering socket =>
      rw [NanoHTTPD.next, hlistener] at hstep
      obtain rfl := Option.some.inj hstep
      exact h.registerConnection hlistener
    | _ => simp [NanoHTTPD.next, hlistener] at hstep
  | start =>
    cases hlistener : s.listener with
    | starting socket =>
      rw [NanoHTTPD.next, hlistener] at hstep
      obtain ⟨-, hsome⟩ := Option.ite_none_left_eq_some.mp hstep
      obtain rfl := Option.some.inj hsome
      exact h.setListener (fun n => by rw [hlistener]; nofun) nofun
        (fun n hn => by rw [hlistener]; exact hn) (by rw [hlistener]; nofun)
    | _ => simp [NanoHTTPD.next, hlistener] at hstep
  | startFails =>
    cases hlistener : s.listener with
    | starting socket =>
      rw [NanoHTTPD.next, hlistener] at hstep
      obtain rfl := Option.some.inj hstep
      exact h.setListener (fun n => by rw [hlistener]; nofun) nofun nofun
        (by rw [hlistener]; nofun)
    | _ => simp [NanoHTTPD.next, hlistener] at hstep
  | exec =>
    cases hlistener : s.listener with
    | executing socket =>
      rw [NanoHTTPD.next, hlistener] at hstep
      obtain rfl := Option.some.inj hstep
      exact h.exec hlistener
    | _ => simp [NanoHTTPD.next, hlistener] at hstep
  | loop =>
    obtain ⟨hlistener, rfl⟩ := Machine.of_ite_eq_some hstep
    -- the loop ends or accepts again: either way no socket is in hand
    refine h.setListener (fun n => by rw [hlistener]; nofun) ?_ ?_ (by rw [hlistener]; nofun)
    · intro n
      split_ifs
      · exact nofun
      · exact nofun
    · intro n
      split_ifs
      · exact nofun
      · exact nofun
  | close socket =>
    obtain ⟨hserving, rfl⟩ := Machine.of_ite_eq_some hstep
    exact h.close hserving
  | unRegisterConnection socket =>
    obtain ⟨hclosing, rfl⟩ := Machine.of_ite_eq_some hstep
    exact h.unRegisterConnection hclosing
  | closeServer =>
    obtain ⟨-, rfl⟩ := Machine.of_ite_eq_some hstep
    -- from here on the server's socket is closed, and nothing else has changed
    exact ⟨h.registered, h.inHand, h.accepted, h.closed, h.unregistered, fun _ => rfl,
      fun hpast => absurd hpast (by simp [Stop.IsPast]), nofun⟩
  | closeAllConnections =>
    obtain ⟨hclosing, rfl⟩ := Machine.of_ite_eq_some hstep
    exact h.closeAllConnections hclosing
  | join =>
    obtain ⟨⟨hjoining, hended⟩, rfl⟩ := Machine.of_ite_eq_some hstep
    -- `stop` has closed the server before it joins the listener
    have hclosed : s.isClosed = true := h.stopped (by rw [hjoining]; nofun)
    exact ⟨h.registered, h.inHand, h.accepted, h.closed, h.unregistered, fun _ => hclosed,
      fun _ => h.past (.inl hjoining), fun _ => hended⟩

/-! ### Stopping -/

theorem machine_inv (h : machine.Reachable s) : Inv s := by
  refine h.invariant ?_ fun s e s' hinv hstep => hinv.next hstep
  rintro s rfl
  exact Inv.start

/-- What cannot come back: once the server socket is closed no connection is accepted, and a
    connection that is closed stays so. -/
structure Stays (s s' : Server) : Prop where
  isClosed : s'.isClosed = true
  accepted : s'.accepted = s.accepted
  isClosedSocket : ∀ n, s.isClosedSocket n = true → s'.isClosedSocket n = true

theorem stays_of_next {e : Event} (hstep : next s e = some s') (hclosed : s.isClosed = true) :
    Stays s s' := by
  cases e with
  | accept =>
    obtain ⟨⟨-, hopen⟩, -⟩ := Machine.of_ite_eq_some hstep
    -- a closed server accepts nothing: no connection is added
    exact absurd (hopen.symm.trans hclosed) Bool.false_ne_true
  | acceptFails =>
    obtain ⟨-, rfl⟩ := Machine.of_ite_eq_some hstep
    exact ⟨hclosed, rfl, fun _ => id⟩
  | registerConnection =>
    cases hlistener : s.listener with
    | registering socket =>
      rw [next, hlistener] at hstep
      obtain rfl := Option.some.inj hstep
      exact ⟨hclosed, rfl, fun _ => id⟩
    | _ => simp [next, hlistener] at hstep
  | start =>
    cases hlistener : s.listener with
    | starting socket =>
      rw [next, hlistener] at hstep
      obtain ⟨-, hsome⟩ := Option.ite_none_left_eq_some.mp hstep
      obtain rfl := Option.some.inj hsome
      exact ⟨hclosed, rfl, fun _ => id⟩
    | _ => simp [next, hlistener] at hstep
  | startFails =>
    cases hlistener : s.listener with
    | starting socket =>
      rw [next, hlistener] at hstep
      obtain rfl := Option.some.inj hstep
      exact ⟨hclosed, rfl, fun _ => id⟩
    | _ => simp [next, hlistener] at hstep
  | exec =>
    cases hlistener : s.listener with
    | executing socket =>
      rw [next, hlistener] at hstep
      obtain rfl := Option.some.inj hstep
      exact ⟨hclosed, rfl, fun _ => id⟩
    | _ => simp [next, hlistener] at hstep
  | loop =>
    obtain ⟨-, rfl⟩ := Machine.of_ite_eq_some hstep
    exact ⟨hclosed, rfl, fun _ => id⟩
  | close socket =>
    obtain ⟨-, rfl⟩ := Machine.of_ite_eq_some hstep
    refine ⟨hclosed, rfl, fun n hn => ?_⟩
    show Function.update s.isClosedSocket socket true n = true
    by_cases heq : n = socket
    · rw [heq, Function.update_self]
    · rw [Function.update_of_ne heq]
      exact hn
  | unRegisterConnection socket =>
    obtain ⟨-, rfl⟩ := Machine.of_ite_eq_some hstep
    exact ⟨hclosed, rfl, fun _ => id⟩
  | closeServer =>
    obtain ⟨-, rfl⟩ := Machine.of_ite_eq_some hstep
    exact ⟨rfl, rfl, fun _ => id⟩
  | closeAllConnections =>
    obtain ⟨-, rfl⟩ := Machine.of_ite_eq_some hstep
    refine ⟨hclosed, rfl, fun n hn => ?_⟩
    show (if n ∈ s.openConnections then true else s.isClosedSocket n) = true
    -- a socket that was closed already is closed once more
    rw [hn, ite_self]
  | join =>
    obtain ⟨-, rfl⟩ := Machine.of_ite_eq_some hstep
    exact ⟨hclosed, rfl, fun _ => id⟩

/-- Only `closeAllConnections` brings the caller of `stop` behind it. -/
theorem isPast_of_next {e : Event} (hstep : next s e = some s') (he : e ≠ .closeAllConnections)
    (hpast : s'.stop.IsPast) : s.stop.IsPast := by
  cases e with
  | closeAllConnections => exact absurd rfl he
  | closeServer =>
    obtain ⟨-, rfl⟩ := Machine.of_ite_eq_some hstep
    exact absurd hpast (by simp [Stop.IsPast])
  | join =>
    obtain ⟨⟨hjoining, -⟩, -⟩ := Machine.of_ite_eq_some hstep
    exact .inl hjoining
  | registerConnection | startFails | exec =>
    simp only [next] at hstep
    split at hstep
    · obtain rfl := Option.some.inj hstep
      exact hpast
    · exact absurd hstep nofun
  | start =>
    simp only [next] at hstep
    split at hstep
    · obtain ⟨-, hsome⟩ := Option.ite_none_left_eq_some.mp hstep
      obtain rfl := Option.some.inj hsome
      exact hpast
    · exact absurd hstep nofun
  | _ =>
    obtain ⟨-, rfl⟩ := Machine.of_ite_eq_some hstep
    exact hpast

/-- Once `closeAllConnections` has been called, every connection is closed. -/
def AllClosed (s : Server) : Prop := s.stop.IsPast → ∀ n < s.accepted, s.isClosedSocket n = true

/-- The listener is not between `accept` and `registerConnection`. -/
def Guard (s : Server) : Event → Prop
  | .closeAllConnections => ∀ socket, s.listener ≠ .registering socket
  | _ => True

theorem guard_exact : machine.ExactGuard (fun _ => True) Guard AllClosed where
  init_iff := by
    rintro s rfl
    refine iff_of_true (fun hpast => ?_) trivial
    exact absurd hpast (by simp [Server.start, Stop.IsPast])
  step_iff := by
    intro s e s' hreach hclosed hstep
    have hinv := machine_inv hreach
    by_cases he : e = .closeAllConnections
    · subst he
      obtain ⟨hclosing, rfl⟩ := Machine.of_ite_eq_some hstep
      constructor
      · intro hall socket hlistener
        have hhand : s.listener.socket? = some socket := by rw [hlistener]; rfl
        have hlt : socket < s.accepted := by
          have hlast := (hinv.inHand socket hhand).1
          omega
        have hafter : (if socket ∈ s.openConnections then true else s.isClosedSocket socket) = true :=
          hall (.inl rfl) socket hlt
        rw [if_neg fun hmem => ((hinv.registered socket).mp hmem).2.1 hlistener] at hafter
        exact (hinv.unregistered socket hafter).2 hlistener
      · intro hguard _ n hn
        exact hinv.isClosedSocket_of_registered hn (hguard n)
    · have hguard : Guard s e := by
        cases e with
        | closeAllConnections => exact absurd rfl he
        | _ => trivial
      refine iff_of_true (fun hpast n hn => ?_) hguard
      have hbefore := isPast_of_next hstep he hpast
      have hstopped : s.stop ≠ .notCalled := by
        rcases hbefore with h | h <;> rw [h] <;> nofun
      have hstays := stays_of_next hstep (hinv.stopped hstopped)
      exact hstays.isClosedSocket n (hclosed hbefore n (hstays.accepted ▸ hn))

/-- **Stopping the server** closes every connection exactly if it does not come between the accepting
    and the registering of one.  At most the last one stays open, and no other follows. -/
theorem stop_closes : machine.ExactGuard (fun _ => True) Guard AllClosed ∧
    ∀ s, machine.Reachable s → s.stop.IsPast →
      (∀ n < s.accepted, s.isClosedSocket n = false → n + 1 = s.accepted) ∧
      ∀ s', (machine.goingOn s).Reachable s' → Stays s s' := by
  refine ⟨guard_exact, fun s hreach hpast => ?_⟩
  have hinv := machine_inv hreach
  have hstopped : s.stop ≠ .notCalled := by
    rcases hpast with h | h <;> rw [h] <;> nofun
  have hclosed := hinv.stopped hstopped
  refine ⟨hinv.past hpast, fun s' hgoing => ?_⟩
  refine hgoing.goingOn_invariant ⟨hclosed, rfl, fun _ => id⟩ ?_
  intro t e t' hstays hstep
  have hnext := stays_of_next hstep hstays.isClosed
  exact ⟨hnext.isClosed, hnext.accepted.trans hstays.accepted,
    fun n hn => hnext.isClosedSocket n (hstays.isClosedSocket n hn)⟩

/-- A connection that is still served when `stop` has returned. -/
example : (Machine.runEvents next .start [.accept, .closeServer, .closeAllConnections,
    .registerConnection, .start, .exec, .loop, .join]).map
      (fun s => (s.stop, s.isClosedSocket 0, s.processor 0)) =
    some (.returned, false, .serving) := by decide

end NanoHTTPD

end PopcornTime.Android
