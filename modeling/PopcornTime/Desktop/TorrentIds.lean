import Mathlib.Data.Nat.ModEq
import PopcornTime.Desktop.AddTorrent
import PopcornTime.Desktop.StaleIds
import PopcornTime.Lib.Machine

namespace PopcornTime.Desktop

open PopcornTime

/-!
# Desktop streamer — the ids of the torrents

`getNextId` counts up to `INT_MAX - 1` and begins again at one; `tMap.insert` leaves an entry that
is there as it is.  So an id can come back while its torrent is still in `tMap`.

* `idAt` — the ids in the order in which they are given out.
* `TorrentIds` — the streamer with its session, and at which of these ids an entry was made.
* `TorrentIds.Inv`, `TorrentIds.free_iff` — when the next id is free.
* `TorrentIds.idsRight_iff` — the sequences of calls whose ids are right.
-/

/-! ### The counter -/

/-- `INT_MAX - 1`, the number of ids. -/
def idCount : ℕ := 2147483646

/-- The id that is given out behind `n` others. -/
def idAt (n : ℕ) : ℤ := (n % idCount : ℕ) + 1

/-- An id is positive. -/
theorem idAt_pos (n : ℕ) : 0 < idAt n := by
  unfold idAt
  omega

/-- Ids are the same behind full rounds. -/
theorem idAt_eq_iff {m n : ℕ} : idAt m = idAt n ↔ m ≡ n [MOD idCount] := by
  unfold idAt Nat.ModEq
  omega

/-- The counter goes on to the next id, or begins again at one. -/
theorem Streamerok.getNextId_eq_idAt {s : Streamerok} {n : ℕ} (h : s.nextId = idAt n) :
    s.getNextId = idAt (n + 1) := by
  unfold Streamerok.getNextId
  rw [h]
  unfold idAt idCount
  split_ifs with hlast
  · -- the last id
    omega
  · omega

/-- `getAux` makes no entry. -/
theorem Streamerok.isSome_of_getAux {s : Streamerok} {torrentId id : ℤ}
    (h : ((s.getAux torrentId).2.tMap id).isSome = true) : (s.tMap id).isSome = true := by
  by_cases hown : id = torrentId
  · subst hown
    cases ht : s.tMap id with
    | none => simp [getAux, ht] at h
    | some t => rfl
  · rwa [(s.getAux_frame torrentId).1 id hown] at h

/-! ### Adding and deleting -/

/-- The wait has brought metadata with a file to choose. -/
def AddAnswer.Chooses (fileName : String) : AddAnswer → Prop
  | .metadata _ h names => h.handle.valid = true ∧ (chosenFile h names fileName).isSome = true
  | _ => False

namespace StreamerokSession

/-- `deleteTorrent` with its second argument, which is about the files. -/
def deleteTorrentFiles (s : StreamerokSession) (torrentId : ℤ) (deleteCompleted : Bool) :
    StreamerokSession :=
  let (_, removal, aux) := s.toStreamerok.deleteTorrent torrentId deleteCompleted
  let s := if removal.isSome then s.sessionRemove (s.torrentOf torrentId) else s
  { s with toStreamerok := aux }

/-- A torrent has left the session: its handles are not valid any more. -/
def loseTorrent (s : StreamerokSession) (torrent : ℕ) : StreamerokSession :=
  { s.sessionRemove torrent with
    tMap := fun id => (s.tMap id).map fun t =>
      if s.torrentOf id = torrent then { t with handle := { t.handle with valid := false } }
      else t }

variable {s s' : StreamerokSession} {fileName : String} {answer : AddAnswer} {torrentId : ℤ}

/-- The second argument makes no difference to the ids. -/
theorem deleteTorrentFiles_eq (s : StreamerokSession) (torrentId : ℤ) (deleteCompleted : Bool) :
    s.deleteTorrentFiles torrentId deleteCompleted = s.deleteTorrent torrentId := by
  unfold deleteTorrentFiles deleteTorrent Streamerok.deleteTorrent
  cases s.tMap torrentId with
  | none => rfl
  | some t =>
    by_cases hvalid : t.handle.valid = true
    · simp only [hvalid, if_true, Option.isSome_some]
    · simp only [hvalid, Bool.false_eq_true, if_false, Option.isSome_none]

/-- A deletion takes no id, -/
theorem deleteTorrent_nextId (s : StreamerokSession) (torrentId : ℤ) :
    (s.deleteTorrent torrentId).nextId = s.nextId := by
  unfold deleteTorrent Streamerok.deleteTorrent
  cases s.tMap torrentId <;> rfl

/-- and makes no entry. -/
theorem isSome_of_deleteTorrent {id : ℤ} (h : ((s.deleteTorrent torrentId).tMap id).isSome = true) :
    (s.tMap id).isSome = true := by
  obtain ⟨hgone, hothers, -⟩ := Streamerok.deleteTorrent_spec s.toStreamerok torrentId true
  have htMap : (s.deleteTorrent torrentId).tMap =
      (s.toStreamerok.deleteTorrent torrentId true).2.2.tMap := rfl
  rw [htMap] at h
  by_cases hown : id = torrentId
  · rw [hown, hgone] at h
    cases h
  · rwa [hothers id hown] at h

/-- An add without a file to choose answers a code, takes an id and makes no entry. -/
theorem addTorrent_of_not_chooses (s : StreamerokSession) (h : ¬answer.Chooses fileName) :
    ∃ code s', s.addTorrent fileName answer = some (code, s') ∧ code < 0 ∧
      s'.nextId = s.getNextId ∧ ∀ id, id ≠ s.getNextId → s'.tMap id = s.tMap id := by
  have hdelete : ∀ torrent : ℕ,
      let s' := (({ s with nextId := s.getNextId } : StreamerokSession).sessionAdd
        torrent).deleteTorrent s.getNextId
      s'.nextId = s.getNextId ∧ ∀ id, id ≠ s.getNextId → s'.tMap id = s.tMap id := by
    intro torrent
    refine ⟨deleteTorrent_nextId _ _, fun id hid => ?_⟩
    exact (Streamerok.deleteTorrent_spec _ s.getNextId true).2.1 id hid
  cases answer with
  | error | lost => exact ⟨_, _, rfl, by decide, rfl, fun _ _ => rfl⟩
  | timeout torrent => exact ⟨_, _, rfl, by decide, rfl, fun _ _ => rfl⟩
  | throws torrent => exact ⟨_, _, rfl, by decide, hdelete torrent⟩
  | metadata torrent fh names =>
    have hnone : (getFileIndex fh names fileName).1 = none := by
      unfold getFileIndex
      by_cases hvalid : fh.handle.valid = true
      · rw [hvalid]
        exact Option.not_isSome_iff_eq_none.mp fun hsome => h ⟨hvalid, hsome⟩
      · rw [Bool.not_eq_true] at hvalid
        rw [hvalid]
        rfl
    refine ⟨-9, _, ?_, by decide, hdelete torrent⟩
    unfold addTorrent
    dsimp only
    split
    · rfl
    -- no file is chosen
    · rename_i hsome
      rw [hsome] at hnone
      cases hnone

/-- The insertion takes no id of its own, -/
theorem insert_nextId (s : StreamerokSession) (index : ℤ) (torrent : ℕ) (t : TAux) :
    (s.insert index torrent t).nextId = s.nextId := by
  unfold insert
  split_ifs <;> rfl

/-- and changes no other entry. -/
theorem insert_of_ne (s : StreamerokSession) {index id : ℤ} (torrent : ℕ) (t : TAux)
    (h : id ≠ index) : (s.insert index torrent t).tMap id = s.tMap id := by
  unfold insert
  split_ifs
  · rfl
  · exact Function.update_of_ne h _ _

/-- Every add returns, takes an id and leaves the entries of the other ids. -/
theorem exists_addTorrent (s : StreamerokSession) (fileName : String) (answer : AddAnswer) :
    ∃ code s', s.addTorrent fileName answer = some (code, s') ∧
      s'.nextId = s.getNextId ∧ ∀ id, id ≠ s.getNextId → s'.tMap id = s.tMap id := by
  by_cases hchooses : answer.Chooses fileName
  · cases answer with
    | metadata torrent h names =>
      obtain ⟨hvalid, hsome⟩ := hchooses
      obtain ⟨k, hk⟩ := Option.isSome_iff_exists.mp hsome
      obtain ⟨t, -, hadd⟩ := addTorrent_metadata s torrent hvalid hk
      exact ⟨_, _, hadd, insert_nextId _ _ _ _, fun id hid => insert_of_ne _ _ _ hid⟩
    | error | lost | timeout | throws => exact hchooses.elim
  · obtain ⟨code, s', hadd, -, hrest⟩ := addTorrent_of_not_chooses s hchooses
    exact ⟨code, s', hadd, hrest⟩

end StreamerokSession

/-! ### Sequences of calls -/

/-- The streamer, how many ids it has given out, and behind how many of them the entry of an id was
    made. -/
structure TorrentIds extends StreamerokSession where
  given : ℕ
  addedAt : ℤ → ℕ

namespace TorrentIds

def new : TorrentIds where
  toStreamerokSession := .new
  given := 0
  addedAt := fun _ => 0

/-- The calls, and what may happen to a torrent between them. -/
inductive Call
  | getNextId
  | addTorrent (fileName : String) (answer : AddAnswer)
  | deleteTorrent (torrentId : ℤ) (deleteCompleted : Bool)
  | getAux (torrentId : ℤ)
  | loseTorrent (torrent : ℕ)

/-- The add always returns. -/
def next (s : TorrentIds) : Call → TorrentIds
  | .getNextId => { s with nextId := s.getNextId, given := s.given + 1 }
  | .addTorrent fileName answer =>
    { toStreamerokSession :=
        ((s.toStreamerokSession.addTorrent fileName answer).map Prod.snd).getD s.toStreamerokSession
      given := s.given + 1
      -- an entry that is there is the one that stays
      addedAt :=
        if (s.tMap s.getNextId).isSome then s.addedAt
        else Function.update s.addedAt s.getNextId s.given }
  | .deleteTorrent torrentId deleteCompleted =>
    { s with
      toStreamerokSession := s.toStreamerokSession.deleteTorrentFiles torrentId deleteCompleted }
  | .getAux torrentId => { s with toStreamerok := (s.getAux torrentId).2 }
  | .loseTorrent torrent =>
    { s with toStreamerokSession := s.toStreamerokSession.loseTorrent torrent }

/-- The id is positive, no torrent in `tMap` has it, and its entry becomes the `tAux` of the torrent
    that is added. -/
def AddedUnder (s s' : StreamerokSession) (fileName : String) (id : ℤ) : AddAnswer → Prop
  | .metadata torrent h names =>
    0 < id ∧ s.tMap id = none ∧
      ∃ k t, (getFileIndex h names fileName).1 = some k ∧
        TAux.new (getFileIndex h names fileName).2.handle k (h.handle.info.fileSize k) = some t ∧
        s'.tMap id = some t ∧ s'.torrentOf id = torrent
  | _ => False

/-- What is meant of a call: an id that `addTorrent` answers is right.  Its error codes are
    negative. -/
def Right (s : TorrentIds) : Call → Prop
  | .addTorrent fileName answer => ∀ id s',
      s.toStreamerokSession.addTorrent fileName answer = some (id, s') → 0 ≤ id →
        AddedUnder s.toStreamerokSession s' fileName id answer
  | _ => True

/-- The condition of a call: where an entry is to be made, no torrent in `tMap` was added a multiple
    of `idCount` ids before. -/
def Guard (s : TorrentIds) : Call → Prop
  | .addTorrent fileName answer => answer.Chooses fileName →
      ∀ id, (s.tMap id).isSome = true → ¬s.addedAt id ≡ s.given [MOD idCount]
  | _ => True

/-- The next id is that of the count, and each entry has that of the count it was made at. -/
structure Inv (s : TorrentIds) : Prop where
  next : s.getNextId = idAt s.given
  added : ∀ id, (s.tMap id).isSome = true → s.addedAt id < s.given ∧ id = idAt (s.addedAt id)

variable {s s' : TorrentIds} {call : Call}

/-- At the start no id is given. -/
theorem inv_new : new.Inv where
  next := rfl
  added _ h := absurd h (by simp [new, StreamerokSession.new, Streamerok.new])

/-- Where nothing is added. -/
theorem Inv.of_fewer (h : s.Inv) (hnext : s'.nextId = s.nextId) (hgiven : s'.given = s.given)
    (hadded : s'.addedAt = s.addedAt)
    (hfewer : ∀ id, (s'.tMap id).isSome = true → (s.tMap id).isSome = true) : s'.Inv where
  next := by
    rw [hgiven, ← h.next]
    unfold Streamerok.getNextId
    rw [hnext]
  added id hid := by
    rw [hadded, hgiven]
    exact h.added id (hfewer id hid)

/-- Where an id is taken, and entries are made under no other. -/
theorem Inv.of_taken (h : s.Inv) (hnext : s'.nextId = s.getNextId) (hgiven : s'.given = s.given + 1)
    (hadded : s'.addedAt = if (s.tMap s.getNextId).isSome then s.addedAt
      else Function.update s.addedAt s.getNextId s.given)
    (hothers : ∀ id, id ≠ s.getNextId → s'.tMap id = s.tMap id) : s'.Inv where
  next := by
    rw [hgiven]
    exact Streamerok.getNextId_eq_idAt (hnext.trans h.next)
  added id hid := by
    rw [hadded, hgiven]
    by_cases hown : id = s.getNextId
    · subst hown
      split_ifs with hthere
      -- the entry of the round before
      · obtain ⟨hlt, heq⟩ := h.added _ hthere
        exact ⟨Nat.lt_succ_of_lt hlt, heq⟩
      · rw [Function.update_self]
        exact ⟨Nat.lt_succ_self _, h.next⟩
    · rw [hothers id hown] at hid
      obtain ⟨hlt, heq⟩ := h.added id hid
      split_ifs with hthere
      · exact ⟨Nat.lt_succ_of_lt hlt, heq⟩
      · rw [Function.update_of_ne hown]
        exact ⟨Nat.lt_succ_of_lt hlt, heq⟩

/-- **One call** keeps the invariant. -/
theorem Inv.next_call (h : s.Inv) (call : Call) : (s.next call).Inv := by
  cases call with
  | getNextId =>
    refine ⟨Streamerok.getNextId_eq_idAt h.next, fun id hid => ?_⟩
    obtain ⟨hlt, heq⟩ := h.added id hid
    exact ⟨Nat.lt_succ_of_lt hlt, heq⟩
  | addTorrent fileName answer =>
    obtain ⟨code, s', hadd, hnext, hothers⟩ :=
      s.toStreamerokSession.exists_addTorrent fileName answer
    have hafter : (s.next (.addTorrent fileName answer)).toStreamerokSession = s' := by
      simp only [TorrentIds.next, hadd, Option.map_some, Option.getD_some]
    -- an add takes one id, also when it fails
    refine h.of_taken ?_ rfl rfl fun id hid => ?_
    · rw [hafter, hnext]
    · rw [hafter, hothers id hid]
  | deleteTorrent torrentId deleteCompleted =>
    have hafter : (s.next (.deleteTorrent torrentId deleteCompleted)).toStreamerokSession =
        s.toStreamerokSession.deleteTorrent torrentId :=
      s.toStreamerokSession.deleteTorrentFiles_eq torrentId deleteCompleted
    refine h.of_fewer ?_ rfl rfl fun id hid => ?_
    · rw [hafter]
      exact s.toStreamerokSession.deleteTorrent_nextId torrentId
    · rw [hafter] at hid
      exact StreamerokSession.isSome_of_deleteTorrent hid
  | getAux torrentId =>
    obtain ⟨-, -, hnext, -⟩ := s.getAux_frame torrentId
    exact h.of_fewer hnext rfl rfl fun _ hid => Streamerok.isSome_of_getAux hid
  | loseTorrent torrent =>
    refine h.of_fewer rfl rfl rfl fun id hid => ?_
    exact Option.isSome_map.symm.trans hid

/-- **The next id is free** exactly if no entry was made a multiple of `idCount` ids before. -/
theorem free_iff (h : s.Inv) : s.tMap s.getNextId = none ↔
    ∀ id, (s.tMap id).isSome = true → ¬s.addedAt id ≡ s.given [MOD idCount] := by
  constructor
  · intro hfree id hid hround
    have heq : id = s.getNextId := by
      rw [h.next, (h.added id hid).2]
      exact idAt_eq_iff.mpr hround
    rw [heq, hfree] at hid
    cases hid
  · intro hrounds
    by_contra hthere
    have hsome : (s.tMap s.getNextId).isSome = true := Option.isSome_iff_ne_none.mpr hthere
    refine hrounds _ hsome (idAt_eq_iff.mp ?_)
    rw [← (h.added _ hsome).2, h.next]

/-- An add that makes an entry answers the next id, and is right if that is free. -/
theorem right_of_chooses {fileName : String} {answer : AddAnswer} (h : s.Inv)
    (hchooses : answer.Chooses fileName) :
    s.Right (.addTorrent fileName answer) ↔ s.tMap s.getNextId = none := by
  cases answer with
  | metadata torrent fh names =>
    obtain ⟨hvalid, hsome⟩ := hchooses
    obtain ⟨k, hk⟩ := Option.isSome_iff_exists.mp hsome
    obtain ⟨t, hnew, hadd⟩ := s.toStreamerokSession.addTorrent_metadata torrent hvalid hk
    obtain ⟨hindex, hhandle⟩ := getFileIndex_spec hvalid hk
    have hpos : 0 < s.getNextId := h.next ▸ idAt_pos _
    constructor
    · intro hright
      exact (hright _ _ hadd hpos.le).2.1
    -- `insert` makes the entry where there is none
    · intro hfree id s' hadd' _
      obtain ⟨rfl, rfl⟩ := Prod.mk.inj (Option.some.inj (hadd.symm.trans hadd'))
      refine ⟨hpos, hfree, k, t, hindex, ?_, ?_, ?_⟩
      · rw [hhandle]
        exact hnew
      · simp [StreamerokSession.insert, StreamerokSession.sessionAdd, hfree]
      · simp [StreamerokSession.insert, StreamerokSession.sessionAdd, hfree]
  | error | lost | timeout | throws => exact hchooses.elim

/-- **One call** is right exactly if it meets the guard. -/
theorem right_call_iff (h : s.Inv) : s.Right call ↔ s.Guard call := by
  cases call with
  | addTorrent fileName answer =>
    by_cases hchooses : answer.Chooses fileName
    · rw [right_of_chooses h hchooses, free_iff h]
      exact ⟨fun hrounds _ => hrounds, fun hguard => hguard hchooses⟩
    · refine iff_of_true ?_ fun hyes => absurd hyes hchooses
      intro id s' hadd hid
      obtain ⟨code, s'', hadd', hneg, -⟩ :=
        s.toStreamerokSession.addTorrent_of_not_chooses hchooses
      obtain ⟨rfl, -⟩ := Prod.mk.inj (Option.some.inj (hadd'.symm.trans hadd))
      exact absurd hid (not_le.mpr hneg)
  | getNextId | deleteTorrent | getAux | loseTorrent => exact Iff.rfl

/-- From any state that can be reached. -/
theorem eachCall_right_iff (h : s.Inv) (calls : List Call) :
    EachCall next Right s calls ↔ EachCall next Guard s calls :=
  eachCall_iff (I := Inv) (fun _ _ hs => right_call_iff hs) (fun _ _ hs _ => hs.next_call _) h calls

/-- **The ids.**  In a sequence of calls every id that `addTorrent` answers is positive, free and
    that of the torrent that is added exactly if every call meets the guard. -/
theorem idsRight_iff (calls : List Call) :
    EachCall next Right new calls ↔ EachCall next Guard new calls :=
  eachCall_right_iff inv_new calls

/-- In the first round every id is free. -/
theorem guard_of_first_round (h : s.Inv) (hround : s.given < idCount) (call : Call) :
    s.Guard call := by
  cases call with
  | addTorrent fileName answer =>
    intro _ id hid hsame
    have hlt := (h.added id hid).1
    have heq := Nat.ModEq.eq_of_lt_of_lt hsame (hlt.trans hround) hround
    omega
  | getNextId | deleteTorrent | getAux | loseTorrent => trivial

/-- A call takes one id at most. -/
theorem given_next_le (s : TorrentIds) (call : Call) : (s.next call).given ≤ s.given + 1 := by
  cases call with
  | getNextId | addTorrent => exact le_refl _
  | deleteTorrent | getAux | loseTorrent => exact Nat.le_succ _

/-- So the calls of the first round all meet the guard. -/
theorem eachCall_guard_of_first_round (h : s.Inv) (calls : List Call)
    (hlength : s.given + calls.length ≤ idCount) : EachCall next Guard s calls := by
  induction calls generalizing s with
  | nil => trivial
  | cons call calls ih =>
    rw [List.length_cons] at hlength
    have hgiven := s.given_next_le call
    exact ⟨guard_of_first_round h (by omega) call, ih (h.next_call call) (by omega)⟩

/-- **The first round.**  No sequence of up to `idCount` calls has a wrong id. -/
theorem eachCall_right_of_length_le (calls : List Call) (h : calls.length ≤ idCount) :
    EachCall next Right new calls := by
  rw [eachCall_right_iff inv_new]
  exact eachCall_guard_of_first_round inv_new calls ((Nat.zero_add _).trans_le h)

/-! ### The second round -/

/-- A torrent with one file. -/
def film (torrent : ℕ) : AddAnswer :=
  .metadata torrent (StreamerokSession.oneFile 25) ⟨fun _ => "film.avi", fun _ => false⟩

/-- Ids that are only taken. -/
theorem foldl_getNextId (s : TorrentIds) (n : ℕ) :
    ((List.replicate n Call.getNextId).foldl next s).given = s.given + n ∧
      ((List.replicate n Call.getNextId).foldl next s).tMap = s.tMap ∧
      ((List.replicate n Call.getNextId).foldl next s).torrentOf = s.torrentOf := by
  induction n generalizing s with
  | zero => exact ⟨rfl, rfl, rfl⟩
  | succ n ih =>
    obtain ⟨hgiven, htMap, htorrentOf⟩ := ih (s.next .getNextId)
    rw [List.replicate_succ, List.foldl_cons]
    refine ⟨?_, htMap, htorrentOf⟩
    rw [hgiven]
    show s.given + 1 + n = _
    omega

/-- **A sequence of calls** keeps the invariant. -/
theorem inv_foldl (h : s.Inv) (calls : List Call) : (calls.foldl next s).Inv :=
  List.foldlRecOn calls next h fun _ hs call _ => hs.next_call call

/-- A film is added, and `n` ids are taken. -/
def filmThen (n : ℕ) : TorrentIds :=
  (List.replicate n Call.getNextId).foldl next (new.next (.addTorrent "" (film 7)))

/-- Behind full rounds another film gets the id of the first one, and the entry is still that of the
    first one. -/
theorem filmThen_hits_entry {n : ℕ} (hround : n + 1 ≡ 0 [MOD idCount]) :
    (∃ s', (filmThen n).addTorrent "" (film 8) = some (1, s') ∧ s'.torrentOf 1 = 7) ∧
      ¬EachCall next Right new (.addTorrent "" (film 7) ::
        (List.replicate n .getNextId ++ [.addTorrent "" (film 8)])) := by
  have hchosen : chosenFile (StreamerokSession.oneFile 25)
      ⟨fun _ => "film.avi", fun _ => false⟩ "" = some 0 := by decide
  obtain ⟨t, -, hfirst⟩ := StreamerokSession.addTorrent_metadata .new 7 rfl hchosen
  have hafter : (new.next (.addTorrent "" (film 7))).toStreamerokSession =
      (({ StreamerokSession.new with nextId := 1 } : StreamerokSession).sessionAdd 7).insert
        1 7 t :=
    congrArg (fun result => (Option.map Prod.snd result).getD StreamerokSession.new) hfirst
  obtain ⟨hgiven, htMap, htorrentOf⟩ := foldl_getNextId (new.next (.addTorrent "" (film 7))) n
  have hinv : (filmThen n).Inv := inv_foldl (inv_new.next_call _) _
  have hid : (filmThen n).getNextId = 1 := by
    have hcount : (filmThen n).given = n + 1 := hgiven.trans (Nat.add_comm _ _)
    rw [hinv.next, hcount, idAt_eq_iff.mpr hround]
    rfl
  have hthere : (filmThen n).tMap 1 = some t := by
    rw [filmThen, htMap, hafter]
    rfl
  have hold : (filmThen n).torrentOf 1 = 7 := by
    rw [filmThen, htorrentOf, hafter]
    rfl
  obtain ⟨t', -, hsecond⟩ := (filmThen n).addTorrent_metadata 8 rfl hchosen
  rw [hid] at hsecond
  refine ⟨⟨_, hsecond, ?_⟩, fun hright => ?_⟩
  · simp [StreamerokSession.insert, StreamerokSession.sessionAdd, hthere, hold]
  · obtain ⟨-, hrest⟩ := hright
    -- only the last call is wrong
    obtain ⟨hadd, -⟩ : EachCall next Right (filmThen n) [.addTorrent "" (film 8)] := hrest.of_append
    have hfree := (hadd 1 _ hsecond (by decide)).2.1
    rw [hthere] at hfree
    cases hfree

/-- The first film is still there when all ids have been given out once. -/
theorem second_round_hits_entry :
    (∃ s', (filmThen (idCount - 1)).addTorrent "" (film 8) = some (1, s') ∧ s'.torrentOf 1 = 7) ∧
      ¬EachCall next Right new (.addTorrent "" (film 7) ::
        (List.replicate (idCount - 1) .getNextId ++ [.addTorrent "" (film 8)])) :=
  filmThen_hits_entry (by decide)

end TorrentIds

end PopcornTime.Desktop
