import Mathlib.Algebra.Order.Ring.Nat
import Mathlib.Tactic.SplitIfs
import PopcornTime.Lib.LengthPrefix

namespace PopcornTime.Desktop

open PopcornTime

/-!
# Desktop casting — the packets of a googlecast connection

The messages to a device and from it are packets behind four bytes of length.  `PacketStreamWrapper`
reads them off the socket, as far as they have arrived each time that it is `readable`.

* `PacketStreamWrapper.onReadable` — the loop of the reader; at the end of a stream a read may give
  less than was asked for.
* `PacketStreamWrapper.onReads_spec` — what is emitted does not depend on the reads.
* `PacketStreamWrapper.packets_onReads` — the packets of a connection, whole and cut.
-/

/-- `writeUInt32BE` -/
def writeUInt32BE (n : ℕ) : List UInt8 :=
  [UInt8.ofNat (n / 2 ^ 24), UInt8.ofNat (n / 2 ^ 16), UInt8.ofNat (n / 2 ^ 8), UInt8.ofNat n]

/-- `readUInt32BE`; with less than four bytes it throws. -/
def readUInt32BE : List UInt8 → Option ℕ
  | [a, b, c, d] => some (a.toNat * 2 ^ 24 + b.toNat * 2 ^ 16 + c.toNat * 2 ^ 8 + d.toNat)
  | _ => none

theorem readUInt32BE_writeUInt32BE {n : ℕ} (h : n < 2 ^ 32) :
    readUInt32BE (writeUInt32BE n) = some n := by
  simp only [writeUInt32BE, readUInt32BE, UInt8.toNat_ofNat', Option.some.injEq]
  omega

/-- Four bytes are those of the length that they hold. -/
theorem exists_readUInt32BE {header : List UInt8} (h : header.length = 4) :
    ∃ n < 2 ^ 32, readUInt32BE header = some n ∧ writeUInt32BE n = header := by
  obtain ⟨a, b, c, d, rfl⟩ := List.length_eq_four.mp h
  have ha := a.toNat_lt
  have hb := b.toNat_lt
  have hc := c.toNat_lt
  have hd := d.toNat_lt
  refine ⟨_, ?_, rfl, ?_⟩
  · omega
  · simp only [writeUInt32BE, List.cons.injEq, and_true, ← UInt8.toNat_inj, UInt8.toNat_ofNat']
    omega

/-- The format of the packets. -/
def castFormat : LengthFormat UInt8 where
  width := 4
  bound := 2 ^ 32
  encode := writeUInt32BE
  decode header := (readUInt32BE header).getD 0
  width_pos := by decide
  length_encode _ := rfl
  decode_encode n h := by rw [readUInt32BE_writeUInt32BE h, Option.getD_some]

/-- `WAITING_HEADER` and `WAITING_PACKET` -/
inductive PacketState
  | waitingHeader
  | waitingPacket
deriving DecidableEq, Repr

/-- The reader, with the packets that it has emitted.  `stream` is what the socket holds. -/
structure PacketStreamWrapper where
  stream : List UInt8
  ended : Bool
  state : PacketState
  packetLength : ℕ
  packets : List (List UInt8)
  uncaught : Bool
deriving DecidableEq, Repr

namespace PacketStreamWrapper

/-- `send`; a length that does not fit into four bytes makes it throw. -/
def send (buf : List UInt8) : Option (List UInt8) :=
  if buf.length < 2 ^ 32 then some (writeUInt32BE buf.length ++ buf) else none

/-- The bytes of packets that are sent one after the other. -/
def sendAll : List (List UInt8) → Option (List UInt8)
  | [] => some []
  | buf :: packets => do
    let bytes ← send buf
    let more ← sendAll packets
    return bytes ++ more

/-- `stream.read`: `null` for a read of nothing, and for one of more than there is until the stream
    has ended. -/
def read (s : PacketStreamWrapper) (n : ℕ) : Option (List UInt8 × List UInt8) :=
  if n = 0 ∨ s.stream = [] then none
  else if n ≤ s.stream.length then some (s.stream.take n, s.stream.drop n)
  else if s.ended then some (s.stream, [])
  else none

theorem length_of_read {s : PacketStreamWrapper} {n : ℕ} {bytes stream : List UInt8}
    (h : s.read n = some (bytes, stream)) : stream.length < s.stream.length := by
  unfold read at h
  split_ifs at h with hnone hle hended
  · obtain ⟨-, rfl⟩ := Prod.mk.inj (Option.some.inj h)
    have hpos : 0 < s.stream.length := List.length_pos_of_ne_nil (not_or.mp hnone).2
    have hn : n ≠ 0 := (not_or.mp hnone).1
    rw [List.length_drop]
    omega
  · obtain ⟨-, rfl⟩ := Prod.mk.inj (Option.some.inj h)
    exact List.length_pos_of_ne_nil (not_or.mp hnone).2

/-- The loop of the `readable` event. -/
def onReadable (s : PacketStreamWrapper) : PacketStreamWrapper :=
  match s.state with
  | .waitingHeader =>
    match _h : s.read 4 with
    | none => s
    | some (header, stream) =>
      match readUInt32BE header with
      -- a header of less than four bytes, at the end of the stream
      | none => { s with stream := stream, uncaught := true }
      | some packetLength =>
        onReadable { s with stream := stream, packetLength := packetLength, state := .waitingPacket }
  | .waitingPacket =>
    match _h : s.read s.packetLength with
    | none => s
    | some (packet, stream) =>
      onReadable { s with
        stream := stream
        packets := s.packets ++ [packet]
        state := .waitingHeader }
termination_by s.stream.length
decreasing_by all_goals exact length_of_read _h

/-- Bytes arrive, and the socket is `readable`. -/
def onData (s : PacketStreamWrapper) (data : List UInt8) : PacketStreamWrapper :=
  onReadable { s with stream := s.stream ++ data }

/-- The stream ends, and the socket is `readable` for the last time. -/
def onEnd (s : PacketStreamWrapper) : PacketStreamWrapper := onReadable { s with ended := true }

/-- The reader of a new connection. -/
def start : PacketStreamWrapper := ⟨[], false, .waitingHeader, 0, [], false⟩

def onReads (reads : List (List UInt8)) : PacketStreamWrapper := reads.foldl onData start

variable {s : PacketStreamWrapper}

/-! ### What is waited for -/

/-- The bytes that are waited with: those of the socket, behind the header that has been read. -/
def pending (s : PacketStreamWrapper) : List UInt8 :=
  match s.state with
  | .waitingHeader => s.stream
  | .waitingPacket => writeUInt32BE s.packetLength ++ s.stream

/-- The reader of a stream that goes on, between two of its events. -/
structure Waits (s : PacketStreamWrapper) : Prop where
  ended : s.ended = false
  uncaught : s.uncaught = false
  packetLength : s.packetLength < 2 ^ 32

theorem read_eq_none_iff (h : s.ended = false) {n : ℕ} :
    s.read n = none ↔ n = 0 ∨ s.stream.length < n := by
  unfold read
  split_ifs with hnone hle hended
  · refine iff_of_true rfl ?_
    rcases hnone with hzero | hnil
    · exact .inl hzero
    · rw [hnil]
      exact (Nat.eq_zero_or_pos n).imp_right id
  · refine iff_of_false nofun ?_
    rintro (hzero | hlt)
    · exact hnone (.inl hzero)
    · exact Nat.not_lt.mpr hle hlt
  · exact absurd (h.symm.trans hended) Bool.false_ne_true
  · exact iff_of_true rfl (.inr (Nat.not_le.mp hle))

theorem read_eq_some (h : s.ended = false) {n : ℕ} {bytes stream : List UInt8}
    (hread : s.read n = some (bytes, stream)) :
    n ≠ 0 ∧ bytes.length = n ∧ s.stream = bytes ++ stream := by
  unfold read at hread
  split_ifs at hread with hnone hle hended
  · obtain ⟨rfl, rfl⟩ := Prod.mk.inj (Option.some.inj hread)
    exact ⟨(not_or.mp hnone).1, List.length_take_of_le hle, (List.take_append_drop n _).symm⟩
  · exact absurd (h.symm.trans hended) Bool.false_ne_true

theorem not_hasPacket_of_lt {l : List UInt8} (h : l.length < 4) : ¬castFormat.HasPacket l :=
  fun hpacket => absurd hpacket.width_le (Nat.not_le.mpr h)

theorem pending_of_waitingPacket (hstate : s.state = .waitingPacket) :
    s.pending = writeUInt32BE s.packetLength ++ s.stream := by rw [pending, hstate]

/-- The length behind a header that has been read. -/
theorem lengthOf_pending (h : s.packetLength < 2 ^ 32) (l : List UInt8) :
    castFormat.lengthOf (writeUInt32BE s.packetLength ++ l) = s.packetLength := by
  have htake : (writeUInt32BE s.packetLength ++ l).take 4 = writeUInt32BE s.packetLength :=
    List.take_left' rfl
  show (readUInt32BE ((writeUInt32BE s.packetLength ++ l).take 4)).getD 0 = s.packetLength
  rw [htake, readUInt32BE_writeUInt32BE h, Option.getD_some]

/-- **The loop** takes the packets of what is waited with, and waits with what is left. -/
theorem onReadable_spec (h : Waits s) : Waits s.onReadable ∧
    s.onReadable.packets = s.packets ++ (castFormat.split s.pending).1 ∧
    s.onReadable.pending = (castFormat.split s.pending).2 ∧
    (s.onReadable.state = .waitingHeader → s.onReadable.stream.length < 4) := by
  fun_induction onReadable s with
  | case1 s hstate hread =>
    have hlt : s.stream.length < 4 :=
      ((read_eq_none_iff h.ended).mp hread).resolve_left (by decide)
    rw [pending, hstate, LengthFormat.split_of_not_hasPacket (not_hasPacket_of_lt hlt)]
    exact ⟨h, (List.append_nil _).symm, rfl, fun _ => hlt⟩
  | case2 s hstate header stream hread hheader =>
    -- a header of four bytes can be read
    obtain ⟨-, hlength, -⟩ := read_eq_some h.ended hread
    obtain ⟨n, -, hn, -⟩ := exists_readUInt32BE hlength
    cases hheader.symm.trans hn
  | case3 s hstate header stream hread packetLength hheader ih =>
    obtain ⟨-, hlength, hstream⟩ := read_eq_some h.ended hread
    obtain ⟨n, hbound, hn, hwritten⟩ := exists_readUInt32BE hlength
    obtain rfl := Option.some.inj (hn.symm.trans hheader)
    have hpending : s.pending = writeUInt32BE n ++ stream := by
      rw [pending, hstate, hwritten]
      exact hstream
    rw [hpending]
    exact ih ⟨h.ended, h.uncaught, hbound⟩
  | case4 s hstate hread =>
    -- what there is of the packet is not all of it
    have hnone : ¬castFormat.HasPacket s.pending := by
      rw [pending_of_waitingPacket hstate]
      rintro ⟨hpos, hle⟩
      rw [lengthOf_pending h.packetLength] at hpos hle
      rw [List.length_append] at hle
      rcases (read_eq_none_iff h.ended).mp hread with hzero | hlt
      · exact hpos.ne' hzero
      · have hheader : (writeUInt32BE s.packetLength).length = castFormat.width := rfl
        omega
    rw [LengthFormat.split_of_not_hasPacket hnone]
    exact ⟨h, (List.append_nil _).symm, rfl, fun hheader => by cases hstate.symm.trans hheader⟩
  | case5 s hstate packet stream hread ih =>
    obtain ⟨hne, hlength, hstream⟩ := read_eq_some h.ended hread
    have hpacket : packet ≠ [] := fun hnil => hne (by rw [← hlength, hnil, List.length_nil])
    have hpending : s.pending = castFormat.frame packet ++ stream := by
      rw [pending_of_waitingPacket hstate, LengthFormat.frame, List.append_assoc, hlength, hstream]
      rfl
    have hbound : packet.length < castFormat.bound := hlength ▸ h.packetLength
    have hsplit := LengthFormat.split_frame_append hbound hpacket stream
    obtain ⟨hwaits, hpackets, hleft, hshort⟩ := ih ⟨h.ended, h.uncaught, h.packetLength⟩
    rw [hpending, hsplit]
    refine ⟨hwaits, ?_, hleft, hshort⟩
    rw [hpackets, List.append_assoc]
    rfl

/-! ### Runs -/

/-- **Whatever the reads**, what is emitted is the packets of the stream. -/
theorem onReads_spec (reads : List (List UInt8)) : Waits (onReads reads) ∧
    (onReads reads).packets = (castFormat.split reads.flatten).1 ∧
    (onReads reads).pending = (castFormat.split reads.flatten).2 ∧
    ((onReads reads).state = .waitingHeader → (onReads reads).stream.length < 4) := by
  induction reads using List.reverseRecOn with
  | nil =>
    have hnone : ¬castFormat.HasPacket [] := not_hasPacket_of_lt (by decide)
    rw [List.flatten_nil, LengthFormat.split_of_not_hasPacket hnone]
    exact ⟨⟨rfl, rfl, by decide⟩, rfl, rfl, fun _ => by decide⟩
  | append_singleton reads data ih =>
    obtain ⟨hwaits, hpackets, hpending, -⟩ := ih
    -- the last read is put behind what is pending, and both are cut as one
    have hlast : onReads (reads ++ [data]) = (onReads reads).onData data := by
      rw [onReads, List.foldl_concat]
      rfl
    have hdata : pending { onReads reads with stream := (onReads reads).stream ++ data } =
        (onReads reads).pending ++ data := by
      unfold pending
      dsimp only
      split
      · rfl
      · exact (List.append_assoc _ _ _).symm
    have harrived : Waits { onReads reads with stream := (onReads reads).stream ++ data } :=
      ⟨hwaits.ended, hwaits.uncaught, hwaits.packetLength⟩
    obtain ⟨hafter, hemitted, hleft, hshort⟩ := onReadable_spec harrived
    rw [hdata, hpending] at hemitted hleft
    rw [hlast, List.flatten_append, List.flatten_singleton, LengthFormat.split_append]
    refine ⟨hafter, ?_, hleft, hshort⟩
    exact hemitted.trans (congrArg (· ++ _) hpackets)

theorem readUInt32BE_eq_none {header : List UInt8} (h : header.length < 4) :
    readUInt32BE header = none := by
  unfold readUInt32BE
  split
  · exact absurd h (Nat.lt_irrefl 4)
  · rfl

/-- How many bytes the reader asks for. -/
def wanted (s : PacketStreamWrapper) : ℕ :=
  match s.state with
  | .waitingHeader => 4
  | .waitingPacket => s.packetLength

/-- What is not there is waited for. -/
theorem onReadable_of_none (h : s.read s.wanted = none) : s.onReadable = s := by
  unfold wanted at h
  fun_cases onReadable s with
  | case1 => rfl
  | case2 hstate header stream hread =>
    rw [hstate] at h
    cases h.symm.trans hread
  | case3 hstate header stream hread =>
    rw [hstate] at h
    cases h.symm.trans hread
  | case4 => rfl
  | case5 hstate packet stream hread =>
    rw [hstate] at h
    cases h.symm.trans hread

theorem onReadable_of_throws (hstate : s.state = .waitingHeader) {header stream : List UInt8}
    (hread : s.read 4 = some (header, stream)) (hheader : readUInt32BE header = none) :
    s.onReadable = { s with stream := stream, uncaught := true } := by
  fun_cases onReadable s with
  | case1 _ hnone => cases hread.symm.trans hnone
  | case2 _ _ _ hread' =>
    obtain ⟨rfl, rfl⟩ := Prod.mk.inj (Option.some.inj (hread.symm.trans hread'))
    rfl
  | case3 _ _ _ hread' _ hsome =>
    obtain ⟨rfl, rfl⟩ := Prod.mk.inj (Option.some.inj (hread.symm.trans hread'))
    cases hheader.symm.trans hsome
  | case4 hpacket => cases hstate.symm.trans hpacket
  | case5 hpacket => cases hstate.symm.trans hpacket

theorem onReadable_of_packet (hstate : s.state = .waitingPacket) {packet stream : List UInt8}
    (hread : s.read s.packetLength = some (packet, stream)) :
    s.onReadable = onReadable { s with
      stream := stream
      packets := s.packets ++ [packet]
      state := .waitingHeader } := by
  fun_cases onReadable s with
  | case1 hheader => cases hstate.symm.trans hheader
  | case2 hheader => cases hstate.symm.trans hheader
  | case3 hheader => cases hstate.symm.trans hheader
  | case4 _ hnone => cases hread.symm.trans hnone
  | case5 _ _ _ hread' =>
    obtain ⟨rfl, rfl⟩ := Prod.mk.inj (Option.some.inj (hread.symm.trans hread'))
    rfl

/-- A socket that holds nothing is not read. -/
theorem onReadable_of_nil (h : s.stream = []) : s.onReadable = s :=
  onReadable_of_none (if_pos (.inr h))

/-! ### The end of a stream -/

/-- At the end a read of more than there is gives what there is. -/
theorem read_at_end {n : ℕ} (hnil : s.stream ≠ []) (hlt : s.stream.length < n) :
    read { s with ended := true } n = some (s.stream, []) := by
  have hn : n ≠ 0 := Nat.ne_zero_of_lt hlt
  have hasked : ¬(n = 0 ∨ s.stream = []) := not_or.mpr ⟨hn, hnil⟩
  unfold read
  rw [if_neg hasked, if_neg (Nat.not_le.mpr hlt), if_pos rfl]

/-- A part of a header is too short to be read. -/
theorem onEnd_in_header (hstate : s.state = .waitingHeader) (hnil : s.stream ≠ [])
    (hlt : s.stream.length < 4) :
    s.onEnd = { s with ended := true, stream := [], uncaught := true } := by
  have hended : PacketStreamWrapper.state { s with ended := true } = .waitingHeader := hstate
  exact onReadable_of_throws hended (read_at_end hnil hlt) (readUInt32BE_eq_none hlt)

/-- A part of a packet is emitted. -/
theorem onEnd_in_packet (hstate : s.state = .waitingPacket) (hnil : s.stream ≠ [])
    (hlt : s.stream.length < s.packetLength) :
    s.onEnd = { s with
      ended := true
      stream := []
      packets := s.packets ++ [s.stream]
      state := .waitingHeader } := by
  have hended : PacketStreamWrapper.state { s with ended := true } = .waitingPacket := hstate
  rw [onEnd, onReadable_of_packet hended (read_at_end hnil hlt)]
  exact onReadable_of_nil rfl

/-- An empty packet is not emitted, even at the end: a read of nothing gives nothing. -/
theorem onEnd_of_zero (hstate : s.state = .waitingPacket) (hzero : s.packetLength = 0) :
    s.onEnd = { s with ended := true } := by
  have hread : read { s with ended := true } s.packetLength = none := if_pos (.inl hzero)
  apply onReadable_of_none
  show read { s with ended := true } (wanted s) = none
  rw [wanted, hstate]
  exact hread

/-- **The end of a stream** in a header throws; in a packet, what there is of it is emitted. -/
theorem onEnd_spec (h : Waits s) (hnone : ¬castFormat.HasPacket s.pending)
    (hshort : s.state = .waitingHeader → s.stream.length < 4) :
    (s.onEnd.uncaught = true ↔ 0 < s.pending.length ∧ s.pending.length < 4) ∧
    s.onEnd.packets = s.packets ++
      if 4 < s.pending.length ∧ castFormat.lengthOf s.pending ≠ 0 then [s.pending.drop 4] else [] := by
  have hcaught : ¬s.uncaught = true := Bool.eq_false_iff.mp h.uncaught
  have hend (hnil : s.stream = []) : s.onEnd = { s with ended := true } := onReadable_of_nil hnil
  cases hstate : s.state with
  | waitingHeader =>
    have hpending : s.pending = s.stream := by rw [pending, hstate]
    have hlt := hshort hstate
    rw [hpending, if_neg fun hlong => Nat.lt_asymm hlt hlong.1, List.append_nil]
    by_cases hnil : s.stream = []
    · rw [hend hnil, hnil]
      exact ⟨iff_of_false hcaught fun hpos => Nat.lt_irrefl 0 hpos.1, rfl⟩
    · rw [onEnd_in_header hstate hnil hlt]
      exact ⟨iff_of_true rfl ⟨List.length_pos_of_ne_nil hnil, hlt⟩, rfl⟩
  | waitingPacket =>
    have hpending := pending_of_waitingPacket hstate
    have hlength : s.pending.length = 4 + s.stream.length := by
      rw [hpending, List.length_append]
      rfl
    have hdrop : s.pending.drop 4 = s.stream := by
      rw [hpending]
      exact List.drop_left' rfl
    have hlengthOf : castFormat.lengthOf s.pending = s.packetLength := by
      rw [hpending, lengthOf_pending h.packetLength]
    have hnot : ¬(0 < s.pending.length ∧ s.pending.length < 4) := by omega
    rw [hdrop, hlengthOf]
    by_cases hnil : s.stream = []
    · have hshortest : ¬4 < s.pending.length := by
        rw [hlength, hnil]
        exact Nat.lt_irrefl 4
      rw [if_neg fun hlong => hshortest hlong.1, List.append_nil, hend hnil]
      exact ⟨iff_of_false hcaught hnot, rfl⟩
    · have hlong : 4 < s.pending.length := by
        have hpos := List.length_pos_of_ne_nil hnil
        omega
      by_cases hzero : s.packetLength = 0
      · rw [if_neg fun hboth => hboth.2 hzero, List.append_nil, onEnd_of_zero hstate hzero]
        exact ⟨iff_of_false hcaught hnot, rfl⟩
      · -- what is left is less than the packet, which the loop would have taken
        have hlt : s.stream.length < s.packetLength := by
          by_contra hle
          apply hnone
          rw [LengthFormat.HasPacket, hlengthOf, hlength]
          exact ⟨Nat.pos_of_ne_zero hzero, Nat.add_le_add_left (Nat.not_lt.mp hle) 4⟩
        rw [if_pos ⟨hlong, hzero⟩, onEnd_in_packet hstate hnil hlt]
        exact ⟨iff_of_false hcaught hnot, rfl⟩

/-! ### Connections -/

/-- What has been sent is the packets behind their lengths. -/
theorem sendAll_eq_some {packets : List (List UInt8)} {stream : List UInt8}
    (h : sendAll packets = some stream) :
    (∀ packet ∈ packets, packet.length < castFormat.bound) ∧
      stream = packets.flatMap castFormat.frame := by
  induction packets generalizing stream with
  | nil =>
    obtain rfl := Option.some.inj h
    exact ⟨nofun, rfl⟩
  | cons packet packets ih =>
    simp only [sendAll, Option.bind_eq_bind, Option.bind_eq_some_iff] at h
    obtain ⟨bytes, hbytes, more, hmore, hstream⟩ := h
    obtain ⟨hbounds, rfl⟩ := ih hmore
    rw [send, Option.ite_none_right_eq_some] at hbytes
    obtain ⟨hbound, hbytes⟩ := hbytes
    obtain rfl := Option.some.inj hbytes
    refine ⟨List.forall_mem_cons.mpr ⟨hbound, hbounds⟩, ?_⟩
    exact (Option.some.inj hstream).symm

/-- **The packets of a connection**, however its bytes are cut into reads.  What has been sent is
    emitted up to the first packet that is empty.  A connection that ends within a packet throws if
    that is in its header, and else emits the beginning of the packet as if it were one. -/
theorem packets_onReads {packets reads : List (List UInt8)} {stream : List UInt8}
    (hsent : sendAll packets = some stream) (hcut : reads.flatten <+: stream) :
    (reads.flatten = stream → (onReads reads).uncaught = false ∧
      (onReads reads).packets = packets.takeWhile (· ≠ [])) ∧
    ([] ∉ packets → ∃ whole tail, whole <+: packets ∧
      reads.flatten = whole.flatMap castFormat.frame ++ tail ∧
      (tail = [] ∨ ∃ packet, whole ++ [packet] <+: packets ∧ tail <+: castFormat.frame packet ∧
        tail.length < (castFormat.frame packet).length) ∧
      (onReads reads).packets = whole ∧
      ((onReads reads).onEnd.uncaught = true ↔ 0 < tail.length ∧ tail.length < 4) ∧
      (onReads reads).onEnd.packets = whole ++ if 4 < tail.length then [tail.drop 4] else []) := by
  obtain ⟨hbounds, rfl⟩ := sendAll_eq_some hsent
  obtain ⟨hwaits, hpackets, hpending, hshort⟩ := onReads_spec reads
  refine ⟨fun hall => ⟨hwaits.uncaught, ?_⟩, fun hne => ?_⟩
  · rw [hpackets, hall]
    exact LengthFormat.split_flatMap_frame hbounds
  · obtain ⟨whole, tail, hwhole, hstream, htail⟩ := LengthFormat.exists_cut hcut
    have hmem (packet : List UInt8) (h : packet ∈ whole) : packet.length < castFormat.bound :=
      hbounds packet (hwhole.subset h)
    have hnil : [] ∉ whole := fun h => hne (hwhole.subset h)
    have hnext {packet : List UInt8} (h : whole ++ [packet] <+: packets) : packet ∈ packets :=
      h.subset (List.mem_append_right _ List.mem_cons_self)
    -- the part of a packet that the stream ends with is what is left
    have hnone : ¬castFormat.HasPacket tail := by
      rcases htail with rfl | ⟨packet, hpacket, hpart, hlt⟩
      · exact not_hasPacket_of_lt (by decide)
      · exact LengthFormat.not_hasPacket_of_cut (hbounds packet (hnext hpacket)) hpart hlt
    have hlength : 4 < tail.length → castFormat.lengthOf tail ≠ 0 := by
      intro hlong
      rcases htail with rfl | ⟨packet, hpacket, hpart, -⟩
      · exact absurd hlong (by decide)
      · rw [LengthFormat.lengthOf_of_cut (hbounds packet (hnext hpacket)) hpart hlong.le]
        exact fun hzero => hne (List.length_eq_zero_iff.mp hzero ▸ hnext hpacket)
    have hsplit : castFormat.split reads.flatten = (whole, tail) := by
      rw [hstream, LengthFormat.split_flatMap_frame_append hmem hnil,
        LengthFormat.split_of_not_hasPacket hnone, List.append_nil]
    rw [hsplit] at hpackets hpending
    obtain ⟨huncaught, hemitted⟩ := onEnd_spec hwaits (hpending ▸ hnone) hshort
    rw [hpending] at huncaught hemitted
    refine ⟨whole, tail, hwhole, hstream, htail, hpackets, huncaught, ?_⟩
    rw [hemitted, hpackets]
    congr 1
    exact if_congr (and_iff_left_of_imp hlength) rfl rfl

/-- Two packets, of which the first arrives in three reads. -/
theorem packets_onReads_two :
    (onReads [[0, 0], [0, 2, 1], [2, 0, 0, 0, 1, 3]]).packets = [[1, 2], [3]] := by
  have hsent : sendAll [[1, 2], [3]] = some [0, 0, 0, 2, 1, 2, 0, 0, 0, 1, 3] := by decide
  exact ((packets_onReads hsent List.prefix_rfl).1 rfl).2

end PacketStreamWrapper

end PopcornTime.Desktop
