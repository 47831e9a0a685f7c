import Mathlib.Data.List.Basic
import Mathlib.Data.List.Infix
import Mathlib.Tactic.SplitIfs

namespace PopcornTime

/-!
# Packets behind their length

A stream of packets, each behind a header of fixed width that holds its length.  A reader takes the
packets that are there as a whole; one without items is never taken, and nothing behind it.

* `LengthFormat` — how a length is written.
* `LengthFormat.split` — the packets of a stream, and what is left of it.
* `LengthFormat.split_append` — a stream that is put together is split part by part.
* `LengthFormat.split_flatMap_frame` — the packets of a written stream.
* `LengthFormat.exists_cut` — where a written stream may be cut.
-/

/-- Lengths below `bound`, written with `width` items. -/
structure LengthFormat (α : Type*) where
  width : ℕ
  bound : ℕ
  encode : ℕ → List α
  decode : List α → ℕ
  width_pos : 0 < width
  length_encode : ∀ n, (encode n).length = width
  decode_encode : ∀ n < bound, decode (encode n) = n

namespace LengthFormat

variable {α : Type*} (F : LengthFormat α)

/-- A packet behind its length. -/
def frame (packet : List α) : List α := F.encode packet.length ++ packet

/-- The length that a stream begins with. -/
def lengthOf (l : List α) : ℕ := F.decode (l.take F.width)

/-- A stream begins with a packet that can be taken. -/
def HasPacket (l : List α) : Prop :=
  0 < F.lengthOf l ∧ F.width + F.lengthOf l ≤ l.length

instance (l : List α) : Decidable (F.HasPacket l) := inferInstanceAs (Decidable (_ ∧ _))

/-- The packet that a stream begins with, and what is behind it. -/
def packetOf (l : List α) : List α := (l.drop F.width).take (F.lengthOf l)

def behind (l : List α) : List α := l.drop (F.width + F.lengthOf l)

theorem length_behind_lt {l : List α} (h : F.HasPacket l) : (F.behind l).length < l.length := by
  have hpos := F.width_pos
  have hle := h.2
  rw [behind, List.length_drop]
  omega

/-- The packets of a stream that can be taken, and what is left. -/
def split (l : List α) : List (List α) × List α :=
  if _h : F.HasPacket l then
    (F.packetOf l :: (split (F.behind l)).1, (split (F.behind l)).2)
  else ([], l)
termination_by l.length
decreasing_by all_goals exact F.length_behind_lt _h

variable {F}

theorem split_of_hasPacket {l : List α} (h : F.HasPacket l) :
    F.split l = (F.packetOf l :: (F.split (F.behind l)).1, (F.split (F.behind l)).2) := by
  rw [split, dif_pos h]

theorem split_of_not_hasPacket {l : List α} (h : ¬F.HasPacket l) : F.split l = ([], l) := by
  rw [split, dif_neg h]

/-- The induction over the packets of a stream. -/
theorem split_induction {P : List α → Prop} (hpacket : ∀ l, F.HasPacket l → P (F.behind l) → P l)
    (hrest : ∀ l, ¬F.HasPacket l → P l) (l : List α) : P l := by
  induction hn : l.length using Nat.strong_induction_on generalizing l with
  | _ n ih =>
    by_cases h : F.HasPacket l
    · apply hpacket l h
      exact ih _ (hn ▸ F.length_behind_lt h) _ rfl
    · exact hrest l h

/-! ### Streams that are put together -/

/-- What is behind a whole header does not change the length. -/
theorem lengthOf_append {l : List α} (h : F.width ≤ l.length) (m : List α) :
    F.lengthOf (l ++ m) = F.lengthOf l := by
  rw [lengthOf, lengthOf, List.take_append_of_le_length h]

theorem HasPacket.width_le {l : List α} (h : F.HasPacket l) : F.width ≤ l.length :=
  le_trans (Nat.le_add_right _ _) h.2

theorem HasPacket.append {l : List α} (h : F.HasPacket l) (m : List α) : F.HasPacket (l ++ m) := by
  rw [HasPacket, lengthOf_append h.width_le, List.length_append]
  exact ⟨h.1, h.2.trans (Nat.le_add_right _ _)⟩

theorem HasPacket.packetOf_append {l : List α} (h : F.HasPacket l) (m : List α) :
    F.packetOf (l ++ m) = F.packetOf l := by
  have hle : F.lengthOf l ≤ (l.drop F.width).length := by
    rw [List.length_drop]
    have := h.2
    omega
  rw [packetOf, lengthOf_append h.width_le, List.drop_append_of_le_length h.width_le,
    List.take_append_of_le_length hle, packetOf]

theorem HasPacket.behind_append {l : List α} (h : F.HasPacket l) (m : List α) :
    F.behind (l ++ m) = F.behind l ++ m := by
  rw [behind, lengthOf_append h.width_le, List.drop_append_of_le_length h.2, behind]

/-- **A stream that is put together** is split part by part, with what is left carried over. -/
theorem split_append (l m : List α) :
    F.split (l ++ m) =
      ((F.split l).1 ++ (F.split ((F.split l).2 ++ m)).1, (F.split ((F.split l).2 ++ m)).2) := by
  induction l using F.split_induction with
  | hpacket l h ih =>
    rw [split_of_hasPacket (h.append m), h.packetOf_append, h.behind_append, ih,
      split_of_hasPacket h]
    rfl
  | hrest l h => rw [split_of_not_hasPacket h, List.nil_append]

/-! ### Written streams -/

theorem lengthOf_frame_append {packet : List α} (h : packet.length < F.bound) (m : List α) :
    F.lengthOf (F.frame packet ++ m) = packet.length := by
  rw [lengthOf, frame, List.append_assoc,
    List.take_left' (F.length_encode packet.length), F.decode_encode _ h]

theorem length_frame (packet : List α) : (F.frame packet).length = F.width + packet.length := by
  rw [frame, List.length_append, F.length_encode]

theorem hasPacket_frame_append {packet : List α} (h : packet.length < F.bound) (hne : packet ≠ [])
    (m : List α) : F.HasPacket (F.frame packet ++ m) := by
  rw [HasPacket, lengthOf_frame_append h, List.length_append, length_frame]
  exact ⟨List.length_pos_of_ne_nil hne, Nat.le_add_right _ _⟩

/-- A packet that is not empty is taken from the front. -/
theorem split_frame_append {packet : List α} (h : packet.length < F.bound) (hne : packet ≠ [])
    (m : List α) :
    F.split (F.frame packet ++ m) = (packet :: (F.split m).1, (F.split m).2) := by
  have hpacket : F.packetOf (F.frame packet ++ m) = packet := by
    rw [packetOf, lengthOf_frame_append h, frame, List.append_assoc,
      List.drop_left' (F.length_encode packet.length), List.take_left]
  have hbehind : F.behind (F.frame packet ++ m) = m := by
    rw [behind, lengthOf_frame_append h]
    exact List.drop_left' (length_frame packet)
  rw [split_of_hasPacket (hasPacket_frame_append h hne m), hpacket, hbehind]

/-- An empty packet is not taken, and nothing behind it. -/
theorem split_frame_nil_append (hbound : 0 < F.bound) (m : List α) :
    F.split (F.frame [] ++ m) = ([], F.frame [] ++ m) := by
  apply split_of_not_hasPacket
  rintro ⟨hpos, -⟩
  have hempty : ([] : List α).length < F.bound := hbound
  have hlength : F.lengthOf (F.frame [] ++ m) = 0 := lengthOf_frame_append hempty m
  exact absurd hlength hpos.ne'

/-- **The packets of a written stream** are those before the first empty one. -/
theorem split_flatMap_frame [DecidableEq α] {packets : List (List α)}
    (h : ∀ packet ∈ packets, packet.length < F.bound) :
    (F.split (packets.flatMap F.frame)).1 = packets.takeWhile (· ≠ []) := by
  induction packets with
  | nil =>
    have hnone : ¬F.HasPacket ([] : List α) := fun hpacket =>
      absurd hpacket.width_le (Nat.not_le.mpr F.width_pos)
    rw [List.flatMap_nil, split_of_not_hasPacket hnone]
    rfl
  | cons packet packets ih =>
    obtain ⟨hpacket, hpackets⟩ := List.forall_mem_cons.mp h
    rw [List.flatMap_cons]
    by_cases hne : packet = []
    · subst hne
      rw [split_frame_nil_append hpacket]
      rfl
    · rw [split_frame_append hpacket hne, ih hpackets, List.takeWhile_cons_of_pos (by simpa using hne)]

/-- Packets that are not empty are all taken from the front. -/
theorem split_flatMap_frame_append {packets : List (List α)}
    (h : ∀ packet ∈ packets, packet.length < F.bound) (hne : [] ∉ packets) (m : List α) :
    F.split (packets.flatMap F.frame ++ m) = (packets ++ (F.split m).1, (F.split m).2) := by
  induction packets with
  | nil => rfl
  | cons packet packets ih =>
    obtain ⟨hpacket, hpackets⟩ := List.forall_mem_cons.mp h
    obtain ⟨hfirst, hrest⟩ := not_or.mp (List.mem_cons.not.mp hne)
    rw [List.flatMap_cons, List.append_assoc, split_frame_append hpacket (Ne.symm hfirst),
      ih hpackets hrest]
    rfl

/-- The length that a part of a packet begins with. -/
theorem lengthOf_of_cut {packet tail : List α} (h : packet.length < F.bound)
    (htail : tail <+: F.frame packet) (hwidth : F.width ≤ tail.length) :
    F.lengthOf tail = packet.length := by
  obtain ⟨more, hmore⟩ := htail
  rw [← lengthOf_append hwidth more, hmore, ← List.append_nil (F.frame packet)]
  exact lengthOf_frame_append h []

/-- A part of a packet is not taken. -/
theorem not_hasPacket_of_cut {packet tail : List α} (h : packet.length < F.bound)
    (htail : tail <+: F.frame packet) (hlt : tail.length < (F.frame packet).length) :
    ¬F.HasPacket tail := by
  intro hpacket
  have hle := hpacket.2
  rw [lengthOf_of_cut h htail hpacket.width_le] at hle
  rw [length_frame] at hlt
  omega

/-- **Where a written stream may be cut**: behind some of its packets, or within the next one. -/
theorem exists_cut {packets : List (List α)} {l : List α} (h : l <+: packets.flatMap F.frame) :
    ∃ whole tail, whole <+: packets ∧ l = whole.flatMap F.frame ++ tail ∧
      (tail = [] ∨ ∃ packet, whole ++ [packet] <+: packets ∧ tail <+: F.frame packet ∧
        tail.length < (F.frame packet).length) := by
  induction packets generalizing l with
  | nil => exact ⟨[], [], List.prefix_rfl, List.prefix_nil.mp h, .inl rfl⟩
  | cons packet packets ih =>
    rw [List.flatMap_cons] at h
    by_cases hlt : l.length < (F.frame packet).length
    · -- the cut is within the first packet
      have hl : l <+: F.frame packet :=
        List.prefix_of_prefix_length_le h (List.prefix_append _ _) hlt.le
      exact ⟨[], l, List.nil_prefix, rfl, .inr ⟨packet, ⟨packets, rfl⟩, hl, hlt⟩⟩
    · have hframe : F.frame packet <+: l :=
        List.prefix_of_prefix_length_le (List.prefix_append _ _) h (Nat.not_lt.mp hlt)
      obtain ⟨more, rfl⟩ := hframe
      obtain ⟨whole, tail, hwhole, rfl, htail⟩ := ih ((List.prefix_append_right_inj _).mp h)
      refine ⟨packet :: whole, tail, List.prefix_cons_inj packet |>.mpr hwhole, ?_, ?_⟩
      · rw [List.flatMap_cons, List.append_assoc]
      · rcases htail with hnil | ⟨next, hnext, hcut⟩
        · exact .inl hnil
        · exact .inr ⟨next, List.prefix_cons_inj packet |>.mpr hnext, hcut⟩

end LengthFormat

end PopcornTime
