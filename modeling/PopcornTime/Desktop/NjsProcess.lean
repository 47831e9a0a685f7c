import Mathlib.Data.List.TakeWhile
import PopcornTime.Lib.Framing

namespace PopcornTime.Desktop

open PopcornTime

/-!
# Desktop — the tokens of the cast process

`NjsProcess` finds the tokens `<<key: value>>||` in what the node process prints, which arrives in
reads of any length.

* `toQString`, `toLatin1` — the conversions between bytes and the code units of a `QString`.
* `NjsProcess.onReadyRead` — the slot, with `pass` for a turn of its loop.
* `NjsProcess.run_eq_readTokens` — the slot reads the stream as a framed one.
-/

/-- `QByteArray` -/
abbrev QByteArray := List UInt8

/-- The code units of a `QString`. -/
abbrev QString := List UInt16

/-! ### Bytes and texts -/

/-- `isContinuationByte` -/
def isContinuationByte (b : UInt8) : Bool :=
  decide (0x80 ≤ b ∧ b < 0xC0)

/-- The first byte of a longer sequence: how many bytes follow it, the least code point that needs
    them, and its own bits of the code point. -/
def utf8Lead (b : UInt8) : Option (ℕ × ℕ × ℕ) :=
  if b ≤ 0xC1 then none
  else if b < 0xE0 then some (1, 0x80, b.toNat % 32)
  else if b < 0xF0 then some (2, 0x800, b.toNat % 16)
  else if b < 0xF5 then some (3, 0x10000, b.toNat % 8)
  else none

/-- `QUtf8Functions::fromUtf8` at the byte `b`, with `src` behind it: the code point and the number
    of bytes of `src` that belong to it. -/
def fromUtf8 (b : UInt8) (src : QByteArray) : Option (ℕ × ℕ) :=
  match utf8Lead b with
  | none => none
  | some (needed, minUc, bits) =>
    let rest := src.take needed
    let uc := rest.foldl (fun uc c => uc * 64 + c.toNat % 64) bits
    if rest.length < needed ∨ ¬ rest.all isContinuationByte then none
    else if uc < minUc ∨ (0xD800 ≤ uc ∧ uc < 0xE000) ∨ 0x10FFFF < uc then none
    else some (uc, needed)

/-- The code units of a code point. -/
def toUtf16 (uc : ℕ) : QString :=
  if uc < 0x10000 then [UInt16.ofNat uc]
  else [UInt16.ofNat (0xD800 + (uc - 0x10000) / 0x400), UInt16.ofNat (0xDC00 + uc % 0x400)]

/-- `QUtf8::convertToUnicode` behind the byte order mark; the first `skip` bytes belong to a code
    point that has been read. -/
def convertToUnicode : ℕ → QByteArray → QString
  | _, [] => []
  | skip + 1, _ :: src => convertToUnicode skip src
  | 0, b :: src =>
    if b < 0x80 then b.toUInt16 :: convertToUnicode 0 src
    else
      match fromUtf8 b src with
      -- one replacement for the byte, and the next one is read anew
      | none => 0xFFFD :: convertToUnicode 0 src
      | some (uc, needed) => toUtf16 uc ++ convertToUnicode needed src

/-- The byte order mark. -/
def utf8bom : QByteArray := [0xEF, 0xBB, 0xBF]

/-- `QString(const QByteArray &)`: what stands ahead of the first zero byte. -/
def toQString (ba : QByteArray) : QString :=
  let src := ba.takeWhile (· ≠ 0)
  convertToUnicode 0 (if utf8bom <+: src then src.drop 3 else src)

/-- `QString::toLatin1` -/
def toLatin1 (str : QString) : QByteArray :=
  str.map (fun u => if 0xFF < u then 0x3F else u.toUInt8)

/-! ### What comes through as it is -/

/-- A longer sequence has no more code units than bytes behind its first. -/
theorem length_of_fromUtf8 {b : UInt8} {src : QByteArray} {uc needed : ℕ}
    (h : fromUtf8 b src = some (uc, needed)) :
    (toUtf16 uc).length ≤ needed ∧ needed ≤ src.length := by
  rw [fromUtf8] at h
  split at h
  case h_1 => cases h
  case h_2 n minUc bits hlead =>
    simp only at h
    split_ifs at h with hshort hrange
    obtain ⟨huc, rfl⟩ : _ ∧ n = needed := by simpa using h
    rw [not_or, not_lt] at hshort
    have hlen : n ≤ src.length := by
      have := hshort.1; rw [List.length_take] at this; omega
    refine ⟨?_, hlen⟩
    have htwo : (toUtf16 uc).length ≤ 2 := by unfold toUtf16; split_ifs <;> simp
    unfold utf8Lead at hlead
    split_ifs at hlead <;> simp only [Option.some.injEq, Prod.mk.injEq] at hlead
    case pos =>
      -- two bytes
      obtain ⟨rfl, -, rfl⟩ := hlead
      match src with
      | [] => simp at hlen
      | c :: src =>
        have hsmall : uc < 0x10000 := by
          simp only [List.take_succ_cons, List.take_zero, List.foldl_cons, List.foldl_nil] at huc
          omega
        simp [toUtf16, hsmall]
    all_goals omega

theorem length_convertToUnicode (skip : ℕ) (src : QByteArray) :
    (convertToUnicode skip src).length ≤ src.length - skip := by
  induction skip, src using convertToUnicode.induct with
  | case1 => simp [convertToUnicode]
  | case2 skip b src ih => simpa [convertToUnicode] using ih
  | case3 b src hb ih => simpa [convertToUnicode, hb] using ih
  | case4 b src hb hnone ih => simpa [convertToUnicode, hb, hnone] using ih
  | case5 b src hb uc needed hsome ih =>
    obtain ⟨hunits, hneeded⟩ := length_of_fromUtf8 hsome
    simp only [convertToUnicode, hb, if_false, hsome, List.length_append, List.length_cons]
    omega

theorem length_toQString_le (ba : QByteArray) : (toQString ba).length ≤ ba.length := by
  have htake : (ba.takeWhile (· ≠ 0)).length ≤ ba.length := (List.takeWhile_prefix _).length_le
  unfold toQString
  refine (length_convertToUnicode _ _).trans ?_
  split_ifs
  · rw [List.length_drop]; omega
  · omega

/-- The bytes that stand for themselves. -/
def Plain (ba : QByteArray) : Prop :=
  ∀ b ∈ ba, b ≠ 0 ∧ b < 0x80

instance (ba : QByteArray) : Decidable (Plain ba) :=
  List.decidableBAll (fun b => b ≠ 0 ∧ b < 0x80) ba

theorem toLatin1_append (str str' : QString) :
    toLatin1 (str ++ str') = toLatin1 str ++ toLatin1 str' :=
  List.map_append

@[simp] theorem length_toLatin1 (str : QString) : (toLatin1 str).length = str.length :=
  List.length_map _

theorem toLatin1_toUInt16 {ba : QByteArray} (h : ∀ b ∈ ba, b < 0x80) :
    toLatin1 (ba.map UInt8.toUInt16) = ba := by
  rw [toLatin1, List.map_map]
  refine (List.map_congr_left fun b hb => ?_).trans (List.map_id ba)
  have hsmall : ¬ 0xFF < b.toUInt16 := by
    have := h b hb
    rw [UInt16.lt_iff_toNat_lt, UInt8.toNat_toUInt16]
    rw [UInt8.lt_iff_toNat_lt] at this
    exact not_lt.mpr (le_of_lt (this.trans (by decide)))
  simp [hsmall]

theorem convertToUnicode_of_lt {ba : QByteArray} (h : ∀ b ∈ ba, b < 0x80) :
    convertToUnicode 0 ba = ba.map UInt8.toUInt16 := by
  induction ba with
  | nil => rfl
  | cons b ba ih =>
    rw [List.forall_mem_cons] at h
    simp [convertToUnicode, h.1, ih h.2]

/-- A text that gives its bytes back has no longer sequences. -/
theorem lt_of_toLatin1 {ba : QByteArray} (h : toLatin1 (convertToUnicode 0 ba) = ba) :
    ∀ b ∈ ba, b < 0x80 := by
  induction ba with
  | nil => simp
  | cons b ba ih =>
    by_cases hb : b < 0x80
    · simp only [convertToUnicode, hb, if_true, toLatin1, List.map_cons, List.cons.injEq] at h
      exact List.forall_mem_cons.mpr ⟨hb, ih h.2⟩
    · -- a byte from 0x80 on becomes a question mark, or takes more bytes than it gives back
      simp only [convertToUnicode, hb, if_false] at h
      split at h
      case h_1 hnone =>
        simp only [toLatin1, List.map_cons, List.cons.injEq] at h
        exact absurd (h.1 ▸ hb) (by decide)
      case h_2 uc needed hsome =>
        obtain ⟨hunits, hneeded⟩ := length_of_fromUtf8 hsome
        have hlen := congrArg List.length h
        have hrest := length_convertToUnicode needed ba
        rw [length_toLatin1, List.length_append, List.length_cons] at hlen
        omega

theorem toQString_of_plain {ba : QByteArray} (h : Plain ba) :
    toQString ba = ba.map UInt8.toUInt16 := by
  have htake : ba.takeWhile (· ≠ 0) = ba :=
    List.takeWhile_eq_self_iff.mpr (fun b hb => by simpa using (h b hb).1)
  have hbom : ¬ utf8bom <+: ba := by
    rintro ⟨rest, rfl⟩
    exact absurd (h 0xEF (by simp [utf8bom])).2 (by decide)
  rw [toQString, htake, if_neg hbom]
  exact convertToUnicode_of_lt (fun b hb => (h b hb).2)

/-- Bytes come back from a text exactly if they are ASCII without a zero. -/
theorem toLatin1_toQString {ba : QByteArray} : toLatin1 (toQString ba) = ba ↔ Plain ba := by
  constructor
  · intro h
    have hlen := congrArg List.length h
    rw [length_toLatin1] at hlen
    have htake : ba.takeWhile (· ≠ 0) <+: ba := List.takeWhile_prefix _
    rw [toQString] at h hlen
    have hconv := length_convertToUnicode 0
    split_ifs at h hlen with hbom
    · have hle := hconv ((ba.takeWhile (· ≠ 0)).drop 3)
      have hlong := hbom.length_le
      have := htake.length_le
      simp only [List.length_drop, utf8bom, List.length_cons, List.length_nil] at hle hlong
      omega
    · have hle := hconv (ba.takeWhile (· ≠ 0))
      have hall : ba.takeWhile (· ≠ 0) = ba := htake.eq_of_length_le (by omega)
      have hzero := List.takeWhile_eq_self_iff.mp hall
      rw [hall] at h
      exact fun b hb => ⟨by simpa using hzero b hb, lt_of_toLatin1 h b hb⟩
  · intro h
    rw [toQString_of_plain h]
    exact toLatin1_toUInt16 (fun b hb => (h b hb).2)

/-! ### The source -/

/-- `indexOf` -/
def indexOf {α : Type*} [BEq α] (text pat : List α) : Option ℕ :=
  (text.dropInfix? pat).map (fun parts => parts.1.length)

section IndexOf

variable {α : Type*} [BEq α] [LawfulBEq α] {text pat : List α}

theorem not_infix_of_indexOf (h : indexOf text pat = none) : ¬ pat <:+: text :=
  not_infix_of_dropInfix?_eq_none (by simpa [indexOf] using h)

/-- The pattern does not begin ahead of the index. -/
theorem indexOf_eq_some_iff (hne : pat ≠ []) {i : ℕ} :
    indexOf text pat = some i ↔
      ∃ u v, text = u ++ pat ++ v ∧ u.length = i ∧ ¬ pat <:+: u ++ pat.dropLast := by
  simp only [indexOf, Option.map_eq_some_iff, Prod.exists]
  constructor
  · rintro ⟨u, v, hfound, hlen⟩
    obtain ⟨htext, hfirst⟩ := (dropInfix?_eq_some_iff_first hne).mp hfound
    exact ⟨u, v, htext, hlen, hfirst⟩
  · rintro ⟨u, v, htext, hlen, hfirst⟩
    exact ⟨u, v, (dropInfix?_eq_some_iff_first hne).mpr ⟨htext, hfirst⟩, hlen⟩

end IndexOf

/-- A `haveToken` signal. -/
structure Token where
  key : QByteArray
  value : QByteArray
deriving DecidableEq, Repr

/-- How long the payload of a token is, at the least. -/
def Token.size (t : Token) : ℕ :=
  t.key.length + 2 + t.value.length

namespace NjsProcess

/-- `CHROMECAST_RESPONSE_HEADER` -/
def header : QByteArray := [0x3C, 0x3C]

/-- `CHROMECAST_RESPONSE_FOOTER` -/
def footer : QByteArray := [0x3E, 0x3E]

/-- The signal for a payload. -/
def haveToken (payload : QByteArray) : Option Token :=
  let str := toQString payload
  match indexOf str [0x3A, 0x20] with
  | none => none
  | some index =>
    if 0 < index ∧ index + 2 < str.length then
      some ⟨toLatin1 (str.take index), toLatin1 (str.drop (index + 2))⟩
    else none

/-- A turn of the loop: the buffer it leaves, and the signal if the loop goes on. -/
def pass (buffer : QByteArray) : QByteArray × Option (Option Token) :=
  match indexOf buffer header with
  -- without a header nothing is kept, half of one neither
  | none => ([], none)
  | some start =>
    let buffer := buffer.drop start
    match indexOf buffer footer with
    -- the rest of the message is still to come
    | none => (buffer, none)
    | some fin =>
      if fin = 0 then (buffer, none)
      else (buffer.drop (fin + 4), some (haveToken ((buffer.drop 2).take (fin - 2))))

/-- The loop of `onReadyRead`, for at most `fuel` turns. -/
def loop : ℕ → QByteArray → QByteArray × List Token
  | 0, buffer => (buffer, [])
  | fuel + 1, buffer =>
    if buffer = [] then (buffer, [])
    else
      match pass buffer with
      | (buffer, none) => (buffer, [])
      | (buffer, some signal) => ((loop fuel buffer).1, signal.toList ++ (loop fuel buffer).2)

/-- `onReadyRead`: the buffer behind it, and the signals. -/
def onReadyRead (buffer data : QByteArray) : QByteArray × List Token :=
  loop (buffer ++ data).length (buffer ++ data)

/-- The signals of a stream that arrives in reads. -/
def runFrom (buffer : QByteArray) : List QByteArray → List Token
  | [] => []
  | data :: reads =>
    (onReadyRead buffer data).2 ++ runFrom (onReadyRead buffer data).1 reads

/-- The signals behind `start`, which empties the buffer. -/
def run (reads : List QByteArray) : List Token :=
  runFrom [] reads

/-! ### The stream as a framed one -/

/-- The frames of the stream. -/
def framing : Framing UInt8 Token where
  opener := 0x3C
  closer := 0x3E
  distinct := by decide
  skipped := 2
  token := haveToken

/-- What `buffer` holds between two reads. -/
def store : Framing.Pos UInt8 → QByteArray
  | .frame p => header ++ p
  | _ => []

/-- A header at the front holds no footer. -/
theorem header_append_eq {v u w : QByteArray} (h : header ++ v = u ++ footer ++ w) :
    ∃ p, u = header ++ p ∧ v = p ++ footer ++ w := by
  match u with
  | [] => simp [header, footer] at h
  | [a] => simp [header, footer] at h
  | a :: b :: p =>
    simp only [header, List.cons_append, List.cons.injEq, List.nil_append] at h
    obtain ⟨rfl, rfl, rfl⟩ := h
    exact ⟨p, rfl, rfl⟩

open Framing

/-- Behind the first header a frame is open. -/
theorem exists_opened {buffer : QByteArray} {start : ℕ} (h : indexOf buffer header = some start) :
    ∃ u v, buffer = u ++ header ++ v ∧ buffer.drop start = header ++ v ∧
      ¬header <:+: u ++ header.dropLast := by
  obtain ⟨u, v, rfl, rfl, hfirst⟩ := (indexOf_eq_some_iff (by simp [header])).mp h
  exact ⟨u, v, rfl, by simp, hfirst⟩

/-- A turn that ends the loop has come to the end of the stream. -/
theorem pass_stop {buffer left : QByteArray} (h : pass buffer = (left, none)) :
    left = store (cut (framing.after .gap buffer)) ∧ framing.tokens .gap buffer = [] := by
  rw [pass] at h
  split at h
  case h_1 hstart =>
    cases h
    obtain ⟨hafter, htok⟩ := framing.after_gap (not_infix_of_indexOf hstart)
    rw [hafter, htok]
    exact ⟨by split_ifs <;> rfl, rfl⟩
  case h_2 start hstart =>
    obtain ⟨u, v, rfl, hdrop, hfirst⟩ := exists_opened hstart
    obtain ⟨hopen, hnone⟩ := framing.after_opening u hfirst
    simp only [hdrop] at h
    split at h
    case h_1 hfin =>
      cases h
      -- opened and not closed yet: the message stays in the buffer from its header on
      have hv : ¬ footer <:+: v := fun hin =>
        not_infix_of_indexOf hfin (hin.trans (List.suffix_append _ _).isInfix)
      obtain ⟨hafter, htok⟩ := framing.after_frame [] v hv
      rw [show header = [framing.opener, framing.opener] from rfl, after_append, tokens_append,
        hopen, hnone, hafter, htok]
      exact ⟨rfl, rfl⟩
    case h_2 fin hfin =>
      obtain ⟨u', v', htext, hlen, -⟩ := (indexOf_eq_some_iff (by simp [footer])).mp hfin
      obtain ⟨p, rfl, -⟩ := header_append_eq htext
      -- a footer is behind the header, so this pass does not stop
      have hpos : fin ≠ 0 := by rw [← hlen]; simp [header]
      rw [if_neg hpos] at h
      cases h

/-- A turn that goes on has come behind a frame. -/
theorem pass_goesOn {buffer left : QByteArray} {signal : Option Token}
    (h : pass buffer = (left, some signal)) :
    left.length < buffer.length ∧
      cut (framing.after .gap buffer) = cut (framing.after .gap left) ∧
      framing.tokens .gap buffer = signal.toList ++ framing.tokens .gap left := by
  rw [pass] at h
  split at h
  case h_1 => cases h
  case h_2 start hstart =>
    obtain ⟨u, v, rfl, hdrop, hfirst⟩ := exists_opened hstart
    simp only [hdrop] at h
    split at h
    case h_1 => cases h
    case h_2 fin hfin =>
      obtain ⟨u', w, htext, rfl, hclose⟩ := (indexOf_eq_some_iff (by simp [footer])).mp hfin
      obtain ⟨p, rfl, rfl⟩ := header_append_eq htext
      have hpos : (header ++ p).length ≠ 0 := by simp [header]
      rw [if_neg hpos] at h
      have hpay : ((header ++ (p ++ footer ++ w)).drop 2).take ((header ++ p).length - 2) = p := by
        simp [header]
      have hleft : (header ++ (p ++ footer ++ w)).drop ((header ++ p).length + 4) = w.drop 2 := by
        have hsplit : header ++ (p ++ footer ++ w) = (header ++ p ++ footer) ++ w := by simp
        have hlen : (header ++ p).length + 4 = (header ++ p ++ footer).length + 2 := by
          simp [footer]; omega
        rw [hsplit, hlen, ← List.drop_drop, List.drop_left]
      rw [hpay, hleft] at h
      cases h
      have hp : ¬ [framing.closer, framing.closer] <:+: p ++ [framing.closer] := fun hin =>
        hclose (hin.trans ⟨header, [], by simp [footer, framing]⟩)
      obtain ⟨hafter, htok⟩ := framing.after_framed u p hfirst hp
      -- the two bytes behind the footer are passed over
      obtain ⟨hskip, hskipTok⟩ := framing.after_skip 1 w
      have hsplit : u ++ header ++ (p ++ footer ++ w) = (u ++ header ++ (p ++ footer)) ++ w := by
        simp
      refine ⟨by simp [header, footer]; omega, ?_, ?_⟩
      · rw [hsplit, after_append]
        exact (congrArg (fun s => cut (framing.after s w)) hafter).trans hskip
      · rw [hsplit, tokens_append]
        exact congrArg₂ (· ++ ·) htok
          ((congrArg (fun s => framing.tokens s w) hafter).trans hskipTok)

/-- Enough turns come to the end of the stream. -/
theorem loop_eq {fuel : ℕ} {buffer : QByteArray} (h : buffer.length ≤ fuel) :
    loop fuel buffer =
      (store (cut (framing.after .gap buffer)), framing.tokens .gap buffer) := by
  induction fuel generalizing buffer with
  | zero =>
    obtain rfl : buffer = [] := List.length_eq_zero_iff.mp (by omega)
    rfl
  | succ fuel ih =>
    rw [loop]
    split_ifs with hempty
    · subst hempty; rfl
    · split
      case h_1 left hpass =>
        obtain ⟨hleft, htok⟩ := pass_stop hpass
        rw [hleft, htok]
      case h_2 left signal hpass =>
        obtain ⟨hlen, hafter, htok⟩ := pass_goesOn hpass
        rw [ih (by omega), hafter, htok]

/-- The slot reads on to the end of the data. -/
theorem onReadyRead_eq (buffer data : QByteArray) :
    onReadyRead buffer data =
      (store (cut (framing.after .gap (buffer ++ data))), framing.tokens .gap (buffer ++ data)) :=
  loop_eq le_rfl

/-- The buffer stands for the place where the last read ended. -/
theorem after_store {xs : QByteArray} {s : Pos UInt8} (h : s = cut (framing.after .gap xs)) :
    framing.after .gap (store s) = s ∧ framing.tokens .gap (store s) = [] := by
  generalize hx : framing.after .gap xs = t at h
  subst h
  match t with
  | .gap => exact ⟨rfl, rfl⟩
  | .half => exact ⟨rfl, rfl⟩
  | .skip n => exact ⟨rfl, rfl⟩
  | .frame p =>
    have hp := framing.not_infix_of_after hx
    obtain ⟨hafter, htok⟩ := framing.after_frame [] p hp
    exact ⟨hafter, htok⟩

/-- The slot reads the stream as a framed one. -/
theorem runFrom_eq_readTokens (xs : QByteArray) {s : Pos UInt8} (reads : List QByteArray)
    (h : s = cut (framing.after .gap xs)) :
    runFrom (store s) reads = framing.readTokens s reads := by
  induction reads generalizing xs s with
  | nil => rfl
  | cons data reads ih =>
    obtain ⟨hafter, htok⟩ := after_store h
    rw [runFrom, readTokens, onReadyRead_eq, after_append, tokens_append, hafter, htok,
      List.nil_append]
    refine congrArg _ (ih (store s ++ data) ?_)
    rw [after_append, hafter]

theorem run_eq_readTokens (reads : List QByteArray) :
    run reads = framing.readTokens .gap reads :=
  runFrom_eq_readTokens [] reads rfl

/-! ### The signal for a payload -/

theorem haveToken_eq_some_iff {payload : QByteArray} {t : Token} :
    haveToken payload = some t ↔
      ∃ u v, toQString payload = u ++ [0x3A, 0x20] ++ v ∧ ¬ [0x3A, 0x20] <:+: u ++ [0x3A] ∧
        u ≠ [] ∧ v ≠ [] ∧ t = ⟨toLatin1 u, toLatin1 v⟩ := by
  have hcolon : ([0x3A, 0x20] : QString) ≠ [] := by simp
  rw [haveToken]
  constructor
  · intro h
    split at h
    case h_1 => cases h
    case h_2 index hindex =>
      obtain ⟨u, v, htext, rfl, hfirst⟩ := (indexOf_eq_some_iff hcolon).mp hindex
      split_ifs at h with hpos
      have hu : (toQString payload).take u.length = u := by rw [htext, List.append_assoc]; simp
      have hv : (toQString payload).drop (u.length + 2) = v := by
        rw [htext, ← List.drop_drop, List.append_assoc, List.drop_left]; rfl
      rw [hu, hv] at h
      rw [htext] at hpos
      simp only [List.length_append, List.length_cons, List.length_nil] at hpos
      exact ⟨u, v, htext, hfirst, List.length_pos_iff.mp hpos.1,
        List.length_pos_iff.mp (by omega), (Option.some.inj h).symm⟩
  · rintro ⟨u, v, htext, hfirst, hu, hv, rfl⟩
    have hindex := (indexOf_eq_some_iff hcolon).mpr ⟨u, v, htext, rfl, hfirst⟩
    -- key and value are not empty, which is what the source checks by the index
    have hpos : 0 < u.length ∧ u.length + 2 < (toQString payload).length := by
      have hu' := List.length_pos_iff.mpr hu
      have hv' := List.length_pos_iff.mpr hv
      rw [htext]
      simp only [List.length_append, List.length_cons, List.length_nil]
      omega
    have hkey : (toQString payload).take u.length = u := by rw [htext, List.append_assoc]; simp
    have hval : (toQString payload).drop (u.length + 2) = v := by
      rw [htext, ← List.drop_drop, List.append_assoc, List.drop_left]; rfl
    rw [hindex]
    simp only [if_pos hpos, hkey, hval]

/-- A token is no longer than its payload. -/
theorem size_haveToken_le {payload : QByteArray} {t : Token} (h : haveToken payload = some t) :
    t.size ≤ payload.length := by
  obtain ⟨u, v, htext, -, -, -, rfl⟩ := haveToken_eq_some_iff.mp h
  have hlen := length_toQString_le payload
  rw [htext] at hlen
  simp only [List.length_append, List.length_cons, List.length_nil] at hlen
  simpa [Token.size] using hlen

/-- A payload is read as its key and its value exactly if the value is there and plain. -/
theorem haveToken_eq_iff {key value : QByteArray} (hkey : key ≠ []) (hplain : Plain key)
    (hcolon : ¬ [0x3A, 0x20] <:+: key ++ [0x3A]) :
    haveToken (key ++ [0x3A, 0x20] ++ value) = some ⟨key, value⟩ ↔
      value ≠ [] ∧ Plain value := by
  have hcolonPlain : Plain [0x3A, 0x20] := by decide
  constructor
  · intro h
    obtain ⟨u, v, htext, -, -, hv, ht⟩ := haveToken_eq_some_iff.mp h
    obtain ⟨hu, hv'⟩ : key = toLatin1 u ∧ value = toLatin1 v := by simpa using ht
    have hback : toLatin1 (toQString (key ++ [0x3A, 0x20] ++ value)) =
        key ++ [0x3A, 0x20] ++ value := by
      rw [htext, toLatin1_append, toLatin1_append, ← hu, ← hv']
      rfl
    refine ⟨?_, fun b hb => toLatin1_toQString.mp hback b (by simp [hb])⟩
    rw [hv']
    exact fun hnil => hv (List.map_eq_nil_iff.mp hnil)
  · rintro ⟨hne, hvalue⟩
    have hall : Plain (key ++ [0x3A, 0x20] ++ value) := by
      intro b hb
      rcases List.mem_append.mp hb with hb | hb
      · exact (List.mem_append.mp hb).elim (hplain b) (hcolonPlain b)
      · exact hvalue b hb
    rw [haveToken_eq_some_iff]
    refine ⟨key.map UInt8.toUInt16, value.map UInt8.toUInt16, ?_, ?_, by simpa, by simpa, ?_⟩
    · rw [toQString_of_plain hall, List.map_append, List.map_append]; rfl
    · -- code units below 0x80 come from the same bytes
      rintro ⟨w, w', hw⟩
      refine hcolon ⟨toLatin1 w, toLatin1 w', ?_⟩
      have hback := congrArg toLatin1 hw
      rw [toLatin1_append, toLatin1_append, toLatin1_append,
        toLatin1_toUInt16 (fun b hb => (hplain b hb).2)] at hback
      exact hback
    · rw [toLatin1_toUInt16 (fun b hb => (hplain b hb).2),
        toLatin1_toUInt16 (fun b hb => (hvalue b hb).2)]

end NjsProcess

end PopcornTime.Desktop
