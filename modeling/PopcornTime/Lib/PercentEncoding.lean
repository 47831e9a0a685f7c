import Mathlib.Data.List.Basic

namespace PopcornTime

/-!
# Percent encoding

The characters that may not stand in a uri are written as the bytes of their UTF-8 encoding, each as
a percent sign and two hexadecimal digits.  A reader collects the bytes of a run of percent signs
and decodes them together.

* `PercentEncoding.encode` — with the characters that stay as they are; `decode`, the reader, for
  which a plus sign is a space.
* `PercentEncoding.decode_encode` — the round trip.
* `PercentEncoding.encode_mem` — the characters of an encoded text.
-/

namespace PercentEncoding

/-! ### Digits -/

def hexDigit (n : ℕ) : Char := Char.ofNat (if n < 10 then 48 + n else 55 + n)

def hexValue (c : Char) : Option ℕ :=
  if '0' ≤ c ∧ c ≤ '9' then some (c.toNat - 48)
  else if 'A' ≤ c ∧ c ≤ 'F' then some (c.toNat - 55)
  else if 'a' ≤ c ∧ c ≤ 'f' then some (c.toNat - 87)
  else none

theorem hexValue_hexDigit : ∀ n < 16, hexValue (hexDigit n) = some n := by decide

/-! ### Writing and reading -/

/-- The bytes of a text. -/
def utf8 (text : List Char) : List UInt8 := text.flatMap String.utf8EncodeChar

/-- The text of some bytes; what is not UTF-8 is read as `malformed` says. -/
def ofUtf8 (malformed : List UInt8 → List Char) (bytes : List UInt8) : List Char :=
  match bytes.toByteArray.utf8Decode? with
  | some text => text.toList
  | none => malformed bytes

def encodeByte (b : UInt8) : List Char := ['%', hexDigit (b.toNat / 16), hexDigit (b.toNat % 16)]

def encodeChar (stays : Char → Bool) (c : Char) : List Char :=
  if stays c then [c] else (String.utf8EncodeChar c).flatMap encodeByte

def encode (stays : Char → Bool) (text : List Char) : List Char := text.flatMap (encodeChar stays)

/-- The rest of a text behind the bytes of a run of percent signs; `none` is an exception. -/
def decodeFrom (malformed : List UInt8 → List Char) : List UInt8 → List Char → Option (List Char)
  | pending, [] => some (ofUtf8 malformed pending)
  | pending, '%' :: a :: b :: rest =>
    match hexValue a, hexValue b with
    | some x, some y => decodeFrom malformed (pending ++ [UInt8.ofNat (16 * x + y)]) rest
    | _, _ => none
  | _, '%' :: _ => none
  | pending, c :: rest =>
    (decodeFrom malformed [] rest).map fun text =>
      ofUtf8 malformed pending ++ (if c = '+' then ' ' else c) :: text

def decode (malformed : List UInt8 → List Char) (text : List Char) : Option (List Char) :=
  decodeFrom malformed [] text

/-! ### The round trip -/

variable {malformed : List UInt8 → List Char} {stays : Char → Bool}

theorem ofUtf8_utf8 (text : List Char) : ofUtf8 malformed (utf8 text) = text := by
  have hbytes : (utf8 text).toByteArray = text.utf8Encode := by
    rw [List.utf8Encode]
    rfl
  rw [ofUtf8, hbytes, List.utf8Decode?_utf8Encode]

theorem decodeFrom_encodeByte (pending : List UInt8) (b : UInt8) (rest : List Char) :
    decodeFrom malformed pending (encodeByte b ++ rest) =
      decodeFrom malformed (pending ++ [b]) rest := by
  have hb : b.toNat < 256 := b.toNat_lt
  have hsum : 16 * (b.toNat / 16) + b.toNat % 16 = b.toNat := Nat.div_add_mod _ _
  rw [encodeByte, List.cons_append, List.cons_append, List.cons_append, List.nil_append, decodeFrom,
    hexValue_hexDigit _ (by omega), hexValue_hexDigit _ (by omega)]
  dsimp only
  rw [hsum, UInt8.ofNat_toNat]

theorem decodeFrom_encodeBytes (pending bytes : List UInt8) (rest : List Char) :
    decodeFrom malformed pending (bytes.flatMap encodeByte ++ rest) =
      decodeFrom malformed (pending ++ bytes) rest := by
  induction bytes generalizing pending with
  | nil => rw [List.flatMap_nil, List.nil_append, List.append_nil]
  | cons b bytes ih =>
    rw [List.flatMap_cons, List.append_assoc, decodeFrom_encodeByte, ih, List.append_assoc,
      List.singleton_append]

theorem decodeFrom_cons (pending : List UInt8) {c : Char} (hc : c ≠ '%') (rest : List Char) :
    decodeFrom malformed pending (c :: rest) = (decodeFrom malformed [] rest).map fun text =>
      ofUtf8 malformed pending ++ (if c = '+' then ' ' else c) :: text := by
  rw [decodeFrom]
  · rintro a b rest' rfl
    exact absurd rfl hc
  · exact fun h => hc h

/-- **The round trip.**  What has been encoded is read back, whatever characters stay as they are
    apart from the two that the reader reads otherwise. -/
theorem decode_encode (hpercent : stays '%' = false) (hplus : stays '+' = false) (text : List Char) :
    decode malformed (encode stays text) = some text := by
  suffices go : ∀ before : List Char,
      decodeFrom malformed (utf8 before) (encode stays text) = some (before ++ text) from go []
  induction text with
  | nil =>
    intro before
    rw [encode, List.flatMap_nil, decodeFrom, ofUtf8_utf8, List.append_nil]
  | cons c text ih =>
    intro before
    rw [encode, List.flatMap_cons, ← encode, encodeChar]
    split_ifs with hstays
    · have hne : c ≠ '%' := fun h => by
        rw [h, hpercent] at hstays
        exact Bool.noConfusion hstays
      have hne' : c ≠ '+' := fun h => by
        rw [h, hplus] at hstays
        exact Bool.noConfusion hstays
      have hrest : decodeFrom malformed [] (encode stays text) = some text := ih []
      rw [List.singleton_append, decodeFrom_cons _ hne, hrest, Option.map_some, if_neg hne',
        ofUtf8_utf8]
    · have hmore : utf8 before ++ String.utf8EncodeChar c = utf8 (before ++ [c]) := by
        simp [utf8]
      rw [decodeFrom_encodeBytes, hmore, ih, List.append_assoc, List.singleton_append]

/-! ### The characters -/

/-- An encoded text has the characters that stay, and those of the bytes. -/
theorem encode_mem {text : List Char} {c : Char} (h : c ∈ encode stays text) :
    stays c = true ∧ c ∈ text ∨ c ∈ "%0123456789ABCDEF".toList := by
  rw [encode, List.mem_flatMap] at h
  obtain ⟨a, ha, h⟩ := h
  rw [encodeChar] at h
  split_ifs at h with hstays
  · rw [List.mem_singleton.mp h]
    exact .inl ⟨hstays, ha⟩
  · obtain ⟨b, -, h⟩ := List.mem_flatMap.mp h
    have hb : b.toNat < 256 := b.toNat_lt
    have hdigit : ∀ n < 16, hexDigit n ∈ "%0123456789ABCDEF".toList := by decide
    rw [encodeByte] at h
    rcases List.mem_cons.mp h with rfl | h
    · exact .inr (by decide)
    · rcases List.mem_cons.mp h with rfl | h
      · exact .inr (hdigit _ (by omega))
      · rw [List.mem_singleton.mp h]
        exact .inr (hdigit _ (by omega))

end PercentEncoding

end PopcornTime
