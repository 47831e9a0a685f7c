import Mathlib.Data.List.Forall2
import Mathlib.Data.Rat.Cast.Defs

namespace PopcornTime.Android

open PopcornTime

/-!
# Android — JSON values as `GsonUtils` reads them

A string of Java that may be null is an `Option String`.  Gson itself is a parameter where its
texts matter: what it reads back of a value it has written.

* `JsonElement` — the values, with what each is as a string, a boolean or an `int`.
* `GsonUtils.getAsString`, `getAsBoolean`, `getAsInt`, … — a member of an object, or its default.
* `Gson` — writing and reading, and `Gson.standard`: the laws have a model.
-/

/-- `JsonElement`; a number keeps the text it was written as. -/
inductive JsonElement
  | null
  | bool (value : Bool)
  | number (text : String) (value : ℚ)
  | string (text : String)
  | array (elements : List JsonElement)
  | object (members : List (String × JsonElement))

namespace JsonElement

def isJsonNull : JsonElement → Bool
  | .null => true
  | _ => false

/-- `getAsString` of a primitive. -/
def text? : JsonElement → Option String
  | .bool value => some (if value then "true" else "false")
  | .number text _ => some text
  | .string text => some text
  | .null | .array _ | .object _ => none

/-- `getAsBoolean` of a primitive. -/
def boolean? : JsonElement → Option Bool
  | .bool value => some value
  | .number text _ => some (text.toLower == "true")
  | .string text => some (text.toLower == "true")
  | .null | .array _ | .object _ => none

/-- `Integer.parseInt`; `none` is the exception. -/
def parseInt (text : String) : Option Int32 :=
  let (sign, digits) : ℤ × List Char :=
    match text.toList with
    | '-' :: digits => (-1, digits)
    | '+' :: digits => (1, digits)
    | digits => (1, digits)
  if digits ≠ [] ∧ digits.all Char.isDigit then
    let n := sign * digits.foldl (fun (n : ℤ) c => 10 * n + (c.toNat - '0'.toNat : ℕ)) 0
    if -2 ^ 31 ≤ n ∧ n < 2 ^ 31 then some (Int32.ofInt n) else none
  else none

/-- `getAsInt` of a primitive: a number is cut to its whole part and to 32 bits. -/
def int? : JsonElement → Option (Option Int32)
  | .number _ value => some (some (Int32.ofInt (value.num.tdiv value.den)))
  | .bool value => some (parseInt (if value then "true" else "false"))
  | .string text => some (parseInt text)
  | .null | .array _ | .object _ => none

/-- The sign of a decimal text, and the rest. -/
def signed : List Char → ℤ × List Char
  | '-' :: digits => (-1, digits)
  | '+' :: digits => (1, digits)
  | digits => (1, digits)

/-- The number that a decimal text stands for. -/
def decimal? (text : String) : Option ℤ :=
  let (sign, digits) := signed text.toList
  if digits ≠ [] ∧ digits.all Char.isDigit then some (sign * Nat.ofDigitChars 10 digits 0) else none

/-- `Long.parseLong`; `none` is the exception. -/
def parseLong (text : String) : Option Int64 :=
  (decimal? text).bind fun n => if -2 ^ 63 ≤ n ∧ n < 2 ^ 63 then some (Int64.ofInt n) else none

/-- `getAsLong` of a primitive. -/
def long? : JsonElement → Option (Option Int64)
  | .number _ value => some (some (Int64.ofInt (value.num.tdiv value.den)))
  | .bool value => some (parseLong (if value then "true" else "false"))
  | .string text => some (parseLong text)
  | .null | .array _ | .object _ => none

/-- `getAsFloat` of a primitive, with `Float.parseFloat`. -/
def float? {R : Type} (parseFloat : String → Option R) (json : JsonElement) : Option (Option R) :=
  json.text?.map parseFloat

/-- `getAsString` of any element; `none` is the exception.  An array of one element stands for
    it. -/
def asString? : JsonElement → Option String
  | .array [json] => json.asString?
  | json => json.text?

/-- `fromJson` with a deserializer, which is not asked about a null. -/
def nullable {α : Type} (deserialize : JsonElement → Option α) : JsonElement → Option (Option α)
  | .null => some none
  | json => (deserialize json).map some

/-- `fromJson` to a list, for a member that may be missing. -/
def listOf {α : Type} (deserialize : JsonElement → Option α) :
    Option JsonElement → Option (Option (List α))
  | none | some .null => some none
  | some (.array elements) => (elements.mapM deserialize).map some
  | some _ => none

/-- An element of a `String[]`; the outer `none` is the exception. -/
def nullableText? : JsonElement → Option (Option String)
  | .null => some none
  | json => json.text?.map some

/-- `fromJson` to a `String[]`, for a member that may be missing. -/
def strings? : Option JsonElement → Option (Option (List (Option String)))
  | none | some .null => some none
  | some (.array elements) => (elements.mapM nullableText?).map some
  | some _ => none

/-- A `String` as `addProperty` takes it. -/
def ofString : Option String → JsonElement
  | none => .null
  | some text => .string text

/-- An `int` as `addProperty` takes it. -/
def ofInt (n : Int32) : JsonElement :=
  .number (toString n.toInt) n.toInt

/-- A `long` as `addProperty` takes it. -/
def ofLong (n : Int64) : JsonElement :=
  .number (toString n.toInt) n.toInt

/-- `toJson` of a `String[]`. -/
def ofStrings : Option (List (Option String)) → JsonElement
  | none => .null
  | some elements => .array (elements.map ofString)

/-! ### Numbers as texts -/

theorem signed_of_isDigit {c : Char} (hc : c.isDigit = true) (digits : List Char) :
    signed (c :: digits) = (1, c :: digits) := by
  unfold signed
  split
  · rename_i heq
    rw [(List.cons.inj heq).1] at hc
    exact absurd hc (by decide)
  · rename_i heq
    rw [(List.cons.inj heq).1] at hc
    exact absurd hc (by decide)
  · rfl

/-- The text of a number stands for it. -/
theorem decimal?_toString (n : ℤ) : decimal? (toString n) = some n := by
  have hdigits : ∀ m : ℕ, (Nat.toDigits 10 m).all Char.isDigit = true := fun m =>
    List.all_eq_true.mpr fun c hc => Nat.isDigit_of_mem_toDigits (by decide) (by decide) hc
  have hread : ∀ (sign : ℤ) (m : ℕ),
      (if Nat.toDigits 10 m ≠ [] ∧ (Nat.toDigits 10 m).all Char.isDigit then
        some (sign * Nat.ofDigitChars 10 (Nat.toDigits 10 m) 0) else none) = some (sign * m) := by
    intro sign m
    rw [if_pos ⟨Nat.toDigits_ne_nil, hdigits m⟩, Nat.ofDigitChars_ten_toDigits]
  unfold decimal?
  rw [Int.toString_eq_repr, Int.repr_eq_if]
  split_ifs with hn
  · -- the first digit is no sign
    have hsigned : signed (Nat.toDigits 10 n.toNat) = (1, Nat.toDigits 10 n.toNat) := by
      have hall := hdigits n.toNat
      cases hcs : Nat.toDigits 10 n.toNat with
      | nil => exact absurd hcs Nat.toDigits_ne_nil
      | cons c cs =>
        rw [hcs, List.all_cons, Bool.and_eq_true] at hall
        exact signed_of_isDigit hall.1 cs
    rw [Nat.toList_repr, hsigned]
    refine (hread 1 n.toNat).trans ?_
    rw [one_mul, Int.toNat_of_nonneg hn]
  · have hsigned : signed ("-" ++ (-n).toNat.repr).toList = (-1, Nat.toDigits 10 (-n).toNat) := by
      rw [String.toList_append, Nat.toList_repr]
      rfl
    rw [hsigned]
    refine (hread (-1) (-n).toNat).trans ?_
    rw [Int.toNat_of_nonneg (by omega)]
    simp

/-- `parseInt` reads the number that a text stands for, within the bounds. -/
theorem parseInt_eq (text : String) : parseInt text = (decimal? text).bind fun n =>
    if -2 ^ 31 ≤ n ∧ n < 2 ^ 31 then some (Int32.ofInt n) else none := by
  -- the digits add up to the same natural number
  have hfold : ∀ (digits : List Char) (m : ℕ),
      digits.foldl (fun (n : ℤ) c => 10 * n + (c.toNat - '0'.toNat : ℕ)) (m : ℤ) =
        (Nat.ofDigitChars 10 digits m : ℤ) := by
    intro digits
    induction digits with
    | nil => exact fun m => rfl
    | cons c digits ih =>
      intro m
      rw [List.foldl_cons, Nat.ofDigitChars_cons, ← ih]
      push_cast
      rfl
  have hparse : parseInt text =
      if (signed text.toList).2 ≠ [] ∧ (signed text.toList).2.all Char.isDigit then
        let n := (signed text.toList).1 * (signed text.toList).2.foldl
          (fun (n : ℤ) c => 10 * n + (c.toNat - '0'.toNat : ℕ)) 0
        if -2 ^ 31 ≤ n ∧ n < 2 ^ 31 then some (Int32.ofInt n) else none
      else none := rfl
  have hzero := hfold (signed text.toList).2 0
  rw [Nat.cast_zero] at hzero
  rw [hparse]
  dsimp only [decimal?]
  rw [hzero]
  split_ifs with hdigits hbounds
  · rw [Option.bind_some, if_pos hbounds]
  · rw [Option.bind_some, if_neg hbounds]
  · rfl

theorem parseInt_toString (n : Int32) : parseInt (toString n.toInt) = some n := by
  rw [parseInt_eq, decimal?_toString, Option.bind_some, if_pos ⟨n.le_toInt, n.toInt_lt⟩,
    Int32.ofInt_toInt]

@[simp] theorem int?_ofInt (n : Int32) : (ofInt n).int? = some (some n) := by
  simp [ofInt, int?]

@[simp] theorem long?_ofLong (n : Int64) : (ofLong n).long? = some (some n) := by
  simp [ofLong, long?]

/-! ### Lists -/

section Lists

variable {α β : Type*} {f : α → Option β} {g : β → Option α}

/-- A list is read exactly if each of its elements is. -/
theorem isSome_mapM (l : List α) : (l.mapM f).isSome = true ↔ ∀ a ∈ l, (f a).isSome = true := by
  induction l with
  | nil => simp
  | cons a l ih =>
    rw [List.forall_mem_cons, ← ih, List.mapM_cons]
    cases f a with
    | none => simp
    | some b => cases l.mapM f <;> simp

theorem mapM_eq_some_iff {l : List α} {l' : List β} :
    l.mapM f = some l' ↔ List.Forall₂ (fun a b => f a = some b) l l' := by
  induction l generalizing l' with
  | nil => simp [eq_comm]
  | cons a l ih =>
    rw [List.mapM_cons, List.forall₂_cons_left_iff]
    simp only [Option.bind_eq_bind, Option.bind_eq_some_iff, Option.pure_def, Option.some.injEq, ih]
    constructor
    · rintro ⟨b, hb, l₁, hl₁, rfl⟩
      exact ⟨b, l₁, hb, hl₁, rfl⟩
    · rintro ⟨b, l₁, hb, hl₁, rfl⟩
      exact ⟨b, hb, l₁, hl₁, rfl⟩

/-- Elements that are each read back are read back as a list. -/
theorem mapM_eq_some_of_inverse (h : ∀ a b, f a = some b → g b = some a) {l : List α} {l' : List β}
    (hl : l.mapM f = some l') : l'.mapM g = some l :=
  mapM_eq_some_iff.mpr ((mapM_eq_some_iff.mp hl).imp h).flip

/-- What each element keeps the list keeps. -/
theorem map_eq_map_of_mapM {γ : Type*} {p : α → γ} {q : β → γ}
    (h : ∀ a b, f a = some b → p a = q b) {l : List α} {l' : List β} (hl : l.mapM f = some l') :
    l.map p = l'.map q := by
  rw [← List.forall₂_eq_eq_eq, List.forall₂_map_left_iff, List.forall₂_map_right_iff]
  exact (mapM_eq_some_iff.mp hl).imp h

end Lists

end JsonElement

namespace GsonUtils

def getAsString (members : List (String × JsonElement)) (memberName : String) : Option String :=
  (members.lookup memberName).bind JsonElement.text?

def getAsBoolean (members : List (String × JsonElement)) (memberName : String)
    (defaultValue : Bool) : Bool :=
  match members.lookup memberName with
  | none => defaultValue
  | some .null => false
  | some json => json.boolean?.getD defaultValue

/-- `getAsInt` with the default `0`; `none` is the exception of a string that is no number. -/
def getAsInt (members : List (String × JsonElement)) (memberName : String) : Option Int32 :=
  match members.lookup memberName with
  | none => some 0
  | some json => json.int?.getD (some 0)

/-- `getAsLong` with the default `0`. -/
def getAsLong (members : List (String × JsonElement)) (memberName : String) : Option Int64 :=
  match members.lookup memberName with
  | none => some 0
  | some json => json.long?.getD (some 0)

/-- `getAsFloat` with the default `0f`. -/
def getAsFloat {R : Type} [Zero R] (parseFloat : String → Option R)
    (members : List (String × JsonElement)) (memberName : String) : Option R :=
  match members.lookup memberName with
  | none => some 0
  | some json => (json.float? parseFloat).getD (some 0)

/-- `getAsDouble` with the default `0d`, the same for the other type. -/
def getAsDouble {R : Type} [Zero R] (parseDouble : String → Option R)
    (members : List (String × JsonElement)) (memberName : String) : Option R :=
  getAsFloat parseDouble members memberName

end GsonUtils

/-! ### Writing and reading -/

/-- Gson as the application uses it to keep values as texts: `reread` is what it reads back of the
    text it has written.  Members that are null are not written. -/
structure Gson where
  reread : JsonElement → JsonElement
  reread_null : reread .null = .null
  reread_number : ∀ text value, reread (.number text value) = .number text value
  reread_string : ∀ text, reread (.string text) = .string text
  reread_array : ∀ elements, reread (.array elements) = .array (elements.map reread)
  reread_object : ∀ members, reread (.object members) =
    .object ((members.filter (fun m => !m.2.isJsonNull)).map (fun m => (m.1, reread m.2)))

namespace Gson

mutual

/-- A value without the members that are null. -/
def written : JsonElement → JsonElement
  | .array elements => .array (writtenElements elements)
  | .object members => .object (writtenMembers members)
  | json => json

def writtenElements : List JsonElement → List JsonElement
  | [] => []
  | json :: rest => written json :: writtenElements rest

def writtenMembers : List (String × JsonElement) → List (String × JsonElement)
  | [] => []
  | (name, json) :: rest =>
    if json.isJsonNull then writtenMembers rest else (name, written json) :: writtenMembers rest

end

theorem writtenElements_eq_map (elements : List JsonElement) :
    writtenElements elements = elements.map written := by
  induction elements with
  | nil => rw [writtenElements, List.map_nil]
  | cons json rest ih => rw [writtenElements, ih, List.map_cons]

theorem writtenMembers_eq_map (members : List (String × JsonElement)) :
    writtenMembers members = (members.filter (fun m => !m.2.isJsonNull)).map
      (fun m => (m.1, written m.2)) := by
  induction members with
  | nil => rw [writtenMembers, List.filter_nil, List.map_nil]
  | cons m rest ih =>
    obtain ⟨name, json⟩ := m
    rw [writtenMembers]
    by_cases hnull : json.isJsonNull = true
    · rw [if_pos hnull, ih, List.filter_cons_of_neg (by simp [hnull])]
    · rw [if_neg hnull, ih, List.filter_cons_of_pos (by simp [hnull]), List.map_cons]

/-- What Gson does by default. -/
def standard : Gson where
  reread := written
  reread_null := by rw [written] <;> simp
  reread_number := fun _ _ => by rw [written] <;> simp
  reread_string := fun _ => by rw [written] <;> simp
  reread_array := fun elements => by rw [written, writtenElements_eq_map]
  reread_object := fun members => by rw [written, writtenMembers_eq_map]

/-- Elements that come back one by one come back as a list. -/
theorem mapM_map_eq_some {α β : Type*} {f : α → β} {g : β → Option α}
    (h : ∀ x, g (f x) = some x) (l : List α) : (l.map f).mapM g = some l := by
  rw [List.mapM_map, show g ∘ f = pure from funext h, List.mapM_pure, List.map_id']
  rfl

variable (gson : Gson)

@[simp] theorem reread_ofString (text : Option String) :
    gson.reread (.ofString text) = .ofString text := by
  cases text with
  | none => exact gson.reread_null
  | some text => exact gson.reread_string text

@[simp] theorem reread_ofInt (n : Int32) : gson.reread (.ofInt n) = .ofInt n :=
  gson.reread_number _ _

/-- The members of an object that come back. -/
def rereadMembers (members : List (String × JsonElement)) : List (String × JsonElement) :=
  (members.filter (fun m => !m.2.isJsonNull)).map (fun m => (m.1, gson.reread m.2))

theorem reread_members (members : List (String × JsonElement)) :
    gson.reread (.object members) = .object (gson.rereadMembers members) :=
  gson.reread_object members

theorem lookup_rereadMembers_cons (name key : String) (json : JsonElement)
    (rest : List (String × JsonElement)) :
    (gson.rereadMembers ((key, json) :: rest)).lookup name =
      if name = key ∧ json.isJsonNull = false then some (gson.reread json)
      else (gson.rereadMembers rest).lookup name := by
  unfold rereadMembers
  by_cases hnull : json.isJsonNull = false
  · rw [List.filter_cons_of_pos (by simp [hnull]), List.map_cons, List.lookup_cons]
    by_cases hname : name = key
    · simp [hname, hnull]
    · simp [hname, beq_eq_false_iff_ne.mpr hname]
  · rw [List.filter_cons_of_neg (by simpa using hnull), if_neg (fun h => hnull h.2)]

/-- Another key is passed over. -/
theorem lookup_rereadMembers_of_ne {name key : String} (h : name ≠ key) (json : JsonElement)
    (rest : List (String × JsonElement)) :
    (gson.rereadMembers ((key, json) :: rest)).lookup name =
      (gson.rereadMembers rest).lookup name := by
  rw [lookup_rereadMembers_cons, if_neg (fun hkey => h hkey.1)]

theorem getAsString_rereadMembers_of_ne {name key : String} (h : name ≠ key) (json : JsonElement)
    (rest : List (String × JsonElement)) :
    GsonUtils.getAsString (gson.rereadMembers ((key, json) :: rest)) name =
      GsonUtils.getAsString (gson.rereadMembers rest) name := by
  rw [GsonUtils.getAsString, lookup_rereadMembers_of_ne gson h, GsonUtils.getAsString]

/-- A text comes back, also a null, where nothing else is under its key. -/
theorem getAsString_rereadMembers {key : String} (text : Option String)
    {rest : List (String × JsonElement)} (hrest : (gson.rereadMembers rest).lookup key = none) :
    GsonUtils.getAsString (gson.rereadMembers ((key, .ofString text) :: rest)) key = text := by
  unfold GsonUtils.getAsString
  rw [lookup_rereadMembers_cons, reread_ofString, hrest]
  cases text with
  | none => rw [if_neg (fun h => Bool.noConfusion h.2), Option.bind_none]
  | some text =>
    rw [if_pos ⟨rfl, rfl⟩]
    rfl

/-- A `String[]` comes back as it was written. -/
theorem strings?_reread_ofStrings (elements : Option (List (Option String))) :
    JsonElement.strings? (some (gson.reread (.ofStrings elements))) = some elements := by
  cases elements with
  | none =>
    rw [JsonElement.ofStrings, gson.reread_null]
    rfl
  | some elements =>
    have hmap : (elements.map JsonElement.ofString).map gson.reread =
        elements.map JsonElement.ofString := by
      rw [List.map_map]
      exact List.map_congr_left (fun text _ => gson.reread_ofString text)
    have helements : (elements.map JsonElement.ofString).mapM JsonElement.nullableText? =
        some elements := mapM_map_eq_some (fun text => by cases text <;> rfl) elements
    rw [JsonElement.ofStrings, gson.reread_array, hmap, JsonElement.strings?, helements]
    rfl

end Gson

end PopcornTime.Android
