import Mathlib.Algebra.Ring.Nat
import Mathlib.Data.List.Nodup
import Mathlib.Data.List.TakeWhile
import PopcornTime.Desktop.SubtitleFetcher

namespace PopcornTime.Desktop

open PopcornTime

/-!
# Desktop — the variants of a subtitle

`Subtitler` numbers the subtitles of a language in a box.  When one is picked, all it gets is the
text of the entry, and it looks for a number in it.

* `firstNumber` — what the expression of `variantSelected` finds.
* `firstNumber_variantText` — the number of an entry, or one in the name of the language.
* `variantSelected_iff` — when the entry leads to its own subtitle, whatever has been removed
  meanwhile; `exists_removed` is what the fetchers remove.
-/

/-! ### A number in a text -/

/-- `\w` -/
def isWord (c : Char) : Bool :=
  c.isAlphanum || c == '_'

/-- What `\b([\d]+)\b` finds first; `afterWord` tells what stands ahead of the text. -/
def firstNumber (afterWord : Bool) : List Char → Option (List Char)
  | [] => none
  | c :: text =>
    let digits := (c :: text).takeWhile Char.isDigit
    let rest := (c :: text).dropWhile Char.isDigit
    if afterWord = false ∧ digits ≠ [] ∧ rest.head?.any isWord = false then some digits
    else firstNumber (isWord c) text

/-- `QString::toInt`; `ok` is false for a number that is too large. -/
def toInt (digits : List Char) : Option ℕ :=
  let n := Nat.ofDigitChars 10 digits 0
  if n < 2 ^ 31 then some n else none

/-- Up to a blank, the digits at the front and what ends them are those there are without the
    rest. -/
theorem digits_append_blank (text rest : List Char) :
    (text ++ ' ' :: rest).takeWhile Char.isDigit = text.takeWhile Char.isDigit ∧
      ((text ++ ' ' :: rest).dropWhile Char.isDigit).head?.any isWord =
        (text.dropWhile Char.isDigit).head?.any isWord := by
  induction text with
  | nil => exact ⟨rfl, rfl⟩
  | cons c text ih =>
    rw [List.cons_append]
    by_cases hdigit : c.isDigit = true
    · rw [List.takeWhile_cons_of_pos hdigit, List.takeWhile_cons_of_pos hdigit]
      rw [List.dropWhile_cons_of_pos hdigit, List.dropWhile_cons_of_pos hdigit]
      exact ⟨congrArg _ ih.1, ih.2⟩
    · rw [List.takeWhile_cons_of_neg hdigit, List.takeWhile_cons_of_neg hdigit]
      rw [List.dropWhile_cons_of_neg hdigit, List.dropWhile_cons_of_neg hdigit]
      exact ⟨rfl, rfl⟩

theorem firstNumber_blank (afterWord : Bool) (rest : List Char) :
    firstNumber afterWord (' ' :: rest) = firstNumber false rest := by
  rw [firstNumber, List.takeWhile_cons_of_neg (by decide)]
  exact if_neg fun h => h.2.1 rfl

/-- Before a blank a text is searched as if it ended there, and then what follows. -/
theorem firstNumber_append_blank (afterWord : Bool) (text rest : List Char) :
    firstNumber afterWord (text ++ ' ' :: rest) =
      (firstNumber afterWord text).or (firstNumber false rest) := by
  induction text generalizing afterWord with
  | nil => exact firstNumber_blank afterWord rest
  | cons c text ih =>
    obtain ⟨htake, hhead⟩ := digits_append_blank (c :: text) rest
    rw [List.cons_append] at htake hhead ⊢
    rw [firstNumber, firstNumber, htake, hhead, ih]
    split_ifs <;> rfl

/-- A text of digits is its own number. -/
theorem firstNumber_digits {digits : List Char} (hne : digits ≠ [])
    (h : ∀ c ∈ digits, c.isDigit = true) : firstNumber false digits = some digits := by
  have htake := List.takeWhile_eq_self_iff.mpr h
  have hdrop := List.dropWhile_eq_nil_iff.mpr h
  cases digits with
  | nil => exact absurd rfl hne
  | cons c digits =>
    rw [firstNumber, htake, hdrop]
    exact if_pos ⟨rfl, hne, rfl⟩

theorem toInt_toDigits {n : ℕ} (h : n < 2 ^ 31) : toInt (Nat.toDigits 10 n) = some n := by
  unfold toInt
  rw [Nat.ofDigitChars_ten_toDigits]
  exact if_pos h

/-! ### The box -/

/-- A language with its name.  Its items are pointers to objects of their own, in a list that is
    counted by an `int`. -/
structure NamedLanguage extends SubtitleLanguage where
  language : List Char
  nodup : subs.Nodup
  count_lt : subs.length < 2 ^ 31

namespace NamedLanguage

/-- The text of the entry that `updateVariants` makes for an item. -/
def variantText (lang : NamedLanguage) (item : ℕ) : List Char :=
  lang.language ++ " Variant ".toList ++ Nat.toDigits 10 (lang.subs.idxOf item + 1)

/-- `updateVariants`, with the items the entries are made for. -/
def updateVariants (lang : NamedLanguage) : List (ℕ × List Char) :=
  (lang.subs.filter lang.canDisplay).map fun item => (item, lang.variantText item)

end NamedLanguage

/-- `VariantComboBox::updateItemList` puts every entry on top. -/
def updateItemList {α : Type*} (entries : List α) : List α :=
  entries.reverse

/-- The item of a number, if there is one of it. -/
def itemAt (subs : List ℕ) (digits : List Char) : Option ℕ :=
  match toInt digits with
  | none => none
  | some n =>
    let index : ℤ := n - 1
    if index < 0 ∨ subs.length ≤ index then none else subs[index.toNat]?

/-- `variantSelected`: the item that is put to use.  The box is emptied with the current
    language. -/
def variantSelected (currentLanguage : SubtitleLanguage) (text : List Char) : Option ℕ :=
  match firstNumber false text with
  | none => none
  | some digits => itemAt currentLanguage.subs digits

theorem itemAt_eq_some_iff {subs : List ℕ} {digits : List Char} {item : ℕ} :
    itemAt subs digits = some item ↔ ∃ i, toInt digits = some (i + 1) ∧ subs[i]? = some item := by
  unfold itemAt
  cases toInt digits with
  | none => simp
  | some n =>
    dsimp only
    cases n with
    | zero => simp
    | succ i =>
      have hindex : ((i + 1 : ℕ) : ℤ) - 1 = i := by omega
      rw [hindex, Int.toNat_natCast]
      by_cases hlt : i < subs.length
      · rw [if_neg (by omega)]
        simp
      · rw [if_pos (by omega)]
        simp [hlt]

theorem itemAt_eq_none_iff {subs : List ℕ} {digits : List Char} :
    itemAt subs digits = none ↔ ∀ n, toInt digits = some n → n = 0 ∨ subs.length < n := by
  unfold itemAt
  cases toInt digits with
  | none => simp
  | some n =>
    simp only [Option.some.injEq, forall_eq']
    split_ifs with hindex
    · simp only [true_iff]
      omega
    · rw [List.getElem?_eq_none_iff]
      omega

/-! ### What is picked -/

section Variants

variable {lang : NamedLanguage} {item : ℕ} {text : List Char}

/-- **The number of an entry**: that of the name of the language, if there is one. -/
theorem firstNumber_variantText (lang : NamedLanguage) (item : ℕ) :
    firstNumber false (lang.variantText item) =
      some ((firstNumber false lang.language).getD
        (Nat.toDigits 10 (lang.subs.idxOf item + 1))) := by
  have htext : lang.variantText item = lang.language ++ ' ' :: ("Variant".toList ++
      ' ' :: Nat.toDigits 10 (lang.subs.idxOf item + 1)) := by
    unfold NamedLanguage.variantText
    rw [List.append_assoc]
    rfl
  have hvariant : firstNumber false "Variant".toList = none := by decide
  have hnumber := firstNumber_digits (Nat.toDigits_ne_nil (n := lang.subs.idxOf item + 1) (b := 10))
    fun c hc => Nat.isDigit_of_mem_toDigits (by decide) (by decide) hc
  rw [htext, firstNumber_append_blank, firstNumber_append_blank, hvariant, hnumber]
  cases firstNumber false lang.language <;> rfl

theorem variantSelected_variantText (lang : NamedLanguage) (lang' : SubtitleLanguage) (item : ℕ) :
    variantSelected lang' (lang.variantText item) =
      itemAt lang'.subs ((firstNumber false lang.language).getD
        (Nat.toDigits 10 (lang.subs.idxOf item + 1))) := by
  unfold variantSelected
  rw [firstNumber_variantText]

theorem mem_updateVariants (h : (item, text) ∈ updateItemList lang.updateVariants) :
    item ∈ lang.subs ∧ text = lang.variantText item := by
  unfold updateItemList NamedLanguage.updateVariants at h
  rw [List.mem_reverse, List.mem_map] at h
  obtain ⟨item', hitem, heq⟩ := h
  obtain ⟨rfl, rfl⟩ := Prod.mk.inj heq
  exact ⟨(List.mem_filter.mp hitem).1, rfl⟩

/-- In what is left of a list, an item is at its place if all before it are left. -/
theorem idxOf_filter_iff {p : ℕ → Bool} {l : List ℕ} (hp : p item = true) (hmem : item ∈ l) :
    (l.filter p).idxOf item = l.idxOf item ↔
      ∀ sub ∈ l.takeWhile (fun sub => decide (sub ≠ item)), p sub = true := by
  obtain ⟨pre, post, rfl, hpre⟩ := List.eq_append_cons_of_mem hmem
  have htake : (pre ++ item :: post).takeWhile (fun sub => decide (sub ≠ item)) = pre := by
    rw [List.takeWhile_append_of_pos, List.takeWhile_cons_of_neg (by simp), List.append_nil]
    intro sub hsub
    rw [decide_eq_true_eq]
    rintro rfl
    exact hpre hsub
  have hpre' : item ∉ pre.filter p := fun hitem => hpre (List.mem_filter.mp hitem).1
  rw [htake, List.filter_append, List.filter_cons_of_pos hp]
  rw [List.idxOf_append_of_notMem hpre, List.idxOf_append_of_notMem hpre']
  rw [List.idxOf_cons_self, List.idxOf_cons_self, Nat.add_zero, Nat.add_zero]
  exact List.length_filter_eq_length_iff

/-- The entry of an item leads back to it.
    * A name without a number: all items that were ahead are left.  If the item is gone, there is
      none at its place.
    * A name with a number: that is the place of the item.  If it is gone, there is none of that
      number. -/
def LeadsBack (lang : NamedLanguage) (item : ℕ) (subs : List ℕ) : Prop :=
  match firstNumber false lang.language with
  | none =>
    if item ∈ subs then
      ∀ sub ∈ lang.subs.takeWhile (fun sub => decide (sub ≠ item)), sub ∈ subs
    else subs.length ≤ lang.subs.idxOf item
  | some digits =>
    if item ∈ subs then toInt digits = some (subs.idxOf item + 1)
    else ∀ n, toInt digits = some n → n = 0 ∨ subs.length < n

/-- What should be put to use: the item, or nothing if it is gone. -/
def ownItem (item : ℕ) (subs : List ℕ) : Option ℕ :=
  if item ∈ subs then some item else none

theorem itemAt_eq_ownItem_iff {subs : List ℕ} (hnodup : subs.Nodup) {digits : List Char} :
    itemAt subs digits = ownItem item subs ↔
      if item ∈ subs then toInt digits = some (subs.idxOf item + 1)
      else ∀ n, toInt digits = some n → n = 0 ∨ subs.length < n := by
  unfold ownItem
  by_cases hmem : item ∈ subs
  · rw [if_pos hmem, if_pos hmem, itemAt_eq_some_iff]
    constructor
    · rintro ⟨i, hdigits, hget⟩
      obtain ⟨hlt, hget⟩ := List.getElem?_eq_some_iff.mp hget
      rw [hdigits, ← hget, hnodup.idxOf_getElem]
    · intro hdigits
      exact ⟨_, hdigits, List.getElem?_idxOf hmem⟩
  · rw [if_neg hmem, if_neg hmem, itemAt_eq_none_iff]

/-- **When the entry leads to its own subtitle**, after any removals. -/
theorem variantSelected_iff (hentry : (item, text) ∈ updateItemList lang.updateVariants)
    {lang' : SubtitleLanguage} {removed : List ℕ}
    (hremoved : lang'.subs = removed.foldl List.erase lang.subs) :
    variantSelected lang' text = ownItem item lang'.subs ↔ LeadsBack lang item lang'.subs := by
  obtain ⟨hitem, rfl⟩ := mem_updateVariants hentry
  have hfilter : lang'.subs = lang.subs.filter (· ∉ removed) := by
    rw [hremoved, ← List.diff_eq_foldl, lang.nodup.sdiff_eq_filter]
  have hnodup : lang'.subs.Nodup := hfilter ▸ lang.nodup.filter _
  rw [variantSelected_variantText, itemAt_eq_ownItem_iff hnodup, LeadsBack]
  cases firstNumber false lang.language with
  | some digits => exact Iff.rfl
  | none =>
    have hplace := List.idxOf_lt_length_of_mem hitem
    -- without a number in the language the text's own number is read
    have hint : toInt (Nat.toDigits 10 (lang.subs.idxOf item + 1)) =
        some (lang.subs.idxOf item + 1) := by
      apply toInt_toDigits
      have hcount := lang.count_lt
      omega
    dsimp only [Option.getD_none]
    rw [hint]
    by_cases hmem : item ∈ lang'.subs
    · rw [if_pos hmem, if_pos hmem]
      rw [hfilter] at hmem ⊢
      -- the place is kept exactly when nothing before the item was removed
      have hkept : ∀ sub ∈ lang.subs.takeWhile (fun sub => decide (sub ≠ item)),
          (sub ∈ lang.subs.filter (· ∉ removed) ↔ decide (sub ∉ removed) = true) := by
        intro sub hsub
        rw [List.mem_filter, and_iff_right]
        exact List.takeWhile_subset _ hsub
      rw [forall₂_congr hkept, ← idxOf_filter_iff (List.mem_filter.mp hmem).2 hitem]
      rw [Option.some.injEq, Nat.add_right_cancel_iff, eq_comm]
    · rw [if_neg hmem, if_neg hmem]
      simp only [Option.some.injEq, forall_eq']
      omega

/-- Two subtitles in English: the first one is still being downloaded. -/
def twoVariants : NamedLanguage where
  data := fun sub => if sub = 1 then [0x31] else []
  subs := [0, 1]
  language := "English".toList
  nodup := by decide
  count_lt := by decide

theorem twoVariants_entry :
    (1, "English Variant 2".toList) ∈ updateItemList twoVariants.updateVariants := by
  decide

theorem variantSelected_iff_twoVariants :
    (∀ lang' : SubtitleLanguage, lang'.subs = [].foldl List.erase [0, 1] →
      (variantSelected lang' "English Variant 2".toList = ownItem 1 lang'.subs ↔
        LeadsBack twoVariants 1 lang'.subs)) ∧
      LeadsBack twoVariants 1 [0, 1] := by
  refine ⟨fun _ h => variantSelected_iff twoVariants_entry h, ?_⟩
  show if 1 ∈ [0, 1] then ∀ sub ∈ [0], sub ∈ [0, 1] else 2 ≤ 1
  decide

/-- When the first subtitle cannot be had, the entry of the second one leads nowhere. -/
theorem variantSelected_twoVariants :
    ∃ (lang' : SubtitleLanguage) (removed : List ℕ),
      (1, "English Variant 2".toList) ∈ updateItemList twoVariants.updateVariants ∧
      lang'.subs = removed.foldl List.erase twoVariants.subs ∧
      variantSelected lang' "English Variant 2".toList ≠ ownItem 1 lang'.subs :=
  ⟨⟨twoVariants.data, [1]⟩, [0], twoVariants_entry, by decide, by decide⟩

end Variants

/-! ### What the fetchers remove -/

/-- A reply removes one item of the language, or none. -/
theorem SubtitleFetcher.onFinished_fst (f : SubtitleFetcher) (lang : SubtitleLanguage)
    (answer : Answer) :
    ∃ lang', (f.onFinished (some lang) answer).1 = some lang' ∧
      (lang'.subs = lang.subs ∨ ∃ sub, lang'.subs = lang.subs.erase sub) := by
  cases hcurr : f.currSub with
  | none =>
    refine ⟨lang, ?_, Or.inl rfl⟩
    simp only [SubtitleFetcher.onFinished, hcurr]
  | some sub =>
    rcases SubtitleFetcher.onFinished_cases hcurr lang answer with
      ⟨-, -, heq⟩ | ⟨lang', heq, -, ⟨-, hsubs⟩ | ⟨-, hsubs, -⟩⟩
    · rw [heq]
      exact ⟨lang, rfl, Or.inl rfl⟩
    · rw [heq]
      exact ⟨lang', rfl, Or.inr ⟨sub, hsubs⟩⟩
    · rw [heq]
      exact ⟨lang', rfl, Or.inl hsubs⟩

namespace Fetching

variable {s s' : Fetching} {lang lang' : SubtitleLanguage}

/-- A step removes one item of the language, or none. -/
theorem next_subs {e : FetchingEvent} (h : s.next e = some s') (hlang' : s'.language = some lang') :
    ∃ lang, s.language = some lang ∧
      (lang'.subs = lang.subs ∨ ∃ sub, lang'.subs = lang.subs.erase sub) := by
  cases e with
  | reply k answer =>
    obtain ⟨f, -, hf⟩ := Option.bind_eq_some_iff.mp h
    obtain ⟨-, rfl⟩ := Machine.of_ite_eq_some hf
    have hfst : (f.onFinished s.language answer).1 = some lang' := hlang'
    cases hlanguage : s.language with
    | none =>
      rw [hlanguage] at hfst
      exact absurd hfst nofun
    | some lang =>
      obtain ⟨lang₁, hlang₁, hsubs⟩ := f.onFinished_fst lang answer
      rw [hlanguage, hlang₁] at hfst
      obtain rfl := Option.some.inj hfst
      exact ⟨lang, rfl, hsubs⟩
  | retry k =>
    obtain ⟨f, -, hf⟩ := Option.bind_eq_some_iff.mp h
    obtain ⟨-, rfl⟩ := Machine.of_ite_eq_some hf
    exact ⟨lang', hlang', Or.inl rfl⟩
  | useLanguage =>
    obtain ⟨lang, hlanguage, rfl⟩ := Option.map_eq_some_iff.mp h
    have hsame : (s.useLanguage lang).language = s.language := by
      unfold useLanguage
      split_ifs <;> rfl
    exact ⟨lang', hsame.symm.trans hlang', Or.inl rfl⟩
  | leaveLanguage =>
    obtain rfl := Option.some.inj h
    exact ⟨lang', hlang', Or.inl rfl⟩
  | clear =>
    obtain rfl := Option.some.inj h
    exact absurd hlang' nofun

/-- **Whatever the fetchers do** between two states, they have removed some of the items. -/
theorem exists_removed (h : (machine.goingOn s).Reachable s') (hlang : s.language = some lang)
    (hlang' : s'.language = some lang') :
    ∃ removed : List ℕ, lang'.subs = removed.foldl List.erase lang.subs := by
  refine h.goingOn_invariant (I := fun s' => ∀ lang', s'.language = some lang' →
    ∃ removed : List ℕ, lang'.subs = removed.foldl List.erase lang.subs) ?_ ?_ lang' hlang'
  · intro lang₁ hlang₁
    obtain rfl := Option.some.inj (hlang.symm.trans hlang₁)
    exact ⟨[], rfl⟩
  · intro s₁ e s₂ ih hstep lang₂ hlang₂
    obtain ⟨lang₁, hlang₁, hsubs⟩ := next_subs hstep hlang₂
    obtain ⟨removed, hremoved⟩ := ih lang₁ hlang₁
    rcases hsubs with hsame | ⟨sub, herase⟩
    · exact ⟨removed, hsame.trans hremoved⟩
    · refine ⟨removed ++ [sub], ?_⟩
      rw [herase, hremoved, List.foldl_append]
      rfl

end Fetching

end PopcornTime.Desktop
