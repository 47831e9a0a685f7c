import PopcornTime.Desktop.Streamerok

namespace PopcornTime.Desktop

open PopcornTime

/-!
# Desktop streamer — what `isRangeDownloaded` answers

A read of `[begin, end)` needs the pieces that hold a byte of it.  `isRangeDownloaded` tests the
pieces from `firstPiece + begin / len` to `firstPiece + end / len` instead: it leaves out the
offset of the file inside its first piece, counts `end` as a byte of the range, and refuses a
range that reaches past the end of the file.

* `Layout.RangeHad` — every piece of the range is had.
* `Layout.Undisturbed` — the pieces in which the two sets differ do not decide the answer.
* `Layout.Aligned` — a condition on the layout and the range alone under which the two sets are
  equal.
* `isRangeDownloaded_iff` — the answer is right exactly under `Undisturbed`, and right for every
  set of had pieces exactly under `Aligned`.
-/

namespace Layout

variable (L : Layout)

/-- Every piece that holds a byte of the part of `[b, e)` inside the file is had. -/
def RangeHad (had : ℤ → Bool) (b e : ℤ) : Prop :=
  ∀ i, L.Holds b e i → had i = true

/-- A piece of the range is missing. -/
def RangeMissing (had : ℤ → Bool) (b e : ℤ) : Prop :=
  ∃ i, L.Holds b e i ∧ had i = false

/-- The first piece the code tests. -/
def testedFirst (b : ℤ) : ℤ := L.firstPiece + b / L.len

/-- The last piece the code tests. -/
def testedLast (e : ℤ) : ℤ := L.firstPiece + e / L.len

/-- The pieces in which the tested pieces and the pieces of the range differ do not decide the
    answer: a range past the end of the file misses a piece anyway; a piece tested in front of
    the range or behind it is had, or the range misses a piece; and the last piece of the range,
    where it is not tested, is had, or a tested piece is missing. -/
def Undisturbed (had : ℤ → Bool) (b e : ℤ) : Prop :=
  if L.fileSize < e then L.RangeMissing had b e
  else
    (b = e ∨ L.testedFirst b < (L.offset + b) / L.len →
      had (L.testedFirst b) = true ∨ L.RangeMissing had b e) ∧
    ((L.offset + e - 1) / L.len < L.testedLast e →
      had (L.testedLast e) = true ∨ L.RangeMissing had b e) ∧
    (b < e → L.testedLast e < (L.offset + e - 1) / L.len →
      had ((L.offset + e - 1) / L.len) = true ∨
        ∃ i, L.testedFirst b ≤ i ∧ i ≤ L.testedLast e ∧ had i = false)

/-- The range is not empty, ends inside the file, and the offset of the file in its first piece
    moves neither end of it over a piece edge. -/
def Aligned (b e : ℤ) : Prop :=
  b < e ∧ e ≤ L.fileSize ∧ b % L.len + L.offset % L.len < L.len ∧
    0 < e % L.len + L.offset % L.len ∧ e % L.len + L.offset % L.len ≤ L.len

theorem not_rangeHad_iff {had : ℤ → Bool} {b e : ℤ} :
    ¬L.RangeHad had b e ↔ L.RangeMissing had b e := by
  unfold RangeHad RangeMissing
  simp only [not_forall, Bool.not_eq_true, exists_prop]

/-! ### The two piece ranges -/

/-- The piece of a byte of the file, counted from the file's first piece. -/
theorem piece_eq (h : 0 < L.fileSize) (x c : ℤ) :
    (L.offset + x + c) / L.len
      = L.firstPiece + x / L.len + (x % L.len + L.offset % L.len + c) / L.len := by
  rw [L.firstPiece_eq h]
  have hx := Int.emod_add_mul_ediv x L.len
  have ho := Int.emod_add_mul_ediv L.offset L.len
  have hsum : L.offset + x + c
      = (x % L.len + L.offset % L.len + c) + (L.offset / L.len + x / L.len) * L.len := by
    linarith
  rw [hsum, Int.add_mul_ediv_right _ _ (ne_of_gt L.len_pos)]
  ring

/-- The first piece of the range is the first one tested, or the next one where the offset
    moves `b` over a piece edge. -/
theorem rangeFirst_eq (h : 0 < L.fileSize) (b : ℤ) :
    (L.offset + b) / L.len =
      if b % L.len + L.offset % L.len < L.len then L.testedFirst b else L.testedFirst b + 1 := by
  have hlen := L.len_pos
  have hb₀ := Int.emod_nonneg b (ne_of_gt hlen)
  have hb₁ := Int.emod_lt_of_pos b hlen
  have ho₀ := Int.emod_nonneg L.offset (ne_of_gt hlen)
  have ho₁ := Int.emod_lt_of_pos L.offset hlen
  have hpiece := L.piece_eq h b 0
  rw [add_zero, add_zero] at hpiece
  rw [hpiece, testedFirst]
  -- the offset of the file moves a byte by one piece at most
  split_ifs with hlt
  · have hq : (b % L.len + L.offset % L.len) / L.len = 0 :=
      ediv_eq_of_block hlen (by omega) (by omega)
    rw [hq, add_zero]
  · have hq : (b % L.len + L.offset % L.len) / L.len = 1 :=
      ediv_eq_of_block hlen (by omega) (by omega)
    rw [hq]

/-- The last piece of the range is the last one tested, the one before where `e` lies on a
    piece edge, or the next one where the offset moves `e` over a piece edge. -/
theorem rangeLast_eq (h : 0 < L.fileSize) (e : ℤ) :
    (L.offset + e - 1) / L.len =
      if e % L.len + L.offset % L.len ≤ 0 then L.testedLast e - 1
      else if e % L.len + L.offset % L.len ≤ L.len then L.testedLast e
      else L.testedLast e + 1 := by
  have hlen := L.len_pos
  have he₀ := Int.emod_nonneg e (ne_of_gt hlen)
  have he₁ := Int.emod_lt_of_pos e hlen
  have ho₀ := Int.emod_nonneg L.offset (ne_of_gt hlen)
  have ho₁ := Int.emod_lt_of_pos L.offset hlen
  rw [sub_eq_add_neg, L.piece_eq h e (-1), testedLast]
  split_ifs with h₀ h₁
  · have hq : (e % L.len + L.offset % L.len + -1) / L.len = -1 :=
      ediv_eq_of_block hlen (by omega) (by omega)
    rw [hq]
    ring
  · have hq : (e % L.len + L.offset % L.len + -1) / L.len = 0 :=
      ediv_eq_of_block hlen (by omega) (by omega)
    rw [hq, add_zero]
  · have hq : (e % L.len + L.offset % L.len + -1) / L.len = 1 :=
      ediv_eq_of_block hlen (by omega) (by omega)
    rw [hq]

/-- The two ranges start and end within one piece of each other. -/
theorem rangeEnds_near (h : 0 < L.fileSize) (b e : ℤ) :
    (L.testedFirst b ≤ (L.offset + b) / L.len ∧
      (L.offset + b) / L.len ≤ L.testedFirst b + 1) ∧
    L.testedLast e - 1 ≤ (L.offset + e - 1) / L.len ∧
      (L.offset + e - 1) / L.len ≤ L.testedLast e + 1 := by
  rw [L.rangeFirst_eq h b, L.rangeLast_eq h e]
  split_ifs <;> omega

theorem testedFirst_le_testedLast {b e : ℤ} (h : b ≤ e) : L.testedFirst b ≤ L.testedLast e := by
  have := Int.ediv_le_ediv L.len_pos h
  unfold testedFirst testedLast
  omega

/-! ### The answer against the range -/

/-- Every tested piece is had. -/
def TestedHad (had : ℤ → Bool) (b e : ℤ) : Prop :=
  ∀ i, L.testedFirst b ≤ i → i ≤ L.testedLast e → had i = true

/-- An empty range needs nothing, and one piece is tested for it. -/
theorem testedHad_iff_of_empty {had : ℤ → Bool} {b : ℤ} (he : b ≤ L.fileSize) :
    (L.TestedHad had b b ↔ L.RangeHad had b b) ↔ L.Undisturbed had b b := by
  have hrange : L.RangeHad had b b := by
    intro i hi
    have := (L.holds_iff he).mp hi
    omega
  have hno : ¬L.RangeMissing had b b := fun h => L.not_rangeHad_iff.mpr h hrange
  have hsame : L.testedLast b = L.testedFirst b := rfl
  unfold Undisturbed
  rw [if_neg (by omega)]
  constructor
  · intro h
    have hhad := h.mpr hrange (L.testedFirst b) (le_refl _) (le_of_eq hsame.symm)
    exact ⟨fun _ => Or.inl hhad, fun _ => Or.inl (by rw [hsame]; exact hhad), fun h => by omega⟩
  · rintro ⟨h, -, -⟩
    have hhad := (h (Or.inl rfl)).resolve_right hno
    refine ⟨fun _ => hrange, fun _ i hi hi' => ?_⟩
    rw [show i = L.testedFirst b by omega]
    exact hhad

/-- Where the answer is that of the range, no end that is tested beside it disturbs. -/
theorem undisturbed_of_iff {had : ℤ → Bool} {b e : ℤ} (hb : 0 ≤ b) (hbe : b < e)
    (he : e ≤ L.fileSize) (h : L.TestedHad had b e ↔ L.RangeHad had b e) :
    L.Undisturbed had b e := by
  have hfl := L.testedFirst_le_testedLast hbe.le
  obtain ⟨⟨hf₀, hf₁⟩, hl₀, hl₁⟩ := L.rangeEnds_near (by omega) b e
  unfold Undisturbed
  rw [if_neg (by omega)]
  refine ⟨fun hfirst => ?_, fun hlast => ?_, fun _ hskip => ?_⟩
  · by_contra hcon
    rw [not_or, ← L.not_rangeHad_iff, not_not] at hcon
    exact hcon.1 (h.mpr hcon.2 _ (le_refl _) hfl)
  · by_contra hcon
    rw [not_or, ← L.not_rangeHad_iff, not_not] at hcon
    exact hcon.1 (h.mpr hcon.2 _ hfl (le_refl _))
  · by_contra hcon
    rw [not_or] at hcon
    have htested : L.TestedHad had b e := by
      intro i hi hi'
      by_contra hmiss
      exact hcon.2 ⟨i, hi, hi', by simpa using hmiss⟩
    exact hcon.1 (h.mp htested _ ((L.holds_iff he).mpr ⟨hbe, by omega, le_refl _⟩))

theorem iff_of_undisturbed {had : ℤ → Bool} {b e : ℤ} (hb : 0 ≤ b) (hbe : b < e)
    (he : e ≤ L.fileSize) (h : L.Undisturbed had b e) :
    L.TestedHad had b e ↔ L.RangeHad had b e := by
  have hholds := fun i => L.holds_iff (b := b) (e := e) (i := i) he
  obtain ⟨⟨hf₀, hf₁⟩, hl₀, hl₁⟩ := L.rangeEnds_near (by omega) b e
  unfold Undisturbed at h
  rw [if_neg (by omega)] at h
  obtain ⟨hfirst, hlast, hskip⟩ := h
  constructor
  · intro h i hi
    obtain ⟨-, hlo, hhi⟩ := (hholds i).mp hi
    by_cases hin : i ≤ L.testedLast e
    · exact h i (by omega) hin
    · -- only the last piece of the range can be behind the tested ones
      have hi_eq : i = (L.offset + e - 1) / L.len := by omega
      rcases hskip hbe (by omega) with hhad | ⟨j, hj, hj', hmiss⟩
      · rw [hi_eq]; exact hhad
      · rw [h j hj hj'] at hmiss
        exact absurd hmiss (by simp)
  · intro h i hi hi'
    have hno : ¬L.RangeMissing had b e := fun hm => L.not_rangeHad_iff.mpr hm h
    by_cases hlo : (L.offset + b) / L.len ≤ i
    · by_cases hhi : i ≤ (L.offset + e - 1) / L.len
      · exact h i ((hholds i).mpr ⟨hbe, hlo, hhi⟩)
      · rw [show i = L.testedLast e by omega]
        exact (hlast (by omega)).resolve_right hno
    · rw [show i = L.testedFirst b by omega]
      exact (hfirst (Or.inr (by omega))).resolve_right hno

/-- For a range inside the file, `Undisturbed` says exactly when the tested pieces give the
    answer of the range's own pieces. -/
theorem testedHad_iff_rangeHad_iff {had : ℤ → Bool} {b e : ℤ} (hb : 0 ≤ b) (hbe : b ≤ e)
    (he : e ≤ L.fileSize) :
    (L.TestedHad had b e ↔ L.RangeHad had b e) ↔ L.Undisturbed had b e := by
  rcases eq_or_lt_of_le hbe with rfl | hlt
  · exact L.testedHad_iff_of_empty he
  · exact ⟨L.undisturbed_of_iff hb hlt he, L.iff_of_undisturbed hb hlt he⟩

/-- On an aligned range the tested pieces are those of the range, so nothing can differ. -/
theorem Aligned.undisturbed {b e : ℤ} (h : L.Aligned b e) (hb : 0 ≤ b) (had : ℤ → Bool) :
    L.Undisturbed had b e := by
  obtain ⟨hlt, he, hfirst, hlast₀, hlast₁⟩ := h
  have hsize : 0 < L.fileSize := by omega
  unfold Undisturbed
  rw [if_neg (by omega), L.rangeFirst_eq hsize b, L.rangeLast_eq hsize e, if_pos hfirst,
    if_neg (by omega), if_pos hlast₁]
  exact ⟨fun h => by omega, fun h => by omega, fun _ h => by omega⟩

/-- Off an aligned range some set of had pieces gets a wrong answer. -/
theorem exists_disturbed {b e : ℤ} (hb : 0 ≤ b) (hbe : b ≤ e) (h : ¬L.Aligned b e) :
    ∃ had, ¬L.Undisturbed had b e := by
  by_cases he : L.fileSize < e
  · -- with every piece had, a range past the end is still refused
    refine ⟨fun _ => true, ?_⟩
    unfold Undisturbed
    rw [if_pos he]
    rintro ⟨i, -, hmiss⟩
    exact absurd hmiss (by simp)
  have hundisturbed : ∀ had, L.Undisturbed had b e ↔ (L.TestedHad had b e ↔ L.RangeHad had b e) :=
    fun had => (L.testedHad_iff_rangeHad_iff hb hbe (by omega)).symm
  have hholds := fun i => L.holds_iff (b := b) (e := e) (i := i) (by omega)
  have hfl := L.testedFirst_le_testedLast hbe
  -- otherwise one piece is tested and not needed, or needed and not tested
  suffices hdiff : ∃ p, ¬((L.testedFirst b ≤ p ∧ p ≤ L.testedLast e) ↔ L.Holds b e p) by
    obtain ⟨p, hp⟩ := hdiff
    refine ⟨fun i => decide (i ≠ p), ?_⟩
    rw [hundisturbed]
    intro hiff
    have htested : L.TestedHad (fun i => decide (i ≠ p)) b e ↔
        ¬(L.testedFirst b ≤ p ∧ p ≤ L.testedLast e) := by
      unfold TestedHad
      simp only [decide_eq_true_eq]
      exact ⟨fun h hin => h p hin.1 hin.2 rfl, fun h i hi hi' hip => h (hip ▸ ⟨hi, hi'⟩)⟩
    have hrange : L.RangeHad (fun i => decide (i ≠ p)) b e ↔ ¬L.Holds b e p := by
      unfold RangeHad
      simp only [decide_eq_true_eq]
      exact ⟨fun h hin => h p hin rfl, fun h i hi hip => h (hip ▸ hi)⟩
    rw [htested, hrange, not_iff_not] at hiff
    exact hp hiff
  rcases eq_or_lt_of_le hbe with heq | hlt
  · refine ⟨L.testedFirst b, fun hiff => ?_⟩
    have := (hholds _).mp (hiff.mp ⟨le_refl _, hfl⟩)
    omega
  · have hsize : 0 < L.fileSize := by omega
    have hf := L.rangeFirst_eq hsize b
    have hl := L.rangeLast_eq hsize e
    by_cases hfirst : b % L.len + L.offset % L.len < L.len
    · rw [if_pos hfirst] at hf
      by_cases hlast₀ : e % L.len + L.offset % L.len ≤ 0
      · rw [if_pos hlast₀] at hl
        refine ⟨L.testedLast e, fun hiff => ?_⟩
        have := (hholds _).mp (hiff.mp ⟨hfl, le_refl _⟩)
        omega
      · rw [if_neg hlast₀] at hl
        by_cases hlast₁ : e % L.len + L.offset % L.len ≤ L.len
        · exact absurd ⟨hlt, by omega, hfirst, by omega, hlast₁⟩ h
        · rw [if_neg hlast₁] at hl
          refine ⟨L.testedLast e + 1, fun hiff => ?_⟩
          have := hiff.mpr ((hholds _).mpr ⟨hlt, by omega, by omega⟩)
          omega
    · rw [if_neg hfirst] at hf
      refine ⟨L.testedFirst b, fun hiff => ?_⟩
      have := (hholds _).mp (hiff.mp ⟨le_refl _, hfl⟩)
      omega

end Layout

namespace Streamerok

/-- `isRangeDownloaded` on a torrent with a layout refuses a range past the end of the file and
    otherwise tests its own pieces. -/
theorem isRangeDownloaded_iff_testedHad {s : Streamerok} {id b e : ℤ} {t : TAux} {L : Layout}
    (hs : s.tMap id = some t) (hfor : t.For L) (hb : 0 ≤ b) (hbe : b ≤ e) :
    s.isRangeDownloaded b e id = some true ↔
      e ≤ L.fileSize ∧ L.TestedHad t.handle.havePiece b e := by
  rw [isRangeDownloaded_eq hs hfor hb (le_trans hb hbe)]
  by_cases he : L.fileSize < e
  · rw [if_pos (Or.inr he)]
    simp [not_le.mpr he]
  · rw [if_neg (by omega), Option.some.injEq, all_range_eq_true]
    unfold Layout.TestedHad Layout.testedFirst Layout.testedLast
    constructor
    · exact fun h => ⟨by omega, fun i hi hi' => h i hi (by omega)⟩
    · exact fun h i hi hi' => h.2 i hi (by omega)

theorem isRangeDownloaded_iff_undisturbed {s : Streamerok} {id b e : ℤ} {t : TAux} {L : Layout}
    (hs : s.tMap id = some t) (hfor : t.For L) (hb : 0 ≤ b) (hbe : b ≤ e) :
    (s.isRangeDownloaded b e id = some true ↔ L.RangeHad t.handle.havePiece b e) ↔
      L.Undisturbed t.handle.havePiece b e := by
  rw [isRangeDownloaded_iff_testedHad hs hfor hb hbe]
  by_cases he : L.fileSize < e
  · unfold Layout.Undisturbed
    rw [if_pos he, ← L.not_rangeHad_iff]
    simp [not_le.mpr he]
  · rw [← L.testedHad_iff_rangeHad_iff hb hbe (not_lt.mp he)]
    simp [not_lt.mp he]

/-- **When `isRangeDownloaded` is right.**  For every layout and range, the answer agrees with
    the had pieces of the range exactly when the pieces in which tested and needed pieces differ
    do not decide it; and it agrees for every set of had pieces exactly when the range is
    aligned. -/
theorem isRangeDownloaded_iff (L : Layout) (b e : ℤ) (hb : 0 ≤ b) (hbe : b ≤ e) :
    (∀ (s : Streamerok) (id : ℤ) (t : TAux), s.tMap id = some t → t.For L →
      ((s.isRangeDownloaded b e id = some true ↔ L.RangeHad t.handle.havePiece b e) ↔
        L.Undisturbed t.handle.havePiece b e)) ∧
    ((∀ (s : Streamerok) (id : ℤ) (t : TAux), s.tMap id = some t → t.For L →
      (s.isRangeDownloaded b e id = some true ↔ L.RangeHad t.handle.havePiece b e)) ↔
        L.Aligned b e) := by
  refine ⟨fun s id t hs hfor => isRangeDownloaded_iff_undisturbed hs hfor hb hbe, ?_, ?_⟩
  · -- some pieces disturb an unaligned range; a torrent may have just these
    intro hall
    by_contra hcon
    obtain ⟨had, hhad⟩ := L.exists_disturbed hb hbe hcon
    obtain ⟨t, -, hfor, rfl⟩ := TAux.new_freshHandle L had
    have hs : (⟨0, -1, fun _ => some t⟩ : Streamerok).tMap 1 = some t := rfl
    exact hhad ((isRangeDownloaded_iff_undisturbed hs hfor hb hbe).mp (hall _ 1 t hs hfor))
  · intro hal s id t hs hfor
    exact (isRangeDownloaded_iff_undisturbed hs hfor hb hbe).mpr
      (Layout.Aligned.undisturbed L hal hb _)

/-! ### Two reads of the second file of a torrent -/

/-- The streamer with `secondFile` added under id `1` and some of its pieces had. -/
def withSecondFile (had : ℤ → Bool) : Streamerok where
  nextId := 1
  needSeekToThisPiece := -1
  tMap := fun id =>
    if id = 1 then TAux.new (secondFile.freshHandle had) 1 20 else none

/-- The first eight bytes of the file are reported downloaded while bytes `5`, `6` and `7` lie
    in the missing piece `1`; and a read of its last bytes, with a buffer that reaches past the
    end of the file, is reported missing while every piece is had. -/
theorem isRangeDownloaded_secondFile :
    ((withSecondFile (fun i => i == 0)).isRangeDownloaded 0 8 1 = some true ∧
      ¬secondFile.RangeHad (fun i => i == 0) 0 8) ∧
    ((withSecondFile (fun _ => true)).isRangeDownloaded 16 32 1 = some false ∧
      secondFile.RangeHad (fun _ => true) 16 32) := by
  refine ⟨⟨by decide +kernel, fun h => ?_⟩, by decide +kernel, fun _ _ => rfl⟩
  have hhad := h 1 ⟨5, by decide, by decide, by decide, by decide⟩
  exact absurd hhad (by decide)

/-- The read of the first eight bytes is one whose answer depends on luck. -/
theorem isRangeDownloaded_iff_secondFile :
    ¬∀ (s : Streamerok) (id : ℤ) (t : TAux), s.tMap id = some t → t.For secondFile →
      (s.isRangeDownloaded 0 8 id = some true ↔ secondFile.RangeHad t.handle.havePiece 0 8) := by
  rw [(isRangeDownloaded_iff secondFile 0 8 (by decide) (by decide)).2]
  unfold Layout.Aligned
  decide

end Streamerok

end PopcornTime.Desktop
