import PopcornTime.Desktop.TAux

namespace PopcornTime.Desktop

open PopcornTime

/-!
# Desktop streamer — the start-up gate

Three loops enumerate the start-up pieces: the constructor's (which set deadlines),
`updateDeadlines`' (which only looks) and `canGetUrl`'s.  The first two stop at the ends of the
file, the third does not: on a file of fewer pieces than `MIN_STARTUP_PIECES_START` it waits for
pieces behind the end of the file, and at an edge of the torrent for bits that do not exist.

* `startupCount_le` — the computed counts fit into a file that has the minimum of pieces.
* `UrlGateRight` — what the gate should do: wait for the start-up pieces, test no bit outside
  the file, and wait for the very pieces the constructor asked for.
* `urlGateRight_iff` — it does so exactly on files of at least `MIN_STARTUP_PIECES_START`
  pieces.
-/

/-! ### The computed counts -/

/-- The number a start-up count is computed from: rounding twice to `float` at most doubles
    twice. -/
theorem ceil_div_le {n m per : ℤ} (hn : 0 ≤ n) (hper : 0 < per) (hm : 4 * n ≤ m * per)
    (hfloat : Binary32.ofInt per = per) :
    ⌈Binary32.div (Binary32.ofInt n) (Binary32.ofInt per)⌉ ≤ m := by
  have hn' : (0 : ℚ) ≤ n := by exact_mod_cast hn
  have hpos : (0 : ℚ) < per := by exact_mod_cast hper
  have hm' : (4 : ℚ) * n ≤ m * per := by exact_mod_cast hm
  have hof : Binary32.ofInt n ≤ 2 * n := Binary32.round_le_two_mul hn'
  have hof₀ : 0 ≤ Binary32.ofInt n := Binary32.round_nonneg hn'
  rw [hfloat, Int.ceil_le]
  calc Binary32.div (Binary32.ofInt n) per
      ≤ 2 * (Binary32.ofInt n / per) := Binary32.round_le_two_mul (div_nonneg hof₀ hpos.le)
    _ ≤ 2 * (2 * n / per) := by gcongr
    _ = 4 * n / per := by ring
    _ ≤ m := by rwa [div_le_iff₀ hpos]

theorem startupCount_le {n m per least : ℤ} (hn : 0 ≤ n) (hleast : least ≤ m) (hper : 0 < per)
    (hm : 4 * n ≤ m * per) (hfloat : Binary32.ofInt per = per) :
    startupCount n per least ≤ m := by
  have hceil := ceil_div_le hn hper hm hfloat
  have hnonneg : 0 ≤ Binary32.div (Binary32.ofInt n) (Binary32.ofInt per) := by
    refine Binary32.round_nonneg (div_nonneg (Binary32.round_nonneg (by exact_mod_cast hn)) ?_)
    rw [hfloat]
    exact_mod_cast (show 0 ≤ per by omega)
  have hceil₀ : 0 ≤ ⌈Binary32.div (Binary32.ofInt n) (Binary32.ofInt per)⌉ :=
    Int.ceil_nonneg hnonneg
  -- what is truncated is an integer and a half
  have hcast : Binary32.toInt
      ((⌈Binary32.div (Binary32.ofInt n) (Binary32.ofInt per)⌉ : ℚ) + 1 / 2)
        = ⌈Binary32.div (Binary32.ofInt n) (Binary32.ofInt per)⌉ := by
    have h₀ : (0 : ℚ) ≤ ⌈Binary32.div (Binary32.ofInt n) (Binary32.ofInt per)⌉ := by
      exact_mod_cast hceil₀
    rw [Binary32.toInt, if_pos (by linarith), Int.floor_eq_iff]
    constructor <;> linarith
  unfold startupCount
  dsimp only
  rw [hcast]
  split_ifs <;> omega

/-- With the minimum of pieces, both start-up counts fit into the file. -/
theorem startupCounts_le {n : ℤ} (h : MIN_STARTUP_PIECES_START ≤ n) :
    startupCount n 200 MIN_STARTUP_PIECES_START ≤ n ∧
      startupCount n 400 MIN_STARTUP_PIECES_END ≤ n := by
  have hs : MIN_STARTUP_PIECES_START = 5 := rfl
  have he : MIN_STARTUP_PIECES_END = 4 := rfl
  exact ⟨startupCount_le (by omega) h (by omega) (by omega) (by decide +kernel),
    startupCount_le (by omega) (by omega) (by omega) (by omega) (by decide +kernel)⟩

namespace Layout

variable (L : Layout)

theorem piecesCount_nonneg : 0 ≤ L.piecesCount := by
  have := L.firstPiece_le_lastPiece_add_one
  unfold piecesCount
  omega

/-- The start-up pieces are a small part of a file of many pieces. -/
theorem startCount_add_endCount_le :
    L.startCount + L.endCount ≤ L.piecesCount / 50 + L.piecesCount / 100 + 10 := by
  have hn := L.piecesCount_nonneg
  have hstart : L.startCount ≤ L.piecesCount / 50 + 5 :=
    startupCount_le hn (show (5 : ℤ) ≤ _ by omega) (by omega) (by omega) (by decide +kernel)
  have hend : L.endCount ≤ L.piecesCount / 100 + 5 :=
    startupCount_le hn (show (4 : ℤ) ≤ _ by omega) (by omega) (by omega) (by decide +kernel)
  omega

end Layout

/-! ### The gate -/

namespace TAux

/-- `t` with another set of had pieces. -/
def withHave (t : TAux) (had : ℤ → Bool) : TAux :=
  { t with handle := { t.handle with havePiece := had } }

/-- `canGetUrl` waits for piece `i`: it stays false as long as `i` is missing. -/
def WaitsFor (t : TAux) (i : ℤ) : Prop :=
  ∀ had : ℤ → Bool, had i = false → (t.withHave had).canGetUrl = false

/-- What the start-up gate is for. -/
structure UrlGateRight (L : Layout) (t : TAux) : Prop where
  /-- It opens exactly when all start-up pieces are had. -/
  canGetUrl_iff : t.canGetUrl = true ↔ ∀ i, L.StartupPiece i → t.handle.havePiece i = true
  /-- It opens once the whole file is had. -/
  of_complete : L.Complete t.handle.havePiece → t.canGetUrl = true
  /-- It tests no bit outside the pieces of the file. -/
  tested_mem : ∀ i ∈ t.testedBits, L.firstPiece ≤ i ∧ i ≤ L.lastPiece
  /-- It waits for the pieces the constructor sets deadlines on. -/
  waitsFor_iff : ∀ (had : ℤ → Bool) (t₀ : TAux),
    new (L.freshHandle had) L.fileIndex L.fileSize = some t₀ →
      ∀ i, t.WaitsFor i ↔ (t₀.handle.deadline i).isSome

theorem canGetUrl_eq_true {t : TAux} (hvalid : t.handle.valid = true) :
    t.canGetUrl = true ↔ ∀ i ∈ t.urlBits, t.handle.havePiece i = true := by
  rw [canGetUrl, hvalid, Bool.true_and, List.all_eq_true]

theorem waitsFor_iff_mem {t : TAux} (hvalid : t.handle.valid = true) {i : ℤ} :
    t.WaitsFor i ↔ i ∈ t.urlBits := by
  have hval : ∀ had, (t.withHave had).canGetUrl = true ↔ ∀ j ∈ t.urlBits, had j = true :=
    fun had => canGetUrl_eq_true (t := t.withHave had) hvalid
  constructor
  · intro h
    by_contra hi
    have hfalse := h (fun j => decide (j ≠ i)) (by simp)
    have htrue := (hval (fun j => decide (j ≠ i))).mpr (by
      intro j hj
      have hne : j ≠ i := fun hji => hi (hji ▸ hj)
      simpa using hne)
    rw [hfalse] at htrue
    exact absurd htrue (by simp)
  · intro hi had hmiss
    by_contra hcon
    have := (hval had).mp (by simpa using hcon) i hi
    rw [hmiss] at this
    exact absurd this (by simp)

theorem For.mem_urlBits {L : Layout} {t : TAux} (hfor : For L t) {i : ℤ} :
    i ∈ t.urlBits ↔
      (L.firstPiece ≤ i ∧
        i < L.firstPiece + startupCount L.piecesCount 200 MIN_STARTUP_PIECES_START) ∨
      (L.lastPiece - startupCount L.piecesCount 400 MIN_STARTUP_PIECES_END < i ∧
        i ≤ L.lastPiece) := by
  rw [urlBits, List.mem_append, List.mem_reverse, Int.mem_range_iff, Int.mem_range_iff,
    hfor.fileFirstPiece, hfor.fileLastPiece, hfor.startupPiecesCountAtStart,
    hfor.startupPiecesCountAtEnd]
  unfold Layout.piecesCount
  omega

/-- `canGetUrl` tests none but the bits of its loops. -/
theorem mem_urlBits_of_tested {t : TAux} {i : ℤ} (h : i ∈ t.testedBits) : i ∈ t.urlBits := by
  rw [testedBits, List.mem_append] at h
  rcases h with h | h
  · exact (List.takeWhile_sublist _).subset h
  · rw [Option.mem_toList] at h
    have hmem := List.mem_of_mem_head? h
    exact (List.dropWhile_sublist _).subset hmem

/-- With the minimum of pieces the bits of the loops are the start-up pieces. -/
theorem For.mem_urlBits_iff_startup {L : Layout} {t : TAux} (hfor : For L t)
    (h : MIN_STARTUP_PIECES_START ≤ L.piecesCount) {i : ℤ} :
    i ∈ t.urlBits ↔ L.StartupPiece i := by
  obtain ⟨hs, he⟩ := startupCounts_le h
  rw [hfor.mem_urlBits]
  unfold Layout.StartupPiece
  have hpc : L.piecesCount = L.lastPiece - L.firstPiece + 1 := rfl
  omega

/-- The pieces the constructor asks for are those of its two loops, all inside the file. -/
theorem new_deadline_iff {L : Layout} {had : ℤ → Bool} {t₀ : TAux}
    (h : new (L.freshHandle had) L.fileIndex L.fileSize = some t₀) :
    For L t₀ ∧ ∀ i, (t₀.handle.deadline i).isSome ↔ i ∈ t₀.startupFirst ∨ i ∈ t₀.startupLast := by
  obtain ⟨t, hnew, hfor, -, -, -, hdl⟩ :=
    new_spec L (L.freshHandle had) rfl rfl (fun _ => rfl)
  rw [hnew, Option.some.injEq] at h
  subst h
  exact ⟨hfor, hdl⟩

/-- **The start-up gate** is right exactly on files of at least `MIN_STARTUP_PIECES_START`
    pieces, whatever pieces are had. -/
theorem urlGateRight_iff {L : Layout} {t : TAux} (hfor : t.For L) :
    UrlGateRight L t ↔ MIN_STARTUP_PIECES_START ≤ L.piecesCount := by
  have hpc : L.piecesCount = L.lastPiece - L.firstPiece + 1 := rfl
  have hmin : MIN_STARTUP_PIECES_START = 5 := rfl
  constructor
  · -- a smaller file is waited for past its end, where the constructor asks for nothing
    intro h
    by_contra hsmall
    have hcount := startupCount_ge L.piecesCount 200 MIN_STARTUP_PIECES_START
    have hwait : t.WaitsFor (max (L.lastPiece + 1) L.firstPiece) := by
      rw [waitsFor_iff_mem hfor.valid, hfor.mem_urlBits]
      omega
    obtain ⟨t₀, hnew, -⟩ := new_freshHandle L (fun _ => true)
    obtain ⟨hfor₀, hdl⟩ := new_deadline_iff hnew
    have hasked := (hdl _).mp ((h.waitsFor_iff _ t₀ hnew _).mp hwait)
    rw [mem_startupFirst, mem_startupLast, hfor₀.fileFirstPiece, hfor₀.fileLastPiece] at hasked
    omega
  · intro h
    have hmem := fun i => hfor.mem_urlBits_iff_startup h (i := i)
    have hgate : t.canGetUrl = true ↔ ∀ i, L.StartupPiece i → t.handle.havePiece i = true := by
      rw [canGetUrl_eq_true hfor.valid]
      exact forall_congr' (fun i => by rw [hmem i])
    refine ⟨hgate, ?_, ?_, ?_⟩
    · intro hc
      have hsize : 0 < L.fileSize := by
        have := L.lastPiece_le_firstPiece
        have := L.fileSize_nonneg
        by_contra hcon
        have := L.lastPiece_le_firstPiece (by omega)
        omega
      exact hgate.mpr (fun i hi => (L.complete_iff hsize).mp hc i hi.1.1 hi.1.2)
    · intro i hi
      exact ((hmem i).mp (mem_urlBits_of_tested hi)).1
    · intro had t₀ hnew i
      obtain ⟨hfor₀, hdl⟩ := new_deadline_iff hnew
      rw [waitsFor_iff_mem hfor.valid, hmem i, hdl i,
        hfor₀.mem_startup_iff (by omega)]

/-! ### The three pieces of `secondFile` -/

/-- The `tAux` of `secondFile` with exactly its three pieces had. -/
def secondFileAux : TAux :=
  (new (secondFile.freshHandle (fun i => decide (0 ≤ i ∧ i ≤ 2))) 1 20).getD
    (fresh (secondFile.freshHandle (fun _ => false)) 1 20)

theorem secondFileAux_for : secondFileAux.For secondFile ∧
    secondFileAux.handle.havePiece = fun i => decide (0 ≤ i ∧ i ≤ 2) := by
  obtain ⟨t, hnew, hfor, hhad⟩ :=
    new_freshHandle secondFile (fun i => decide (0 ≤ i ∧ i ≤ 2))
  have heq : secondFileAux = t := by
    rw [secondFileAux, show new _ 1 20 = some t from hnew]
    rfl
  rw [heq]
  exact ⟨hfor, hhad⟩

/-- All three pieces of the file are had, yet `canGetUrl` goes on to bit `3`, which lies behind
    the end of the torrent, and answers false. -/
theorem canGetUrl_secondFile :
    secondFileAux.canGetUrl = false ∧ 3 ∈ secondFileAux.testedBits ∧
      ∀ i, secondFile.StartupPiece i → secondFileAux.handle.havePiece i = true := by
  refine ⟨by decide +kernel, by decide +kernel, ?_⟩
  rintro i ⟨⟨h₀, h₂⟩, -⟩
  have hfirst : secondFile.firstPiece = 0 := by decide
  have hlast : secondFile.lastPiece = 2 := by decide
  rw [secondFileAux_for.2, decide_eq_true_eq]
  omega

/-- Three pieces are too few. -/
theorem urlGateRight_iff_secondFile : ¬UrlGateRight secondFile secondFileAux := by
  rw [urlGateRight_iff secondFileAux_for.1]
  decide

end TAux

end PopcornTime.Desktop
