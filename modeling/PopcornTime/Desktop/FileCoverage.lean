import PopcornTime.Desktop.AddTorrent

namespace PopcornTime.Desktop

open PopcornTime

/-!
# Desktop streamer — the pieces that are asked for

Behind `getFileIndex` no piece is wanted.  The constructor of `tAux` then gives priority one to the
pieces from the file's first one on, up to the number of its pieces, and deadlines to the start-up
pieces.  The bound of the first loop counts from the start of the file, and its variable from the
start of the torrent.

* `TAux.Requested` — a piece that libtorrent will download by itself.
* `FileRequested` — those are the pieces of the file.
* `fileRequested_iff` — when they are.
-/

/-- The piece has a priority or a deadline. -/
def TAux.Requested (t : TAux) (i : ℤ) : Prop :=
  t.handle.piecePriority i ≠ 0 ∨ (t.handle.deadline i).isSome = true

/-- All pieces of the file are asked for, and none that holds no byte of it. -/
structure FileRequested (L : Layout) (t : TAux) : Prop where
  covered : ∀ i, L.firstPiece ≤ i → i ≤ L.lastPiece → t.Requested i
  only : ∀ i, ¬L.Holds 0 L.fileSize i → ¬t.Requested i

namespace Layout

variable (L : Layout)

/-- The loops reach every piece of the file: it starts in the first piece of the torrent or has more
    than one piece, and it starts in front of its last start-up pieces' number or has no pieces
    between its first and last start-up pieces.  An empty file has no piece range. -/
def LoopsReach : Prop :=
  if 0 < L.fileSize then
    (L.firstPiece = 0 ∨ 2 ≤ L.piecesCount) ∧
      (L.firstPiece ≤ L.endCount ∨ L.piecesCount ≤ L.startCount + L.endCount)
  else L.lastPiece < L.firstPiece

/-- The pieces of the three loops. -/
def InLoops (i : ℤ) : Prop :=
  (L.firstPiece ≤ i ∧ i < L.piecesCount) ∨
    (L.firstPiece ≤ i ∧ i < L.firstPiece + L.startCount ∧ i < L.lastPiece) ∨
    (L.lastPiece - L.endCount < i ∧ L.firstPiece < i ∧ i ≤ L.lastPiece)

/-- No loop leaves the piece range of the file. -/
theorem InLoops.mem {L : Layout} {i : ℤ} (h : L.InLoops i) :
    L.firstPiece ≤ i ∧ i ≤ L.lastPiece := by
  have hfirst := L.firstPiece_nonneg
  have hcount : L.piecesCount = L.lastPiece - L.firstPiece + 1 := rfl
  rcases h with h | h | h <;> omega

/-- For a file with a byte the loops reach all of its pieces exactly under the condition. -/
theorem forall_inLoops_iff (hsize : 0 < L.fileSize) :
    (∀ i, L.firstPiece ≤ i → i ≤ L.lastPiece → L.InLoops i) ↔ L.LoopsReach := by
  have hs := L.startCount_ge
  have he := L.endCount_ge
  have hfirst := L.firstPiece_nonneg
  have hle := L.firstPiece_le_lastPiece hsize
  have hcount : L.piecesCount = L.lastPiece - L.firstPiece + 1 := rfl
  unfold LoopsReach
  rw [if_pos hsize]
  constructor
  · intro h
    constructor
    · -- the only piece of a file has no deadline
      have := h L.firstPiece (le_refl _) hle
      unfold InLoops at this
      omega
    · -- the piece in front of the last start-up pieces
      by_contra hfar
      have := h (L.lastPiece - L.endCount) (by omega) (by omega)
      unfold InLoops at this
      omega
  · intro h i h₀ h₁
    unfold InLoops
    omega

/-- An empty file that has a piece range has one of one piece, which holds no byte of it. -/
theorem empty_pieces (hsize : L.fileSize = 0) (hrange : ¬L.lastPiece < L.firstPiece) :
    L.lastPiece = L.firstPiece ∧ L.piecesCount = 1 := by
  have hle := L.lastPiece_le_firstPiece hsize
  have hcount : L.piecesCount = L.lastPiece - L.firstPiece + 1 := rfl
  omega

theorem not_holds_of_empty (hsize : L.fileSize = 0) (i : ℤ) : ¬L.Holds 0 L.fileSize i := by
  rintro ⟨x, h₀, h₁, -, -⟩
  omega

theorem inLoops_right_iff :
    ((∀ i, L.firstPiece ≤ i → i ≤ L.lastPiece → L.InLoops i) ∧
      ∀ i, ¬L.Holds 0 L.fileSize i → ¬L.InLoops i) ↔ L.LoopsReach := by
  rcases eq_or_lt_of_le L.fileSize_nonneg with hzero | hsize
  · have hempty := hzero.symm
    have hreach : L.LoopsReach ↔ L.lastPiece < L.firstPiece := by
      unfold LoopsReach
      rw [if_neg (by omega)]
    rw [hreach]
    constructor
    · rintro ⟨hcovered, honly⟩
      by_contra hrange
      obtain ⟨heq, -⟩ := L.empty_pieces hempty hrange
      exact honly L.firstPiece (L.not_holds_of_empty hempty _)
        (hcovered L.firstPiece (le_refl _) (by omega))
    · intro hrange
      refine ⟨fun i h₀ h₁ => by omega, fun i _ hin => ?_⟩
      have := hin.mem
      omega
  · rw [L.forall_inLoops_iff hsize]
    refine and_iff_left fun i hno hin => hno ?_
    exact (L.holds_file_iff hsize).mpr hin.mem

end Layout

/-- The `tAux` of a torrent that no piece is wanted of asks for the pieces of its loops. -/
theorem requested_iff (L : Layout) {hndl : TorrentHandle} {t : TAux} (hinfo : hndl.info = L.storage)
    (hvalid : hndl.valid = true) (hnone : ∀ i, hndl.deadline i = none)
    (hzero : ∀ i, hndl.piecePriority i = 0) (h : TAux.new hndl L.fileIndex L.fileSize = some t)
    (i : ℤ) : t.Requested i ↔ L.InLoops i := by
  obtain ⟨t', hnew, hfor, -, -, -, hdl⟩ := TAux.new_spec L hndl hinfo hvalid hnone
  rw [h, Option.some.injEq] at hnew
  subst hnew
  unfold TAux.Requested Layout.InLoops
  rw [TAux.new_piecePriority L hinfo h i, hzero i, hdl i, TAux.mem_startupFirst,
    TAux.mem_startupLast, hfor.fileFirstPiece, hfor.fileLastPiece, hfor.startupPiecesCountAtStart,
    hfor.startupPiecesCountAtEnd]
  have hprio : (if L.firstPiece ≤ i ∧ i < L.piecesCount then (1 : ℤ) else 0) ≠ 0 ↔
      L.firstPiece ≤ i ∧ i < L.piecesCount := by
    split_ifs with hin <;> simp [hin]
  rw [hprio]
  rfl

namespace StreamerokSession

/-- **What is asked for.**  For every torrent and whichever of its files is chosen, the add succeeds,
    and the pieces asked for are those of the file exactly if the loops reach them. -/
theorem fileRequested_iff (s : StreamerokSession) (torrent : ℕ) (h : FileHandle)
    (names : FileNames) (fileName : String) (k : ℕ) (hvalid : h.handle.valid = true)
    (hnone : ∀ i, h.handle.deadline i = none) (hk : chosenFile h names fileName = some k)
    (hfree : s.tMap s.getNextId = none) :
    ∃ s' t, s.addTorrent fileName (.metadata torrent h names) = some (s.getNextId, s') ∧
      s'.tMap s.getNextId = some t ∧
      (FileRequested (h.layout k (chosenFile_lt hk)) t ↔
        (h.layout k (chosenFile_lt hk)).LoopsReach) := by
  obtain ⟨t, hnew, hadd⟩ := addTorrent_metadata s torrent hvalid hk
  refine ⟨_, t, hadd, ?_, ?_⟩
  · simp [insert, sessionAdd, hfree]
  · have hreq := requested_iff (h.layout k (chosenFile_lt hk))
      (show ({ h.handle with piecePriority := fun _ => 0 } : TorrentHandle).info = _ from rfl)
      hvalid hnone (fun _ => rfl) hnew
    rw [← Layout.inLoops_right_iff]
    constructor
    · rintro ⟨hcovered, honly⟩
      exact ⟨fun i h₀ h₁ => (hreq i).mp (hcovered i h₀ h₁),
        fun i hno hin => honly i hno ((hreq i).mpr hin)⟩
    · rintro ⟨hcovered, honly⟩
      exact ⟨fun i h₀ h₁ => (hreq i).mpr (hcovered i h₀ h₁),
        fun i hno hreq' => honly i hno ((hreq i).mp hreq')⟩

/-- A file at the start of the torrent is asked for. -/
theorem fileRequested_iff_oneFile :
    ∃ s' t, new.addTorrent "" (.metadata 7 (oneFile 25) ⟨fun _ => "film.avi", fun _ => false⟩) =
        some (1, s') ∧ s'.tMap 1 = some t ∧ FileRequested ((oneFile 25).layout 0 (by decide)) t := by
  have hchosen : chosenFile (oneFile 25) ⟨fun _ => "film.avi", fun _ => false⟩ "" = some 0 := by
    decide
  obtain ⟨s', t, hadd, ht, hiff⟩ :=
    fileRequested_iff new 7 (oneFile 25) _ "" 0 rfl (fun _ => rfl) hchosen rfl
  refine ⟨s', t, hadd, ht, hiff.mpr ?_⟩
  show ((oneFile 25).layout 0 (by decide)).LoopsReach
  unfold Layout.LoopsReach
  rw [if_pos (by decide)]
  exact ⟨Or.inl (by decide), Or.inl (by decide +kernel)⟩

/-- The handle of a torrent of pieces of one byte, with a file of ten bytes and one of thirty. -/
def twoFiles : FileHandle where
  handle :=
    { valid := true
      info :=
        { pieceLength := 1
          fileSizes := [10, 30]
          pieceLength_pos := by decide
          fileSizes_nonneg := by decide }
      havePiece := fun _ => false
      deadline := fun _ => none
      piecePriority := fun _ => 1 }
  filePriority := fun _ => 1

/-- The second file has the pieces `10` to `39`.  Those from `30` to `35` are not asked for. -/
theorem addTorrent_twoFiles_misses :
    ∃ s' t, new.addTorrent "" (.metadata 7 twoFiles ⟨fun _ => "film.avi", fun _ => false⟩) =
        some (1, s') ∧ s'.tMap 1 = some t ∧ (∀ i, 30 ≤ i → i ≤ 35 → ¬t.Requested i) ∧
      ¬FileRequested (twoFiles.layout 1 (by decide)) t := by
  have hchosen : chosenFile twoFiles ⟨fun _ => "film.avi", fun _ => false⟩ "" = some 1 := by
    decide
  obtain ⟨t, hnew, hadd⟩ := addTorrent_metadata new 7 rfl hchosen
  have hfirst : (twoFiles.layout 1 (by decide)).firstPiece = 10 := by decide
  have hlast : (twoFiles.layout 1 (by decide)).lastPiece = 39 := by decide
  have hcount : (twoFiles.layout 1 (by decide)).piecesCount = 30 := by decide
  have hstart : (twoFiles.layout 1 (by decide)).startCount = 5 := by decide +kernel
  have hend : (twoFiles.layout 1 (by decide)).endCount = 4 := by decide +kernel
  have hmissed : ∀ i, 30 ≤ i → i ≤ 35 → ¬t.Requested i := by
    intro i h₀ h₁ hreq
    have hin := (requested_iff (twoFiles.layout 1 (by decide))
      (show ({ twoFiles.handle with piecePriority := fun _ => 0 } : TorrentHandle).info = _ from rfl)
      rfl (fun _ => rfl) (fun _ => rfl) hnew i).mp hreq
    unfold Layout.InLoops at hin
    omega
  refine ⟨_, t, hadd, rfl, hmissed, fun h => ?_⟩
  exact hmissed 30 (by omega) (by omega) (h.covered 30 (by omega) (by omega))

end StreamerokSession

end PopcornTime.Desktop
