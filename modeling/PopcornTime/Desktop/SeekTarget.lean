import PopcornTime.Desktop.Deadlines

namespace PopcornTime.Desktop

open PopcornTime

/-!
# Desktop streamer — where a seek puts the deadline window

`seekInFile` divides the offset by the piece length and counts from the first piece of the file,
without the offset of the file inside that piece.  Where the two offsets inside a piece add up to
a piece or more, the window begins one piece in front of the one that holds the byte.  The window
ends in front of the last piece of the file, which start-up asks for unless it is the only one.

* `TAux.AimsAt`, `TAux.AsksFor` — what a seek should leave behind.
* `Layout.SameEdge` — no piece edge lies between the two ways to count.
* `Playback.seekInFile_iff` — when a seek does what it should, in every state of a run.
-/

namespace Layout

variable (L : Layout) {offset : ℤ}

/-- The offset of the file in its first piece and that of the byte in a piece add up to less than
    a piece. -/
def SameEdge (offset : ℤ) : Prop :=
  offset % L.len + L.offset % L.len < L.len

instance : Decidable (L.SameEdge offset) := inferInstanceAs (Decidable (_ < _))

theorem seekPiece_eq_iff (h : 0 < L.fileSize) :
    L.firstPiece + offset / L.len = L.seekPiece offset ↔ L.SameEdge offset := by
  have hpiece := L.rangeFirst_eq h offset
  unfold seekPiece SameEdge
  rw [hpiece]
  unfold testedFirst
  split_ifs with hedge
  · exact iff_of_true rfl hedge
  · exact iff_of_false (by omega) hedge

end Layout

namespace TAux

variable {L : Layout} {t t' : TAux} {offset : ℤ}

/-- The window of deadlines begins at the piece of the byte, a piece of the file. -/
def AimsAt (L : Layout) (offset : ℤ) (t : TAux) : Prop :=
  t.fileFirstPieceForDeadlines = L.seekPiece offset ∧
    L.firstPiece ≤ t.fileFirstPieceForDeadlines ∧ t.fileFirstPieceForDeadlines ≤ L.lastPiece

/-- Once no start-up loop finds a piece missing, the piece of the byte has a deadline if it is
    missing. -/
def AsksFor (L : Layout) (offset : ℤ) (t : TAux) : Prop :=
  ¬t.StartupMissing → t.handle.havePiece (L.seekPiece offset) = false →
    (t.handle.deadline (L.seekPiece offset)).isSome

/-- The start-up loops depend on the layout and the had pieces alone. -/
theorem For.startupMissing_congr (hfor : t.For L) (hfor' : t'.For L)
    (hhad : t'.handle.havePiece = t.handle.havePiece) : t'.StartupMissing ↔ t.StartupMissing := by
  unfold StartupMissing startupFirst startupLast
  rw [hhad, hfor.fileFirstPiece, hfor.fileLastPiece, hfor.startupPiecesCountAtStart,
    hfor.startupPiecesCountAtEnd, hfor'.fileFirstPiece, hfor'.fileLastPiece,
    hfor'.startupPiecesCountAtStart, hfor'.startupPiecesCountAtEnd]

theorem Scheduled.aimsAt_iff (hs : t.Scheduled L offset) (h : offset < L.fileSize) :
    t.AimsAt L offset ↔ L.SameEdge offset := by
  have hsize : 0 < L.fileSize := lt_of_le_of_lt hs.offset_nonneg h
  rw [AimsAt, hs.seekPoint, ← L.seekPiece_eq_iff hsize, and_iff_left_iff_imp]
  intro heq
  rw [heq]
  exact ⟨L.firstPiece_le_seekPiece hsize hs.offset_nonneg, L.seekPiece_le_lastPiece h hsize⟩

/-- The piece of the byte is at most the second one of the window, so the window reaches it if it
    lies in front of the last piece of the file. -/
theorem Scheduled.seek_asks (hs : t.Scheduled L offset) {o : ℤ} (ho : 0 ≤ o)
    (ho' : o < L.fileSize) :
    ∃ t', t.updateDeadlines 0 (o / L.len + L.firstPiece) = some (t', -1) ∧ t'.Scheduled L o ∧
      t'.handle.havePiece = t.handle.havePiece ∧
      (L.seekPiece o < L.lastPiece → t'.AsksFor L o) := by
  have hsize : 0 < L.fileSize := by omega
  have hfirst := L.firstPiece_nonneg
  have hlast := L.seekPiece_le_lastPiece ho' hsize
  have hto := L.firstPiece_le_seekPiece hsize ho
  have hdiv := Int.ediv_nonneg ho L.len_pos.le
  have hlen : 0 < t.piecesDeadlines.length := by
    rw [hs.for_layout.length_piecesDeadlines]
    omega
  have hn : o / L.len + L.firstPiece ≠ -1 := by omega
  have hpoint : (t.takeSeek (o / L.len + L.firstPiece)).fileFirstPieceForDeadlines =
      L.firstPiece + o / L.len := by
    rw [takeSeek_some t hn]
    exact add_comm _ _
  -- the schedule and the marks of the same call
  obtain ⟨t', hup, hs', hhad, -⟩ := hs.seek ho ho'
  obtain ⟨t'', hup', -, -, -, -, -, hcover⟩ := updateDeadlines_spec hs.for_layout (le_refl 0)
    (by exact_mod_cast hlen) (by rw [hpoint]; omega) (takeSeek_synced hn hlen).1
  obtain rfl : t' = t'' := by
    rw [hup] at hup'
    exact (Prod.mk.inj (Option.some.inj hup')).1
  refine ⟨t', hup, hs', hhad, fun hlt hno hmiss => ?_⟩
  have hno' : ¬t.StartupMissing := fun h =>
    hno ((hs.for_layout.startupMissing_congr hs'.for_layout hhad).mpr h)
  have hnear : L.firstPiece + o / L.len ≤ L.seekPiece o ∧
      L.seekPiece o ≤ L.firstPiece + o / L.len + 1 := (L.rangeEnds_near hsize o o).1
  refine hcover hno' (Int.range (L.firstPiece + o / L.len) (L.seekPiece o)) _
    (Int.range (L.seekPiece o + 1) L.lastPiece) ?_ (by rw [← hhad]; exact hmiss) ?_
  · rw [hpoint, range_append hnear.1 hlt.le, range_eq_cons hlt]
  · -- one piece at most lies between the start of the deadlines and the piece sought
    have hone : (Int.range (L.firstPiece + o / L.len) (L.seekPiece o)).length ≤ 1 := by
      rw [Int.range, List.length_map, List.length_range]
      omega
    exact lt_of_le_of_lt (le_trans (List.length_filter_le _ _) hone) (by decide)

/-- A piece that the start-up loops have not missed is no last one, except in a file of one
    piece, which never gets a deadline. -/
theorem Scheduled.asksFor_iff (hs : t.Scheduled L offset) (h : offset < L.fileSize)
    (hasks : L.seekPiece offset < L.lastPiece → t.AsksFor L offset) :
    t.AsksFor L offset ↔
      L.firstPiece < L.lastPiece ∨ t.handle.havePiece (L.seekPiece offset) = true := by
  have hsize : 0 < L.fileSize := lt_of_le_of_lt hs.offset_nonneg h
  have hto := L.firstPiece_le_seekPiece hsize hs.offset_nonneg
  have hlast := L.seekPiece_le_lastPiece h hsize
  constructor
  · intro hall
    by_contra hcon
    push Not at hcon
    have hno : ¬t.StartupMissing := by
      rintro ⟨i, hi, -⟩
      obtain ⟨hnil, hnil'⟩ := hs.for_layout.startup_eq_nil hcon.1
      rw [hnil, hnil'] at hi
      simp at hi
    -- a file of one piece has no deadline of its own
    have hset := hall hno (by simpa using hcon.2)
    rw [hs.single hcon.1] at hset
    exact absurd hset (by simp)
  · rintro (hlt | hhad) hno hmiss
    · have hno' : ¬L.StartupMissing t.handle.havePiece := fun hm =>
        hno ((hs.for_layout.startupMissing_iff hlt).mpr hm)
      exact hasks (L.lt_lastPiece_of_missing hno' hto hlast hmiss) hno hmiss
    · rw [hhad] at hmiss
      exact absurd hmiss (by simp)

end TAux

namespace Playback

variable {L : Layout} {torrentId : ℤ} {s : Playback} {offset : ℤ}

/-- What a seek should do: aim at the piece of the byte, and ask for it if it is missing. -/
def SeeksTo (L : Layout) (torrentId : ℤ) (offset : ℤ) (s : Playback) : Prop :=
  s.Has torrentId (TAux.AimsAt L offset) ∧ s.Has torrentId (TAux.AsksFor L offset)

/-- **When a seek is right.**  In every state of every run, a seek to a byte of the file returns,
    and it aims at the piece of the byte and asks for it if it is missing exactly if the two
    offsets do not add up to a piece or more and the file has more than one piece, or the piece
    is had.  Wherever it aims, it asks for the piece if the first and last pieces of the file,
    as many as start-up wants, are had. -/
theorem seekInFile_iff (L : Layout) (torrentId : ℤ) (s : Playback) (offset : ℤ)
    (hreach : (machine L torrentId).Reachable s) (ho : 0 ≤ offset) (ho' : offset < L.fileSize) :
    ∃ s', s.next torrentId (.seekInFile offset) = some s' ∧
      (s'.SeeksTo L torrentId offset ↔ L.SameEdge offset ∧
        (L.firstPiece < L.lastPiece ∨
          s.Has torrentId (fun t => t.handle.havePiece (L.seekPiece offset) = true))) ∧
      s'.Has torrentId (fun t => ¬L.StartupMissing t.handle.havePiece →
        t.handle.havePiece (L.seekPiece offset) = false →
          (t.handle.deadline (L.seekPiece offset)).isSome) := by
  obtain ⟨-, t, ht, hs⟩ := inv_of_reachable hreach
  obtain ⟨t', hup, hs', hhad, hasks⟩ := hs.seek_asks ho ho'
  refine ⟨_, next_seekInFile ht hs.for_layout ho ho' hup, ?_, t', Function.update_self _ _ _, ?_⟩
  · rw [SeeksTo, has_iff (t := t') (Function.update_self _ _ _),
      has_iff (t := t') (Function.update_self _ _ _), has_iff ht, hs'.aimsAt_iff ho',
      hs'.asksFor_iff ho' hasks, hhad]
  · -- the only piece of a file is one of its start-up pieces
    intro hno hmiss
    have hsize : 0 < L.fileSize := by omega
    have hto := L.firstPiece_le_seekPiece hsize ho
    have hlt := L.lt_lastPiece_of_missing hno hto (L.seekPiece_le_lastPiece ho' hsize) hmiss
    refine hasks hlt (fun hm => hno ?_) hmiss
    exact (hs'.for_layout.startupMissing_iff (lt_of_le_of_lt hto hlt)).mp hm

/-- A seek to the first byte of `secondFile`. -/
theorem seekInFile_iff_start :
    ∃ s s', (machine secondFile 1).Reachable s ∧ s.next 1 (.seekInFile 0) = some s' ∧
      s'.SeeksTo secondFile 1 0 := by
  obtain ⟨s, t, hinit, -, -⟩ := exists_init secondFile 1
  obtain ⟨s', hnext, hiff, -⟩ :=
    seekInFile_iff secondFile 1 s 0 (Machine.Reachable.start hinit) (by decide) (by decide)
  exact ⟨s, s', Machine.Reachable.start hinit, hnext, hiff.mpr ⟨by decide, Or.inl (by decide)⟩⟩

/-- Byte `5` of `secondFile` is the first one of piece `1`: a seek to it aims at piece `0`. -/
theorem not_seeksTo_secondFile :
    ∃ s s', (machine secondFile 1).Reachable s ∧ s.next 1 (.seekInFile 5) = some s' ∧
      ¬s'.SeeksTo secondFile 1 5 := by
  obtain ⟨s, t, hinit, ht, -⟩ := exists_init secondFile 1
  have hs : t.Scheduled secondFile s.seekOffset :=
    (has_iff ht).mp (init_spec hinit).1.2
  obtain ⟨t', hup, hs', -, -⟩ := hs.seek_asks (o := 5) (by decide) (by decide)
  refine ⟨s, _, Machine.Reachable.start hinit,
    next_seekInFile ht hs.for_layout (by decide) (by decide) hup, fun hright => ?_⟩
  obtain ⟨u, hu, haims⟩ := hright.1
  have hget : Function.update s.streamer.tMap 1 (some t') 1 = some t' := Function.update_self _ _ _
  obtain rfl : u = t' := Option.some.inj (hu.symm.trans hget)
  exact absurd ((hs'.aimsAt_iff (by decide)).mp haims) (by decide)

end Playback

end PopcornTime.Desktop
