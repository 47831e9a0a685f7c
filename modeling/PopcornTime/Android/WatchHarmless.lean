import PopcornTime.Android.WatchEnds

namespace PopcornTime.Android

open PopcornTime Downloads TorrentUtil

/-!
# Android watch — watching and downloads, in whole runs

* `watchHarmless_of_guard` — watching harms no download in a run that meets the guard; behind a step
  that does not, the run may go on to where no watch is alive and a download does not run.
* `watch_harms_download` — a download is removed, paused or moved by a watch of its video.
-/

namespace WatchedDownloads

variable {E : StorageSetup} {s s' : WatchedDownloads}

/-- What is marked at the start runs. -/
theorem unharmed_of_init (hinit : (machine E).init s) : s.Unharmed := by
  obtain ⟨table, session, lastTorrent, rfl⟩ := hinit
  refine unharmed_mark.mpr fun r hr hstate hmem => ?_
  exact absurd hmem List.not_mem_nil

/-- The guard is met by a step exactly when the step stops, pauses and moves no download that has
    run. -/
theorem harmlessGuard_exact :
    (machine E).ExactGuard (fun _ => True) (HarmlessGuard E) Unharmed where
  init_iff := fun s hinit => iff_of_true (unharmed_of_init hinit) trivial
  step_iff := by
    intro s e s' hreach h hstep
    obtain ⟨s₁, hact, rfl⟩ := Option.map_eq_some_iff.mp hstep
    have hids : ∀ id ∈ s.held, id < s.table.nextId := by
      obtain ⟨s₀, rfl⟩ := eq_mark_of_reachable hreach
      exact fun id hid => lt_nextId_of_mem_held hid
    rw [unharmed_mark]
    exact unharmed_act hids h hact

/-- **Watching harms no download**, in every run whose steps meet the guard, whatever is watched,
    added, paused and resumed.  The guard of a step is exactly what keeps the downloads running;
    behind a step that breaks it some continuation ends every watch and leaves a download that does
    not run. -/
theorem watchHarmless_of_guard (E : StorageSetup) :
    (∀ s, (machine E).RunUnder (fun _ => True) (HarmlessGuard E) s → s.WatchHarmless) ∧
    (machine E).ExactGuard (fun _ => True) (HarmlessGuard E) Unharmed ∧
    ∀ s, (machine E).Reachable s → ¬s.Unharmed →
      ∃ s', ((machine E).goingOn s).Reachable s' ∧ ¬s'.WatchHarmless := by
  refine ⟨fun s hrun _ => harmlessGuard_exact.runUnder hrun, harmlessGuard_exact, ?_⟩
  intro s hreach hharm
  obtain ⟨s', hgo, hended, hharm'⟩ := exists_allEnded (allNamed_of_reachable hreach) hharm
  exact ⟨s', hgo, fun hharmless => hharm' (hharmless hended)⟩

/-! ### A video that is downloaded and watched -/

/-- Two torrents; the first has a url, a magnet and a file. -/
def twoTorrents : StorageSetup where
  hash := fun key => if key = "http://v" then "v" else "u"
  metadataOf := fun _ => none
  cacheDir := "/cache"
  selectsOther := fun _ _ => false

/-- A download. -/
def downloadOfU : DownloadRow :=
  .ofInfo 1
    { directory := "/d/1"
      state := TorrentState.DOWNLOADING
      torrentUrl := some "http://u"
      torrentMagnet := some "magnet:u"
      torrentFilePath := some "/d/1/u.torrent" }

/-- It runs, under a key. -/
def downloading (key : String) : WatchedDownloads :=
  mark
    { table := ⟨[downloadOfU], List.pairwise_singleton _ _⟩
      session :=
        { torrents := Function.update (fun _ => none) key (some 0)
          live := [some ⟨.infoHash "u" true, LiveSession.urlOf key, "/d/1", false⟩] }
      lastTorrent := ""
      tasks := []
      watchTask := none
      adds := []
      held := [] }

/-- The video is watched from its details page, to the end of it; `adding` is what the session
    answers to a key. -/
def watchToTheEnd (url magnet : Option String) (adding : List (Option Bool)) : List Event :=
  [.startDetails url magnet] ++ adding.map (.advance 0) ++ List.replicate 4 (.advance 0 none) ++
    [.finish 0]

theorem not_watchHarmless {r : DownloadRow} (hr : r ∈ s.table.rows)
    (hstate : r.state = TorrentState.DOWNLOADING) (hheld : r.id ∈ s.held)
    (hdead : s.tasks.map StoredWatch.isAlive = [false])
    (hholds : s.session.holds r = false) : ¬s.WatchHarmless := by
  -- no task is alive, so the download ought to be running
  intro hharmless
  have hended : ∀ w ∈ s.tasks, w.isAlive = false := by
    intro w hw
    have hmem : w.isAlive ∈ s.tasks.map StoredWatch.isAlive := List.mem_map_of_mem hw
    rw [hdead] at hmem
    exact List.mem_singleton.mp hmem
  have hruns : s.session.holds r = true := hharmless hended r hr hstate hheld
  rw [hholds] at hruns
  cases hruns

/-- A download whose video has been watched is removed for the next video, is paused where the
    dialog closes, or was moved to the cache directory at the start: the service has it under the
    path of its `.torrent`, and the magnet of the watch is another key of the torrent. -/
theorem watch_harms_download :
    (∃ s, (machine twoTorrents).Reachable s ∧ ¬s.WatchHarmless ∧
      s.session.torrents "http://u" = none) ∧
    (∃ s, (machine twoTorrents).Reachable s ∧ ¬s.WatchHarmless ∧
      s.session.isTorrentPaused "http://u" = true) ∧
    ∃ s, (machine twoTorrents).Reachable s ∧ ¬s.WatchHarmless ∧
      (s.session.torrentAt 0).map SessionTorrent.savePath = some "/cache" := by
  have hrun : ∀ key events (outcome : WatchedDownloads → Bool),
      (Machine.runEvents (next twoTorrents) (downloading key) events).any (fun s =>
        decide (s.table.rows = [downloadOfU] ∧ s.held = [1] ∧
          s.tasks.map StoredWatch.isAlive = [false] ∧
          s.session.holds downloadOfU = false) && outcome s) = true →
      ∃ s, (machine twoTorrents).Reachable s ∧ ¬s.WatchHarmless ∧ outcome s = true := by
    intro key events outcome hany
    obtain ⟨s, hs, hall⟩ := (Option.any_eq_true _ _).mp hany
    rw [Bool.and_eq_true, decide_eq_true_eq] at hall
    obtain ⟨⟨hrows, hheld, hdead, hholds⟩, houtcome⟩ := hall
    have hreach : (machine twoTorrents).Reachable s :=
      Machine.Reachable.of_runEvents (.start ⟨_, _, _, rfl⟩) hs
    refine ⟨s, hreach, not_watchHarmless (r := downloadOfU) ?_ rfl ?_ hdead hholds, houtcome⟩
    · rw [hrows]
      exact List.mem_singleton_self _
    · rw [hheld]
      exact List.mem_singleton_self _
  refine ⟨?_, ?_, ?_⟩
  · -- the watch of another torrent takes the last one away
    obtain ⟨s, hreach, hharm, hgone⟩ := hrun "http://u"
      (watchToTheEnd (some "http://u") none [none] ++ [.addWatch (some "http://v") none])
      (fun s => (s.session.torrents "http://u").isNone) (by decide)
    exact ⟨s, hreach, hharm, Option.isNone_iff_eq_none.mp hgone⟩
  · -- the stop pauses what the watch found
    exact hrun "http://u" (watchToTheEnd (some "http://u") none [none] ++ [.stopWatch])
      (fun s => s.session.isTorrentPaused "http://u") (by decide)
  · -- by its magnet the same torrent is moved into the cache
    obtain ⟨s, hreach, hharm, hmoved⟩ := hrun "/d/1/u.torrent"
      (watchToTheEnd none (some "magnet:u") [none, none, none, some false, none])
      (fun s => decide ((s.session.torrentAt 0).map SessionTorrent.savePath = some "/cache"))
      (by decide)
    exact ⟨s, hreach, hharm, of_decide_eq_true hmoved⟩

end WatchedDownloads

end PopcornTime.Android
