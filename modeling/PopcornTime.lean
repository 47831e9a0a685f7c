import PopcornTime.Android.Migration
import PopcornTime.Android.LostUpdate
import PopcornTime.Android.DownloadsAdd
import PopcornTime.Android.RemovalRace
import PopcornTime.Android.SharedTorrents
import PopcornTime.Desktop.RangeDownloaded
import PopcornTime.Desktop.Startup
import PopcornTime.Desktop.Deadlines
import PopcornTime.Desktop.SeekTarget
import PopcornTime.Desktop.DeleteTorrent
import PopcornTime.Desktop.VpnIntegration
import PopcornTime.Desktop.ChromeCast
import PopcornTime.Android.WatchOutcome
import PopcornTime.Android.WatchDeadlines
import PopcornTime.Android.WatchSeek
import PopcornTime.Android.WatchPrepared
import PopcornTime.Android.WatchPause
import PopcornTime.Android.LoadSubtitles
import PopcornTime.Android.StartWatch
import PopcornTime.Android.WatchDialog
import PopcornTime.Android.SubtitlesFile
import PopcornTime.Android.LangSubtitles
import PopcornTime.Android.DetailsChain
import PopcornTime.Android.Messaging
import PopcornTime.Android.ContentUseCase
import PopcornTime.Android.DetailsLoading
import PopcornTime.Android.WatchHarmless
import PopcornTime.Desktop.CastPrinters
import PopcornTime.Desktop.TorrentWrapper
import PopcornTime.Desktop.TorrentFetch
import PopcornTime.Desktop.TorrentIODevice
import PopcornTime.Desktop.SubtitleFetcher
import PopcornTime.TorrentLib.Prepared
import PopcornTime.TorrentLib.WatchSession
import PopcornTime.TorrentLib.Registry
import PopcornTime.Lib.LineReads
import PopcornTime.Android.ConfigRun
import PopcornTime.Desktop.TorrentInfo
import PopcornTime.Desktop.StartupProgress
import PopcornTime.Desktop.StaleIds
import PopcornTime.Desktop.AddTorrent
import PopcornTime.Desktop.FileCoverage
import PopcornTime.Lib.Binary32Order
import PopcornTime.Desktop.SeekSlider
import PopcornTime.Lib.Selection
import PopcornTime.Desktop.SubtitleBom
import PopcornTime.Desktop.SubtitleDecoder
import PopcornTime.Desktop.SubtitleArchive
import PopcornTime.Desktop.SubtitleVariants
import PopcornTime.Desktop.SubtitlesConverter
import PopcornTime.Desktop.CastSubtitles
import PopcornTime.Android.TorrentAdding
import PopcornTime.Android.WatchSafe
import PopcornTime.TorrentLib.PieceDeadlines
import PopcornTime.Lib.SqlText
import PopcornTime.Android.DownloadLookup
import PopcornTime.Android.SRTBlocks
import PopcornTime.Lib.FirstMatch
import PopcornTime.Android.SubtitlesRenderer
import PopcornTime.Android.StorageUtil
import PopcornTime.Desktop.ControlRevealer
import PopcornTime.Desktop.TrackComboBox
import PopcornTime.Android.History
import PopcornTime.Android.PlayerSeek
import PopcornTime.Android.ConfigFetch
import PopcornTime.Android.UpdaterUseCase
import PopcornTime.Android.PreparedPath
import PopcornTime.Android.ContentRepository
import PopcornTime.Android.Favorites
import PopcornTime.Android.DetailsViews
import PopcornTime.Desktop.TorrentIds
import PopcornTime.Android.VideoShare
import PopcornTime.Lib.BinarySearch
import PopcornTime.TorrentLib.SparseArray
import PopcornTime.TorrentLib.SparseArrayRuns
import PopcornTime.TorrentLib.SessionListeners
import PopcornTime.Android.CastResponse
import PopcornTime.Lib.EndMark
import PopcornTime.Android.CastRequests
import PopcornTime.Lib.PercentEncoding
import PopcornTime.Android.CastHeader
import PopcornTime.Lib.FileTree
import PopcornTime.Android.CastUri
import PopcornTime.Android.CastFiles
import PopcornTime.Android.Settings
import PopcornTime.Android.CastConnections
import PopcornTime.Android.Connectivity
import PopcornTime.Desktop.CastSession
import PopcornTime.Lib.LengthPrefix
import PopcornTime.Desktop.CastPackets
import PopcornTime.Desktop.DlnaSession
