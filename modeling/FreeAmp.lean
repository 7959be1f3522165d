import FreeAmp.Io.SoundCardRun
import FreeAmp.Base.PlaylistAddItems
import FreeAmp.Base.PlaylistArguments
import FreeAmp.Base.PlaylistKeeps
import FreeAmp.Base.PlaylistRound
import FreeAmp.Base.PlaylistHandover
import FreeAmp.Base.UndoManager
import FreeAmp.Base.ResolvePath
import FreeAmp.Base.MusicCatalogLookup
import FreeAmp.Base.MusicCatalogCount
import FreeAmp.Base.MusicCatalogReport
import FreeAmp.Base.MusicCatalogLock
import FreeAmp.Base.MusicCatalogSettled
import FreeAmp.Base.GuidTable
import FreeAmp.Base.MusicCatalogPrune
import FreeAmp.Base.DownloadEntity
import FreeAmp.Base.DownloadShutdown
import FreeAmp.Base.DownloadReport
import FreeAmp.Io.HttpRedirect
import FreeAmp.Base.Mutex
import FreeAmp.Base.PlayerDone
import FreeAmp.Base.EventService
import FreeAmp.Base.DownloadWakeup
import FreeAmp.Base.UnixPrefsReload
import FreeAmp.Ui.ThemeConfined
import FreeAmp.Ui.UstarPlaces
import FreeAmp.Ui.UsageRef
import FreeAmp.Aps.YPClient
import FreeAmp.Io.WavOut
import FreeAmp.Aps.Interface
import FreeAmp.Plm.Pmp300Playlist
import FreeAmp.Aps.SyncLogDelivers
import FreeAmp.Base.DownloadNext
import FreeAmp.Xml.Entities
import FreeAmp.Xml.ParseEnds
import FreeAmp.Io.EncodeUri
import FreeAmp.Io.OpenHeader
import FreeAmp.Plm.PlsSyntax
import FreeAmp.Dlm.RmpReads
import FreeAmp.Io.HttpBuffer
import FreeAmp.Base.QuotablePasses
import FreeAmp.Base.PropertiesImpl
import FreeAmp.Plm.Id3v2Tag
import FreeAmp.Base.MatchPattern
import FreeAmp.Lmc.AdvanceFrame
import FreeAmp.Lmc.WavDecode
import FreeAmp.Base.PrefInt32
import FreeAmp.Aps.HttpWrite
import FreeAmp.Lmc.ConvertToIso
import FreeAmp.Dlm.MangleLocation
import FreeAmp.Io.LocalSeek
import FreeAmp.Io.ObsWorker
import FreeAmp.Plm.AcceptLocation
import FreeAmp.Base.MissingFile
import FreeAmp.Ui.ThemeLoads
import FreeAmp.Plm.MbcdLookup
import FreeAmp.Io.TimeInfo
import FreeAmp.Io.TitleStream
import FreeAmp.Ui.Slider
import FreeAmp.Ui.Headlines
import FreeAmp.Base.Timer
import FreeAmp.Ui.IcecastStreams
import FreeAmp.Lmc.VorbisRead
import FreeAmp.Base.FindMusicFiles
import FreeAmp.Base.PlayerQuit
