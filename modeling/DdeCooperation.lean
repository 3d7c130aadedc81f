import DdeCooperation.Tunnel.PeerBinding
import DdeCooperation.Tunnel.Codecs
import DdeCooperation.SlotIpc.Connection
import DdeCooperation.Tunnel.Agreement
import DdeCooperation.Web.Confinement
import DdeCooperation.Web.Sends
import DdeCooperation.Web.Completeness
import DdeCooperation.Web.Mirroring
import DdeCooperation.Web.Following
import DdeCooperation.Web.Finishing
import DdeCooperation.Web.Searching
import DdeCooperation.Session.Retries
import DdeCooperation.Web.IndexChange
import DdeCooperation.Web.InfoJson
import DdeCooperation.Web.RequestUrl
import DdeCooperation.Web.TransferWorker
import DdeCooperation.Session.Endpoint
import DdeCooperation.Session.Repercussions
import DdeCooperation.Session.FileSizeCounter
import DdeCooperation.Session.Heartbeat
import DdeCooperation.Cooperation.Applications
import DdeCooperation.Cooperation.Consent
import DdeCooperation.Cooperation.ShareRequest
import DdeCooperation.Cooperation.DiscoveredDevices
import DdeCooperation.Cooperation.DeviceOrder
import DdeCooperation.Framework.PluginManager
import DdeCooperation.Zrpc.Framing
import DdeCooperation.Zrpc.Channels
import DdeCooperation.Daemon.Replies
import DdeCooperation.Daemon.Authentication
import DdeCooperation.Daemon.JobEnds
import DdeCooperation.Daemon.FreeSpace
import DdeCooperation.Daemon.MissedPings
import DdeCooperation.Daemon.TransferConsent
import DdeCooperation.Daemon.Convergence
import DdeCooperation.Daemon.Reproduction
import DdeCooperation.DataTransfer.RestoredFiles
import DdeCooperation.Configs.Settings
