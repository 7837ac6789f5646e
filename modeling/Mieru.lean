import Mieru.Cipher.StreamNonces
import Mieru.Cipher.KeyCache
import Mieru.Protocol.Validation
import Mieru.Protocol.Wakeup
import Mieru.Session.ReadEnd
import Mieru.Session.Retransmission
import Mieru.Delivery.Fragmentation
import Mieru.Delivery.Retention
import Mieru.Delivery.EndOfStream
import Mieru.Delivery.DatagramSize
import Mieru.Delivery.Reordering
import Mieru.Underlay.ReplayRun
import Mieru.Wire.NonceUse
import Mieru.Wire.UserSearch
import Mieru.Wire.AssociateWrapper
import Mieru.Underlay.Wedge
import Mieru.Underlay.IdleCleaning
import Mieru.Socks5.Serve
import Mieru.Socks5.EgressSpelling
import Mieru.Socks5.RelayErrors
import Mieru.Socks5.DatagramLoop
import Mieru.Socks5.Proxying
import Mieru.Socks5.EarlyConn
import Mieru.Server.Daemon
import Mieru.Server.DeleteUsers
import Mieru.Server.Endpoints
import Mieru.Panel.Sessions
import Mieru.Panel.Throttling
import Mieru.Panel.BurstBound
import Mieru.Panel.ConfigStore
import Mieru.Panel.DeviceLimit
import Mieru.Panel.BackupCodes
import Mieru.Panel.Enrolment
import Mieru.Panel.Guessing
import Mieru.Panel.Convergence
import Mieru.Metrics.ConcurrentAdds
import Mieru.Metrics.Restart
import Mieru.Metrics.Quota
import Mieru.Server.MergeConfig
import Mieru.Server.LinkRoundTrip
