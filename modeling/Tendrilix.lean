import Tendrilix.AllowedIps.Refinement
import Tendrilix.Machine
import Tendrilix.Noise.CounterValidator
import Tendrilix.Noise.ReplayWindow
import Tendrilix.Bytes
import Tendrilix.Noise.Crypto
import Tendrilix.Noise.Packet
import Tendrilix.Noise.Session
import Tendrilix.IntrusiveQueue
import Tendrilix.PacketPool.Model
import Tendrilix.PacketPool.Spec
import Tendrilix.Noise.Handshake
import Tendrilix.IpPacket
import Tendrilix.Noise.Timers
import Tendrilix.Noise.Tunn
import Tendrilix.Noise.Effects
import Tendrilix.Noise.SessionSpec
import Tendrilix.Noise.CurrentSession
import Tendrilix.Noise.KeyFreshness
import Tendrilix.Noise.NonceUniqueness
import Tendrilix.Noise.ReplayProtection
import Tendrilix.Noise.Mirror
import Tendrilix.PacketPool.QueueSpec
import Tendrilix.Noise.PendingQueue
import Tendrilix.Noise.Rejection
import Tendrilix.Noise.KeyConfirmation
import Tendrilix.Noise.SessionRing
import Tendrilix.Bounded
import Tendrilix.Device.IndexGenerator
import Tendrilix.Device.PeerState
import Tendrilix.Noise.RateLimiter
import Tendrilix.Device.Model
import Tendrilix.Device.Moves
import Tendrilix.Device.Routing
import Tendrilix.Device.Commands
import Tendrilix.Device.PeerTable
import Tendrilix.Device.IndexLookup
import Tendrilix.Device.Roaming
import Tendrilix.Ensures
import Tendrilix.Noise.QueueCalls
import Tendrilix.Device.CommandClient
import Tendrilix.Attempt
import Tendrilix.Control.NetMap
import Tendrilix.Control.Reconciler
import Tendrilix.Control.Agreement
import Tendrilix.Control.HostRoutes
import Tendrilix.Control.ReadyDevice
import Tendrilix.Control.MapChange
import Tendrilix.Codec
import Tendrilix.Control.Wire
import Tendrilix.Noise.Room
import Tendrilix.Control.HealthVerdict
import Tendrilix.Control.FlapDamping
import Tendrilix.Control.SilenceClock
import Tendrilix.Control.ProbeSchedule
import Tendrilix.Control.RouteIdentity
import Tendrilix.Control.Inactivity
import Tendrilix.Control.FailedMap
import Tendrilix.Control.LearnedEndpoint
import Tendrilix.Noise.RoundTrip
import Tendrilix.Device.Pending
import Tendrilix.Noise.Written
import Tendrilix.Device.RelayQueue
import Tendrilix.Device.Sealing
import Tendrilix.Device.TypeSeparation
import Tendrilix.Noise.TunnelRoom
import Tendrilix.Device.BufferSize
import Tendrilix.Control.SteadyTraffic
import Tendrilix.PacketPool.Arena
import Tendrilix.Control.RouteScores
import Tendrilix.Control.DesiredPeers
import Tendrilix.Noise.TimeStamps
import Tendrilix.Noise.SessionAge
import Tendrilix.Noise.CookieExchange
import Tendrilix.AllowedIps.PrefixTree
import Tendrilix.AllowedIps.NodeCount
import Tendrilix.Device.PeerCommands
import Tendrilix.Device.PeerLimits
import Tendrilix.Device.Overflow
import Tendrilix.Device.RelayNetwork
import Tendrilix.Control.FailureDecay
import Tendrilix.Noise.StampOrder
import Tendrilix.Noise.Quiescence
import Tendrilix.Noise.KeyErasure
import Tendrilix.Noise.FloodLimit
import Tendrilix.Control.Passes
import Tendrilix.Control.FetchLoop
import Tendrilix.Control.LiveDevice
import Tendrilix.Control.TunnelRoutes
import Tendrilix.Control.DesktopClient
import Tendrilix.Device.Delivery
import Tendrilix.Device.Forgery
import Tendrilix.Device.Egress
