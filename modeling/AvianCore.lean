import AvianCore.Quic.Amplification
import AvianCore.Quic.ReceiveFlow
import AvianCore.Quic.SendFlow
import AvianCore.Quic.Writable
import AvianCore.Quic.Reassembly
import AvianCore.Quic.Retransmission
import AvianCore.Quic.Congestion
import AvianCore.Quic.Discarded
import AvianCore.Quic.KeyPhase
import AvianCore.Quic.Overtaking
import AvianCore.Quic.StreamCount
import AvianCore.Quic.Levels
import AvianCore.Quic.Grants
import AvianCore.Quic.Premature
import AvianCore.RateLimit.Ideal
import AvianCore.Tls.Names
import AvianCore.Http.Arrival
import AvianCore.Http.Splitting
import AvianCore.Http.Redirect
import AvianCore.Http.Spoofing
import AvianCore.Time.Text
import AvianCore.Quic.PacketNumber
import AvianCore.Http.ChunkOverhead
import AvianCore.Http.Http2
import AvianCore.Quic.Timeouts
import AvianCore.Quic.Codec
import AvianCore.Hpack.Qpack
import AvianCore.Executor.Order
import AvianCore.Http.WebSocket
import AvianCore.Http.CachedHead
