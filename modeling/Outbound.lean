import Outbound.Anytls.CloseDiscipline
import Outbound.Anytls.PacketReading
import Outbound.Bbr.AckHeight
import Outbound.Bbr.InFlight
import Outbound.Bbr.SenderSafety
import Outbound.Brutal
import Outbound.Bbr3.SenderSafety
import Outbound.Ciphers.Salsa20
import Outbound.Clientring.Failover
import Outbound.Coalesce
import Outbound.Hysteria2.UdpWrite
import Outbound.Hysteria2.Udphop
import Outbound.Netproxy.BufferedReader
import Outbound.Shadowsocks.Encoders
import Outbound.Shadowsocks.SubKey
import Outbound.Shadowsocks2022.ReplaySafety
import Outbound.Shadowsocks2022.TcpStream
import Outbound.Shadowsocks2022.UdpReceive
import Outbound.ShadowsocksStream.Plaintext
import Outbound.Shadowsocksr.Identity
import Outbound.Shadowsocksr.UdpConn
import Outbound.Stickyip
import Outbound.Transport.Grpc.Outcomes
import Outbound.Transport.HttpheaderResume
import Outbound.Transport.Meek
import Outbound.Transport.MuxFraming
import Outbound.Transport.Simpleobfs.Http
import Outbound.Trojanc.Framing
import Outbound.Trojanc.HeaderOnce
import Outbound.Tuic.ReceiveQueue
import Outbound.Tuic.SourceAddr
import Outbound.Vless.Vision.Transparency
import Outbound.Vless.Vision.Xudp
import Outbound.Vmess.Datagram
import Outbound.Vmess.Kdf
