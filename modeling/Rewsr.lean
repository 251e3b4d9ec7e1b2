import Rewsr.Lib.OnesComplement
import Rewsr.Lib.Interleave
import Rewsr.Lib.Counter
import Rewsr.Host
import Rewsr.Net.Checksum
import Rewsr.Net.Packet
import Rewsr.Net.Wire
import Rewsr.Net.Pktgen
import Rewsr.Net.Vxlan
import Rewsr.Dataplane.Worker
import Rewsr.Ring.XskRing
import Rewsr.Net.Proof.Checksum
import Rewsr.Net.Proof.ByteOrder
import Rewsr.Net.Proof.Parse
import Rewsr.Net.Proof.Build
import Rewsr.Net.Proof.Verify
import Rewsr.Net.Proof.RoundTrip
import Rewsr.Net.Proof.Pktgen
import Rewsr.Net.Proof.Vxlan
import Rewsr.Ring.Proof.XskRing
import Rewsr.Xdp.FramePool
import Rewsr.Xdp.Xsk
import Rewsr.Xdp.Proof.FramePool
import Rewsr.Xdp.Proof.Xsk
import Rewsr.Xdp.Proof.Calls
import Rewsr.Xdp.Proof.Runs
import Rewsr.Ring.Duplex
import Rewsr.Ring.Proof.Duplex
import Rewsr.Net.Proof.Tunnel
import Rewsr.Net.Proof.Bounds
import Rewsr.Xdp.Proof.XdpProg
import Rewsr.Dataplane.Loop
import Rewsr.Dataplane.Proof.Bursts
import Rewsr.Dataplane.Proof.Loop
import Rewsr.Dataplane.Proof.Cycles
import Rewsr.Dataplane.Proof.Sender
import Rewsr.Ring.Proof.Spsc
import Rewsr.Go.Strings
import Rewsr.Piers.Caps
import Rewsr.Piers.Ladder
import Rewsr.Piers.Proof.Caps
import Rewsr.Piers.Proof.Ladder
import Rewsr.Piers.Preflight
import Rewsr.Piers.Proof.Preflight
import Rewsr.Ring.Proof.SpscBounds
import Rewsr.Net.Proof.Rfc1071
import Rewsr.Dataplane.Proof.Corruption
import Rewsr.Net.Vlan
import Rewsr.Lib.BitString
import Rewsr.Net.Proof.Rss
import Rewsr.Net.Proof.Vlan
import Rewsr.Net.Netlink
import Rewsr.Net.Proof.Netlink
import Rewsr.Net.Proof.NetlinkSafe
import Rewsr.Net.NetlinkDump
import Rewsr.Net.Proof.NetlinkDump
import Rewsr.Go.Proof.Strings
import Rewsr.Probe.Kernel
import Rewsr.Probe.Proof.Kernel
import Rewsr.Piers.CapText
import Rewsr.Piers.Proof.CapText
import Rewsr.Piers.Proof.Status
import Rewsr.Probe.Hugepages
import Rewsr.Sys.CString
import Rewsr.Sys.Hugepage
import Rewsr.Sys.Proof.Hugepage
import Rewsr.Sys.Affinity
import Rewsr.Sys.Numa
import Rewsr.Lib.BitCount
import Rewsr.Sys.Proof.CpuSet
import Rewsr.Sys.Cpulist
import Rewsr.Sys.Proof.Cpulist
import Rewsr.Sys.Proof.Affinity
import Rewsr.Sys.Proof.Numa
import Rewsr.Net.Arp
import Rewsr.Net.Proof.Arp
import Rewsr.Sys.Proof.CpuCalls
import Rewsr.Xdp.PoolArray
import Rewsr.Xdp.Proof.PoolArray
import Rewsr.Xdp.Proof.Area
import Rewsr.Xdp.Proof.Keeps
import Rewsr.Xdp.Wire
import Rewsr.Xdp.Proof.Wire
import Rewsr.Xdp.Proof.WireCalls
import Rewsr.Xdp.Proof.WireRuns
import Rewsr.Dataplane.Proof.Wire
import Rewsr.Lib.Resource
import Rewsr.Sys.Handles
import Rewsr.Xdp.Handles
import Rewsr.Xdp.Proof.Handles
import Rewsr.Dataplane.Handles
import Rewsr.Dataplane.Proof.Handles
import Rewsr.Sys.Sockets
import Rewsr.Net.NetlinkList
import Rewsr.Net.Proof.NetlinkList
import Rewsr.Bench.UdpBench
import Rewsr.Bench.Proof.UdpBench
import Rewsr.Xdp.Proof.Share
import Rewsr.Lib.XorMap
import Rewsr.Net.Proof.RssSpread
import Rewsr.Sys.NumaTopology
import Rewsr.Sys.Proof.NumaTopology
import Rewsr.Piers.UdpLoopback
import Rewsr.Piers.Proof.UdpThroughput
import Rewsr.Piers.Proof.UdpLatency
import Rewsr.Probe.Xdp
import Rewsr.Go.Proof.Lines
import Rewsr.Probe.Proof.Xdp
import Rewsr.Probe.Net
import Rewsr.Probe.Proof.Net
import Rewsr.Probe.Rdma
import Rewsr.Probe.Proof.Rdma
import Rewsr.Util.Hexdump
import Rewsr.Util.Proof.Hexdump
import Rewsr.Lib.Thread
