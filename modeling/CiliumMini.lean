import CiliumMini.Rust.Outcome
import CiliumMini.Rust.Net
import CiliumMini.Rust.NetText
import CiliumMini.Rust.BoundedMap
import CiliumMini.Rust.Memory
import CiliumMini.Rust.BufWriter
import CiliumMini.Run
import CiliumMini.Run.Trace
import CiliumMini.Run.Relay
import CiliumMini.Wire.Framing
import CiliumMini.Wire.Dns
import CiliumMini.Wire.Protobuf
import CiliumMini.Parser.DomainText
import CiliumMini.Parser.NameAgreement
import CiliumMini.Parser.Events
import CiliumMini.Parser.Responses
import CiliumMini.Parser.Recovery
import CiliumMini.Parser.Identity
import CiliumMini.Parser.Progress
import CiliumMini.Parser.Truncation
import CiliumMini.Parser.Sections
import CiliumMini.Parser.Verdict
import CiliumMini.Policy
import CiliumMini.Pipeline.ParserStage
import CiliumMini.Pipeline.AllowMap
import CiliumMini.Pipeline.Coverage
import CiliumMini.Pipeline.Topology
import CiliumMini.Pipeline.Alive
import CiliumMini.Pipeline.Refinement
import CiliumMini.Pipeline.Drain
import CiliumMini.Pipeline.Observer
import CiliumMini.Pipeline.Lifecycle
import CiliumMini.Ebpf.Spec
import CiliumMini.Ebpf.Record
import CiliumMini.Pipeline.Safety
import CiliumMini.Pipeline.Recycled
import CiliumMini.CommitLog.Message
import CiliumMini.CommitLog.Writer
import CiliumMini.CommitLog.Restart
import CiliumMini.CommitLog.Durability
import CiliumMini.Host.Machine
import CiliumMini.Host.EndToEnd
import CiliumMini.Host.Settle
import CiliumMini.Host.Service
