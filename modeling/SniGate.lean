import SniGate.Bytes.Basic
import SniGate.Bytes.Checked
import SniGate.Bytes.Utf8
import SniGate.Certscope.Identity
import SniGate.Certscope.Scope
import SniGate.Collections.Gathering
import SniGate.Collections.Promotion
import SniGate.Config.Ladder
import SniGate.Config.ResolverOrder
import SniGate.Config.Scopes
import SniGate.Config.Validate
import SniGate.Dns.Lookup
import SniGate.Dns.Ports
import SniGate.Dns.Resolver
import SniGate.Dns.Rotation
import SniGate.Dns.Spec
import SniGate.Ech.Client
import SniGate.Ech.Generations
import SniGate.Ech.Provider
import SniGate.Estimation.Between
import SniGate.Files.Crash
import SniGate.Graph.DepthFirst
import SniGate.Incremental.Window
import SniGate.Interaction.Parallel
import SniGate.Interaction.Program
import SniGate.Listener.Build
import SniGate.Listener.H2cProbe
import SniGate.Listener.Probes
import SniGate.Net.Cidr
import SniGate.Net.IpAddr
import SniGate.Net.Reading
import SniGate.Peek.Classify
import SniGate.Peek.Faults
import SniGate.Peek.HeadSegmentation
import SniGate.Peek.Hello
import SniGate.Peek.Http
import SniGate.Peek.Lines
import SniGate.Peek.Records
import SniGate.Peek.RequestHead
import SniGate.Peek.Segmentation
import SniGate.Peek.Tls
import SniGate.Peek.WholeHello
import SniGate.Pool.Backoff
import SniGate.Pool.Conservation
import SniGate.Pool.Estimators
import SniGate.Pool.Frame
import SniGate.Pool.FreshSample
import SniGate.Pool.History
import SniGate.Pool.HttpProbe
import SniGate.Pool.Loop
import SniGate.Pool.NextDue
import SniGate.Pool.Order
import SniGate.Pool.Scoring
import SniGate.Pool.State
import SniGate.Pool.Targets
import SniGate.Proxy.Connection
import SniGate.Proxy.Framing
import SniGate.Proxy.Guarantees
import SniGate.Proxy.Pump
import SniGate.Proxy.Race
import SniGate.Proxy.Retries
import SniGate.Proxy.RoutingKey
import SniGate.Proxy.Splice
import SniGate.Resolver.Confinement
import SniGate.Resolver.Isolation
import SniGate.Resolver.Mirror
import SniGate.Resolver.Mirroring
import SniGate.Resolver.Restart
import SniGate.Router.Confined
import SniGate.Router.NormalForm
import SniGate.Router.Precedence
import SniGate.Router.Wildcards
import SniGate.Store.Atomicity
import SniGate.Store.Basic
import SniGate.Store.Paths
import SniGate.Store.Sidecar
import SniGate.Streams.Writer
import SniGate.Suffix.Fallback
import SniGate.Suffix.Mintable
import SniGate.Suffix.Rules
import SniGate.Text.Basic
import SniGate.Text.Delimited
import SniGate.Text.Pieces
import SniGate.Text.Trim
import SniGate.Transition.Run
import SniGate.Verify.Policy
import SniGate.Config.Document
import SniGate.Startup.Pools
import SniGate.Startup.Readiness
import SniGate.Startup.Policies
import SniGate.Startup.PoolReadiness
import SniGate.Startup.Listeners
import SniGate.Startup.References
import SniGate.Startup.Handles
