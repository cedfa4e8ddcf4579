import Holesail.Theory.IncrementalParser
import Holesail.Theory.Gate
import Holesail.Theory.Conduit
import Holesail.Codec.Frame
import Holesail.Codec.RecordGrammar
import Holesail.Codec.Z32
import Holesail.Codec.Stringify
import Holesail.Endpoint.Identity
import Holesail.Endpoint.Info
import Holesail.Endpoint.Resolve
import Holesail.Endpoint.Authentic
import Holesail.Endpoint.Honesty
import Holesail.Server.Publishing
import Holesail.Server.HalfClose
import Holesail.Server.Lossless
import Holesail.Server.Teardown
import Holesail.Client.Table
import Holesail.Client.Flush
import Holesail.Client.Isolation
import Holesail.Tunnel.Datagrams
import Holesail.Pipe.FlowControl
import Holesail.Pipe.Watermark
import Holesail.Pipe.LocalEnd
import Holesail.Pipe.Finality
import Holesail.Server.Failures
import Holesail.Server.Terminal
import Holesail.Endpoint.Startup
import Holesail.Client.Leaks
import Holesail.Cli.Ports
import Holesail.Cli.PublicMode
import Holesail.Cli.HashedKey
import Holesail.Tunnel.Delivery
import Holesail.Tunnel.Service
import Holesail.Endpoint.Reaper
import Holesail.Cli.Process
import Holesail.Cli.Shutdown
import Holesail.Cli.LookupRun
import Holesail.Cli.Session
import Holesail.Endpoint.Takeover
import Holesail.Cli.LookupSession
import Holesail.Server.Publishers
import Holesail.Server.SyncClose
