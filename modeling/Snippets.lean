import Snippets.Spsc.Proof.Linear
import Snippets.Spsc.Proof.Snapshot
import Snippets.Spsc.Proof.Promise
import Snippets.Spsc.Proof.Stale
import Snippets.Queue.Proof.Linear
import Snippets.Queue.Proof.Loss
import Snippets.Queue.Proof.Strand
import Snippets.Queue.Proof.Shutdown
import Snippets.Queue.Proof.Rest
import Snippets.Shared.Proof.Block
import Snippets.Shared.Proof.Progress
import Snippets.Shared.Proof.Ownership
import Snippets.Shared.Proof.Cycles
import Snippets.Shared.Proof.Null
import Snippets.Shared.Proof.Setup
import Snippets.Unique.Proof.Deleter
import Snippets.Unique.Proof.Custody
import Snippets.Lru.Proof.Readers
import Snippets.Lru.Proof.Reference
import Snippets.Lru.Proof.Stable
import Snippets.Lru.Proof.Inclusion
import Snippets.Lru.Proof.Failed
import Snippets.Lru.Proof.Competitive
import Snippets.Proxy.Proof.Relay
import Snippets.Proxy.Proof.Eof
import Snippets.Proxy.Proof.Watchdog
import Snippets.Proxy.Proof.Stopped
import Snippets.Proxy.Proof.Server
import Snippets.Proxy.Proof.Arrival
import Snippets.Echo.Proof.Faithful
import Snippets.Echo.Proof.Timeout
import Snippets.Echo.Proof.Agree
import Snippets.Echo.Proof.Serial
import Snippets.Echo.Proof.Pool
import Snippets.Echo.Proof.Serving
import Snippets.Echo.Proof.Ending
import Snippets.Echo.Proof.Signal
import Snippets.Load.Proof.Monitor
import Snippets.Load.Proof.Rounds
import Snippets.Load.Proof.Proxied
import Snippets.Load.Proof.Bookkeeping
import Snippets.Load.Proof.Shutdown
import Snippets.Daytime.Proof.Lifetime
import Snippets.Daytime.Proof.Rest
import Snippets.Daytime.Proof.Answered
