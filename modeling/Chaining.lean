import Chaining.Stream.Capacity
import Chaining.Loop.Wakeup
import Chaining.Time.History
import Chaining.Time.Timeout
import Chaining.Time.Cancel
import Chaining.Poll.Events
import Chaining.Poll.Epoller
import Chaining.Poll.Registry
import Chaining.Poll.Dispatch
import Chaining.Base.Lines
import Chaining.Http.Response
import Chaining.Http.Wire
import Chaining.Http.Setters
import Chaining.Http.Grammar
import Chaining.Http.Splitting
import Chaining.Stream.Steady
import Chaining.Stream.Consume
import Chaining.Time.Snapshot
import Chaining.Poll.Callbacks
import Chaining.Poll.Failures
import Chaining.Poll.Flags
import Chaining.Time.Instants
import Chaining.Net.Address
import Chaining.Net.Accept
import Chaining.Settings.Units
import Chaining.Settings.Conversion
import Chaining.Time.Expiry
import Chaining.Loop.Fifo
import Chaining.Http.Refused
import Chaining.Base.Fair
import Chaining.Loop.Liveness
import Chaining.Loop.Service
import Chaining.Loop.Requests
import Chaining.Loop.Rounds
import Chaining.Loop.Due
import Chaining.Stream.Growth
import Chaining.Base.Framing
import Chaining.Http.Pipeline
import Chaining.Loop.Threads
import Chaining.Net.Sockets
import Chaining.Poll.Closed
import Chaining.Poll.EventList
import Chaining.Poll.Round
import Chaining.Net.Copied
import Chaining.Poll.Alone
