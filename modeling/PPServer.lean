import PPServer.Library.Loop
import PPServer.Library.Delimiter
import PPServer.Library.Locking
import PPServer.Text.Bytes
import PPServer.Text.Numeral
import PPServer.Http.Request
import PPServer.Http.Parser
import PPServer.Http.Reader
import PPServer.Http.Stages
import PPServer.Http.Refinement
import PPServer.Http.Termination
import PPServer.Http.ChunkLoop
import PPServer.Http.Grammar
import PPServer.Http.Observation
import PPServer.Http.Framing
import PPServer.Http.Segmentation
import PPServer.Http.RoundTrip
import PPServer.Http.Lengths
import PPServer.Http.Ambiguity
import PPServer.Http.HeaderTables
import PPServer.Http.Progress
import PPServer.Http.BodyViews
import PPServer.Http.Reprinting
import PPServer.Http.ChunkedCoding
import PPServer.Http.QueryParameters
import PPServer.Http.RequestLine
import PPServer.Http.PathParts
import PPServer.Http.Validity
import PPServer.Http.HeaderLines
import PPServer.Http.Taking
import PPServer.Http.StageResults
import PPServer.Http.Results
import PPServer.Net.Connection
import PPServer.Net.SelfLocking
import PPServer.Net.Outcomes
import PPServer.Net.Output
import PPServer.Net.Terminal
import PPServer.Net.Readable
import PPServer.Net.RequestParsing
import PPServer.Library.Transition
import PPServer.Library.Simulation
import PPServer.Library.Fifo
import PPServer.Library.Heap
import PPServer.Library.Iterating
import PPServer.Library.FiniteMap
import PPServer.Library.Separator
import PPServer.Library.Variant
import PPServer.Library.LockOrder
import PPServer.Library.Scopes
import PPServer.EventLoop.Descriptors
import PPServer.EventLoop.Watching
import PPServer.EventLoop.Timers
import PPServer.EventLoop.TimerHeap
import PPServer.EventLoop.Cancellation
import PPServer.EventLoop.TimerStore
import PPServer.EventLoop.Timeout
import PPServer.EventLoop.Expiry
import PPServer.EventLoop.Punctuality
import PPServer.EventLoop.Run
import PPServer.EventLoop.Wakeups
import PPServer.EventLoop.Stopping
import PPServer.EventLoop.Tasks
import PPServer.EventLoop.Returning
import PPServer.EventLoop.Sleeping
import PPServer.ThreadPool.Pool
import PPServer.ThreadPool.Closing
import PPServer.ThreadPool.Draining
import PPServer.ThreadPool.Capacity
import PPServer.ThreadPool.Wakeups
import PPServer.ThreadPool.Interleaving
import PPServer.ThreadPool.LockedParts
import PPServer.ThreadPool.Settling
import PPServer.ThreadPool.Joining
import PPServer.Net.Lifetime
import PPServer.Server.WebServer
import PPServer.Server.Main
import PPServer.Server.Exiting
import PPServer.Server.Interrupting
import PPServer.Server.Outcomes
import PPServer.Server.Registrations
import PPServer.Server.Sweep
import PPServer.Server.Accepting
import PPServer.Server.ConnectionTable
import PPServer.Server.ConnectionLimit
import PPServer.Server.Acceptance
import PPServer.Server.Listening
import PPServer.Server.WriteInterest
import PPServer.Library.Marks
import PPServer.Net.Pipelining
import PPServer.Library.Generations
import PPServer.EventLoop.Dispatch
import PPServer.Library.Stepwise
import PPServer.Net.Stepwise
import PPServer.Net.Removal
import PPServer.Net.Locks
import PPServer.Server.Stepwise
import PPServer.Server.Callbacks
import PPServer.Net.Closable
import PPServer.Net.Closing
import PPServer.Server.Signals
import PPServer.Server.Sockets
import PPServer.Server.Starting
import PPServer.Server.Closing
import PPServer.Net.Changes
import PPServer.Net.Exchange
import PPServer.Server.Isolation
import PPServer.Server.Interest
import PPServer.Server.Blocking
import PPServer.Server.Locks
import PPServer.Server.Deadlock
import PPServer.Server.Memory
import PPServer.Server.Answers
