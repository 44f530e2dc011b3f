import Lcap.Systems.Runs
import Lcap.Reader.State
import Lcap.Reader.Buckets
import Lcap.Reader.Handlers
import Lcap.Reader.Loop
import Lcap.Proofs.Cases
import Lcap.Proofs.Shape
import Lcap.Proofs.Cursors
import Lcap.Proofs.Ownership
import Lcap.Proofs.Sealed
import Lcap.Proofs.Acknowledged
import Lcap.Proofs.NonEmpty
import Lcap.Proofs.Eof
import Lcap.Proofs.Replies
import Lcap.Proofs.Order
import Lcap.Reader.Upstream
import Lcap.Proofs.Caching
import Lcap.Client.Proxy
import Lcap.Client.Session
import Lcap.Proofs.Seats
import Lcap.Proofs.InStep
import Lcap.Proofs.Accounting
import Lcap.Proofs.BucketsBounded
import Lcap.Config
import Lcap.Proofs.LargestBatch
import Lcap.Broker
import Lcap.Proofs.Framing
import Lcap.Proofs.Routing
import Lcap.Proofs.BrokerReplies
import Lcap.Systems.Chunks
import Lcap.Wire.Decode
import Lcap.Proofs.Packing
import Lcap.Proofs.RecordRoundTrip
import Lcap.Proofs.RobustDecoding
import Lcap.Wire.Context
import Lcap.Proofs.ClearsSeen
import Lcap.Client.Fleet
import Lcap.Proofs.Fleet
import Lcap.Proofs.StartIndex
import Lcap.Proofs.AckBound
import Lcap.Proofs.Rendering
import Lcap.Proofs.PrefixClear
import Lcap.Proofs.FailedRequests
import Lcap.Proofs.ClearRetry
import Lcap.Proofs.Isolation
import Lcap.Proofs.SafeConfig
import Lcap.Proofs.Restart
import Lcap.Proofs.Draining
import Lcap.Net.Queue
import Lcap.Proofs.Boundaries
import Lcap.Wire.Holder
import Lcap.Proofs.Lifetime
import Lcap.Grammar
import Lcap.Systems.Words
import Lcap.Proofs.Grammar
import Lcap.Proofs.Parsing
import Lcap.Net.Senders
import Lcap.Proofs.Unspliced
import Lcap.Proofs.Capacity
import Lcap.Proofs.Reassembly
import Lcap.Client.Start
import Lcap.Net.Signal
import Lcap.Proofs.MdtNames
import Lcap.Proofs.FailedStart
import Lcap.Queue
import Lcap.Proofs.Sequences
import Lcap.Net.Network
import Lcap.Systems.Simulation
import Lcap.Proofs.Turns
import Lcap.Proofs.Tokens
import Lcap.Proofs.Hops
import Lcap.Proofs.Mail
import Lcap.Proofs.Sendable
import Lcap.Proofs.Relayed
import Lcap.Proofs.InTransit
import Lcap.Proofs.Attended
import Lcap.Proofs.AtLeastOnce
import Lcap.Proofs.EndToEnd
import Lcap.Proofs.Deliveries
import Lcap.Proofs.Linked
import Lcap.Proofs.Responsive
import Lcap.Proofs.Conserved
import Lcap.Net.Deployment
import Lcap.Proofs.Durable
import Lcap.Proofs.Settled
