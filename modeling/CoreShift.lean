import CoreShift.Utils.HashMap
import CoreShift.Utils.WorkQueue
import CoreShift.Loop
import CoreShift.JobTheorems
import CoreShift.JobRuns
import CoreShift.Launch
import CoreShift.LowLevel.Io
import CoreShift.Runtime
import CoreShift.Deadlines
import CoreShift.Escalation
import CoreShift.JobLimit
import CoreShift.Rejection
import CoreShift.NonInterference
import CoreShift.HighLevel.Api
import CoreShift.MidLevel.Router
import CoreShift.MidLevel.Wire
import CoreShift.Signals
import CoreShift.Daemon
import CoreShift.Tickets
import CoreShift.Deliveries
import CoreShift.Answering
import CoreShift.Replies
import CoreShift.Askers
import CoreShift.Stranded
import CoreShift.Owners
import CoreShift.Draining
import CoreShift.Consistency
import CoreShift.Results
import CoreShift.Custody
import CoreShift.LowLevel.Exec
import CoreShift.LowLevel.Spawn
import CoreShift.LowLevel.WaitLoop
import CoreShift.Spawning
import CoreShift.Arguments
import CoreShift.Conservation
import CoreShift.Synchronous
import CoreShift.Attribution
import CoreShift.Utils.Handles
import CoreShift.Orphans
import CoreShift.Captured
import CoreShift.Ascent
import CoreShift.Stops
import CoreShift.TimedOut
import CoreShift.Turns
import CoreShift.FirstSignal
import CoreShift.Enforcement
import CoreShift.HangUp
import CoreShift.Utils.ProcessGroups
import CoreShift.GroupSignals
import CoreShift.Utils.Descriptors
import CoreShift.LowLevel.CloseRange
import CoreShift.Closing
import CoreShift.Inheritance
import CoreShift.Eviction
import CoreShift.Timer
import CoreShift.PollTimeout
import CoreShift.Utils.Transfers
import CoreShift.LowLevel.Buffers
import CoreShift.Streams
import CoreShift.MidLevel.Decoding
import CoreShift.Frames
import CoreShift.Arrival
import CoreShift.Responses
import CoreShift.Backlog
import CoreShift.Utils.InterestList
import CoreShift.Registrations
import CoreShift.Utils.Pipeline
import CoreShift.Utils.Rounds
import CoreShift.Order
import CoreShift.Requests
import CoreShift.Answered
import CoreShift.Sessions
import CoreShift.Batches
import CoreShift.JobTable
import CoreShift.Refinement
import CoreShift.Readiness
import CoreShift.Utils.Objects
import CoreShift.Records
import CoreShift.Children
import CoreShift.Statuses
import CoreShift.Outputs
import CoreShift.Logging
import CoreShift.Footprint
