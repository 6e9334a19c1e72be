import MessageDedup.Lib.Transition
import MessageDedup.Lib.Coroutine
import MessageDedup.Lib.Spans
import MessageDedup.Lib.Interference
import MessageDedup.Lib.Keyspace
import MessageDedup.Lib.Rounding
import MessageDedup.Python
import MessageDedup.Store.Spec
import MessageDedup.Store.Memory
import MessageDedup.Store.Numbers
import MessageDedup.Store.Redis
import MessageDedup.Consumer.Record
import MessageDedup.Consumer.Lifecycle
import MessageDedup.Consumer.Handlers
import MessageDedup.Consumer.Timing
import MessageDedup.Consumer.Machine
import MessageDedup.Consumer.Run
import MessageDedup.Store.Backend
import MessageDedup.Group.System
import MessageDedup.Group.Answers
import MessageDedup.Group.Offsets
import MessageDedup.Group.Life
import MessageDedup.Group.Refinement
import MessageDedup.Group.Ownership
import MessageDedup.Group.Replay
import MessageDedup.Group.ExactlyOnce
import MessageDedup.Group.CrashSafety
import MessageDedup.Group.DeadLetters
import MessageDedup.Group.Budget
import MessageDedup.Group.StaleOwner
import MessageDedup.Group.LostMark
import MessageDedup.Group.Session
import MessageDedup.Group.Sequential
import MessageDedup.Group.Topics
import MessageDedup.Group.Handled
import MessageDedup.Outbox.Relay
import MessageDedup.Outbox.Identity
import MessageDedup.Outbox.Transactions
import MessageDedup.Outbox.Publishing
import MessageDedup.Outbox.Ledger
import MessageDedup.Outbox.Stranded
import MessageDedup.Store.History
import MessageDedup.Store.StateMachine
import MessageDedup.Store.Tenure
import MessageDedup.Store.Comparison
import MessageDedup.Store.Agreement
import MessageDedup.Guard.Lifecycle
import MessageDedup.Guard.Machine
import MessageDedup.Guard.System
import MessageDedup.Guard.Ownership
import MessageDedup.Guard.Turns
import MessageDedup.Guard.AtMostOnce
import MessageDedup.Guard.Refusals
import MessageDedup.Guard.RetryLimit
import MessageDedup.Consumer.Effects
import MessageDedup.Consumer.Extraction
import MessageDedup.Consumer.DlqRecord
import MessageDedup.Group.Attempts
import MessageDedup.Guard.SameLifecycle
import MessageDedup.Store.Results
import MessageDedup.Group.Malformed
import MessageDedup.Group.Counters
import MessageDedup.Store.Herd
import MessageDedup.Store.Window
import MessageDedup.Store.Shown
import MessageDedup.Guard.Origin
import MessageDedup.Guard.OneAnswer
import MessageDedup.Outbox.Draining
import MessageDedup.Outbox.Rows
import MessageDedup.Outbox.Loop
import MessageDedup.Pipeline.System
import MessageDedup.Pipeline.Consumers
import MessageDedup.Pipeline.Delivery
import MessageDedup.Group.Alone
import MessageDedup.Group.Recovery
import MessageDedup.Process.Main
import MessageDedup.Process.Stages
import MessageDedup.Process.Orderly
import MessageDedup.Process.Shutdown
