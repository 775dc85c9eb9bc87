import NTUSP.Library.Machine
import NTUSP.Library.Ring
import NTUSP.Library.Counting
import NTUSP.Library.CString
import NTUSP.Library.Int32
import NTUSP.Pool.Partition
import NTUSP.Pool.Model
import NTUSP.Pool.Steps
import NTUSP.Pool.Accounting
import NTUSP.Pool.Capacity
import NTUSP.Pool.Synchronize
import NTUSP.Pool.Deadlock
import NTUSP.Threads.Model
import NTUSP.Threads.Queue
import NTUSP.Threads.Accounting
import NTUSP.Threads.Scheduler
import NTUSP.Threads.Steps
import NTUSP.Threads.Consistency
import NTUSP.Threads.Conservation
import NTUSP.Threads.RwLock
import NTUSP.Threads.LeftBehind
import NTUSP.Server.Model
import NTUSP.Server.Frames
import NTUSP.Server.Calls
import NTUSP.Server.Effects
import NTUSP.Server.Requests
import NTUSP.Server.Seats
import NTUSP.Server.Orphans
import NTUSP.Server.Survival
import NTUSP.Server.Binding
import NTUSP.Pool.Executions
import NTUSP.Threads.Classes
import NTUSP.Threads.Values
import NTUSP.Server.Deeds
import NTUSP.Server.Books
import NTUSP.Server.LifeCycle
import NTUSP.Server.Tally
import NTUSP.Server.Crash
import NTUSP.Library.Claims
import NTUSP.Server.Sections
import NTUSP.Server.Shared
import NTUSP.Server.Advance
import NTUSP.Server.DoubleBooking
import NTUSP.Server.Undisturbed
import NTUSP.Server.ReadServer
import NTUSP.Friend.Model
import NTUSP.Friend.Circle
import NTUSP.Friend.Serving
import NTUSP.Friend.Attending
import NTUSP.Friend.Meet
import NTUSP.Threads.LockCounts
import NTUSP.Pool.Product
import NTUSP.Server.Payment
import NTUSP.Server.Framing
import NTUSP.Server.Reaction
import NTUSP.Server.AnyRun
import NTUSP.Server.Commute
import NTUSP.Server.Grammar
import NTUSP.Server.Failures
import NTUSP.Library.Fifo
import NTUSP.Threads.RoundRobin
import NTUSP.Threads.Slots
import NTUSP.Threads.WaitScan
import NTUSP.Threads.Overfull
import NTUSP.Threads.Capacity
import NTUSP.Pool.Ranges
import NTUSP.Threads.PmLoop
import NTUSP.Threads.CommandLine
import NTUSP.Library.Numerals
import NTUSP.Server.BookingInfo
import NTUSP.Server.FullShift
import NTUSP.Friend.Transfer
import NTUSP.Friend.Children
import NTUSP.Library.Monitor
import NTUSP.Threads.Moments
import NTUSP.Threads.Wakeup
import NTUSP.Library.Refinement
import NTUSP.Server.Office
import NTUSP.Server.Recorded
import NTUSP.Server.Represented
import NTUSP.Server.OfficeRuns
import NTUSP.Library.Mutex
import NTUSP.Pool.Ownership
import NTUSP.Pool.Effort
import NTUSP.Pool.Returns
import NTUSP.Threads.Remaining
import NTUSP.Threads.Returns
import NTUSP.Threads.Script
import NTUSP.Friend.Heard
import NTUSP.Friend.Owing
import NTUSP.Friend.Effort
import NTUSP.Friend.Answers
import NTUSP.Friend.Printed
