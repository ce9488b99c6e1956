import PicoOS.Lib.Interruptible
import PicoOS.Lib.Runs
import PicoOS.Lib.Simulation
import PicoOS.Lib.Fallible
import PicoOS.Lib.Dispatcher
import PicoOS.Lib.LinkedSeq
import PicoOS.Lib.NaturalSort
import PicoOS.Lib.InsertionSort
import PicoOS.Lib.SelectionSort
import PicoOS.Lib.AdjacentRuns
import PicoOS.Lib.ByteMem
import PicoOS.Sched.State
import PicoOS.Sched.Code
import PicoOS.Sched.Effects
import PicoOS.Sched.Specs
import PicoOS.Sched.Invariant
import PicoOS.Sched.Ops
import PicoOS.Sched.Interrupts
import PicoOS.Sched.Queues
import PicoOS.Sched.Sleep
import PicoOS.Sched.Workload
import PicoOS.Sched.Policies
import PicoOS.Sched.LargeQuantum
import PicoOS.Sched.ExitTicks
import PicoOS.Sched.SleepTicks
import PicoOS.Sched.MainLoop
import PicoOS.Sched.LostThreads
import PicoOS.Sched.EarlyExit
import PicoOS.Sched.LifeCycle
import PicoOS.Sched.Accounting
import PicoOS.Sched.ForcedExit
import PicoOS.Sched.IdleSleep
import PicoOS.Sched.Polling
import PicoOS.Sched.Progress
import PicoOS.Main.Code
import PicoOS.Lists.Code
import PicoOS.Lists.Specs
import PicoOS.Lists.WakeUp
import PicoOS.Lists.Sort
import PicoOS.Lists.Reverse
import PicoOS.Lists.Ordered
import PicoOS.Lists.Unique
import PicoOS.Lists.Selection
import PicoOS.Lists.Interrupted
import PicoOS.Intrusive.Code
import PicoOS.Intrusive.Refines
import PicoOS.Intrusive.Calls
import PicoOS.Palloc.Code
import PicoOS.Palloc.Bitmaps
import PicoOS.Palloc.InitPool
import PicoOS.Palloc.Pools
import PicoOS.Blocks.Code
import PicoOS.Blocks.Frame
import PicoOS.Main.Prompts
import PicoOS.Main.Tests
import PicoOS.Synch.Code
import PicoOS.Synch.Port
import PicoOS.Synch.Circle
import PicoOS.Synch.Calls
import PicoOS.Synch.Books
