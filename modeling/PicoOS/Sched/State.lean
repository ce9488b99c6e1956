/-
# `PicoOS.Sched.State` — what the scheduler keeps

The globals of `threads/thread.c`, `main.c` and `tests/tests.c` that the
scheduler reads or writes, and the memory its threads live in.

**Pointers.**  A `struct thread *` is an `Addr`: the page the boot stack stands
in, which holds `initial_thread`, or a block handed out by `calloc`.  `heap`
holds the blocks that are live; a block that was freed is `none` again and may
be handed out once more, so an address alone does not name a thread for ever,
its `tid` does.  Dereferencing a block that is not live is the fault `wild`.

**Lists.**  `ready_list`, `lista_espera` and `all_list` are sequences of
threads.  `list_push_back` of an element that is already linked, or
`list_remove` of one that is not, has no meaning on sequences: the intrusive
links would be corrupted.  These are the faults `relinked` and `unlinked`, so
that a run without a fault is a run in which the sequences are what the links
say.

**Integers.**  The arguments of the scheduler's entry points are `Int32`.  The
counters of type `int` that it advances (`ticks`, `duration_ticks`, `next_tid`)
are `Nat` and `Int`: overflowing one is undefined behaviour in C, so on every
run that C gives a meaning to the two agree.  The unsigned `thread_ticks` does
wrap, and the deadline of a sleeper is converted to `uint64_t`; both are
written out where they happen.

**What is left out of `struct thread`.**  `name`, `stack`, `priority`,
`true_priority`, `donations_received_list` and `register_save` are read by no
decision of the scheduler; `elem` and `allelem` are the sequences.

**The log.**  `trace` is a ghost: it records what the theorems about whole runs
speak of (who was enqueued, chosen, charged, freed), nothing reads it.
-/
import Mathlib.Algebra.Group.Int.Defs
import Mathlib.Algebra.Group.Nat.Defs
import Mathlib.Logic.Function.Basic
import PicoOS.Lib.Interruptible

namespace PicoOS

/-- A `struct thread *` that is not `NULL`. -/
inductive Addr where
  | stackPage
  | block (n : Nat)
  deriving DecidableEq, Repr

/-- `enum thread_status`. -/
inductive ThreadStatus where
  | running
  | ready
  | blocked
  | dying
  deriving DecidableEq, Repr

/-- `struct thread`, as far as the scheduler reads it. -/
structure Thread where
  tid : Nat
  status : ThreadStatus
  sleepTime : Nat
  durationTicks : Int
  magic : Nat
  deriving DecidableEq, Repr

/-- `THREAD_MAGIC`. -/
def threadMagic : Nat := 0xcd6abf4b

/-- What the log records.  A thread is given by its address and, where it matters which thread
had that address, by its `tid`. -/
inductive Obs where
  | created (t : Addr) (tid : Nat) (duration : Int)
  | enqueued (t : Addr)
  /-- `next_thread_to_run` returned `next`; `ready` is what it found in `ready_list`. -/
  | chosen (next : Option Addr) (ready : List Addr)
  | switched (t : Addr)
  | charged (t : Addr) (tid : Nat)
  | exited (t : Addr) (tid : Nat)
  | freed (t : Addr) (tid : Nat)
  deriving DecidableEq, Repr

/-- Why a run stops. -/
inductive Fault where
  /-- `ASSERT` failed: `PANIC` prints the function and the condition and halts. -/
  | assert (function condition : String)
  /-- A pointer that is `NULL` or to a freed block was dereferenced. -/
  | wild
  /-- A list element was linked while it was in a list. -/
  | relinked
  /-- A list element was unlinked while it was in no list. -/
  | unlinked
  deriving DecidableEq, Repr

/-- The fault is a failed `ASSERT`. -/
def Fault.IsAssert : Fault → Prop
  | .assert _ _ => True
  | _ => False

/-- The scheduler's globals, the live threads, the interrupt mask and the log. -/
structure State where
  heap : Addr → Option Thread
  readyList : List Addr
  listaEspera : List Addr
  allList : List Addr
  threadRunningVar : Addr
  idleThread : Option Addr
  initialThread : Addr
  nextTid : Nat
  ticks : Nat
  threadTicks : Nat
  idleTicks : Nat
  kernelTicks : Nat
  roundRobinMode : Int
  roundRobinTicks : Nat
  threadExitOnReturn : Int
  intrEnabled : Bool
  trace : List Obs

/-! ## Program points

A point is a statement of a scheduler function (its `Site`) or one of the
statements of the `thread_current` that the statement calls.  A statement that
touches locals only has no point of its own: an interrupt before it and one
before the next statement come to the same. -/

/-- The statements, function by function. -/
inductive Site where
  -- block_if_idle_thread
  | blockIfIdleTest
  -- thread_block
  | blockSave | blockStatus | blockRestore
  -- schedule, next_thread_to_run
  | scheduleCur | nextTest | nextReturn | scheduleAssertCur | scheduleAssertNext
  -- switch_threads_c, set_thread_running
  | switchSave | switchLoad | setRunningStatus | setRunningVar
  -- thread_schedule_tail
  | tailCur | tailStatus | tailTicks | tailTest | tailAssert | tailFree
  -- thread_yield
  | yieldCur | yieldSave | yieldTest | yieldCurTest | yieldPrintf | yieldPush | yieldStatus
  | yieldRestore
  -- thread_exit
  | exitTestInitial | exitTestIdle | exitUnlink | exitPrintf | exitDying
  -- thread_create, init_thread, alloc_frame, thread_unblock
  | createCalloc | initAssertName | initFields | initPush | createTid
  | createDuration | frameAssertThread | frameAssertSize | createIdle
  | unblockIsThread | unblockBlocked | unblockPush | unblockStatus
  -- thread_sleep, timer_sleep, insertar_en_lista_espera
  | sleepTest | sleepPrintf | insertarCur | insertarTicks | insertarStore | insertarPush
  -- timer_interrupt, thread_tick, remover_thread_durmiente
  | tickCount | tickCur | tickStats | tickSlice | tickDuration | tickPrintf
  | removerBegin | removerTest | removerRemove
  -- after_interrupt
  | afterExpired | afterPrintf | afterMode | afterSlice | afterForced | afterForcedDuration
  | afterForcedPrintf | afterForcedClear
  -- schedule_set_quantum, set_thread_exit_on_return, thread_init
  | setQuantum | setExit | threadInit
  deriving DecidableEq, Repr

/-- The statement itself, or a statement of the `thread_current` it calls. -/
inductive Inside where
  | body
  | runningThread
  | isThread
  | statusRunning
  deriving DecidableEq, Repr

/-- A program point. -/
structure Point where
  site : Site
  inside : Inside
  deriving DecidableEq, Repr

/-- A piece of the scheduler's code. -/
abbrev Code (α : Type) := Interruptible.Prog State Fault Point α

/-! ## Reading and writing the state -/

namespace State

/-- Dereference: the thread at `a`. -/
def load (s : State) (a : Addr) : Except Fault Thread :=
  match s.heap a with
  | some th => .ok th
  | none => .error .wild

/-- The thread at `a`, if there is one, changed by `f`. -/
def mapThread (a : Addr) (f : Thread → Thread) (s : State) : State :=
  { s with heap := Function.update s.heap a ((s.heap a).map f) }

/-- The thread at `a` with another status. -/
def setStatus (a : Addr) (st : ThreadStatus) (s : State) : State :=
  s.mapThread a fun th => { th with status := st }

/-- One more entry in the log. -/
def log (o : Obs) (s : State) : State := { s with trace := s.trace ++ [o] }

/-- The status of the thread at `a`, if it is live. -/
def statusOf (s : State) (a : Addr) : Option ThreadStatus := (s.heap a).map (·.status)

/-- The element `elem` of the thread is in `ready_list` or in `lista_espera`. -/
def linked (s : State) (a : Addr) : Bool := s.readyList.contains a || s.listaEspera.contains a

end State

/-! ## Statements -/

section Statements

variable {β : Type}

/-- The statement at `site`. -/
def stmt (site : Site) (act : State → Except Fault (β × State)) : Code β :=
  .stmt ⟨site, .body⟩ act .ret

/-- Evaluate an expression. -/
def reads (f : State → β) (s : State) : Except Fault (β × State) := .ok (f s, s)

/-- Evaluate an expression that dereferences. -/
def derefs (f : State → Except Fault β) (s : State) : Except Fault (β × State) :=
  (f s).map fun b => (b, s)

/-- Dereference `a` for a value nothing here depends on (what `printf` prints, saved registers). -/
def touches (a : Addr) (s : State) : Except Fault (Unit × State) := (s.load a).map fun _ => ((), s)

/-- Assign. -/
def writes (f : State → State) (s : State) : Except Fault (Unit × State) := .ok ((), f s)

/-- Assign a field of the thread at `a`. -/
def stores (a : Addr) (f : Thread → Thread) (s : State) : Except Fault (Unit × State) :=
  match s.heap a with
  | some _ => .ok ((), s.mapThread a f)
  | none => .error .wild

/-- `ASSERT (condition)` in `function`. -/
def asserts (function condition : String) (p : State → Except Fault Bool) (s : State) :
    Except Fault (Unit × State) :=
  match p s with
  | .error e => .error e
  | .ok true => .ok ((), s)
  | .ok false => .error (.assert function condition)

end Statements

end PicoOS
