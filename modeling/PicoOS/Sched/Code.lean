/-
# `PicoOS.Sched.Code` — the scheduler, statement by statement

The functions of `threads/thread.c`, `lib/switch.c`, `misc/timer.c`, `main.c`
and `tests/tests.c` that schedule threads, in the order in which they call one
another.  A function keeps its name; a statement is a `stmt` at its `Site`.  A
call of `list.c`, of `printf`, `calloc` or `free` is one statement, and so is a
block of register moves in `switch_threads_c`.

Interrupts are enabled except between `save_and_disable_interrupts` and
`restore_interrupts`; nothing else here says when one may be taken.
-/
import PicoOS.Sched.State

namespace PicoOS

open Interruptible

/-! ## Expressions -/

/-- `is_thread (t)`. -/
def isThread (t : Option Addr) (s : State) : Except Fault Bool :=
  match t with
  | none => .ok false
  | some a => (s.load a).map fun th => th.magic == threadMagic

/-- `running_thread ()`. -/
def runningThread (s : State) : Addr := s.threadRunningVar

/-- `t->status`. -/
def status (t : Addr) (s : State) : Except Fault ThreadStatus := (s.load t).map (·.status)

/-- `t->duration_ticks`. -/
def durationTicks (t : Addr) (s : State) : Except Fault Int := (s.load t).map (·.durationTicks)

/-- The conversion of an `int` to `uint64_t`. -/
def toUInt64 (x : Int) : Nat := (x % 2 ^ 64).toNat

/-- `ticks >= t->sleep_time`, an `int` against a `uint64_t`. -/
def wakeTest (ticks sleepTime : Nat) : Bool := sleepTime ≤ toUInt64 ticks

/-! ## The three lists -/

/-- `list_push_back (&ready_list, &t->elem)`. -/
def pushReady (t : Addr) (s : State) : Except Fault (Unit × State) :=
  if s.linked t then .error .relinked
  else .ok ((), { s with readyList := s.readyList ++ [t] }.log (.enqueued t))

/-- `list_push_back (&lista_espera, &t->elem)`. -/
def pushEspera (t : Addr) (s : State) : Except Fault (Unit × State) :=
  if s.linked t then .error .relinked
  else .ok ((), { s with listaEspera := s.listaEspera ++ [t] })

/-- `list_remove (&t->elem)`, the thread being in `lista_espera`. -/
def removeEspera (t : Addr) (s : State) : Except Fault (Unit × State) :=
  if s.listaEspera.contains t then .ok ((), { s with listaEspera := s.listaEspera.erase t })
  else .error .unlinked

/-- `list_push_back (&all_list, &t->allelem)`. -/
def pushAll (t : Addr) (s : State) : Except Fault (Unit × State) :=
  if s.allList.contains t then .error .relinked
  else .ok ((), { s with allList := s.allList ++ [t] })

/-- `list_remove (&t->allelem)`: from here on the thread has exited. -/
def removeAll (t : Addr) (s : State) : Except Fault (Unit × State) :=
  if s.allList.contains t then
    match s.heap t with
    | some th => .ok ((), { s with allList := s.allList.erase t }.log (.exited t th.tid))
    | none => .error .wild
  else .error .unlinked

/-! ## The current thread -/

/-- `thread_current ()`, called by the statement at `site`. -/
def threadCurrent (site : Site) : Code Addr := do
  let t ← .stmt ⟨site, .runningThread⟩ (reads runningThread) .ret
  .stmt ⟨site, .isThread⟩ (asserts "thread_current" "is_thread (t)" (isThread (some t))) .ret
  .stmt ⟨site, .statusRunning⟩
    (asserts "thread_current" "t->status == THREAD_RUNNING" fun s =>
      (status t s).map (· == .running)) .ret
  return t

/-- `save_and_disable_interrupts ()`: the old mask is the value. -/
def saveAndDisableInterrupts (s : State) : Except Fault (Bool × State) :=
  .ok (s.intrEnabled, { s with intrEnabled := false })

/-- `restore_interrupts (old_level)`. -/
def restoreInterrupts (oldLevel : Bool) (s : State) : Except Fault (Unit × State) :=
  .ok ((), { s with intrEnabled := oldLevel })

/-! ## Switching -/

/-- `set_thread_running (t)`. -/
def setThreadRunning (t : Addr) : Code Unit := do
  stmt .setRunningStatus (stores t fun th => { th with status := .running })
  stmt .setRunningVar (writes fun s => { s with threadRunningVar := t }.log (.switched t))

/-- `switch_threads_c (cur, next)`. -/
def switchThreadsC (cur next : Addr) : Code Addr := do
  stmt .switchSave (touches cur)
  stmt .switchLoad (touches next)
  setThreadRunning next
  return cur

/-- The first element of `ready_list`, popped, or `idle_thread`. -/
def nextOf (empty : Bool) (s : State) : Except Fault (Option Addr × State) :=
  if empty then .ok (s.idleThread, s.log (.chosen s.idleThread s.readyList))
  else
    match s.readyList with
    | [] => .error (.assert "list_front" "!list_empty (list)")
    | t :: rest => .ok (some t, { s with readyList := rest }.log (.chosen (some t) s.readyList))

/-- `next_thread_to_run ()`. -/
def nextThreadToRun : Code (Option Addr) := do
  let empty ← stmt .nextTest (reads fun s => s.readyList.isEmpty)
  stmt .nextReturn (nextOf empty)

/-- `free (t)`. -/
def free (t : Addr) (s : State) : Except Fault (Unit × State) :=
  match s.heap t with
  | some th => .ok ((), { s with heap := Function.update s.heap t none }.log (.freed t th.tid))
  | none => .error .wild

/-- `thread_schedule_tail (prev)`. -/
def threadScheduleTail (prev : Option Addr) : Code Unit := do
  let cur ← stmt .tailCur (reads runningThread)
  stmt .tailStatus (stores cur fun th => { th with status := .running })
  stmt .tailTicks (writes fun s => { s with threadTicks := 0 })
  match prev with
  | none => return ()
  | some p =>
      let dying ← stmt .tailTest (derefs fun s =>
        (status p s).map fun st => st == .dying && p != s.initialThread)
      if dying then
        stmt .tailAssert (asserts "thread_schedule_tail" "prev != cur" fun _ => .ok (p != cur))
        stmt .tailFree (free p)
      else return ()

/-- `schedule ()`. -/
def schedule : Code Unit := do
  let cur ← stmt .scheduleCur (reads runningThread)
  let next ← nextThreadToRun
  stmt .scheduleAssertCur (asserts "schedule" "cur->status != THREAD_RUNNING" fun s =>
    (status cur s).map (· != .running))
  stmt .scheduleAssertNext (asserts "schedule" "is_thread (next)" (isThread next))
  match next with
  | none => stmt .switchLoad fun _ => .error .wild
  | some next =>
      if cur ≠ next then
        let prev ← switchThreadsC cur next
        threadScheduleTail (some prev)
      else threadScheduleTail none

/-! ## Blocking, yielding, exiting -/

/-- `thread_block ()`. -/
def threadBlock : Code Unit := do
  let oldLevel ← stmt .blockSave saveAndDisableInterrupts
  let t ← threadCurrent .blockStatus
  stmt .blockStatus (stores t fun th => { th with status := .blocked })
  schedule
  stmt .blockRestore (restoreInterrupts oldLevel)

/-- `block_if_idle_thread ()`. -/
def blockIfIdleThread : Code Unit := do
  let t ← threadCurrent .blockIfIdleTest
  let isIdle ← stmt .blockIfIdleTest (reads fun s => decide (some t = s.idleThread))
  if isIdle then threadBlock else return ()

/-- The inner `if` of `thread_yield`: `cur` goes to the back of `ready_list` unless it is
`idle_thread` or `initial_thread`. -/
def yieldRequeue (cur : Addr) : Code Unit := do
  let worker ← stmt .yieldCurTest (reads fun s =>
    decide (some cur ≠ s.idleThread ∧ cur ≠ s.initialThread))
  if worker then
    let t ← threadCurrent .yieldPrintf
    stmt .yieldPrintf (touches t)
    stmt .yieldPush (pushReady cur)
  else return ()

/-- `thread_yield ()`. -/
def threadYield : Code Unit := do
  let cur ← threadCurrent .yieldCur
  let oldLevel ← stmt .yieldSave saveAndDisableInterrupts
  let empty ← stmt .yieldTest (reads fun s => s.readyList.isEmpty)
  if empty then stmt .yieldRestore (restoreInterrupts oldLevel)
  else
    yieldRequeue cur
    stmt .yieldStatus (stores cur fun th => { th with status := .ready })
    schedule
    stmt .yieldRestore (restoreInterrupts oldLevel)

/-- The condition of `thread_exit`: `thread_current () != initial_thread && thread_current () !=
idle_thread`, the second call made only if the first comparison holds. -/
def exitTest : Code Bool := do
  let t ← threadCurrent .exitTestInitial
  let notInitial ← stmt .exitTestInitial (reads fun s => decide (t ≠ s.initialThread))
  if notInitial then
    let t ← threadCurrent .exitTestIdle
    stmt .exitTestIdle (reads fun s => decide (some t ≠ s.idleThread))
  else return false

/-- The exit path of `thread_exit`. -/
def exitCurrent : Code Unit := do
  let t ← threadCurrent .exitUnlink
  stmt .exitUnlink (removeAll t)
  let t ← threadCurrent .exitPrintf
  stmt .exitPrintf (touches t)
  let t ← threadCurrent .exitDying
  stmt .exitDying (stores t fun th => { th with status := .dying })
  schedule

/-- `thread_exit ()`. -/
def threadExit : Code Unit := do
  let worker ← exitTest
  if worker then exitCurrent else threadYield

/-! ## Waking -/

/-- `thread_unblock (t)`. -/
def threadUnblock (t : Addr) : Code Unit := do
  stmt .unblockIsThread (asserts "thread_unblock" "is_thread (t)" (isThread (some t)))
  stmt .unblockBlocked (asserts "thread_unblock" "t->status == THREAD_BLOCKED" fun s =>
    (status t s).map (· == .blocked))
  stmt .unblockPush (pushReady t)
  stmt .unblockStatus (stores t fun th => { th with status := .ready })

/-- The loop of `remover_thread_durmiente`, with `iter` at the first of the given threads. -/
def removerLoop (ticks : Nat) : List Addr → Code Unit
  | [] => return ()
  | t :: rest => do
      let due ← stmt .removerTest (derefs fun s =>
        (s.load t).map fun th => wakeTest ticks th.sleepTime)
      if due then
        stmt .removerRemove (removeEspera t)
        threadUnblock t
        removerLoop ticks rest
      else removerLoop ticks rest

/-- `remover_thread_durmiente (ticks)`. -/
def removerThreadDurmiente (ticks : Nat) : Code Unit := do
  let iter ← stmt .removerBegin (reads fun s => s.listaEspera)
  removerLoop ticks iter

/-! ## Sleeping -/

/-- `insertar_en_lista_espera (ticks)`. -/
def insertarEnListaEspera (ticks : Int32) : Code Unit := do
  let threadActual ← threadCurrent .insertarCur
  let now ← stmt .insertarTicks (reads fun s => s.ticks)
  stmt .insertarStore (stores threadActual fun th =>
    { th with sleepTime := toUInt64 (now + ticks.toInt) })
  stmt .insertarPush (pushEspera threadActual)
  threadBlock

/-- `thread_sleep (ticks)`. -/
def threadSleep (ticks : Int32) : Code Unit := do
  let positive ← stmt .sleepTest (reads fun _ => decide (0 < ticks.toInt))
  if positive then
    let t ← threadCurrent .sleepPrintf
    stmt .sleepPrintf (touches t)
    insertarEnListaEspera ticks
  else return ()

/-- `timer_sleep (ticks)`. -/
def timerSleep (ticks : Int32) : Code Unit := do
  let positive ← stmt .sleepTest (reads fun _ => decide (0 < ticks.toInt))
  if positive then insertarEnListaEspera ticks else return ()

/-! ## Creating -/

/-- The `name` argument of `thread_create`: `name == "idle"` compares pointers, so all that
matters is whether it is `NULL`, the literal `"idle"` of `thread.c`, or another string. -/
inductive Name where
  | null
  | idleLiteral
  | other
  deriving DecidableEq, Repr

/-- `TID_ERROR`. -/
def tidError : Int := -1

/-- `init_thread (t, name)`; `t` is not `NULL`. -/
def initThread (t : Addr) (name : Name) : Code Unit := do
  stmt .initAssertName (asserts "init_thread" "name != NULL" fun _ => .ok (name != .null))
  stmt .initFields (writes fun s => { s with
    heap := Function.update s.heap t (some ⟨0, .blocked, 0, 9999999, threadMagic⟩) })
  stmt .initPush (pushAll t)

/-- `t->tid = allocate_tid ()`. -/
def assignTid (t : Addr) (s : State) : Except Fault (Nat × State) :=
  match s.heap t with
  | some _ => .ok (s.nextTid,
      { s.mapThread t (fun th => { th with tid := s.nextTid }) with nextTid := s.nextTid + 1 })
  | none => .error .wild

/-- `t->duration_ticks = duration`: from here on the thread has been created. -/
def assignDuration (t : Addr) (tid : Nat) (duration : Int) (s : State) :
    Except Fault (Unit × State) :=
  match s.heap t with
  | some _ => .ok ((), (s.mapThread t fun th => { th with durationTicks := duration }).log
      (.created t tid duration))
  | none => .error .wild

/-- `sizeof (struct kernel_thread_frame)`. -/
def frameSize : Nat := 12

/-- `alloc_frame (t, size)`, less `t->stack`, which nothing reads but the caller. -/
def allocFrame (t : Addr) (size : Nat) : Code Unit := do
  stmt .frameAssertThread (asserts "alloc_frame" "is_thread (t)" (isThread (some t)))
  stmt .frameAssertSize (asserts "alloc_frame" "size % sizeof (uint32_t) == 0" fun _ =>
    .ok (size % 4 == 0))

/-- `calloc (1, sizeof (struct thread))`, which returned `block`: zeroed memory. -/
def callocThread (block : Option Nat) (s : State) : Except Fault (Option Addr × State) :=
  match block with
  | none => .ok (none, s)
  | some b => .ok (some (.block b),
      { s with heap := Function.update s.heap (.block b) (some ⟨0, .running, 0, 0, 0⟩) })

/-- `thread_create (name, function, aux, duration)`, `calloc` having returned `block`.

The three stores through `kf` after `alloc_frame` (`eip`, `function`, `aux`) are left out.  They go
4084 bytes behind the start of the block, outside of it, and are taken to hit no live thread; when
that is so is the subject of `PicoOS.Blocks.Frame`. -/
def threadCreate (name : Name) (block : Option Nat) (duration : Int32) : Code Int := do
  let t ← stmt .createCalloc (callocThread block)
  match t with
  | none => return tidError
  | some t =>
      initThread t name
      let tid ← stmt .createTid (assignTid t)
      stmt .createDuration (assignDuration t tid duration.toInt)
      allocFrame t frameSize
      threadUnblock t
      stmt .createIdle (writes fun s =>
        if name = .idleLiteral ∧ tid = 2 then { s with idleThread := some t } else s)
      blockIfIdleThread
      return (tid : Int)

/-! ## The timer and the main loop -/

/-- `thread_tick ()`. -/
def threadTick : Code Unit := do
  let t ← threadCurrent .tickCur
  stmt .tickStats (writes fun s =>
    if some t = s.idleThread then { s with idleTicks := s.idleTicks + 1 }
    else { s with kernelTicks := s.kernelTicks + 1 })
  stmt .tickSlice (writes fun s => { s with threadTicks := (s.threadTicks + 1) % 2 ^ 32 })
  stmt .tickDuration fun s =>
    match s.heap t with
    | some th => .ok ((), (s.mapThread t fun th =>
        { th with durationTicks := th.durationTicks - 1 }).log (.charged t th.tid))
    | none => .error .wild

/-- `timer_interrupt (t)`. -/
def timerInterrupt : Code Unit := do
  stmt .tickCount (writes fun s => { s with ticks := s.ticks + 1 })
  threadTick
  let t ← threadCurrent .tickPrintf
  let ticks ← stmt .tickPrintf (derefs fun s => (s.load t).map fun _ => s.ticks)
  removerThreadDurmiente ticks

/-- `schedule_set_quantum (mode, rrticks)`. -/
def scheduleSetQuantum (mode rrticks : Int32) : Code Unit :=
  stmt .setQuantum (writes fun s =>
    if mode.toInt = 0 then { s with roundRobinMode := 0 }
    else if mode.toInt = 1 ∧ 0 < rrticks.toInt then
      { s with roundRobinMode := 1, roundRobinTicks := rrticks.toInt.toNat }
    else s)

/-- `set_thread_exit_on_return ()`. -/
def setThreadExitOnReturn : Code Unit :=
  stmt .setExit (writes fun s => { s with threadExitOnReturn := 1 })

/-- The first `if` of `after_interrupt`: expiry, else preemption. -/
def afterExpiry : Code Unit := do
  let t ← threadCurrent .afterExpired
  let expired ← stmt .afterExpired (derefs fun s => (durationTicks t s).map (decide <| · ≤ 0))
  if expired then
    let t ← threadCurrent .afterPrintf
    stmt .afterPrintf (touches t)
    threadExit
  else
    let others ← stmt .afterMode (reads fun s =>
      decide (s.roundRobinMode ≠ 0) && !s.readyList.isEmpty)
    if others then
      let spent ← stmt .afterSlice (reads fun s => decide (s.roundRobinTicks ≤ s.threadTicks))
      if spent then threadYield else return ()
    else return ()

/-- The second `if` of `after_interrupt`: a forced exit.  The two `thread_current ()`s among the
arguments of its `printf` are one here. -/
def afterForced : Code Unit := do
  let asked ← stmt .afterForced (reads fun s => decide (s.threadExitOnReturn ≠ 0))
  if asked then
    let t ← threadCurrent .afterForcedDuration
    let left ← stmt .afterForcedDuration (derefs fun s => (durationTicks t s).map (decide <| · ≠ 0))
    if left then
      let t ← threadCurrent .afterForcedPrintf
      stmt .afterForcedPrintf (touches t)
      threadExit
      stmt .afterForcedClear (writes fun s => { s with threadExitOnReturn := 0 })
    else return ()
  else return ()

/-- `after_interrupt ()`. -/
def afterInterrupt : Code Unit := do
  blockIfIdleThread
  afterExpiry
  afterForced

/-! ## Booting -/

/-- The statics as the loader leaves them; the pointers are `NULL` until `thread_init`. -/
def powerOn : State where
  heap := fun _ => none
  readyList := []
  listaEspera := []
  allList := []
  threadRunningVar := .stackPage
  idleThread := none
  initialThread := .stackPage
  nextTid := 1
  ticks := 0
  threadTicks := 0
  idleTicks := 0
  kernelTicks := 0
  roundRobinMode := 0
  roundRobinTicks := 5
  threadExitOnReturn := 0
  intrEnabled := true
  trace := []

/-- `thread_init ()`; `running_thread_init ()` is the page of the boot stack. -/
def threadInit : Code Unit := do
  stmt .threadInit (writes fun s =>
    { s with readyList := [], allList := [], listaEspera := [], initialThread := .stackPage })
  initThread .stackPage .other
  stmt .threadInit (stores .stackPage fun th => { th with status := .running })
  let _ ← stmt .createTid (assignTid .stackPage)
  stmt .threadInit (writes fun s => { s with threadRunningVar := .stackPage })

/-- `thread_start ()`, `calloc` having returned `block`. -/
def threadStart (block : Option Nat) : Code Unit := do
  let _ ← threadCreate .idleLiteral block 999
  return ()

/-- `main` calls `schedule_set_quantum (1, …)` before the boot if the user asked for it. -/
def setUserQuantum : Option Int32 → Code Unit
  | some rrticks => scheduleSetQuantum 1 rrticks
  | none => return ()

/-- The boot of `main`: `thread_init`, `thread_start`, and `thread_yield` once the timer runs.
`k` is the number of ticks that come in before the `thread_yield`. -/
def boot (quantum : Option Int32) (block k : Nat) : Code Unit := do
  setUserQuantum quantum
  threadInit
  threadStart (some block)
  (List.replicate k ()).forM fun _ => timerInterrupt
  threadYield

end PicoOS
