/-
# `PicoOS.Intrusive.Code` — the scheduler over its intrusive lists

`Sched.Code` keeps `ready_list`, `lista_espera` and `all_list` as sequences of
threads.  Here they are what they are in memory: the `head` and `tail` of three
`struct list`s, and the `elem` and `allelem` inside every `struct thread`, all of
them cells with a `prev` and a `next`.  A thread has one `elem`, which is in
`ready_list` or in `lista_espera`; a cell does not know which list it is in.

The functions that call `list.c` are written out once more, statement by
statement at the same program points, with the functions of `Lists.Code` in the
place of the operations on sequences.  A function that calls none of `list.c` is
taken over as it is (`embed`): it sees the globals, which carry no list here.

Memory is cleared where the source clears it: `calloc` and the `memset` of
`init_thread` write zeros over `elem` and `allelem`, whatever list they may be in.
The links are not initialised before `thread_init`.  Cells are apart by their type: what
a store outside its block would do to them is not to be seen here.

The one loop, that of `remover_thread_durmiente`, is given a number of rounds.
-/
import PicoOS.Lists.Code
import PicoOS.Sched.Ops

namespace PicoOS

open Interruptible LinkedSeq

/-- The globals without the lists and the log. -/
def State.bare (s : State) : State :=
  { s with readyList := [], listaEspera := [], allList := [], trace := [] }

namespace Intrusive

/-! ## Memory -/

/-- The three lists. -/
inductive Queue where
  | readyList
  | listaEspera
  | allList
  deriving DecidableEq, Repr

/-- The `struct list_elem`s there are: the two ends of every list, the two in every thread. -/
inductive Cell where
  | head (q : Queue)
  | tail (q : Queue)
  | elem (t : Addr)
  | allelem (t : Addr)
  deriving DecidableEq, Repr

/-- `&ready_list`, `&lista_espera`, `&all_list`. -/
def ends (q : Queue) : Ends Cell := ⟨.head q, .tail q⟩

/-- The globals and the threads, and the links of all cells. -/
structure Machine where
  globals : State
  links : Links Cell
  clean : globals.bare = globals

/-- Why a run stops. -/
inductive Fault where
  /-- `ASSERT` failed. -/
  | assert (function condition : String)
  /-- A pointer to no thread or to no cell was dereferenced. -/
  | wild
  /-- The loop goes on after the rounds it was given. -/
  | rounds
  deriving DecidableEq, Repr

/-- The faults of the code that is taken over. -/
def Fault.ofSched : PicoOS.Fault → Fault
  | .assert function condition => .assert function condition
  | _ => .wild

/-- The faults of `list.c`. -/
def Fault.ofLists : Lists.Fault → Fault
  | .assert function condition => .assert function condition
  | .null => .wild
  | .rounds => .rounds

/-- A piece of the scheduler's code. -/
abbrev Code (α : Type) := Prog Machine Fault Point α

section Statements

variable {α β : Type}

/-- The statement at `site`. -/
def stmt (site : Site) (act : Machine → Except Fault (β × Machine)) : Code β :=
  .stmt ⟨site, .body⟩ act .ret

/-- A statement that uses no list. -/
def shared (act : State → Except PicoOS.Fault (β × State)) (m : Machine) :
    Except Fault (β × Machine) :=
  match act m.globals with
  | .ok (b, s) => .ok (b, { m with globals := s.bare, clean := rfl })
  | .error e => .error (.ofSched e)

/-- A function that uses no list. -/
def embed : PicoOS.Code α → Code α
  | .ret a => .ret a
  | .stmt pc act k => .stmt pc (shared act) fun b => embed (k b)

/-- A call of `list.c`. -/
def onList (p : Lists.Code Cell β) (m : Machine) : Except Fault (β × Machine) :=
  match p m.links with
  | .ok (b, links) => .ok (b, { m with links })
  | .error e => .error (.ofLists e)

end Statements

/-- `list_entry (e, struct thread, elem)`. -/
def listEntry : Lists.Ptr Cell → Except Fault Addr
  | some (.elem t) => .ok t
  | _ => .error .wild

/-- The `elem` and the `allelem` of a thread whose memory was cleared. -/
def cleared (t : Addr) (H : Links Cell) : Links Cell :=
  (((H.setPrev (.elem t) none).setNext (.elem t) none).setPrev (.allelem t) none).setNext
    (.allelem t) none

/-- `&ready_list` as an argument, and so on. -/
def listPtr (q : Queue) : Lists.ListPtr Cell := some (ends q)

/-- `list_empty (&ready_list)`. -/
def readyEmpty : Machine → Except Fault (Bool × Machine) :=
  onList (Lists.listEmpty (listPtr .readyList))

/-- `list_push_back (&ready_list, &t->elem)`. -/
def pushReady (t : Addr) : Machine → Except Fault (Unit × Machine) :=
  onList (Lists.listPushBack (listPtr .readyList) (some (.elem t)))

/-- `list_push_back (&lista_espera, &t->elem)`. -/
def pushEspera (t : Addr) : Machine → Except Fault (Unit × Machine) :=
  onList (Lists.listPushBack (listPtr .listaEspera) (some (.elem t)))

/-- `list_push_back (&all_list, &t->allelem)`. -/
def pushAll (t : Addr) : Machine → Except Fault (Unit × Machine) :=
  onList (Lists.listPushBack (listPtr .allList) (some (.allelem t)))

/-- `list_remove (&t->allelem)`, the value not being used. -/
def removeAll (t : Addr) : Machine → Except Fault (Unit × Machine) :=
  onList do
    let _ ← Lists.listRemove (some (.allelem t))
    return ()

/-! ## Switching -/

/-- What `next_thread_to_run` returns, `list_empty` having returned `empty`. -/
def nextOf (empty : Bool) (m : Machine) : Except Fault (Option Addr × Machine) :=
  if empty then .ok (m.globals.idleThread, m)
  else
    match onList (Lists.listPopFront (listPtr .readyList)) m with
    | .ok (e, m') => (listEntry e).map fun t => (some t, m')
    | .error f => .error f

/-- `next_thread_to_run ()`. -/
def nextThreadToRun : Code (Option Addr) := do
  let empty ← stmt .nextTest readyEmpty
  stmt .nextReturn (nextOf empty)

/-- `schedule ()`. -/
def schedule : Code Unit := do
  let cur ← stmt .scheduleCur (shared (reads runningThread))
  let next ← nextThreadToRun
  stmt .scheduleAssertCur (shared (asserts "schedule" "cur->status != THREAD_RUNNING" fun s =>
    (status cur s).map (· != .running)))
  stmt .scheduleAssertNext (shared (asserts "schedule" "is_thread (next)" (isThread next)))
  match next with
  | none => stmt .switchLoad fun _ => .error .wild
  | some next =>
      if cur ≠ next then
        let prev ← embed (switchThreadsC cur next)
        embed (threadScheduleTail (some prev))
      else embed (threadScheduleTail none)

/-! ## Blocking, yielding, exiting -/

/-- `thread_block ()`. -/
def threadBlock : Code Unit := do
  let oldLevel ← stmt .blockSave (shared saveAndDisableInterrupts)
  let t ← embed (threadCurrent .blockStatus)
  stmt .blockStatus (shared (stores t fun th => { th with status := .blocked }))
  schedule
  stmt .blockRestore (shared (restoreInterrupts oldLevel))

/-- `block_if_idle_thread ()`. -/
def blockIfIdleThread : Code Unit := do
  let t ← embed (threadCurrent .blockIfIdleTest)
  let isIdle ← stmt .blockIfIdleTest (shared (reads fun s => decide (some t = s.idleThread)))
  if isIdle then threadBlock else return ()

/-- The inner `if` of `thread_yield`. -/
def yieldRequeue (cur : Addr) : Code Unit := do
  let worker ← stmt .yieldCurTest (shared (reads fun s =>
    decide (some cur ≠ s.idleThread ∧ cur ≠ s.initialThread)))
  if worker then
    let t ← embed (threadCurrent .yieldPrintf)
    stmt .yieldPrintf (shared (touches t))
    stmt .yieldPush (pushReady cur)
  else return ()

/-- `thread_yield ()`. -/
def threadYield : Code Unit := do
  let cur ← embed (threadCurrent .yieldCur)
  let oldLevel ← stmt .yieldSave (shared saveAndDisableInterrupts)
  let empty ← stmt .yieldTest readyEmpty
  if empty then stmt .yieldRestore (shared (restoreInterrupts oldLevel))
  else
    yieldRequeue cur
    stmt .yieldStatus (shared (stores cur fun th => { th with status := .ready }))
    schedule
    stmt .yieldRestore (shared (restoreInterrupts oldLevel))

/-- The exit path of `thread_exit`. -/
def exitCurrent : Code Unit := do
  let t ← embed (threadCurrent .exitUnlink)
  stmt .exitUnlink (removeAll t)
  let t ← embed (threadCurrent .exitPrintf)
  stmt .exitPrintf (shared (touches t))
  let t ← embed (threadCurrent .exitDying)
  stmt .exitDying (shared (stores t fun th => { th with status := .dying }))
  schedule

/-- `thread_exit ()`. -/
def threadExit : Code Unit := do
  let worker ← embed exitTest
  if worker then exitCurrent else threadYield

/-! ## Waking -/

/-- `thread_unblock (t)`. -/
def threadUnblock (t : Addr) : Code Unit := do
  stmt .unblockIsThread (shared (asserts "thread_unblock" "is_thread (t)" (isThread (some t))))
  stmt .unblockBlocked (shared (asserts "thread_unblock" "t->status == THREAD_BLOCKED" fun s =>
    (status t s).map (· == .blocked)))
  stmt .unblockPush (pushReady t)
  stmt .unblockStatus (shared (stores t fun th => { th with status := .ready }))

/-- The loop of `remover_thread_durmiente`, at `iter`. -/
def removerLoop (ticks : Nat) : Nat → Lists.Ptr Cell → Code Unit
  | 0, _ => stmt .removerTest fun _ => .error .rounds
  | n + 1, iter => do
      let last ← stmt .removerTest (onList (Lists.listEnd (listPtr .listaEspera)))
      if iter ≠ last then
        let t ← stmt .removerTest fun m => (listEntry iter).map fun t => (t, m)
        let due ← stmt .removerTest (shared (derefs fun s =>
          (s.load t).map fun th => wakeTest ticks th.sleepTime))
        if due then
          let iter ← stmt .removerRemove (onList (Lists.listRemove iter))
          threadUnblock t
          removerLoop ticks n iter
        else
          let iter ← stmt .removerTest (onList (Lists.listNext iter))
          removerLoop ticks n iter
      else return ()

/-- `remover_thread_durmiente (ticks)`, in at most `n` rounds. -/
def removerThreadDurmiente (n ticks : Nat) : Code Unit := do
  let iter ← stmt .removerBegin (onList (Lists.listBegin (listPtr .listaEspera)))
  removerLoop ticks n iter

/-! ## Sleeping -/

/-- `insertar_en_lista_espera (ticks)`. -/
def insertarEnListaEspera (ticks : Int32) : Code Unit := do
  let threadActual ← embed (threadCurrent .insertarCur)
  let now ← stmt .insertarTicks (shared (reads fun s => s.ticks))
  stmt .insertarStore (shared (stores threadActual fun th =>
    { th with sleepTime := toUInt64 (now + ticks.toInt) }))
  stmt .insertarPush (pushEspera threadActual)
  threadBlock

/-- `thread_sleep (ticks)`. -/
def threadSleep (ticks : Int32) : Code Unit := do
  let positive ← stmt .sleepTest (shared (reads fun _ => decide (0 < ticks.toInt)))
  if positive then
    let t ← embed (threadCurrent .sleepPrintf)
    stmt .sleepPrintf (shared (touches t))
    insertarEnListaEspera ticks
  else return ()

/-- `timer_sleep (ticks)`. -/
def timerSleep (ticks : Int32) : Code Unit := do
  let positive ← stmt .sleepTest (shared (reads fun _ => decide (0 < ticks.toInt)))
  if positive then insertarEnListaEspera ticks else return ()

/-! ## Creating -/

/-- `init_thread (t, name)`; the `memset` is part of the second statement. -/
def initThread (t : Addr) (name : Name) : Code Unit := do
  stmt .initAssertName (shared (asserts "init_thread" "name != NULL" fun _ =>
    .ok (name != .null)))
  stmt .initFields fun m => shared (writes fun s => { s with
    heap := Function.update s.heap t (some ⟨0, .blocked, 0, 9999999, threadMagic⟩) })
    { m with links := cleared t m.links }
  stmt .initPush (pushAll t)

/-- `calloc (1, sizeof (struct thread))`, which returned `block`. -/
def callocThread : Option Nat → Machine → Except Fault (Option Addr × Machine)
  | none, m => .ok (none, m)
  | some b, m => shared (PicoOS.callocThread (some b))
      { m with links := cleared (.block b) m.links }

/-- `thread_create (name, function, aux, duration)`, again without the stores through `kf`: they are
taken to hit neither a live thread nor an end of a list. -/
def threadCreate (name : Name) (block : Option Nat) (duration : Int32) : Code Int := do
  let t ← stmt .createCalloc (callocThread block)
  match t with
  | none => return tidError
  | some t =>
      initThread t name
      let tid ← stmt .createTid (shared (assignTid t))
      stmt .createDuration (shared (assignDuration t tid duration.toInt))
      embed (allocFrame t frameSize)
      threadUnblock t
      stmt .createIdle (shared (writes fun s =>
        if name = .idleLiteral ∧ tid = 2 then { s with idleThread := some t } else s))
      blockIfIdleThread
      return (tid : Int)

/-! ## The timer and the main loop -/

/-- `timer_interrupt (t)`, the scan in at most `n` rounds. -/
def timerInterrupt (n : Nat) : Code Unit := do
  stmt .tickCount (shared (writes fun s => { s with ticks := s.ticks + 1 }))
  embed threadTick
  let t ← embed (threadCurrent .tickPrintf)
  let ticks ← stmt .tickPrintf (shared (derefs fun s => (s.load t).map fun _ => s.ticks))
  removerThreadDurmiente n ticks

/-- `round_robin_mode && !is_ready_list_empty ()`. -/
def othersReady (m : Machine) : Except Fault (Bool × Machine) :=
  if m.globals.roundRobinMode ≠ 0 then
    (readyEmpty m).map fun (empty, m') => (!empty, m')
  else .ok (false, m)

/-- The first `if` of `after_interrupt`. -/
def afterExpiry : Code Unit := do
  let t ← embed (threadCurrent .afterExpired)
  let expired ← stmt .afterExpired (shared (derefs fun s =>
    (durationTicks t s).map (decide <| · ≤ 0)))
  if expired then
    let t ← embed (threadCurrent .afterPrintf)
    stmt .afterPrintf (shared (touches t))
    threadExit
  else
    let others ← stmt .afterMode othersReady
    if others then
      let spent ← stmt .afterSlice (shared (reads fun s =>
        decide (s.roundRobinTicks ≤ s.threadTicks)))
      if spent then threadYield else return ()
    else return ()

/-- The second `if` of `after_interrupt`. -/
def afterForced : Code Unit := do
  let asked ← stmt .afterForced (shared (reads fun s => decide (s.threadExitOnReturn ≠ 0)))
  if asked then
    let t ← embed (threadCurrent .afterForcedDuration)
    let left ← stmt .afterForcedDuration (shared (derefs fun s =>
      (durationTicks t s).map (decide <| · ≠ 0)))
    if left then
      let t ← embed (threadCurrent .afterForcedPrintf)
      stmt .afterForcedPrintf (shared (touches t))
      threadExit
      stmt .afterForcedClear (shared (writes fun s => { s with threadExitOnReturn := 0 }))
    else return ()
  else return ()

/-- `after_interrupt ()`. -/
def afterInterrupt : Code Unit := do
  blockIfIdleThread
  afterExpiry
  afterForced

/-! ## Booting -/

/-- The statics as the loader leaves them, with whatever is in the cells. -/
def powerOn (links : Links Cell) : Machine := ⟨PicoOS.powerOn, links, rfl⟩

/-- `thread_init ()`. -/
def threadInit : Code Unit := do
  stmt .threadInit (onList (Lists.listInit (listPtr .readyList)))
  stmt .threadInit (onList (Lists.listInit (listPtr .allList)))
  stmt .threadInit (onList (Lists.listInit (listPtr .listaEspera)))
  stmt .threadInit (shared (writes fun s => { s with initialThread := .stackPage }))
  initThread .stackPage .other
  stmt .threadInit (shared (stores .stackPage fun th => { th with status := .running }))
  let _ ← stmt .createTid (shared (assignTid .stackPage))
  stmt .threadInit (shared (writes fun s => { s with threadRunningVar := .stackPage }))

/-- `thread_start ()`. -/
def threadStart (block : Option Nat) : Code Unit := do
  let _ ← threadCreate .idleLiteral block 999
  return ()

/-- The boot of `main`, every scan in at most `n` rounds. -/
def boot (n : Nat) (quantum : Option Int32) (block k : Nat) : Code Unit := do
  embed (setUserQuantum quantum)
  threadInit
  threadStart (some block)
  (List.replicate k ()).forM fun _ => timerInterrupt n
  threadYield

/-! ## Calls -/

/-- The code of a call. -/
def code (n : Nat) : Op → Code Unit
  | .threadCreate name block duration => do
      let _ ← threadCreate name block duration
      return ()
  | .threadSleep ticks => threadSleep ticks
  | .timerSleep ticks => timerSleep ticks
  | .threadYield => threadYield
  | .threadExit => threadExit
  | .setThreadExitOnReturn => embed setThreadExitOnReturn
  | .scheduleSetQuantum mode rrticks => embed (scheduleSetQuantum mode rrticks)
  | .timerInterrupt => timerInterrupt n
  | .afterInterrupt => afterInterrupt

/-- The call, run without interrupts. -/
def exec (n : Nat) (op : Op) (m : Machine) : Except Fault Machine :=
  ((code n op).run m).map (·.2)

/-- One call that returns, after any number of rounds. -/
def Call (m : Machine) (op : Op) (m' : Machine) : Prop :=
  Allowed m.globals op ∧ ∃ n, exec n op m = .ok m'

end Intrusive

end PicoOS
