/-
# `PicoOS.Synch.Code` — `synch.c` on this port

Semaphores, locks and condition variables, over the scheduler of `Sched.Code`: the
`thread_block` that `sema_down` calls and the `thread_unblock` that `sema_up` calls
are those of `threads/thread.c`.  That `thread_block` does not suspend its caller.
Its `schedule` returns with another thread current: `switch_threads_c` exchanges
registers, but neither the stack nor the return address.  So the loop of `sema_down`
goes on by itself, and what it pushes next is the thread that was to run instead.

**Interrupts.**  What `intr_disable` and `intr_set_level` enclose is not interrupted;
calls are taken as single steps throughout.  The functions that assert that they are
not in an interrupt handler are not called from one.

**Memory.**  The assertions that a pointer is not `NULL` are left out: they hold by
the types.  The `waiter` of a `cond_wait` is told by the address of its frame.  A
thread has one `elem`, which must not be linked twice; when `sema_down` pushes it, the
lists of the scheduler and that of the semaphore are looked at, all others of `synch.c`
being empty then.

The loops are given a number of rounds.
-/
import PicoOS.Lib.Fallible
import PicoOS.Sched.Ops

namespace PicoOS.Synch

open Fallible

/-! ## `sema_down` -/

/-- The scheduler's state and a semaphore. -/
structure Kernel where
  sched : PicoOS.State
  value : UInt32
  waiters : List Addr

/-- `list_push_back (&sema->waiters, &t->elem)`. -/
def pushWaiter (t : Addr) (k : Kernel) : Except Fault Kernel :=
  if k.sched.linked t || k.waiters.contains t then .error .relinked
  else .ok { k with waiters := k.waiters ++ [t] }

/-- One round of the loop of `sema_down`. -/
def round (k : Kernel) : Except Fault Kernel := do
  let (t, s) ← (threadCurrent .blockStatus).run k.sched
  let k ← pushWaiter t { k with sched := s }
  let ((), s) ← PicoOS.threadBlock.run k.sched
  return { k with sched := s }

/-- `sema_down (sema)`, followed for `n` tests of the value. -/
def semaDownLoop : Nat → Kernel → Option (Except Fault Kernel)
  | 0, _ => none
  | n + 1, k =>
      if k.value = 0 then
        match round k with
        | .ok k => semaDownLoop n k
        | .error e => some (.error e)
      else some (.ok { k with value := k.value - 1 })

/-- `n` rounds of the loop. -/
def rounds : Nat → Kernel → Except Fault Kernel
  | 0, k => .ok k
  | n + 1, k => round k >>= rounds n

/-! ## The machine -/

/-- `struct semaphore *`: one that the program declared, the one in a lock, or the one in the
`waiter` of a `cond_wait`. -/
inductive Sema (S L : Type) where
  | own (s : S)
  | ofLock (l : L)
  | waiter (frame : Nat)
  deriving DecidableEq

/-- What the log records; nothing reads it. -/
inductive Event (S L : Type) where
  | downed (x : Sema S L)
  | upped (x : Sema S L)
  | acquired (t : Addr) (l : L)
  | released (t : Addr) (l : L)
  deriving DecidableEq

/-- The scheduler's state, and that of all semaphores, locks and condition variables. -/
structure Machine (S L C : Type) where
  sched : PicoOS.State
  value : Sema S L → UInt32
  waiters : Sema S L → List Addr
  holder : L → Option Addr
  conds : C → List (Sema S L)
  log : List (Event S L)

/-- Why a call does not return. -/
inductive Stop where
  | fault (e : Fault)
  /-- A loop goes on after the rounds it was given. -/
  | rounds
  deriving DecidableEq, Repr

variable {S L C β : Type}

/-- Code of `synch.c`. -/
abbrev Code (S L C β : Type) := StateT (Machine S L C) (Except Stop) β

/-- A call of the scheduler. -/
def calls (p : PicoOS.Code β) : Code S L C β := fun m =>
  match p.run m.sched with
  | .ok (b, s) => .ok (b, { m with sched := s })
  | .error e => .error (.fault e)

/-- `ASSERT (condition)` in `function`. -/
abbrev asserts (function condition : String) (test : Bool) : Code S L C Unit :=
  require (.fault (.assert function condition)) test

/-- `thread_current ()`; no statement of `synch.c` is a point at which an interrupt comes in. -/
def current : Code S L C Addr := calls (threadCurrent .blockStatus)

/-- Evaluate an expression. -/
def reads (f : Machine S L C → β) : Code S L C β := fun m => .ok (f m, m)

/-- Assign. -/
def writes (f : Machine S L C → Machine S L C) : Code S L C Unit := fun m => .ok ((), f m)

section Functions

variable [DecidableEq S] [DecidableEq L] [DecidableEq C]

namespace Machine

def setValue (x : Sema S L) (v : UInt32) (m : Machine S L C) : Machine S L C :=
  { m with value := Function.update m.value x v }

def setWaiters (x : Sema S L) (ts : List Addr) (m : Machine S L C) : Machine S L C :=
  { m with waiters := Function.update m.waiters x ts }

def setHolder (l : L) (h : Option Addr) (m : Machine S L C) : Machine S L C :=
  { m with holder := Function.update m.holder l h }

def setConds (c : C) (xs : List (Sema S L)) (m : Machine S L C) : Machine S L C :=
  { m with conds := Function.update m.conds c xs }

def record (es : List (Event S L)) (m : Machine S L C) : Machine S L C :=
  { m with log := m.log ++ es }

end Machine

/-! ## Semaphores -/

/-- `sema_init (x, value)`. -/
def semaInit (x : Sema S L) (value : UInt32) : Code S L C Unit :=
  writes fun m => (m.setValue x value).setWaiters x []

/-- `sema_down (x)`, in at most `n` tests of the value. -/
def semaDown (n : Nat) (x : Sema S L) : Code S L C Unit := fun m =>
  match semaDownLoop n ⟨m.sched, m.value x, m.waiters x⟩ with
  | none => .error .rounds
  | some (.error e) => .error (.fault e)
  | some (.ok k) =>
      .ok ((), (({ m with sched := k.sched }.setValue x k.value).setWaiters x k.waiters).record
        [.downed x])

/-- `sema_try_down (x)`. -/
def semaTryDown (x : Sema S L) : Code S L C Bool := fun m =>
  if m.value x > 0 then .ok (true, (m.setValue x (m.value x - 1)).record [.downed x])
  else .ok (false, m)

/-- `sema_up (x)`. -/
def semaUp (x : Sema S L) : Code S L C Unit := do
  match ← reads (·.waiters x) with
  | [] => pure ()
  | t :: ts =>
      writes (·.setWaiters x ts)
      calls (threadUnblock t)
  writes fun m => (m.setValue x (m.value x + 1)).record [.upped x]

/-! ## Locks -/

/-- `lock_held_by_current_thread (l)`. -/
def lockHeldByCurrentThread (l : L) : Code S L C Bool := do
  let t ← current
  reads fun m => m.holder l = some t

/-- `lock_acquire (l)`. -/
def lockAcquire (n : Nat) (l : L) : Code S L C Unit := do
  let held ← lockHeldByCurrentThread l
  asserts "lock_acquire" "!lock_held_by_current_thread (lock)" (!held)
  semaDown n (.ofLock l)
  let t ← current
  writes fun m => (m.setHolder l (some t)).record [.acquired t l]

/-- `lock_try_acquire (l)`. -/
def lockTryAcquire (l : L) : Code S L C Bool := do
  let held ← lockHeldByCurrentThread l
  asserts "lock_try_acquire" "!lock_held_by_current_thread (lock)" (!held)
  let success ← semaTryDown (.ofLock l)
  if success then
    let t ← current
    writes fun m => (m.setHolder l (some t)).record [.acquired t l]
  return success

/-- `lock_release (l)`. -/
def lockRelease (l : L) : Code S L C Unit := do
  let held ← lockHeldByCurrentThread l
  asserts "lock_release" "lock_held_by_current_thread (lock)" held
  writes fun m => (m.setHolder l none).record ((m.holder l).toList.map (.released · l))
  semaUp (.ofLock l)

/-! ## Condition variables -/

/-- `cond_wait (c, l)`, with its frame at `frame`. -/
def condWait (n frame : Nat) (c : C) (l : L) : Code S L C Unit := do
  let held ← lockHeldByCurrentThread l
  asserts "cond_wait" "lock_held_by_current_thread (lock)" held
  semaInit (.waiter frame) 0
  writes fun m => m.setConds c (m.conds c ++ [.waiter frame])
  lockRelease l
  semaDown n (.waiter frame)
  lockAcquire n l

/-- `cond_signal (c, l)`. -/
def condSignal (c : C) (l : L) : Code S L C Unit := do
  let held ← lockHeldByCurrentThread l
  asserts "cond_signal" "lock_held_by_current_thread (lock)" held
  match ← reads (·.conds c) with
  | [] => return ()
  | x :: xs =>
      writes (·.setConds c xs)
      semaUp x

/-- `cond_broadcast (c, l)`, in at most `n` tests of the list. -/
def condBroadcast : Nat → C → L → Code S L C Unit
  | 0, _, _ => throw .rounds
  | n + 1, c, l => do
      let empty ← reads fun m => (m.conds c).isEmpty
      if empty then return ()
      else
        condSignal c l
        condBroadcast n c l

/-! ## The self-test -/

/-- A call of `synch.c`. -/
inductive Call (S L C : Type) where
  | semaDown (s : S)
  | semaTryDown (s : S)
  | semaUp (s : S)
  | lockAcquire (l : L)
  | lockTryAcquire (l : L)
  | lockRelease (l : L)
  | condWait (frame : Nat) (c : C) (l : L)
  | condSignal (c : C) (l : L)
  | condBroadcast (c : C) (l : L)

/-- The code of a call, its loops given `n` rounds after the first. -/
def Call.code (n : Nat) : Call S L C → Code S L C Unit
  | .semaDown s => Synch.semaDown (n + 1) (.own s)
  | .semaTryDown s => do
      let _ ← Synch.semaTryDown (.own s)
      return ()
  | .semaUp s => Synch.semaUp (.own s)
  | .lockAcquire l => Synch.lockAcquire (n + 1) l
  | .lockTryAcquire l => do
      let _ ← Synch.lockTryAcquire l
      return ()
  | .lockRelease l => Synch.lockRelease l
  | .condWait frame c l => Synch.condWait (n + 1) frame c l
  | .condSignal c l => Synch.condSignal c l
  | .condBroadcast c l => Synch.condBroadcast (n + 1) c l

/-- A step: a call of the scheduler, or a call of `synch.c` by the current thread.  Either returns. -/
inductive Label (S L C : Type) where
  | sched (op : Op)
  | call (f : Call S L C)

/-- The call of the scheduler. -/
def Label.op? : Label S L C → Option Op
  | .sched op => some op
  | .call _ => none

def Step (m : Machine S L C) : Label S L C → Machine S L C → Prop
  | .sched op, m' => ∃ s, PicoOS.Step m.sched op s ∧ m' = { m with sched := s }
  | .call f, m' => ∃ n, f.code n m = .ok ((), m')

/-- The value that a semaphore is initialised with. -/
def initial (v₀ : S → UInt32) : Sema S L → UInt32
  | .own a => v₀ a
  | .ofLock _ => 1
  | .waiter _ => 0

/-- The semaphores of the program have been initialised with the values `v₀`, and so have the locks
and the condition variables (`lock_init`, `cond_init`). -/
def start (v₀ : S → UInt32) (s : PicoOS.State) : Machine S L C where
  sched := s
  value := initial v₀
  waiters := fun _ => []
  holder := fun _ => none
  conds := fun _ => []
  log := []

end Functions

end PicoOS.Synch
