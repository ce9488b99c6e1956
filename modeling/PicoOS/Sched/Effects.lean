/-
# `PicoOS.Sched.Effects` — what each function does to the state

The code of `PicoOS.Sched.Code` is a sequence of small statements.  Here each
function gets the state transformer it amounts to when nothing interrupts it
(`State.dispatch` for `schedule`, `State.yielded` for `thread_yield`, and so on),
written as one update, and one theorem `run_…` that says so.  Later modules
cite these theorems and never step through the code of an uninterrupted call
again.

What a call needs in order not to fault is small, and is stated as two
predicates on the state: the current thread passes `thread_current`
(`HasCurrent`), and `next_thread_to_run` finds a thread (`Switchable`).
-/
import PicoOS.Sched.Code
import Mathlib.Data.List.Nodup

namespace PicoOS

open Interruptible

/-! ## The transformers -/

namespace State

/-- The `tid` of the thread at `a`. -/
def tidOf (s : State) (a : Addr) : Nat := (s.heap a).elim 0 (·.tid)

/-- The `duration_ticks` of the thread at `a`. -/
def durationOf (s : State) (a : Addr) : Int := (s.heap a).elim 0 (·.durationTicks)

/-- A thread other than `idle_thread` and `initial_thread`. -/
def worker (s : State) (a : Addr) : Prop := s.idleThread ≠ some a ∧ a ≠ s.initialThread

instance (s : State) (a : Addr) : Decidable (s.worker a) :=
  inferInstanceAs (Decidable (_ ∧ _))

/-- The value of `next_thread_to_run ()`. -/
def next (s : State) : Option Addr :=
  match s.readyList with
  | [] => s.idleThread
  | t :: _ => some t

/-- The thread `schedule` switches to. -/
def succ (s : State) : Addr := s.next.getD s.initialThread

/-- `schedule` frees the thread at `a`: it switches away from it and it is dying. -/
def reaped (s : State) (a : Addr) : Prop :=
  a = s.threadRunningVar ∧ a ≠ s.succ ∧ s.statusOf a = some .dying ∧ a ≠ s.initialThread

instance (s : State) (a : Addr) : Decidable (s.reaped a) :=
  inferInstanceAs (Decidable (_ ∧ _ ∧ _ ∧ _))

/-- `schedule ()`. -/
def dispatch (s : State) : State :=
  { s with
    heap := fun a =>
      if a = s.succ then (s.heap a).map fun th => { th with status := .running }
      else if s.reaped a then none
      else s.heap a
    readyList := s.readyList.tail
    threadRunningVar := s.succ
    threadTicks := 0
    trace := s.trace ++ [.chosen s.next s.readyList]
      ++ (if s.threadRunningVar = s.succ then [] else [.switched s.succ])
      ++ (if s.reaped s.threadRunningVar then
            [.freed s.threadRunningVar (s.tidOf s.threadRunningVar)] else []) }

/-- The interrupt mask set to `b`. -/
def mask (b : Bool) (s : State) : State := { s with intrEnabled := b }

/-- The status of the current thread set to `st`. -/
def setCurrent (st : ThreadStatus) (s : State) : State := s.setStatus s.threadRunningVar st

/-- `thread_block ()`. -/
def blocked (s : State) : State := (s.setCurrent .blocked).dispatch

/-- `block_if_idle_thread ()`. -/
def idleBlocked (s : State) : State :=
  if s.idleThread = some s.threadRunningVar then s.blocked else s

/-- The thread at `a` at the back of `ready_list`. -/
def enqueue (a : Addr) (s : State) : State :=
  { s with readyList := s.readyList ++ [a] }.log (.enqueued a)

/-- The inner `if` of `thread_yield ()`: a current worker goes to the back of `ready_list`. -/
def requeued (s : State) : State :=
  if s.worker s.threadRunningVar then s.enqueue s.threadRunningVar else s

/-- `thread_yield ()` with `ready_list` not empty. -/
def yieldedTo (s : State) : State := (s.requeued.setStatus s.threadRunningVar .ready).dispatch

/-- `thread_yield ()`. -/
def yielded (s : State) : State := if s.readyList = [] then s else s.yieldedTo

/-- The current thread taken off `all_list`. -/
def unregister (s : State) : State :=
  { s with allList := s.allList.erase s.threadRunningVar }.log
    (.exited s.threadRunningVar (s.tidOf s.threadRunningVar))

/-- The exit path of `thread_exit ()`. -/
def exitedCurrent (s : State) : State := (s.unregister.setCurrent .dying).dispatch

/-- `thread_exit ()`. -/
def exited (s : State) : State :=
  if s.worker s.threadRunningVar then s.exitedCurrent else s.yielded

/-- The current thread with the deadline `d`. -/
def setSleep (d : Nat) (s : State) : State :=
  s.mapThread s.threadRunningVar fun th => { th with sleepTime := d }

/-- The current thread at the back of `lista_espera`. -/
def drowsy (s : State) : State :=
  { s with listaEspera := s.listaEspera ++ [s.threadRunningVar] }

/-- The current thread on `lista_espera`, to be woken in `n` ticks. -/
def enlist (n : Int) (s : State) : State := (s.setSleep (toUInt64 (s.ticks + n))).drowsy

/-- `thread_sleep (n)` and `timer_sleep (n)`. -/
def slept (n : Int) (s : State) : State :=
  if 0 < n then ((s.enlist n).setCurrent .blocked).dispatch else s

/-- A new thread in the block `b`, on `all_list` and on `ready_list`. -/
def adopt (b : Nat) (d : Int) (s : State) : State :=
  { s with
    heap := Function.update s.heap (.block b) (some ⟨s.nextTid, .ready, 0, d, threadMagic⟩)
    allList := s.allList ++ [.block b]
    readyList := s.readyList ++ [.block b]
    nextTid := s.nextTid + 1
    trace := s.trace ++ [.created (.block b) s.nextTid d, .enqueued (.block b)] }

/-- `thread_create (…, d)`, `calloc` having returned `block`, once `idle_thread` exists. -/
def created (block : Option Nat) (d : Int) (s : State) : State :=
  match block with
  | none => s
  | some b => (s.adopt b d).idleBlocked

/-- `ticks++` and `thread_tick ()`. -/
def charge (s : State) : State :=
  { (s.mapThread s.threadRunningVar fun th => { th with durationTicks := th.durationTicks - 1 }) with
    ticks := s.ticks + 1
    threadTicks := (s.threadTicks + 1) % 2 ^ 32
    idleTicks := if s.idleThread = some s.threadRunningVar then s.idleTicks + 1 else s.idleTicks
    kernelTicks :=
      if s.idleThread = some s.threadRunningVar then s.kernelTicks else s.kernelTicks + 1
    trace := s.trace ++ [.charged s.threadRunningVar (s.tidOf s.threadRunningVar)] }

/-- The wake-up test of the thread at `a` at tick `k`. -/
def due (s : State) (k : Nat) (a : Addr) : Bool :=
  (s.heap a).elim false fun th => wakeTest k th.sleepTime

/-- The thread at `a` moved from `lista_espera` to `ready_list`. -/
def wakeOne (a : Addr) (s : State) : State :=
  ({ s with listaEspera := s.listaEspera.erase a }.enqueue a).setStatus a .ready

/-- The loop of `remover_thread_durmiente (k)` over the given threads. -/
def wakeList (k : Nat) : List Addr → State → State
  | [], s => s
  | a :: rest, s => wakeList k rest (if s.due k a then s.wakeOne a else s)

/-- `timer_interrupt ()`. -/
def ticked (s : State) : State := s.charge.wakeList (s.ticks + 1) s.listaEspera

/-- `schedule_set_quantum (mode, rrticks)`. -/
def withQuantum (mode rrticks : Int) (s : State) : State :=
  if mode = 0 then { s with roundRobinMode := 0 }
  else if mode = 1 ∧ 0 < rrticks then
    { s with roundRobinMode := 1, roundRobinTicks := rrticks.toNat }
  else s

/-- `after_interrupt` preempts the current thread. -/
def preempted (s : State) : Prop :=
  s.roundRobinMode ≠ 0 ∧ s.readyList ≠ [] ∧ s.roundRobinTicks ≤ s.threadTicks

instance (s : State) : Decidable s.preempted := inferInstanceAs (Decidable (_ ∧ _ ∧ _))

/-- The first `if` of `after_interrupt`. -/
def expired (s : State) : State :=
  if s.durationOf s.threadRunningVar ≤ 0 then s.exited
  else if s.preempted then s.yielded
  else s

/-- The second `if` of `after_interrupt`. -/
def forced (s : State) : State :=
  if s.threadExitOnReturn ≠ 0 ∧ s.durationOf s.threadRunningVar ≠ 0 then
    { s.exited with threadExitOnReturn := 0 }
  else s

/-- `after_interrupt ()`. -/
def polled (s : State) : State := s.idleBlocked.expired.forced

end State

/-! ## When a call does not fault -/

/-- The current thread passes the checks of `thread_current`. -/
def HasCurrent (s : State) : Prop :=
  ∃ c, s.heap s.threadRunningVar = some c ∧ c.magic = threadMagic ∧ c.status = .running

/-- `next_thread_to_run ()` returns a thread. -/
def Switchable (s : State) : Prop :=
  ∃ n th, s.next = some n ∧ s.heap n = some th ∧ th.magic = threadMagic

/-! ## Reading a transformed state -/

namespace State

/-- `schedule` switches to the head of `ready_list`. -/
theorem succ_cons {s : State} {t : Addr} {rest : List Addr} (h : s.readyList = t :: rest) :
    s.succ = t := by
  rw [succ, next, h]
  rfl

/-- Without one it switches to the idle thread. -/
theorem succ_nil {s : State} {i : Addr} (h : s.readyList = []) (hi : s.idleThread = some i) :
    s.succ = i := by
  rw [succ, next, h, hi]
  rfl

theorem mapThread_heap (a b : Addr) (f : Thread → Thread) (s : State) :
    (s.mapThread a f).heap b = if b = a then (s.heap b).map f else s.heap b := by
  simp only [mapThread, Function.update_apply]
  split_ifs with h
  · rw [h]
  · rfl

theorem setStatus_heap (a b : Addr) (st : ThreadStatus) (s : State) :
    (s.setStatus a st).heap b =
      if b = a then (s.heap b).map fun th => { th with status := st } else s.heap b :=
  mapThread_heap a b _ s

theorem statusOf_setStatus (a b : Addr) (st : ThreadStatus) (s : State) :
    (s.setStatus a st).statusOf b =
      if b = a then (s.statusOf b).map fun _ => st else s.statusOf b := by
  simp only [statusOf, setStatus_heap]
  split_ifs
  · simp [Function.comp_def]
  · rfl

theorem statusOf_dispatch (s : State) (a : Addr) :
    s.dispatch.statusOf a =
      if a = s.succ then (s.statusOf a).map fun _ => .running
      else if s.reaped a then none else s.statusOf a := by
  simp only [statusOf, dispatch]
  split_ifs
  · simp [Function.comp_def]
  · rfl
  · rfl

/-- Two states with the same fields other than `heap`, and the same heap pointwise. -/
theorem ext_heap {s t : State} (h : ∀ a, s.heap a = t.heap a) (h' : { s with heap := t.heap } = t) :
    s = t := by
  rw [← h', ← funext h]

/-- A field that `f` keeps. -/
theorem elim_mapThread {β : Type} {a b : Addr} {f : Thread → Thread} {g : Thread → β}
    (hf : ∀ th, g (f th) = g th) (z : β) (s : State) :
    ((s.mapThread a f).heap b).elim z g = (s.heap b).elim z g := by
  rw [mapThread_heap]
  split_ifs
  · cases s.heap b with
    | none => rfl
    | some th => exact hf th
  · rfl

theorem tidOf_mapThread {a b : Addr} {f : Thread → Thread} (hf : ∀ th, (f th).tid = th.tid)
    (s : State) : (s.mapThread a f).tidOf b = s.tidOf b :=
  elim_mapThread hf 0 s

theorem durationOf_mapThread {a b : Addr} {f : Thread → Thread}
    (hf : ∀ th, (f th).durationTicks = th.durationTicks) (s : State) :
    (s.mapThread a f).durationOf b = s.durationOf b :=
  elim_mapThread hf 0 s

theorem tidOf_setStatus (a b : Addr) (st : ThreadStatus) (s : State) :
    (s.setStatus a st).tidOf b = s.tidOf b :=
  tidOf_mapThread (f := fun th => { th with status := st }) (fun _ => rfl) s

theorem durationOf_setStatus (a b : Addr) (st : ThreadStatus) (s : State) :
    (s.setStatus a st).durationOf b = s.durationOf b :=
  durationOf_mapThread (f := fun th => { th with status := st }) (fun _ => rfl) s

theorem tidOf_dispatch {s : State} {a : Addr} (h : ¬ s.reaped a) :
    s.dispatch.tidOf a = s.tidOf a := by
  simp only [tidOf, dispatch, if_neg h]
  split_ifs
  · cases s.heap a <;> rfl
  · rfl

theorem durationOf_dispatch {s : State} {a : Addr} (h : ¬ s.reaped a) :
    s.dispatch.durationOf a = s.durationOf a := by
  simp only [durationOf, dispatch, if_neg h]
  split_ifs
  · cases s.heap a <;> rfl
  · rfl

theorem tidOf_charge (s : State) (a : Addr) : s.charge.tidOf a = s.tidOf a :=
  tidOf_mapThread (a := s.threadRunningVar)
    (f := fun th => { th with durationTicks := th.durationTicks - 1 }) (fun _ => rfl) s

theorem tidOf_adopt {s : State} {b : Nat} {a : Addr} (ha : a ≠ .block b) (d : Int) :
    (s.adopt b d).tidOf a = s.tidOf a := by
  rw [tidOf, tidOf, show (s.adopt b d).heap a = s.heap a from Function.update_of_ne ha _ _]

theorem durationOf_adopt {s : State} {b : Nat} {a : Addr} (ha : a ≠ .block b) (d : Int) :
    (s.adopt b d).durationOf a = s.durationOf a := by
  rw [durationOf, durationOf, show (s.adopt b d).heap a = s.heap a from Function.update_of_ne ha _ _]

/-- A value that `enqueue` does not change. -/
theorem requeued_frame {β : Type} {f : State → β} (hf : ∀ a s, f (s.enqueue a) = f s) (s : State) :
    f s.requeued = f s := by
  unfold requeued
  split_ifs
  · exact hf _ s
  · rfl

theorem requeued_heap (s : State) : s.requeued.heap = s.heap :=
  requeued_frame (f := State.heap) (fun _ _ => rfl) s

theorem requeued_current (s : State) : s.requeued.threadRunningVar = s.threadRunningVar :=
  requeued_frame (f := State.threadRunningVar) (fun _ _ => rfl) s

theorem requeued_intrEnabled (s : State) : s.requeued.intrEnabled = s.intrEnabled :=
  requeued_frame (f := State.intrEnabled) (fun _ _ => rfl) s

theorem requeued_next {s : State} (h : s.readyList ≠ []) : s.requeued.next = s.next := by
  cases hr : s.readyList with
  | nil => exact absurd hr h
  | cons t rest =>
      unfold requeued
      split_ifs
      · simp [next, enqueue, log, hr]
      · rfl

theorem yielded_all (s : State) : s.yielded.allList = s.allList := by
  unfold yielded
  split_ifs
  · rfl
  · exact requeued_frame (f := State.allList) (fun _ _ => rfl) s

theorem mask_requeued (b : Bool) (s : State) : (s.mask b).requeued = s.requeued.mask b := by
  by_cases h : s.worker s.threadRunningVar
  · have h' : (s.mask b).worker (s.mask b).threadRunningVar := h
    rw [requeued, if_pos h', requeued, if_pos h]
    rfl
  · have h' : ¬ (s.mask b).worker (s.mask b).threadRunningVar := h
    rw [requeued, if_neg h', requeued, if_neg h]

/-! ## What a tick keeps -/

theorem wakeList_frame {β : Type} {f : State → β} (hf : ∀ a s, f (s.wakeOne a) = f s)
    {k : Nat} : ∀ (l : List Addr) (s : State), f (s.wakeList k l) = f s
  | [], _ => rfl
  | a :: rest, s => by
      rw [wakeList, wakeList_frame hf rest]
      split_ifs
      · exact hf a s
      · rfl

/-- A value that neither the charge nor a wake-up changes. -/
theorem ticked_frame {β : Type} {f : State → β} {s : State} (hc : f s.charge = f s)
    (hf : ∀ a s, f (s.wakeOne a) = f s) : f s.ticked = f s :=
  (wakeList_frame hf _ _).trans hc

theorem ticked_current (s : State) : s.ticked.threadRunningVar = s.threadRunningVar :=
  ticked_frame (f := State.threadRunningVar) rfl fun _ _ => rfl

theorem ticked_ticks (s : State) : s.ticked.ticks = s.ticks + 1 :=
  wakeList_frame (f := State.ticks) (fun _ _ => rfl) _ _

theorem ticked_intr (s : State) : s.ticked.intrEnabled = s.intrEnabled :=
  ticked_frame (f := State.intrEnabled) rfl fun _ _ => rfl

theorem ticked_idle (s : State) : s.ticked.idleThread = s.idleThread :=
  ticked_frame (f := State.idleThread) rfl fun _ _ => rfl

theorem ticked_all (s : State) : s.ticked.allList = s.allList :=
  ticked_frame (f := State.allList) rfl fun _ _ => rfl

theorem ticked_worker (s : State) (a : Addr) : s.ticked.worker a = s.worker a :=
  ticked_frame (f := fun s => s.worker a) rfl fun _ _ => rfl

/-! ## The settings of the quantum

Only `after_interrupt` reads them; every other transformer commutes with a
change of them. -/

/-- The state with other settings of the quantum. -/
def tuned (m : Int) (q : Nat) (s : State) : State :=
  { s with roundRobinMode := m, roundRobinTicks := q }

section Tuned

variable (m : Int) (q : Nat) (s : State)

theorem tuned_idleBlocked : (s.tuned m q).idleBlocked = s.idleBlocked.tuned m q := by
  by_cases h : s.idleThread = some s.threadRunningVar
  · have h' : (s.tuned m q).idleThread = some (s.tuned m q).threadRunningVar := h
    rw [idleBlocked, if_pos h', idleBlocked, if_pos h]
    rfl
  · have h' : ¬ (s.tuned m q).idleThread = some (s.tuned m q).threadRunningVar := h
    rw [idleBlocked, if_neg h', idleBlocked, if_neg h]

theorem tuned_requeued : (s.tuned m q).requeued = s.requeued.tuned m q := by
  by_cases h : s.worker s.threadRunningVar
  · have h' : (s.tuned m q).worker (s.tuned m q).threadRunningVar := h
    rw [requeued, if_pos h', requeued, if_pos h]
    rfl
  · have h' : ¬ (s.tuned m q).worker (s.tuned m q).threadRunningVar := h
    rw [requeued, if_neg h', requeued, if_neg h]

theorem tuned_dispatch : (s.tuned m q).dispatch = s.dispatch.tuned m q := rfl

theorem tuned_yielded : (s.tuned m q).yielded = s.yielded.tuned m q := by
  by_cases h : s.readyList = []
  · have h' : (s.tuned m q).readyList = [] := h
    rw [yielded, if_pos h', yielded, if_pos h]
  · have h' : ¬ (s.tuned m q).readyList = [] := h
    rw [yielded, if_neg h', yielded, if_neg h, yieldedTo, tuned_requeued, yieldedTo]
    exact tuned_dispatch m q (s.requeued.setStatus s.threadRunningVar .ready)

theorem tuned_exited : (s.tuned m q).exited = s.exited.tuned m q := by
  by_cases h : s.worker s.threadRunningVar
  · have h' : (s.tuned m q).worker (s.tuned m q).threadRunningVar := h
    rw [exited, if_pos h', exited, if_pos h]
    rfl
  · have h' : ¬ (s.tuned m q).worker (s.tuned m q).threadRunningVar := h
    rw [exited, if_neg h', exited, if_neg h, tuned_yielded]

theorem tuned_slept (n : Int) : (s.tuned m q).slept n = (s.slept n).tuned m q := by
  unfold slept
  split_ifs <;> rfl

theorem tuned_created (block : Option Nat) (d : Int) :
    (s.tuned m q).created block d = (s.created block d).tuned m q := by
  cases block with
  | none => rfl
  | some b => exact tuned_idleBlocked m q (s.adopt b d)

theorem tuned_wakeList (k : Nat) : ∀ (l : List Addr) (s : State),
    (s.tuned m q).wakeList k l = (s.wakeList k l).tuned m q
  | [], _ => rfl
  | a :: rest, s => by
      have hif : (if (s.tuned m q).due k a then (s.tuned m q).wakeOne a else s.tuned m q) =
          (if s.due k a then s.wakeOne a else s).tuned m q := by
        rw [show (s.tuned m q).due k a = s.due k a from rfl]
        split_ifs <;> rfl
      rw [wakeList, wakeList, hif, tuned_wakeList k rest]

theorem tuned_ticked : (s.tuned m q).ticked = s.ticked.tuned m q :=
  tuned_wakeList m q (s.ticks + 1) s.listaEspera s.charge

theorem tuned_forced : (s.tuned m q).forced = s.forced.tuned m q := by
  unfold forced
  rw [tuned_exited]
  show (if s.threadExitOnReturn ≠ 0 ∧ s.durationOf s.threadRunningVar ≠ 0 then _ else _) = _
  split_ifs <;> rfl

end Tuned

/-- A transformer that commutes with a change of the settings keeps them. -/
theorem settings_kept {f : State → State} (hf : ∀ m q s, f (s.tuned m q) = (f s).tuned m q)
    (s : State) :
    (f s).roundRobinMode = s.roundRobinMode ∧ (f s).roundRobinTicks = s.roundRobinTicks := by
  have h : f s = (f s).tuned s.roundRobinMode s.roundRobinTicks :=
    hf s.roundRobinMode s.roundRobinTicks s
  rw [h]
  exact ⟨rfl, rfl⟩

theorem expired_settings (s : State) : s.expired.roundRobinMode = s.roundRobinMode ∧
    s.expired.roundRobinTicks = s.roundRobinTicks := by
  unfold expired
  split_ifs
  · exact settings_kept tuned_exited s
  · exact settings_kept tuned_yielded s
  · exact ⟨rfl, rfl⟩

theorem polled_settings (s : State) : s.polled.roundRobinMode = s.roundRobinMode ∧
    s.polled.roundRobinTicks = s.roundRobinTicks := by
  obtain ⟨h₁, h₂⟩ := settings_kept tuned_idleBlocked s
  obtain ⟨h₃, h₄⟩ := s.idleBlocked.expired_settings
  obtain ⟨h₅, h₆⟩ := settings_kept tuned_forced s.idleBlocked.expired
  exact ⟨h₅.trans (h₃.trans h₁), h₆.trans (h₄.trans h₂)⟩

end State

end PicoOS
