/-
# `PicoOS.Sched.Ops` — runs of the scheduler

The entry points as the labels of a step relation.  `exec` runs an entry point's
code without interrupts; `Step` allows it when its caller may make the call:
`calloc` hands out memory that is not in use, and only a thread other than
`idle_thread` goes to sleep.  A run starts in a state `main` reaches before its
first test (`Booted`).

A call is a sequence of *moves*, and there are six of them (`Move`): the current
thread stops and another is dispatched, it sets its deadline, a thread is
created, a tick is charged, a sleeper is woken, a setting changes.  An invariant
is proved move by move.
-/
import PicoOS.Lib.Runs
import PicoOS.Sched.Invariant

namespace PicoOS

open Interruptible Runs

/-! ## The entry points -/

/-- A call of the scheduler; `block` is what `calloc` returns in it. -/
inductive Op where
  | threadCreate (name : Name) (block : Option Nat) (duration : Int32)
  | threadSleep (ticks : Int32)
  | timerSleep (ticks : Int32)
  | threadYield
  | threadExit
  | setThreadExitOnReturn
  | scheduleSetQuantum (mode rrticks : Int32)
  | timerInterrupt
  | afterInterrupt
  deriving DecidableEq, Repr

namespace Op

/-- The code of a call. -/
def code : Op → Code Unit
  | .threadCreate name block duration => do
      let _ ← PicoOS.threadCreate name block duration
      return ()
  | .threadSleep ticks => PicoOS.threadSleep ticks
  | .timerSleep ticks => PicoOS.timerSleep ticks
  | .threadYield => PicoOS.threadYield
  | .threadExit => PicoOS.threadExit
  | .setThreadExitOnReturn => PicoOS.setThreadExitOnReturn
  | .scheduleSetQuantum mode rrticks => PicoOS.scheduleSetQuantum mode rrticks
  | .timerInterrupt => PicoOS.timerInterrupt
  | .afterInterrupt => PicoOS.afterInterrupt

/-- What a call does to the state. -/
def effect : Op → State → State
  | .threadCreate _ block duration, s => s.created block duration.toInt
  | .threadSleep ticks, s => s.slept ticks.toInt
  | .timerSleep ticks, s => s.slept ticks.toInt
  | .threadYield, s => s.yielded
  | .threadExit, s => s.exited
  | .setThreadExitOnReturn, s => { s with threadExitOnReturn := 1 }
  | .scheduleSetQuantum mode rrticks, s => s.withQuantum mode.toInt rrticks.toInt
  | .timerInterrupt, s => s.ticked
  | .afterInterrupt, s => s.polled

/-- The call passes a name to the thread it creates. -/
def named : Op → Bool
  | .threadCreate name block _ => name != .null || block.isNone
  | _ => true

end Op

/-- The call may be made: `calloc` returns memory that is not in use, and it is not the idle
thread that goes to sleep. -/
def Allowed (s : State) : Op → Prop
  | .threadCreate _ block _ => ∀ b ∈ block, s.heap (.block b) = none
  | .threadSleep _ | .timerSleep _ => s.idleThread ≠ some s.threadRunningVar
  | _ => True

instance (s : State) (op : Op) : Decidable (Allowed s op) :=
  match op with
  | .threadCreate _ block _ => inferInstanceAs (Decidable (∀ b ∈ block, _))
  | .threadSleep _ | .timerSleep _ => inferInstanceAs (Decidable (_ ≠ _))
  | .threadYield | .threadExit | .setThreadExitOnReturn | .scheduleSetQuantum _ _
  | .timerInterrupt | .afterInterrupt => inferInstanceAs (Decidable True)

/-- The call, run without interrupts. -/
def exec (op : Op) (s : State) : Except Fault State := (op.code.run s).map (·.2)

/-- One call that returns. -/
def Step (s : State) (op : Op) (t : State) : Prop := Allowed s op ∧ exec op s = .ok t

/-- A state `main` is in after its boot, with an empty log. -/
def Booted (s : State) : Prop :=
  ∃ quantum block k b, (boot quantum block k).run powerOn = .ok ((), b) ∧ s = { b with trace := [] }

/-! ## Moves -/

/-- What a call is made of. -/
inductive Move : State → State → Prop
  | switch {s m : State} (hm : Stop s m) : Move s m.dispatch
  | deadline (s : State) (d : Nat) : Move s (s.setSleep d)
  | create {s : State} {b : Nat} (hb : s.heap (.block b) = none) (d : Int) : Move s (s.adopt b d)
  | charge (s : State) : Move s s.charge
  | wake {s : State} {a : Addr} (ha : a ∈ s.listaEspera) (hd : s.due s.ticks a = true) :
      Move s (s.wakeOne a)
  | config (s : State) (m : Int) (q : Nat) (e : Int) :
      Move s { s with roundRobinMode := m, roundRobinTicks := q, threadExitOnReturn := e }

/-- Any number of moves. -/
def Moves : State → State → Prop := Relation.ReflTransGen Move

theorem Move.inv {s t : State} (h : Move s t) (hs : Inv s) : Inv t := by
  cases h with
  | switch hm => exact (hm.parked hs).dispatch
  | deadline d => exact hs.setSleep d
  | create hb d => exact hs.adopt hb d
  | charge => exact hs.charge
  | wake ha _ => exact hs.wakeOne ha
  | config m q e => exact hs.config m q e

/-- What every move keeps, in a state between calls, is kept by any number of them. -/
theorem Moves.keeps {P : State → Prop} (hP : ∀ s t, Inv s → P s → Move s t → P t) {s t : State}
    (h : Moves s t) (hs : Inv s) (hp : P s) : Inv t ∧ P t := by
  induction h with
  | refl => exact ⟨hs, hp⟩
  | tail _ hm ih => exact ⟨hm.inv ih.1, hP _ _ ih.1 ih.2 hm⟩

theorem Moves.inv {s t : State} (h : Moves s t) (hs : Inv s) : Inv t :=
  (h.keeps (P := fun _ => True) (fun _ _ _ _ _ => trivial) hs trivial).1

/-! ## The log only grows -/

theorem Stop.log {s m : State} (hm : Stop s m) : s.trace <+: m.trace := by
  cases hm with
  | block => exact List.prefix_rfl
  | yield =>
      show s.trace <+: s.requeued.trace
      unfold State.requeued
      split_ifs
      · exact List.prefix_append ..
      · exact List.prefix_rfl
  | exit => exact List.prefix_append ..
  | sleep => exact List.prefix_rfl

theorem Move.log {s t : State} (hm : Move s t) : s.trace <+: t.trace := by
  cases hm with
  | @switch m hm =>
      refine hm.log.trans ?_
      simp only [State.dispatch, List.append_assoc]
      exact List.prefix_append ..
  | deadline => exact List.prefix_rfl
  | create => exact List.prefix_append ..
  | charge => exact List.prefix_append ..
  | wake => exact List.prefix_append ..
  | config => exact List.prefix_rfl

theorem Moves.log {s t : State} (h : Moves s t) : s.trace <+: t.trace := by
  induction h with
  | refl => exact List.prefix_rfl
  | tail _ hm ih => exact ih.trans hm.log

/-! ## The functions as moves -/

section Functions

variable {s : State}

theorem moves_idleBlocked (s : State) : Moves s s.idleBlocked := by
  unfold State.idleBlocked
  split_ifs with hi
  · exact .single (.switch (.block hi))
  · exact .refl

theorem moves_yielded (s : State) : Moves s s.yielded := by
  unfold State.yielded
  split_ifs with hr
  · exact .refl
  · exact .single (.switch (.yield hr))

theorem moves_exited (s : State) : Moves s s.exited := by
  unfold State.exited
  split_ifs with hw
  · exact .single (.switch (.exit hw))
  · exact moves_yielded s

theorem moves_expired (s : State) : Moves s s.expired := by
  unfold State.expired
  split_ifs
  · exact moves_exited s
  · exact moves_yielded s
  · exact .refl

theorem moves_forced (s : State) : Moves s s.forced := by
  unfold State.forced
  split_ifs
  · exact (moves_exited s).tail (.config s.exited s.exited.roundRobinMode
      s.exited.roundRobinTicks 0)
  · exact .refl

theorem moves_polled (s : State) : Moves s s.polled :=
  ((moves_idleBlocked s).trans (moves_expired _)).trans (moves_forced _)

theorem moves_slept (hw : s.worker s.threadRunningVar) (n : Int) : Moves s (s.slept n) := by
  unfold State.slept
  split_ifs with hn
  · exact .head (.deadline s _) (.single (.switch (.sleep hw)))
  · exact .refl

theorem moves_created {block : Option Nat} (hb : ∀ b ∈ block, s.heap (.block b) = none)
    (d : Int) : Moves s (s.created block d) := by
  cases block with
  | none => exact .refl
  | some b => exact .head (.create (hb b rfl) d) (moves_idleBlocked _)

theorem moves_wakeList : ∀ {l : List Addr} {s : State}, l.Nodup → (∀ a ∈ l, a ∈ s.listaEspera) →
    Moves s (s.wakeList s.ticks l)
  | [], _, _, _ => .refl
  | a :: rest, s, hl, hmem => by
      rw [State.wakeList]
      have hl' := List.nodup_cons.mp hl
      split_ifs with hd
      · have hrest : ∀ b ∈ rest, b ∈ (s.wakeOne a).listaEspera := by
          intro b hb
          have hne : b ≠ a := fun he => hl'.1 (he ▸ hb)
          exact (List.mem_erase_of_ne hne).mpr (hmem b (List.mem_cons_of_mem _ hb))
        exact .head (.wake (hmem a (List.mem_cons_self ..)) hd) (moves_wakeList hl'.2 hrest)
      · exact moves_wakeList hl'.2 fun b hb => hmem b (List.mem_cons_of_mem _ hb)

theorem moves_ticked (h : Inv s) : Moves s s.ticked :=
  .head (.charge s) (moves_wakeList (s := s.charge) h.esperaNodup fun _ ha => ha)

theorem moves_withQuantum (s : State) (mode rrticks : Int) :
    Moves s (s.withQuantum mode rrticks) := by
  unfold State.withQuantum
  split_ifs
  · exact .single (.config s 0 s.roundRobinTicks s.threadExitOnReturn)
  · exact .single (.config s 1 rrticks.toNat s.threadExitOnReturn)
  · exact .refl

end Functions

/-! ## Every call is a sequence of moves -/

theorem Inv.worker_of_not_idle {s : State} (h : Inv s)
    (hi : s.idleThread ≠ some s.threadRunningVar) : s.worker s.threadRunningVar :=
  ⟨hi, h.current⟩

theorem moves_effect {s : State} (h : Inv s) {op : Op} (ha : Allowed s op) :
    Moves s (op.effect s) := by
  cases op with
  | threadCreate name block d => exact moves_created ha d.toInt
  | threadSleep n => exact moves_slept (h.worker_of_not_idle ha) n.toInt
  | timerSleep n => exact moves_slept (h.worker_of_not_idle ha) n.toInt
  | threadYield => exact moves_yielded s
  | threadExit => exact moves_exited s
  | setThreadExitOnReturn =>
      exact .single (.config s s.roundRobinMode s.roundRobinTicks 1)
  | scheduleSetQuantum mode rrticks => exact moves_withQuantum s mode.toInt rrticks.toInt
  | timerInterrupt => exact moves_ticked h
  | afterInterrupt => exact moves_polled s

theorem run_afterInterrupt {s : State} (h : Inv s) : afterInterrupt.run s = .ok ((), s.polled) := by
  have h₁ : Inv s.idleBlocked := (moves_idleBlocked s).inv h
  have h₂ : Inv s.idleBlocked.expired := (moves_expired _).inv h₁
  unfold afterInterrupt
  rw [Prog.run_bind_ok (run_blockIfIdleThread h.hasCurrent h.fit.next),
    Prog.run_bind_ok (run_afterExpiry h₁.fit), run_afterForced h₂.fit]
  rfl

/-- A call that may be made, and names the thread it creates, does not fault. -/
theorem exec_ok {s : State} (h : Inv s) {op : Op} (ha : Allowed s op) (hn : op.named = true) :
    exec op s = .ok (op.effect s) := by
  cases op with
  | threadCreate name block d =>
      have hname : block.isSome → name ≠ .null := by
        intro hb hnull
        simp [Op.named, hnull, Option.isNone_iff_eq_none, Option.isSome_iff_ne_none.mp hb] at hn
      have hfresh : ∀ b, block = some b → Fresh s b :=
        fun b hb => h.toLinked.fresh (ha b hb)
      have hrun := run_threadCreate h.hasCurrent h.fit.next (Nat.ne_of_gt h.tids) hfresh hname d
      simp only [exec, Op.code, Prog.run_bind_ok hrun]
      rfl
  | threadSleep n =>
      simp only [exec, Op.code, run_threadSleep h.hasCurrent h.fit.next h.not_linked]
      rfl
  | timerSleep n =>
      simp only [exec, Op.code, run_timerSleep h.hasCurrent h.fit.next h.not_linked]
      rfl
  | threadYield =>
      simp only [exec, Op.code, run_threadYield h.hasCurrent h.fit.next h.fit.unlinked]
      rfl
  | threadExit =>
      simp only [exec, Op.code, run_threadExit h.fit]
      rfl
  | setThreadExitOnReturn => rfl
  | scheduleSetQuantum mode rrticks =>
      simp only [exec, Op.code, run_scheduleSetQuantum]
      rfl
  | timerInterrupt =>
      simp only [exec, Op.code, run_timerInterrupt h.hasCurrent h.toLinked.sleeping]
      rfl
  | afterInterrupt =>
      simp only [exec, Op.code, run_afterInterrupt h]
      rfl

/-- `thread_create` with a `NULL` name panics as soon as `calloc` succeeds. -/
theorem exec_null (s : State) (b : Nat) (d : Int32) :
    exec (.threadCreate .null (some b) d) s =
      .error (.assert "init_thread" "name != NULL") := rfl

/-- A step is the effect of its call. -/
theorem Step.effect {s t : State} {op : Op} (h : Step s op t) (hs : Inv s) : t = op.effect s := by
  cases hn : op.named with
  | true =>
      have hok := exec_ok hs h.1 hn
      rw [h.2] at hok
      exact Except.ok.inj hok
  | false =>
      cases op with
      | threadCreate name block d =>
          cases block with
          | none => simp [Op.named] at hn
          | some b =>
              have hname : name = .null := by simpa [Op.named] using hn
              have hexec := h.2
              rw [hname, exec_null] at hexec
              cases hexec
      | _ => cases hn

theorem Step.moves {s t : State} {op : Op} (h : Step s op t) (hs : Inv s) : Moves s t := by
  rw [h.effect hs]
  exact moves_effect hs h.1

/-- The call is not `schedule_set_quantum`. -/
def Op.KeepsQuantum (op : Op) : Prop := ∀ mode rrticks, op ≠ .scheduleSetQuantum mode rrticks

theorem effect_settings {op : Op} (h : op.KeepsQuantum) (s : State) :
    (op.effect s).roundRobinMode = s.roundRobinMode ∧
      (op.effect s).roundRobinTicks = s.roundRobinTicks := by
  cases op with
  | threadCreate name block d =>
      exact State.settings_kept (fun m q s => s.tuned_created m q block d.toInt) s
  | threadSleep n => exact State.settings_kept (fun m q s => s.tuned_slept m q n.toInt) s
  | timerSleep n => exact State.settings_kept (fun m q s => s.tuned_slept m q n.toInt) s
  | threadYield => exact State.settings_kept State.tuned_yielded s
  | threadExit => exact State.settings_kept State.tuned_exited s
  | setThreadExitOnReturn => exact ⟨rfl, rfl⟩
  | scheduleSetQuantum mode rrticks => exact absurd rfl (h mode rrticks)
  | timerInterrupt => exact State.settings_kept State.tuned_ticked s
  | afterInterrupt => exact s.polled_settings

/-! ## The boot -/

/-- `main` before its `thread_yield`, `k` ticks in: `initial_thread` runs, `idle_thread` waits. -/
def State.booting (s : State) (i k : Nat) : State :=
  { s with
    heap := Function.update (Function.update (fun _ => none) .stackPage
      (some ⟨1, .running, 0, 9999999 - k, threadMagic⟩)) (.block i)
      (some ⟨2, .ready, 0, 999, threadMagic⟩)
    readyList := [.block i]
    listaEspera := []
    allList := [.stackPage, .block i]
    threadRunningVar := .stackPage
    idleThread := some (.block i)
    initialThread := .stackPage
    nextTid := 3
    ticks := k
    threadTicks := k % 2 ^ 32
    idleTicks := 0
    kernelTicks := k
    trace := [.created (.block i) 2 999, .enqueued (.block i)] ++
      List.replicate k (.charged .stackPage 1) }

/-- The settings `main` boots with. -/
def settings (quantum : Option Int32) : State :=
  match quantum with
  | none => powerOn
  | some rrticks => powerOn.withQuantum 1 rrticks.toInt

/-- The state after the boot: `idle_thread` runs and there is no other thread to run. -/
def afterBoot (quantum : Option Int32) (i k : Nat) : State :=
  { settings quantum with
    heap := fun a =>
      match a with
      | .stackPage => some ⟨1, .ready, 0, 9999999 - k, threadMagic⟩
      | .block n => if n = i then some ⟨2, .running, 0, 999, threadMagic⟩ else none
    allList := [.stackPage, .block i]
    threadRunningVar := .block i
    idleThread := some (.block i)
    nextTid := 3
    ticks := k
    kernelTicks := k }

/-- After `thread_init`: `initial_thread` runs. -/
def State.started (s : State) : State :=
  { s with
    heap := Function.update (fun _ => none) .stackPage
      (some ⟨1, .running, 0, 9999999, threadMagic⟩)
    readyList := []
    listaEspera := []
    allList := [.stackPage]
    threadRunningVar := .stackPage
    initialThread := .stackPage
    nextTid := 2 }

theorem run_threadInit {s : State} (hh : s.heap = fun _ => none) (ht : s.nextTid = 1) :
    threadInit.run s = .ok ((), s.started) := by
  let s₁ : State :=
    { s with readyList := [], allList := [], listaEspera := [], initialThread := .stackPage }
  have hrun : stores .stackPage (fun th => { th with status := .running })
      ((s₁.register .stackPage).place .stackPage .fresh) =
      .ok ((), (s₁.register .stackPage).place .stackPage { Thread.fresh with status := .running }) := by
    rw [stores_ok (State.place_heap _ _ _), State.mapThread_place]
  unfold threadInit
  rw [run_step (show writes _ s = .ok ((), s₁) from rfl),
    Prog.run_bind_ok (run_initThread (s := s₁) (by decide) List.not_mem_nil), run_step hrun,
    run_step (assignTid_place _ _ _), run_last rfl]
  simp [State.place, State.started, State.register, Thread.fresh, s₁, hh, ht]

/-- The counters and the log have not started. -/
def State.Unstarted (s : State) : Prop :=
  s.heap = (fun _ => none) ∧ s.idleThread = none ∧ s.nextTid = 1 ∧ s.ticks = 0 ∧
    s.threadTicks = 0 ∧ s.idleTicks = 0 ∧ s.kernelTicks = 0 ∧ s.trace = []

theorem booting_hasCurrent (s : State) (i k : Nat) : HasCurrent (s.booting i k) :=
  ⟨⟨1, .running, 0, 9999999 - k, threadMagic⟩, by simp [State.booting], rfl, rfl⟩

theorem booting_switchable (s : State) (i k : Nat) : Switchable (s.booting i k) :=
  ⟨.block i, ⟨2, .ready, 0, 999, threadMagic⟩, rfl, by simp [State.booting], rfl⟩

theorem run_threadStart {s : State} {i : Nat} (hs : s.Unstarted) :
    (threadStart (some i)).run s.started = .ok ((), s.booting i 0) := by
  obtain ⟨-, -, -, h₁, h₂, h₃, h₄, h₅⟩ := hs
  have hf : Fresh s.started i :=
    ⟨by simp [State.started], by simp [State.started], by simp [State.linked, State.started]⟩
  have hadopt : { s.started.adopt i 999 with idleThread := some (.block i) } = s.booting i 0 := by
    simp [State.adopt, State.started, State.booting, h₁, h₂, h₃, h₄, h₅]
  have hcreate : (threadCreate .idleLiteral (some i) 999).run s.started =
      .ok (2, s.booting i 0) := by
    unfold threadCreate
    rw [run_step (show callocThread (some i) s.started =
      .ok (some (.block i), s.started.place (.block i) ⟨0, .running, 0, 0, 0⟩) from rfl)]
    refine (run_threadCreate_adopt hf (by decide) _ _).trans ?_
    refine (run_step (congrArg (fun x => Except.ok ((), x)) hadopt)).trans ?_
    rw [Prog.run_bind_ok (run_blockIfIdleThread (booting_hasCurrent s i 0)
      (booting_switchable s i 0))]
    rfl
  unfold threadStart
  rw [Prog.run_bind_ok hcreate]
  rfl

theorem booting_ticked (s : State) (i k : Nat) :
    (s.booting i k).ticked = s.booting i (k + 1) := by
  refine State.ext_heap (fun a => ?_) ?_
  · refine (State.mapThread_heap _ _ _ _).trans ?_
    cases a with
    | stackPage =>
        have hk : (9999999 : Int) - k - 1 = 9999999 - ((k + 1 : Nat) : Int) := by omega
        simp [State.booting, hk]
    | block n => simp [State.booting, Function.update_apply]
  · have htid : (s.booting i k).tidOf .stackPage = 1 := by simp [State.tidOf, State.booting]
    have htrace : (s.booting i k).trace ++ [.charged .stackPage 1] =
        (s.booting i (k + 1)).trace := by
      simp [State.booting, List.replicate_succ']
    have hslice : (k % 2 ^ 32 + 1) % 2 ^ 32 = (k + 1) % 2 ^ 32 := by omega
    show { (s.booting i k).charge with heap := (s.booting i (k + 1)).heap } = s.booting i (k + 1)
    simp only [State.charge]
    rw [show (s.booting i k).threadRunningVar = .stackPage from rfl, htid, htrace,
      show (s.booting i k).threadTicks = k % 2 ^ 32 from rfl, hslice]
    rfl

theorem run_ticks (s : State) (i : Nat) : ∀ n k : Nat,
    ((List.replicate n ()).forM fun _ => timerInterrupt : Code Unit).run (s.booting i k) =
      .ok ((), s.booting i (k + n))
  | 0, _ => rfl
  | n + 1, k => by
      have hsleep : Sleeping (s.booting i k) (s.booting i k).listaEspera :=
        ⟨List.nodup_nil, List.nodup_nil, nofun, nofun, nofun⟩
      have htick : timerInterrupt.run (s.booting i k) = .ok ((), s.booting i (k + 1)) := by
        rw [run_timerInterrupt (booting_hasCurrent s i k) hsleep, booting_ticked]
      refine (Prog.run_bind_ok htick).trans ?_
      rw [show k + (n + 1) = k + 1 + n by omega]
      exact run_ticks s i n (k + 1)

theorem settings_eq (quantum : Option Int32) :
    ∃ m q, settings quantum = { powerOn with roundRobinMode := m, roundRobinTicks := q } := by
  cases quantum with
  | none => exact ⟨0, 5, rfl⟩
  | some q =>
      simp only [settings, State.withQuantum]
      split_ifs
      · exact ⟨0, 5, rfl⟩
      · exact ⟨1, _, rfl⟩
      · exact ⟨0, 5, rfl⟩

theorem settings_unstarted (quantum : Option Int32) : (settings quantum).Unstarted := by
  obtain ⟨m, q, hset⟩ := settings_eq quantum
  rw [hset]
  exact ⟨rfl, rfl, rfl, rfl, rfl, rfl, rfl, rfl⟩

theorem run_setUserQuantum (quantum : Option Int32) :
    (setUserQuantum quantum).run powerOn = .ok ((), settings quantum) := by
  cases quantum <;> rfl

theorem run_boot (quantum : Option Int32) (i k : Nat) :
    (boot quantum i k).run powerOn = .ok ((), ((settings quantum).booting i k).yielded) := by
  have hset := settings_unstarted quantum
  have hyield := run_threadYield (booting_hasCurrent (settings quantum) i k)
    (booting_switchable (settings quantum) i k) (fun hw => absurd rfl hw.2)
  unfold boot
  rw [Prog.run_bind_ok (run_setUserQuantum quantum),
    Prog.run_bind_ok (run_threadInit hset.1 hset.2.2.1), Prog.run_bind_ok (run_threadStart hset),
    Prog.run_bind_ok (run_ticks _ i k 0), Nat.zero_add,
    hyield]

theorem afterBoot_eq (quantum : Option Int32) (i k : Nat) :
    { ((settings quantum).booting i k).yielded with trace := [] } = afterBoot quantum i k := by
  have hq : ((settings quantum).booting i k).requeued = (settings quantum).booting i k := by
    rw [State.requeued, if_neg (fun hw => absurd rfl hw.2)]
  have hy : ((settings quantum).booting i k).yielded =
      (((settings quantum).booting i k).setStatus .stackPage .ready).dispatch := by
    rw [State.yielded, if_neg (by simp [State.booting]), State.yieldedTo, hq]
    rfl
  let b : State := ((settings quantum).booting i k).setStatus .stackPage .ready
  have hsucc : b.succ = .block i := rfl
  have hkeep : ∀ a, ¬ b.reaped a := by
    intro a hr
    have ha : a = .stackPage := hr.1
    exact hr.2.2.2 ha
  rw [hy]
  refine State.ext_heap (fun a => ?_) ?_
  · show b.dispatch.heap a = _
    simp only [State.dispatch, hsucc, hkeep, if_false]
    cases a with
    | stackPage => simp [b, State.setStatus_heap, State.booting, afterBoot]
    | block n =>
        have hne : Addr.block n ≠ .stackPage := by
          intro he
          cases he
        simp only [b, State.setStatus_heap, State.booting, afterBoot, if_neg hne,
          Function.update_apply, Addr.block.injEq]
        split_ifs <;> rfl
  · obtain ⟨m, q, hset⟩ := settings_eq quantum
    simp only [State.dispatch, afterBoot, hset]
    rfl

/-- The boot ends, and it ends with the idle thread current. -/
theorem booted_iff {s : State} : Booted s ↔ ∃ quantum i k, s = afterBoot quantum i k := by
  constructor
  · rintro ⟨quantum, i, k, b, hb, rfl⟩
    rw [run_boot] at hb
    cases hb
    exact ⟨quantum, i, k, afterBoot_eq quantum i k⟩
  · rintro ⟨quantum, i, k, rfl⟩
    exact ⟨quantum, i, k, _, run_boot quantum i k, (afterBoot_eq quantum i k).symm⟩

theorem afterBoot_statusOf (quantum : Option Int32) (i k : Nat) (a : Addr) :
    (afterBoot quantum i k).statusOf a =
      if a = .stackPage then some .ready else if a = .block i then some .running else none := by
  cases a with
  | stackPage => rfl
  | block n =>
      by_cases hn : n = i
      · simp [State.statusOf, afterBoot, hn]
      · simp [State.statusOf, afterBoot, hn]

theorem mem_afterBoot {quantum : Option Int32} {i k : Nat} {a : Addr} :
    a ∈ (afterBoot quantum i k).allList ↔ a = .stackPage ∨ a = .block i := by
  simp [afterBoot]

/-- What the boot leaves as it was at power-on, but for the settings of the quantum. -/
theorem afterBoot_kept (quantum : Option Int32) (i k : Nat) :
    (afterBoot quantum i k).readyList = [] ∧ (afterBoot quantum i k).listaEspera = [] ∧
      (afterBoot quantum i k).initialThread = .stackPage ∧
      (afterBoot quantum i k).threadExitOnReturn = 0 ∧
      (afterBoot quantum i k).intrEnabled = true ∧ (afterBoot quantum i k).trace = [] := by
  obtain ⟨m, q, hset⟩ := settings_eq quantum
  simp [afterBoot, hset, powerOn]

theorem afterBoot_linked (quantum : Option Int32) (i k : Nat) :
    Linked (afterBoot quantum i k) := by
  obtain ⟨hready, hespera, hinit, -⟩ := afterBoot_kept quantum i k
  refine ⟨?_, ?_, ?_, ?_, ?_, ?_, ?_, ?_, ?_, ?_⟩
  · rw [hready]
    exact List.nodup_nil
  · rw [hespera]
    exact List.nodup_nil
  · simp [afterBoot]
  · rw [hready]
    exact nofun
  · rw [hespera]
    exact nofun
  · intro a ha
    rw [afterBoot_statusOf]
    rcases mem_afterBoot.mp ha with rfl | rfl
    · simp
    · simp
  · intro a th ha
    cases a with
    | stackPage =>
        cases ha
        rfl
    | block n =>
        simp only [afterBoot] at ha
        split_ifs at ha
        cases ha
        rfl
  · refine ⟨.block i, rfl, mem_afterBoot.mpr (.inr rfl), ?_⟩
    rw [hinit]
    exact nofun
  · rw [hinit]
    exact mem_afterBoot.mpr (.inl rfl)
  · exact Nat.lt_succ_self 2

/-- The live threads after the boot are the initial thread and the idle thread, which runs. -/
theorem afterBoot_live {quantum : Option Int32} {i k : Nat} {a : Addr}
    (h : (afterBoot quantum i k).statusOf a ≠ none) : a = .stackPage ∨ a = .block i := by
  rw [afterBoot_statusOf] at h
  split_ifs at h with h₁ h₂
  · exact .inl h₁
  · exact .inr h₂
  · exact absurd rfl h

theorem afterBoot_inv (quantum : Option Int32) (i k : Nat) : Inv (afterBoot quantum i k) := by
  obtain ⟨-, -, hinit, -⟩ := afterBoot_kept quantum i k
  refine ⟨afterBoot_linked quantum i k, ?_, ?_, ?_, ?_, ?_⟩
  · intro a
    rw [afterBoot_statusOf]
    show _ ↔ a = .block i
    split_ifs with h₁ h₂
    · rw [h₁]
      exact ⟨nofun, nofun⟩
    · exact ⟨fun _ => h₂, fun _ => rfl⟩
    · exact ⟨nofun, fun he => absurd he h₂⟩
  · intro a
    rw [afterBoot_statusOf]
    split_ifs
    · exact nofun
    · exact nofun
    · exact nofun
  · intro a hlive hw
    rcases afterBoot_live hlive with rfl | rfl
    · exact absurd hinit.symm hw.2
    · exact .inl rfl
  · intro a hlive
    exact mem_afterBoot.mpr (afterBoot_live hlive)
  · rw [hinit]
    exact nofun

theorem Booted.inv {s : State} (h : Booted s) : Inv s := by
  obtain ⟨quantum, i, k, rfl⟩ := booted_iff.mp h
  exact afterBoot_inv quantum i k

/-! ## Runs -/

/-- A state that calls of the scheduler reach from a boot. -/
def Reachable (s : State) : Prop := ∃ s₀ ops, Booted s₀ ∧ Run Step s₀ ops s

theorem inv_of_run {s t : State} {ops : List Op} (h : Run Step s ops t) (hs : Inv s) : Inv t :=
  h.invariant (fun _ _ _ hi hstep => (hstep.moves hi).inv hi) hs

theorem Reachable.inv {s : State} (h : Reachable s) : Inv s := by
  obtain ⟨s₀, ops, h₀, hrun⟩ := h
  exact inv_of_run hrun h₀.inv

/-- What every move keeps holds along every run. -/
theorem keeps_of_run {P : State → Prop} (hP : ∀ s t, Inv s → P s → Move s t → P t) {s t : State}
    {ops : List Op} (h : Run Step s ops t) (hs : Inv s) (hp : P s) : P t := by
  have hboth := h.invariant (I := fun s => Inv s ∧ P s) (fun _ _ _ hi hstep =>
    (hstep.moves hi.1).keeps hP hi.1 hi.2) ⟨hs, hp⟩
  exact hboth.2

/-- The calls may be made one after the other, and name the threads they create. -/
def Allows : State → List Op → Prop
  | _, [] => True
  | s, op :: ops => Allowed s op ∧ op.named = true ∧ Allows (op.effect s) ops

instance : (s : State) → (ops : List Op) → Decidable (Allows s ops)
  | _, [] => inferInstanceAs (Decidable True)
  | s, op :: ops =>
      have : Decidable (Allows (op.effect s) ops) := instDecidableAllows (op.effect s) ops
      inferInstanceAs (Decidable (_ ∧ _ ∧ _))

/-- The state such a sequence of calls ends in. -/
def effects (s : State) (ops : List Op) : State := ops.foldl (fun s op => op.effect s) s

theorem step_of_allowed {s : State} (h : Inv s) {op : Op} (ha : Allowed s op)
    (hn : op.named = true) : Step s op (op.effect s) :=
  ⟨ha, exec_ok h ha hn⟩

/-- Calls that may be made are a run. -/
theorem run_of_allows : ∀ {ops : List Op} {s : State}, Inv s → Allows s ops →
    Run Step s ops (effects s ops)
  | [], s, _, _ => .nil s
  | _ :: _, _, hs, ha => by
      have hstep := step_of_allowed hs ha.1 ha.2.1
      exact .cons hstep (run_of_allows ((hstep.moves hs).inv hs) ha.2.2)

end PicoOS
