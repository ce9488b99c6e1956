/-
# `PicoOS.Main.Tests` — the tests, from the prompt to the last thread

The functions of `tests/` are straight-line code: they set the policy, create threads,
put the current one to sleep and set an alarm (`script`).  `main` calls one of them after
the boot and then goes round `while (1) after_interrupt ();`, while the timer and the
alarms come in between any two calls (`Program.Step`).

Two questions are settled for all of them at once.  Can a call fault?  Only
`thread_sleep` needs something of the state, a current thread that is not the idle one;
a test calls it right after a `thread_create`, which takes the processor from the idle
thread if `calloc` had a block (`Paired`).  Does the test come to an end?  Every call adds
at most its `cost` to the burden of `PicoOS.Sched.Progress`, so the tests that keep no
alarm to create threads are over after a fixed number of rounds.

`gpio_put`, `sprintf` and `print_lists` change nothing here; `sleep_ms` is time in which
the timer comes.  Two things are taken for granted throughout: that the boot got a block
for `idle_thread`, and that the frame which `thread_create` writes outside its block hits
no live thread (`PicoOS.Blocks.Frame`).
-/
import Mathlib.Algebra.GroupWithZero.Nat
import PicoOS.Main.Prompts
import PicoOS.Sched.Progress

namespace PicoOS.Main

open Fallible Runs

/-! ## The functions -/

/-- An alarm, by its callback. -/
inductive Alarm where
  /-- `fifo_thread_create_alarm_callback`, `rr_thread_create_alarm_callback`. -/
  | threadCreate
  /-- `fifo_force_thread_exit_callback`, `rr_force_thread_exit_callback`. -/
  | forceThreadExit
  deriving DecidableEq, Repr

/-- What a test does, call by call. -/
inductive Call where
  | setQuantum (mode rrticks : Int32)
  | create (duration : Int32)
  | sleep (ticks : Int32)
  | addAlarm (alarm : Alarm)
  deriving DecidableEq, Repr

/-- `for (int i = 0; i < n; i++) thread_create (nombre, NULL, NULL, duration (i));` -/
def creates (n : Nat) (duration : Nat → Nat) : List Call :=
  (List.range n).map fun i => .create (Int32.ofNat (duration i))

/-- `for (int i = 0; i < 5; i++) { thread_create (…, 3*(i+1)); thread_sleep (5*(i+1)); }` -/
def createsAndSleeps : List Call :=
  (List.range 5).flatMap fun i =>
    [.create (Int32.ofNat (3 * (i + 1))), .sleep (Int32.ofNat (5 * (i + 1)))]

/-- The body of a test; `rand i` is the value of its `i`-th call of `rand ()`. -/
def script (rand : Nat → Nat) : Test → List Call
  | .helloWorld => []
  | .fifoSimple => .setQuantum 0 0 :: creates 5 fun _ => 10
  | .roundRobinSimple => .setQuantum 1 5 :: creates 5 fun _ => 10
  | .roundRobin1tick => .setQuantum 1 1 :: creates 5 fun _ => 10
  | .fifoRandomDuration => .setQuantum 0 0 :: creates 5 fun i => rand i % 25 + 5
  | .roundRobinRandomDuration => .setQuantum 1 5 :: creates 5 fun i => rand i % 25 + 5
  | .fifoDelayedCreate => .setQuantum 0 4 :: creates 3 (fun _ => 10) ++ [.addAlarm .threadCreate]
  | .roundRobinDelayedCreate =>
      .setQuantum 1 4 :: creates 3 (fun _ => 10) ++ [.addAlarm .threadCreate]
  | .sleepSingle => [.setQuantum 0 5, .create 15, .sleep 25]
  | .sleepMultipleFifo => .setQuantum 0 5 :: createsAndSleeps
  | .sleepMultipleRr => .setQuantum 1 4 :: createsAndSleeps
  | .sleepNegative => [.setQuantum 0 5, .create 15, .sleep (-10)]
  | .fifoForceExit => .setQuantum 0 4 :: creates 5 (fun _ => 5) ++ [.addAlarm .forceThreadExit]
  | .roundRobinForceExit =>
      .setQuantum 1 6 :: creates 5 (fun _ => 15) ++ [.addAlarm .forceThreadExit]
  | .manualSetRoundRobin => creates 5 fun _ => 15

/-! ## The program -/

/-- The scheduler, what is left of the test, and the alarms that are set. -/
structure Program where
  sched : State
  todo : List Call
  alarms : List Alarm

/-- Who goes on; `block` is what `calloc` returns if the call creates a thread. -/
inductive Label where
  | timer
  | main (block : Option Nat)
  | alarm (alarm : Alarm) (block : Option Nat)
  deriving DecidableEq, Repr

/-- The scheduler's function that the call is. -/
def Call.op (block : Option Nat) : Call → Option Op
  | .setQuantum mode rrticks => some (.scheduleSetQuantum mode rrticks)
  | .create duration => some (.threadCreate .other block duration)
  | .sleep ticks => some (.threadSleep ticks)
  | .addAlarm _ => none

/-- The scheduler's function that the callback calls. -/
def Alarm.op (block : Option Nat) : Alarm → Op
  | .threadCreate => .threadCreate .other block 10
  | .forceThreadExit => .setThreadExitOnReturn

/-- The callback returns the time until it is to be called again, or 0. -/
def Alarm.again : Alarm → Bool
  | .threadCreate => true
  | .forceThreadExit => false

namespace Program

/-- The scheduler's function that is called next, if any. -/
def op (m : Program) : Label → Option Op
  | .timer => some .timerInterrupt
  | .main block =>
      match m.todo with
      | [] => some .afterInterrupt
      | call :: _ => call.op block
  | .alarm a block => some (a.op block)

/-- Its outcome. -/
def outcome (m : Program) (l : Label) : Except PicoOS.Fault State :=
  match m.op l with
  | none => .ok m.sched
  | some op => exec op m.sched

/-- The state of the scheduler if there is no fault. -/
def effect (m : Program) (l : Label) : State :=
  match m.op l with
  | none => m.sched
  | some op => op.effect m.sched

/-- The program afterwards, with the scheduler in the state `s`. -/
def rest (m : Program) (s : State) : Label → Program
  | .timer => { m with sched := s }
  | .main _ =>
      match m.todo with
      | [] => { m with sched := s }
      | .addAlarm a :: todo => ⟨s, todo, m.alarms ++ [a]⟩
      | _ :: todo => ⟨s, todo, m.alarms⟩
  | .alarm a _ => ⟨s, m.todo, if a.again then m.alarms else m.alarms.erase a⟩

/-- `calloc` returns memory that is not in use, and if `sure` never `NULL`. -/
def Fed (sure : Bool) (s : State) : Op → Prop
  | .threadCreate _ block _ =>
      (∀ b ∈ block, s.heap (.block b) = none) ∧ (sure = true → block ≠ none)
  | _ => True

/-- The alarm is set, and `calloc` does its part. -/
def Enabled (sure : Bool) (m : Program) (l : Label) : Prop :=
  (∀ a block, l = .alarm a block → a ∈ m.alarms) ∧ ∀ op ∈ m.op l, Fed sure m.sched op

/-- One call. -/
def Step (sure : Bool) (m : Program) (l : Label) (m' : Program) : Prop :=
  m.Enabled sure l ∧ ∃ s, m.outcome l = .ok s ∧ m' = m.rest s l

end Program

/-- `run_test`, in the state in which `main` calls it. -/
def load (rand : Nat → Nat) (test : Test) (s : State) : Program := ⟨s, script rand test, []⟩

/-! ## No call faults -/

/-- A thread is put to sleep only right after one was created, unless the call does nothing; `b`
says that the idle thread is not current. -/
def Paired (sure : Bool) : Bool → List Call → Prop
  | _, [] => True
  | b, .sleep n :: calls => (b = true ∨ n.toInt ≤ 0) ∧ Paired sure false calls
  | _, .create _ :: calls => Paired sure sure calls
  | _, _ :: calls => Paired sure false calls

/-- The scheduler is in order, and what is left of the test keeps it so. -/
structure Sound (sure : Bool) (m : Program) : Prop where
  inv : Inv m.sched
  paired : ∃ b, Paired sure b m.todo ∧
    (b = true → m.sched.idleThread ≠ some m.sched.threadRunningVar)

section Sound

variable {sure : Bool} {m : Program} {l : Label} {s : State}

/-- After `thread_create` the idle thread is not current. -/
theorem created_not_idle (hs : Inv s) {b : Nat} (hb : s.heap (.block b) = none) (d : Int) :
    (s.created (some b) d).idleThread ≠ some (s.created (some b) d).threadRunningVar := by
  have hinv : Inv (s.adopt b d) := hs.adopt hb d
  have hready : (s.adopt b d).readyList ≠ [] := by simp [State.adopt]
  show (s.adopt b d).idleBlocked.idleThread ≠ some (s.adopt b d).idleBlocked.threadRunningVar
  unfold State.idleBlocked
  split_ifs with hi
  · intro hidle
    exact hready (hinv.toLinked.alone_of_idle hidle)
  · exact hi

/-- It leaves a current thread alone that is not the idle thread. -/
theorem created_current {block : Option Nat} (hi : s.idleThread ≠ some s.threadRunningVar)
    (d : Int) : (s.created block d).idleThread ≠ some (s.created block d).threadRunningVar := by
  cases block with
  | none => exact hi
  | some b =>
      have hidle : (s.adopt b d).idleBlocked = s.adopt b d := if_neg hi
      show (s.adopt b d).idleBlocked.idleThread ≠ _
      rw [State.created, hidle]
      exact hi

/-- A call that is allowed returns, leaves the scheduler in order and does not turn back the
clock. -/
theorem exec_inv (hs : Inv s) {o : Op} (ha : Allowed s o) (hn : o.named = true) :
    exec o s = .ok (o.effect s) ∧ Inv (o.effect s) ∧ s.ticks ≤ (o.effect s).ticks := by
  have hstep := step_of_allowed hs ha hn
  have hmoves := hstep.moves hs
  exact ⟨hstep.2, hmoves.inv hs, hmoves.clocks.1⟩

/-- `thread_sleep (n)` with nothing to wait for. -/
theorem slept_nonpos {n : Int32} (hn : n.toInt ≤ 0) : (Op.threadSleep n).effect s = s :=
  if_neg (Int.not_lt.mpr hn)

/-- It returns whoever calls it. -/
theorem exec_threadSleep (hs : Inv s) (n : Int32) :
    exec (.threadSleep n) s = .ok ((Op.threadSleep n).effect s) := by
  rw [exec, Op.code, run_threadSleep hs.hasCurrent hs.fit.next hs.not_linked]
  rfl

theorem Sound.main (h : Sound sure m) {block : Option Nat} (hl : m.Enabled sure (.main block)) :
    m.outcome (.main block) = .ok (m.effect (.main block)) ∧
      Sound sure (m.rest (m.effect (.main block)) (.main block)) ∧
      m.sched.ticks ≤ (m.effect (.main block)).ticks := by
  obtain ⟨s, todo, alarms⟩ := m
  obtain ⟨hs, b, hpaired, hb⟩ := h
  have hfed := hl.2
  cases todo with
  | nil =>
      obtain ⟨hok, hinv, hclock⟩ := exec_inv hs (o := .afterInterrupt) trivial rfl
      exact ⟨hok, ⟨hinv, false, trivial, fun h => by cases h⟩, hclock⟩
  | cons call todo =>
      cases call with
      | setQuantum mode rrticks =>
          obtain ⟨hok, hinv, hclock⟩ :=
            exec_inv hs (o := .scheduleSetQuantum mode rrticks) trivial rfl
          exact ⟨hok, ⟨hinv, false, hpaired, fun h => by cases h⟩, hclock⟩
      | create duration =>
          obtain ⟨hfresh, hsome⟩ := hfed _ rfl
          obtain ⟨hok, hinv, hclock⟩ :=
            exec_inv hs (o := .threadCreate .other block duration) hfresh rfl
          refine ⟨hok, ⟨hinv, sure, hpaired, fun hsure => ?_⟩, hclock⟩
          cases block with
          | none => exact absurd rfl (hsome hsure)
          | some c => exact created_not_idle hs (hfresh c rfl) duration.toInt
      | sleep n =>
          have hslept : Inv ((Op.threadSleep n).effect s) ∧
              s.ticks ≤ ((Op.threadSleep n).effect s).ticks := by
            rcases hpaired.1 with hcur | hn
            · exact (exec_inv hs (o := .threadSleep n) (hb hcur) rfl).2
            · rw [slept_nonpos hn]
              exact ⟨hs, Nat.le_refl _⟩
          exact ⟨exec_threadSleep hs n, ⟨hslept.1, false, hpaired.2, fun h => by cases h⟩, hslept.2⟩
      | addAlarm a =>
          exact ⟨rfl, ⟨hs, false, hpaired, fun h => by cases h⟩, Nat.le_refl _⟩

/-- Whatever comes next returns. -/
theorem Sound.step (h : Sound sure m) (hl : m.Enabled sure l) :
    m.outcome l = .ok (m.effect l) ∧ Sound sure (m.rest (m.effect l) l) ∧
      m.sched.ticks ≤ (m.effect l).ticks := by
  cases l with
  | main block => exact h.main hl
  | timer =>
      obtain ⟨hok, hinv, hclock⟩ := exec_inv h.inv (o := .timerInterrupt) trivial rfl
      obtain ⟨b, hpaired, hb⟩ := h.paired
      refine ⟨hok, ⟨hinv, b, hpaired, fun htrue => ?_⟩, hclock⟩
      show m.sched.ticked.idleThread ≠ some m.sched.ticked.threadRunningVar
      rw [State.ticked_idle, State.ticked_current]
      exact hb htrue
  | alarm a block =>
      obtain ⟨b, hpaired, hb⟩ := h.paired
      cases a with
      | threadCreate =>
          obtain ⟨hfresh, -⟩ := hl.2 _ rfl
          obtain ⟨hok, hinv, hclock⟩ :=
            exec_inv h.inv (o := .threadCreate .other block 10) hfresh rfl
          exact ⟨hok, ⟨hinv, b, hpaired, fun htrue => created_current (hb htrue) _⟩, hclock⟩
      | forceThreadExit =>
          obtain ⟨hok, hinv, hclock⟩ := exec_inv h.inv (o := .setThreadExitOnReturn) trivial rfl
          exact ⟨hok, ⟨hinv, b, hpaired, hb⟩, hclock⟩

theorem Program.rest_sched (m : Program) (s : State) (l : Label) : (m.rest s l).sched = s := by
  obtain ⟨sched, todo, alarms⟩ := m
  cases l with
  | main block =>
      cases todo with
      | nil => rfl
      | cons call todo => cases call <;> rfl
  | _ => rfl

theorem Sound.goes (h : Sound sure m) (hl : m.Enabled sure l) :
    Program.Step sure m l (m.rest (m.effect l) l) :=
  ⟨hl, _, (h.step hl).1, rfl⟩

theorem Program.Step.eq {m' : Program} (hstep : Program.Step sure m l m') (h : Sound sure m) :
    m' = m.rest (m.effect l) l := by
  obtain ⟨hl, s, hok, rfl⟩ := hstep
  rw [Except.ok.inj (hok.symm.trans (h.step hl).1)]

theorem Sound.of_step {m' : Program} (h : Sound sure m) (hstep : Program.Step sure m l m') :
    Sound sure m' := by
  rw [hstep.eq h]
  exact (h.step hstep.1).2.1

theorem Sound.run {m' : Program} {ls : List Label} (hrun : Run (Program.Step sure) m ls m')
    (h : Sound sure m) : Sound sure m' :=
  hrun.invariant (fun _ _ _ hm hstep => hm.of_step hstep) h

end Sound

/-- Every test calls `thread_sleep` right after a `thread_create`. -/
theorem script_paired (rand : Nat → Nat) (test : Test) : Paired true false (script rand test) := by
  cases test <;> simp [script, creates, createsAndSleeps, Paired, List.range_succ]

/-- Without `thread_sleep`, `calloc` may fail. -/
theorem paired_of_awake : ∀ {calls : List Call} {b : Bool},
    (∀ n, .sleep n ∈ calls → n.toInt ≤ 0) → Paired false b calls
  | [], _, _ => trivial
  | call :: calls, b, h => by
      have hrest : Paired false false calls :=
        paired_of_awake fun n hn => h n (List.mem_cons_of_mem _ hn)
      cases call with
      | sleep n => exact ⟨.inr (h n (List.mem_cons_self ..)), hrest⟩
      | _ => exact hrest

/-! ## The state at `run_test` -/

theorem inv_of_trace {s : State} {tr : List Obs} (h : Inv { s with trace := tr }) : Inv s :=
  ⟨⟨h.readyNodup, h.esperaNodup, h.allNodup, h.ready, h.espera, h.live, h.magic, h.idle, h.initial,
    h.tids⟩, ⟨h.running, h.alive, h.kept, h.registered, h.current⟩⟩

/-- `main` calls `run_test` right after the boot. -/
theorem main_booted {typed : List (List Char)} {block k : Nat} {name : String} {s : State}
    {c : Console} (h : main block k ⟨typed, []⟩ = .ok (some (name, s), c)) :
    ∃ quantum, { s with trace := [] } = afterBoot quantum block k := by
  have hstarted : ∀ {quantum c₁ c₂} {t : State}, start quantum block k c₁ = .ok (t, c₂) →
      { t with trace := [] } = afterBoot quantum block k := by
    intro quantum c₁ c₂ t hstart
    rw [start, run_boot] at hstart
    cases hstart
    exact afterBoot_eq quantum block k
  unfold main at h
  obtain ⟨n, c₁, -, h⟩ := ok_of_bind h
  split at h
  · dsimp only at h
    split at h
    · obtain ⟨quantum, c₂, -, h⟩ := ok_of_bind h
      obtain ⟨s', c₃, hstart, h⟩ := ok_of_bind h
      cases h
      exact ⟨quantum, hstarted hstart⟩
    · obtain ⟨quantum, c₂, -, h⟩ := ok_of_bind h
      obtain ⟨s', c₃, hstart, h⟩ := ok_of_bind h
      cases h
      exact ⟨quantum, hstarted hstart⟩
  · cases h

/-- Nothing is left to do for the scheduler then. -/
theorem main_idle {typed : List (List Char)} {block k : Nat} {name : String} {s : State}
    {c : Console} (h : main block k ⟨typed, []⟩ = .ok (some (name, s), c)) :
    Inv s ∧ 0 < s.roundRobinTicks ∧ s.burden = 0 := by
  obtain ⟨quantum, hs⟩ := main_booted h
  have hboot : Booted { s with trace := [] } := booted_iff.mpr ⟨quantum, block, k, hs⟩
  refine ⟨inv_of_trace hboot.inv, hboot.sliceful.2.2, ?_⟩
  show State.burden { s with trace := [] } = 0
  refine burden_zero hboot.inv ?_ ?_ ?_
  · rw [hs]
    exact fun hw => hw.1 rfl
  · rw [hs]
    exact (afterBoot_kept quantum block k).1
  · rw [hs]
    exact (afterBoot_kept quantum block k).2.1

theorem sound_load {typed : List (List Char)} {block k : Nat} {name : String} {s : State}
    {c : Console} (h : main block k ⟨typed, []⟩ = .ok (some (name, s), c)) {sure : Bool}
    {rand : Nat → Nat} {test : Test}
    (hsure : sure = true ∨ ∀ n, .sleep n ∈ script rand test → n.toInt ≤ 0) :
    Sound sure (load rand test s) := by
  refine ⟨(main_idle h).1, false, ?_, fun hb => by cases hb⟩
  cases sure with
  | true => exact script_paired rand test
  | false => exact paired_of_awake (hsure.resolve_left (by decide))

/-- Whatever is typed, whichever test it selects and whatever comes in between its calls: `run_test`
finds the test, and no call of the scheduler faults, then or in the main loop.  `calloc` may fail,
if the test puts no thread to sleep. -/
theorem program_never_faults {typed : List (List Char)} {block k : Nat} {name : String} {s : State}
    {c : Console} (h : main block k ⟨typed, []⟩ = .ok (some (name, s), c)) :
    ∃ test, runTest name = .ok test ∧ ∀ rand sure,
      (sure = true ∨ ∀ n, .sleep n ∈ script rand test → n.toInt ≤ 0) →
      ∀ ls m, Run (Program.Step sure) (load rand test s) ls m →
      ∀ l, m.Enabled sure l → ∃ s', m.outcome l = .ok s' := by
  obtain ⟨us, rest, n, test, -, -, -, hfound⟩ := main_runTest h
  refine ⟨test, hfound, fun rand sure hsure ls m hrun l hl => ?_⟩
  exact ⟨_, (((sound_load h hsure).run hrun).step hl).1⟩

/-- The run of `main` when a number other than 15 settles the first question. -/
theorem main_selects {us : List (List Char)} {n : Int32} (rest : List (List Char)) (block k : Nat)
    (h : Settled wrongTest (us.map atoi) n) (hn : n - 1 ≠ 14)
    (hrange : n ≤ getNumberOfTests ∧ n > 0) :
    ∃ s c, main block k ⟨us ++ rest, []⟩ = .ok (some (getTestName (n - 1), s), c) := by
  obtain ⟨log, htest⟩ := selectTest_ok rest [] h
  obtain ⟨s, hstart, -⟩ := start_ok none block k ⟨rest, log⟩
  refine ⟨s, ⟨rest, log⟩, ?_⟩
  unfold main
  rw [bind_ok htest, if_pos hrange]
  dsimp only
  rw [if_neg hn]
  exact (bind_ok (p := pure none) rfl).trans (bind_ok hstart)

/-- After the first call of the ninth test `calloc` can return the block 1. -/
theorem sleepSingle_enabled {s : State} {q : Option Int32}
    (h : { s with trace := [] } = afterBoot q 0 0) :
    Program.Enabled true ⟨s.withQuantum 0 5, [.create 15, .sleep 25], []⟩ (.main (some 1)) := by
  have hfree : s.heap (.block 1) = none := by
    show State.heap { s with trace := [] } (.block 1) = none
    rw [h]
    rfl
  simp [Program.Enabled, Program.op, Program.Fed, Call.op, State.withQuantum, hfree]

theorem program_never_faults_sleep_single : ∃ s c,
    main 0 0 ⟨[['9']], []⟩ = .ok (some ("sleep-single", s), c) ∧
    ∃ m, Run (Program.Step true) (load (fun _ => 0) .sleepSingle s) [.main none] m ∧
      m.todo = [.create 15, .sleep 25] ∧ m.Enabled true (.main (some 1)) ∧
      ∃ s', m.outcome (.main (some 1)) = .ok s' := by
  obtain ⟨s, c, hmain⟩ := @main_selects [['9']] 9 [] 0 0 (settled_singleton rfl) (by decide)
    (by decide)
  obtain ⟨q, hq⟩ := main_booted hmain
  obtain ⟨test, htest, hall⟩ := program_never_faults hmain
  obtain rfl : Test.sleepSingle = test := Except.ok.inj htest
  have hl₀ : (load (fun _ => 0) .sleepSingle s).Enabled true (.main none) := by
    simp [Program.Enabled, Program.op, Program.Fed, load, script, Call.op]
  have hrun : Run (Program.Step true) (load (fun _ => 0) .sleepSingle s) [.main none]
      ⟨s.withQuantum 0 5, [.create 15, .sleep 25], []⟩ :=
    .cons ((sound_load hmain (.inl rfl)).goes hl₀) (.nil _)
  have hl₁ := sleepSingle_enabled hq
  exact ⟨s, c, hmain, _, hrun, rfl, hl₁, hall (fun _ => 0) true (.inl rfl) _ _ hrun _ hl₁⟩

/-! ## The tests come to an end -/

/-- What a call adds to the burden at most. -/
def Call.cost : Call → Nat
  | .create duration => duration.toInt.toNat + 1
  | .sleep ticks => ticks.toInt.toNat + 1
  | _ => 0

def budget (calls : List Call) : Nat := (calls.map Call.cost).sum

/-- No alarm creates threads, and the burden of what has been done and of what is to do is at most
`total`. -/
structure Budgeted (total : Nat) (m : Program) : Prop where
  quantum : 0 < m.sched.roundRobinTicks
  alarms : .threadCreate ∉ m.alarms
  todo : .addAlarm .threadCreate ∉ m.todo
  le : m.sched.burden + budget m.todo ≤ total

section Budgeted

variable {sure : Bool} {total : Nat} {m : Program} {l : Label} {s : State}

theorem burden_withQuantum (s : State) (mode rrticks : Int) :
    (s.withQuantum mode rrticks).burden = s.burden := by
  unfold State.withQuantum
  split_ifs <;> rfl

theorem Budgeted.main (h : Budgeted total m) (hm : Sound sure m) {block : Option Nat}
    (hl : m.Enabled sure (.main block)) :
    Budgeted total (m.rest (m.effect (.main block)) (.main block)) := by
  obtain ⟨s, todo, alarms⟩ := m
  obtain ⟨hs, b, hpaired, hb⟩ := hm
  obtain ⟨hq, halarms, htodo, hle⟩ := h
  have hfed := hl.2
  cases todo with
  | nil =>
      refine ⟨effect_quantum_pos hq .afterInterrupt, halarms, htodo, ?_⟩
      exact Nat.le_trans (Nat.add_le_add_right (burden_polled hs hq).1 _) hle
  | cons call todo =>
      have hrest : .addAlarm .threadCreate ∉ todo := fun h => htodo (List.mem_cons_of_mem _ h)
      have hcost : s.burden + (call.cost + budget todo) ≤ total := hle
      cases call with
      | setQuantum mode rrticks =>
          refine ⟨effect_quantum_pos hq (.scheduleSetQuantum mode rrticks), halarms, hrest, ?_⟩
          show (s.withQuantum _ _).burden + budget todo ≤ total
          rw [burden_withQuantum]
          exact Nat.le_trans (Nat.add_le_add_left (Nat.le_add_left _ _) _) hcost
      | create duration =>
          refine ⟨effect_quantum_pos hq (.threadCreate .other block duration), halarms, hrest, ?_⟩
          have hnew : (s.created block duration.toInt).burden ≤ s.burden + _ :=
            burden_created hs (hfed _ rfl).1 duration.toInt
          show (s.created block duration.toInt).burden + budget todo ≤ total
          rw [Call.cost] at hcost
          omega
      | sleep n =>
          refine ⟨effect_quantum_pos hq (.threadSleep n), halarms, hrest, ?_⟩
          have hnew : ((Op.threadSleep n).effect s).burden ≤ s.burden + (n.toInt.toNat + 1) := by
            rcases hpaired.1 with hcur | hn
            · exact burden_slept hs ⟨hb hcur, hs.current⟩ n.toInt
            · rw [slept_nonpos hn]
              exact Nat.le_add_right _ _
          show ((Op.threadSleep n).effect s).burden + budget todo ≤ total
          rw [Call.cost] at hcost
          omega
      | addAlarm a =>
          refine ⟨hq, fun hmem => ?_, hrest, ?_⟩
          · rcases List.mem_append.mp hmem with hmem | hmem
            · exact halarms hmem
            · exact htodo (List.mem_singleton.mp hmem ▸ List.mem_cons_self ..)
          · exact Nat.le_trans (Nat.add_le_add_left (Nat.le_add_left _ _) _) hcost

theorem Budgeted.step (h : Budgeted total m) (hm : Sound sure m) (hl : m.Enabled sure l)
    (hclock : (m.rest (m.effect l) l).sched.ticks < 2 ^ 64) :
    Budgeted total (m.rest (m.effect l) l) := by
  cases l with
  | main block => exact h.main hm hl
  | timer =>
      refine ⟨effect_quantum_pos h.quantum .timerInterrupt, h.alarms, h.todo, ?_⟩
      have hticks : m.sched.ticks + 1 < 2 ^ 64 := by
        rw [← State.ticked_ticks]
        exact hclock
      exact Nat.le_trans (Nat.add_le_add_right (burden_ticked hm.inv hticks).1 _) h.le
  | alarm a block =>
      cases a with
      | threadCreate => exact absurd (hl.1 _ _ rfl) h.alarms
      | forceThreadExit =>
          exact ⟨h.quantum, fun hmem => h.alarms (List.mem_of_mem_erase hmem), h.todo, h.le⟩

theorem program_clock {m' : Program} {ls : List Label} (hrun : Run (Program.Step sure) m ls m') :
    Sound sure m → m.sched.ticks ≤ m'.sched.ticks := by
  induction hrun with
  | nil m => exact fun _ => Nat.le_refl _
  | @cons m v m' l ls hstep hrest ih =>
      intro h
      have hv := ih (h.of_step hstep)
      have hle := (h.step hstep.1).2.2
      rw [hstep.eq h, Program.rest_sched] at hv
      exact Nat.le_trans hle hv

theorem Budgeted.run {m' : Program} {ls : List Label} (hrun : Run (Program.Step sure) m ls m')
    (hclock : m'.sched.ticks < 2 ^ 64) : Sound sure m → Budgeted total m → Budgeted total m' := by
  induction hrun with
  | nil m => exact fun _ h => h
  | @cons m v m' l ls hstep hrest ih =>
      intro hm h
      have hv := hm.of_step hstep
      refine ih hclock hv ?_
      have hticks := Nat.lt_of_le_of_lt (program_clock hrest hv) hclock
      rw [hstep.eq hm] at hticks ⊢
      exact h.step hm hstep.1 hticks

/-- The call that `l` makes once the test has returned. -/
def Label.loopOp : Label → Op
  | .timer => .timerInterrupt
  | .main _ => .afterInterrupt
  | .alarm _ _ => .setThreadExitOnReturn

theorem Label.loopOp_service (l : Label) : l.loopOp.Service := by
  cases l <;> trivial

/-- The main loop is a run of the scheduler. -/
theorem loop_run {m' : Program} {ls : List Label} (hrun : Run (Program.Step sure) m ls m') :
    Sound sure m → m.todo = [] → .threadCreate ∉ m.alarms →
      Run PicoOS.Step m.sched (ls.map Label.loopOp) m'.sched := by
  induction hrun with
  | nil m => exact fun _ _ _ => .nil _
  | @cons m v m' l ls hstep hrest ih =>
      intro hm htodo halarms
      have hop : m.op l = some l.loopOp := by
        cases l with
        | timer => rfl
        | main block => rw [Program.op, htodo]; rfl
        | alarm a block =>
            cases a with
            | threadCreate => exact absurd (hstep.1.1 _ _ rfl) halarms
            | forceThreadExit => rfl
      have hv := hstep.eq hm
      have heffect : m.effect l = l.loopOp.effect m.sched := by rw [Program.effect, hop]
      have hsched : v.sched = l.loopOp.effect m.sched := by
        rw [hv, Program.rest_sched, heffect]
      have hrest' : v.todo = [] ∧ .threadCreate ∉ v.alarms := by
        rw [hv]
        cases l with
        | timer => exact ⟨htodo, halarms⟩
        | main block => simp [Program.rest, htodo, halarms]
        | alarm a block =>
            cases a with
            | threadCreate => exact absurd (hstep.1.1 _ _ rfl) halarms
            | forceThreadExit => exact ⟨htodo, fun hmem => halarms (List.mem_of_mem_erase hmem)⟩
      have hallowed : Allowed m.sched l.loopOp ∧ l.loopOp.named = true := by
        cases l <;> exact ⟨trivial, rfl⟩
      refine .cons ?_ (ih (hm.of_step hstep) hrest'.1 hrest'.2)
      rw [hsched]
      exact step_of_allowed hm.inv hallowed.1 hallowed.2

end Budgeted

/-- A thread of at most 29 ticks costs at most 30. -/
theorem create_cost {d : Nat} (h : d ≤ 29) : (Call.create (Int32.ofNat d)).cost ≤ 30 := by
  have hd : (Int32.ofNat d).toInt = d := Int32.toInt_ofNat_of_lt (by omega)
  rw [Call.cost, hd]
  omega

theorem creates_budget (n : Nat) {duration : Nat → Nat} (h : ∀ i, duration i ≤ 29) :
    budget (creates n duration) ≤ n * 30 := by
  have hle : ∀ x ∈ (creates n duration).map Call.cost, x ≤ 30 := by
    intro x hx
    obtain ⟨call, hcall, rfl⟩ := List.mem_map.mp hx
    obtain ⟨i, -, rfl⟩ := List.mem_map.mp hcall
    exact create_cost (h i)
  have hsum := List.sum_le_card_nsmul _ 30 hle
  rw [List.length_map, creates, List.length_map, List.length_range] at hsum
  exact hsum

/-- The dearest tests are those with random durations. -/
theorem budget_le (rand : Nat → Nat) (test : Test) : budget (script rand test) ≤ 150 := by
  have hrand : ∀ i, rand i % 25 + 5 ≤ 29 := by
    intro i
    omega
  have hquantum : ∀ mode rrticks calls, budget (.setQuantum mode rrticks :: calls) = budget calls :=
    fun _ _ calls => Nat.zero_add (budget calls)
  cases test with
  | fifoRandomDuration => exact (hquantum ..).trans_le (creates_budget 5 hrand)
  | roundRobinRandomDuration => exact (hquantum ..).trans_le (creates_budget 5 hrand)
  | _ => exact Nat.le_of_ble_eq_true rfl

/-- A test that keeps no alarm to create threads is over 150 rounds after its function has
returned: whatever is typed to select it, wherever the timer and the alarm come in, whatever `rand`
returns and whichever free block `calloc`.  `calloc` may fail, if the test puts no thread to
sleep. -/
theorem tests_finish {typed : List (List Char)} {block k : Nat} {name : String} {s : State}
    {c : Console} (h : main block k ⟨typed, []⟩ = .ok (some (name, s), c)) :
    ∃ test, runTest name = .ok test ∧ ∀ rand sure,
      (sure = true ∨ ∀ n, .sleep n ∈ script rand test → n.toInt ≤ 0) →
      .addAlarm .threadCreate ∉ script rand test →
      ∀ body m, Run (Program.Step sure) (load rand test s) body m → m.todo = [] →
      ∀ loop m', Run (Program.Step sure) m loop m' → m'.sched.ticks < 2 ^ 64 →
      150 ≤ rounds false (loop.map Label.loopOp) →
        m'.sched.idleThread = some m'.sched.threadRunningVar ∧ m'.sched.readyList = [] ∧
        m'.sched.listaEspera = [] ∧ ∀ a, m'.sched.heap a ≠ none ↔
          a = m'.sched.initialThread ∨ m'.sched.idleThread = some a := by
  obtain ⟨us, rest, n, test, -, -, -, hfound⟩ := main_runTest h
  refine ⟨test, hfound, ?_⟩
  intro rand sure hsure halarm body m hbody hdone loop m' hloop hclock hrounds
  obtain ⟨-, hq, hzero⟩ := main_idle h
  have hload := sound_load h hsure
  have hm := hload.run hbody
  have hbudget : Budgeted 150 m := by
    refine Budgeted.run hbody ?_ hload ⟨hq, List.not_mem_nil, halarm, ?_⟩
    · exact Nat.lt_of_le_of_lt (program_clock hloop hm) hclock
    · show s.burden + budget (script rand test) ≤ 150
      rw [hzero, Nat.zero_add]
      exact budget_le rand test
  have hrun := loop_run hloop hm hdone hbudget.alarms
  have hle := hbudget.le
  refine finished_of_run hrun (fun op hop => ?_) hm.inv hbudget.quantum hclock ?_
  · obtain ⟨l, -, rfl⟩ := List.mem_map.mp hop
    exact l.loopOp_service
  · omega

/-- The main loop can always take another round. -/
theorem rounds_exist {sure : Bool} : ∀ (n : Nat) {m : Program}, Sound sure m → m.todo = [] →
    ∃ m', Run (Program.Step sure) m (List.replicate n [.timer, .main none]).flatten m' ∧
      m'.sched.ticks = m.sched.ticks + n
  | 0, m, _, _ => ⟨m, .nil m, rfl⟩
  | n + 1, ⟨s, [], alarms⟩, hm, rfl => by
      have htick : Program.Enabled sure ⟨s, [], alarms⟩ .timer := by
        simp [Program.Enabled, Program.op, Program.Fed]
      have hpoll : Program.Enabled sure ⟨s.ticked, [], alarms⟩ (.main none) := by
        simp [Program.Enabled, Program.op, Program.Fed]
      have hv : Sound sure ⟨s.ticked, [], alarms⟩ := (hm.step htick).2.1
      have hw : Sound sure ⟨s.ticked.polled, [], alarms⟩ := (hv.step hpoll).2.1
      obtain ⟨m', hrun, hticks⟩ := rounds_exist n hw rfl
      refine ⟨m', .cons (hm.goes htick) (.cons (hv.goes hpoll) hrun), ?_⟩
      rw [hticks]
      show s.ticked.polled.ticks + n = _
      rw [(Lighter.polled hv.inv).ticks, State.ticked_ticks, Nat.add_assoc, Nat.add_comm 1]

/-- The state of the scheduler after the calls of the ninth test, its thread in the block 1. -/
def afterSleepSingle (s : State) : State :=
  ((s.withQuantum 0 5).created (some 1) 15).slept 25

theorem sleepSingle_run {s : State} {q : Option Int32}
    (h : { s with trace := [] } = afterBoot q 0 0) (rand : Nat → Nat) :
    Run (Program.Step true) (load rand .sleepSingle s) [.main none, .main (some 1), .main none]
      ⟨afterSleepSingle s, [], []⟩ ∧ Sound true ⟨afterSleepSingle s, [], []⟩ ∧
      (afterSleepSingle s).ticks = 0 := by
  have hboot : Booted { s with trace := [] } := booted_iff.mpr ⟨q, 0, 0, h⟩
  have hzero : s.ticks = 0 := by
    show State.ticks { s with trace := [] } = 0
    rw [h]
    rfl
  have h₀ : Sound true (load rand .sleepSingle s) :=
    ⟨inv_of_trace hboot.inv, false, script_paired rand .sleepSingle, fun hb => by cases hb⟩
  have hl₀ : (load rand .sleepSingle s).Enabled true (.main none) := by
    simp [Program.Enabled, Program.op, Program.Fed, load, script, Call.op]
  have h₁ : Sound true ⟨s.withQuantum 0 5, [.create 15, .sleep 25], []⟩ := (h₀.step hl₀).2.1
  have hl₁ := sleepSingle_enabled h
  have h₂ : Sound true ⟨(s.withQuantum 0 5).created (some 1) 15, [.sleep 25], []⟩ :=
    (h₁.step hl₁).2.1
  have hl₂ : Program.Enabled true ⟨(s.withQuantum 0 5).created (some 1) 15, [.sleep 25], []⟩
      (.main none) := by
    simp [Program.Enabled, Program.op, Program.Fed, Call.op]
  refine ⟨.cons (h₀.goes hl₀) (.cons (h₁.goes hl₁) (.cons (h₂.goes hl₂) (.nil _))),
    (h₂.step hl₂).2.1, ?_⟩
  have hadopt : Inv ((s.withQuantum 0 5).adopt 1 15) := h₁.inv.adopt ((hl₁.2 _ rfl).1 1 rfl) 15
  rw [afterSleepSingle, State.slept, if_pos (by decide)]
  exact (Lighter.idleBlocked hadopt).ticks.trans hzero

theorem tests_finish_sleep_single : ∃ s c m',
    main 0 0 ⟨[['9']], []⟩ = .ok (some ("sleep-single", s), c) ∧
    Run (Program.Step true) (load (fun _ => 0) .sleepSingle s)
      [.main none, .main (some 1), .main none] ⟨afterSleepSingle s, [], []⟩ ∧
    Run (Program.Step true) ⟨afterSleepSingle s, [], []⟩
      (List.replicate 150 [.timer, .main none]).flatten m' ∧
    m'.sched.idleThread = some m'.sched.threadRunningVar ∧ m'.sched.readyList = [] ∧
    m'.sched.listaEspera = [] ∧ ∀ a, m'.sched.heap a ≠ none ↔
      a = m'.sched.initialThread ∨ m'.sched.idleThread = some a := by
  obtain ⟨s, c, hmain⟩ := @main_selects [['9']] 9 [] 0 0 (settled_singleton rfl) (by decide)
    (by decide)
  obtain ⟨q, hq⟩ := main_booted hmain
  obtain ⟨hbody, hsound, hzero⟩ := sleepSingle_run hq fun _ => 0
  obtain ⟨m', hloop, hticks⟩ := rounds_exist 150 hsound rfl
  obtain ⟨test, htest, hall⟩ := tests_finish hmain
  obtain rfl : Test.sleepSingle = test := Except.ok.inj htest
  refine ⟨s, c, m', hmain, hbody, hloop, ?_⟩
  refine hall (fun _ => 0) true (.inl rfl) (by decide) _ _ hbody rfl _ _ hloop ?_ (by decide +kernel)
  rw [hticks, hzero]
  decide

end PicoOS.Main
