/-
# `PicoOS.Sched.IdleSleep` — what becomes of the lists when `idle_thread` sleeps

`thread_sleep` and `timer_sleep` put the current thread on `lista_espera` and block
it, whichever thread it is.  For `idle_thread` that is wrong:
`next_thread_to_run` returns it whenever `ready_list` is empty, without asking
whether it sleeps, so it runs on while it is still on `lista_espera`, and
`thread_unblock` refuses it when its time has come (`idle_sleeps`).

With every other thread nothing of the kind happens, whatever the calls and their
order: `sleep_unharmed`.
-/
import PicoOS.Sched.Queues

namespace PicoOS

open Runs

/-! ## The property -/

/-- The `elem` of a thread is linked once at most, and no thread runs while it sleeps. -/
structure Unharmed (s : State) : Prop where
  ready : s.readyList.Nodup
  espera : s.listaEspera.Nodup
  apart : ∀ a ∈ s.readyList, a ∉ s.listaEspera
  asleep : ∀ a ∈ s.listaEspera, s.statusOf a ≠ some .running

/-- The call may be made as far as `calloc` is concerned. -/
def Roomy (s : State) : Op → Prop
  | .threadCreate _ block _ => ∀ b ∈ block, s.heap (.block b) = none
  | _ => True

/-- One call that returns, of whichever thread is current. -/
def AnyStep (s : State) (op : Op) (t : State) : Prop := Roomy s op ∧ exec op s = .ok t

/-- The call does not put `idle_thread` to sleep, and names the thread it creates. -/
def Op.Careful (s : State) (op : Op) : Prop :=
  op.named = true ∧ match op with
  | .threadSleep n | .timerSleep n => 0 < n.toInt → s.idleThread ≠ some s.threadRunningVar
  | _ => True

/-! ## When `idle_thread` sleeps -/

/-- With nothing else to run, `idle_thread` runs on and is on `lista_espera`. -/
theorem idle_sleeps {s : State} (hs : Inv s) (hi : s.idleThread = some s.threadRunningVar)
    (hr : s.readyList = []) {n : Int32} (hn : 0 < n.toInt) :
    AnyStep s (.threadSleep n) (s.slept n.toInt) ∧
      s.threadRunningVar ∈ (s.slept n.toInt).listaEspera ∧
      (s.slept n.toInt).statusOf s.threadRunningVar = some .running := by
  have hexec : exec (.threadSleep n) s = .ok (s.slept n.toInt) := by
    simp only [exec, Op.code, run_threadSleep hs.hasCurrent hs.fit.next hs.not_linked]
    rfl
  have hsucc : ((s.enlist n.toInt).setCurrent .blocked).succ = s.threadRunningVar := by
    show s.next.getD _ = _
    rw [State.next, hr, hi]
    rfl
  refine ⟨⟨trivial, hexec⟩, ?_⟩
  rw [State.slept, if_pos hn]
  refine ⟨List.mem_append_right _ (List.mem_singleton_self _), ?_⟩
  have hlive : ((s.enlist n.toInt).setCurrent .blocked).statusOf s.threadRunningVar ≠ none := by
    obtain ⟨c, hc⟩ := State.statusOf_ne_none.mp hs.live_current
    refine State.statusOf_ne_none.mpr ⟨_, (State.setStatus_heap _ _ _ _).trans ((if_pos rfl).trans
      (congrArg _ ((State.mapThread_heap _ _ _ _).trans ((if_pos rfl).trans (congrArg _ hc)))))⟩
  obtain ⟨th, hth⟩ := State.statusOf_ne_none.mp hlive
  rw [State.statusOf_dispatch, hsucc, if_pos rfl, State.statusOf, hth]
  rfl

/-! ## When it does not -/

theorem Inv.unharmed {s : State} (h : Inv s) : Unharmed s where
  ready := h.readyNodup
  espera := h.esperaNodup
  apart a hr he := h.toLinked.sleeping.unlinked a he hr
  asleep a he := by
    rw [(h.espera a he).1]
    decide

/-- A call of `thread_sleep` or `timer_sleep` without ticks to sleep does nothing. -/
theorem slept_nothing (s : State) {n : Int} (hn : ¬ 0 < n) : s.slept n = s := if_neg hn

/-- A careful call returns and keeps the invariant. -/
theorem Op.Careful.step {s : State} (hs : Inv s) {op : Op} (hroom : Roomy s op)
    (hc : op.Careful s) : exec op s = .ok (op.effect s) ∧ Inv (op.effect s) := by
  have hallowed : Allowed s op → exec op s = .ok (op.effect s) ∧ Inv (op.effect s) :=
    fun ha => ⟨exec_ok hs ha hc.1, (moves_effect hs ha).inv hs⟩
  cases op with
  | threadSleep n =>
      by_cases hn : 0 < n.toInt
      · exact hallowed (hc.2 hn)
      · refine ⟨?_, ?_⟩
        · simp only [exec, Op.code, run_threadSleep hs.hasCurrent hs.fit.next hs.not_linked]
          rfl
        · show Inv (s.slept n.toInt)
          rw [slept_nothing s hn]
          exact hs
  | timerSleep n =>
      by_cases hn : 0 < n.toInt
      · exact hallowed (hc.2 hn)
      · refine ⟨?_, ?_⟩
        · simp only [exec, Op.code, run_timerSleep hs.hasCurrent hs.fit.next hs.not_linked]
          rfl
        · show Inv (s.slept n.toInt)
          rw [slept_nothing s hn]
          exact hs
  | threadCreate name block d => exact hallowed hroom
  | threadYield => exact hallowed trivial
  | threadExit => exact hallowed trivial
  | setThreadExitOnReturn => exact hallowed trivial
  | scheduleSetQuantum mode rrticks => exact hallowed trivial
  | timerInterrupt => exact hallowed trivial
  | afterInterrupt => exact hallowed trivial

/-- In a run of careful calls, no thread is linked twice or runs while it sleeps, and no careful
call that follows faults. -/
theorem sleep_unharmed {s₀ s : State} {ops : List Op} (h₀ : Booted s₀)
    (hrun : Run (fun s op t => AnyStep s op t ∧ op.Careful s) s₀ ops s) :
    Unharmed s ∧ ∀ op, Roomy s op → op.Careful s → ∃ t, exec op s = .ok t := by
  have hs : Inv s := by
    refine hrun.invariant (fun s op t hs hstep => ?_) h₀.inv
    obtain ⟨⟨hroom, hexec⟩, hc⟩ := hstep
    obtain ⟨hok, hinv⟩ := hc.step hs hroom
    rw [hok] at hexec
    exact Except.ok.inj hexec ▸ hinv
  exact ⟨hs.unharmed, fun op hroom hc => ⟨_, (hc.step hs hroom).1⟩⟩

/-- A thread sleeps while `idle_thread` runs. -/
theorem sleep_unharmed_one_thread :
    let s := effects (afterBoot none 0 0) [.threadCreate .other (some 1) 5, .threadSleep 3]
    s.listaEspera = [.block 1] ∧ Unharmed s := by
  have h₀ : Booted (afterBoot none 0 0) := booted_iff.mpr ⟨none, 0, 0, rfl⟩
  have hc₁ : Op.Careful (afterBoot none 0 0) (.threadCreate .other (some 1) 5) := ⟨rfl, trivial⟩
  have hr₁ : Roomy (afterBoot none 0 0) (.threadCreate .other (some 1) 5) := by
    rintro b hb
    cases hb
    decide +kernel
  obtain ⟨hok₁, hinv₁⟩ := hc₁.step h₀.inv hr₁
  have hc₂ : Op.Careful ((afterBoot none 0 0).created (some 1) 5) (.threadSleep 3) :=
    ⟨rfl, fun _ => by decide +kernel⟩
  have hr₂ : Roomy ((afterBoot none 0 0).created (some 1) 5) (.threadSleep 3) := trivial
  obtain ⟨hok₂, -⟩ := hc₂.step hinv₁ hr₂
  exact ⟨by decide +kernel, (sleep_unharmed h₀
    (.cons ⟨⟨hr₁, hok₁⟩, hc₁⟩ (.cons ⟨⟨hr₂, hok₂⟩, hc₂⟩ (.nil _)))).1⟩

/-- After the boot, `idle_thread` sleeps for a tick: it is on `lista_espera` and runs, and at the
tick `thread_unblock` panics. -/
theorem idle_sleep_corrupts :
    (¬ ∀ s₀ ops s, Booted s₀ → Run AnyStep s₀ ops s → Unharmed s) ∧
    ¬ ∀ s₀ ops s, Booted s₀ → Run AnyStep s₀ ops s →
      exec .timerInterrupt s ≠ .error (.assert "thread_unblock" "t->status == THREAD_BLOCKED") := by
  have h₀ : Booted (afterBoot none 0 0) := booted_iff.mpr ⟨none, 0, 0, rfl⟩
  obtain ⟨hstep, hin, hrunning⟩ := idle_sleeps (n := 1) h₀.inv (by decide +kernel)
    (by decide +kernel) (by decide)
  constructor
  · intro h
    exact (h _ [.threadSleep 1] _ h₀ (.cons hstep (.nil _))).asleep _ hin hrunning
  · intro h
    exact h _ [.threadSleep 1] _ h₀ (.cons hstep (.nil _)) rfl

end PicoOS
