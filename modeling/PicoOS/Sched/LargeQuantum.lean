/-
# `PicoOS.Sched.LargeQuantum` — round robin with a large quantum is FIFO

Two runs with the same calls, one in FIFO mode and one under a quantum that no
thread created in the run outlasts.  They agree on everything but the settings.

The two can differ in one place only, the preemption in `after_interrupt`, and
it is never taken: `Budget` says that the ticks the current thread has used in
its slice and the ticks it still has fit into the quantum together, so a thread
whose slice is spent has no ticks left, and then the branch for that comes first.
-/
import PicoOS.Sched.Policies

namespace PicoOS

open Runs

/-! ## The budget -/

/-- No thread of the log was created with more than `q` ticks. -/
def AtMost (q : Int) (s : State) : Prop := ∀ a tid d, .created a tid d ∈ s.trace → d ≤ q

theorem AtMost.mono {q : Int} {s t : State} (h : AtMost q t) (hlog : s.trace <+: t.trace) :
    AtMost q s :=
  fun a tid d hmem => h a tid d (hlog.subset hmem)

/-- The ticks of every worker fit into the quantum, and those of the current one into what is left
of its slice. -/
structure Budget (q : Int) (s : State) : Prop where
  slice : s.worker s.threadRunningVar → 0 < s.durationOf s.threadRunningVar →
    s.threadTicks + s.durationOf s.threadRunningVar ≤ q
  total : ∀ a, s.statusOf a ≠ none → s.worker a → s.durationOf a ≤ q

/-- The thread that is dispatched has a slice of its own. -/
theorem Budget.switch {q : Int} {s m : State} (hs : Inv s) (hb : Budget q s) (hm : Stop s m) :
    Budget q m.dispatch := by
  have htotal : ∀ a, m.statusOf a ≠ none → m.worker a → m.durationOf a ≤ q := by
    intro a hlive hw
    rw [hm.durationOf]
    exact hb.total a (hm.live hs hlive) ((hm.worker a).mp hw)
  have hkept : ∀ a, m.dispatch.statusOf a ≠ none →
      m.statusOf a ≠ none ∧ m.dispatch.durationOf a = m.durationOf a := by
    intro a hlive
    rw [m.statusOf_dispatch] at hlive
    by_cases hr : m.reaped a
    · rw [if_neg hr.2.1, if_pos hr] at hlive
      exact absurd rfl hlive
    · refine ⟨fun hn => hlive ?_, State.durationOf_dispatch hr⟩
      rw [hn, if_neg hr]
      simp
  have hinv : Inv m.dispatch := (hm.parked hs).dispatch
  refine ⟨fun hw _ => ?_, fun a hlive hw => ?_⟩
  · obtain ⟨hlive, hdur⟩ := hkept _ hinv.live_current
    rw [hdur]
    have hle := htotal _ hlive hw
    show ((0 : Nat) : Int) + _ ≤ q
    omega
  · obtain ⟨hlive', hdur⟩ := hkept a hlive
    rw [hdur]
    exact htotal a hlive' hw

/-- A move that changes neither who is current nor what a thread has left. -/
theorem Budget.same {q : Int} {s t : State} (hb : Budget q s)
    (hticks : t.threadTicks = s.threadTicks) (hcur : t.threadRunningVar = s.threadRunningVar)
    (hw : ∀ a, t.worker a ↔ s.worker a) (hdur : ∀ a, t.durationOf a = s.durationOf a)
    (hlive : ∀ a, t.statusOf a ≠ none → s.statusOf a ≠ none) : Budget q t := by
  refine ⟨fun hwc hpos => ?_, fun a hl hwa => ?_⟩
  · rw [hcur, hdur] at hpos ⊢
    rw [hticks]
    exact hb.slice ((hw _).mp (hcur ▸ hwc)) hpos
  · rw [hdur]
    exact hb.total a (hlive a hl) ((hw a).mp hwa)

/-- A new thread fits into the quantum. -/
theorem Budget.adopt {q : Int} {s : State} (hs : Inv s) (hb : Budget q s) {b : Nat}
    (hfree : s.heap (.block b) = none) {d : Int} (hd : d ≤ q) : Budget q (s.adopt b d) := by
  have hcur : (s.adopt b d).durationOf s.threadRunningVar = s.durationOf s.threadRunningVar :=
    State.durationOf_adopt (State.ne_fresh hfree hs.live_current) d
  refine ⟨fun hw hpos => ?_, fun a hlive hw => ?_⟩
  · show (s.threadTicks : Int) + (s.adopt b d).durationOf s.threadRunningVar ≤ q
    rw [hcur]
    exact hb.slice hw (hcur ▸ hpos)
  · by_cases hab : a = .block b
    · have hnew : (s.adopt b d).durationOf a = d := by
        simp [State.durationOf, State.adopt, hab]
      rw [hnew]
      exact hd
    · rw [State.durationOf_adopt hab]
      rw [Linked.statusOf_adopt, if_neg hab] at hlive
      exact hb.total a hlive hw

/-- A tick goes from what the current thread has left to what it has used of its slice. -/
theorem Budget.charge {q : Int} {s : State} (hs : Inv s) (hb : Budget q s) : Budget q s.charge := by
  have hdur := hs.hasCurrent.durationOf_charge
  refine ⟨fun hw hpos => ?_, fun a hlive hw => ?_⟩
  · have hcur : s.charge.durationOf s.charge.threadRunningVar =
        s.durationOf s.threadRunningVar - 1 := (hdur _).trans (if_pos rfl)
    rw [hcur] at hpos ⊢
    have hold := hb.slice hw (by omega)
    have hmod : (s.threadTicks + 1) % 2 ^ 32 ≤ s.threadTicks + 1 := Nat.mod_le ..
    show (((s.threadTicks + 1) % 2 ^ 32 : Nat) : Int) + _ ≤ q
    omega
  · have hlive' : s.statusOf a ≠ none := by
      rw [← State.statusOf_mapThread s.threadRunningVar a (f := fun th =>
        { th with durationTicks := th.durationTicks - 1 }) (fun _ => rfl) s]
      exact hlive
    have hold := hb.total a hlive' hw
    rw [hdur]
    split_ifs
    · omega
    · exact hold

/-- Every move keeps the budget, if the threads created fit into the quantum. -/
theorem Budget.move {q : Int} {s t : State} (hs : Inv s) (h : AtMost q s → Budget q s)
    (hm : Move s t) : AtMost q t → Budget q t := by
  intro hmost
  have hb := h (hmost.mono hm.log)
  cases hm with
  | switch hm => exact hb.switch hs hm
  | deadline d =>
      refine hb.same rfl rfl (fun _ => Iff.rfl) (fun a => ?_) fun a hlive => ?_
      · exact State.durationOf_mapThread (f := fun th => { th with sleepTime := d })
          (fun _ => rfl) s
      · rw [← State.statusOf_mapThread s.threadRunningVar a (f := fun th =>
          { th with sleepTime := d }) (fun _ => rfl) s]
        exact hlive
  | @create b hfree d =>
      refine hb.adopt hs hfree (hmost (.block b) s.nextTid d ?_)
      exact List.mem_append_right _ (List.mem_cons_self ..)
  | charge => exact hb.charge hs
  | @wake a ha hd =>
      refine hb.same rfl rfl (fun _ => Iff.rfl) (fun b => State.durationOf_setStatus a b .ready _)
        fun b hlive hn => hlive ?_
      have hfree : s.heap b = none := Option.map_eq_none_iff.mp hn
      rw [State.statusOf, State.wakeOne_heap, hfree]
      split_ifs <;> rfl
  | config m n e => exact ⟨hb.slice, hb.total⟩

/-! ## No preemption -/

/-- After `block_if_idle_thread` the idle thread is current only if nothing else is ready. -/
theorem idleBlocked_alone {s : State} (h : Inv s)
    (hi : s.idleBlocked.idleThread = some s.idleBlocked.threadRunningVar) :
    s.idleBlocked.readyList = [] := by
  unfold State.idleBlocked at hi ⊢
  split_ifs at hi ⊢ with hcur
  · have hl : Linked (s.setCurrent .blocked) := ((Stop.block hcur).parked h).toLinked
    show s.readyList.tail = []
    rw [show s.readyList = [] from hl.alone_of_idle hi]
    rfl
  · exact absurd hi hcur

/-- Within the budget the quantum makes no difference to the first `if` of `after_interrupt`. -/
theorem expired_tuned {u : State} {q : Int} (hinv : Inv u) (hb : Budget q u)
    (hmode : u.roundRobinMode = 0)
    (halone : u.idleThread = some u.threadRunningVar → u.readyList = []) :
    (u.tuned 1 q.toNat).expired = u.expired.tuned 1 q.toNat := by
  by_cases hd : u.durationOf u.threadRunningVar ≤ 0
  · have hd' : (u.tuned 1 q.toNat).durationOf (u.tuned 1 q.toNat).threadRunningVar ≤ 0 := hd
    rw [State.expired, if_pos hd', State.tuned_exited, State.expired, if_pos hd]
  · have hd' : ¬ (u.tuned 1 q.toNat).durationOf (u.tuned 1 q.toNat).threadRunningVar ≤ 0 := hd
    have hfifo : ¬ u.preempted := fun hp => hp.1 hmode
    have hrr : ¬ (u.tuned 1 q.toNat).preempted := by
      rintro ⟨-, hready, hspent⟩
      by_cases hi : u.idleThread = some u.threadRunningVar
      · exact hready (halone hi)
      · have hslice := hb.slice (hinv.worker_of_not_idle hi) (by omega)
        have hle : q.toNat ≤ u.threadTicks := hspent
        omega
    rw [State.expired, if_neg hd', if_neg hrr, State.expired, if_neg hd, if_neg hfifo]

/-- Within the budget every call but `schedule_set_quantum` commutes with a change of the
quantum. -/
theorem effect_tuned {s : State} {q : Int} (hinv : Inv s) (hb : Budget q s)
    (hmode : s.roundRobinMode = 0) {op : Op} (hop : op.KeepsQuantum) :
    op.effect (s.tuned 1 q.toNat) = (op.effect s).tuned 1 q.toNat := by
  cases op with
  | threadCreate name block d => exact s.tuned_created _ _ block d.toInt
  | threadSleep n => exact s.tuned_slept _ _ n.toInt
  | timerSleep n => exact s.tuned_slept _ _ n.toInt
  | threadYield => exact s.tuned_yielded _ _
  | threadExit => exact s.tuned_exited _ _
  | setThreadExitOnReturn => rfl
  | scheduleSetQuantum mode rrticks => exact absurd rfl (hop mode rrticks)
  | timerInterrupt => exact s.tuned_ticked _ _
  | afterInterrupt =>
      have hinv' : Inv s.idleBlocked := (moves_idleBlocked s).inv hinv
      have hmode' : s.idleBlocked.roundRobinMode = 0 :=
        (State.settings_kept State.tuned_idleBlocked s).1.trans hmode
      have hb' : Budget q s.idleBlocked := by
        unfold State.idleBlocked
        split_ifs with hi
        · exact hb.switch hinv (.block hi)
        · exact hb
      show (s.tuned 1 q.toNat).polled = s.polled.tuned 1 q.toNat
      rw [State.polled, State.tuned_idleBlocked,
        expired_tuned hinv' hb' hmode' (idleBlocked_alone hinv), State.tuned_forced, State.polled]

/-! ## The two runs -/

/-- Two states of the two runs: as long as every thread created fits into the quantum they differ
in the settings only. -/
structure Twin (q : Int) (s s' : State) : Prop where
  inv : Inv s
  inv' : Inv s'
  mode : s.roundRobinMode = 0
  budget : AtMost q s → Budget q s
  same : AtMost q s → s' = s.tuned 1 q.toNat

theorem Twin.step {q : Int} {s s' t t' : State} {op : Op} (hop : op.KeepsQuantum)
    (h : Twin q s s') (hstep : Step s op t) (hstep' : Step s' op t') : Twin q t t' := by
  have hmoves := hstep.moves h.inv
  obtain ⟨hinv, hbudget⟩ := hmoves.keeps (fun _ _ hi hb hm => Budget.move hi hb hm) h.inv h.budget
  have hinv' : Inv t' := (hstep'.moves h.inv').inv h.inv'
  have hmode : t.roundRobinMode = 0 := by
    rw [hstep.effect h.inv, (effect_settings hop s).1, h.mode]
  refine ⟨hinv, hinv', hmode, hbudget, fun hmost => ?_⟩
  have hmost' := hmost.mono hmoves.log
  rw [hstep.effect h.inv, hstep'.effect h.inv', h.same hmost']
  exact effect_tuned h.inv (h.budget hmost') h.mode hop

theorem Booted.budget {s : State} (h : Booted s) (q : Int) : Budget q s := by
  obtain ⟨quantum, i, k, rfl⟩ := booted_iff.mp h
  obtain ⟨-, -, hinit, -⟩ := afterBoot_kept quantum i k
  refine ⟨fun hw _ => absurd rfl hw.1, fun a hlive hw => ?_⟩
  rcases afterBoot_live hlive with rfl | rfl
  · exact absurd hinit.symm hw.2
  · exact absurd rfl hw.1

/-- Two runs with the same calls, one in FIFO mode and one under a quantum that is at least the
duration of every thread created, agree on everything but the settings of the quantum. -/
theorem large_quantum_is_fifo {s₀ s₁ t t' : State} {q : Int32} {ops : List Op} (h₀ : Booted s₀)
    (hmode : s₀.roundRobinMode = 0) (hq : 0 < q.toInt)
    (hset : Step s₀ (.scheduleSetQuantum 1 q) s₁) (hops : ∀ op ∈ ops, op.KeepsQuantum)
    (hfifo : Run Step s₀ ops t) (hrr : Run Step s₁ ops t')
    (hmost : ∀ a tid d, .created a tid d ∈ t.trace → d ≤ q.toInt) :
    t'.threadRunningVar = t.threadRunningVar ∧ t'.readyList = t.readyList ∧
    t'.listaEspera = t.listaEspera ∧ t'.allList = t.allList ∧ t'.threadTicks = t.threadTicks ∧
    ∀ a, t'.heap a = t.heap a := by
  have heff : s₁ = s₀.tuned 1 q.toInt.toNat := by
    rw [hset.effect h₀.inv]
    show s₀.withQuantum 1 q.toInt = _
    rw [State.withQuantum, if_neg (by decide), if_pos ⟨rfl, hq⟩]
    rfl
  have hstart : Twin q.toInt s₀ s₁ :=
    ⟨h₀.inv, (hset.moves h₀.inv).inv h₀.inv, hmode, fun _ => h₀.budget _, fun _ => heff⟩
  have hend : Twin q.toInt t t' := hfifo.lockstep
    (fun s s' t t' op hop hr (h : Step s op t) (h' : Step s' op t') => Twin.step hop hr h h')
    hops hstart hrr
  rw [hend.same hmost]
  exact ⟨rfl, rfl, rfl, rfl, rfl, fun _ => rfl⟩

/-- Durations 2 and 1 under quantum 2, with a sleep in between. -/
theorem large_quantum_is_fifo_two_one :
    let ops : List Op := [.threadCreate .other (some 1) 2, .threadCreate .other (some 2) 1,
      .timerInterrupt, .afterInterrupt, .threadSleep 1, .timerInterrupt, .afterInterrupt,
      .timerInterrupt, .afterInterrupt]
    let t := effects (afterBoot none 0 0) ops
    let t' := effects ((afterBoot none 0 0).withQuantum 1 2) ops
    t.threadRunningVar = .block 0 ∧ t'.threadRunningVar = t.threadRunningVar := by
  intro ops t t'
  have hset : Step (afterBoot none 0 0) (.scheduleSetQuantum 1 2) _ :=
    step_of_allowed (afterBoot_inv none 0 0) trivial rfl
  have hinv₁ := (hset.moves (afterBoot_inv none 0 0)).inv (afterBoot_inv none 0 0)
  have hfifo : Run Step _ ops t := run_of_allows (afterBoot_inv none 0 0) (by decide +kernel)
  have hrr : Run Step _ ops t' := run_of_allows hinv₁ (by decide +kernel)
  have hlog : ∀ o ∈ t.trace, ∀ d ∈ (createdIn [o]).map Prod.snd, d ≤ 2 := by decide +kernel
  have hmost : ∀ a tid d, .created a tid d ∈ t.trace → d ≤ (2 : Int32).toInt := by
    intro a tid d hmem
    have hle := hlog _ hmem d.toNat (by simp [createdIn])
    show d ≤ 2
    omega
  have h := large_quantum_is_fifo (booted_iff.mpr ⟨none, 0, 0, rfl⟩) rfl (by decide) hset
    (by simp [ops, Op.KeepsQuantum]) hfifo hrr hmost
  exact ⟨by decide +kernel, h.1⟩

end PicoOS
