/-
# `PicoOS.Sched.ExitTicks` — ticks while a thread exits

`thread_exit` never disables interrupts.  Up to `status = THREAD_DYING` a tick
is harmless (`Leaving`), and from `thread_running_var = t` on it is harmless
again (`Entered`).  In between the current thread is DYING, `thread_tick` calls
`thread_current`, and that panics.  The statements before which this happens
are the `switchWindow`: `thread_exit` frees the thread once, leaves it in no
list and returns with a RUNNING thread exactly if no tick comes in there.
-/
import PicoOS.Sched.Interrupts

namespace PicoOS

open Interruptible

/-- How often the block at `a` was freed. -/
def State.frees (s : State) (a : Addr) : Nat :=
  s.trace.countP fun o =>
    match o with
    | .freed b _ => b = a
    | _ => false

/-- The statements between `status = THREAD_DYING` and the switch. -/
def switchWindow : List Site :=
  [.scheduleCur, .nextTest, .nextReturn, .scheduleAssertCur, .scheduleAssertNext, .switchSave,
    .switchLoad, .setRunningStatus, .setRunningVar]

/-- No tick is pending in the window. -/
def WindowClear (n : Point → Nat) : Prop := ∀ site ∈ switchWindow, n ⟨site, .body⟩ = 0

instance (n : Point → Nat) : Decidable (WindowClear n) :=
  inferInstanceAs (Decidable (∀ site ∈ switchWindow, _))

/-- The thread at `c`, freed `k` times before, has exited: it was freed once more, is in no list,
and a RUNNING thread is current. -/
structure Departed (c : Addr) (k : Nat) (s : State) : Prop where
  frees : s.frees c = k + 1
  heap : s.heap c = none
  notReady : c ∉ s.readyList
  notEspera : c ∉ s.listaEspera
  notAll : c ∉ s.allList
  running : s.statusOf s.threadRunningVar = some .running

/-! ## Before the thread is dying -/

/-- The thread at `c` is current and about to exit; `registered` is whether it is on
`all_list`. -/
structure Leaving (c : Addr) (k : Nat) (registered : Prop) (s : State) : Prop extends Midway s where
  cur : s.threadRunningVar = c
  worker : s.worker c
  intr : s.intrEnabled = true
  frees : s.frees c = k
  all : c ∈ s.allList ↔ registered

theorem State.frees_wakeOne (c a : Addr) (s : State) : (s.wakeOne a).frees c = s.frees c := by
  simp [State.frees, State.wakeOne, State.enqueue, State.log, State.setStatus, State.mapThread]

theorem State.frees_ticked (c : Addr) (s : State) : s.ticked.frees c = s.frees c :=
  State.ticked_frame (f := fun s => s.frees c) (by simp [State.frees, State.charge])
    (State.frees_wakeOne c)

section Leaving

variable {c : Addr} {k : Nat} {r : Prop} {n : Point → Nat} {s : State}

theorem Leaving.ticked (h : Leaving c k r s) : Leaving c k r s.ticked where
  toMidway := h.toMidway.ticked
  cur := s.ticked_current.trans h.cur
  worker := s.ticked_worker c ▸ h.worker
  intr := s.ticked_intr.trans h.intr
  frees := (s.frees_ticked c).trans h.frees
  all := s.ticked_all ▸ h.all

theorem Leaving.stable : TickStable (Leaving c k r) :=
  .of_midway (fun _ h => h.toMidway) (fun _ h => h.ticked)

theorem Leaving.midway (s : State) (h : Leaving c k r s) : Midway s ∧ s.threadRunningVar = c :=
  ⟨h.toMidway, h.cur⟩

/-- The condition of `thread_exit` holds, whatever comes in while it is evaluated. -/
theorem Leaving.exitTest {E : Fault → Prop} (h : Leaving c k r s) :
    EndsTicked n exitTest (fun b s' => b = true ∧ Leaving c k r s') E s := by
  unfold PicoOS.exitTest
  refine ends_threadCurrent stable midway h fun s₁ h₁ => ?_
  refine ends_step stable h₁ fun s₂ h₂ => ⟨true, s₂, ?_, ?_⟩
  · rw [reads, decide_eq_true h₂.worker.2]
  refine ends_threadCurrent stable midway h₂ fun s₃ h₃ => ?_
  refine ends_last stable h₃ fun s₄ h₄ => ⟨true, s₄, ?_, rfl, h₄⟩
  rw [reads, decide_eq_true h₄.worker.1.symm]

theorem Leaving.unregister (h : Leaving c k True s) : Leaving c k False s.unregister where
  toLinked := h.toLinked.unregister h.not_ready h.not_espera (h.cur ▸ h.worker)
  current := h.current.of_heap rfl rfl
  notInitial := h.notInitial
  cur := h.cur
  worker := h.worker
  intr := h.intr
  frees := by
    rw [← h.frees]
    simp [State.frees, State.unregister, State.log]
  all := by
    refine ⟨fun hmem => ?_, False.elim⟩
    rw [← h.cur] at hmem
    exact h.allNodup.not_mem_erase hmem

end Leaving

/-! ## In the window -/

/-- The current thread is not RUNNING, with interrupts on: a tick panics. -/
def Fatal (s : State) : Prop :=
  s.intrEnabled = true ∧ ∃ th, s.heap s.threadRunningVar = some th ∧ th.magic = threadMagic ∧
    th.status ≠ .running

/-- A statement in the window: no tick is pending there, or the run ends in the panic. -/
theorem ends_fatal {α β : Type} {n : Point → Nat} {Q : α → State → Prop} {s s' : State}
    {site : Site} {act : State → Except Fault (β × State)} {k : β → Code α} {b : β}
    (hsite : site ∈ switchWindow) (hs : Fatal s) (ha : act s = .ok (b, s'))
    (hk : n ⟨site, .body⟩ = 0 → EndsTicked n (k b) Q (fun _ => ¬ WindowClear n) s') :
    EndsTicked n (.stmt ⟨site, .body⟩ act k) Q (fun _ => ¬ WindowClear n) s := by
  obtain ⟨hintr, th, hth, hm, hst⟩ := hs
  exact Ends.stmt_fatal hintr (tick_panics hth hm hst) (fun hn hw => hn (hw site hsite)) ha hk

/-! ## After the switch -/

/-- `switch_threads_c` has switched away from the thread at `c`, which is dying; `m` is the current
thread. -/
structure Entered (c m : Addr) (k : Nat) (s : State) : Prop extends Midway s where
  cur : s.threadRunningVar = m
  other : c ≠ m
  notInitialThread : c ≠ s.initialThread
  intr : s.intrEnabled = true
  dying : s.statusOf c = some .dying
  frees : s.frees c = k
  all : c ∉ s.allList

section Entered

variable {c m : Addr} {k : Nat} {n : Point → Nat} {s : State}

theorem Entered.ticked (h : Entered c m k s) : Entered c m k s.ticked where
  toMidway := h.toMidway.ticked
  cur := s.ticked_current.trans h.cur
  other := h.other
  notInitialThread := by
    rw [State.ticked_frame (f := State.initialThread) rfl fun _ _ => rfl]
    exact h.notInitialThread
  intr := s.ticked_intr.trans h.intr
  dying := by
    rw [State.ticked_statusOf fun hm => h.all (h.espera c hm).2.2]
    exact h.dying
  frees := (s.frees_ticked c).trans h.frees
  all := s.ticked_all ▸ h.all

theorem Entered.stable : TickStable (Entered c m k) :=
  .of_midway (fun _ h => h.toMidway) (fun _ h => h.ticked)

/-- `cur->status = THREAD_RUNNING`, said once more. -/
theorem Entered.setRunning (h : Entered c m k s) : Entered c m k (s.setStatus m .running) := by
  obtain ⟨th, hth, hm, -⟩ := h.current
  refine ⟨⟨?_, ⟨{ th with status := .running }, ?_, hm, rfl⟩, h.notInitial⟩, h.cur, h.other,
    h.notInitialThread, h.intr, ?_, h.frees, h.all⟩
  · refine h.toLinked.setStatus_off ?_ ?_ .running
    · exact h.cur ▸ h.not_ready
    · exact h.cur ▸ h.not_espera
  · refine (State.setStatus_heap _ _ _ _).trans ((if_pos h.cur).trans ?_)
    exact congrArg _ hth
  · rw [State.statusOf_setStatus, if_neg h.other]
    exact h.dying

theorem Entered.newSlice (h : Entered c m k s) : Entered c m k { s with threadTicks := 0 } :=
  ⟨⟨⟨h.readyNodup, h.esperaNodup, h.allNodup, h.ready, h.espera, h.live, h.magic, h.idle, h.initial,
    h.tids⟩, h.current.of_heap rfl rfl, h.notInitial⟩, h.cur, h.other, h.notInitialThread, h.intr,
    h.dying, h.frees, h.all⟩

/-- `free (prev)`. -/
theorem Entered.release (h : Entered c m k s) : Departed c k (s.release c) where
  frees := by
    rw [← h.frees]
    simp [State.frees, State.release, State.log]
  heap := Function.update_self ..
  notReady hm := h.all (h.ready c hm).2.2
  notEspera hm := h.all (h.espera c hm).2.2
  notAll := h.all
  running := by
    have hne : s.threadRunningVar ≠ c := fun he => h.other (he.symm.trans h.cur)
    rw [← h.current.status]
    exact congrArg (Option.map Thread.status) (Function.update_of_ne hne _ _)

/-- `thread_schedule_tail` frees the dying thread, whatever ticks come in. -/
theorem Entered.threadScheduleTail {E : Fault → Prop} (h : Entered c m k s) :
    EndsTicked n (PicoOS.threadScheduleTail (some c)) (fun _ => Departed c k) E s := by
  unfold PicoOS.threadScheduleTail
  refine ends_step stable h fun s₁ h₁ => ⟨m, s₁, ?_, ?_⟩
  · rw [reads_runningThread, h₁.cur]
  refine ends_step stable h₁ fun s₂ h₂ => ⟨(), s₂.setStatus m .running, ?_, ?_⟩
  · obtain ⟨th, hth, -⟩ := h₂.current
    exact stores_ok (h₂.cur ▸ hth)
  refine ends_step stable h₂.setRunning fun s₃ h₃ => ⟨(), _, rfl, ?_⟩
  refine ends_step stable h₃.newSlice fun s₄ h₄ => ⟨true, s₄, ?_, ?_⟩
  · obtain ⟨th, hth, hd⟩ := State.statusOf_eq_some.mp h₄.dying
    simp [derefs, status_ok hth, hd, h₄.notInitialThread, Except.map]
  refine ends_step stable h₄ fun s₅ h₅ => ⟨(), s₅, asserts_ok (by simp [h₅.other]), ?_⟩
  refine ends_last stable h₅ fun s₆ h₆ => ⟨(), s₆.release c, ?_, h₆.release⟩
  obtain ⟨th, hth, -⟩ := State.statusOf_eq_some.mp h₆.dying
  exact free_ok hth

end Entered

/-! ## Through the window -/

section Switch

variable {c : Addr} {k : Nat} {n : Point → Nat} {s : State}

/-- The thread that exits is dying, and another one is next. -/
theorem Leaving.dying (h : Leaving c k False s) :
    Linked (s.setStatus c .dying) ∧ (s.setStatus c .dying).statusOf c = some .dying ∧
      c ≠ (s.setStatus c .dying).succ := by
  have hall : c ∉ s.allList := h.all.mp
  have hl : Linked (s.setStatus c .dying) :=
    h.toLinked.setStatus_off (h.cur ▸ h.not_ready) (h.cur ▸ h.not_espera) .dying
  refine ⟨hl, ?_, fun he => hall (he ▸ hl.succ_spec.1)⟩
  rw [← h.cur]
  exact h.current.setCurrent_status .dying

/-- `schedule`, called by a dying thread. -/
theorem Leaving.schedule (h : Leaving c k False s) :
    EndsTicked n PicoOS.schedule (fun _ s' => Departed c k s' ∧ WindowClear n)
      (fun _ => ¬ WindowClear n) (s.setStatus c .dying) := by
  obtain ⟨hl, hd, hne⟩ := h.dying
  generalize hv : s.setStatus c .dying = v at hl hd hne
  have hcur : v.threadRunningVar = c := hv ▸ h.cur
  have hintr : v.intrEnabled = true := hv ▸ h.intr
  obtain ⟨th, hth, hst⟩ := State.statusOf_eq_some.mp hd
  obtain ⟨nx, hnx, hmagic⟩ := hl.switchable.heap
  have hfatal : ∀ w : State, w.threadRunningVar = c → w.intrEnabled = true →
      w.heap c = some th → Fatal w := by
    intro w hw hi hheap
    exact ⟨hi, th, hw ▸ hheap, hl.magic c th hth, by rw [hst]; decide⟩
  have hset : (v.choose.setStatus v.succ .running).heap c = some th :=
    (State.setStatus_heap _ _ _ _).trans ((if_neg hne).trans hth)
  have hf₁ : Fatal v := hfatal v hcur hintr hth
  have hf₂ : Fatal v.choose := hfatal _ hcur hintr hth
  have hf₃ : Fatal (v.choose.setStatus v.succ .running) := hfatal _ hcur hintr hset
  have hnext : nextOf v.readyList.isEmpty v = .ok (some v.succ, v.choose) := by
    rw [nextOf_ok, hl.switchable.succ]
  have hstat : (status v.threadRunningVar v.choose).map (· != .running) = .ok true := by
    rw [hcur, status_ok (show v.choose.heap c = some th from hth), hst]
    rfl
  have hentered : Entered c v.succ k v.switched := by
    refine ⟨⟨hl.switched, hl.switched_current, hl.succ_spec.2.1⟩, rfl, hne, ?_, hintr, ?_, ?_, ?_⟩
    · exact hv ▸ h.worker.2
    · exact (State.statusOf_setStatus _ _ _ _).trans ((if_neg hne).trans hd)
    · rw [← h.frees]
      simp [State.frees, State.switched, State.choose, State.log, State.setStatus,
        State.mapThread, ← hv]
    · exact hv ▸ h.all.mp
  unfold PicoOS.schedule
  refine ends_fatal (by decide) hf₁ (reads_runningThread v) fun z₁ => ?_
  refine ends_fatal (by decide) hf₁ rfl fun z₂ => ?_
  refine ends_fatal (by decide) hf₁ hnext fun z₃ => ?_
  refine ends_fatal (by decide) hf₂ (asserts_ok hstat) fun z₄ => ?_
  refine ends_fatal (by decide) hf₂ (asserts_ok (isThread_ok hnx hmagic)) fun z₅ => ?_
  dsimp only [Prog.bind]
  rw [if_pos (hcur ▸ hne)]
  refine ends_fatal (by decide) hf₂ (touches_ok (hcur ▸ hth)) fun z₆ => ?_
  refine ends_fatal (by decide) hf₂ (touches_ok hnx) fun z₇ => ?_
  refine ends_fatal (by decide) hf₂ (stores_ok hnx) fun z₈ => ?_
  refine ends_fatal (by decide) hf₃ rfl fun z₉ => ?_
  have hclear : WindowClear n := by
    intro site hsite
    simp only [switchWindow, List.mem_cons, List.not_mem_nil, or_false] at hsite
    rcases hsite with rfl | rfl | rfl | rfl | rfl | rfl | rfl | rfl | rfl <;> assumption
  rw [hcur]
  exact Ends.mono hentered.threadScheduleTail fun _ _ hd => ⟨hd, hclear⟩

theorem Leaving.exitCurrent (h : Leaving c k True s) :
    EndsTicked n PicoOS.exitCurrent (fun _ s' => Departed c k s' ∧ WindowClear n)
      (fun _ => ¬ WindowClear n) s := by
  unfold PicoOS.exitCurrent
  refine ends_threadCurrent stable midway h fun s₁ h₁ => ?_
  refine ends_step stable h₁ fun s₂ h₂ => ⟨(), s₂.unregister, ?_, ?_⟩
  · obtain ⟨th, hth, -⟩ := h₂.current
    have hmem : c ∈ s₂.allList := h₂.all.mpr trivial
    simp [removeAll, hmem, h₂.cur ▸ hth, State.unregister, State.tidOf, h₂.cur]
  refine ends_threadCurrent stable midway h₂.unregister fun s₃ h₃ => ?_
  refine ends_step stable h₃ fun s₄ h₄ => ⟨(), s₄, h₄.cur ▸ h₄.current.touches, ?_⟩
  refine ends_threadCurrent stable midway h₄ fun s₅ h₅ => ?_
  refine ends_step stable h₅ fun s₆ h₆ => ⟨(), s₆.setStatus c .dying, ?_, h₆.schedule⟩
  exact h₆.cur ▸ h₆.current.stores _

/-- `thread_exit` with ticks pending: if it returns the thread is gone and no tick was pending in
the window, and if it panics one was. -/
theorem Leaving.threadExit (h : Leaving c k True s) :
    EndsTicked n PicoOS.threadExit (fun _ s' => Departed c k s' ∧ WindowClear n)
      (fun _ => ¬ WindowClear n) s := by
  unfold PicoOS.threadExit
  refine Ends.bind h.exitTest fun b s' hb => ?_
  obtain ⟨rfl, hs'⟩ := hb
  exact hs'.exitCurrent

end Switch

/-! ## Exactly when ticks are harmless -/

theorem Reachable.leaving {s : State} (hs : Reachable s) (hw : s.worker s.threadRunningVar) :
    Leaving s.threadRunningVar (s.frees s.threadRunningVar) True s where
  toMidway := hs.inv.midway
  cur := rfl
  worker := hw
  intr := hs.intr
  frees := rfl
  all := iff_true_intro (hs.inv.registered _ hs.inv.live_current)

/-- With any number of ticks anywhere in `thread_exit`, the current thread is freed once, is in no
list and leaves a RUNNING thread behind exactly if no tick comes in between
`status = THREAD_DYING` and the switch. -/
theorem exit_clean_iff {s : State} (hs : Reachable s) (hw : s.worker s.threadRunningVar)
    (n : Point → Nat) :
    (∃ s', withTicks n threadExit s = .ok ((), s') ∧
      Departed s.threadRunningVar (s.frees s.threadRunningVar) s') ↔ WindowClear n := by
  have hends := (hs.leaving hw).threadExit (n := n)
  unfold EndsTicked Ends at hends
  show (∃ s', runWith State.intrEnabled tick n threadExit s = _ ∧ _) ↔ _
  cases hr : runWith State.intrEnabled tick n threadExit s with
  | error e =>
      rw [hr] at hends
      refine ⟨?_, fun hc => absurd hc hends⟩
      rintro ⟨s', hs', -⟩
      cases hs'
  | ok r =>
      rw [hr] at hends
      exact ⟨fun _ => hends.2, fun _ => ⟨r.2, rfl, hends.1⟩⟩

/-- A worker is current. -/
theorem reachable_one_worker :
    let s := effects (afterBoot none 0 0) [.threadCreate .other (some 1) 5]
    Reachable s ∧ s.worker s.threadRunningVar := by
  exact ⟨⟨_, _, booted_iff.mpr ⟨none, 0, 0, rfl⟩,
    run_of_allows (afterBoot_inv none 0 0) (by decide +kernel)⟩, by decide +kernel⟩

/-- Two ticks before the thread is dying and one after the switch do no harm. -/
theorem exit_clean_three_ticks :
    let s := effects (afterBoot none 0 0) [.threadCreate .other (some 1) 5]
    let n : Point → Nat := fun pc =>
      if pc = ⟨.exitPrintf, .body⟩ then 2 else if pc = ⟨.tailTest, .body⟩ then 1 else 0
    ∃ s', withTicks n threadExit s = .ok ((), s') ∧ Departed (.block 1) 0 s' := by
  intro s n
  exact (exit_clean_iff reachable_one_worker.1 reachable_one_worker.2 n).mpr (by decide)

/-- One tick right after `status = THREAD_DYING` panics. -/
theorem exit_tick_panics :
    let s := effects (afterBoot none 0 0) [.threadCreate .other (some 1) 5]
    let n : Point → Nat := fun pc => if pc = ⟨.scheduleCur, .body⟩ then 1 else 0
    Reachable s ∧ s.worker s.threadRunningVar ∧
      withTicks n threadExit s =
        .error (.assert "thread_current" "t->status == THREAD_RUNNING") ∧
      ¬ ∃ s', withTicks n threadExit s = .ok ((), s') ∧
        Departed s.threadRunningVar (s.frees s.threadRunningVar) s' := by
  intro s n
  have hrun : withTicks n threadExit s = .error notRunning := rfl
  refine ⟨reachable_one_worker.1, reachable_one_worker.2, hrun, ?_⟩
  rintro ⟨s', hs', -⟩
  rw [hrun] at hs'
  cases hs'

end PicoOS
