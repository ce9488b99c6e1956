/-
# `PicoOS.Synch.Port` — `sema_down` on this port's `thread_block`

The loop of `sema_down` for a value of zero.  Every round stops the current thread and
dispatches the next one, which the next round stops: the loop goes through `ready_list`
to the idle thread, and has nobody left to stop when it finds that one for the second
time.
-/
import PicoOS.Sched.MainLoop
import PicoOS.Synch.Code

namespace PicoOS.Synch

/-! ## The rounds -/

variable {k : Kernel}

/-- The current thread waits, and the next one runs. -/
def Kernel.stopped (k : Kernel) : Kernel :=
  { k with sched := k.sched.blocked, waiters := k.waiters ++ [k.sched.threadRunningVar] }

theorem round_eq (h : Midway k.sched) (hw : k.sched.threadRunningVar ∉ k.waiters) :
    round k = .ok k.stopped := by
  have hl : k.sched.linked k.sched.threadRunningVar = false := by
    simp [State.linked, h.not_ready, h.not_espera]
  simp [round, pushWaiter, run_threadCurrent h.current, run_threadBlock h.current
    h.toLinked.switchable, hl, hw, Kernel.stopped, bind, Except.bind, pure, Except.pure]

theorem round_relinked (h : Midway k.sched) (hw : k.sched.threadRunningVar ∈ k.waiters) :
    round k = .error .relinked := by
  simp [round, pushWaiter, run_threadCurrent h.current, hw, bind, Except.bind]

/-- The first round, and the others. -/
theorem rounds_succ {n : Nat} {k' : Kernel} : rounds (n + 1) k = .ok k' ↔
    ∃ k₁, round k = .ok k₁ ∧ rounds n k₁ = .ok k' :=
  Fallible.ok_bind_iff

/-- Who waits is BLOCKED, but for the idle thread. -/
def Asleep (i : Addr) (k : Kernel) : Prop :=
  ∀ a ∈ k.waiters, a ≠ i → k.sched.statusOf a = some .blocked

/-- A thread that has stopped, after `thread_block` has switched to another one. -/
theorem blocked_status {s : PicoOS.State} (h : Midway s) {a : Addr}
    (ha : a = s.threadRunningVar ∨ s.statusOf a = some .blocked) (hne : a ≠ s.succ) :
    s.blocked.statusOf a = some .blocked := by
  by_cases hc : a = s.threadRunningVar
  · subst hc
    exact (State.statusOf_dispatch _ _).trans ((if_neg hne).trans
      ((if_neg (h.blocked_kept _)).trans (h.current.setCurrent_status .blocked)))
  · rw [State.blocked_statusOf hne hc]
    exact ha.resolve_left hc

theorem Asleep.stopped {i : Addr} (h : Asleep i k) (hm : Midway k.sched)
    (hne : ∀ a ∈ k.stopped.waiters, a ≠ i → a ≠ k.sched.succ) : Asleep i k.stopped := by
  intro a hmem hai
  refine blocked_status hm ?_ (hne a hmem hai)
  rcases List.mem_append.mp hmem with hmem | hmem
  · exact .inr (h a hmem hai)
  · exact .inl (List.mem_singleton.mp hmem)

theorem Kernel.stopped_ready (k : Kernel) :
    k.stopped.sched.readyList = k.sched.readyList.tail := rfl

/-- The loop puts the current thread and then every ready thread among the waiters, in their
order, and ends up with the idle thread. -/
theorem sweep {i : Addr} : ∀ (ready : List Addr) {k : Kernel}, k.sched.readyList = ready →
    Midway k.sched → k.sched.idleThread = some i →
    (∀ a ∈ k.sched.threadRunningVar :: ready, a ∉ k.waiters) → Asleep i k →
    ∃ k', rounds (ready.length + 1) k = .ok k' ∧ Midway k'.sched ∧
      k'.sched.readyList = [] ∧ k'.sched.threadRunningVar = i ∧ k'.sched.idleThread = some i ∧
      k'.waiters = k.waiters ++ k.sched.threadRunningVar :: ready ∧ Asleep i k'
  | [], k, hr, hm, hi, hw, ha => by
      have hsucc : k.sched.succ = i := State.succ_nil hr hi
      have hround := round_eq hm (hw _ (List.mem_cons_self ..))
      have hready : k.stopped.sched.readyList = [] := by rw [k.stopped_ready, hr, List.tail_nil]
      have hasleep : Asleep i k.stopped := ha.stopped hm fun a _ hai => by rwa [hsucc]
      exact ⟨_, rounds_succ.mpr ⟨_, hround, rfl⟩, hm.blocked.1, hready, hsucc, hi, rfl, hasleep⟩
  | r :: ready, k, hr, hm, hi, hw, ha => by
      have hsucc : k.sched.succ = r := State.succ_cons hr
      have hround := round_eq hm (hw _ (List.mem_cons_self ..))
      have hnr := hm.not_ready
      rw [hr] at hnr
      have hready : k.stopped.sched.readyList = ready := by
        rw [k.stopped_ready, hr, List.tail_cons]
      have hrun : k.stopped.sched.threadRunningVar = r := hsucc
      have hfresh : ∀ a ∈ k.stopped.sched.threadRunningVar :: ready, a ∉ k.stopped.waiters := by
        intro a hmem hmem'
        rw [hrun] at hmem
        rcases List.mem_append.mp hmem' with hmem' | hmem'
        · exact hw a (List.mem_cons_of_mem _ hmem) hmem'
        · exact hnr (List.mem_singleton.mp hmem' ▸ hmem)
      have hasleep : Asleep i k.stopped := by
        refine ha.stopped hm ?_
        rintro a hmem - rfl
        exact hfresh _ (List.mem_cons_self ..) hmem
      obtain ⟨k', hk', h₁, h₂, h₃, h₄, h₅, h₆⟩ :=
        sweep ready hready hm.blocked.1 hi hfresh hasleep
      refine ⟨k', rounds_succ.mpr ⟨_, hround, hk'⟩, h₁, h₂, h₃, h₄, ?_, h₆⟩
      rw [h₅, hrun]
      simp [Kernel.stopped]

theorem pushWaiter_value {t : Addr} {k' : Kernel} (h : pushWaiter t k = .ok k') :
    k'.value = k.value := by
  unfold pushWaiter at h
  split_ifs at h
  cases h
  rfl

/-- A round leaves the value as it is. -/
theorem round_value {k' : Kernel} (h : round k = .ok k') : k'.value = k.value := by
  obtain ⟨⟨t, s⟩, -, h⟩ := Fallible.ok_bind_iff.mp h
  obtain ⟨k₁, hpush, h⟩ := Fallible.ok_bind_iff.mp h
  obtain ⟨⟨_, s'⟩, -, h⟩ := Fallible.ok_bind_iff.mp h
  cases h
  have hv := pushWaiter_value hpush
  exact hv

theorem rounds_snoc : ∀ (n : Nat) {k k' : Kernel}, rounds n k = .ok k' →
    rounds (n + 1) k = round k'
  | 0, k, k', h => by
      cases h
      exact bind_pure (round k)
  | n + 1, k, k', h => by
      obtain ⟨k₁, hr, hk⟩ := rounds_succ.mp h
      rw [rounds, hr]
      exact rounds_snoc n hk

/-- What the loop does to a state between calls, up to the round that fails. -/
theorem exhausts {s : PicoOS.State} (hinv : Inv s) :
    ∃ n k i, rounds n ⟨s, 0, []⟩ = .ok k ∧ s.idleThread = some i ∧ k.sched.idleThread = some i ∧
      k.sched.readyList = [] ∧ k.sched.threadRunningVar = i ∧
      k.waiters = s.threadRunningVar :: s.readyList ++
        (if s.threadRunningVar = i then [] else [i]) ∧
      (∀ a ∈ k.waiters, a ≠ i → k.sched.statusOf a = some .blocked) ∧
      Midway k.sched ∧ round k = .error .relinked := by
  obtain ⟨i, hi, -, -⟩ := hinv.idle
  obtain ⟨k, hk, hm, hr, hcur, hidle, hw, ha⟩ := sweep (k := ⟨s, 0, []⟩) s.readyList rfl hinv.midway hi
    (fun _ _ => List.not_mem_nil) (fun _ hmem => absurd hmem List.not_mem_nil)
  have hready : ∀ a ∈ s.readyList, a ≠ i := by
    rintro a hmem rfl
    exact (hinv.ready a hmem).2.1.1 hi
  by_cases hci : s.threadRunningVar = i
  · refine ⟨_, k, i, hk, hi, hidle, hr, hcur, ?_, ha, hm, ?_⟩
    · rw [hw, if_pos hci, List.append_nil]
      rfl
    · exact round_relinked hm (by rw [hcur, hw, ← hci]; simp)
  · -- the idle thread is linked once, and stays current: there is nobody else
    have hnew : k.sched.threadRunningVar ∉ k.waiters := by
      rw [hcur, hw]
      intro hmem
      rcases List.mem_cons.mp hmem with he | hmem
      · exact hci he.symm
      · exact hready i hmem rfl
    have hk₁ := (rounds_snoc _ hk).trans (round_eq hm hnew)
    have hsucc : k.sched.succ = i := State.succ_nil hr hidle
    refine ⟨_, _, i, hk₁, hi, hidle, ?_, hsucc, ?_, ?_, hm.blocked.1, ?_⟩
    · rw [k.stopped_ready, hr, List.tail_nil]
    · show k.waiters ++ [k.sched.threadRunningVar] = _
      rw [hw, hcur, if_neg hci]
      rfl
    · exact ha.stopped hm fun a _ hai => by rwa [hsucc]
    · refine round_relinked hm.blocked.1 ?_
      show k.sched.succ ∈ k.waiters ++ [k.sched.threadRunningVar]
      rw [hsucc, hcur]
      simp

/-- The loop goes on until a round fails. -/
theorem semaDownLoop_eq {e : Fault} : ∀ {N n : Nat} {k k' : Kernel}, k.value = 0 →
    rounds N k = .ok k' → round k' = .error e →
    semaDownLoop n k = if n ≤ N then none else some (.error e) := by
  intro N n
  induction n generalizing N with
  | zero => exact fun _ _ _ => rfl
  | succ n ih =>
      intro k k' hv hk hk'
      rw [semaDownLoop, if_pos hv]
      cases N with
      | zero =>
          cases hk
          rw [hk']
          rfl
      | succ N =>
          obtain ⟨k₁, hr, hk₁⟩ := rounds_succ.mp hk
          rw [hr]
          simp only [Nat.succ_le_succ_iff]
          exact ih ((round_value hr).trans hv) hk₁ hk'

/-- In a state between calls. -/
theorem semaDownLoop_stuck {s : PicoOS.State} (hinv : Inv s) (n : Nat) :
    semaDownLoop n ⟨s, 0, []⟩ = none ∨ semaDownLoop n ⟨s, 0, []⟩ = some (.error .relinked) := by
  obtain ⟨N, k, i, hk, -, -, -, -, -, -, -, hfail⟩ := exhausts hinv
  rw [semaDownLoop_eq rfl hk hfail]
  split_ifs
  · exact .inl rfl
  · exact .inr rfl

/-- From every state of the scheduler, `sema_down` of a semaphore with value zero does not return:
it takes every thread that could run from the ready list, one after the other, and when the idle
thread's turn comes for the second time it links it twice. -/
theorem sema_down_never_returns {s : PicoOS.State} (h : PicoOS.Reachable s) :
    (∀ n k, semaDownLoop n ⟨s, 0, []⟩ ≠ some (.ok k)) ∧
    ∃ n k i, rounds n ⟨s, 0, []⟩ = .ok k ∧ s.idleThread = some i ∧ k.sched.readyList = [] ∧
      k.sched.threadRunningVar = i ∧
      k.waiters = s.threadRunningVar :: s.readyList ++
        (if s.threadRunningVar = i then [] else [i]) ∧
      (∀ a ∈ k.waiters, a ≠ i → k.sched.statusOf a = some .blocked) ∧
      rounds (n + 1) ⟨s, 0, []⟩ = .error .relinked := by
  refine ⟨fun n k he => ?_, ?_⟩
  · rcases semaDownLoop_stuck h.inv n with hn | hn
    · cases hn.symm.trans he
    · cases hn.symm.trans he
  · obtain ⟨n, k, i, hk, hi, -, hr, hcur, hw, ha, -, hfail⟩ := exhausts h.inv
    exact ⟨n, k, i, hk, hi, hr, hcur, hw, ha, (rounds_snoc n hk).trans hfail⟩

/-- The boot, with two more threads. -/
theorem sema_down_never_returns_two :
    let s := effects (afterBoot none 0 0) [.threadCreate .other (some 1) 5,
      .threadCreate .other (some 2) 5]
    s.threadRunningVar = .block 1 ∧ s.readyList = [.block 2] ∧
    (∀ n k, semaDownLoop n ⟨s, 0, []⟩ ≠ some (.ok k)) ∧
    ∃ n k i, rounds n ⟨s, 0, []⟩ = .ok k ∧ s.idleThread = some i ∧ k.sched.readyList = [] ∧
      k.sched.threadRunningVar = i ∧
      k.waiters = s.threadRunningVar :: s.readyList ++
        (if s.threadRunningVar = i then [] else [i]) ∧
      (∀ a ∈ k.waiters, a ≠ i → k.sched.statusOf a = some .blocked) ∧
      rounds (n + 1) ⟨s, 0, []⟩ = .error .relinked := by
  have h₀ : Booted (afterBoot none 0 0) := booted_iff.mpr ⟨none, 0, 0, rfl⟩
  have hallows : Allows (afterBoot none 0 0) [.threadCreate .other (some 1) 5,
      .threadCreate .other (some 2) 5] := by
    decide +kernel
  have hrun := run_of_allows h₀.inv hallows
  exact ⟨by decide +kernel, by decide +kernel, sema_down_never_returns ⟨_, _, h₀, hrun⟩⟩

end PicoOS.Synch
