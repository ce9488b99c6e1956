/-
# `PicoOS.Sched.ForcedExit` — whom `thread_exit_on_return` removes

The callback that sets `thread_exit_on_return` means the thread that is current
then.  `after_interrupt` looks at the flag last, when it may already have taken
the processor from that thread, and asks the thread current at that point to exit:
after a preemption that is the next thread of `ready_list`, and after an expiry a
second thread goes with the first.  If the thread it finds happens to have
`duration_ticks == 0` the flag is not even cleared.

`forced_exit_iff` says in which states the right thread is removed.
-/
import PicoOS.Sched.Ops

namespace PicoOS

open Runs

/-! ## The property -/

/-- From `s` to `t` the thread current in `s` was removed, no other was, and the request is
cleared. -/
structure ForcedOut (s t : State) : Prop where
  gone : s.threadRunningVar ∉ t.allList
  others : ∀ a ∈ s.allList, a ≠ s.threadRunningVar → a ∈ t.allList
  cleared : t.threadExitOnReturn = 0

/-- The current thread has ticks left and is not about to be preempted; or it has none left, no
other thread is ready and the `duration_ticks` of the idle thread are not 0. -/
def State.Forceable (s : State) : Prop :=
  (0 < s.durationOf s.threadRunningVar ∧ ¬ s.preempted) ∨
    (s.durationOf s.threadRunningVar ≤ 0 ∧ s.readyList = [] ∧
      ∀ i, s.idleThread = some i → s.durationOf i ≠ 0)

/-! ## The current thread exits -/

section Exit

variable {s : State}

theorem exited_all (hw : s.worker s.threadRunningVar) :
    s.exited.allList = s.allList.erase s.threadRunningVar := by
  rw [State.exited, if_pos hw]
  rfl

/-- A thread that is not current does not exit. -/
theorem mem_exited {a : Addr} (ha : a ∈ s.allList) (hne : a ≠ s.threadRunningVar) :
    a ∈ s.exited.allList := by
  unfold State.exited
  split_ifs
  · exact (List.mem_erase_of_ne hne).mpr ha
  · rw [s.yielded_all]
    exact ha

theorem mem_forced {a : Addr} (ha : a ∈ s.allList) (hne : a ≠ s.threadRunningVar) :
    a ∈ s.forced.allList := by
  unfold State.forced
  split_ifs
  · exact mem_exited ha hne
  · exact ha

/-- What is left when a worker exits. -/
theorem exited_spec (hw : s.worker s.threadRunningVar) :
    s.exited.threadRunningVar = s.succ ∧ s.exited.readyList = s.readyList.tail ∧
      s.exited.threadExitOnReturn = s.threadExitOnReturn ∧
      ∀ a, a ≠ s.threadRunningVar → s.exited.durationOf a = s.durationOf a := by
  rw [State.exited, if_pos hw]
  refine ⟨rfl, rfl, rfl, fun a hne => ?_⟩
  have hkept : ¬ (s.unregister.setCurrent .dying).reaped a := fun hr => hne hr.1
  exact (State.durationOf_dispatch hkept).trans (State.durationOf_setStatus ..)

/-- A thread that yields to another is not current any more. -/
theorem yielded_current (hs : Inv s) (hr : s.readyList ≠ []) :
    s.yielded.threadRunningVar ≠ s.threadRunningVar := by
  obtain ⟨a, rest, hcons⟩ := List.exists_cons_of_ne_nil hr
  have hnext : (s.requeued.setStatus s.threadRunningVar .ready).next = some a := by
    refine (s.requeued_next hr).trans ?_
    rw [State.next, hcons]
  have hcur : s.yielded.threadRunningVar = a := by
    rw [State.yielded, if_neg hr]
    show (s.requeued.setStatus s.threadRunningVar .ready).succ = a
    rw [State.succ, hnext]
    rfl
  rw [hcur]
  rintro rfl
  exact hs.not_ready (hcons ▸ List.mem_cons_self ..)

end Exit

/-! ## The four ways through `after_interrupt` -/

section Cases

variable {s : State}

theorem forcedOut_untouched (hs : Inv s) (hw : s.worker s.threadRunningVar)
    (he : s.threadExitOnReturn ≠ 0) (hd : 0 < s.durationOf s.threadRunningVar) :
    ForcedOut s s.forced := by
  have hforced : s.forced = { s.exited with threadExitOnReturn := 0 } :=
    if_pos ⟨he, Int.ne_of_gt hd⟩
  rw [hforced]
  refine ⟨fun hin => ?_, fun a ha hne => mem_exited ha hne, rfl⟩
  have hin' : s.threadRunningVar ∈ s.exited.allList := hin
  rw [exited_all hw] at hin'
  exact hs.allNodup.not_mem_erase hin'

theorem not_forcedOut_preempted (hs : Inv s) (hp : s.preempted) : ¬ ForcedOut s s.yielded.forced := by
  intro h
  refine h.gone (mem_forced ?_ (yielded_current hs hp.2.1).symm)
  rw [s.yielded_all]
  exact hs.registered _ hs.live_current

/-- The current thread expires and the idle thread takes over: it stays, and clears the request
unless its own ticks are 0. -/
theorem forcedOut_alone_iff (hs : Inv s) (hw : s.worker s.threadRunningVar)
    (he : s.threadExitOnReturn ≠ 0) (hr : s.readyList = []) {i : Addr}
    (hi : s.idleThread = some i) :
    ForcedOut s s.exited.forced ↔ s.durationOf i ≠ 0 := by
  obtain ⟨hcur, hready, hflag, hdur⟩ := exited_spec hw
  have hic : i ≠ s.threadRunningVar := by
    rintro rfl
    exact hw.1 hi
  have hsucc : s.exited.threadRunningVar = i := hcur.trans (State.succ_nil hr hi)
  constructor
  · intro h h0
    have hsame : s.exited.forced = s.exited := by
      refine if_neg fun hf => hf.2 ?_
      rw [hsucc, hdur i hic]
      exact h0
    have hclear := h.cleared
    rw [hsame, hflag] at hclear
    exact he hclear
  · intro hne
    have hforced : s.exited.forced = { s.exited.exited with threadExitOnReturn := 0 } := by
      refine if_pos ⟨hflag ▸ he, ?_⟩
      rw [hsucc, hdur i hic]
      exact hne
    have hidle : s.exited.idleThread = some s.exited.threadRunningVar := by
      rw [hsucc, ← hi, State.exited, if_pos hw]
      rfl
    have hall : s.exited.exited.allList = s.allList.erase s.threadRunningVar := by
      rw [State.exited, if_neg fun hw' => hw'.1 hidle, State.yielded_all, exited_all hw]
    rw [hforced]
    refine ⟨fun hin => ?_, fun a ha hne => ?_, rfl⟩
    · have hin' : s.threadRunningVar ∈ s.exited.exited.allList := hin
      rw [hall] at hin'
      exact hs.allNodup.not_mem_erase hin'
    · show a ∈ s.exited.exited.allList
      rw [hall]
      exact (List.mem_erase_of_ne hne).mpr ha

/-- The current thread expires and another takes over: either it has to go too, or the request
stays. -/
theorem not_forcedOut_followed (hs : Inv s) (hw : s.worker s.threadRunningVar)
    (he : s.threadExitOnReturn ≠ 0) (hr : s.readyList ≠ []) : ¬ ForcedOut s s.exited.forced := by
  obtain ⟨hcur, -, hflag, -⟩ := exited_spec hw
  obtain ⟨a, rest, hcons⟩ := List.exists_cons_of_ne_nil hr
  have hmem : a ∈ s.readyList := hcons ▸ List.mem_cons_self ..
  have hsucc : s.exited.threadRunningVar = a := hcur.trans (State.succ_cons hcons)
  have hac : a ≠ s.threadRunningVar := by
    rintro rfl
    exact hs.not_ready hmem
  have hwa : s.exited.worker s.exited.threadRunningVar := by
    rw [hsucc, State.exited, if_pos hw]
    exact (hs.ready a hmem).2.1
  intro h
  by_cases hd : s.exited.durationOf s.exited.threadRunningVar = 0
  · have hclear := h.cleared
    rw [State.forced, if_neg fun hf => hf.2 hd, hflag] at hclear
    exact he hclear
  · have hkept := h.others a (hs.ready a hmem).2.2 hac
    have hin : a ∈ s.exited.exited.allList := by
      rwa [State.forced, if_pos ⟨hflag ▸ he, hd⟩] at hkept
    rw [exited_all hwa, hsucc, exited_all hw] at hin
    exact (hs.allNodup.erase _).not_mem_erase hin

end Cases

/-! ## Forced exits -/

/-- In a reachable state with the flag set and a thread other than the idle one current,
`after_interrupt` returns, and removes that thread, no other, and the request with it, exactly if
the state is `Forceable`. -/
theorem forced_exit_iff {s : State} (h : Reachable s)
    (hi : s.idleThread ≠ some s.threadRunningVar) (he : s.threadExitOnReturn ≠ 0) :
    ∃ t, exec .afterInterrupt s = .ok t ∧ (ForcedOut s t ↔ s.Forceable) := by
  have hs := h.inv
  have hw : s.worker s.threadRunningVar := hs.worker_of_not_idle hi
  obtain ⟨i, hidle, -, -⟩ := hs.idle
  refine ⟨s.polled, exec_ok hs trivial rfl, ?_⟩
  rw [State.polled, State.idleBlocked, if_neg hi, State.expired]
  by_cases hd : s.durationOf s.threadRunningVar ≤ 0
  · rw [if_pos hd]
    by_cases hr : s.readyList = []
    · rw [forcedOut_alone_iff hs hw he hr hidle]
      constructor
      · intro hne
        refine .inr ⟨hd, hr, fun j hj => ?_⟩
        cases hidle.symm.trans hj
        exact hne
      · rintro (⟨hpos, -⟩ | ⟨-, -, hne⟩)
        · exact absurd hd (Int.not_le.mpr hpos)
        · exact hne i hidle
    · refine iff_of_false (not_forcedOut_followed hs hw he hr) ?_
      rintro (⟨hpos, -⟩ | ⟨-, hnil, -⟩)
      · exact Int.not_le.mpr hpos hd
      · exact hr hnil
  · rw [if_neg hd]
    by_cases hp : s.preempted
    · rw [if_pos hp]
      refine iff_of_false (not_forcedOut_preempted hs hp) ?_
      rintro (⟨-, hnot⟩ | ⟨hle, -⟩)
      · exact hnot hp
      · exact hd hle
    · rw [if_neg hp]
      exact iff_of_true (forcedOut_untouched hs hw he (Int.not_le.mp hd))
        (.inl ⟨Int.not_le.mp hd, hp⟩)

/-- Two threads, first in first out, one tick in: the request is for the first, and the first
goes. -/
theorem forced_exit_two_threads :
    let s := effects (afterBoot none 0 0) [.threadCreate .other (some 1) 5,
      .threadCreate .other (some 2) 5, .timerInterrupt, .setThreadExitOnReturn]
    s.Forceable ∧ ∃ t, exec .afterInterrupt s = .ok t ∧ ForcedOut s t := by
  have hrun : Run Step (afterBoot none 0 0) [.threadCreate .other (some 1) 5,
      .threadCreate .other (some 2) 5, .timerInterrupt, .setThreadExitOnReturn] _ :=
    run_of_allows (afterBoot_inv none 0 0) (by decide +kernel)
  have hforce : (effects (afterBoot none 0 0) [.threadCreate .other (some 1) 5,
      .threadCreate .other (some 2) 5, .timerInterrupt, .setThreadExitOnReturn]).Forceable :=
    .inl (by decide +kernel)
  obtain ⟨t, ht, hiff⟩ := forced_exit_iff ⟨_, _, booted_iff.mpr ⟨none, 0, 0, rfl⟩, hrun⟩
    (by decide +kernel) (by decide +kernel)
  exact ⟨hforce, t, ht, hiff.mpr hforce⟩

/-- With a quantum of one tick the first thread is preempted, and the second goes in its place. -/
theorem forced_exit_misses : ¬ ∀ s t, Reachable s → s.idleThread ≠ some s.threadRunningVar →
    s.threadExitOnReturn ≠ 0 → Step s .afterInterrupt t → ForcedOut s t := by
  intro h
  let ops : List Op := [.threadCreate .other (some 1) 5, .threadCreate .other (some 2) 5,
    .timerInterrupt, .setThreadExitOnReturn]
  have hrun : Run Step (afterBoot (some 1) 0 0) ops (effects (afterBoot (some 1) 0 0) ops) :=
    run_of_allows (afterBoot_inv (some 1) 0 0) (by decide +kernel)
  have hs := inv_of_run hrun (afterBoot_inv (some 1) 0 0)
  have hout := h _ _ ⟨_, ops, booted_iff.mpr ⟨some 1, 0, 0, rfl⟩, hrun⟩ (by decide +kernel)
    (by decide +kernel) (step_of_allowed hs trivial rfl)
  exact hout.gone (by decide +kernel)

end PicoOS
