/-
# `PicoOS.Sched.Specs` — the code computes its transformer

One theorem per function: run without interrupts, from a state in which it does
not fault, it ends in the state `PicoOS.Sched.Effects` gives.
-/
import PicoOS.Sched.Effects

namespace PicoOS

open Interruptible

/-! ## Single statements -/

section Step

variable {α β : Type} {site : Site} {act : State → Except Fault (β × State)} {k : β → Code α}
  {s s' : State} {b : β}

theorem run_step (h : act s = .ok (b, s')) : (stmt site act >>= k).run s = (k b).run s' :=
  Prog.run_stmt_ok h

theorem run_last (h : act s = .ok (b, s')) : (stmt site act).run s = .ok (b, s') :=
  Prog.run_stmt_ok h

end Step

theorem asserts_ok {f c : String} {p : State → Except Fault Bool} {s : State}
    (h : p s = .ok true) : asserts f c p s = .ok ((), s) := by
  simp only [asserts, h]

theorem asserts_fail {f c : String} {p : State → Except Fault Bool} {s : State}
    (h : p s = .ok false) : asserts f c p s = .error (.assert f c) := by
  simp only [asserts, h]

theorem stores_ok {a : Addr} {f : Thread → Thread} {s : State} {th : Thread}
    (h : s.heap a = some th) : stores a f s = .ok ((), s.mapThread a f) := by
  simp only [stores, h]

theorem touches_ok {a : Addr} {s : State} {th : Thread} (h : s.heap a = some th) :
    touches a s = .ok ((), s) := by
  simp [touches, State.load, h, Except.map]

/-! A statement that only reads leaves the state as it is. -/

theorem ok_of_map {β γ : Type} {x : Except Fault β} {g : β → γ} {r : γ} (h : x.map g = .ok r) :
    ∃ b, r = g b := by
  cases x with
  | error e => cases h
  | ok b =>
      cases h
      exact ⟨b, rfl⟩

theorem derefs_state {β : Type} {f : State → Except Fault β} {s s' : State} {b : β}
    (h : derefs f s = .ok (b, s')) : s' = s := by
  obtain ⟨b', hb⟩ := ok_of_map h
  exact congrArg Prod.snd hb

theorem touches_state {a : Addr} {s s' : State} {u : Unit} (h : touches a s = .ok (u, s')) :
    s' = s := by
  obtain ⟨th, hth⟩ := ok_of_map h
  exact congrArg Prod.snd hth

theorem asserts_state {f c : String} {p : State → Except Fault Bool} {s s' : State} {u : Unit}
    (h : asserts f c p s = .ok (u, s')) : s' = s := by
  unfold asserts at h
  split at h
  · cases h
  · cases h
    rfl
  · cases h

theorem stores_state {a : Addr} {f : Thread → Thread} {s s' : State} {u : Unit}
    (h : stores a f s = .ok (u, s')) : s' = s.mapThread a f := by
  unfold stores at h
  split at h
  · cases h
    rfl
  · cases h

theorem status_ok {a : Addr} {s : State} {th : Thread} (h : s.heap a = some th) :
    status a s = .ok th.status := by
  simp [status, State.load, h, Except.map]

theorem isThread_ok {a : Addr} {s : State} {th : Thread} (h : s.heap a = some th)
    (hm : th.magic = threadMagic) : isThread (some a) s = .ok true := by
  simp [isThread, State.load, h, hm, Except.map]

theorem reads_runningThread (s : State) :
    reads runningThread s = .ok (s.threadRunningVar, s) := rfl

/-! ## `thread_current` -/

theorem run_threadCurrent {s : State} (h : HasCurrent s) (site : Site) :
    (threadCurrent site).run s = .ok (s.threadRunningVar, s) := by
  obtain ⟨c, hc, hm, hst⟩ := h
  have h₁ : isThread (some s.threadRunningVar) s = .ok true := isThread_ok hc hm
  have h₂ : (status s.threadRunningVar s).map (· == .running) = .ok true := by
    simp [status_ok hc, hst, Except.map]
  simp only [threadCurrent, Prog.stmt_bind, Prog.ret_bind]
  rw [Prog.run_stmt_ok (reads_runningThread s),
    Prog.run_stmt_ok (asserts_ok h₁), Prog.run_stmt_ok (asserts_ok h₂)]
  rfl

/-- A current thread that is not running makes `thread_current` panic. -/
theorem run_threadCurrent_fault {s : State} {c : Thread} (hc : s.heap s.threadRunningVar = some c)
    (hm : c.magic = threadMagic) (hst : c.status ≠ .running) (site : Site) :
    (threadCurrent site).run s =
      .error (.assert "thread_current" "t->status == THREAD_RUNNING") := by
  have h₁ : isThread (some s.threadRunningVar) s = .ok true := isThread_ok hc hm
  have h₂ : (status s.threadRunningVar s).map (· == .running) = .ok false := by
    simp [status_ok hc, hst, Except.map]
  simp only [threadCurrent, Prog.stmt_bind, Prog.ret_bind]
  rw [Prog.run_stmt_ok (reads_runningThread s),
    Prog.run_stmt_ok (asserts_ok h₁), Prog.run_stmt_error (asserts_fail h₂)]

theorem run_current_step {α : Type} {s : State} (h : HasCurrent s) (site : Site)
    (k : Addr → Code α) :
    (threadCurrent site >>= k).run s = (k s.threadRunningVar).run s :=
  Prog.run_bind_ok (run_threadCurrent h site)

theorem HasCurrent.touches {s : State} (h : HasCurrent s) :
    touches s.threadRunningVar s = .ok ((), s) := by
  obtain ⟨c, hc, -⟩ := h
  exact touches_ok hc

theorem HasCurrent.stores {s : State} (h : HasCurrent s) (f : Thread → Thread) :
    stores s.threadRunningVar f s = .ok ((), s.mapThread s.threadRunningVar f) := by
  obtain ⟨c, hc, -⟩ := h
  exact stores_ok hc

/-! ## `schedule` -/

theorem Switchable.succ {s : State} (h : Switchable s) : s.next = some s.succ := by
  obtain ⟨n, _, hn, _⟩ := h
  simp [State.succ, hn]

theorem Switchable.heap {s : State} (h : Switchable s) :
    ∃ th, s.heap s.succ = some th ∧ th.magic = threadMagic := by
  obtain ⟨n, th, hn, hth, hm⟩ := h
  exact ⟨th, by simpa [State.succ, hn] using hth, hm⟩

/-- What `next_thread_to_run` leaves behind. -/
def State.choose (s : State) : State :=
  { s with readyList := s.readyList.tail }.log (.chosen s.next s.readyList)

theorem nextOf_ok (s : State) : nextOf s.readyList.isEmpty s = .ok (s.next, s.choose) := by
  cases hr : s.readyList with
  | nil =>
      have hs : { s with readyList := s.readyList.tail } = s := by rw [hr, List.tail_nil, ← hr]
      simp only [nextOf, State.choose, hs]
      simp only [State.next, hr, List.isEmpty_nil, if_true]
  | cons t rest => simp [nextOf, State.next, State.choose, hr]

theorem run_nextThreadToRun (s : State) : nextThreadToRun.run s = .ok (s.next, s.choose) := by
  unfold nextThreadToRun
  rw [run_step rfl]
  exact run_last (nextOf_ok s)

theorem run_setThreadRunning {s : State} {t : Addr} {th : Thread} (h : s.heap t = some th) :
    (setThreadRunning t).run s =
      .ok ((), { s.setStatus t .running with threadRunningVar := t }.log (.switched t)) := by
  unfold setThreadRunning
  rw [run_step (stores_ok h), run_last rfl]
  rfl

theorem run_switchThreadsC {s : State} {cur next : Addr} {c th : Thread}
    (hc : s.heap cur = some c) (hn : s.heap next = some th) :
    (switchThreadsC cur next).run s =
      .ok (cur, { s.setStatus next .running with threadRunningVar := next }.log
        (.switched next)) := by
  unfold switchThreadsC
  rw [run_step (touches_ok hc), run_step (touches_ok hn),
    Prog.run_bind_ok (run_setThreadRunning hn)]
  rfl

/-- The statements of `thread_schedule_tail` before its `if`. -/
def State.enter (s : State) : State := { s.setCurrent .running with threadTicks := 0 }

theorem run_threadScheduleTail_none {s : State} {c : Thread}
    (hc : s.heap s.threadRunningVar = some c) : (threadScheduleTail none).run s = .ok ((), s.enter) := by
  unfold threadScheduleTail
  rw [run_step (reads_runningThread s), run_step (stores_ok hc), run_step rfl]
  rfl

theorem run_threadScheduleTail_some {s : State} {c pr : Thread} {p : Addr}
    (hc : s.heap s.threadRunningVar = some c) (hp : s.heap p = some pr)
    (hne : p ≠ s.threadRunningVar) :
    (threadScheduleTail (some p)).run s = .ok ((),
      if pr.status = .dying ∧ p ≠ s.initialThread then
        { s.enter with heap := Function.update s.enter.heap p none }.log (.freed p pr.tid)
      else s.enter) := by
  have hp' : s.enter.heap p = some pr := by
    rw [← hp]
    exact (State.setStatus_heap _ _ _ _).trans (if_neg hne)
  unfold threadScheduleTail
  rw [run_step (reads_runningThread s), run_step (stores_ok hc), run_step rfl]
  have htest : derefs (fun s => (status p s).map fun st => st == .dying && p != s.initialThread)
      s.enter = .ok (pr.status == .dying && p != s.initialThread, s.enter) := by
    simp only [derefs, status_ok hp', Except.map]
    rfl
  refine (run_step htest).trans ?_
  by_cases hd : pr.status = .dying ∧ p ≠ s.initialThread
  · have hb : (pr.status == .dying && p != s.initialThread) = true := by simpa using hd
    have hassert : (.ok (p != s.threadRunningVar) : Except Fault Bool) = .ok true := by simpa using hne
    rw [hb, if_pos hd, if_pos rfl, run_step (asserts_ok hassert)]
    exact run_last (by simp only [free, hp'])
  · have hb : (pr.status == .dying && p != s.initialThread) = false := by simpa using hd
    rw [hb, if_neg hd]
    rfl

/-- `schedule` when the current thread is chosen again. -/
theorem dispatch_self {s : State} (h : s.threadRunningVar = s.succ) :
    s.choose.enter = s.dispatch := by
  have hr : ∀ a, ¬ s.reaped a := fun a hr => hr.2.1 (hr.1.trans h)
  refine State.ext_heap (fun a => ?_) ?_
  · refine (State.setStatus_heap _ _ _ _).trans ?_
    simp only [State.dispatch, hr, if_false, ← h]
    rfl
  · simp only [State.dispatch, hr, if_false, ← h, if_true, List.append_nil]
    rfl

/-- The state `switch_threads_c` leaves. -/
def State.switched (s : State) : State :=
  { s.choose.setStatus s.succ .running with threadRunningVar := s.succ }.log (.switched s.succ)

theorem switched_enter_heap (s : State) (a : Addr) : s.switched.enter.heap a =
    if a = s.succ then (s.heap a).map fun th => { th with status := .running } else s.heap a := by
  have h₁ : s.switched.enter.heap a = if a = s.succ then
      (s.switched.heap a).map fun th => { th with status := .running } else s.switched.heap a :=
    State.setStatus_heap _ _ _ _
  have h₂ : s.switched.heap a = if a = s.succ then
      (s.heap a).map fun th => { th with status := .running } else s.heap a :=
    State.setStatus_heap _ _ _ _
  rw [h₁, h₂]
  split_ifs
  · simp [Function.comp_def]
  · rfl

/-- `schedule` when it switches and keeps the old thread. -/
theorem dispatch_kept {s : State} (h : s.threadRunningVar ≠ s.succ)
    (hr : ¬ s.reaped s.threadRunningVar) : s.switched.enter = s.dispatch := by
  have hr' : ∀ a, ¬ s.reaped a := fun a hra => hr (hra.1 ▸ hra)
  refine State.ext_heap (fun a => ?_) ?_
  · simp only [switched_enter_heap, State.dispatch, hr', if_false]
  · simp only [State.dispatch, hr', if_false, if_neg h, List.append_nil]
    rfl

/-- `schedule` when it switches and frees the old thread. -/
theorem dispatch_reaped {s : State} (h : s.threadRunningVar ≠ s.succ)
    (hr : s.reaped s.threadRunningVar) :
    { s.switched.enter with
      heap := Function.update s.switched.enter.heap s.threadRunningVar none }.log
        (.freed s.threadRunningVar (s.tidOf s.threadRunningVar)) = s.dispatch := by
  refine State.ext_heap (fun a => ?_) ?_
  · show Function.update s.switched.enter.heap s.threadRunningVar none a = s.dispatch.heap a
    simp only [Function.update_apply, switched_enter_heap, State.dispatch]
    by_cases ha : a = s.threadRunningVar
    · rw [if_pos ha, if_neg (ha ▸ h), if_pos (ha ▸ hr)]
    · rw [if_neg ha, if_neg (show ¬ s.reaped a from fun hra => ha hra.1)]
  · simp only [State.dispatch, if_pos hr, if_neg h]
    rfl

theorem run_schedule {s : State} {c : Thread} (hsw : Switchable s)
    (hc : s.heap s.threadRunningVar = some c) (hst : c.status ≠ .running) :
    schedule.run s = .ok ((), s.dispatch) := by
  obtain ⟨th, hth, hm⟩ := hsw.heap
  have h₁ : (status s.threadRunningVar s.choose).map (· != .running) = .ok true := by
    rw [status_ok (show s.choose.heap s.threadRunningVar = some c from hc)]
    simpa [Except.map] using hst
  have h₂ : isThread (some s.succ) s.choose = .ok true :=
    isThread_ok (show s.choose.heap s.succ = some th from hth) hm
  unfold schedule
  rw [run_step (reads_runningThread s), Prog.run_bind_ok (run_nextThreadToRun s), hsw.succ,
    run_step (asserts_ok h₁), run_step (asserts_ok h₂)]
  dsimp only
  by_cases hcur : s.threadRunningVar = s.succ
  · rw [if_neg (not_not.mpr hcur), run_threadScheduleTail_none (s := s.choose) hc,
      dispatch_self hcur]
  · have hp : s.switched.heap s.threadRunningVar = some c :=
      (State.setStatus_heap _ _ _ _).trans ((if_neg hcur).trans hc)
    have hn : s.switched.heap s.succ = some { th with status := .running } :=
      (State.setStatus_heap _ _ _ _).trans ((if_pos rfl).trans (congrArg _ hth))
    have hreap : s.reaped s.threadRunningVar ↔
        c.status = .dying ∧ s.threadRunningVar ≠ s.initialThread := by
      simp [State.reaped, State.statusOf, hc, hcur]
    rw [if_pos hcur, Prog.run_bind_ok (run_switchThreadsC (s := s.choose) hc hth)]
    refine (run_threadScheduleTail_some (s := s.switched) hn hp hcur).trans ?_
    by_cases hr : s.reaped s.threadRunningVar
    · have htid : c.tid = s.tidOf s.threadRunningVar := by simp [State.tidOf, hc]
      rw [← dispatch_reaped hcur hr, htid]
      exact congrArg (fun x => Except.ok ((), x)) (if_pos (hreap.mp hr))
    · rw [← dispatch_kept hcur hr]
      exact congrArg (fun x => Except.ok ((), x)) (if_neg (fun h => hr (hreap.mpr h)))

/-- A current thread that is still running makes `schedule` panic. -/
theorem run_schedule_fault {s : State} (hc : HasCurrent s) :
    schedule.run s = .error (.assert "schedule" "cur->status != THREAD_RUNNING") := by
  obtain ⟨c, hheap, -, hst⟩ := hc
  have h : (status s.threadRunningVar s.choose).map (· != .running) = .ok false := by
    rw [status_ok (show s.choose.heap s.threadRunningVar = some c from hheap), hst]
    rfl
  unfold schedule
  rw [run_step (reads_runningThread s), Prog.run_bind_ok (run_nextThreadToRun s)]
  exact Prog.run_stmt_error (asserts_fail h)

/-! ## Blocking, yielding, exiting -/

/-- What the functions below rely on: the current thread passes `thread_current`, there is a
thread to switch to, and a current worker is registered and in neither list. -/
structure Fit (s : State) : Prop where
  current : HasCurrent s
  next : Switchable s
  unlinked : s.worker s.threadRunningVar → s.linked s.threadRunningVar = false
  registered : s.worker s.threadRunningVar → s.threadRunningVar ∈ s.allList

theorem Switchable.mapThread {s : State} (h : Switchable s) (a : Addr) {f : Thread → Thread}
    (hf : ∀ th, (f th).magic = th.magic) : Switchable (s.mapThread a f) := by
  obtain ⟨n, th, hn, hth, hm⟩ := h
  by_cases hna : n = a
  · refine ⟨n, f th, hn, ?_, (hf th).trans hm⟩
    rw [State.mapThread_heap, if_pos hna, hth]
    rfl
  · refine ⟨n, th, hn, ?_, hm⟩
    rw [State.mapThread_heap, if_neg hna, hth]

theorem Switchable.setStatus {s : State} (h : Switchable s) (a : Addr) (st : ThreadStatus) :
    Switchable (s.setStatus a st) :=
  h.mapThread a fun _ => rfl

/-- `schedule`, called after the status of the current thread was set. -/
theorem run_schedule_setCurrent {s : State} (hc : HasCurrent s) (hsw : Switchable s)
    {st : ThreadStatus} (hst : st ≠ .running) :
    schedule.run (s.setCurrent st) = .ok ((), (s.setCurrent st).dispatch) := by
  obtain ⟨c, hheap, -, -⟩ := hc
  refine run_schedule (c := { c with status := st }) (hsw.setStatus _ _) ?_ hst
  refine (State.setStatus_heap _ _ _ _).trans ?_
  rw [if_pos (show (s.setCurrent st).threadRunningVar = s.threadRunningVar from rfl)]
  exact congrArg _ hheap

/-- What `thread_block` does with interrupts off. -/
def blockMasked : Code Unit := do
  let t ← threadCurrent .blockStatus
  stmt .blockStatus (stores t fun th => { th with status := .blocked })
  schedule

theorem threadBlock_eq : threadBlock = (do
    let oldLevel ← stmt .blockSave saveAndDisableInterrupts
    blockMasked
    stmt .blockRestore (restoreInterrupts oldLevel)) := rfl

theorem run_blockMasked {s : State} (hc : HasCurrent s) (hsw : Switchable s) :
    blockMasked.run s = .ok ((), s.blocked) := by
  unfold blockMasked
  rw [run_current_step hc, run_step (hc.stores _)]
  exact run_schedule_setCurrent hc hsw (by decide)

theorem run_threadBlock {s : State} (hc : HasCurrent s) (hsw : Switchable s) :
    threadBlock.run s = .ok ((), s.blocked) := by
  have hc' : HasCurrent (s.mask false) := hc
  rw [threadBlock_eq,
    run_step (show saveAndDisableInterrupts s = .ok (s.intrEnabled, s.mask false) from rfl),
    Prog.run_bind_ok (run_blockMasked hc' hsw), run_last rfl]
  rfl

theorem run_blockIfIdleThread {s : State} (hc : HasCurrent s) (hsw : Switchable s) :
    blockIfIdleThread.run s = .ok ((), s.idleBlocked) := by
  unfold blockIfIdleThread
  rw [run_current_step hc, run_step rfl]
  by_cases hi : s.idleThread = some s.threadRunningVar
  · rw [if_pos (by simp [hi]), run_threadBlock hc hsw, State.idleBlocked, if_pos hi]
  · rw [if_neg (by simpa using fun h => hi h.symm), State.idleBlocked, if_neg hi]
    rfl

/-- The inner `if` of `thread_yield`. -/
theorem run_yieldRequeue {s : State} (hc : HasCurrent s)
    (hu : s.worker s.threadRunningVar → s.linked s.threadRunningVar = false) :
    (yieldRequeue s.threadRunningVar).run s =
      .ok ((), s.requeued) := by
  unfold yieldRequeue State.requeued
  rw [run_step rfl]
  by_cases hw : s.worker s.threadRunningVar
  · have hpush : pushReady s.threadRunningVar s = .ok ((), s.enqueue s.threadRunningVar) := by
      simp [pushReady, hu hw, State.enqueue]
    rw [if_pos (decide_eq_true ⟨hw.1.symm, hw.2⟩), if_pos hw, run_current_step hc,
      run_step hc.touches, run_last hpush]
  · rw [if_neg, if_neg hw]
    · rfl
    · exact fun h => hw ⟨(of_decide_eq_true h).1.symm, (of_decide_eq_true h).2⟩

theorem HasCurrent.of_heap {s t : State} (h : HasCurrent s) (hh : t.heap = s.heap)
    (hv : t.threadRunningVar = s.threadRunningVar) : HasCurrent t := by
  obtain ⟨c, hc⟩ := h
  exact ⟨c, by rw [hh, hv]; exact hc⟩

theorem Switchable.of_heap {s t : State} (h : Switchable s) (hh : t.heap = s.heap)
    (hn : t.next = s.next) : Switchable t := by
  obtain ⟨n, th, h₁, h₂⟩ := h
  exact ⟨n, th, by rw [hn, h₁], by rw [hh]; exact h₂⟩

/-- What `thread_yield` does with interrupts off. -/
def yieldMasked (cur : Addr) : Code Unit := do
  let empty ← stmt .yieldTest (reads fun s => s.readyList.isEmpty)
  if empty then return ()
  else
    yieldRequeue cur
    stmt .yieldStatus (stores cur fun th => { th with status := .ready })
    schedule

theorem threadYield_eq : threadYield = (do
    let cur ← threadCurrent .yieldCur
    let oldLevel ← stmt .yieldSave saveAndDisableInterrupts
    yieldMasked cur
    stmt .yieldRestore (restoreInterrupts oldLevel)) := by
  unfold threadYield
  refine congrArg (threadCurrent .yieldCur >>= ·) (funext fun cur => ?_)
  refine congrArg (Prog.stmt _ _) (funext fun oldLevel => ?_)
  refine congrArg (Prog.stmt _ _) (funext fun empty => ?_)
  cases empty with
  | true => rfl
  | false =>
      exact (Prog.bind_assoc (fun _ => do
          stmt .yieldStatus (stores cur fun th => { th with status := .ready })
          schedule)
        (fun _ => stmt .yieldRestore (restoreInterrupts oldLevel)) (yieldRequeue cur)).symm

theorem run_yieldMasked {s : State} (hc : HasCurrent s) (hsw : Switchable s)
    (hu : s.worker s.threadRunningVar → s.linked s.threadRunningVar = false) :
    (yieldMasked s.threadRunningVar).run s = .ok ((), s.yielded) := by
  unfold yieldMasked
  rw [run_step rfl, State.yielded]
  by_cases he : s.readyList = []
  · rw [if_pos (List.isEmpty_iff.mpr he), if_pos he]
    rfl
  · have hcr : HasCurrent s.requeued := hc.of_heap s.requeued_heap s.requeued_current
    have hswr : Switchable s.requeued := hsw.of_heap s.requeued_heap (State.requeued_next he)
    obtain ⟨c, hheap, -, -⟩ := id hcr
    rw [State.requeued_current] at hheap
    rw [if_neg (fun h => he (List.isEmpty_iff.mp h)), if_neg he,
      Prog.run_bind_ok (run_yieldRequeue hc hu), run_step (stores_ok hheap)]
    have hsched := run_schedule_setCurrent hcr hswr (show ThreadStatus.ready ≠ .running by decide)
    rw [State.setCurrent, State.requeued_current] at hsched
    exact hsched

theorem HasCurrent.setStatus_other {s : State} (h : HasCurrent s) {a : Addr}
    (ha : s.threadRunningVar ≠ a) (st : ThreadStatus) : HasCurrent (s.setStatus a st) := by
  obtain ⟨c, hc, hcur⟩ := h
  exact ⟨c, (State.setStatus_heap _ _ _ _).trans ((if_neg ha).trans hc), hcur⟩

/-- `thread_yield` with an idle thread that is no longer the current one. -/
theorem run_yieldMasked_stale {s : State} {t : Addr} {th : Thread} (hc : HasCurrent s)
    (hi : s.idleThread = some t) (ht : s.heap t = some th) (hne : s.threadRunningVar ≠ t) :
    (yieldMasked t).run s =
      if s.readyList = [] then .ok ((), s)
      else .error (.assert "schedule" "cur->status != THREAD_RUNNING") := by
  have hrequeue : (yieldRequeue t).run s = .ok ((), s) := by
    unfold yieldRequeue
    rw [run_step rfl, if_neg (by simp [hi])]
    rfl
  unfold yieldMasked
  rw [run_step rfl]
  by_cases he : s.readyList = []
  · rw [if_pos (List.isEmpty_iff.mpr he), if_pos he]
    rfl
  · rw [if_neg (fun h => he (List.isEmpty_iff.mp h)), if_neg he, Prog.run_bind_ok hrequeue,
      run_step (stores_ok ht)]
    exact run_schedule_fault (hc.setStatus_other hne .ready)

theorem State.mask_dispatch (b : Bool) (s : State) : (s.mask b).dispatch = s.dispatch.mask b := rfl

theorem State.mask_yielded (b : Bool) (s : State) : (s.mask b).yielded = s.yielded.mask b := by
  by_cases h : s.readyList = []
  · rw [State.yielded, if_pos (show (s.mask b).readyList = [] from h), State.yielded, if_pos h]
  · rw [State.yielded, if_neg (show ¬ (s.mask b).readyList = [] from h), State.yielded, if_neg h,
      State.yieldedTo, State.mask_requeued, State.yieldedTo]
    exact State.mask_dispatch b (s.requeued.setStatus s.threadRunningVar .ready)

theorem State.yielded_intrEnabled (s : State) : s.yielded.intrEnabled = s.intrEnabled := by
  unfold State.yielded
  split_ifs
  · rfl
  · exact s.requeued_intrEnabled

theorem run_threadYield {s : State} (hc : HasCurrent s) (hsw : Switchable s)
    (hu : s.worker s.threadRunningVar → s.linked s.threadRunningVar = false) :
    threadYield.run s = .ok ((), s.yielded) := by
  have hcm : HasCurrent (s.mask false) := hc.of_heap rfl rfl
  rw [threadYield_eq, run_current_step hc,
    run_step (show saveAndDisableInterrupts s = .ok (s.intrEnabled, s.mask false) from rfl)]
  refine (Prog.run_bind_ok (run_yieldMasked hcm hsw hu)).trans ?_
  rw [run_last rfl, State.mask_yielded, ← s.yielded_intrEnabled]
  rfl

theorem run_exitTest {s : State} (hc : HasCurrent s) :
    exitTest.run s = .ok (decide (s.worker s.threadRunningVar), s) := by
  unfold exitTest
  rw [run_current_step hc, run_step rfl]
  by_cases hi : s.threadRunningVar = s.initialThread
  · rw [if_neg (by simpa using hi)]
    simp [State.worker, hi]
  · rw [if_pos (decide_eq_true hi), run_current_step hc, run_last rfl]
    simp [State.worker, hi, eq_comm]

theorem run_exitCurrent {s : State} (hc : HasCurrent s) (hsw : Switchable s)
    (hreg : s.threadRunningVar ∈ s.allList) : exitCurrent.run s = .ok ((), s.exitedCurrent) := by
  obtain ⟨c, hheap, -, -⟩ := id hc
  have hunlink : removeAll s.threadRunningVar s = .ok ((), s.unregister) := by
    simp [removeAll, hreg, hheap, State.unregister, State.tidOf]
  have hcu : HasCurrent s.unregister := hc.of_heap rfl rfl
  have hswu : Switchable s.unregister := hsw.of_heap rfl rfl
  unfold exitCurrent
  rw [run_current_step hc, run_step hunlink, run_current_step hcu, run_step hcu.touches,
    run_current_step hcu, run_step (hcu.stores _)]
  exact run_schedule_setCurrent hcu hswu (by decide)

theorem run_threadExit {s : State} (h : Fit s) : threadExit.run s = .ok ((), s.exited) := by
  unfold threadExit
  rw [Prog.run_bind_ok (run_exitTest h.current)]
  by_cases hw : s.worker s.threadRunningVar
  · rw [if_pos (decide_eq_true hw), run_exitCurrent h.current h.next (h.registered hw),
      State.exited, if_pos hw]
  · rw [if_neg (by simpa using hw), run_threadYield h.current h.next h.unlinked, State.exited,
      if_neg hw]

/-! ## Waking -/

/-- `thread_unblock ()`. -/
def State.unblocked (a : Addr) (s : State) : State := (s.enqueue a).setStatus a .ready

theorem run_threadUnblock {s : State} {t : Addr} {th : Thread} (ht : s.heap t = some th)
    (hm : th.magic = threadMagic) (hb : th.status = .blocked) (hl : s.linked t = false) :
    (threadUnblock t).run s = .ok ((), s.unblocked t) := by
  have h₁ : (status t s).map (· == .blocked) = .ok true := by simp [status_ok ht, hb, Except.map]
  have h₂ : pushReady t s = .ok ((), s.enqueue t) := by simp [pushReady, hl, State.enqueue]
  unfold threadUnblock
  rw [run_step (asserts_ok (isThread_ok ht hm)), run_step (asserts_ok h₁), run_step h₂,
    run_last (stores_ok (show (s.enqueue t).heap t = some th from ht))]
  rfl

/-- A thread that is not blocked makes `thread_unblock` panic. -/
theorem run_threadUnblock_fault {s : State} {t : Addr} {th : Thread} (ht : s.heap t = some th)
    (hm : th.magic = threadMagic) (hst : th.status ≠ .blocked) :
    (threadUnblock t).run s =
      .error (.assert "thread_unblock" "t->status == THREAD_BLOCKED") := by
  have h : (status t s).map (· == .blocked) = .ok false := by simp [status_ok ht, hst, Except.map]
  unfold threadUnblock
  rw [run_step (asserts_ok (isThread_ok ht hm))]
  exact Prog.run_stmt_error (asserts_fail h)

/-- The threads of `l` are asleep: linked in `lista_espera` only, and blocked. -/
structure Sleeping (s : State) (l : List Addr) : Prop where
  nodup : l.Nodup
  espera : s.listaEspera.Nodup
  mem : ∀ a ∈ l, a ∈ s.listaEspera
  unlinked : ∀ a ∈ l, a ∉ s.readyList
  blocked : ∀ a ∈ l, ∃ th, s.heap a = some th ∧ th.magic = threadMagic ∧ th.status = .blocked

theorem Sleeping.tail {s : State} {a : Addr} {l : List Addr} (h : Sleeping s (a :: l)) :
    Sleeping s l where
  nodup := (List.nodup_cons.mp h.nodup).2
  espera := h.espera
  mem b hb := h.mem b (List.mem_cons_of_mem _ hb)
  unlinked b hb := h.unlinked b (List.mem_cons_of_mem _ hb)
  blocked b hb := h.blocked b (List.mem_cons_of_mem _ hb)

theorem State.wakeOne_heap (a b : Addr) (s : State) : (s.wakeOne a).heap b =
    if b = a then (s.heap b).map fun th => { th with status := .ready } else s.heap b :=
  State.setStatus_heap _ _ _ _

/-- Waking the first thread leaves the others asleep. -/
theorem Sleeping.wakeOne {s : State} {a : Addr} {l : List Addr} (h : Sleeping s (a :: l)) :
    Sleeping (s.wakeOne a) l := by
  have hne : ∀ b ∈ l, b ≠ a := fun b hb hba => (List.nodup_cons.mp h.nodup).1 (hba ▸ hb)
  have ht := h.tail
  refine ⟨ht.nodup, h.espera.erase a, fun b hb => ?_, fun b hb => ?_, fun b hb => ?_⟩
  · exact (List.mem_erase_of_ne (hne b hb)).mpr (ht.mem b hb)
  · show b ∉ s.readyList ++ [a]
    simpa using ⟨ht.unlinked b hb, hne b hb⟩
  · rw [State.wakeOne_heap, if_neg (hne b hb)]
    exact ht.blocked b hb

/-- The loop over threads that are asleep, whatever comes after them. -/
theorem run_removerLoop_append {k : Nat} {more : List Addr} : ∀ {l : List Addr} {s : State},
    Sleeping s l → (removerLoop k (l ++ more)).run s = (removerLoop k more).run (s.wakeList k l)
  | [], _, _ => rfl
  | a :: rest, s, h => by
      obtain ⟨th, hth, hm, hb⟩ := h.blocked a (List.mem_cons_self ..)
      have hdue : derefs (fun s => (s.load a).map fun th => wakeTest k th.sleepTime) s =
          .ok (s.due k a, s) := by
        simp [derefs, State.load, State.due, hth, Except.map]
      rw [List.cons_append, removerLoop, run_step hdue]
      cases hd : s.due k a with
      | false =>
          rw [if_neg (by decide), run_removerLoop_append h.tail, State.wakeList,
            if_neg (by simp [hd])]
      | true =>
          have hmem : a ∈ s.listaEspera := h.mem a (List.mem_cons_self ..)
          have hrem : removeEspera a s =
              .ok ((), { s with listaEspera := s.listaEspera.erase a }) := by
            simp [removeEspera, hmem]
          have hl : { s with listaEspera := s.listaEspera.erase a }.linked a = false := by
            have h₁ : a ∉ s.readyList := h.unlinked a (List.mem_cons_self ..)
            have h₂ : a ∉ s.listaEspera.erase a := h.espera.not_mem_erase
            simp [State.linked, h₁, h₂]
          rw [if_pos rfl, run_step hrem]
          refine (Prog.run_bind_ok (run_threadUnblock (by exact hth) hm hb hl)).trans ?_
          refine (run_removerLoop_append h.wakeOne).trans ?_
          rw [State.wakeList, if_pos hd]

theorem run_removerLoop {k : Nat} {l : List Addr} {s : State} (h : Sleeping s l) :
    (removerLoop k l).run s = .ok ((), s.wakeList k l) := by
  have hrun : (removerLoop k (l ++ [])).run s = (removerLoop k []).run (s.wakeList k l) :=
    run_removerLoop_append h
  rw [List.append_nil] at hrun
  exact hrun

/-! ## Sleeping -/

theorem HasCurrent.mapThread {s : State} (h : HasCurrent s) (a : Addr) {f : Thread → Thread}
    (hm : ∀ th, (f th).magic = th.magic) (hst : ∀ th, (f th).status = th.status) :
    HasCurrent (s.mapThread a f) := by
  obtain ⟨c, hc, hcm, hcs⟩ := h
  by_cases ha : s.threadRunningVar = a
  · refine ⟨f c, ?_, (hm c).trans hcm, (hst c).trans hcs⟩
    exact (State.mapThread_heap _ _ _ _).trans ((if_pos ha).trans (congrArg _ hc))
  · exact ⟨c, (State.mapThread_heap _ _ _ _).trans ((if_neg ha).trans hc), hcm, hcs⟩

theorem HasCurrent.setSleep {s : State} (h : HasCurrent s) (d : Nat) : HasCurrent (s.setSleep d) :=
  h.mapThread s.threadRunningVar (fun _ => rfl) (fun _ => rfl)

theorem Switchable.setSleep {s : State} (h : Switchable s) (d : Nat) : Switchable (s.setSleep d) :=
  h.mapThread s.threadRunningVar (fun _ => rfl)

theorem pushEspera_drowsy {s : State} (hl : s.linked s.threadRunningVar = false) :
    pushEspera s.threadRunningVar s = .ok ((), s.drowsy) := by
  rw [pushEspera, hl]
  rfl

theorem run_insertarEnListaEspera {s : State} {n : Int32} (hc : HasCurrent s) (hsw : Switchable s)
    (hl : s.linked s.threadRunningVar = false) :
    (insertarEnListaEspera n).run s = .ok ((), (s.enlist n.toInt).blocked) := by
  unfold insertarEnListaEspera
  rw [run_current_step hc, run_step rfl, run_step (hc.stores _)]
  have hc' := hc.setSleep (toUInt64 (s.ticks + n.toInt))
  have hsw' := hsw.setSleep (toUInt64 (s.ticks + n.toInt))
  refine (run_step (pushEspera_drowsy (s := s.setSleep _) hl)).trans ?_
  exact run_threadBlock (hc'.of_heap rfl rfl) (hsw'.of_heap rfl rfl)

theorem run_threadSleep {s : State} {n : Int32} (hc : HasCurrent s) (hsw : Switchable s)
    (hl : s.linked s.threadRunningVar = false) :
    (threadSleep n).run s = .ok ((), s.slept n.toInt) := by
  unfold threadSleep
  rw [run_step rfl, State.slept]
  by_cases hn : 0 < n.toInt
  · rw [if_pos (decide_eq_true hn), if_pos hn, run_current_step hc, run_step hc.touches,
      run_insertarEnListaEspera hc hsw hl]
    rfl
  · rw [if_neg (by simpa using hn), if_neg hn]
    rfl

theorem run_timerSleep {s : State} {n : Int32} (hc : HasCurrent s) (hsw : Switchable s)
    (hl : s.linked s.threadRunningVar = false) :
    (timerSleep n).run s = .ok ((), s.slept n.toInt) := by
  unfold timerSleep
  rw [run_step rfl, State.slept]
  by_cases hn : 0 < n.toInt
  · rw [if_pos (decide_eq_true hn), if_pos hn, run_insertarEnListaEspera hc hsw hl]
    rfl
  · rw [if_neg (by simpa using hn), if_neg hn]
    rfl

/-! ## Creating -/

/-- The new block is linked nowhere. -/
structure Fresh (s : State) (b : Nat) : Prop where
  heap : s.heap (.block b) = none
  all : Addr.block b ∉ s.allList
  unlinked : s.linked (.block b) = false

theorem HasCurrent.adopt {s : State} (h : HasCurrent s) {b : Nat}
    (hb : s.heap (.block b) = none) (d : Int) : HasCurrent (s.adopt b d) := by
  obtain ⟨c, hc, hm, hst⟩ := h
  have hne : s.threadRunningVar ≠ .block b := fun he => by rw [he, hb] at hc; cases hc
  exact ⟨c, (Function.update_of_ne hne _ _).trans hc, hm, hst⟩

theorem Switchable.adopt {s : State} (h : Switchable s) {b : Nat}
    (hb : s.heap (.block b) = none) (d : Int) : Switchable (s.adopt b d) := by
  obtain ⟨n, th, hn, hth, hm⟩ := h
  have hne : n ≠ .block b := fun he => by rw [he, hb] at hth; cases hth
  cases hr : s.readyList with
  | nil =>
      refine ⟨.block b, _, ?_, Function.update_self .., rfl⟩
      simp [State.next, State.adopt, hr]
  | cons t rest =>
      refine ⟨n, th, ?_, (Function.update_of_ne hne _ _).trans hth, hm⟩
      rw [← hn]
      simp [State.next, State.adopt, hr]

/-- The value `thread_create` returns. -/
def State.createTid (block : Option Nat) (s : State) : Int :=
  match block with
  | none => tidError
  | some _ => s.nextTid

/-- The thread `th` at `a`. -/
def State.place (a : Addr) (th : Thread) (s : State) : State :=
  { s with heap := Function.update s.heap a (some th) }

theorem State.place_heap (a : Addr) (th : Thread) (s : State) :
    (s.place a th).heap a = some th := Function.update_self ..

theorem State.place_place (a : Addr) (th th' : Thread) (s : State) :
    (s.place a th).place a th' = s.place a th' := by
  simp only [State.place, Function.update_idem]

theorem State.mapThread_place (a : Addr) (th : Thread) (f : Thread → Thread) (s : State) :
    (s.place a th).mapThread a f = s.place a (f th) := by
  simp only [State.mapThread, State.place_heap]
  exact State.place_place a th (f th) s

/-- What `init_thread` writes. -/
def Thread.fresh : Thread := ⟨0, .blocked, 0, 9999999, threadMagic⟩

/-- The thread at `a` at the back of `all_list`. -/
def State.register (a : Addr) (s : State) : State := { s with allList := s.allList ++ [a] }

theorem run_initThread {s : State} {a : Addr} {name : Name} (hname : name ≠ .null)
    (hall : a ∉ s.allList) :
    (initThread a name).run s = .ok ((), (s.register a).place a .fresh) := by
  have h₁ : (.ok (name != .null) : Except Fault Bool) = .ok true := by simpa using hname
  have h₂ : pushAll a (s.place a .fresh) = .ok ((), (s.register a).place a .fresh) := by
    have hc : (s.place a .fresh).allList.contains a = false := by
      simpa [State.place] using hall
    rw [pushAll, hc]
    rfl
  unfold initThread
  rw [run_step (asserts_ok h₁), run_step rfl]
  exact run_last h₂

theorem assignTid_place (a : Addr) (th : Thread) (s : State) :
    assignTid a (s.place a th) =
      .ok (s.nextTid, { s with nextTid := s.nextTid + 1 }.place a { th with tid := s.nextTid }) := by
  simp only [assignTid, State.place_heap, State.mapThread_place]
  rfl

theorem run_allocFrame {s : State} {a : Addr} {th : Thread} (hm : th.magic = threadMagic) :
    (allocFrame a frameSize).run (s.place a th) = .ok ((), s.place a th) := by
  unfold allocFrame
  rw [run_step (asserts_ok (isThread_ok (State.place_heap a th s) hm)),
    run_last (asserts_ok (by decide))]

/-- `thread_create`, once the block is there, up to its assignment of `idle_thread`. -/
theorem run_threadCreate_adopt {α : Type} {s : State} {b : Nat} (hf : Fresh s b) {name : Name}
    (hname : name ≠ .null) (d : Int) (k : Nat → Code α) :
    (do
      initThread (.block b) name
      let tid ← stmt .createTid (assignTid (.block b))
      stmt .createDuration (assignDuration (.block b) tid d)
      allocFrame (.block b) frameSize
      threadUnblock (.block b)
      k tid : Code α).run (s.place (.block b) ⟨0, .running, 0, 0, 0⟩) =
      (k s.nextTid).run (s.adopt b d) := by
  let s₂ : State := { s.register (.block b) with nextTid := s.nextTid + 1 }
  let s₃ : State := s₂.log (.created (.block b) s.nextTid d)
  have hinit : (initThread (.block b) name).run (s.place (.block b) ⟨0, .running, 0, 0, 0⟩) =
      .ok ((), (s.register (.block b)).place (.block b) .fresh) := by
    refine (run_initThread hname (by exact hf.all)).trans ?_
    rw [← State.place_place (.block b) ⟨0, .running, 0, 0, 0⟩ .fresh (s.register (.block b))]
    rfl
  have hdur : assignDuration (.block b) s.nextTid d
      (s₂.place (.block b) { Thread.fresh with tid := s.nextTid }) =
      .ok ((), s₃.place (.block b) { Thread.fresh with tid := s.nextTid, durationTicks := d }) := by
    simp only [assignDuration, State.place_heap, State.mapThread_place]
    rfl
  have hl : (s₃.place (.block b)
      { Thread.fresh with tid := s.nextTid, durationTicks := d }).linked (.block b) = false :=
    hf.unlinked
  rw [Prog.run_bind_ok hinit, run_step (assignTid_place _ _ _)]
  refine (run_step hdur).trans ?_
  rw [Prog.run_bind_ok (run_allocFrame rfl),
    Prog.run_bind_ok (run_threadUnblock (State.place_heap _ _ _) rfl rfl hl)]
  refine congrArg (k s.nextTid).run ?_
  refine (State.mapThread_place (s := s₃.enqueue (.block b)) (.block b) _ _).trans ?_
  simp [State.place, State.adopt, State.enqueue, State.log, State.register, Thread.fresh, s₃, s₂]

theorem run_threadCreate {s : State} (hc : HasCurrent s) (hsw : Switchable s)
    (htid : s.nextTid ≠ 2) {block : Option Nat} (hb : ∀ b, block = some b → Fresh s b)
    {name : Name} (hname : block.isSome → name ≠ .null) (d : Int32) :
    (threadCreate name block d).run s = .ok (s.createTid block, s.created block d.toInt) := by
  cases block with
  | none => rfl
  | some b =>
      have hf := hb b rfl
      unfold threadCreate
      rw [run_step (show callocThread (some b) s =
        .ok (some (.block b), s.place (.block b) ⟨0, .running, 0, 0, 0⟩) from rfl)]
      dsimp only
      rw [run_threadCreate_adopt hf (hname rfl), run_step rfl]
      dsimp only
      rw [if_neg (fun h => htid h.2),
        Prog.run_bind_ok (run_blockIfIdleThread (hc.adopt hf.heap _) (hsw.adopt hf.heap _))]
      rfl

/-! ## The timer and the main loop -/

theorem HasCurrent.charge {s : State} (h : HasCurrent s) : HasCurrent s.charge :=
  HasCurrent.of_heap (h.mapThread s.threadRunningVar (f := fun th =>
    { th with durationTicks := th.durationTicks - 1 }) (fun _ => rfl) (fun _ => rfl)) rfl rfl

theorem HasCurrent.durationOf_charge {s : State} (h : HasCurrent s) (a : Addr) :
    s.charge.durationOf a =
      if a = s.threadRunningVar then s.durationOf a - 1 else s.durationOf a := by
  obtain ⟨c, hc, -⟩ := h
  have hheap : s.charge.heap a = _ := State.mapThread_heap s.threadRunningVar a _ s
  rw [State.durationOf, hheap, State.durationOf]
  split_ifs with ha
  · rw [ha, hc]
    rfl
  · rfl

/-- `ticks++` and `thread_tick ()`. -/
theorem run_tick {α : Type} {s : State} (hc : HasCurrent s) (k : Code α) :
    (do
      stmt .tickCount (writes fun s => { s with ticks := s.ticks + 1 })
      threadTick
      k : Code α).run s = k.run s.charge := by
  obtain ⟨c, hheap, -⟩ := id hc
  have htick : threadTick.run { s with ticks := s.ticks + 1 } = .ok ((), s.charge) := by
    have hc' : HasCurrent { s with ticks := s.ticks + 1 } := hc
    unfold threadTick
    rw [run_current_step hc', run_step rfl, run_step rfl]
    refine run_last ?_
    by_cases hi : s.idleThread = some s.threadRunningVar
    · simp [hi, hheap, State.charge, State.mapThread, State.log, State.tidOf]
    · have hi' : ¬ some s.threadRunningVar = s.idleThread := fun h => hi h.symm
      simp [hi, hi', hheap, State.charge, State.mapThread, State.log, State.tidOf]
  rw [run_step rfl, Prog.run_bind_ok htick]

theorem Sleeping.charge {s : State} {l : List Addr} (h : Sleeping s l) : Sleeping s.charge l where
  nodup := h.nodup
  espera := h.espera
  mem := h.mem
  unlinked := h.unlinked
  blocked a ha := by
    obtain ⟨th, hth, hm, hb⟩ := h.blocked a ha
    by_cases hcur : a = s.threadRunningVar
    · refine ⟨{ th with durationTicks := th.durationTicks - 1 }, ?_, hm, hb⟩
      exact (State.mapThread_heap _ _ _ _).trans ((if_pos hcur).trans (congrArg _ hth))
    · exact ⟨th, (State.mapThread_heap _ _ _ _).trans ((if_neg hcur).trans hth), hm, hb⟩

/-- The tick, up to the scan of `lista_espera`. -/
theorem run_timerInterrupt_scan {s : State} (hc : HasCurrent s) :
    timerInterrupt.run s = (removerLoop (s.ticks + 1) s.listaEspera).run s.charge := by
  obtain ⟨c, hheap, -⟩ := hc.charge
  have hprint : derefs (fun s' => (s'.load s.charge.threadRunningVar).map fun _ => s'.ticks)
      s.charge = .ok (s.ticks + 1, s.charge) := by
    simp only [derefs, State.load, hheap, Except.map]
    rfl
  unfold timerInterrupt
  rw [run_tick hc, run_current_step hc.charge, run_step hprint]
  unfold removerThreadDurmiente
  rw [run_step rfl]
  rfl

theorem run_timerInterrupt {s : State} (hc : HasCurrent s) (hs : Sleeping s s.listaEspera) :
    timerInterrupt.run s = .ok ((), s.ticked) :=
  (run_timerInterrupt_scan hc).trans (run_removerLoop hs.charge)

theorem run_scheduleSetQuantum (s : State) (mode rrticks : Int32) :
    (scheduleSetQuantum mode rrticks).run s = .ok ((), s.withQuantum mode.toInt rrticks.toInt) :=
  rfl

theorem durationTicks_ok {s : State} (hc : HasCurrent s) :
    durationTicks s.threadRunningVar s = .ok (s.durationOf s.threadRunningVar) := by
  obtain ⟨c, hheap, -⟩ := hc
  simp [durationTicks, State.load, State.durationOf, hheap, Except.map]

theorem run_afterExpiry {s : State} (h : Fit s) : afterExpiry.run s = .ok ((), s.expired) := by
  have hdur : derefs (fun s' => (durationTicks s.threadRunningVar s').map (decide <| · ≤ 0)) s =
      .ok (decide (s.durationOf s.threadRunningVar ≤ 0), s) := by
    simp only [derefs, durationTicks_ok h.current, Except.map]
  unfold afterExpiry
  rw [run_current_step h.current, run_step hdur, State.expired]
  by_cases hd : s.durationOf s.threadRunningVar ≤ 0
  · rw [if_pos (decide_eq_true hd), if_pos hd, run_current_step h.current,
      run_step h.current.touches, run_threadExit h]
  · rw [if_neg (by simpa using hd), if_neg hd, run_step rfl]
    by_cases hm : s.roundRobinMode ≠ 0 ∧ s.readyList ≠ []
    · rw [if_pos (by simpa using hm), run_step rfl]
      by_cases hq : s.roundRobinTicks ≤ s.threadTicks
      · rw [if_pos (decide_eq_true hq), if_pos ⟨hm.1, hm.2, hq⟩,
          run_threadYield h.current h.next h.unlinked]
      · rw [if_neg (by simpa using hq), if_neg (fun hp : s.preempted => hq hp.2.2)]
        rfl
    · rw [if_neg (by simpa using hm), if_neg (fun hp : s.preempted => hm ⟨hp.1, hp.2.1⟩)]
      rfl

theorem run_afterForced {s : State} (h : Fit s) : afterForced.run s = .ok ((), s.forced) := by
  have hdur : derefs (fun s' => (durationTicks s.threadRunningVar s').map (decide <| · ≠ 0)) s =
      .ok (decide (s.durationOf s.threadRunningVar ≠ 0), s) := by
    simp only [derefs, durationTicks_ok h.current, Except.map]
  unfold afterForced
  rw [run_step rfl, State.forced]
  by_cases he : s.threadExitOnReturn ≠ 0
  · rw [if_pos (decide_eq_true he), run_current_step h.current, run_step hdur]
    by_cases hd : s.durationOf s.threadRunningVar ≠ 0
    · rw [if_pos (decide_eq_true hd), if_pos ⟨he, hd⟩, run_current_step h.current,
        run_step h.current.touches, Prog.run_bind_ok (run_threadExit h)]
      rfl
    · rw [if_neg (by simpa using hd), if_neg (fun h => hd h.2)]
      rfl
  · rw [if_neg (by simpa using he), if_neg (fun h => he h.1)]
    rfl

end PicoOS
