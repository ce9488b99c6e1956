/-
# `PicoOS.Sched.Queues` — the partition of the threads, and the order of `ready_list`

Two properties of every run of calls.

`Partition` is `Inv` read by a user of the scheduler: a live worker is the
current thread, or waits once in `ready_list`, or sleeps once in `lista_espera`,
and never two of these.  With it goes that no call faults, the one exception
being `thread_create` with a `NULL` name, which `init_thread` refuses.

`Fifo` relates the log to `ready_list`: what was enqueued is what was popped
followed by what still waits, so a waiting thread is never overtaken, dropped or
dispatched twice.
-/
import PicoOS.Sched.Ops

namespace PicoOS

open Runs

/-! ## The partition -/

/-- Where the threads are, between calls. -/
structure Partition (s : State) : Prop where
  /-- One thread is RUNNING, the current one. -/
  running : ∀ a, s.statusOf a = some .running ↔ a = s.threadRunningVar
  /-- A live worker is current, or once in `ready_list`, or once in `lista_espera`. -/
  place : ∀ a, s.heap a ≠ none → s.worker a →
    (a = s.threadRunningVar ∧ s.statusOf a = some .running ∧
      s.readyList.count a = 0 ∧ s.listaEspera.count a = 0) ∨
    (a ≠ s.threadRunningVar ∧ s.statusOf a = some .ready ∧
      s.readyList.count a = 1 ∧ s.listaEspera.count a = 0) ∨
    (a ≠ s.threadRunningVar ∧ s.statusOf a = some .blocked ∧
      s.readyList.count a = 0 ∧ s.listaEspera.count a = 1)
  /-- `idle_thread` and `initial_thread` are in neither list. -/
  special : ∀ a, s.idleThread = some a ∨ a = s.initialThread →
    a ∉ s.readyList ∧ a ∉ s.listaEspera
  /-- A freed thread is in no list and not current. -/
  freed : ∀ a, s.heap a = none →
    a ∉ s.readyList ∧ a ∉ s.listaEspera ∧ a ∉ s.allList ∧ a ≠ s.threadRunningVar

theorem Inv.partition {s : State} (h : Inv s) : Partition s where
  running := h.running
  place := by
    intro a hlive hw
    have hstat : s.statusOf a ≠ none := by
      rw [State.statusOf, Ne, Option.map_eq_none_iff]
      exact hlive
    rcases h.kept a hstat hw with hcur | hr | he
    · refine .inl ⟨hcur, (h.running a).mpr hcur, ?_, ?_⟩
      · exact List.count_eq_zero.mpr (hcur ▸ h.not_ready)
      · exact List.count_eq_zero.mpr (hcur ▸ h.not_espera)
    · have hne : a ≠ s.threadRunningVar := fun hc => h.not_ready (hc ▸ hr)
      have hout : a ∉ s.listaEspera := fun he => h.toLinked.sleeping.unlinked a he hr
      exact .inr (.inl ⟨hne, (h.ready a hr).1, List.count_eq_one_of_mem h.readyNodup hr,
        List.count_eq_zero.mpr hout⟩)
    · have hne : a ≠ s.threadRunningVar := fun hc => h.not_espera (hc ▸ he)
      have hout : a ∉ s.readyList := h.toLinked.sleeping.unlinked a he
      exact .inr (.inr ⟨hne, (h.espera a he).1, List.count_eq_zero.mpr hout,
        List.count_eq_one_of_mem h.esperaNodup he⟩)
  special := by
    rintro a (hi | hi)
    · exact ⟨fun hr => (h.ready a hr).2.1.1 hi, fun he => (h.espera a he).2.1.1 hi⟩
    · exact ⟨fun hr => (h.ready a hr).2.1.2 hi, fun he => (h.espera a he).2.1.2 hi⟩
  freed := by
    intro a hfree
    have hstat : s.statusOf a = none := by rw [State.statusOf, hfree]; rfl
    have hall : a ∉ s.allList := fun ha => h.live a ha hstat
    refine ⟨fun hr => hall (h.ready a hr).2.2, fun he => hall (h.espera a he).2.2, hall, ?_⟩
    intro hc
    exact h.live_current (hc ▸ hstat)

/-- In every reachable state the threads are partitioned, and no call that names the thread it
creates faults. -/
theorem reachable_partition {s : State} (h : Reachable s) :
    Partition s ∧ ∀ op, Allowed s op → op.named = true → ∃ t, exec op s = .ok t :=
  ⟨h.inv.partition, fun _ ha hn => ⟨_, exec_ok h.inv ha hn⟩⟩

/-- Two workers, one of them asleep. -/
theorem reachable_partition_two_workers :
    Partition (effects (afterBoot none 0 0)
      [.threadCreate .other (some 1) 5, .threadCreate .other (some 2) 5, .threadSleep 3]) :=
  (reachable_partition ⟨_, _, booted_iff.mpr ⟨none, 0, 0, rfl⟩,
    run_of_allows (afterBoot_inv none 0 0) (by decide +kernel)⟩).1

/-- Without a name `thread_create` panics, from the state after the boot already. -/
theorem create_unnamed_panics : ¬ ∀ s, Reachable s →
    Partition s ∧ ∀ op, Allowed s op → ∃ t, exec op s = .ok t := by
  intro h
  have hreach : Reachable (afterBoot none 0 0) :=
    ⟨_, [], booted_iff.mpr ⟨none, 0, 0, rfl⟩, .nil _⟩
  obtain ⟨t, ht⟩ := (h _ hreach).2 (.threadCreate .null (some 1) 5) (by decide +kernel)
  rw [exec_null] at ht
  cases ht

/-! ## The order of `ready_list` -/

/-- The threads appended to `ready_list`, oldest first. -/
def enqueuedIn (tr : List Obs) : List Addr :=
  tr.filterMap fun o => match o with
    | .enqueued t => some t
    | _ => none

/-- The threads `next_thread_to_run` popped from `ready_list`, oldest first. -/
def poppedIn (tr : List Obs) : List Addr :=
  tr.filterMap fun o => match o with
    | .chosen next (_ :: _) => next
    | _ => none

/-- The threads made current, oldest first. -/
def switchedIn (tr : List Obs) : List Addr :=
  tr.filterMap fun o => match o with
    | .switched t => some t
    | _ => none

/-- The log and `ready_list` agree. -/
structure Fifo (s : State) : Prop where
  queue : enqueuedIn s.trace = poppedIn s.trace ++ s.readyList
  current : (switchedIn s.trace).filter (fun a => decide (s.idleThread ≠ some a)) = poppedIn s.trace
  idle : ∀ ready, .chosen s.idleThread ready ∈ s.trace → ready = []

/-- What `schedule` adds to the log. -/
def State.dispatchLog (s : State) : List Obs :=
  .chosen s.next s.readyList :: (if s.threadRunningVar = s.succ then [] else [.switched s.succ]) ++
    (if s.reaped s.threadRunningVar then
      [.freed s.threadRunningVar (s.tidOf s.threadRunningVar)] else [])

theorem State.dispatch_trace (s : State) : s.dispatch.trace = s.trace ++ s.dispatchLog := by
  simp [State.dispatch, State.dispatchLog]

/-- `schedule` pops the head of `ready_list` and makes it current, or makes the idle thread
current when there is none. -/
theorem dispatchLog_spec {s : State} (hl : Linked s)
    (hne : s.readyList.head? ≠ some s.threadRunningVar) :
    enqueuedIn s.dispatchLog = [] ∧
    s.readyList = poppedIn s.dispatchLog ++ s.readyList.tail ∧
    (switchedIn s.dispatchLog).filter (fun a => decide (s.idleThread ≠ some a)) =
      poppedIn s.dispatchLog ∧
    ∀ ready, .chosen s.idleThread ready ∈ s.dispatchLog → ready = [] := by
  obtain ⟨i, hi, -⟩ := hl.idle
  cases hr : s.readyList with
  | nil =>
      have hsucc : s.succ = i := State.succ_nil hr hi
      simp only [State.dispatchLog, hr, hsucc, hi]
      split_ifs <;> simp [enqueuedIn, poppedIn, switchedIn]
  | cons t rest =>
      have hsucc : s.succ = t := State.succ_cons hr
      have hnext : s.next = some t := by simp [State.next, hr]
      have hcur : s.threadRunningVar ≠ t := by
        intro hc
        rw [hr, hc] at hne
        exact hne rfl
      have hwork : s.idleThread ≠ some t :=
        (hl.ready t (by rw [hr]; exact List.mem_cons_self ..)).2.1.1
      simp only [State.dispatchLog, hr, hsucc, hnext, if_neg hcur]
      split_ifs <;> simp [enqueuedIn, poppedIn, switchedIn, hwork]

theorem Fifo.dispatch {s : State} (h : Fifo s) (hl : Linked s)
    (hne : s.readyList.head? ≠ some s.threadRunningVar) : Fifo s.dispatch := by
  obtain ⟨hlog₁, hlog₂, hlog₃, hlog₄⟩ := dispatchLog_spec hl hne
  have happ : ∀ f : Obs → Option Addr, s.dispatch.trace.filterMap f =
      s.trace.filterMap f ++ s.dispatchLog.filterMap f := by
    intro f
    rw [State.dispatch_trace, List.filterMap_append]
  refine ⟨?_, ?_, ?_⟩
  · calc enqueuedIn s.dispatch.trace
        = enqueuedIn s.trace ++ enqueuedIn s.dispatchLog := happ _
      _ = poppedIn s.trace ++ (poppedIn s.dispatchLog ++ s.readyList.tail) := by
          rw [hlog₁, List.append_nil, h.queue, ← hlog₂]
      _ = poppedIn s.dispatch.trace ++ s.dispatch.readyList := by
          rw [← List.append_assoc]
          exact congrArg (· ++ s.readyList.tail) (happ _).symm
  · have hpop : poppedIn s.dispatch.trace = poppedIn s.trace ++ poppedIn s.dispatchLog := happ _
    have hswi : switchedIn s.dispatch.trace = switchedIn s.trace ++ switchedIn s.dispatchLog :=
      happ _
    show (switchedIn s.dispatch.trace).filter (fun a => decide (s.idleThread ≠ some a)) = _
    rw [hpop, hswi, List.filter_append, h.current, hlog₃]
  · intro ready hmem
    rw [State.dispatch_trace] at hmem
    rcases List.mem_append.mp hmem with hmem | hmem
    · exact h.idle ready hmem
    · exact hlog₄ ready hmem

/-- A step that adds `l` to the log and, to `ready_list`, what `l` says was enqueued. -/
theorem Fifo.extend {s t : State} (h : Fifo s) (l : List Obs) (htr : t.trace = s.trace ++ l)
    (hr : t.readyList = s.readyList ++ enqueuedIn l) (hi : t.idleThread = s.idleThread)
    (hp : poppedIn l = []) (hs : switchedIn l = []) (hc : ∀ next ready, .chosen next ready ∉ l) :
    Fifo t := by
  have he' : enqueuedIn t.trace = enqueuedIn s.trace ++ enqueuedIn l := by
    rw [htr]
    exact List.filterMap_append ..
  have hp' : poppedIn t.trace = poppedIn s.trace := by
    rw [htr, ← List.append_nil (poppedIn s.trace), ← hp]
    exact List.filterMap_append ..
  have hs' : switchedIn t.trace = switchedIn s.trace := by
    rw [htr, ← List.append_nil (switchedIn s.trace), ← hs]
    exact List.filterMap_append ..
  refine ⟨?_, ?_, ?_⟩
  · rw [he', hp', hr, h.queue, List.append_assoc]
  · rw [hs', hp', hi, h.current]
  · intro ready hmem
    rw [htr, hi] at hmem
    rcases List.mem_append.mp hmem with hmem | hmem
    · exact h.idle ready hmem
    · exact absurd hmem (hc _ _)

/-- A step that leaves the log and `ready_list` alone. -/
theorem Fifo.same {s t : State} (h : Fifo s) (htr : t.trace = s.trace)
    (hr : t.readyList = s.readyList) (hi : t.idleThread = s.idleThread) : Fifo t :=
  h.extend [] (by rw [htr, List.append_nil]) (by rw [hr]; exact (List.append_nil _).symm) hi rfl rfl
    (fun _ _ => List.not_mem_nil)

theorem Fifo.enqueue {s : State} (h : Fifo s) (a : Addr) : Fifo (s.enqueue a) :=
  h.extend [.enqueued a] rfl rfl rfl rfl rfl (by simp)

theorem Fifo.requeued {s : State} (h : Fifo s) : Fifo s.requeued := by
  unfold State.requeued
  split_ifs
  · exact h.enqueue _
  · exact h

/-- The current thread stops, perhaps at the back of `ready_list`. -/
theorem Fifo.stop {s m : State} (h : Fifo s) (hm : Stop s m) : Fifo m := by
  cases hm with
  | block => exact h.same rfl rfl rfl
  | yield => exact h.requeued.same rfl rfl rfl
  | exit =>
      exact h.extend [.exited _ _] rfl (List.append_nil _).symm rfl rfl rfl (by simp)
  | sleep => exact h.same rfl rfl rfl

/-- Every move keeps the log and `ready_list` in agreement. -/
theorem Fifo.move {s t : State} (hs : Inv s) (h : Fifo s) (hm : Move s t) : Fifo t := by
  cases hm with
  | switch hm => exact (h.stop hm).dispatch (hm.parked hs).toLinked (hm.head_ne hs)
  | deadline d => exact h.same rfl rfl rfl
  | create hb d => exact h.extend [.created _ _ _, .enqueued _] rfl rfl rfl rfl rfl (by simp)
  | charge => exact h.extend [.charged _ _] rfl (List.append_nil _).symm rfl rfl rfl (by simp)
  | wake ha hd => exact (h.enqueue _).same rfl rfl rfl
  | config m q e => exact h.same rfl rfl rfl

theorem Booted.fifo {s : State} (h : Booted s) : Fifo s := by
  obtain ⟨quantum, i, k, rfl⟩ := booted_iff.mp h
  obtain ⟨hr, -, -, -, -, ht⟩ := afterBoot_kept quantum i k
  refine ⟨?_, ?_, ?_⟩
  · rw [hr, ht]
    rfl
  · rw [ht]
    rfl
  · rw [ht]
    exact nofun

/-- In every run, what was appended to `ready_list` is what was popped from it and made current,
followed by what is in it; and the idle thread is chosen only when it is empty. -/
theorem ready_queue_discipline {s₀ s : State} {ops : List Op} (h₀ : Booted s₀)
    (hrun : Run Step s₀ ops s) :
    enqueuedIn s.trace = poppedIn s.trace ++ s.readyList ∧
    (switchedIn s.trace).filter (fun a => decide (s.idleThread ≠ some a)) = poppedIn s.trace ∧
    ∀ ready, .chosen s.idleThread ready ∈ s.trace → ready = [] := by
  have h : Fifo s := keeps_of_run (fun _ _ hi hf hm => hf.move hi hm) hrun h₀.inv h₀.fifo
  exact ⟨h.queue, h.current, h.idle⟩

/-- Two workers, and two ticks with a poll after each. -/
def twoWorkers : List Op :=
  [.threadCreate .other (some 1) 5, .threadCreate .other (some 2) 5, .timerInterrupt,
    .afterInterrupt, .timerInterrupt, .afterInterrupt]

/-- Round robin with quantum 1 dispatches the first worker, the second, and the first again. -/
theorem ready_queue_discipline_two_workers :
    let s := effects (afterBoot (some 1) 0 0) twoWorkers
    poppedIn s.trace = [.block 1, .block 2, .block 1] ∧
      enqueuedIn s.trace = [.block 1, .block 2, .block 1] ++ s.readyList := by
  have hpop : poppedIn (effects (afterBoot (some 1) 0 0) twoWorkers).trace =
      [.block 1, .block 2, .block 1] := by decide +kernel
  have hrun : Run Step (afterBoot (some 1) 0 0) twoWorkers
      (effects (afterBoot (some 1) 0 0) twoWorkers) :=
    run_of_allows (afterBoot_inv (some 1) 0 0) (by decide +kernel)
  have h := ready_queue_discipline (booted_iff.mpr ⟨some 1, 0, 0, rfl⟩) hrun
  exact ⟨hpop, hpop ▸ h.1⟩

end PicoOS
