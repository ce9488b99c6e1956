/-
# `PicoOS.Sched.Workload` — threads that only compute

Without sleeping and without forced exits the scheduler is a dispatcher of jobs:
a thread is its `tid` and the ticks it still has, the idle thread is no job at
all.  `abs` reads a scheduler state as a state of `Dispatching.Dispatcher`, and
three theorems say that `thread_create`, `timer_interrupt` and `after_interrupt`
are its `submit`, `tick` and `poll` (`abs_created`, `abs_ticked`, `abs_polled`).
The two results, round robin and FIFO, are the dispatcher's closed forms read
back through `abs`.
-/
import PicoOS.Lib.Dispatcher
import PicoOS.Sched.Ops

namespace PicoOS

open Runs Dispatching

/-! ## The log -/

/-- The `tid`s charged, without the idle thread's. -/
def chargedIn (idle : Option Addr) (tr : List Obs) : List Nat :=
  tr.filterMap fun o => match o with
    | .charged t tid => if idle = some t then none else some tid
    | _ => none

/-- The threads created: `tid` and duration. -/
def createdIn (tr : List Obs) : List (Nat × Nat) :=
  tr.filterMap fun o => match o with
    | .created _ tid d => some (tid, d.toNat)
    | _ => none

/-- The `tid`s of the threads that exited. -/
def exitedIn (tr : List Obs) : List Nat :=
  tr.filterMap fun o => match o with
    | .exited _ tid => some tid
    | _ => none

/-- The `tid`s of the threads that were freed. -/
def freedIn (tr : List Obs) : List Nat :=
  tr.filterMap fun o => match o with
    | .freed _ tid => some tid
    | _ => none

/-! ## The dispatcher in the scheduler -/

namespace State

/-- The thread at `a` as a job. -/
def job (s : State) (a : Addr) : Nat × Nat := (s.tidOf a, (s.durationOf a).toNat)

/-- The quantum, in round-robin mode. -/
def quantum (s : State) : Option Nat :=
  if s.roundRobinMode = 0 then none else some s.roundRobinTicks

/-- The scheduler as a dispatcher. -/
def abs (s : State) : Dispatcher Nat where
  running := if s.idleThread = some s.threadRunningVar then none else some (s.job s.threadRunningVar)
  used := s.threadTicks
  waiting := s.readyList.map s.job
  charged := chargedIn s.idleThread s.trace
  finished := freedIn s.trace
  submitted := createdIn s.trace

theorem job_setStatus (a : Addr) (st : ThreadStatus) (s : State) :
    (s.setStatus a st).job = s.job := by
  funext b
  rw [job, tidOf_setStatus, durationOf_setStatus, job]

theorem job_dispatch {s : State} {a : Addr} (h : ¬ s.reaped a) : s.dispatch.job a = s.job a := by
  rw [job, tidOf_dispatch h, durationOf_dispatch h, job]

end State

/-- A state of a run in which threads are created and compute, and do nothing else. -/
structure Workload (s : State) : Prop extends Inv s where
  awake : s.listaEspera = []
  unforced : s.threadExitOnReturn = 0
  idleAlone : s.idleThread = some s.threadRunningVar → s.readyList = []
  needs : ∀ a ∈ s.readyList, 0 < s.durationOf a
  nonneg : s.worker s.threadRunningVar → 0 ≤ s.durationOf s.threadRunningVar
  numbered : ∀ j ∈ createdIn s.trace, j.1 < s.nextTid
  exits : exitedIn s.trace = freedIn s.trace

/-! ## Switching -/

/-- The four logs are not affected by what `schedule` writes, but for a thread it frees. -/
theorem dispatch_logs (s : State) :
    chargedIn s.idleThread s.dispatch.trace = chargedIn s.idleThread s.trace ∧
    createdIn s.dispatch.trace = createdIn s.trace ∧
    exitedIn s.dispatch.trace = exitedIn s.trace ∧
    freedIn s.dispatch.trace = freedIn s.trace ++
      if s.reaped s.threadRunningVar then [s.tidOf s.threadRunningVar] else [] := by
  simp only [State.dispatch, chargedIn, createdIn, exitedIn, freedIn, List.filterMap_append]
  split_ifs <;> simp

/-- After `schedule` the head of `ready_list` runs. -/
theorem abs_dispatch {s : State} (h : Parked s) : s.dispatch.abs =
    { running := (s.readyList.map s.job).head?
      used := 0
      waiting := (s.readyList.map s.job).tail
      charged := chargedIn s.idleThread s.trace
      finished := freedIn s.trace ++
        if s.reaped s.threadRunningVar then [s.tidOf s.threadRunningVar] else []
      submitted := createdIn s.trace } := by
  obtain ⟨hch, hcr, -, hfr⟩ := dispatch_logs s
  have hjob : ∀ a ∈ s.readyList, s.dispatch.job a = s.job a := by
    intro a ha
    refine State.job_dispatch fun hr => ?_
    have hst := (h.ready a ha).1
    rw [hr.2.2.1] at hst
    cases hst
  have hrun : s.dispatch.abs.running = (s.readyList.map s.job).head? := by
    cases hr : s.readyList with
    | nil =>
        obtain ⟨i, hi, -⟩ := h.idle
        have hsucc : s.succ = i := State.succ_nil hr hi
        show (if s.idleThread = some s.succ then none else _) = _
        rw [hsucc, if_pos hi]
        rfl
    | cons t rest =>
        have ht : t ∈ s.readyList := by rw [hr]; exact List.mem_cons_self ..
        have hsucc : s.succ = t := State.succ_cons hr
        show (if s.idleThread = some s.succ then none else some (s.dispatch.job s.succ)) = _
        rw [hsucc, if_neg (h.ready t ht).2.1.1, hjob t ht]
        rfl
  have hwait : s.dispatch.abs.waiting = (s.readyList.map s.job).tail := by
    show s.readyList.tail.map s.dispatch.job = _
    rw [← List.map_tail]
    exact List.map_congr_left fun a ha => hjob a (List.mem_of_mem_tail ha)
  rw [← hrun, ← hwait, ← hch, ← hcr, ← hfr]
  rfl

theorem Workload.of_dispatch {s : State} (h : Parked s) (hawake : s.listaEspera = [])
    (hunforced : s.threadExitOnReturn = 0) (hneeds : ∀ a ∈ s.readyList, 0 < s.durationOf a)
    (hnum : ∀ j ∈ createdIn s.trace, j.1 < s.nextTid)
    (hexits : exitedIn s.trace = freedIn s.trace ++
      if s.reaped s.threadRunningVar then [s.tidOf s.threadRunningVar] else []) :
    Workload s.dispatch := by
  obtain ⟨-, hcr, hex, hfr⟩ := dispatch_logs s
  have hdur : ∀ a ∈ s.readyList, s.dispatch.durationOf a = s.durationOf a := by
    intro a ha
    refine State.durationOf_dispatch fun hr => ?_
    have hst := (h.ready a ha).1
    rw [hr.2.2.1] at hst
    cases hst
  refine ⟨h.dispatch, hawake, hunforced, ?_, ?_, ?_, ?_, ?_⟩
  · intro hi
    show s.readyList.tail = []
    rw [h.toLinked.alone_of_idle hi]
    rfl
  · intro a ha
    have ha' := List.mem_of_mem_tail ha
    rw [hdur a ha']
    exact hneeds a ha'
  · intro hw
    obtain ⟨rest, hr⟩ := h.toLinked.succ_spec.2.2 hw
    have hmem : s.succ ∈ s.readyList := by rw [hr]; exact List.mem_cons_self ..
    show 0 ≤ s.dispatch.durationOf s.succ
    rw [hdur _ hmem]
    exact Int.le_of_lt (hneeds _ hmem)
  · intro j hj
    rw [hcr] at hj
    exact hnum j hj
  · rw [hex, hfr]
    exact hexits

/-! ## The idle thread blocks -/

/-- A thread is freed only if it is dying. -/
theorem not_reaped_of_status {s : State} {a : Addr} (h : s.statusOf a ≠ some .dying) :
    ¬ s.reaped a :=
  fun hr => h hr.2.2.1

/-- `schedule` does not free a thread that set its own status to another than DYING. -/
theorem Inv.not_reaped {s m : State} (h : Inv s) {st : ThreadStatus} (hst : st ≠ .dying)
    (hm : ∀ a, m.statusOf a = (s.setStatus s.threadRunningVar st).statusOf a)
    (hcur : m.threadRunningVar = s.threadRunningVar) : ¬ m.reaped m.threadRunningVar := by
  refine not_reaped_of_status ?_
  rw [hm, hcur, h.toLinked.statusOf_set (h.registered _ h.live_current), if_pos rfl]
  exact fun he => hst (Option.some.inj he)

theorem abs_blocked {s : State} (h : Inv s) (hi : s.idleThread = some s.threadRunningVar) :
    s.blocked.abs =
      { s.abs with
        running := s.abs.waiting.head?
        used := 0
        waiting := s.abs.waiting.tail } := by
  have hp : Parked (s.setCurrent .blocked) := (Stop.block hi).parked h
  have hkeep : ¬ (s.setCurrent .blocked).reaped (s.setCurrent .blocked).threadRunningVar :=
    h.not_reaped (show ThreadStatus.blocked ≠ .dying by decide) (fun _ => rfl) rfl
  have hjob : (s.setCurrent .blocked).job = s.job := State.job_setStatus _ _ s
  refine (abs_dispatch hp).trans ?_
  rw [if_neg hkeep, List.append_nil, hjob]
  rfl

theorem Workload.of_blocked {s : State} (h : Inv s) (hi : s.idleThread = some s.threadRunningVar)
    (hawake : s.listaEspera = []) (hunforced : s.threadExitOnReturn = 0)
    (hneeds : ∀ a ∈ s.readyList, 0 < s.durationOf a)
    (hnum : ∀ j ∈ createdIn s.trace, j.1 < s.nextTid)
    (hexits : exitedIn s.trace = freedIn s.trace) : Workload s.blocked := by
  have hp : Parked (s.setCurrent .blocked) := (Stop.block hi).parked h
  have hkeep : ¬ (s.setCurrent .blocked).reaped (s.setCurrent .blocked).threadRunningVar :=
    h.not_reaped (show ThreadStatus.blocked ≠ .dying by decide) (fun _ => rfl) rfl
  refine Workload.of_dispatch hp hawake hunforced (fun a ha => ?_) hnum ?_
  · rw [State.setCurrent, State.durationOf_setStatus]
    exact hneeds a ha
  · rw [if_neg hkeep, List.append_nil]
    exact hexits

namespace Workload

variable {s : State}

theorem tidy (h : Workload s) : s.abs.Tidy := by
  refine ⟨fun hr => ?_, fun j hj => ?_⟩
  · have hi : s.idleThread = some s.threadRunningVar := by
      by_contra hne
      simp only [State.abs, if_neg hne] at hr
      cases hr
    show s.readyList.map s.job = []
    rw [h.idleAlone hi]
    rfl
  · obtain ⟨a, ha, rfl⟩ := List.mem_map.mp hj
    have hpos := h.needs a ha
    show 0 < (s.durationOf a).toNat
    omega

/-! ## `timer_interrupt` is a tick -/

theorem ticked_eq (h : Workload s) : s.ticked = s.charge := by
  rw [State.ticked, h.awake]
  rfl

theorem charge_logs (s : State) :
    chargedIn s.idleThread s.charge.trace = chargedIn s.idleThread s.trace ++
      (if s.idleThread = some s.threadRunningVar then [] else [s.tidOf s.threadRunningVar]) ∧
    createdIn s.charge.trace = createdIn s.trace ∧
    exitedIn s.charge.trace = exitedIn s.trace ∧ freedIn s.charge.trace = freedIn s.trace := by
  simp only [State.charge, chargedIn, createdIn, exitedIn, freedIn, List.filterMap_append]
  split_ifs with hi <;> simp [hi]

theorem abs_ticked (h : Workload s) : s.ticked.abs = s.abs.tick (2 ^ 32) := by
  obtain ⟨hch, hcr, -, hfr⟩ := charge_logs s
  have hwait : s.readyList.map s.charge.job = s.readyList.map s.job := by
    refine List.map_congr_left fun a ha => ?_
    have hne : a ≠ s.threadRunningVar := fun he => h.not_ready (he ▸ ha)
    rw [State.job, State.tidOf_charge, h.toInv.hasCurrent.durationOf_charge, if_neg hne, State.job]
  rw [h.ticked_eq]
  by_cases hi : s.idleThread = some s.threadRunningVar
  · have hrun : s.abs.running = none := if_pos hi
    rw [Dispatcher.tick_idle hrun]
    rw [if_pos hi, List.append_nil] at hch
    show Dispatcher.mk (if s.idleThread = some s.threadRunningVar then none else _) _
      (s.readyList.map s.charge.job) (chargedIn s.idleThread s.charge.trace)
      (freedIn s.charge.trace) (createdIn s.charge.trace) = _
    rw [if_pos hi, hwait, hch, hfr, hcr, ← hrun]
    rfl
  · have hrun : s.abs.running = some (s.tidOf s.threadRunningVar,
        (s.durationOf s.threadRunningVar).toNat) := if_neg hi
    rw [Dispatcher.tick_busy hrun]
    rw [if_neg hi] at hch
    have hjob : s.charge.job s.threadRunningVar = (s.tidOf s.threadRunningVar,
        (s.durationOf s.threadRunningVar).toNat - 1) := by
      rw [State.job, State.tidOf_charge, h.toInv.hasCurrent.durationOf_charge, if_pos rfl]
      congr 1
      omega
    show Dispatcher.mk (if s.idleThread = some s.threadRunningVar then none else
        some (s.charge.job s.threadRunningVar)) _
      (s.readyList.map s.charge.job) (chargedIn s.idleThread s.charge.trace)
      (freedIn s.charge.trace) (createdIn s.charge.trace) = _
    rw [if_neg hi, hwait, hch, hfr, hcr, hjob]
    rfl

theorem ticked (h : Workload s) (hn : s.abs.Needy) : Workload s.ticked := by
  obtain ⟨-, hcr, hex, hfr⟩ := charge_logs s
  rw [h.ticked_eq]
  refine ⟨h.toInv.charge, h.awake, h.unforced, h.idleAlone, ?_, ?_, ?_, ?_⟩
  · intro a ha
    have hne : a ≠ s.threadRunningVar := fun he => h.not_ready (he ▸ ha)
    rw [h.toInv.hasCurrent.durationOf_charge, if_neg hne]
    exact h.needs a ha
  · intro hw
    have hrun : s.abs.running = some (s.tidOf s.threadRunningVar,
        (s.durationOf s.threadRunningVar).toNat) := if_neg hw.1
    have hpos := hn _ _ hrun
    show 0 ≤ s.charge.durationOf s.threadRunningVar
    rw [h.toInv.hasCurrent.durationOf_charge, if_pos rfl]
    omega
  · intro j hj
    rw [hcr] at hj
    exact h.numbered j hj
  · rw [hex, hfr]
    exact h.exits

/-! ## `thread_create` is a submission -/

theorem adopt_logs (s : State) (b : Nat) (d : Int) :
    chargedIn s.idleThread (s.adopt b d).trace = chargedIn s.idleThread s.trace ∧
    createdIn (s.adopt b d).trace = createdIn s.trace ++ [(s.nextTid, d.toNat)] ∧
    exitedIn (s.adopt b d).trace = exitedIn s.trace ∧
    freedIn (s.adopt b d).trace = freedIn s.trace := by
  simp [State.adopt, chargedIn, createdIn, exitedIn, freedIn]

theorem adopt_job_new (s : State) (b : Nat) (d : Int) :
    (s.adopt b d).job (.block b) = (s.nextTid, d.toNat) := by
  simp [State.job, State.tidOf, State.durationOf, State.adopt]

/-- A new thread while a worker runs waits. -/
theorem abs_adopt (h : Workload s) {b : Nat} (hb : s.heap (.block b) = none) (d : Int) :
    (s.adopt b d).abs =
      { s.abs with
        waiting := s.abs.waiting ++ [(s.nextTid, d.toNat)]
        submitted := s.abs.submitted ++ [(s.nextTid, d.toNat)] } := by
  obtain ⟨hch, hcr, -, hfr⟩ := adopt_logs s b d
  have hjob : ∀ a, s.statusOf a ≠ none → (s.adopt b d).job a = s.job a := by
    intro a ha
    have hne : a ≠ .block b := State.ne_fresh hb ha
    rw [State.job, State.tidOf_adopt hne, State.durationOf_adopt hne, State.job]
  have hwait : (s.readyList ++ [Addr.block b]).map (s.adopt b d).job =
      s.readyList.map s.job ++ [(s.nextTid, d.toNat)] := by
    rw [List.map_append, List.map_singleton, adopt_job_new]
    refine congrArg (· ++ _) (List.map_congr_left fun a ha => hjob a ?_)
    exact h.live a (h.ready a ha).2.2
  show Dispatcher.mk (if s.idleThread = some s.threadRunningVar then none else
      some ((s.adopt b d).job s.threadRunningVar)) _ ((s.readyList ++ [Addr.block b]).map _)
    (chargedIn s.idleThread (s.adopt b d).trace) (freedIn (s.adopt b d).trace)
    (createdIn (s.adopt b d).trace) = _
  rw [hwait, hch, hcr, hfr, hjob _ h.live_current]
  rfl

theorem adopt_needs (h : Workload s) {b : Nat} (hb : s.heap (.block b) = none) {d : Int}
    (hd : 0 < d) : ∀ a ∈ (s.adopt b d).readyList, 0 < (s.adopt b d).durationOf a := by
  intro a ha
  rcases List.mem_append.mp ha with ha | ha
  · have hne : a ≠ .block b := State.ne_fresh hb (h.live a (h.ready a ha).2.2)
    rw [State.durationOf_adopt hne]
    exact h.needs a ha
  · cases List.mem_singleton.mp ha
    simpa [State.durationOf, State.adopt] using hd

theorem adopt_numbered (h : Workload s) (b : Nat) (d : Int) :
    ∀ j ∈ createdIn (s.adopt b d).trace, j.1 < (s.adopt b d).nextTid := by
  intro j hj
  rw [(adopt_logs s b d).2.1] at hj
  rcases List.mem_append.mp hj with hj | hj
  · exact Nat.lt_succ_of_lt (h.numbered j hj)
  · cases List.mem_singleton.mp hj
    exact Nat.lt_succ_self _

/-- `thread_create` with a positive duration. -/
theorem created (h : Workload s) {b : Nat} (hb : s.heap (.block b) = none) {d : Int}
    (hd : 0 < d) : Workload (s.created (some b) d) ∧
      (s.created (some b) d).abs = s.abs.submit s.nextTid d.toNat := by
  obtain ⟨-, -, hex, hfr⟩ := adopt_logs s b d
  have hinv : Inv (s.adopt b d) := h.toInv.adopt hb d
  have habs := h.abs_adopt hb d
  by_cases hi : s.idleThread = some s.threadRunningVar
  · have hblock : s.created (some b) d = (s.adopt b d).blocked := by
      rw [State.created, State.idleBlocked, if_pos (by exact hi)]
    have hrun : s.abs.running = none := if_pos hi
    rw [hblock]
    refine ⟨Workload.of_blocked hinv hi h.awake h.unforced (h.adopt_needs hb hd)
      (h.adopt_numbered b d) (by rw [hex, hfr, h.exits]), ?_⟩
    have hwait : s.abs.waiting = [] := h.tidy.idle hrun
    rw [abs_blocked hinv hi, habs, Dispatcher.submit_idle hrun, hwait]
    rfl
  · have hsame : s.created (some b) d = s.adopt b d := by
      rw [State.created, State.idleBlocked, if_neg (by exact hi)]
    have hrun : s.abs.running = some (s.job s.threadRunningVar) := if_neg hi
    have hne : s.threadRunningVar ≠ .block b := by
      intro he
      exact h.live_current (by rw [he, State.statusOf, hb]; rfl)
    rw [hsame]
    refine ⟨⟨hinv, h.awake, h.unforced, fun hi' => absurd hi' hi, h.adopt_needs hb hd, ?_,
      h.adopt_numbered b d, by rw [hex, hfr, h.exits]⟩, ?_⟩
    · intro hw
      show 0 ≤ (s.adopt b d).durationOf s.threadRunningVar
      rw [State.durationOf_adopt hne]
      exact h.nonneg hw
    · rw [habs, Dispatcher.submit_busy hrun]

/-! ## `after_interrupt` is a poll -/

theorem running_worker (hi : s.idleThread ≠ some s.threadRunningVar) :
    s.abs.running = some (s.tidOf s.threadRunningVar, (s.durationOf s.threadRunningVar).toNat) :=
  if_neg hi

/-- Nothing is forced to exit. -/
theorem forced_eq (h : s.threadExitOnReturn = 0) : s.forced = s := by
  rw [State.forced, if_neg fun hf => hf.1 h]

/-- A poll of the idle thread: it blocks and is dispatched again. -/
theorem polled_idle (h : Workload s) (hi : s.idleThread = some s.threadRunningVar) :
    s.polled = s.blocked ∧ Workload s.blocked ∧ s.blocked.abs = { s.abs with used := 0 } := by
  have hw := Workload.of_blocked h.toInv hi h.awake h.unforced h.needs h.numbered h.exits
  have hrun : s.abs.running = none := if_pos hi
  have hwait : s.abs.waiting = [] := h.tidy.idle hrun
  have hready : s.blocked.readyList = [] := by
    show s.readyList.tail = []
    rw [h.idleAlone hi]
    rfl
  have habs : s.blocked.abs = { s.abs with used := 0 } := by
    rw [abs_blocked h.toInv hi]
    simp only [hrun, hwait, List.head?_nil, List.tail_nil]
  have hidle : ¬ s.blocked.worker s.blocked.threadRunningVar := by
    intro hwk
    have hnone : s.blocked.abs.running = none := by rw [habs]; exact hrun
    rw [running_worker hwk.1] at hnone
    cases hnone
  have hexp : s.blocked.expired = s.blocked := by
    unfold State.expired
    split_ifs with h₁ h₂
    · rw [State.exited, if_neg hidle, State.yielded, if_pos hready]
    · exact absurd hready h₂.2.1
    · rfl
  refine ⟨?_, hw, habs⟩
  rw [State.polled, State.idleBlocked, if_pos hi, hexp, forced_eq hw.unforced]

/-- A worker without ticks left exits. -/
theorem exitedCurrent (h : Workload s) (hw : s.worker s.threadRunningVar) :
    Workload s.exitedCurrent ∧ s.exitedCurrent.abs =
      { s.abs.next [] with finished := s.abs.finished ++ [s.tidOf s.threadRunningVar] } := by
  have hp : Parked (s.unregister.setCurrent .dying) := (Stop.exit hw).parked h.toInv
  have hreap : (s.unregister.setCurrent .dying).reaped s.threadRunningVar := by
    refine ⟨rfl, ?_, ?_, hw.2⟩
    · intro hsucc
      obtain ⟨rest, hr⟩ := hp.toLinked.succ_spec.2.2 (hsucc ▸ hw)
      exact h.not_ready (by rw [show s.readyList = _ from hr, hsucc]; exact List.mem_cons_self ..)
    · exact (h.toLinked.statusOf_set (h.registered _ h.live_current) _ _).trans (if_pos rfl)
  have htid : (s.unregister.setCurrent .dying).tidOf s.threadRunningVar =
      s.tidOf s.threadRunningVar := State.tidOf_setStatus _ _ _ _
  have hjob : (s.unregister.setCurrent .dying).job = s.job := State.job_setStatus _ _ _
  have hlogs : chargedIn s.idleThread s.unregister.trace = chargedIn s.idleThread s.trace ∧
      createdIn s.unregister.trace = createdIn s.trace ∧
      exitedIn s.unregister.trace = exitedIn s.trace ++ [s.tidOf s.threadRunningVar] ∧
      freedIn s.unregister.trace = freedIn s.trace := by
    simp [State.unregister, State.log, chargedIn, createdIn, exitedIn, freedIn]
  obtain ⟨hch, hcr, hex, hfr⟩ := hlogs
  constructor
  · refine Workload.of_dispatch hp h.awake h.unforced (fun a ha => ?_) (fun j hj => ?_) ?_
    · rw [State.setCurrent, State.durationOf_setStatus]
      exact h.needs a ha
    · exact h.numbered j (hcr ▸ hj)
    · refine hex.trans ?_
      rw [if_pos (by exact hreap), h.exits, ← hfr, ← htid]
      rfl
  · refine (abs_dispatch hp).trans ?_
    rw [if_pos (by exact hreap), hjob]
    show Dispatcher.mk _ 0 _ (chargedIn s.idleThread s.unregister.trace)
      (freedIn s.unregister.trace ++ [_]) (createdIn s.unregister.trace) = _
    rw [hch, hfr, hcr]
    refine (congrArg (fun x => Dispatcher.mk _ 0 _ _ (freedIn s.trace ++ [x]) _) htid).trans ?_
    simp only [Dispatcher.next, List.append_nil]
    rfl

/-- A worker yields to the head of `ready_list`. -/
theorem yieldedTo (h : Workload s) (hw : s.worker s.threadRunningVar) (hr : s.readyList ≠ [])
    (hd : 0 < s.durationOf s.threadRunningVar) : Workload s.yieldedTo ∧
      s.yieldedTo.abs = s.abs.next [s.job s.threadRunningVar] := by
  have hq : s.requeued = s.enqueue s.threadRunningVar := if_pos hw
  have hp : Parked (s.requeued.setStatus s.threadRunningVar .ready) :=
    (Stop.yield hr).parked h.toInv
  rw [State.yieldedTo]
  rw [hq] at hp ⊢
  have hkeep := h.toInv.not_reaped (show ThreadStatus.ready ≠ .dying by decide)
    (m := (s.enqueue s.threadRunningVar).setStatus s.threadRunningVar .ready) (fun _ => rfl) rfl
  have hjob : ((s.enqueue s.threadRunningVar).setStatus s.threadRunningVar .ready).job = s.job :=
    State.job_setStatus _ _ _
  have hlogs : chargedIn s.idleThread (s.enqueue s.threadRunningVar).trace =
        chargedIn s.idleThread s.trace ∧
      createdIn (s.enqueue s.threadRunningVar).trace = createdIn s.trace ∧
      exitedIn (s.enqueue s.threadRunningVar).trace = exitedIn s.trace ∧
      freedIn (s.enqueue s.threadRunningVar).trace = freedIn s.trace := by
    simp [State.enqueue, State.log, chargedIn, createdIn, exitedIn, freedIn]
  obtain ⟨hch, hcr, hex, hfr⟩ := hlogs
  constructor
  · refine Workload.of_dispatch hp h.awake h.unforced (fun a ha => ?_) (fun j hj => ?_) ?_
    · rw [State.durationOf_setStatus]
      rcases List.mem_append.mp ha with ha | ha
      · exact h.needs a ha
      · cases List.mem_singleton.mp ha
        exact hd
    · exact h.numbered j (hcr ▸ hj)
    · rw [if_neg hkeep, List.append_nil]
      exact hex.trans (h.exits.trans hfr.symm)
  · refine (abs_dispatch hp).trans ?_
    rw [if_neg hkeep, List.append_nil, hjob]
    show Dispatcher.mk ((s.readyList ++ [s.threadRunningVar]).map s.job).head? 0
      ((s.readyList ++ [s.threadRunningVar]).map s.job).tail
      (chargedIn s.idleThread (s.enqueue s.threadRunningVar).trace)
      (freedIn (s.enqueue s.threadRunningVar).trace)
      (createdIn (s.enqueue s.threadRunningVar).trace) = _
    rw [hch, hfr, hcr, List.map_append]
    rfl

theorem abs_polled (h : Workload s) :
    Workload s.polled ∧ s.polled.abs = s.abs.poll s.quantum := by
  by_cases hi : s.idleThread = some s.threadRunningVar
  · obtain ⟨heq, hw, habs⟩ := h.polled_idle hi
    rw [heq]
    exact ⟨hw, habs.trans (Dispatcher.poll_idle (if_pos hi)).symm⟩
  · have hw : s.worker s.threadRunningVar := h.toInv.worker_of_not_idle hi
    have hrun := running_worker hi
    have hnn := h.nonneg hw
    have hblock : s.idleBlocked = s := if_neg hi
    rw [State.polled, hblock]
    by_cases hd : s.durationOf s.threadRunningVar ≤ 0
    · have hz : (s.durationOf s.threadRunningVar).toNat = 0 := by omega
      obtain ⟨hwork, habs⟩ := h.exitedCurrent hw
      have hexp : s.expired = s.exitedCurrent := by
        rw [State.expired, if_pos hd, State.exited, if_pos hw]
      rw [hexp, forced_eq hwork.unforced]
      rw [hz] at hrun
      exact ⟨hwork, habs.trans (Dispatcher.poll_done hrun).symm⟩
    · have hpos : 0 < (s.durationOf s.threadRunningVar).toNat := by omega
      by_cases hp : s.preempted
      · obtain ⟨hwork, habs⟩ := h.yieldedTo hw hp.2.1 (by omega)
        have hexp : s.expired = s.yieldedTo := by
          rw [State.expired, if_neg hd, if_pos hp, State.yielded, if_neg hp.2.1]
        have hwait : s.abs.waiting ≠ [] := by simpa [State.abs] using hp.2.1
        have hq : s.quantum = some s.roundRobinTicks := if_neg hp.1
        rw [hexp, forced_eq hwork.unforced, hq]
        exact ⟨hwork, habs.trans (Dispatcher.poll_rotate hrun hpos hwait hp.2.2).symm⟩
      · have hexp : s.expired = s := by rw [State.expired, if_neg hd, if_neg hp]
        rw [hexp, forced_eq h.unforced]
        refine ⟨h, (Dispatcher.poll_stay hrun hpos fun q hq hwait => ?_).symm⟩
        have hmode : s.roundRobinMode ≠ 0 := by
          intro hm
          rw [State.quantum, if_pos hm] at hq
          cases hq
        rw [State.quantum, if_neg hmode] at hq
        cases hq
        have hready : s.readyList ≠ [] := by simpa [State.abs] using hwait
        exact Nat.lt_of_not_le fun hle => hp ⟨hmode, hready, hle⟩

end Workload

end PicoOS
