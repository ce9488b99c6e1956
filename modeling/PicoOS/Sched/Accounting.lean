/-
# `PicoOS.Sched.Accounting` — who pays for a tick

A `timer_interrupt` takes one tick from the `duration_ticks` of the current
thread and adds one to `idle_ticks` or `kernel_ticks`.  `Books` are kept beside
the run, from the calls alone: what each thread was given when it was created,
and how many ticks came in while it was current.  `Balanced` says that the
counters of the scheduler agree with the books after every call.

What remains to a thread when `after_interrupt` removes it is at most nothing.
It is exactly nothing if no thread gives up the processor between a tick and the
`after_interrupt` that follows it: then (`Solvent`) every thread that waits has
ticks left, and so has the current one unless a tick has just come in.
-/
import PicoOS.Sched.LifeCycle
import PicoOS.Sched.Policies

namespace PicoOS

open Interruptible Runs

/-! ## The books -/

/-- What each thread, known by its `tid`, was given, and the ticks that came in while it was
current. -/
structure Books where
  given : Nat → Int
  count : Nat → Nat

namespace Books

/-- The books at the end of the boot: `init_thread` gives `initial_thread` its ticks, and `k` of
them came in; `thread_start` gives `idle_thread` its. -/
def opened (k : Nat) : Books where
  given tid := if tid = 1 then 9999999 else if tid = 2 then 999 else 0
  count tid := if tid = 1 then k else 0

/-- The entry for a call made in the state `s`. -/
def post (B : Books) (s : State) : Op → Books
  | .threadCreate _ (some _) duration =>
      { B with given := Function.update B.given s.nextTid duration.toInt }
  | .timerInterrupt =>
      let tid := s.tidOf s.threadRunningVar
      { B with count := Function.update B.count tid (B.count tid + 1) }
  | _ => B

end Books

/-- One call that returns, with its entry. -/
def Booked (x : State × Books) (op : Op) (y : State × Books) : Prop :=
  Step x.1 op y.1 ∧ y.2 = x.2.post x.1 op

/-- The counters of the scheduler agree with the books. -/
structure Balanced (s : State) (B : Books) : Prop where
  total : s.ticks = s.idleTicks + s.kernelTicks
  owed : ∀ a ∈ s.allList, B.given (s.tidOf a) - s.durationOf a = B.count (s.tidOf a)
  idle : ∀ i, s.idleThread = some i → s.idleTicks = B.count (s.tidOf i)
  unborn : ∀ tid, s.nextTid ≤ tid → B.count tid = 0

/-- The call does not make the current thread give up the processor and come back. -/
def Op.steady : Op → Prop
  | .threadSleep _ | .timerSleep _ | .threadYield => False
  | _ => True

/-! ## Calls that charge nobody -/

/-- From `s` to `t` no thread is born or charged. -/
structure Quiet (s t : State) : Prop where
  kept : ∀ a ∈ t.allList, a ∈ s.allList ∧ t.tidOf a = s.tidOf a ∧ t.durationOf a = s.durationOf a
  idle : t.idleThread = s.idleThread
  initial : t.initialThread = s.initialThread
  ticks : t.ticks = s.ticks
  idleTicks : t.idleTicks = s.idleTicks
  kernelTicks : t.kernelTicks = s.kernelTicks
  nextTid : t.nextTid = s.nextTid

namespace Quiet

variable {s t u : State}

theorem refl (s : State) : Quiet s s :=
  ⟨fun _ ha => ⟨ha, rfl, rfl⟩, rfl, rfl, rfl, rfl, rfl, rfl⟩

theorem trans (h₁ : Quiet s t) (h₂ : Quiet t u) : Quiet s u where
  kept := by
    intro a ha
    obtain ⟨ht, htid, hdur⟩ := h₂.kept a ha
    obtain ⟨hs, htid', hdur'⟩ := h₁.kept a ht
    exact ⟨hs, htid.trans htid', hdur.trans hdur'⟩
  idle := h₂.idle.trans h₁.idle
  initial := h₂.initial.trans h₁.initial
  ticks := h₂.ticks.trans h₁.ticks
  idleTicks := h₂.idleTicks.trans h₁.idleTicks
  kernelTicks := h₂.kernelTicks.trans h₁.kernelTicks
  nextTid := h₂.nextTid.trans h₁.nextTid

/-- Only a thread's status or deadline changes. -/
theorem map {a : Addr} {f : Thread → Thread} (htid : ∀ th, (f th).tid = th.tid)
    (hdur : ∀ th, (f th).durationTicks = th.durationTicks) (s : State) :
    Quiet s (s.mapThread a f) :=
  ⟨fun _ hb => ⟨hb, State.tidOf_mapThread htid s, State.durationOf_mapThread hdur s⟩,
    rfl, rfl, rfl, rfl, rfl, rfl⟩

theorem requeued (s : State) : Quiet s s.requeued := by
  unfold State.requeued
  split_ifs
  · exact ⟨fun _ ha => ⟨ha, rfl, rfl⟩, rfl, rfl, rfl, rfl, rfl, rfl⟩
  · exact refl s

/-- `schedule`, if it frees no registered thread. -/
theorem dispatch (h : ∀ a ∈ s.allList, ¬ s.reaped a) : Quiet s s.dispatch :=
  ⟨fun a ha => ⟨ha, State.tidOf_dispatch (h a ha), State.durationOf_dispatch (h a ha)⟩,
    rfl, rfl, rfl, rfl, rfl, rfl⟩

theorem setStatus (a : Addr) (st : ThreadStatus) (s : State) : Quiet s (s.setStatus a st) :=
  map (f := fun th => { th with status := st }) (fun _ => rfl) (fun _ => rfl) s

/-- The current thread stops and `schedule` finds another. -/
theorem switch {m : State} (hs : Inv s) (hm : Stop s m) : Quiet s m.dispatch := by
  have hspared : ∀ a ∈ m.allList, ¬ m.reaped a := by
    rintro a ha ⟨rfl, -, hd, -⟩
    exact ((hm.parked hs).dying hd).1 ha
  refine trans ?_ (dispatch hspared)
  cases hm with
  | block => exact setStatus _ _ s
  | yield => exact (requeued s).trans (setStatus _ _ _)
  | exit =>
      refine trans (t := s.unregister) ?_ (setStatus _ _ _)
      exact ⟨fun a ha => ⟨List.mem_of_mem_erase ha, rfl, rfl⟩, rfl, rfl, rfl, rfl, rfl, rfl⟩
  | sleep =>
      refine trans (t := s.drowsy) ?_ (setStatus _ _ _)
      exact ⟨fun a ha => ⟨ha, rfl, rfl⟩, rfl, rfl, rfl, rfl, rfl, rfl⟩

theorem config (s : State) (m : Int) (q : Nat) (e : Int) :
    Quiet s { s with roundRobinMode := m, roundRobinTicks := q, threadExitOnReturn := e } :=
  ⟨fun _ ha => ⟨ha, rfl, rfl⟩, rfl, rfl, rfl, rfl, rfl, rfl⟩

theorem idleBlocked (hs : Inv s) : Quiet s s.idleBlocked := by
  unfold State.idleBlocked
  split_ifs with hi
  · exact switch hs (.block hi)
  · exact refl s

theorem yielded (hs : Inv s) : Quiet s s.yielded := by
  unfold State.yielded
  split_ifs with hr
  · exact refl s
  · exact switch hs (.yield hr)

theorem exited (hs : Inv s) : Quiet s s.exited := by
  unfold State.exited
  split_ifs with hw
  · exact switch hs (.exit hw)
  · exact yielded hs

theorem expired (hs : Inv s) : Quiet s s.expired := by
  unfold State.expired
  split_ifs
  · exact exited hs
  · exact yielded hs
  · exact refl s

theorem forced (hs : Inv s) : Quiet s s.forced := by
  unfold State.forced
  split_ifs
  · exact (exited hs).trans (config _ _ _ 0)
  · exact refl s

theorem slept (hs : Inv s) (hw : s.worker s.threadRunningVar) (n : Int) : Quiet s (s.slept n) := by
  unfold State.slept
  split_ifs
  · refine trans ?_ (switch (s := s.setSleep (toUInt64 (s.ticks + n))) (hs.setSleep _) (.sleep hw))
    exact map (f := fun th => { th with sleepTime := toUInt64 (s.ticks + n) }) (fun _ => rfl)
      (fun _ => rfl) s
  · exact refl s

theorem wakeOne (a : Addr) (s : State) : Quiet s (s.wakeOne a) := by
  refine trans (t := { s with listaEspera := s.listaEspera.erase a }.enqueue a) ?_
    (setStatus a .ready _)
  exact ⟨fun a ha => ⟨ha, rfl, rfl⟩, rfl, rfl, rfl, rfl, rfl, rfl⟩

theorem wakeList (k : Nat) : ∀ (l : List Addr) (s : State), Quiet s (s.wakeList k l)
  | [], s => refl s
  | a :: rest, s => by
      rw [State.wakeList]
      split_ifs
      · exact (wakeOne a s).trans (wakeList k rest _)
      · exact wakeList k rest s

theorem withQuantum (s : State) (mode rrticks : Int) : Quiet s (s.withQuantum mode rrticks) := by
  unfold State.withQuantum
  split_ifs
  · exact config s 0 s.roundRobinTicks s.threadExitOnReturn
  · exact config s 1 rrticks.toNat s.threadExitOnReturn
  · exact refl s

theorem polled (hs : Inv s) : Quiet s s.polled := by
  have h₁ : Inv s.idleBlocked := (moves_idleBlocked s).inv hs
  exact (idleBlocked hs).trans ((expired h₁).trans (forced ((moves_expired _).inv h₁)))

end Quiet

/-! ## The books balance -/

section Balanced

variable {s t : State} {B : Books}

theorem Balanced.quiet (h : Balanced s B) (ht : Inv t) (hq : Quiet s t) : Balanced t B where
  total := by
    rw [hq.ticks, hq.idleTicks, hq.kernelTicks]
    exact h.total
  owed := by
    intro a ha
    obtain ⟨hmem, htid, hdur⟩ := hq.kept a ha
    rw [htid, hdur]
    exact h.owed a hmem
  idle := by
    intro i hi
    obtain ⟨j, hj, hall, -⟩ := ht.idle
    cases hi.symm.trans hj
    rw [hq.idleTicks, (hq.kept i hall).2.1]
    exact h.idle i (hq.idle ▸ hi)
  unborn := by
    rw [hq.nextTid]
    exact h.unborn

/-- Threads are told apart by their `tid`s. -/
theorem Registry.tid_inj (h : Registry s) {a b : Addr} (ha : a ∈ s.allList) (hb : b ∈ s.allList)
    (he : s.tidOf a = s.tidOf b) : a = b :=
  List.inj_on_of_nodup_map (h.increasing.imp Nat.ne_of_lt) ha hb he

/-- A tick, charged to the current thread. -/
theorem Balanced.charge (h : Balanced s B) (hs : Inv s) (hr : Registry s) :
    Balanced s.charge (B.post s .timerInterrupt) := by
  have hcur : s.threadRunningVar ∈ s.allList := hs.registered _ hs.live_current
  have hcount : ∀ a ∈ s.allList, (B.post s .timerInterrupt).count (s.tidOf a) =
      if a = s.threadRunningVar then B.count (s.tidOf a) + 1 else B.count (s.tidOf a) := by
    intro a ha
    show Function.update B.count _ _ _ = _
    rw [Function.update_apply]
    split_ifs with htid hc hc
    · rw [htid]
    · exact absurd (hr.tid_inj ha hcur htid) hc
    · exact absurd (congrArg s.tidOf hc) htid
    · rfl
  refine ⟨?_, fun a ha => ?_, fun i hi => ?_, fun tid htid => ?_⟩
  · have htotal := h.total
    simp only [State.charge]
    split_ifs <;> omega
  · have hown := h.owed a ha
    rw [s.tidOf_charge, hs.hasCurrent.durationOf_charge, hcount a ha]
    show B.given (s.tidOf a) - _ = _
    split_ifs <;> omega
  · obtain ⟨j, hj, hall, -⟩ := hs.idle
    cases hi.symm.trans hj
    have hown := h.idle i hi
    rw [s.tidOf_charge, hcount i hall]
    simp only [State.charge, hj, Option.some.injEq]
    split_ifs <;> omega
  · have hne : tid ≠ s.tidOf s.threadRunningVar :=
      fun he => Nat.lt_irrefl _ (Nat.lt_of_lt_of_le (hr.bounded _ hcur) (he ▸ htid))
    exact (Function.update_of_ne hne _ _).trans (h.unborn tid htid)

/-- A new thread, and its ticks. -/
theorem Balanced.adopt (h : Balanced s B) (hs : Inv s) (hr : Registry s) {b : Nat}
    (hb : s.heap (.block b) = none) (name : Name) (d : Int32) :
    Balanced (s.adopt b d.toInt) (B.post s (.threadCreate name (some b) d)) := by
  have hold : ∀ a ∈ s.allList, (s.adopt b d.toInt).tidOf a = s.tidOf a ∧
      (B.post s (.threadCreate name (some b) d)).given (s.tidOf a) = B.given (s.tidOf a) :=
    fun a ha => ⟨State.tidOf_adopt (State.ne_fresh hb (hs.live a ha)) _,
      Function.update_of_ne (Nat.ne_of_lt (hr.bounded a ha)) _ _⟩
  refine ⟨h.total, fun a ha => ?_, fun i hi => ?_, fun tid htid => ?_⟩
  · rcases List.mem_append.mp ha with ha | ha
    · rw [(hold a ha).1, (hold a ha).2,
        State.durationOf_adopt (State.ne_fresh hb (hs.live a ha))]
      exact h.owed a ha
    · cases List.mem_singleton.mp ha
      have htid : (s.adopt b d.toInt).tidOf (.block b) = s.nextTid := by
        simp [State.tidOf, State.adopt]
      have hdur : (s.adopt b d.toInt).durationOf (.block b) = d.toInt := by
        simp [State.durationOf, State.adopt]
      rw [htid, hdur]
      show Function.update B.given s.nextTid d.toInt s.nextTid - d.toInt = (B.count s.nextTid : Int)
      rw [Function.update_self, h.unborn _ (Nat.le_refl _), Int.sub_self]
      rfl
  · obtain ⟨j, hj, hall, -⟩ := hs.idle
    cases hi.symm.trans hj
    rw [(hold i hall).1]
    exact h.idle i hi
  · exact h.unborn tid (Nat.le_of_succ_le htid)

theorem Balanced.booked (h : Balanced s B) (hs : Inv s) (hr : Registry s) {op : Op}
    (hstep : Step s op t) : Balanced t (B.post s op) := by
  have ht : Inv t := (hstep.moves hs).inv hs
  have heq : t = op.effect s := hstep.effect hs
  have ha := hstep.1
  subst heq
  cases op with
  | threadCreate name block d =>
      cases block with
      | none => exact h
      | some b =>
          exact (h.adopt hs hr (ha b rfl) name d).quiet ht (.idleBlocked (hs.adopt (ha b rfl) _))
  | threadSleep n => exact h.quiet ht (.slept hs (hs.worker_of_not_idle ha) n.toInt)
  | timerSleep n => exact h.quiet ht (.slept hs (hs.worker_of_not_idle ha) n.toInt)
  | threadYield => exact h.quiet ht (.yielded hs)
  | threadExit => exact h.quiet ht (.exited hs)
  | setThreadExitOnReturn => exact h.quiet ht (.config s _ _ 1)
  | scheduleSetQuantum mode rrticks => exact h.quiet ht (.withQuantum s _ _)
  | timerInterrupt => exact (h.charge hs hr).quiet ht (.wakeList _ _ _)
  | afterInterrupt => exact h.quiet ht (.polled hs)

end Balanced

/-! ## Nobody is overcharged -/

/-- Every worker that was given ticks has some left. -/
def Flush (s : State) (B : Books) : Prop :=
  ∀ a ∈ s.allList, s.worker a → 0 < B.given (s.tidOf a) → 0 < s.durationOf a

/-- Every worker that waits has ticks left if it was given any, and the current one has none only
just after a tick: `b` says that `after_interrupt` was called since. -/
structure Solvent (b : Bool) (s : State) (B : Books) : Prop where
  waiting : ∀ a ∈ s.allList, s.worker a → 0 < B.given (s.tidOf a) → a ≠ s.threadRunningVar →
    0 < s.durationOf a
  current : s.worker s.threadRunningVar → 0 < B.given (s.tidOf s.threadRunningVar) →
    0 ≤ s.durationOf s.threadRunningVar ∧ (b = true → 0 < s.durationOf s.threadRunningVar)

section Solvent

variable {s t : State} {B : Books} {b : Bool}

theorem Quiet.worker (hq : Quiet s t) {a : Addr} (h : t.worker a) : s.worker a := by
  rw [State.worker, hq.idle, hq.initial] at h
  exact h

theorem Flush.quiet (h : Flush s B) (hq : Quiet s t) : Flush t B := by
  intro a ha hw hg
  obtain ⟨hmem, htid, hdur⟩ := hq.kept a ha
  rw [hdur]
  exact h a hmem (hq.worker hw) (htid ▸ hg)

theorem Flush.solvent (h : Flush s B) (hs : Inv s) : Solvent b s B where
  waiting a ha hw hg _ := h a ha hw hg
  current hw hg := by
    have hpos := h _ (hs.registered _ hs.live_current) hw hg
    exact ⟨Int.le_of_lt hpos, fun _ => hpos⟩

/-- With the current thread paid up, everybody is. -/
theorem Solvent.flush (h : Solvent b s B) (hc : s.worker s.threadRunningVar →
    0 < B.given (s.tidOf s.threadRunningVar) → 0 < s.durationOf s.threadRunningVar) :
    Flush s B := by
  intro a ha hw hg
  by_cases hac : a = s.threadRunningVar
  · subst hac
    exact hc hw hg
  · exact h.waiting a ha hw hg hac

/-- Nothing happened but to threads that wait. -/
theorem Solvent.quiet (h : Solvent b s B) (ht : Inv t) (hq : Quiet s t)
    (hc : t.threadRunningVar = s.threadRunningVar) : Solvent b t B where
  waiting := by
    intro a ha hw hg hne
    obtain ⟨hmem, htid, hdur⟩ := hq.kept a ha
    rw [hdur]
    exact h.waiting a hmem (hq.worker hw) (htid ▸ hg) (hc ▸ hne)
  current := by
    intro hw hg
    obtain ⟨-, htid, hdur⟩ := hq.kept _ (ht.registered _ ht.live_current)
    rw [hdur]
    rw [htid] at hg
    rw [hc] at hw hg ⊢
    exact h.current (hq.worker hw) hg

theorem Solvent.idleBlocked (h : Solvent b s B) (hs : Inv s) : Solvent b s.idleBlocked B := by
  by_cases hi : s.idleThread = some s.threadRunningVar
  · have hf : Flush s B := h.flush fun hw => absurd hi hw.1
    exact (hf.quiet (.idleBlocked hs)).solvent ((moves_idleBlocked s).inv hs)
  · rw [State.idleBlocked, if_neg hi]
    exact h

theorem Solvent.exited (h : Solvent b s B) (hs : Inv s) : Flush s.exited B := by
  by_cases hw : s.worker s.threadRunningVar
  · -- The one thread that may have nothing left is gone.
    intro a ha hwa hg
    obtain ⟨hmem, htid, hdur⟩ := (Quiet.exited hs).kept a ha
    have hne : a ≠ s.threadRunningVar := by
      rintro rfl
      rw [State.exited, if_pos hw] at ha
      exact hs.allNodup.not_mem_erase ha
    rw [hdur]
    exact h.waiting a hmem ((Quiet.exited hs).worker hwa) (htid ▸ hg) hne
  · exact (h.flush fun hw' => absurd hw' hw).quiet (.exited hs)

theorem Solvent.expired (h : Solvent b s B) (hs : Inv s) : Flush s.expired B := by
  by_cases hd : s.durationOf s.threadRunningVar ≤ 0
  · rw [State.expired, if_pos hd]
    exact h.exited hs
  · exact (h.flush fun _ _ => Int.not_le.mp hd).quiet (.expired hs)

theorem Solvent.polled (h : Solvent b s B) (hs : Inv s) : Flush s.polled B := by
  have h₁ : Inv s.idleBlocked := (moves_idleBlocked s).inv hs
  exact ((h.idleBlocked hs).expired h₁).quiet (.forced ((moves_expired _).inv h₁))

theorem Solvent.adopt (h : Solvent b s B) (hs : Inv s) (hr : Registry s) {i : Nat}
    (hb : s.heap (.block i) = none) (name : Name) (d : Int32) :
    Solvent b (s.adopt i d.toInt) (B.post s (.threadCreate name (some i) d)) := by
  have hold : ∀ a ∈ s.allList, (s.adopt i d.toInt).tidOf a = s.tidOf a ∧
      (s.adopt i d.toInt).durationOf a = s.durationOf a ∧
      (B.post s (.threadCreate name (some i) d)).given (s.tidOf a) = B.given (s.tidOf a) :=
    fun a ha => ⟨State.tidOf_adopt (State.ne_fresh hb (hs.live a ha)) _,
      State.durationOf_adopt (State.ne_fresh hb (hs.live a ha)) _,
      Function.update_of_ne (Nat.ne_of_lt (hr.bounded a ha)) _ _⟩
  refine ⟨fun a ha hw hg hne => ?_, fun hw hg => ?_⟩
  · rcases List.mem_append.mp ha with ha | ha
    · obtain ⟨htid, hdur, hgiven⟩ := hold a ha
      rw [hdur]
      rw [htid, hgiven] at hg
      exact h.waiting a ha hw hg hne
    · cases List.mem_singleton.mp ha
      have htid : (s.adopt i d.toInt).tidOf (.block i) = s.nextTid := by
        simp [State.tidOf, State.adopt]
      have hdur : (s.adopt i d.toInt).durationOf (.block i) = d.toInt := by
        simp [State.durationOf, State.adopt]
      have hgiven : (B.post s (.threadCreate name (some i) d)).given s.nextTid = d.toInt :=
        Function.update_self ..
      rw [hdur]
      rw [htid, hgiven] at hg
      exact hg
  · obtain ⟨htid, hdur, hgiven⟩ := hold _ (hs.registered _ hs.live_current)
    have hcur : (s.adopt i d.toInt).threadRunningVar = s.threadRunningVar := rfl
    rw [hcur, hdur]
    rw [hcur, htid, hgiven] at hg
    exact h.current hw hg

theorem Flush.charge (h : Flush s B) (hs : Inv s) :
    Solvent false s.charge (B.post s .timerInterrupt) := by
  refine ⟨fun a ha hw hg hne => ?_, fun hw hg => ⟨?_, nofun⟩⟩
  · have hcur : a ≠ s.threadRunningVar := hne
    rw [hs.hasCurrent.durationOf_charge, if_neg hcur]
    rw [s.tidOf_charge] at hg
    exact h a ha hw hg
  · rw [s.tidOf_charge] at hg
    have hpos := h _ (hs.registered _ hs.live_current) hw hg
    have hcur : s.charge.threadRunningVar = s.threadRunningVar := rfl
    rw [hs.hasCurrent.durationOf_charge, hcur, if_pos rfl]
    omega

theorem Solvent.booked (h : Solvent b s B) (hs : Inv s) (hr : Registry s) {op : Op}
    (hop : op.steady) (hpoll : op = .timerInterrupt → b = true) (hstep : Step s op t) :
    Solvent (op.polled b) t (B.post s op) := by
  have ht : Inv t := (hstep.moves hs).inv hs
  have heq : t = op.effect s := hstep.effect hs
  have ha := hstep.1
  subst heq
  cases op with
  | threadCreate name block d =>
      cases block with
      | none => exact h
      | some i => exact (h.adopt hs hr (ha i rfl) name d).idleBlocked (hs.adopt (ha i rfl) _)
  | threadSleep n => exact hop.elim
  | timerSleep n => exact hop.elim
  | threadYield => exact hop.elim
  | threadExit => exact (h.exited hs).solvent ht
  | setThreadExitOnReturn => exact h.quiet ht (.config s _ _ 1) rfl
  | scheduleSetQuantum mode rrticks =>
      refine h.quiet ht (.withQuantum s _ _) ?_
      show (s.withQuantum mode.toInt rrticks.toInt).threadRunningVar = s.threadRunningVar
      unfold State.withQuantum
      split_ifs <;> rfl
  | timerInterrupt =>
      have hf : Flush s B := h.flush fun hw hg => (h.current hw hg).2 (hpoll rfl)
      exact (hf.charge hs).quiet ht (.wakeList _ _ _) s.ticked_current
  | afterInterrupt => exact (h.polled hs).solvent ht

end Solvent

/-! ## Runs with their books -/

theorem booked_run {x y : State × Books} {ops : List Op} (hrun : Run Booked x ops y)
    (hs : Inv x.1) (hr : Registry x.1) (hb : Balanced x.1 x.2) :
    Inv y.1 ∧ Registry y.1 ∧ Balanced y.1 y.2 := by
  refine hrun.invariant (I := fun x => Inv x.1 ∧ Registry x.1 ∧ Balanced x.1 x.2) ?_ ⟨hs, hr, hb⟩
  rintro ⟨s, B⟩ op ⟨t, C⟩ ⟨hs, hr, hb⟩ ⟨hstep, hpost⟩
  obtain ⟨ht, hrt⟩ := (hstep.moves hs).keeps (fun _ _ hi hp hm => hp.move hi hm) hs hr
  refine ⟨ht, hrt, ?_⟩
  show Balanced t C
  rw [show C = B.post s op from hpost]
  exact hb.booked hs hr hstep

theorem solvent_run {x y : State × Books} {ops : List Op} (hrun : Run Booked x ops y) :
    ∀ {b : Bool}, Inv x.1 → Registry x.1 → Solvent b x.1 x.2 → (∀ op ∈ ops, op.steady) →
      Polled b ops → ∃ b', Solvent b' y.1 y.2 := by
  induction hrun with
  | nil x => exact fun {b} _ _ h _ _ => ⟨b, h⟩
  | @cons x y z op ops hstep _ ih =>
      intro b hs hr h hops hpoll
      obtain ⟨hi, hrt⟩ := (hstep.1.moves hs).keeps (fun _ _ hi hp hm => hp.move hi hm) hs hr
      have hy : Solvent (op.polled b) y.1 y.2 := by
        rw [hstep.2]
        exact h.booked hs hr (hops op (List.mem_cons_self ..)) hpoll.1 hstep.1
      exact ih hi hrt hy (fun op hop => hops op (List.mem_cons_of_mem _ hop)) hpoll.2

/-! ## The books after the boot -/

section Boot

variable {s₀ : State} {quantum : Option Int32} {i k : Nat}

theorem quiet_boot (hrun : (boot quantum i k).run powerOn = .ok ((), s₀)) :
    Quiet ((settings quantum).booting i k) s₀ := by
  rw [run_boot] at hrun
  cases hrun
  rw [booting_yielded]
  refine (Quiet.requeued _).trans ((Quiet.setStatus _ _ _).trans (.dispatch fun a _ => ?_))
  exact booting_not_reaped _ i k a

theorem balanced_booting (s : State) (i k : Nat) :
    Balanced (s.booting i k) (.opened k) := by
  have hpage : (s.booting i k).tidOf .stackPage = 1 := by simp [State.tidOf, State.booting]
  have hblock : (s.booting i k).tidOf (.block i) = 2 := by simp [State.tidOf, State.booting]
  refine ⟨(Nat.zero_add k).symm, fun a ha => ?_, fun j hj => ?_, fun tid htid => ?_⟩
  · have hmem : a = .stackPage ∨ a = .block i := by simpa [State.booting] using ha
    rcases hmem with rfl | rfl
    · have hdur : (s.booting i k).durationOf .stackPage = 9999999 - k := by
        simp [State.durationOf, State.booting]
      rw [hpage, hdur]
      simp only [Books.opened, if_true]
      omega
    · have hdur : (s.booting i k).durationOf (.block i) = 999 := by
        simp [State.durationOf, State.booting]
      rw [hblock, hdur]
      simp [Books.opened]
  · cases hj
    rw [hblock]
    simp [Books.opened, State.booting]
  · have hne : tid ≠ 1 := by
      have : 3 ≤ tid := htid
      omega
    simp [Books.opened, hne]

theorem flush_booting (s : State) (i k : Nat) (B : Books) : Flush (s.booting i k) B := by
  intro a ha hw
  have hmem : a = .stackPage ∨ a = .block i := by simpa [State.booting] using ha
  rcases hmem with rfl | rfl
  · exact absurd rfl hw.2
  · exact absurd rfl hw.1

end Boot

/-! ## Tick accounting -/

/-- The first `if` of `after_interrupt` removes the current thread, once it has no ticks left. -/
theorem expired_removes {s : State} {a : Addr} (ha : a ∈ s.allList)
    (hgone : a ∉ s.expired.allList) :
    a = s.threadRunningVar ∧ s.worker s.threadRunningVar ∧ s.durationOf a ≤ 0 := by
  unfold State.expired State.exited at hgone
  split_ifs at hgone with hd hw hp
  · have hac : a = s.threadRunningVar := by
      by_contra hac
      exact hgone ((List.mem_erase_of_ne hac).mpr ha)
    exact ⟨hac, hw, hac ▸ hd⟩
  · rw [s.yielded_all] at hgone
    exact absurd ha hgone
  · rw [s.yielded_all] at hgone
    exact absurd ha hgone
  · exact absurd ha hgone

/-- After every call of every run the counters agree with the books; and a thread that
`after_interrupt` removes because it has no ticks left was charged what it was given at least, and
exactly that if it was given any and no thread gave up the processor between a tick and the
`after_interrupt` after it. -/
theorem tick_accounting {quantum : Option Int32} {block k : Nat} {s₀ s : State} {B : Books}
    {ops : List Op} (h₀ : (boot quantum block k).run powerOn = .ok ((), s₀))
    (hrun : Run Booked (s₀, .opened k) ops (s, B)) :
    s.ticks = s.idleTicks + s.kernelTicks ∧
    (∀ a, s.heap a ≠ none → B.given (s.tidOf a) - s.durationOf a = B.count (s.tidOf a)) ∧
    (∀ a b, s.heap a ≠ none → s.heap b ≠ none → s.tidOf a = s.tidOf b → a = b) ∧
    (∀ i, s.idleThread = some i → s.idleTicks = B.count (s.tidOf i)) ∧
    ∀ u v a, blockIfIdleThread.run s = .ok ((), u) → afterExpiry.run u = .ok ((), v) →
      a ∈ u.allList → a ∉ v.allList →
        B.given (s.tidOf a) ≤ B.count (s.tidOf a) ∧
        (0 < B.given (s.tidOf a) → (∀ op ∈ ops, op.steady) → Polled true ops →
          B.count (s.tidOf a) = B.given (s.tidOf a)) := by
  have hlaunched : Launched s₀ := ⟨quantum, block, k, h₀⟩
  have hquiet := quiet_boot h₀
  obtain ⟨hs, hr, hb⟩ : Inv s ∧ Registry s ∧ Balanced s B := booked_run hrun hlaunched.inv
    hlaunched.registry ((balanced_booting _ block k).quiet hlaunched.inv hquiet)
  have hlive : ∀ a, s.heap a ≠ none → a ∈ s.allList := by
    intro a ha
    refine hs.registered a ?_
    rwa [State.statusOf, Ne, Option.map_eq_none_iff]
  refine ⟨hb.total, fun a ha => hb.owed a (hlive a ha), fun a b ha hb' he =>
    hr.tid_inj (hlive a ha) (hlive b hb') he, hb.idle, fun u v a hu hv hin hout => ?_⟩
  rw [run_blockIfIdleThread hs.hasCurrent hs.fit.next] at hu
  cases hu
  have hi : Inv s.idleBlocked := (moves_idleBlocked s).inv hs
  rw [run_afterExpiry hi.fit] at hv
  cases hv
  obtain ⟨hac, hw, hdur⟩ := expired_removes hin hout
  obtain ⟨hmem, htid, hkept⟩ := (Quiet.idleBlocked hs).kept a hin
  have howed := hb.owed a hmem
  refine ⟨by omega, fun hpos hops hpoll => ?_⟩
  have hsol₀ : Solvent true s₀ (.opened k) :=
    ((flush_booting _ block k _).quiet hquiet).solvent hlaunched.inv
  obtain ⟨b, hsol⟩ : ∃ b, Solvent b s B :=
    solvent_run hrun hlaunched.inv hlaunched.registry hsol₀ hops hpoll
  have hleft := (hsol.idleBlocked hs).current hw
  rw [← hac, htid] at hleft
  have hnonneg := (hleft hpos).1
  omega

/-- The books after calls that may be made. -/
def Books.posts (B : Books) : State → List Op → Books
  | _, [] => B
  | s, op :: ops => (B.post s op).posts (op.effect s) ops

theorem booked_of_allows : ∀ {ops : List Op} {s : State} {B : Books}, Inv s → Allows s ops →
    Run Booked (s, B) ops (effects s ops, B.posts s ops)
  | [], s, B, _, _ => .nil (s, B)
  | _ :: _, _, _, hs, ha => by
      have hstep := step_of_allowed hs ha.1 ha.2.1
      exact .cons ⟨hstep, rfl⟩ (booked_of_allows ((hstep.moves hs).inv hs) ha.2.2)

/-- A thread that was given two ticks is charged two and then removed. -/
theorem tick_accounting_two_ticks :
    let s₀ := ((settings none).booting 0 1).yielded
    let ops := [.threadCreate .other (some 1) 2, .timerInterrupt, .afterInterrupt, .timerInterrupt]
    let s := effects s₀ ops
    s.tidOf (.block 1) = 3 ∧ ((Books.opened 1).posts s₀ ops).given 3 = 2 ∧
      (((Books.opened 1).posts s₀ ops).count 3 : Int) = 2 ∧ Step s .afterInterrupt s.polled := by
  have hl : Launched ((settings none).booting 0 1).yielded := ⟨none, 0, 1, run_boot none 0 1⟩
  have hrun := booked_of_allows (B := .opened 1) hl.inv
    (show Allows _ [.threadCreate .other (some 1) 2, .timerInterrupt, .afterInterrupt,
      .timerInterrupt] by decide +kernel)
  have hs := (booked_run hrun hl.inv hl.registry
    ((balanced_booting _ 0 1).quiet hl.inv (quiet_boot (run_boot none 0 1)))).1
  have h := (tick_accounting (run_boot none 0 1) hrun).2.2.2.2 _ _ (.block 1)
    (run_blockIfIdleThread hs.hasCurrent hs.fit.next)
    (run_afterExpiry ((moves_idleBlocked _).inv hs).fit) (by decide +kernel) (by decide +kernel)
  have hsteady : ∀ op ∈ [Op.threadCreate .other (some 1) 2, .timerInterrupt, .afterInterrupt,
      .timerInterrupt], op.steady := by
    intro op hop
    simp only [List.mem_cons, List.not_mem_nil, or_false] at hop
    rcases hop with rfl | rfl | rfl | rfl <;> trivial
  have hpolled : Polled true [.threadCreate .other (some 1) 2, .timerInterrupt, .afterInterrupt,
      .timerInterrupt] := by simp [Polled, Op.polled]
  refine ⟨by decide +kernel, by decide +kernel, ?_, step_of_allowed hs trivial rfl⟩
  exact (h.2 (by decide +kernel) hsteady hpolled).trans (by decide +kernel)

end PicoOS
