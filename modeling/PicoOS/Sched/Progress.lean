/-
# `PicoOS.Sched.Progress` — every thread finishes

The main loop of `main.c` is `while (1) after_interrupt ();`, the timer comes in between
its rounds, and an alarm may ask for a forced exit or change the quantum.  Under that
service alone every thread ends: no policy, quantum, forced exit or deadline keeps one
alive for ever.

What decreases is the `burden`.  A worker may still be charged `duration_ticks` ticks,
and after the last one it takes a poll to exit it; a sleeper wakes after its deadline;
and when a tick wakes threads while the idle thread runs, it takes a poll to leave the
idle thread.  No call of the service raises the sum of the three, and a tick with the
next poll lowers it: the tick if it charges a worker with ticks left or shortens the
last nap, else the poll, which finds a worker without ticks or the idle thread on top
of a ready one (`Ripe`).
-/
import Mathlib.Algebra.Order.BigOperators.Group.Finset
import Mathlib.Order.Lattice.Nat
import PicoOS.Sched.Polling
import PicoOS.Sched.Sleep

namespace PicoOS

open Runs

/-! ## The burden -/

namespace State

/-- The deadline of the thread at `a`. -/
def sleepTimeOf (s : State) (a : Addr) : Nat := (s.heap a).elim 0 (·.sleepTime)

/-- What the thread at `a` can still be charged, and its exit. -/
def share (s : State) (a : Addr) : Nat := if s.worker a then (s.durationOf a).toNat + 1 else 0

/-- The work of all threads. -/
def work (s : State) : Nat := ∑ a ∈ s.allList.toFinset, s.share a

/-- What is left of the sleep of the thread at `a`, and its wake-up. -/
def nap (s : State) (a : Addr) : Nat := s.sleepTimeOf a - s.ticks + 1

/-- The longest sleep. -/
def longestNap (s : State) : Nat := s.listaEspera.toFinset.sup s.nap

/-- The idle thread runs although a thread is ready. -/
def Overslept (s : State) : Prop := s.idleThread = some s.threadRunningVar ∧ s.readyList ≠ []

instance (s : State) : Decidable s.Overslept := inferInstanceAs (Decidable (_ ∧ _))

/-- The rounds that are enough to finish. -/
def burden (s : State) : Nat := s.work + s.longestNap + if s.Overslept then 1 else 0

/-- The next poll leaves the current thread for good. -/
def Ripe (s : State) : Prop :=
  s.Overslept ∨ s.worker s.threadRunningVar ∧ s.durationOf s.threadRunningVar ≤ 0

end State

/-- The calls of the main loop, the timer and the alarms that create no thread. -/
def Op.Service : Op → Prop
  | .timerInterrupt | .afterInterrupt | .setThreadExitOnReturn | .scheduleSetQuantum _ _ => True
  | _ => False

/-- The number of times that a tick is followed by a poll; `b` says that one is waiting for it. -/
def rounds : Bool → List Op → Nat
  | _, [] => 0
  | _, .timerInterrupt :: ops => rounds true ops
  | true, .afterInterrupt :: ops => rounds false ops + 1
  | b, _ :: ops => rounds b ops

variable {s t u : State}

/-- Fewer threads with the same shares are less work. -/
theorem work_mono (hsub : ∀ a ∈ t.allList, a ∈ s.allList)
    (hle : ∀ a ∈ t.allList, t.share a ≤ s.share a) : t.work ≤ s.work := by
  refine (Finset.sum_le_sum fun a ha => hle a (List.mem_toFinset.mp ha)).trans ?_
  refine Finset.sum_le_sum_of_subset fun a ha => ?_
  exact List.mem_toFinset.mpr (hsub a (List.mem_toFinset.mp ha))

theorem longestNap_le {n : Nat} : s.longestNap ≤ n ↔ ∀ a ∈ s.listaEspera, s.nap a ≤ n := by
  simp [State.longestNap]

theorem nap_le_longest {a : Addr} (ha : a ∈ s.listaEspera) : s.nap a ≤ s.longestNap :=
  longestNap_le.mp (Nat.le_refl _) a ha

/-! ## The poll -/

/-- From `s` to `t` no thread is born or charged, falls asleep or wakes. -/
structure Lighter (s t : State) : Prop extends Quiet s t where
  espera : t.listaEspera = s.listaEspera
  asleep : ∀ a ∈ s.listaEspera, t.heap a = s.heap a

namespace Lighter

theorem refl (s : State) : Lighter s s := ⟨.refl s, rfl, fun _ _ => rfl⟩

theorem trans (h₁ : Lighter s t) (h₂ : Lighter t u) : Lighter s u where
  toQuiet := h₁.toQuiet.trans h₂.toQuiet
  espera := h₂.espera.trans h₁.espera
  asleep := by
    intro a ha
    have ht : a ∈ t.listaEspera := h₁.espera.symm ▸ ha
    exact (h₂.asleep a ht).trans (h₁.asleep a ha)

/-- The current thread stops, but not to sleep. -/
theorem switch {m : State} (hs : Inv s) (hm : Stop s m) (he : m.listaEspera = s.listaEspera) :
    Lighter s m.dispatch where
  toQuiet := .switch hs hm
  espera := he
  asleep := by
    intro a ha
    have hne : a ≠ s.threadRunningVar := fun h => hs.not_espera (h ▸ ha)
    rw [(hm.parked hs).dispatch_heap (he.symm ▸ ha), hm.heap hne]

theorem block (hs : Inv s) (hi : s.idleThread = some s.threadRunningVar) :
    Lighter s s.blocked :=
  switch hs (.block hi) rfl

theorem yield (hs : Inv s) (hr : s.readyList ≠ []) : Lighter s s.yieldedTo :=
  switch hs (.yield hr) (State.requeued_frame (f := State.listaEspera) (fun _ _ => rfl) s)

theorem exit (hs : Inv s) (hw : s.worker s.threadRunningVar) : Lighter s s.exitedCurrent :=
  switch hs (.exit hw) rfl

theorem idleBlocked (hs : Inv s) : Lighter s s.idleBlocked := by
  unfold State.idleBlocked
  split_ifs with hi
  · exact block hs hi
  · exact refl s

theorem yielded (hs : Inv s) : Lighter s s.yielded := by
  unfold State.yielded
  split_ifs with hr
  · exact refl s
  · exact yield hs hr

theorem exited (hs : Inv s) : Lighter s s.exited := by
  unfold State.exited
  split_ifs with hw
  · exact exit hs hw
  · exact yielded hs

theorem expired (hs : Inv s) : Lighter s s.expired := by
  unfold State.expired
  split_ifs
  · exact exited hs
  · exact yielded hs
  · exact refl s

theorem forced (hs : Inv s) : Lighter s s.forced := by
  unfold State.forced
  split_ifs
  · exact (exited hs).trans ⟨.config _ _ _ 0, rfl, fun _ _ => rfl⟩
  · exact refl s

theorem polled (hs : Inv s) : Lighter s s.polled := by
  have h₁ : Inv s.idleBlocked := (moves_idleBlocked s).inv hs
  have h₂ : Inv s.idleBlocked.expired := (moves_expired _).inv h₁
  exact ((idleBlocked hs).trans (expired h₁)).trans (forced h₂)

theorem worker (h : Lighter s t) (a : Addr) : t.worker a ↔ s.worker a := by
  rw [State.worker, h.idle, h.initial, State.worker]

theorem share (h : Lighter s t) {a : Addr} (ha : a ∈ t.allList) : t.share a = s.share a := by
  rw [State.share, State.share, (h.kept a ha).2.2]
  exact if_congr (h.worker a) rfl rfl

theorem work (h : Lighter s t) : t.work ≤ s.work :=
  work_mono (fun a ha => (h.kept a ha).1) fun _ ha => (h.share ha).le

/-- A worker less is less work. -/
theorem work_lt (h : Lighter s t) {a : Addr} (ha : a ∈ s.allList) (hw : s.worker a)
    (hout : a ∉ t.allList) : t.work < s.work := by
  refine Nat.lt_of_le_of_lt (Finset.sum_le_sum fun b hb => (h.share (List.mem_toFinset.mp hb)).le) ?_
  refine Finset.sum_lt_sum_of_subset (fun b hb => ?_) (List.mem_toFinset.mpr ha)
    (fun hb => hout (List.mem_toFinset.mp hb)) ?_ fun _ _ _ => Nat.zero_le _
  · exact List.mem_toFinset.mpr (h.kept b (List.mem_toFinset.mp hb)).1
  · simp [State.share, hw]

theorem longestNap (h : Lighter s t) : t.longestNap = s.longestNap := by
  rw [State.longestNap, State.longestNap, h.espera]
  refine Finset.sup_congr rfl fun a ha => ?_
  rw [State.nap, State.nap, State.sleepTimeOf, h.asleep a (List.mem_toFinset.mp ha), h.ticks]
  rfl

end Lighter

/-- A thread that is current and has no ticks left is gone after the poll. -/
theorem polled_exits (hs : Inv s) (hw : s.worker s.threadRunningVar)
    (hd : s.durationOf s.threadRunningVar ≤ 0) : s.threadRunningVar ∉ s.polled.allList := by
  have hidle : s.idleBlocked = s := if_neg hw.1
  have hexp : s.expired = s.exitedCurrent := (if_pos hd).trans (if_pos hw)
  have hinv : Inv s.exitedCurrent := (Move.switch (.exit hw)).inv hs
  have hout : s.threadRunningVar ∉ s.exitedCurrent.allList := hs.allNodup.not_mem_erase
  rw [State.polled, hidle, hexp]
  exact fun hmem => hout ((Lighter.forced hinv).kept _ hmem).1

/-- When the idle thread is not in the way, only work and sleep are left. -/
theorem burden_of_busy (hb : s.Busy) : s.burden = s.work + s.longestNap :=
  Nat.add_eq_left.mpr (if_neg fun ho => ho.2 (hb ho.1))

theorem burden_le_of_lighter (h : Lighter s t) (hb : t.Busy) :
    t.burden ≤ s.work + s.longestNap := by
  rw [burden_of_busy hb, h.longestNap]
  exact Nat.add_le_add_right h.work _

/-- A poll does not raise the burden, and lowers it if it is due. -/
theorem burden_polled (hs : Inv s) (hq : 0 < s.roundRobinTicks) :
    s.polled.burden ≤ s.burden ∧ (s.Ripe → s.polled.burden < s.burden) := by
  have hl := Lighter.polled hs
  have hbusy := (polled_settled hs hq).1
  have hle := burden_le_of_lighter hl hbusy
  refine ⟨hle.trans (Nat.le_add_right _ _), ?_⟩
  rintro (ho | ⟨hw, hd⟩)
  · refine Nat.lt_of_le_of_lt hle ?_
    rw [State.burden, if_pos ho]
    exact Nat.lt_succ_self _
  · have hlt := hl.work_lt (hs.registered _ hs.live_current) hw (polled_exits hs hw hd)
    rw [burden_of_busy hbusy, hl.longestNap, State.burden]
    omega

/-! ## The tick -/

theorem ticked_durationOf (hs : Inv s) (a : Addr) : s.ticked.durationOf a =
    if a = s.threadRunningVar then s.durationOf a - 1 else s.durationOf a :=
  (State.wakeList_frame (f := fun s => s.durationOf a)
    (fun _ _ => State.durationOf_setStatus ..) _ _).trans (hs.hasCurrent.durationOf_charge a)

theorem sleepTimeOf_mapThread {a b : Addr} {f : Thread → Thread}
    (hf : ∀ th, (f th).sleepTime = th.sleepTime) (s : State) :
    (s.mapThread b f).sleepTimeOf a = s.sleepTimeOf a :=
  State.elim_mapThread hf 0 s

theorem ticked_sleepTimeOf (s : State) (a : Addr) : s.ticked.sleepTimeOf a = s.sleepTimeOf a :=
  State.ticked_frame (f := fun s => s.sleepTimeOf a)
    (sleepTimeOf_mapThread (f := fun th => { th with durationTicks := th.durationTicks - 1 })
      (fun _ => rfl) s)
    fun _ _ => sleepTimeOf_mapThread (f := fun th => { th with status := .ready }) (fun _ => rfl) _

theorem ticked_share (hs : Inv s) (a : Addr) : s.ticked.share a ≤ s.share a ∧
    (a = s.threadRunningVar → s.worker a → 0 < s.durationOf a → s.ticked.share a < s.share a) := by
  rw [State.share, State.share, ticked_durationOf hs]
  by_cases hw : s.worker a
  · rw [if_pos ((State.ticked_worker s a).symm ▸ hw), if_pos hw]
    split_ifs with ha
    · exact ⟨by omega, fun _ _ _ => by omega⟩
    · exact ⟨Nat.le_refl _, fun h => absurd h ha⟩
  · rw [if_neg ((State.ticked_worker s a).symm ▸ hw)]
    exact ⟨Nat.zero_le _, fun _ h => absurd h hw⟩

theorem ticked_work (hs : Inv s) : s.ticked.work ≤ s.work ∧
    (s.worker s.threadRunningVar → 0 < s.durationOf s.threadRunningVar →
      s.ticked.work < s.work) := by
  rw [State.work, State.ticked_all, State.work]
  refine ⟨Finset.sum_le_sum fun a _ => (ticked_share hs a).1, fun hw hd => ?_⟩
  refine Finset.sum_lt_sum (fun a _ => (ticked_share hs a).1) ⟨s.threadRunningVar, ?_, ?_⟩
  · exact List.mem_toFinset.mpr (hs.registered _ hs.live_current)
  · exact (ticked_share hs _).2 rfl hw hd

theorem mem_espera_wakeList {a : Addr} {k : Nat} : ∀ {l : List Addr} {s : State},
    a ∈ (s.wakeList k l).listaEspera → a ∈ s.listaEspera
  | [], _, h => h
  | b :: rest, s, h => by
      rw [State.wakeList] at h
      have hmem := mem_espera_wakeList h
      split_ifs at hmem
      · exact List.mem_of_mem_erase hmem
      · exact hmem

/-- Who sleeps on after a tick has a deadline ahead. -/
theorem ticked_espera (hs : Inv s) (hclock : s.ticks + 1 < 2 ^ 64) {a : Addr}
    (ha : a ∈ s.ticked.listaEspera) : a ∈ s.listaEspera ∧ s.ticks + 1 < s.sleepTimeOf a := by
  have hmem : a ∈ s.listaEspera := mem_espera_wakeList (s := s.charge) ha
  refine ⟨hmem, Nat.lt_of_not_le fun hle => ?_⟩
  obtain ⟨th, hth⟩ := State.statusOf_ne_none.mp (hs.live a (hs.espera a hmem).2.2)
  have hdue : wakeTest (s.ticks + 1) th.sleepTime = true := by
    rw [wakeTest_iff hclock]
    simpa [State.sleepTimeOf, hth] using hle
  exact (ticked_wakes hs hmem hth hdue).2.2 ha

theorem ticked_longestNap (hs : Inv s) (hclock : s.ticks + 1 < 2 ^ 64) :
    s.ticked.longestNap ≤ s.longestNap - 1 := by
  rw [longestNap_le]
  intro a ha
  obtain ⟨hmem, hlt⟩ := ticked_espera hs hclock ha
  have hnap := nap_le_longest hmem
  simp only [State.nap, ticked_sleepTimeOf, State.ticked_ticks] at hnap ⊢
  omega

theorem longestNap_pos (h : s.listaEspera ≠ []) : 0 < s.longestNap := by
  obtain ⟨a, ha⟩ := List.exists_mem_of_ne_nil _ h
  exact Nat.lt_of_lt_of_le (Nat.succ_pos _) (nap_le_longest ha)

/-- A tick wakes threads only from `lista_espera`. -/
theorem overslept_of_ticked (h : s.ticked.Overslept) : s.Overslept ∨ s.listaEspera ≠ [] := by
  obtain ⟨hi, hr⟩ := h
  rw [State.ticked_idle, State.ticked_current] at hi
  by_cases he : s.listaEspera = []
  · refine .inl ⟨hi, ?_⟩
    rw [State.ticked, he] at hr
    exact hr
  · exact .inr he

theorem ripe_ticked (hs : Inv s) (h : s.Ripe) : s.ticked.Ripe := by
  rcases h with ⟨hi, hr⟩ | ⟨hw, hd⟩
  · obtain ⟨a, ha⟩ := List.exists_mem_of_ne_nil _ hr
    refine .inl ⟨?_, List.ne_nil_of_mem (mem_ready_wakeList (s := s.charge) ha)⟩
    rw [State.ticked_idle, State.ticked_current]
    exact hi
  · refine .inr ⟨?_, ?_⟩
    · rw [State.ticked_current, State.ticked_worker]
      exact hw
    · rw [State.ticked_current, ticked_durationOf hs, if_pos rfl]
      omega

/-- Nobody is left: no worker runs, is ready or sleeps. -/
theorem burden_zero (hs : Inv s) (hw : ¬ s.worker s.threadRunningVar) (hr : s.readyList = [])
    (he : s.listaEspera = []) : s.burden = 0 := by
  have hwork : s.work = 0 := by
    refine Finset.sum_eq_zero fun a ha => if_neg fun hwa => ?_
    rcases hs.kept a (hs.live a (List.mem_toFinset.mp ha)) hwa with rfl | hmem | hmem
    · exact hw hwa
    · rw [hr] at hmem
      cases hmem
    · rw [he] at hmem
      cases hmem
  simp [State.burden, hwork, State.longestNap, he, State.Overslept, hr]

/-- The current thread is a worker or the idle thread. -/
theorem Inv.idle_of_not_worker (hs : Inv s) (hw : ¬ s.worker s.threadRunningVar) :
    s.idleThread = some s.threadRunningVar := by
  by_contra hi
  exact hw ⟨hi, hs.current⟩

/-- A tick does not raise the burden.  If it does not lower it either, the next poll will, or
there is none. -/
theorem burden_ticked (hs : Inv s) (hclock : s.ticks + 1 < 2 ^ 64) :
    s.ticked.burden ≤ s.burden ∧
      (s.burden = 0 ∨ s.ticked.burden < s.burden ∨ s.ticked.Ripe) := by
  obtain ⟨hwork, hless⟩ := ticked_work hs
  have hnap := ticked_longestNap hs hclock
  have hle : s.ticked.burden ≤ s.burden := by
    unfold State.burden
    split_ifs with ho' ho ho
    · omega
    · have hpos := longestNap_pos ((overslept_of_ticked ho').resolve_left ho)
      omega
    · omega
    · omega
  refine ⟨hle, ?_⟩
  by_cases hw : s.worker s.threadRunningVar
  · by_cases hd : s.durationOf s.threadRunningVar ≤ 0
    · exact .inr (.inr (ripe_ticked hs (.inr ⟨hw, hd⟩)))
    · have hlt := hless hw (by omega)
      have ho : ¬ s.ticked.Overslept := by
        intro ho
        have hi := ho.1
        rw [State.ticked_idle, State.ticked_current] at hi
        exact hw.1 hi
      refine .inr (.inl ?_)
      rw [State.burden, State.burden, if_neg ho]
      omega
  · by_cases hdue : s.ticked.Ripe
    · exact .inr (.inr hdue)
    · have hi := hs.idle_of_not_worker hw
      have hr : s.readyList = [] := by
        by_contra hr
        exact hdue (ripe_ticked hs (.inl ⟨hi, hr⟩))
      by_cases he : s.listaEspera = []
      · exact .inl (burden_zero hs hw hr he)
      · have hpos := longestNap_pos he
        have ho : ¬ s.ticked.Overslept := fun ho => hdue (.inl ho)
        refine .inr (.inl ?_)
        rw [State.burden, State.burden, if_neg ho]
        omega

/-! ## Births and naps -/

theorem adopt_sleepTimeOf {b : Nat} {d : Int} {a : Addr} (ha : a ≠ .block b) :
    (s.adopt b d).sleepTimeOf a = s.sleepTimeOf a := by
  rw [State.sleepTimeOf, State.sleepTimeOf,
    show (s.adopt b d).heap a = s.heap a from Function.update_of_ne ha _ _]

theorem adopt_work (hs : Inv s) {b : Nat} (hb : s.heap (.block b) = none) (d : Int) :
    (s.adopt b d).work ≤ s.work + (d.toNat + 1) := by
  have hfresh : Addr.block b ∉ s.allList := (hs.toLinked.fresh hb).all
  have hall : (s.adopt b d).allList.toFinset = insert (.block b) s.allList.toFinset := by
    ext a
    simp [State.adopt, or_comm]
  have hnew : (s.adopt b d).share (.block b) ≤ d.toNat + 1 := by
    have hdur : (s.adopt b d).durationOf (.block b) = d := by
      simp [State.durationOf, State.adopt]
    rw [State.share, hdur]
    split_ifs
    · exact Nat.le_refl _
    · exact Nat.zero_le _
  have hold : ∀ a ∈ s.allList.toFinset, (s.adopt b d).share a = s.share a := by
    intro a ha
    have hne : a ≠ .block b := fun h => hfresh (h ▸ List.mem_toFinset.mp ha)
    rw [State.share, State.share, State.durationOf_adopt hne]
    exact if_congr Iff.rfl rfl rfl
  rw [State.work, hall, Finset.sum_insert (fun h => hfresh (List.mem_toFinset.mp h)),
    Finset.sum_congr rfl hold, Nat.add_comm]
  exact Nat.add_le_add_left hnew _

theorem adopt_longestNap (hs : Inv s) {b : Nat} (hb : s.heap (.block b) = none) (d : Int) :
    (s.adopt b d).longestNap = s.longestNap := by
  refine Finset.sup_congr rfl fun a ha => ?_
  have hmem : a ∈ s.listaEspera := List.mem_toFinset.mp ha
  have hne : a ≠ .block b := State.ne_fresh hb (hs.live a (hs.espera a hmem).2.2)
  rw [State.nap, State.nap, adopt_sleepTimeOf hne]
  rfl

/-- A new thread brings its own work. -/
theorem burden_created (hs : Inv s) {block : Option Nat}
    (hb : ∀ b ∈ block, s.heap (.block b) = none) (d : Int) :
    (s.created block d).burden ≤ s.burden + (d.toNat + 1) := by
  cases block with
  | none => exact Nat.le_add_right _ _
  | some b =>
      have hinv : Inv (s.adopt b d) := hs.adopt (hb b rfl) d
      have hle := burden_le_of_lighter (.idleBlocked hinv) (idleBlocked_busy hinv)
      have hwork := adopt_work hs (hb b rfl) d
      have hnap := adopt_longestNap hs (hb b rfl) d
      have hburden : s.work + s.longestNap ≤ s.burden := Nat.le_add_right _ _
      show (s.adopt b d).idleBlocked.burden ≤ _
      omega

theorem slept_longestNap (hs : Inv s) (hw : s.worker s.threadRunningVar) {n : Int} (hn : 0 < n) :
    (s.slept n).longestNap ≤ s.longestNap + (n.toNat + 1) := by
  obtain ⟨c, hc, -⟩ := hs.hasCurrent
  obtain ⟨-, hheap⟩ := slept_asleep hs hw hn hc
  have hp : Parked ((s.setSleep (toUInt64 (s.ticks + n))).drowsy.setCurrent .blocked) :=
    (Stop.sleep (s := s.setSleep _) hw).parked (hs.setSleep _)
  have hslept : s.slept n = ((s.enlist n).setCurrent .blocked).dispatch := if_pos hn
  rw [longestNap_le]
  intro a ha
  have hmem : a ∈ s.listaEspera ∨ a = s.threadRunningVar := by
    rw [hslept] at ha
    exact (List.mem_append.mp ha).imp_right List.mem_singleton.mp
  have hticks : (s.slept n).ticks = s.ticks := by
    rw [hslept]
    rfl
  rcases hmem with hmem | rfl
  · have hne : a ≠ s.threadRunningVar := fun h => hs.not_espera (h ▸ hmem)
    have hkept : (s.slept n).heap a = s.heap a := by
      rw [hslept]
      refine (hp.dispatch_heap (List.mem_append_left _ hmem)).trans ?_
      refine (State.setStatus_heap _ _ _ _).trans ((if_neg hne).trans ?_)
      exact (State.mapThread_heap _ _ _ _).trans (if_neg hne)
    have hle := nap_le_longest hmem
    rw [State.nap, State.sleepTimeOf, hkept, hticks]
    rw [State.nap, State.sleepTimeOf] at hle
    omega
  · rw [State.nap, State.sleepTimeOf, hheap, hticks]
    show toUInt64 (s.ticks + n) - s.ticks + 1 ≤ _
    have hlow : toUInt64 (s.ticks + n) ≤ s.ticks + n.toNat := by
      unfold toUInt64
      omega
    omega

/-- A thread that goes to sleep brings its deadline. -/
theorem burden_slept (hs : Inv s) (hw : s.worker s.threadRunningVar) (n : Int) :
    (s.slept n).burden ≤ s.burden + (n.toNat + 1) := by
  by_cases hn : 0 < n
  · have hquiet := Quiet.slept hs hw n
    have hwork : (s.slept n).work ≤ s.work := by
      refine work_mono (fun a ha => (hquiet.kept a ha).1) fun a ha => ?_
      rw [State.share, State.share, (hquiet.kept a ha).2.2]
      refine (if_congr ?_ rfl rfl).le
      rw [State.worker, hquiet.idle, hquiet.initial, State.worker]
    have hnap := slept_longestNap hs hw hn
    have hbusy : (s.slept n).Busy := by
      rw [State.slept, if_pos hn]
      exact (Stop.sleep (s := s.setSleep (toUInt64 (s.ticks + n))) hw).busy (hs.setSleep _)
    rw [burden_of_busy hbusy, State.burden]
    omega
  · rw [State.slept, if_neg hn]
    exact Nat.le_add_right _ _

/-! ## Runs -/

/-- The burden against a bound `m`; `b` says that a tick waits for its poll. -/
def Bounded (b : Bool) (m : Nat) (s : State) : Prop :=
  s.burden ≤ m ∧ (b = true → s.burden = 0 ∨ s.burden < m ∨ s.Ripe)

theorem Bounded.ticked {b : Bool} {m : Nat} (h : Bounded b m s) (hs : Inv s)
    (hclock : s.ticks + 1 < 2 ^ 64) : Bounded true m s.ticked := by
  obtain ⟨hle, hcases⟩ := burden_ticked hs hclock
  refine ⟨hle.trans h.1, fun _ => ?_⟩
  rcases hcases with hzero | hlt | hdue
  · exact .inl (by omega)
  · exact .inr (.inl (Nat.lt_of_lt_of_le hlt h.1))
  · exact .inr (.inr hdue)

theorem Bounded.polled {m : Nat} (h : Bounded true m s) (hs : Inv s)
    (hq : 0 < s.roundRobinTicks) : Bounded false (m - 1) s.polled := by
  obtain ⟨hle, hlt⟩ := burden_polled hs hq
  refine ⟨?_, fun hb => by cases hb⟩
  have hm := h.1
  rcases h.2 rfl with hzero | hless | hdue
  · omega
  · omega
  · have hless := hlt hdue
    omega

theorem Bounded.withQuantum {b : Bool} {m : Nat} (h : Bounded b m s) (mode rrticks : Int) :
    Bounded b m (s.withQuantum mode rrticks) := by
  unfold State.withQuantum
  split_ifs
  · exact h
  · exact h
  · exact h

theorem clock_le {ops : List Op} (hrun : Run Step s ops t) (hs : Inv s) : s.ticks ≤ t.ticks :=
  keeps_of_run (P := fun u => s.ticks ≤ u.ticks)
    (fun _ _ _ hle hm => Nat.le_trans hle hm.clocks.1) hrun hs (Nat.le_refl _)

/-- Every round of a tick and a poll takes one from the burden, until nothing is left. -/
theorem burden_run {ops : List Op} (hrun : Run Step s ops t) (hops : ∀ op ∈ ops, op.Service)
    (hs : Inv s) (hq : 0 < s.roundRobinTicks) (hclock : t.ticks < 2 ^ 64) :
    ∀ b m, Bounded b m s → t.burden ≤ m - rounds b ops := by
  induction hrun with
  | nil s => exact fun b m h => h.1
  | @cons s v t op ops hstep hrest ih =>
      intro b m h
      have hv := hstep.effect hs
      have hinv : Inv v := (hstep.moves hs).inv hs
      have hlater := ih (fun op hmem => hops op (List.mem_cons_of_mem _ hmem)) hinv
        (hv ▸ effect_quantum_pos hq op) hclock
      have hticks : v.ticks < 2 ^ 64 := Nat.lt_of_le_of_lt (clock_le hrest hinv) hclock
      subst hv
      cases op with
      | timerInterrupt =>
          have htick : s.ticks + 1 < 2 ^ 64 := by
            rw [← State.ticked_ticks]
            exact hticks
          cases b <;> exact hlater true m (h.ticked hs htick)
      | afterInterrupt =>
          cases b with
          | false =>
              have hle := (burden_polled hs hq).1
              exact hlater false m ⟨hle.trans h.1, fun hb => by cases hb⟩
          | true =>
              have hnext := hlater false (m - 1) (h.polled hs hq)
              rw [rounds]
              omega
      | setThreadExitOnReturn => cases b <;> exact hlater _ m h
      | scheduleSetQuantum mode rrticks => cases b <;> exact hlater _ m (h.withQuantum _ _)
      | _ => exact (hops _ (List.mem_cons_self ..)).elim

/-- Without a burden there is no worker. -/
theorem not_worker_of_burden (hs : Inv s) (h : s.burden = 0) {a : Addr}
    (ha : s.statusOf a ≠ none) : ¬ s.worker a := by
  intro hw
  have hmem : a ∈ s.allList.toFinset := List.mem_toFinset.mpr (hs.registered a ha)
  have hle : s.share a ≤ s.work := Finset.single_le_sum (fun _ _ => Nat.zero_le _) hmem
  rw [State.share, if_pos hw] at hle
  rw [State.burden] at h
  omega

/-- After as many rounds as the burden says nobody is left. -/
theorem finished_of_run {ops : List Op} (hrun : Run Step s ops t)
    (hops : ∀ op ∈ ops, op.Service) (hs : Inv s) (hq : 0 < s.roundRobinTicks)
    (hclock : t.ticks < 2 ^ 64) (hrounds : s.burden ≤ rounds false ops) :
    t.idleThread = some t.threadRunningVar ∧ t.readyList = [] ∧ t.listaEspera = [] ∧
      ∀ a, t.heap a ≠ none ↔ a = t.initialThread ∨ t.idleThread = some a := by
  have hinv := inv_of_run hrun hs
  have hzero : t.burden = 0 := by
    have hle := burden_run hrun hops hs hq hclock false s.burden
      ⟨Nat.le_refl _, fun hb => by cases hb⟩
    omega
  have hnone : ∀ {a}, t.statusOf a ≠ none → ¬ t.worker a := not_worker_of_burden hinv hzero
  refine ⟨hinv.idle_of_not_worker (hnone hinv.live_current), ?_, ?_, fun a => ⟨fun ha => ?_, ?_⟩⟩
  · refine List.eq_nil_iff_forall_not_mem.mpr fun a ha => ?_
    obtain ⟨-, hw, hall⟩ := hinv.ready a ha
    exact hnone (hinv.live a hall) hw
  · refine List.eq_nil_iff_forall_not_mem.mpr fun a ha => ?_
    obtain ⟨-, hw, hall⟩ := hinv.espera a ha
    exact hnone (hinv.live a hall) hw
  · have hw : ¬ t.worker a := hnone (by simpa [State.statusOf] using ha)
    rw [State.worker] at hw
    tauto
  · obtain ⟨i, hi, hall, -⟩ := hinv.idle
    rintro (rfl | ha)
    · simpa [State.statusOf] using hinv.live _ hinv.initial
    · obtain rfl : i = a := Option.some.inj (hi.symm.trans ha)
      simpa [State.statusOf] using hinv.live _ hall

theorem Reachable.quantum_pos (h : Reachable s) : 0 < s.roundRobinTicks := by
  obtain ⟨s₀, ops, h₀, hrun⟩ := h
  refine (hrun.invariant (I := fun s => Inv s ∧ 0 < s.roundRobinTicks) ?_
    ⟨h₀.inv, h₀.sliceful.2.2⟩).2
  intro s op t hs hstep
  refine ⟨(hstep.moves hs.1).inv hs.1, ?_⟩
  rw [hstep.effect hs.1]
  exact effect_quantum_pos hs.2 op

/-- From every state of the scheduler, after as many rounds as the burden says, whatever the
policy, the alarms and the number of polls in a round: the idle thread runs, nobody is ready or
asleep, and of all threads only the two of the boot are left in memory. -/
theorem every_thread_finishes {ops : List Op} (hs : Reachable s) (hrun : Run Step s ops t)
    (hops : ∀ op ∈ ops, op.Service) (hclock : t.ticks < 2 ^ 64)
    (hrounds : s.burden ≤ rounds false ops) :
    t.idleThread = some t.threadRunningVar ∧ t.readyList = [] ∧ t.listaEspera = [] ∧
      ∀ a, t.heap a ≠ none ↔ a = t.initialThread ∨ t.idleThread = some a :=
  finished_of_run hrun hops hs.inv hs.quantum_pos hclock hrounds

/-- The calls of the service can always be made. -/
theorem allows_service : ∀ {ops : List Op} {s : State}, (∀ op ∈ ops, op.Service) → Allows s ops
  | [], _, _ => trivial
  | op :: ops, s, h => by
      have hrest : Allows (op.effect s) ops :=
        allows_service fun op hmem => h op (List.mem_cons_of_mem _ hmem)
      have hop := h op (List.mem_cons_self ..)
      cases op with
      | timerInterrupt | afterInterrupt | setThreadExitOnReturn | scheduleSetQuantum =>
          exact ⟨trivial, rfl, hrest⟩
      | _ => exact hop.elim

/-- A thread of one tick that goes to sleep. -/
def oneSleeper : List Op := [.threadCreate .other (some 1) 1, .threadSleep 1]

/-- Four rounds, with an alarm in the first. -/
def fourRounds : List Op :=
  [.timerInterrupt, .setThreadExitOnReturn, .afterInterrupt, .timerInterrupt, .afterInterrupt,
    .timerInterrupt, .afterInterrupt, .timerInterrupt, .afterInterrupt]

theorem every_thread_finishes_sleeper :
    let s := effects (afterBoot (some 2) 0 0) oneSleeper
    let t := effects s fourRounds
    s.listaEspera = [.block 1] ∧ s.burden = 4 ∧ rounds false fourRounds = 4 ∧
      t.idleThread = some t.threadRunningVar ∧ t.readyList = [] ∧ t.listaEspera = [] ∧
      ∀ a, t.heap a ≠ none ↔ a = t.initialThread ∨ t.idleThread = some a := by
  have h₀ : Booted (afterBoot (some 2) 0 0) := booted_iff.mpr ⟨some 2, 0, 0, rfl⟩
  have hstart : Run Step (afterBoot (some 2) 0 0) oneSleeper _ :=
    run_of_allows h₀.inv (by decide +kernel)
  have hops : ∀ op ∈ fourRounds, op.Service := by simp [fourRounds, Op.Service]
  have hrun := run_of_allows (inv_of_run hstart h₀.inv) (allows_service hops)
  refine ⟨by decide +kernel, by decide +kernel, by decide +kernel, ?_⟩
  exact every_thread_finishes ⟨_, _, h₀, hstart⟩ hrun hops (by decide +kernel) (by decide +kernel)

end PicoOS
