/-
# `PicoOS.Sched.Sleep` — a sleeper wakes at its deadline

A thread that calls `thread_sleep (n)` at tick `T` is in `lista_espera` in every
state before tick `T + n`, untouched, and the `timer_interrupt` that makes it
tick `T + n` moves it to `ready_list`.

The invariant is `AsleepUntil`: as long as the deadline is ahead the thread
stands in `lista_espera` and its whole `struct thread` is what it was.  Every
move keeps it (`AsleepUntil.move`), the wake-up of the sleeper itself included,
which is not due before the deadline.  That the wake-up does come is a property
of the scan of `lista_espera` (`wakeList_due`).

The deadline is compared as a `uint64_t`; below `2 ^ 31` the conversions change
nothing (`toUInt64_of_lt`).
-/
import PicoOS.Sched.Interrupts

namespace PicoOS

open Runs

/-! ## The deadline -/

theorem toUInt64_of_lt {x : Nat} (h : x < 2 ^ 64) : toUInt64 x = x := by
  unfold toUInt64
  omega

/-- Below `2 ^ 64` the wake-up test is a comparison of numbers. -/
theorem wakeTest_iff {k d : Nat} (hk : k < 2 ^ 64) : wakeTest k d = true ↔ d ≤ k := by
  rw [wakeTest, toUInt64_of_lt hk, decide_eq_true_iff]

/-! ## Until the deadline -/

/-- Before tick `d` the thread at `t` is in `lista_espera` and is `th`. -/
def AsleepUntil (d : Nat) (t : Addr) (th : Thread) (s : State) : Prop :=
  s.ticks < d → t ∈ s.listaEspera ∧ s.heap t = some th

/-- `schedule` does not touch a sleeper. -/
theorem Parked.dispatch_heap {s : State} (h : Parked s) {a : Addr} (ha : a ∈ s.listaEspera) :
    s.dispatch.heap a = s.heap a := by
  have hsucc : a ≠ s.succ := fun he => h.toLinked.succ_unlinked.2 (he ▸ ha)
  have hreap : ¬ s.reaped a := by
    intro hr
    have hst := (h.espera a ha).1
    rw [hr.2.2.1] at hst
    cases hst
  simp only [State.dispatch, if_neg hsucc, if_neg hreap]

/-- Every move leaves a sleeper alone before its deadline. -/
theorem AsleepUntil.move {d : Nat} {t : Addr} {th : Thread} (hd : d < 2 ^ 64)
    (hth : th.sleepTime = d) {s s' : State} (hs : Inv s) (h : AsleepUntil d t th s)
    (hm : Move s s') : AsleepUntil d t th s' := by
  cases hm with
  | @switch m hm =>
      intro hlt
      have hlt' : s.ticks < d := hm.ticks ▸ hlt
      obtain ⟨hmem, hheap⟩ := h hlt'
      have hne : t ≠ s.threadRunningVar := fun he => hs.not_espera (he ▸ hmem)
      refine ⟨hm.espera hmem, ?_⟩
      rw [(hm.parked hs).dispatch_heap (hm.espera hmem), hm.heap hne, hheap]
  | deadline n =>
      intro hlt
      obtain ⟨hmem, hheap⟩ := h hlt
      have hne : t ≠ s.threadRunningVar := fun he => hs.not_espera (he ▸ hmem)
      exact ⟨hmem, (State.mapThread_heap _ _ _ _).trans ((if_neg hne).trans hheap)⟩
  | @create b hb n =>
      intro hlt
      obtain ⟨hmem, hheap⟩ := h hlt
      have hne : t ≠ .block b := by
        rintro rfl
        rw [hb] at hheap
        cases hheap
      exact ⟨hmem, (Function.update_of_ne hne _ _).trans hheap⟩
  | charge =>
      intro hlt
      obtain ⟨hmem, hheap⟩ := h (Nat.lt_of_succ_lt hlt)
      have hne : t ≠ s.threadRunningVar := fun he => hs.not_espera (he ▸ hmem)
      exact ⟨hmem, (State.mapThread_heap _ _ _ _).trans ((if_neg hne).trans hheap)⟩
  | @wake a ha hdue =>
      intro hlt
      obtain ⟨hmem, hheap⟩ := h hlt
      have hne : t ≠ a := by
        rintro rfl
        have hlt' : s.ticks < d := hlt
        rw [State.due, hheap] at hdue
        have hle := (wakeTest_iff (by omega)).mp hdue
        omega
      refine ⟨(List.mem_erase_of_ne hne).mpr hmem, ?_⟩
      rw [State.wakeOne_heap, if_neg hne, hheap]
  | config m q e => exact h

/-! ## At the deadline -/

theorem State.due_wakeOne {s : State} {a b : Addr} (hne : a ≠ b) (k : Nat) :
    (s.wakeOne b).due k a = s.due k a := by
  rw [State.due, State.wakeOne_heap, if_neg hne, State.due]

theorem mem_ready_wakeList {a : Addr} {k : Nat} : ∀ {l : List Addr} {s : State},
    a ∈ s.readyList → a ∈ (s.wakeList k l).readyList
  | [], _, h => h
  | b :: rest, s, h => by
      rw [State.wakeList]
      split_ifs
      · exact mem_ready_wakeList (s := s.wakeOne b) (List.mem_append_left _ h)
      · exact mem_ready_wakeList h

/-- The scan moves every thread that is due to `ready_list`. -/
theorem wakeList_due {a : Addr} {k : Nat} : ∀ {l : List Addr} {s : State}, l.Nodup → a ∈ l →
    s.due k a = true → a ∈ (s.wakeList k l).readyList
  | b :: rest, s, hl, hmem, hdue => by
      rw [State.wakeList]
      rcases List.mem_cons.mp hmem with rfl | hmem
      · rw [if_pos hdue]
        refine mem_ready_wakeList (s := s.wakeOne a) ?_
        exact List.mem_append_right _ (List.mem_singleton_self _)
      · have hl' := List.nodup_cons.mp hl
        have hne : a ≠ b := fun he => hl'.1 (he ▸ hmem)
        split_ifs
        · exact wakeList_due hl'.2 hmem ((State.due_wakeOne hne k).trans hdue)
        · exact wakeList_due hl'.2 hmem hdue

/-- A sleeper that is due at the next tick is woken by it. -/
theorem ticked_wakes {s : State} (h : Inv s) {t : Addr} {th : Thread} (hmem : t ∈ s.listaEspera)
    (hheap : s.heap t = some th) (hdue : wakeTest (s.ticks + 1) th.sleepTime = true) :
    t ∈ s.ticked.readyList ∧ s.ticked.statusOf t = some .ready ∧ t ∉ s.ticked.listaEspera := by
  have hne : t ≠ s.threadRunningVar := fun he => h.not_espera (he ▸ hmem)
  have hcharge : s.charge.heap t = some th :=
    (State.mapThread_heap _ _ _ _).trans ((if_neg hne).trans hheap)
  have hready : t ∈ s.ticked.readyList := by
    refine wakeList_due h.esperaNodup hmem ?_
    rw [State.due, hcharge]
    exact hdue
  have hinv : Inv s.ticked := (moves_ticked h).inv h
  exact ⟨hready, (hinv.ready t hready).1, fun he => hinv.toLinked.sleeping.unlinked t he hready⟩

/-! ## Sleep is exact -/

/-- What `thread_sleep` leaves of the current thread. -/
theorem slept_asleep {s : State} (h : Inv s) (hw : s.worker s.threadRunningVar) {n : Int}
    (hn : 0 < n) {c : Thread} (hc : s.heap s.threadRunningVar = some c) :
    s.threadRunningVar ∈ (s.slept n).listaEspera ∧ (s.slept n).heap s.threadRunningVar =
      some { c with sleepTime := toUInt64 (s.ticks + n), status := .blocked } := by
  have hp : Parked ((s.enlist n).setCurrent .blocked) :=
    (Stop.sleep (s := s.setSleep _) hw).parked (h.setSleep _)
  have hmem : s.threadRunningVar ∈ ((s.enlist n).setCurrent .blocked).listaEspera :=
    List.mem_append_right _ (List.mem_singleton_self _)
  have hset : ((s.enlist n).setCurrent .blocked).heap s.threadRunningVar =
      some { c with sleepTime := toUInt64 (s.ticks + n), status := .blocked } := by
    refine (State.setStatus_heap _ _ _ _).trans ((if_pos rfl).trans ?_)
    have hmap : (s.enlist n).heap s.threadRunningVar =
        some { c with sleepTime := toUInt64 (s.ticks + n) } :=
      (State.mapThread_heap _ _ _ _).trans ((if_pos rfl).trans (congrArg _ hc))
    exact congrArg _ hmap
  rw [State.slept, if_pos hn]
  exact ⟨hmem, (hp.dispatch_heap hmem).trans hset⟩

/-- `op` puts the current thread to sleep for `n` ticks. -/
def Op.IsSleep (n : Int32) (op : Op) : Prop := op = .threadSleep n ∨ op = .timerSleep n

theorem Op.IsSleep.effect {n : Int32} {op : Op} (h : op.IsSleep n) (s : State) :
    op.effect s = s.slept n.toInt := by
  rcases h with rfl | rfl <;> rfl

theorem Op.IsSleep.not_idle {n : Int32} {op : Op} (h : op.IsSleep n) {s : State}
    (ha : Allowed s op) : s.idleThread ≠ some s.threadRunningVar := by
  rcases h with rfl | rfl <;> exact ha

/-- A thread that goes to sleep for `n` ticks at tick `T` stays in `lista_espera` as long as it is
not tick `T + n`, and the `timer_interrupt` that makes it `T + n` wakes it. -/
theorem sleep_exact {s₀ s₁ s₂ s : State} {before after : List Op} {n : Int32} {op : Op}
    (h₀ : Booted s₀) (hbefore : Run Step s₀ before s₁) (hop : op.IsSleep n) (hn : 0 < n.toInt)
    (hT : s₁.ticks + n.toInt < 2 ^ 31) (hsleep : Step s₁ op s₂) (hafter : Run Step s₂ after s) :
    (s.ticks < s₁.ticks + n.toInt →
      s₁.threadRunningVar ∈ s.listaEspera ∧
      s.statusOf s₁.threadRunningVar = some .blocked ∧
      s.threadRunningVar ≠ s₁.threadRunningVar ∧
      s₁.threadRunningVar ∉ s.readyList ∧
      s.tidOf s₁.threadRunningVar = s₁.tidOf s₁.threadRunningVar ∧
      s.durationOf s₁.threadRunningVar = s₁.durationOf s₁.threadRunningVar) ∧
    ∀ s', Step s .timerInterrupt s' → s'.ticks = s₁.ticks + n.toInt →
      s₁.threadRunningVar ∈ s'.readyList ∧
      s'.statusOf s₁.threadRunningVar = some .ready ∧
      s₁.threadRunningVar ∉ s'.listaEspera := by
  have hinv₁ : Inv s₁ := inv_of_run hbefore h₀.inv
  have hinv₂ : Inv s₂ := (hsleep.moves hinv₁).inv hinv₁
  have hinv : Inv s := inv_of_run hafter hinv₂
  obtain ⟨c, hc, -⟩ := hinv₁.hasCurrent
  obtain ⟨d, hd⟩ : ∃ d : Nat, (d : Int) = s₁.ticks + n.toInt := ⟨(s₁.ticks + n.toInt).toNat, by omega⟩
  have hd64 : d < 2 ^ 64 := by omega
  have hdead : toUInt64 (s₁.ticks + n.toInt) = d := by rw [← hd, toUInt64_of_lt hd64]
  let th : Thread := { c with sleepTime := d, status := .blocked }
  have hstart : AsleepUntil d s₁.threadRunningVar th s₂ := by
    intro _
    have hw := hinv₁.worker_of_not_idle (hop.not_idle hsleep.1)
    have hboth := slept_asleep hinv₁ hw hn hc
    rw [hsleep.effect hinv₁, hop.effect]
    rw [hdead] at hboth
    exact hboth
  have hasleep : AsleepUntil d s₁.threadRunningVar th s :=
    keeps_of_run (fun _ _ hi hp hm => hp.move hd64 rfl hi hm) hafter hinv₂ hstart
  refine ⟨fun hlt => ?_, fun s' hstep hticks => ?_⟩
  · obtain ⟨hmem, hheap⟩ := hasleep (by omega)
    refine ⟨hmem, (hinv.espera _ hmem).1, fun he => hinv.not_espera (he ▸ hmem),
      hinv.toLinked.sleeping.unlinked _ hmem, ?_, ?_⟩
    · simp only [State.tidOf, hheap, hc, Option.elim, th]
    · simp only [State.durationOf, hheap, hc, Option.elim, th]
  · have heff : s' = s.ticked := hstep.effect hinv
    have htick : s'.ticks = s.ticks + 1 := by
      rw [heff]
      exact s.ticked_ticks
    obtain ⟨hmem, hheap⟩ := hasleep (by omega)
    rw [heff]
    refine ticked_wakes hinv hmem hheap ((wakeTest_iff (by omega)).mpr ?_)
    show d ≤ s.ticks + 1
    omega

/-- A worker asleep for two ticks beside another worker: asleep after one tick, ready after two. -/
theorem sleep_exact_two_ticks :
    let s₁ := effects (afterBoot none 0 0)
      [.threadCreate .other (some 1) 5, .threadCreate .other (some 2) 5]
    let s := effects (Op.effect (.threadSleep 2) s₁) [.timerInterrupt, .afterInterrupt]
    s₁.threadRunningVar = .block 1 ∧ .block 1 ∈ s.listaEspera ∧
      .block 1 ∈ (Op.effect .timerInterrupt s).readyList := by
  intro s₁ s
  have hrun : Run Step (afterBoot none 0 0) _ s₁ :=
    run_of_allows (afterBoot_inv none 0 0) (by decide +kernel)
  have hinv₁ : Inv s₁ := inv_of_run hrun (afterBoot_inv none 0 0)
  have hsleep : Step s₁ (.threadSleep 2) _ := step_of_allowed hinv₁ (by decide +kernel) rfl
  have hinv₂ := (hsleep.moves hinv₁).inv hinv₁
  have hafter : Run Step _ _ s := run_of_allows hinv₂ (by decide +kernel)
  have htick : Step s .timerInterrupt _ := step_of_allowed (inv_of_run hafter hinv₂) trivial rfl
  have h := sleep_exact (booted_iff.mpr ⟨none, 0, 0, rfl⟩) hrun (.inl rfl) (by decide)
    (by decide +kernel) hsleep hafter
  have hcur : s₁.threadRunningVar = .block 1 := by decide +kernel
  rw [hcur] at h
  exact ⟨hcur, (h.1 (by decide +kernel)).1, (h.2 _ htick (by decide +kernel)).1⟩

end PicoOS
