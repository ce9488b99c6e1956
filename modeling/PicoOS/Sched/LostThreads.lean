/-
# `PicoOS.Sched.LostThreads` — whether the main loop loses a thread

`block_if_idle_thread` tests `thread_current () == idle_thread` with interrupts
on, and `thread_block` then blocks whatever thread is current.  If an alarm
creates a thread in between, that thread becomes the current one, is blocked in
place of the idle thread, and is in no list (`new_thread_lost`).

This is the only way to lose a thread: if no callback creates a thread there
while the idle thread is current, then at the top of the loop every thread that
was created and has not exited is the current thread or in a list
(`no_thread_lost`), whatever else comes in and wherever.
-/
import PicoOS.Sched.MainLoop

namespace PicoOS

open Interruptible Relation

/-! ## The property -/

/-- Every thread that was created and has not exited is the current thread, or in `ready_list`, or
in `lista_espera`. -/
def NoneLost (s : State) : Prop :=
  ∀ a tid d, .created a tid d ∈ s.trace → .exited a tid ∉ s.trace →
    s.tidOf a = tid ∧ (a = s.threadRunningVar ∨ a ∈ s.readyList ∨ a ∈ s.listaEspera)

/-- The handler of the interrupt creates a thread. -/
def Intr.creates : Intr → Prop
  | .create name (some _) _ => name ≠ .null
  | _ => False

/-- The callback creates a thread while the idle thread is current and about to block itself. -/
def LosesThread (pc : Point) (s : State) (i : Intr) : Prop :=
  pc ∈ blockPoints ∧ s.idleThread = some s.threadRunningVar ∧ i.creates

/-! ## The invariant -/

/-- Every registered worker is the current thread or in a list, and every thread of the ledger that
has not exited is a registered worker. -/
structure Tracked (s : State) : Prop where
  kept : ∀ a ∈ s.allList, s.worker a →
    a = s.threadRunningVar ∨ a ∈ s.readyList ∨ a ∈ s.listaEspera
  known : ∀ a tid d, .created a tid d ∈ s.ledger →
    .exited a tid ∈ s.ledger ∨ a ∈ s.allList ∧ s.worker a ∧ s.tidOf a = tid

theorem State.mem_ledger {s : State} {o : Obs} (ho : o.vital = true) :
    o ∈ s.ledger ↔ o ∈ s.trace := by
  rw [State.ledger, List.mem_filter]
  exact ⟨fun h => h.1, fun h => ⟨h, ho⟩⟩

theorem Tracked.noneLost {s : State} (h : Tracked s) : NoneLost s := by
  intro a tid d hcreated hexited
  rcases h.known a tid d ((State.mem_ledger rfl).mpr hcreated) with he | ⟨hall, hw, htid⟩
  · exact absurd ((State.mem_ledger rfl).mp he) hexited
  · exact ⟨htid, h.kept a hall hw⟩

section Tracked

variable {s t : State}

/-- A step that keeps the ledger, the registered threads and who is a worker. -/
theorem Tracked.known_same (h : Tracked s) (hl : t.ledger = s.ledger) (ha : t.allList = s.allList)
    (hw : ∀ a, t.worker a ↔ s.worker a) (htid : ∀ a ∈ s.allList, t.tidOf a = s.tidOf a) :
    ∀ a tid d, .created a tid d ∈ t.ledger →
      .exited a tid ∈ t.ledger ∨ a ∈ t.allList ∧ t.worker a ∧ t.tidOf a = tid := by
  intro a tid d hc
  rw [hl] at hc ⊢
  rcases h.known a tid d hc with he | ⟨hall, hwa, ht⟩
  · exact .inl he
  · exact .inr ⟨ha ▸ hall, (hw a).mpr hwa, (htid a hall).trans ht⟩

theorem Tracked.alike (h : Tracked s) (hst : Alike s t) : Tracked t := by
  have hw : ∀ a, t.worker a ↔ s.worker a := by
    intro a
    rw [State.worker, hst.idle, hst.initial]
    rfl
  refine ⟨fun a ha hwa => ?_,
    h.known_same hst.ledger hst.all hw fun a ha => hst.tid a (.inl ha)⟩
  rw [hst.current, hst.ready, hst.espera]
  exact h.kept a (hst.all ▸ ha) ((hw a).mp hwa)

/-- A switch: the current thread has been stored away, or is no thread to keep, and the next one is
taken from `ready_list`. -/
theorem Tracked.switch {m : State} (h : Tracked s)
    (hstored : ∀ a ∈ s.allList, s.worker a → a ∈ m.readyList ∨ a ∈ s.listaEspera)
    (hr : t.readyList = m.readyList.tail) (hc : t.threadRunningVar = m.succ)
    (he : t.listaEspera = s.listaEspera) (hl : t.ledger = s.ledger) (ha : t.allList = s.allList)
    (hw : ∀ a, t.worker a ↔ s.worker a) (htid : ∀ a ∈ s.allList, t.tidOf a = s.tidOf a) :
    Tracked t := by
  refine ⟨fun a hall hwa => ?_, h.known_same hl ha hw htid⟩
  rw [hc, hr, he]
  by_cases hne : a = m.succ
  · exact .inl hne
  · rcases hstored a (ha ▸ hall) ((hw a).mp hwa) with hm | hm
    · exact .inr (.inl (State.mem_tail_ready hm hne))
    · exact .inr (.inr hm)

theorem Tracked.wakeOne (h : Tracked s) (a : Addr) : Tracked (s.wakeOne a) := by
  refine ⟨fun b hb hw => ?_, h.known_same (State.ledger_log rfl _) rfl (fun _ => Iff.rfl)
    fun b _ => State.tidOf_setStatus a b .ready _⟩
  rcases h.kept b hb hw with hk | hk | hk
  · exact .inl hk
  · exact .inr (.inl (List.mem_append_left _ hk))
  · by_cases hba : b = a
    · exact .inr (.inl (List.mem_append_right _ (List.mem_singleton.mpr hba)))
    · exact .inr (.inr ((List.mem_erase_of_ne hba).mpr hk))

theorem Tracked.charge (h : Tracked s) : Tracked s.charge := by
  have hled : s.charge.ledger =
      s.ledger ++ [.charged s.threadRunningVar (s.tidOf s.threadRunningVar)] :=
    List.filter_append ..
  refine ⟨h.kept, fun a tid d hc => ?_⟩
  rw [hled] at hc ⊢
  rcases List.mem_append.mp hc with hc | hc
  · rcases h.known a tid d hc with he | ⟨hall, hw, ht⟩
    · exact .inl (List.mem_append_left _ he)
    · exact .inr ⟨hall, hw, (State.tidOf_charge s a).trans ht⟩
  · cases List.mem_singleton.mp hc

theorem Tracked.ticked (h : Tracked s) (hs : Linked s) : Tracked s.ticked :=
  (hs.ticked_keeps (P := Tracked) h.charge fun _ a _ _ hp => hp.wakeOne a).2

theorem Tracked.adopt (h : Tracked s) (hs : Linked s) {b : Nat} (hb : s.heap (.block b) = none)
    (d : Int) : Tracked (s.adopt b d) := by
  have hall := (hs.fresh hb).all
  have hnew := (hs.adopt hb d).ready (.block b)
    (List.mem_append_right _ (List.mem_singleton_self _))
  refine ⟨fun a ha hw => ?_, fun a tid d' hc => ?_⟩
  · rcases List.mem_append.mp ha with ha | ha
    · rcases h.kept a ha hw with hk | hk | hk
      · exact .inl hk
      · exact .inr (.inl (List.mem_append_left _ hk))
      · exact .inr (.inr hk)
    · exact .inr (.inl (List.mem_append_right _ ha))
  · rw [State.ledger_adopt] at hc ⊢
    rcases List.mem_append.mp hc with hc | hc
    · rcases h.known a tid d' hc with he | ⟨hmem, hw, ht⟩
      · exact .inl (List.mem_append_left _ he)
      · have hne : a ≠ .block b := by
          rintro rfl
          exact hall hmem
        exact .inr ⟨List.mem_append_left _ hmem, hw, (State.tidOf_adopt hne d).trans ht⟩
    · cases List.mem_singleton.mp hc
      refine .inr ⟨hnew.2.2, hnew.2.1, ?_⟩
      simp [State.tidOf, State.adopt]

/-- The idle thread is blocked. -/
theorem Tracked.blocked (h : Tracked s) (hs : Midway s)
    (hi : s.idleThread = some s.threadRunningVar) : Tracked s.blocked := by
  refine h.switch (m := s) (fun a ha hw => ?_) rfl rfl rfl s.ledger_blocked rfl (fun _ => Iff.rfl)
    fun a _ => hs.blocked_tidOf a
  rcases h.kept a ha hw with rfl | hk | hk
  · exact absurd hi hw.1
  · exact .inl hk
  · exact .inr hk

theorem Tracked.yieldedTo (h : Tracked s) (hs : Midway s) : Tracked s.yieldedTo := by
  refine h.switch (m := s.requeued) (fun a ha hw => ?_) rfl rfl
    (s.requeued_frame (f := State.listaEspera) fun _ _ => rfl) s.ledger_yieldedTo
    (s.requeued_frame (f := State.allList) fun _ _ => rfl)
    (fun a => s.requeued_frame (f := fun s => s.worker a) (fun _ _ => rfl) ▸ Iff.rfl)
    fun a _ => hs.yieldedTo_tidOf a
  unfold State.requeued
  split_ifs with hwc
  · rcases h.kept a ha hw with rfl | hk | hk
    · exact .inl (List.mem_append_right _ (List.mem_singleton_self _))
    · exact .inl (List.mem_append_left _ hk)
    · exact .inr hk
  · rcases h.kept a ha hw with rfl | hk | hk
    · exact absurd hw hwc
    · exact .inl hk
    · exact .inr hk

theorem Tracked.unregister (h : Tracked s) : Tracked s.unregister := by
  refine ⟨fun a ha hw => h.kept a (List.mem_of_mem_erase ha) hw, fun a tid d hc => ?_⟩
  rw [State.ledger_unregister] at hc ⊢
  rcases List.mem_append.mp hc with hc | hc
  · rcases h.known a tid d hc with he | ⟨hmem, hw, ht⟩
    · exact .inl (List.mem_append_left _ he)
    · by_cases hcur : a = s.threadRunningVar
      · refine .inl (List.mem_append_right _ (List.mem_singleton.mpr ?_))
        rw [← ht, hcur]
      · exact .inr ⟨(List.mem_erase_of_ne hcur).mpr hmem, hw, ht⟩
  · cases List.mem_singleton.mp hc

/-- The current thread, which is no longer registered, is left behind. -/
theorem Tracked.switched (h : Tracked s) (hcur : s.threadRunningVar ∉ s.allList) :
    Tracked s.switched := by
  refine h.switch (m := s) (fun a ha hw => ?_) rfl rfl rfl s.ledger_switched rfl (fun _ => Iff.rfl)
    fun a _ => State.tidOf_setStatus ..
  rcases h.kept a ha hw with rfl | hk | hk
  · exact absurd ha hcur
  · exact .inl hk
  · exact .inr hk

end Tracked

/-- `Tracked` rides along, if no callback loses a thread. -/
theorem tracked_rides :
    Rider (fun pc s i => ¬ LosesThread pc s i) Tracked (fun _ => True) True False where
  good _ := trivial
  goodLedger _ _ := trivial
  alike hst h := h.alike hst
  ticked hs h := h.ticked hs.toLinked
  adopt hs hb _ h := h.adopt hs.toLinked hb _
  blocked hs hi h := h.blocked hs (hi trivial)
  yieldedTo hs _ _ h := h.yieldedTo hs
  unregister _ _ _ _ h := h.unregister
  switched _ hcur h := h.switched hcur
  clear h := ⟨h.kept, h.known⟩
  unforced := False.elim
  blockCue _ hpc hname hi hok := hok ⟨hpc, hi, hname⟩
  exitCue := False.elim

/-! ## When no thread is lost -/

theorem Booted.tracked {s : State} (h : Booted s) : Tracked s := by
  refine ⟨fun a ha hw => ?_, fun a tid d hc => ?_⟩
  · exact h.inv.kept a (h.inv.live a ha) hw
  · rw [State.mem_ledger rfl, h.trace] at hc
    cases hc

/-- In every interleaving in which no callback creates a thread between the test of
`block_if_idle_thread` and the mask of the `thread_block` it guards while the idle thread is
current, no thread is lost at the top of the loop, and the loop is stopped by an `ASSERT` only. -/
theorem no_thread_lost {s₀ : State} {c : Code Unit × State} (h₀ : Booted s₀)
    (hrun : LoopRun (fun pc s i => ¬ LosesThread pc s i) (.ret (), s₀) c) :
    (c.1 = .ret () → NoneLost c.2) ∧
      ∀ e, LoopFault (interrupts fun pc s i => ¬ LosesThread pc s i) loopTop c e → e.IsAssert := by
  obtain ⟨-, hfault, htop⟩ := tracked_rides.loop (h₀.steady h₀.tracked) hrun
  exact ⟨fun hret => (htop hret).rides.noneLost, hfault⟩

/-- A thread created at the top of the loop runs after one round. -/
theorem no_thread_lost_one_round : ∃ s, NoneLost s ∧ .created (.block 1) 3 10 ∈ s.trace ∧
    s.threadRunningVar = .block 1 := by
  have hplay : (replay (interrupts fun pc s i => ¬ LosesThread pc s i)
      (fun pc s i => i.possible s && decide (pc = loopTop))
      (some (.create .other (some 1) 10) :: List.replicate 10 none) afterInterrupt
      (afterBoot none 0 0)).any (fun s => decide (.created (.block 1) 3 10 ∈ s.trace ∧
        s.threadRunningVar = .block 1)) = true := by decide +kernel
  obtain ⟨s, hs, hprop⟩ := (Option.any_eq_true _ _).mp hplay
  obtain ⟨hmem, hcur⟩ := of_decide_eq_true hprop
  have hreach : LoopRun (fun pc s i => ¬ LosesThread pc s i) (.ret (), afterBoot none 0 0)
      (.ret (), s) := by
    refine .head (.again _) (replay_reaches (fun pc s i hcan => ?_) hs)
    obtain ⟨hpos, hpc⟩ := Bool.and_eq_true_iff.mp hcan
    refine Intr.possible.enabled hpos fun hl => ?_
    rw [of_decide_eq_true hpc] at hl
    exact absurd hl.1 (by decide)
  exact ⟨s, (no_thread_lost (booted_iff.mpr ⟨none, 0, 0, rfl⟩) hreach).1 rfl, hmem, hcur⟩

/-- A thread that is created right before the mask of that `thread_block` is lost. -/
theorem new_thread_lost : ¬ ∀ s₀ c, Booted s₀ →
    LoopRun (fun _ _ _ => True) (.ret (), s₀) c → c.1 = .ret () → NoneLost c.2 := by
  intro hall
  have hplay : (replay (interrupts fun _ _ _ => True) (fun _ s i => i.possible s)
      (List.replicate 4 none ++ some (.create .other (some 1) 10) :: List.replicate 25 none)
      afterInterrupt (afterBoot none 0 0)).any (fun s => decide
        ((.created (.block 1) 3 10 ∈ s.trace ∧ .exited (.block 1) 3 ∉ s.trace) ∧
          .block 1 ≠ s.threadRunningVar ∧ .block 1 ∉ s.readyList ∧ .block 1 ∉ s.listaEspera)) =
      true := by decide +kernel
  obtain ⟨s, hs, hprop⟩ := (Option.any_eq_true _ _).mp hplay
  obtain ⟨⟨hcreated, hexited⟩, hcur, hready, hespera⟩ := of_decide_eq_true hprop
  have hreach : LoopRun (fun _ _ _ => True) (.ret (), afterBoot none 0 0) (.ret (), s) :=
    .head (.again _) (replay_reaches (fun _ _ _ hcan => Intr.possible.enabled hcan trivial) hs)
  have hlost := hall _ _ (booted_iff.mpr ⟨none, 0, 0, rfl⟩) hreach rfl (.block 1) 3 10 hcreated
    hexited
  rcases hlost.2 with h | h | h
  · exact hcur h
  · exact hready h
  · exact hespera h

end PicoOS
