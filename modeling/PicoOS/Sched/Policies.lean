/-
# `PicoOS.Sched.Policies` — round robin and FIFO

Runs in which threads are created with a positive duration, the timer ticks and
the main loop polls, at least once between two ticks.  Such a run is a run of
the dispatcher (`computes_run`), whatever the quantum; under a quantum its
charges are a prefix of the textbook round robin of the threads created, in
FIFO mode they are a prefix of every thread to its end in the order of creation.
-/
import PicoOS.Sched.Workload

namespace PicoOS

open Runs Dispatching

/-! ## The calls -/

namespace Op

/-- The call creates a thread with a positive duration, ticks or polls. -/
def Computes : Op → Prop
  | .threadCreate _ _ d => 0 < d.toInt
  | .timerInterrupt | .afterInterrupt => True
  | _ => False

/-- The call creates a thread with a positive duration, or polls. -/
def Creates : Op → Prop
  | .threadCreate _ _ d => 0 < d.toInt
  | .afterInterrupt => True
  | _ => False

/-- The call ticks or polls. -/
def Advances : Op → Prop
  | .timerInterrupt | .afterInterrupt => True
  | _ => False

/-- The duration of the thread the call creates, if `calloc` succeeds. -/
def duration : Op → Option Nat
  | .threadCreate _ (some _) d => some d.toInt.toNat
  | _ => none

end Op

/-- There was a poll since the last tick, after this call; `b` says so of before it. -/
def Op.polled (b : Bool) : Op → Bool
  | .timerInterrupt => false
  | .afterInterrupt => true
  | _ => b

/-- At least one `after_interrupt` between two consecutive `timer_interrupt`s, and before the
first if `b` is false. -/
def Polled : Bool → List Op → Prop
  | _, [] => True
  | b, op :: ops => (op = .timerInterrupt → b = true) ∧ Polled (op.polled b) ops

/-! ## The settings do not change -/

theorem quantum_effect {op : Op} (h : op.Computes) (s : State) :
    (op.effect s).quantum = s.quantum := by
  have hop : op.KeepsQuantum := by
    rintro mode rrticks rfl
    exact h
  obtain ⟨hmode, hticks⟩ := effect_settings hop s
  rw [State.quantum, hmode, hticks, State.quantum]

/-! ## Runs of the dispatcher -/

/-- A property of the dispatcher, and of whether it was polled since the last tick, that its
steps keep. -/
structure Carried (A : Op → Prop) (quantum : Option Nat) (P : Bool → Dispatcher Nat → Prop) :
    Prop where
  submit : ∀ name block x, A (.threadCreate name block x) → ∀ b m j d, m.Tidy → P b m →
    j ∉ Dispatcher.ids m.submitted → 0 < d → P b (m.submit j d)
  tick : A .timerInterrupt → ∀ m, m.Needy → P true m → P false (m.tick (2 ^ 32))
  poll : ∀ b m, m.Tidy → P b m → P true (m.poll quantum)

/-- The scheduler between two calls of such a run. -/
structure Carrying (quantum : Option Nat) (P : Bool → Dispatcher Nat → Prop) (b : Bool)
    (s : State) : Prop extends Workload s where
  quantum : s.quantum = quantum
  needy : b = true → s.abs.Needy
  holds : P b s.abs

section Run

variable {A : Op → Prop} {quantum : Option Nat} {P : Bool → Dispatcher Nat → Prop} {s t : State}

/-- The next `tid` is new. -/
theorem Workload.nextTid_new (h : Workload s) : s.nextTid ∉ Dispatcher.ids s.abs.submitted := by
  intro hmem
  obtain ⟨j, hj, hid⟩ := List.mem_map.mp hmem
  exact Nat.lt_irrefl s.nextTid (hid ▸ h.numbered j hj)

/-- One call. -/
theorem computes_step (hP : Carried A quantum P) {b : Bool} {op : Op} (hA : A op)
    (hop : op.Computes) (hb : op = .timerInterrupt → b = true) (h : Carrying quantum P b s)
    (hstep : Step s op t) :
    Carrying quantum P (op.polled b) t ∧
      t.abs.submitted.map Prod.snd = s.abs.submitted.map Prod.snd ++ op.duration.toList := by
  have hquantum : t.quantum = quantum := by
    rw [hstep.effect h.toInv, quantum_effect hop, h.quantum]
  rw [hstep.effect h.toInv] at hquantum ⊢
  cases op with
  | threadCreate name block d =>
      cases block with
      | none => exact ⟨h, (List.append_nil _).symm⟩
      | some n =>
          have hd : 0 < d.toInt.toNat := by
            have : 0 < d.toInt := hop
            omega
          obtain ⟨hw, habs⟩ := h.toWorkload.created (hstep.1 n rfl) hop
          have hnew := h.toWorkload.nextTid_new
          show Carrying quantum P b (s.created (some n) d.toInt) ∧
            (s.created (some n) d.toInt).abs.submitted.map Prod.snd = _
          rw [habs, (Dispatcher.submit_log _ _ _).1]
          refine ⟨⟨hw, hquantum, fun hb' => ?_, ?_⟩, by simp [Op.duration]⟩
          · rw [habs]
            exact (h.needy hb').submit hd
          · rw [habs]
            exact hP.submit _ _ _ hA b _ _ _ h.toWorkload.tidy h.holds hnew hd
  | timerInterrupt =>
      have hneedy := h.needy (hb rfl)
      have habs := h.toWorkload.abs_ticked
      show Carrying quantum P false s.ticked ∧ s.ticked.abs.submitted.map Prod.snd = _
      rw [habs, Dispatcher.tick_submitted]
      refine ⟨⟨h.toWorkload.ticked hneedy, hquantum, nofun, ?_⟩, (List.append_nil _).symm⟩
      rw [habs]
      exact hP.tick hA _ hneedy (hb rfl ▸ h.holds)
  | afterInterrupt =>
      obtain ⟨hw, habs⟩ := h.toWorkload.abs_polled
      have htidy := h.toWorkload.tidy
      show Carrying quantum P true s.polled ∧ s.polled.abs.submitted.map Prod.snd = _
      rw [habs, Dispatcher.poll_submitted]
      refine ⟨⟨hw, hquantum, fun _ => ?_, ?_⟩, (List.append_nil _).symm⟩
      · rw [habs]
        exact (htidy.poll _).2
      · rw [habs, h.quantum]
        exact hP.poll b _ htidy h.holds
  | _ => exact hop.elim

/-- A run of such calls is a run of the dispatcher. -/
theorem computes_run (hP : Carried A quantum P) (hA : ∀ op, A op → op.Computes) {ops : List Op}
    (hrun : Run Step s ops t) : ∀ {b : Bool}, Carrying quantum P b s → (∀ op ∈ ops, A op) →
      Polled b ops → (∃ b', Carrying quantum P b' t) ∧
        t.abs.submitted.map Prod.snd = s.abs.submitted.map Prod.snd ++ ops.filterMap Op.duration := by
  induction hrun with
  | nil s =>
      intro b h _ _
      exact ⟨⟨b, h⟩, (List.append_nil _).symm⟩
  | @cons s t u op ops hstep _ ih =>
      intro b h hops hpoll
      have hAop := hops op (List.mem_cons_self ..)
      obtain ⟨h', hsub⟩ := computes_step hP hAop (hA op hAop) hpoll.1 h hstep
      obtain ⟨hend, hsubs⟩ := ih h' (fun o ho => hops o (List.mem_cons_of_mem _ ho)) hpoll.2
      refine ⟨hend, ?_⟩
      rw [hsubs, hsub, List.append_assoc]
      cases hd : op.duration <;> simp [hd]

end Run

/-! ## The start -/

theorem Booted.workload {s : State} (h : Booted s) :
    Workload s ∧ s.abs = Dispatcher.empty := by
  obtain ⟨quantum, i, k, rfl⟩ := booted_iff.mp h
  obtain ⟨hready, hespera, -, hexit, -, htrace⟩ := afterBoot_kept quantum i k
  have hticks : (afterBoot quantum i k).threadTicks = 0 := by
    obtain ⟨m, q, hset⟩ := settings_eq quantum
    simp [afterBoot, hset, powerOn]
  have hidle : (afterBoot quantum i k).idleThread =
      some (afterBoot quantum i k).threadRunningVar := rfl
  refine ⟨⟨afterBoot_inv quantum i k, hespera, hexit, fun _ => hready, ?_,
    fun hw => absurd hidle hw.1, ?_, ?_⟩, ?_⟩
  · intro a ha
    rw [hready] at ha
    cases ha
  · intro j hj
    rw [htrace] at hj
    cases hj
  · rw [htrace]
    rfl
  · simp only [State.abs, if_pos hidle, hready, htrace, hticks]
    simp [Dispatcher.empty, chargedIn, freedIn, createdIn]

theorem Dispatcher.Untouched.empty : (Dispatcher.empty : Dispatcher Nat).Untouched :=
  ⟨.empty, nofun, rfl, fun h => absurd rfl h, rfl⟩

/-! ## FIFO -/

theorem fifo_carried : Carried Op.Computes none fun _ m => m.Charges ∧ m.Ledger where
  submit _ _ _ _ _ _ j d ht h hnew _ := ⟨h.1.submit ht j d, h.2.submit ht hnew d⟩
  tick _ _ hn h := ⟨h.1.tick hn _, h.2.tick hn _⟩
  poll _ _ _ h := ⟨h.1.poll, h.2.poll none⟩

/-- In FIFO mode the charges are a prefix of every thread to its end in the order of creation, a
thread is freed after exactly its duration, and the idle thread is charged only when every thread
created so far has exited. -/
theorem fifo_to_completion {s₀ s : State} {ops : List Op} (h₀ : Booted s₀)
    (hmode : s₀.roundRobinMode = 0) (hops : ∀ op ∈ ops, op.Computes) (hpoll : Polled true ops)
    (hrun : Run Step s₀ ops s) :
    chargedIn s.idleThread s.trace <+: fifo (createdIn s.trace) ∧
    (∀ tid d, (tid, d) ∈ createdIn s.trace → tid ∈ freedIn s.trace →
      (chargedIn s.idleThread s.trace).count tid = d) ∧
    ∀ s' i n, Step s .timerInterrupt s' → s.idleThread = some i →
      s'.trace = s.trace ++ [.charged i n] →
      ∀ tid d, (tid, d) ∈ createdIn s.trace → tid ∈ exitedIn s.trace := by
  obtain ⟨hw₀, habs₀⟩ := h₀.workload
  have hstart : Carrying none (fun _ m => m.Charges ∧ m.Ledger) true s₀ := by
    refine ⟨hw₀, if_pos hmode, fun _ => ?_, ?_⟩
    · rw [habs₀]
      exact nofun
    · rw [habs₀]
      exact ⟨rfl, .empty⟩
  obtain ⟨⟨b, h⟩, -⟩ := computes_run fifo_carried (fun _ ho => ho) hrun hstart hops hpoll
  obtain ⟨hcharges, hledger⟩ := h.holds
  refine ⟨⟨_, hcharges⟩, fun tid d hd hf => hledger.done tid d hf hd, ?_⟩
  intro s' i n hstep hi htrace tid d hd
  have hcur : i = s.threadRunningVar := by
    rw [hstep.effect h.toInv, show Op.effect .timerInterrupt s = s.ticked from rfl,
      h.toWorkload.ticked_eq] at htrace
    have hlast := List.append_cancel_left htrace
    simp only [List.cons.injEq, Obs.charged.injEq] at hlast
    exact hlast.1.1.symm
  have hnone : s.abs.running = none := if_pos (hcur ▸ hi)
  rw [h.exits]
  exact hledger.all_done h.toWorkload.tidy hnone (Dispatcher.mem_ids hd)

/-- A thread of duration 2 with another of duration 1 created between its ticks: they run one after
the other, and the idle thread after both. -/
theorem fifo_to_completion_two_one :
    let s := effects (afterBoot none 0 0)
      [.threadCreate .other (some 1) 2, .timerInterrupt, .threadCreate .other (some 2) 1,
        .afterInterrupt, .timerInterrupt, .afterInterrupt, .timerInterrupt, .afterInterrupt]
    createdIn s.trace = [(3, 2), (4, 1)] ∧ chargedIn s.idleThread s.trace = [3, 3, 4] ∧
      (chargedIn s.idleThread s.trace).count 3 = 2 ∧ 4 ∈ exitedIn s.trace := by
  intro s
  have hcreated : createdIn s.trace = [(3, 2), (4, 1)] := by decide +kernel
  have hrun : Run Step (afterBoot none 0 0) _ s :=
    run_of_allows (afterBoot_inv none 0 0) (by decide +kernel)
  have htick : Step s .timerInterrupt _ :=
    step_of_allowed (inv_of_run hrun (afterBoot_inv none 0 0)) trivial rfl
  have h := fifo_to_completion (booted_iff.mpr ⟨none, 0, 0, rfl⟩) rfl (by simp [Op.Computes])
    (by simp [Polled, Op.polled]) hrun
  rw [hcreated] at h
  refine ⟨hcreated, by decide +kernel, h.2.1 3 2 (by decide) (by decide +kernel), ?_⟩
  exact h.2.2 _ (.block 0) 2 htick (by decide +kernel) (by decide +kernel) 4 1 (by decide)

/-! ## Round robin -/

theorem untouched_carried {q : Nat} (hq : 0 < q) :
    Carried Op.Creates (some q) fun _ m => m.Untouched ∧ m.Ledger where
  submit _ _ _ _ _ _ j d ht h hnew hd := ⟨h.1.submit j hd, h.2.submit ht hnew d⟩
  tick hA := hA.elim
  poll _ _ _ h := ⟨h.1.poll hq, h.2.poll _⟩

theorem roundRobin_carried {q : Nat} (hq : 0 < q) (hw : q < 2 ^ 32) :
    Carried Op.Advances (some q)
      fun b m => m.Slices q hq ∧ m.Ledger ∧ (b = true → m.InSlice q) where
  submit _ _ _ hA := hA.elim
  tick _ _ hn h := ⟨h.1.tick hn (h.2.2 rfl) hw, h.2.1.tick hn _, nofun⟩
  poll _ _ _ h := ⟨h.1.poll.1, h.2.1.poll _, fun _ => h.1.poll.2⟩

theorem Op.Creates.computes {op : Op} (h : op.Creates) : op.Computes := by
  cases op <;> first | exact h | exact h.elim

theorem Op.Advances.computes {op : Op} (h : op.Advances) : op.Computes := by
  cases op <;> first | exact h | exact h.elim

/-- Calls without a tick need no poll. -/
theorem Polled.of_creates : ∀ {ops : List Op} {b : Bool}, (∀ op ∈ ops, op.Creates) → Polled b ops
  | [], _, _ => trivial
  | op :: ops, _, h => by
      refine ⟨fun he => ?_, Polled.of_creates fun o ho => h o (List.mem_cons_of_mem _ ho)⟩
      have hop := h op (List.mem_cons_self ..)
      rw [he] at hop
      exact hop.elim

/-- Setting the quantum of a workload. -/
theorem Workload.withQuantum {s : State} (h : Workload s) {q : Int} (hq : 0 < q) :
    Workload (s.withQuantum 1 q) ∧ (s.withQuantum 1 q).abs = s.abs ∧
      (s.withQuantum 1 q).quantum = some q.toNat := by
  have heq : s.withQuantum 1 q = { s with roundRobinMode := 1, roundRobinTicks := q.toNat } := by
    rw [State.withQuantum, if_neg (by decide), if_pos ⟨rfl, hq⟩]
  rw [heq]
  refine ⟨⟨h.toInv.config 1 q.toNat s.threadExitOnReturn, h.awake, h.unforced, h.idleAlone, h.needs,
    h.nonneg, h.numbered, h.exits⟩, rfl, rfl⟩

/-- After `schedule_set_quantum (1, q)` and the creation of threads with positive durations, the
charges are a prefix of the textbook round robin of these threads with quantum `q`, and a thread is
freed after exactly its duration. -/
theorem round_robin_textbook {s₀ s₁ s₂ s : State} {q : Int32} {setup events : List Op}
    (h₀ : Booted s₀) (hq : 0 < q.toInt) (hset : Step s₀ (.scheduleSetQuantum 1 q) s₁)
    (hcreate : ∀ op ∈ setup, op.Creates) (hsetup : Run Step s₁ setup s₂)
    (hadvance : ∀ op ∈ events, op.Advances) (hpoll : Polled true events)
    (hrun : Run Step s₂ events s) :
    (createdIn s.trace).map Prod.snd = setup.filterMap Op.duration ∧
    chargedIn s.idleThread s.trace <+:
      roundRobin q.toInt.toNat (by omega) (createdIn s.trace) ∧
    ∀ tid d, (tid, d) ∈ createdIn s.trace → tid ∈ freedIn s.trace →
      (chargedIn s.idleThread s.trace).count tid = d := by
  have hpos : 0 < q.toInt.toNat := by omega
  have hlt : q.toInt.toNat < 2 ^ 32 := by
    have := q.toInt_lt
    omega
  obtain ⟨hw₀, habs₀⟩ := h₀.workload
  obtain ⟨hw₁, habs₁, hquantum⟩ := hw₀.withQuantum hq
  have heff : s₁ = s₀.withQuantum 1 q.toInt := hset.effect hw₀.toInv
  rw [← heff] at hw₁ habs₁ hquantum
  rw [habs₀] at habs₁
  have hstart : Carrying (some q.toInt.toNat) (fun _ m => m.Untouched ∧ m.Ledger) true s₁ := by
    refine ⟨hw₁, hquantum, fun _ => ?_, ?_⟩
    · rw [habs₁]
      exact nofun
    · rw [habs₁]
      exact ⟨Dispatcher.Untouched.empty, .empty⟩
  obtain ⟨⟨b, h₂⟩, hsub₂⟩ := computes_run (untouched_carried hpos) (fun _ ho => ho.computes) hsetup
    hstart hcreate (Polled.of_creates hcreate)
  have hslices : s₂.abs.Slices q.toInt.toNat hpos ∧ s₂.abs.InSlice q.toInt.toNat :=
    h₂.holds.1.slices
  have hmid : Carrying (some q.toInt.toNat) (fun b m => m.Slices q.toInt.toNat hpos ∧ m.Ledger ∧
      (b = true → m.InSlice q.toInt.toNat)) true s₂ :=
    ⟨h₂.toWorkload, h₂.quantum, fun _ => h₂.holds.1.needy, hslices.1, h₂.holds.2,
      fun _ => hslices.2⟩
  obtain ⟨⟨b', h⟩, hsub⟩ := computes_run (roundRobin_carried hpos hlt) (fun _ ho => ho.computes)
    hrun hmid hadvance hpoll
  have hnone : events.filterMap Op.duration = [] := by
    refine List.filterMap_eq_nil_iff.mpr fun op hop => ?_
    have hadv := hadvance op hop
    cases op <;> first | rfl | exact hadv.elim
  obtain ⟨hend, hledger, -⟩ := h.holds
  refine ⟨?_, ⟨_, hend⟩, fun tid d hd hf => hledger.done tid d hf hd⟩
  rw [hnone, List.append_nil, hsub₂, habs₁] at hsub
  exact hsub

/-- Durations 3 and 2 under quantum 2: the first thread is charged twice, the second twice, and the
first once more. -/
theorem round_robin_textbook_three_two :
    let s₂ := effects ((afterBoot none 0 0).withQuantum 1 2)
      [.threadCreate .other (some 1) 3, .threadCreate .other (some 2) 2]
    let s := effects s₂ [.timerInterrupt, .afterInterrupt, .timerInterrupt, .afterInterrupt,
      .timerInterrupt, .afterInterrupt, .timerInterrupt, .afterInterrupt, .timerInterrupt]
    createdIn s.trace = [(3, 3), (4, 2)] ∧ chargedIn s.idleThread s.trace = [3, 3, 4, 4, 3] ∧
      chargedIn s.idleThread s.trace <+: roundRobin 2 (by decide) [(3, 3), (4, 2)] := by
  intro s₂ s
  have hcreated : createdIn s.trace = [(3, 3), (4, 2)] := by decide +kernel
  have hset : Step (afterBoot none 0 0) (.scheduleSetQuantum 1 2) _ :=
    step_of_allowed (afterBoot_inv none 0 0) trivial rfl
  have hinv₁ := (hset.moves (afterBoot_inv none 0 0)).inv (afterBoot_inv none 0 0)
  have hsetup : Run Step _ _ s₂ := run_of_allows hinv₁ (by decide +kernel)
  have hrun : Run Step _ _ s := run_of_allows (inv_of_run hsetup hinv₁) (by decide +kernel)
  have h := round_robin_textbook (booted_iff.mpr ⟨none, 0, 0, rfl⟩) (by decide) hset
    (by simp [Op.Creates]) hsetup (by simp [Op.Advances]) (by simp [Polled, Op.polled]) hrun
  exact ⟨hcreated, by decide +kernel, hcreated ▸ h.2.1⟩

end PicoOS
