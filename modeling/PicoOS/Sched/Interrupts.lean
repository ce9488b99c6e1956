/-
# `PicoOS.Sched.Interrupts` — a tick in the middle of a function

Between calls the state satisfies `Inv`.  In the middle of a function it need
not: `thread_exit` has taken the current thread off `all_list`, say.  What a
`timer_interrupt` relies on is less (`Midway`): the lists are in order and the
current thread passes `thread_current`.  Then the tick returns, and leaves such
a state behind (`Midway.ticked`).  Where the current thread is not RUNNING the
tick panics (`tick_panics`).

`State.ticked_frame` and `Linked.ticked_keeps` are the two ways to say what a
tick keeps: a value that neither `charge` nor a wake-up changes, and an
assertion that both of them keep.
-/
import PicoOS.Sched.Ops

namespace PicoOS

open Interruptible

/-! ## Interrupts are on between calls -/

theorem Stop.intr {s m : State} (hm : Stop s m) : m.intrEnabled = s.intrEnabled := by
  cases hm with
  | block => rfl
  | yield => exact s.requeued_intrEnabled
  | exit => rfl
  | sleep => rfl

theorem Move.intr {s t : State} (hm : Move s t) : t.intrEnabled = s.intrEnabled := by
  cases hm with
  | switch hm => exact hm.intr
  | deadline => rfl
  | create => rfl
  | charge => rfl
  | wake => rfl
  | config => rfl

theorem Reachable.intr {s : State} (h : Reachable s) : s.intrEnabled = true := by
  obtain ⟨s₀, ops, h₀, hrun⟩ := h
  refine keeps_of_run (P := fun s => s.intrEnabled = true)
    (fun _ _ _ hp hm => hm.intr.trans hp) hrun h₀.inv ?_
  obtain ⟨quantum, i, k, rfl⟩ := booted_iff.mp h₀
  exact (afterBoot_kept quantum i k).2.2.2.2.1

/-! ## What a tick keeps -/

theorem State.wakeList_heap {a : Addr} {k : Nat} : ∀ {l : List Addr} {s : State}, a ∉ l →
    (s.wakeList k l).heap a = s.heap a
  | [], _, _ => rfl
  | b :: rest, s, ha => by
      have hne : a ≠ b := fun he => ha (he ▸ List.mem_cons_self ..)
      have hrest : a ∉ rest := fun hm => ha (List.mem_cons_of_mem _ hm)
      rw [State.wakeList]
      split_ifs
      · exact (wakeList_heap hrest).trans ((State.wakeOne_heap _ _ _).trans (if_neg hne))
      · exact wakeList_heap hrest

/-- A thread that is not asleep keeps its status. -/
theorem State.ticked_statusOf {s : State} {a : Addr} (ha : a ∉ s.listaEspera) :
    s.ticked.statusOf a = s.statusOf a := by
  rw [State.statusOf, State.ticked, State.wakeList_heap ha]
  exact State.statusOf_mapThread s.threadRunningVar a (f := fun th =>
    { th with durationTicks := th.durationTicks - 1 }) (fun _ => rfl) s

theorem Linked.wakeList_keeps {P : State → Prop}
    (hP : ∀ s a, Linked s → a ∈ s.listaEspera → P s → P (s.wakeOne a)) {k : Nat} :
    ∀ {l : List Addr} {s : State}, Linked s → l.Nodup → (∀ a ∈ l, a ∈ s.listaEspera) → P s →
      Linked (s.wakeList k l) ∧ P (s.wakeList k l)
  | [], _, hs, _, _, hp => ⟨hs, hp⟩
  | a :: rest, s, hs, hl, hmem, hp => by
      have hl' := List.nodup_cons.mp hl
      rw [State.wakeList]
      split_ifs
      · have ha := hmem a (List.mem_cons_self ..)
        refine wakeList_keeps hP (hs.wakeOne ha) hl'.2 (fun b hb => ?_) (hP s a hs ha hp)
        have hne : b ≠ a := fun he => hl'.1 (he ▸ hb)
        exact (List.mem_erase_of_ne hne).mpr (hmem b (List.mem_cons_of_mem _ hb))
      · exact wakeList_keeps hP hs hl'.2 (fun b hb => hmem b (List.mem_cons_of_mem _ hb)) hp

/-- An assertion that the charge and every wake-up keep. -/
theorem Linked.ticked_keeps {P : State → Prop} {s : State} (h : Linked s) (hc : P s.charge)
    (hP : ∀ s a, Linked s → a ∈ s.listaEspera → P s → P (s.wakeOne a)) :
    Linked s.ticked ∧ P s.ticked :=
  Linked.wakeList_keeps hP h.charge h.esperaNodup (fun _ ha => ha) hc

/-! ## Switching to a thread and freeing one -/

section Switch

variable {s : State}

/-- The thread that was chosen is no longer in `ready_list`. -/
theorem Linked.choose (h : Linked s) : Linked s.choose :=
  ⟨h.readyNodup.tail, h.esperaNodup, h.allNodup, fun a ha => h.ready a (List.mem_of_mem_tail ha),
    h.espera, h.live, h.magic, h.idle, h.initial, h.tids⟩

theorem Linked.switched (h : Linked s) : Linked s.switched := by
  obtain ⟨hr, he⟩ := h.succ_unlinked
  have hs : Linked (s.choose.setStatus s.succ .running) := h.choose.setStatus_off hr he .running
  exact hs.frame rfl rfl rfl rfl rfl (Nat.le_refl _) hs.magic (fun _ ha => ha) (fun _ _ => rfl)

theorem Linked.switched_current (h : Linked s) : HasCurrent s.switched := by
  obtain ⟨th, hth⟩ := State.statusOf_ne_none.mp (h.live _ h.succ_spec.1)
  refine ⟨{ th with status := .running }, ?_, h.magic _ th hth, rfl⟩
  exact (State.setStatus_heap _ _ _ _).trans ((if_pos rfl).trans (congrArg _ hth))

end Switch

/-- `free (a)`. -/
def State.release (a : Addr) (s : State) : State :=
  { s with heap := Function.update s.heap a none }.log (.freed a (s.tidOf a))

theorem free_ok {s : State} {a : Addr} {th : Thread} (h : s.heap a = some th) :
    free a s = .ok ((), s.release a) := by
  simp only [free, State.release, State.tidOf, h, Option.elim]

/-! ## Where a tick is harmless -/

/-- The lists are in order and the current thread passes `thread_current`. -/
structure Midway (s : State) : Prop extends Linked s where
  current : HasCurrent s
  notInitial : s.threadRunningVar ≠ s.initialThread

theorem Inv.midway {s : State} (h : Inv s) : Midway s := ⟨h.toLinked, h.hasCurrent, h.current⟩

theorem HasCurrent.status {s : State} (h : HasCurrent s) :
    s.statusOf s.threadRunningVar = some .running := by
  obtain ⟨c, hc, -, hst⟩ := h
  rw [State.statusOf, hc, Option.map_some, hst]

theorem HasCurrent.setCurrent_status {s : State} (h : HasCurrent s) (st : ThreadStatus) :
    (s.setCurrent st).statusOf s.threadRunningVar = some st := by
  refine (State.statusOf_setStatus _ _ _ _).trans ((if_pos rfl).trans ?_)
  rw [h.status]
  rfl

theorem HasCurrent.wakeOne {s : State} (h : HasCurrent s) {a : Addr}
    (ha : s.statusOf a = some .blocked) : HasCurrent (s.wakeOne a) := by
  have hst := h.status
  obtain ⟨c, hc, hcur⟩ := h
  have hne : s.threadRunningVar ≠ a := by
    rintro rfl
    rw [hst] at ha
    cases ha
  exact ⟨c, (State.wakeOne_heap _ _ _).trans ((if_neg hne).trans hc), hcur⟩

namespace Midway

variable {s : State}

theorem not_ready (h : Midway s) : s.threadRunningVar ∉ s.readyList := by
  intro hm
  have hst := (h.ready _ hm).1
  rw [h.current.status] at hst
  cases hst

theorem not_espera (h : Midway s) : s.threadRunningVar ∉ s.listaEspera := by
  intro hm
  have hst := (h.espera _ hm).1
  rw [h.current.status] at hst
  cases hst

theorem ticked (h : Midway s) : Midway s.ticked := by
  obtain ⟨hl, hc⟩ := h.toLinked.ticked_keeps (P := HasCurrent) h.current.charge
    (fun s a hs ha hc => hc.wakeOne (hs.espera a ha).1)
  refine ⟨hl, hc, ?_⟩
  rw [s.ticked_current, State.ticked_frame (f := State.initialThread) rfl fun _ _ => rfl]
  exact h.notInitial

end Midway

/-- The handler of a timer interrupt. -/
def tick : State → Except Fault State := exec .timerInterrupt

theorem tick_ok {s : State} (h : Midway s) : tick s = .ok s.ticked := by
  simp only [tick, exec, Op.code, run_timerInterrupt h.current h.toLinked.sleeping]
  rfl

/-- The panic of `thread_current`. -/
def notRunning : Fault := .assert "thread_current" "t->status == THREAD_RUNNING"

/-- A tick panics while the current thread is not RUNNING. -/
theorem tick_panics {s : State} {c : Thread} (hc : s.heap s.threadRunningVar = some c)
    (hm : c.magic = threadMagic) (hst : c.status ≠ .running) : tick s = .error notRunning := by
  have hrun : timerInterrupt.run s = .error notRunning := by
    unfold timerInterrupt
    rw [run_step rfl]
    refine Prog.run_bind_error ?_
    unfold threadTick
    exact Prog.run_bind_error
      (run_threadCurrent_fault (s := { s with ticks := s.ticks + 1 }) hc hm hst .tickCur)
  simp only [tick, exec, Op.code, hrun]
  rfl

/-! ## Under the mask

Between `save_and_disable_interrupts` and `restore_interrupts` no statement
turns interrupts on, and none creates, charges or unregisters a thread. -/

/-- The entries of the log about the life of a thread. -/
def Obs.vital : Obs → Bool
  | .created _ _ _ | .charged _ _ | .exited _ _ => true
  | _ => false

/-- The log, as far as it is about the life of a thread. -/
def State.ledger (s : State) : List Obs := s.trace.filter Obs.vital

/-- Interrupts are off and the ledger is `l`. -/
def Masked (l : List Obs) (s : State) : Prop := s.intrEnabled = false ∧ s.ledger = l

/-- The statement leaves the mask and the ledger as they are. -/
def Muted {β : Type} (act : State → Except Fault (β × State)) : Prop :=
  ∀ s b s', act s = .ok (b, s') → s'.intrEnabled = s.intrEnabled ∧ s'.ledger = s.ledger

section Muted

variable {α β : Type}

theorem muted_reads {f : State → β} : Muted (reads f) := by
  intro s b s' h
  cases h
  exact ⟨rfl, rfl⟩

theorem muted_derefs {f : State → Except Fault β} : Muted (derefs f) := by
  intro s b s' h
  rw [derefs_state h]
  exact ⟨rfl, rfl⟩

theorem muted_touches {a : Addr} : Muted (touches a) := by
  intro s b s' h
  rw [touches_state h]
  exact ⟨rfl, rfl⟩

theorem muted_asserts {f c : String} {p : State → Except Fault Bool} : Muted (asserts f c p) := by
  intro s b s' h
  rw [asserts_state h]
  exact ⟨rfl, rfl⟩

theorem muted_stores {a : Addr} {f : Thread → Thread} : Muted (stores a f) := by
  intro s b s' h
  rw [stores_state h]
  exact ⟨rfl, rfl⟩

theorem muted_writes {f : State → State}
    (hf : ∀ s, (f s).intrEnabled = s.intrEnabled ∧ (f s).ledger = s.ledger) : Muted (writes f) := by
  intro s b s' h
  cases h
  exact hf s

/-- An entry that is not vital leaves the ledger as it is. -/
theorem State.ledger_log {o : Obs} (ho : o.vital = false) (s : State) :
    (s.log o).ledger = s.ledger := by
  simp [State.ledger, State.log, ho]

theorem State.ledger_dispatch (s : State) : s.dispatch.ledger = s.ledger := by
  simp only [State.ledger, State.dispatch, List.filter_append]
  split_ifs <;> simp [Obs.vital]

theorem State.ledger_blocked (s : State) : s.blocked.ledger = s.ledger := State.ledger_dispatch _

theorem State.ledger_requeued (s : State) : s.requeued.ledger = s.ledger := by
  unfold State.requeued
  split_ifs
  · exact State.ledger_log rfl _
  · rfl

theorem State.ledger_yieldedTo (s : State) : s.yieldedTo.ledger = s.ledger :=
  (State.ledger_dispatch _).trans s.ledger_requeued

theorem State.ledger_switched (s : State) : s.switched.ledger = s.ledger :=
  (State.ledger_log rfl _).trans (State.ledger_log rfl _)

theorem State.ledger_ticked (s : State) : s.ticked.ledger =
    s.ledger ++ [.charged s.threadRunningVar (s.tidOf s.threadRunningVar)] := by
  refine (State.wakeList_frame (f := State.ledger) (fun a s => ?_) _ _).trans ?_
  · exact State.ledger_log rfl _
  · exact List.filter_append ..

theorem State.ledger_adopt (s : State) (b : Nat) (d : Int) :
    (s.adopt b d).ledger = s.ledger ++ [.created (.block b) s.nextTid d] :=
  List.filter_append ..

theorem State.ledger_unregister (s : State) : s.unregister.ledger =
    s.ledger ++ [.exited s.threadRunningVar (s.tidOf s.threadRunningVar)] :=
  List.filter_append ..

theorem muted_nextOf (empty : Bool) : Muted (nextOf empty) := by
  intro s b s' h
  unfold nextOf at h
  split at h
  · cases h
    exact ⟨rfl, State.ledger_log rfl s⟩
  · split at h
    · cases h
    · cases h
      exact ⟨rfl, State.ledger_log rfl _⟩

theorem muted_free (a : Addr) : Muted (free a) := by
  intro s b s' h
  unfold free at h
  split at h
  · cases h
    exact ⟨rfl, State.ledger_log rfl _⟩
  · cases h

theorem muted_pushReady (a : Addr) : Muted (pushReady a) := by
  intro s b s' h
  unfold pushReady at h
  split at h
  · cases h
  · cases h
    exact ⟨rfl, State.ledger_log rfl _⟩

theorem keeps_stmt {l : List Obs} {pc : Point} {act : State → Except Fault (β × State)}
    {k : β → Code α} (h : Muted act) (hk : ∀ b, Keeps (Masked l) (k b)) :
    Keeps (Masked l) (.stmt pc act k) := by
  intro s b s' hs ha
  obtain ⟨hi, hl⟩ := h s b s' ha
  exact ⟨⟨hi.trans hs.1, hl.trans hs.2⟩, hk b⟩

end Muted

section Keeps

variable {l : List Obs}

theorem keeps_threadCurrent (site : Site) : Keeps (Masked l) (threadCurrent site) :=
  keeps_stmt muted_reads fun _ => keeps_stmt muted_asserts fun _ =>
    keeps_stmt muted_asserts fun _ => trivial

theorem keeps_threadScheduleTail (prev : Option Addr) :
    Keeps (Masked l) (threadScheduleTail prev) := by
  refine keeps_stmt muted_reads fun cur => keeps_stmt muted_stores fun _ =>
    keeps_stmt (muted_writes fun _ => ⟨rfl, rfl⟩) fun _ => ?_
  cases prev with
  | none => trivial
  | some p =>
      refine keeps_stmt muted_derefs fun dying => ?_
      cases dying with
      | false => trivial
      | true => exact keeps_stmt muted_asserts fun _ => keeps_stmt (muted_free p) fun _ => trivial

theorem keeps_switchThreadsC (cur next : Addr) : Keeps (Masked l) (switchThreadsC cur next) :=
  keeps_stmt muted_touches fun _ => keeps_stmt muted_touches fun _ =>
    keeps_stmt muted_stores fun _ =>
      keeps_stmt (muted_writes fun _ => ⟨rfl, State.ledger_log rfl _⟩) fun _ => trivial

theorem keeps_schedule : Keeps (Masked l) schedule := by
  refine keeps_stmt muted_reads fun cur => keeps_stmt muted_reads fun empty =>
    keeps_stmt (muted_nextOf empty) fun next => keeps_stmt muted_asserts fun _ =>
      keeps_stmt muted_asserts fun _ => ?_
  cases next with
  | none => exact keeps_stmt (fun _ _ _ h => nomatch h) fun _ => trivial
  | some next =>
      by_cases hne : cur ≠ next
      · simp only [if_pos hne]
        exact (keeps_switchThreadsC cur next).bind fun _ => keeps_threadScheduleTail _
      · simp only [if_neg hne]
        exact keeps_threadScheduleTail none

theorem keeps_blockMasked : Keeps (Masked l) blockMasked :=
  (keeps_threadCurrent _).bind fun _ => keeps_stmt muted_stores fun _ => keeps_schedule

theorem keeps_yieldRequeue (cur : Addr) : Keeps (Masked l) (yieldRequeue cur) := by
  refine keeps_stmt muted_reads fun worker => ?_
  cases worker with
  | false => trivial
  | true =>
      exact (keeps_threadCurrent _).bind fun _ => keeps_stmt muted_touches fun _ =>
        keeps_stmt (muted_pushReady cur) fun _ => trivial

theorem keeps_yieldMasked (cur : Addr) : Keeps (Masked l) (yieldMasked cur) := by
  refine keeps_stmt muted_reads fun empty => ?_
  cases empty with
  | true => trivial
  | false =>
      exact (keeps_yieldRequeue cur).bind fun _ => keeps_stmt muted_stores fun _ => keeps_schedule

end Keeps

/-! ## A function with ticks pending at its statements -/

/-- The code, with `n pc` ticks pending when the statement at `pc` is reached. -/
def withTicks {α : Type} (n : Point → Nat) (p : Code α) (s : State) : Except Fault (α × State) :=
  runWith State.intrEnabled tick n p s

/-- How the code ends with ticks pending. -/
def EndsTicked {α : Type} (n : Point → Nat) (p : Code α) (Q : α → State → Prop) (E : Fault → Prop)
    (s : State) : Prop :=
  Ends State.intrEnabled tick n p Q E s

/-- A tick keeps the assertion, and does not fault under it. -/
def TickStable (P : State → Prop) : Prop :=
  ∀ s, P s → s.intrEnabled = true → ∃ s', tick s = .ok s' ∧ P s'

theorem TickStable.of_midway {P : State → Prop} (hm : ∀ s, P s → Midway s)
    (hP : ∀ s, P s → P s.ticked) : TickStable P :=
  fun s hs _ => ⟨s.ticked, tick_ok (hm s hs), hP s hs⟩

section Rules

variable {α β : Type} {n : Point → Nat} {Q : α → State → Prop} {E : Fault → Prop} {P : State → Prop}
  {s : State}

/-- A statement before which a tick is harmless. -/
theorem ends_step {site : Site} {act : State → Except Fault (β × State)} {k : β → Code α}
    (hP : TickStable P) (hs : P s)
    (ha : ∀ s', P s' → ∃ b s'', act s' = .ok (b, s'') ∧ EndsTicked n (k b) Q E s'') :
    EndsTicked n (stmt site act >>= k) Q E s :=
  Ends.stmt hP hs ha

/-- The last statement of a function. -/
theorem ends_last {site : Site} {act : State → Except Fault (α × State)} (hP : TickStable P)
    (hs : P s) (ha : ∀ s', P s' → ∃ b s'', act s' = .ok (b, s'') ∧ Q b s'') :
    EndsTicked n (stmt site act) Q E s :=
  Ends.stmt hP hs ha

/-- `thread_current`, with ticks harmless throughout. -/
theorem ends_threadCurrent {site : Site} {k : Addr → Code α} {c : Addr} (hP : TickStable P)
    (hm : ∀ s', P s' → Midway s' ∧ s'.threadRunningVar = c) (hs : P s)
    (hk : ∀ s', P s' → EndsTicked n (k c) Q E s') :
    EndsTicked n (threadCurrent site >>= k) Q E s := by
  have hcur : ∀ s', P s' → ∃ th, s'.heap c = some th ∧ th.magic = threadMagic ∧
      th.status = .running := by
    intro s' hs'
    obtain ⟨hmid, rfl⟩ := hm s' hs'
    exact hmid.current
  refine Ends.stmt hP hs fun s₁ h₁ => ⟨c, s₁, ?_, ?_⟩
  · rw [reads_runningThread, (hm s₁ h₁).2]
  refine Ends.stmt hP h₁ fun s₂ h₂ => ⟨(), s₂, ?_, ?_⟩
  · obtain ⟨th, hth, hmagic, -⟩ := hcur s₂ h₂
    exact asserts_ok (isThread_ok hth hmagic)
  refine Ends.stmt hP h₂ fun s₃ h₃ => ⟨(), s₃, ?_, hk s₃ h₃⟩
  obtain ⟨th, hth, -, hst⟩ := hcur s₃ h₃
  exact asserts_ok (by simp [status_ok hth, hst, Except.map])

end Rules

end PicoOS
