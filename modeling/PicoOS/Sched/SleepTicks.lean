/-
# `PicoOS.Sched.SleepTicks` — ticks while a thread goes to sleep

`thread_sleep` puts the current thread on `lista_espera` with interrupts on and
only then blocks it.  A tick before that is like a tick before the call.  One
that comes in after it scans a `lista_espera` with the RUNNING thread at its
end: if the thread is not due yet, that is the tick and then the insertion
(`tick_drowsy`); if it is due already, `thread_unblock` panics
(`tick_drowsy_panics`).

So the thread is asleep when `thread_sleep` returns, and wakes at its deadline,
exactly if none of the ticks between the insertion and the mask finds it due
(`DeadlineAhead`).
-/
import PicoOS.Sched.Sleep
import Mathlib.Logic.Function.Iterate

namespace PicoOS

open Interruptible Runs

/-! ## Ticks one after the other -/

/-- `j` ticks. -/
def State.tickedBy (j : Nat) (s : State) : State := State.ticked^[j] s

theorem State.tickedBy_succ (j : Nat) (s : State) : s.tickedBy (j + 1) = s.ticked.tickedBy j := rfl

theorem State.tickedBy_add (i j : Nat) (s : State) :
    (s.tickedBy i).tickedBy j = s.tickedBy (i + j) := by
  rw [State.tickedBy, State.tickedBy, ← Function.iterate_add_apply, Nat.add_comm]
  rfl

theorem State.tickedBy_frame {β : Type} {f : State → β} (hf : ∀ s, f s.ticked = f s) :
    ∀ (j : Nat) (s : State), f (s.tickedBy j) = f s
  | 0, _ => rfl
  | j + 1, s => (tickedBy_frame hf j s.ticked).trans (hf s)

theorem State.tickedBy_current (j : Nat) (s : State) :
    (s.tickedBy j).threadRunningVar = s.threadRunningVar :=
  State.tickedBy_frame State.ticked_current j s

theorem State.tickedBy_intr (j : Nat) (s : State) : (s.tickedBy j).intrEnabled = s.intrEnabled :=
  State.tickedBy_frame State.ticked_intr j s

theorem State.tickedBy_ticks : ∀ (j : Nat) (s : State), (s.tickedBy j).ticks = s.ticks + j
  | 0, _ => rfl
  | j + 1, s => by
      rw [State.tickedBy_succ, tickedBy_ticks j, s.ticked_ticks]
      omega

theorem Inv.tickedBy {s : State} (h : Inv s) : ∀ j : Nat, Inv (s.tickedBy j)
  | 0 => h
  | j + 1 => ((moves_ticked h).inv h).tickedBy j

theorem deliver_ticked : ∀ (j : Nat) {s : State}, Inv s → s.intrEnabled = true →
    deliver State.intrEnabled tick j s = .ok (s.tickedBy j)
  | 0, _, _, _ => rfl
  | j + 1, s, hs, hi => by
      have hrest := deliver_ticked j ((moves_ticked hs).inv hs) (s.ticked_intr.trans hi)
      simp only [deliver, hi, if_true, tick_ok hs.midway]
      exact hrest

/-! ## Statements between calls -/

section Exact

variable {α β : Type} {n : Point → Nat} {s : State}

theorem withTicks_step {site : Site} {act : State → Except Fault (β × State)} {k : β → Code α}
    {b : β} {s' : State} (hs : Inv s) (hi : s.intrEnabled = true)
    (ha : act (s.tickedBy (n ⟨site, .body⟩)) = .ok (b, s')) :
    withTicks n (stmt site act >>= k) s = withTicks n (k b) s' :=
  runWith_stmt (deliver_ticked _ hs hi) ha

/-- The ticks that come in during a call of `thread_current`. -/
def currentTicks (n : Point → Nat) (site : Site) : Nat :=
  n ⟨site, .runningThread⟩ + n ⟨site, .isThread⟩ + n ⟨site, .statusRunning⟩

theorem withTicks_current {site : Site} {k : Addr → Code α} (hs : Inv s)
    (hi : s.intrEnabled = true) :
    withTicks n (threadCurrent site >>= k) s =
      withTicks n (k s.threadRunningVar) (s.tickedBy (currentTicks n site)) := by
  have hstep : ∀ i, Inv (s.tickedBy i) ∧ (s.tickedBy i).intrEnabled = true ∧
      ∃ c, (s.tickedBy i).heap s.threadRunningVar = some c ∧ c.magic = threadMagic ∧
        c.status = .running := by
    intro i
    refine ⟨hs.tickedBy i, (s.tickedBy_intr i).trans hi, ?_⟩
    rw [← s.tickedBy_current i]
    exact (hs.tickedBy i).hasCurrent
  obtain ⟨hs₁, hi₁, -⟩ := hstep (n ⟨site, .runningThread⟩)
  obtain ⟨hs₂, hi₂, c₂, hc₂, hm₂, -⟩ := hstep (n ⟨site, .runningThread⟩ + n ⟨site, .isThread⟩)
  obtain ⟨-, -, c₃, hc₃, -, hst₃⟩ :=
    hstep (n ⟨site, .runningThread⟩ + n ⟨site, .isThread⟩ + n ⟨site, .statusRunning⟩)
  refine (runWith_stmt (deliver_ticked _ hs hi) (reads_runningThread _)).trans ?_
  rw [s.tickedBy_current]
  refine (runWith_stmt (deliver_ticked _ hs₁ hi₁)
    (asserts_ok (isThread_ok ((s.tickedBy_add ..).symm ▸ hc₂) hm₂))).trans ?_
  rw [State.tickedBy_add]
  refine (runWith_stmt (deliver_ticked _ hs₂ hi₂) (asserts_ok ?_)).trans ?_
  · rw [State.tickedBy_add, status_ok hc₃, hst₃]
    rfl
  · rw [State.tickedBy_add]
    rfl

end Exact

/-! ## A tick while the current thread is on `lista_espera` -/

theorem State.drowsy_wakeList {k : Nat} : ∀ {l : List Addr} {s : State}, l.Nodup →
    (∀ a ∈ l, a ∈ s.listaEspera) → s.drowsy.wakeList k l = (s.wakeList k l).drowsy
  | [], _, _, _ => rfl
  | a :: rest, s, hl, hmem => by
      have hl' := List.nodup_cons.mp hl
      have ha := hmem a (List.mem_cons_self ..)
      have hone : s.drowsy.wakeOne a = (s.wakeOne a).drowsy := by
        have herase : (s.listaEspera ++ [s.threadRunningVar]).erase a =
            s.listaEspera.erase a ++ [s.threadRunningVar] := List.erase_append_left _ ha
        simp only [State.wakeOne, State.drowsy, State.enqueue, State.log, State.setStatus,
          State.mapThread, herase]
      rw [State.wakeList, State.wakeList]
      by_cases hd : s.due k a = true
      · rw [if_pos hd, if_pos (show s.drowsy.due k a = true from hd), hone]
        refine drowsy_wakeList hl'.2 fun b hb => ?_
        have hne : b ≠ a := fun he => hl'.1 (he ▸ hb)
        exact (List.mem_erase_of_ne hne).mpr (hmem b (List.mem_cons_of_mem _ hb))
      · rw [if_neg hd, if_neg (show ¬ s.drowsy.due k a = true from hd)]
        exact drowsy_wakeList hl'.2 fun b hb => hmem b (List.mem_cons_of_mem _ hb)

/-- A tick takes one unit off the current thread and leaves its deadline alone. -/
theorem Inv.ticked_heap {s : State} (h : Inv s) : s.ticked.heap s.threadRunningVar =
    (s.heap s.threadRunningVar).map fun th => { th with durationTicks := th.durationTicks - 1 } :=
  (State.wakeList_heap h.not_espera).trans ((State.mapThread_heap _ _ _ _).trans (if_pos rfl))

theorem Inv.ticked_due {s : State} (h : Inv s) (k : Nat) :
    s.ticked.due k s.threadRunningVar = s.due k s.threadRunningVar := by
  rw [State.due, h.ticked_heap, State.due]
  cases s.heap s.threadRunningVar with
  | none => rfl
  | some th => rfl

/-- The tick, up to where the scan reaches the current thread. -/
theorem run_timerInterrupt_drowsy {s : State} (h : Inv s) :
    timerInterrupt.run s.drowsy =
      (removerLoop (s.ticks + 1) [s.threadRunningVar]).run s.ticked.drowsy := by
  have hc : HasCurrent s.drowsy := h.hasCurrent.of_heap rfl rfl
  have hs : Sleeping s.drowsy.charge s.listaEspera := by
    have hcharge := h.toLinked.sleeping.charge
    have hdrowsy : (s.listaEspera ++ [s.threadRunningVar]).Nodup :=
      List.concat_eq_append ▸ h.esperaNodup.concat h.not_espera
    exact ⟨hcharge.nodup, hdrowsy,
      fun a ha => List.mem_append_left _ ha, hcharge.unlinked, hcharge.blocked⟩
  refine (run_timerInterrupt_scan hc).trans ((run_removerLoop_append hs).trans ?_)
  exact congrArg (removerLoop (s.ticks + 1) [s.threadRunningVar]).run
    (State.drowsy_wakeList (s := s.charge) h.esperaNodup fun _ ha => ha)

/-- The scan tests the current thread. -/
theorem run_removerLoop_current {s : State} (h : Inv s) {k : Nat} :
    (removerLoop k [s.threadRunningVar]).run s.drowsy =
      if s.due k s.threadRunningVar then
        .error (.assert "thread_unblock" "t->status == THREAD_BLOCKED")
      else .ok ((), s.drowsy) := by
  obtain ⟨c, hc, hm, hst⟩ := h.hasCurrent
  have hdue : derefs (fun s' => (s'.load s.threadRunningVar).map fun th => wakeTest k th.sleepTime)
      s.drowsy = .ok (s.due k s.threadRunningVar, s.drowsy) := by
    simp [derefs, State.load, State.due, State.drowsy, hc, Except.map]
  rw [removerLoop, run_step hdue]
  split_ifs with hd
  · have hmem : s.threadRunningVar ∈ s.drowsy.listaEspera :=
      List.mem_append_right _ (List.mem_singleton_self _)
    have hrem : removeEspera s.threadRunningVar s.drowsy = .ok ((), { s.drowsy with
        listaEspera := s.drowsy.listaEspera.erase s.threadRunningVar }) := by
      simp [removeEspera, hmem]
    rw [run_step hrem]
    exact Prog.run_bind_error (run_threadUnblock_fault (by exact hc) hm (by rw [hst]; decide))
  · rfl

theorem run_tick_drowsy {s : State} (h : Inv s) : timerInterrupt.run s.drowsy =
    if s.due (s.ticks + 1) s.threadRunningVar then
      .error (.assert "thread_unblock" "t->status == THREAD_BLOCKED")
    else .ok ((), s.ticked.drowsy) := by
  have hinv := (moves_ticked h).inv h
  have hrun := run_removerLoop_current hinv (k := s.ticks + 1)
  rw [s.ticked_current, h.ticked_due] at hrun
  rw [run_timerInterrupt_drowsy h, hrun]

theorem tick_drowsy {s : State} (h : Inv s)
    (hd : s.due (s.ticks + 1) s.threadRunningVar = false) : tick s.drowsy = .ok s.ticked.drowsy := by
  simp only [tick, exec, Op.code, run_tick_drowsy h, hd]
  rfl

theorem tick_drowsy_panics {s : State} (h : Inv s)
    (hd : s.due (s.ticks + 1) s.threadRunningVar = true) :
    tick s.drowsy = .error (.assert "thread_unblock" "t->status == THREAD_BLOCKED") := by
  simp only [tick, exec, Op.code, run_tick_drowsy h, hd]
  rfl

/-- Ticks that do not find the current thread due leave it at the end of `lista_espera`. -/
theorem deliver_drowsy : ∀ (j : Nat) {s : State}, Inv s → s.intrEnabled = true →
    (∀ i < j, s.due (s.ticks + (i + 1)) s.threadRunningVar = false) →
    deliver State.intrEnabled tick j s.drowsy = .ok (s.tickedBy j).drowsy
  | 0, _, _, _, _ => rfl
  | j + 1, s, hs, hi, hd => by
      have hrest := deliver_drowsy j ((moves_ticked hs).inv hs) (s.ticked_intr.trans hi) (by
        intro i hij
        rw [s.ticked_current, hs.ticked_due, s.ticked_ticks,
          show s.ticks + 1 + (i + 1) = s.ticks + (i + 1 + 1) by omega]
        exact hd (i + 1) (by omega))
      have hon : s.drowsy.intrEnabled = true := hi
      simp only [deliver, hon, if_true, tick_drowsy hs (hd 0 (by omega))]
      exact hrest

/-- One tick that finds it due panics. -/
theorem deliver_drowsy_panics : ∀ {j : Nat} {s : State}, Inv s → s.intrEnabled = true →
    (∃ i < j, s.due (s.ticks + (i + 1)) s.threadRunningVar = true) →
    ∃ e, deliver State.intrEnabled tick j s.drowsy = .error e
  | 0, _, _, _, hd => by
      obtain ⟨i, hi, -⟩ := hd
      omega
  | j + 1, s, hs, hi, hd => by
      have hon : s.drowsy.intrEnabled = true := hi
      simp only [deliver, hon, if_true]
      cases hfirst : s.due (s.ticks + 1) s.threadRunningVar with
      | true => exact ⟨_, by rw [tick_drowsy_panics hs hfirst]⟩
      | false =>
          rw [tick_drowsy hs hfirst]
          refine deliver_drowsy_panics ((moves_ticked hs).inv hs) (s.ticked_intr.trans hi) ?_
          obtain ⟨i, hij, hdue⟩ := hd
          cases i with
          | zero =>
              rw [hfirst] at hdue
              cases hdue
          | succ i =>
              refine ⟨i, by omega, ?_⟩
              rw [s.ticked_current, hs.ticked_due, s.ticked_ticks,
                show s.ticks + 1 + (i + 1) = s.ticks + (i + 1 + 1) by omega]
              exact hdue

/-! ## Exactly when ticks are harmless -/

/-- The ticks that come in before `insertar_en_lista_espera` has read the clock. -/
def beforeClock (n : Point → Nat) : Nat :=
  n ⟨.sleepTest, .body⟩ + currentTicks n .sleepPrintf + n ⟨.sleepPrintf, .body⟩ +
    currentTicks n .insertarCur + n ⟨.insertarTicks, .body⟩

/-- No tick that comes in between the insertion and the mask finds the thread, which sleeps for `d`
ticks, due. -/
def DeadlineAhead (s : State) (d : Int) (n : Point → Nat) : Prop :=
  ∀ i < n ⟨.blockSave, .body⟩,
    wakeTest (s.ticks + beforeClock n + n ⟨.insertarStore, .body⟩ + n ⟨.insertarPush, .body⟩ + (i + 1))
      (toUInt64 (s.ticks + beforeClock n + d)) = false

instance (s : State) (d : Int) (n : Point → Nat) : Decidable (DeadlineAhead s d n) :=
  inferInstanceAs (Decidable (∀ i < n ⟨.blockSave, .body⟩, _))

/-- While the clock does not wrap: no tick comes in between the insertion and the mask, or fewer
than `d` do from the reading of the clock on. -/
theorem deadlineAhead_iff {s : State} {d : Nat} {n : Point → Nat}
    (hd : s.ticks + beforeClock n + d < 2 ^ 64)
    (hn : s.ticks + beforeClock n + n ⟨.insertarStore, .body⟩ + n ⟨.insertarPush, .body⟩ +
      n ⟨.blockSave, .body⟩ < 2 ^ 64) :
    DeadlineAhead s d n ↔ n ⟨.blockSave, .body⟩ = 0 ∨
      n ⟨.insertarStore, .body⟩ + n ⟨.insertarPush, .body⟩ + n ⟨.blockSave, .body⟩ < d := by
  have hdead : toUInt64 (s.ticks + beforeClock n + d) = s.ticks + beforeClock n + d :=
    toUInt64_of_lt hd
  unfold DeadlineAhead
  rw [hdead]
  constructor
  · intro h
    rcases Nat.eq_zero_or_pos (n ⟨.blockSave, .body⟩) with hz | hpos
    · exact .inl hz
    · have hlast := h (n ⟨.blockSave, .body⟩ - 1) (by omega)
      rw [← Bool.not_eq_true, wakeTest_iff (by omega)] at hlast
      exact .inr (by omega)
  · intro h i hi
    rw [← Bool.not_eq_true, wakeTest_iff (by omega)]
    omega

/-- The thread at `t` is in one place: asleep, ready, or current. -/
def InOnePlace (t : Addr) (s : State) : Prop :=
  (t ∈ s.listaEspera ∧ s.statusOf t = some .blocked ∧ t ∉ s.readyList ∧ t ≠ s.threadRunningVar) ∨
  (t ∈ s.readyList ∧ s.statusOf t = some .ready ∧ t ∉ s.listaEspera ∧ t ≠ s.threadRunningVar) ∨
  (t = s.threadRunningVar ∧ s.statusOf t = some .running ∧ t ∉ s.listaEspera ∧ t ∉ s.readyList)

/-- As long as the thread at `t` is asleep, the next tick that finds it due makes it ready. -/
def WakesWhenDue (t : Addr) (s : State) : Prop :=
  ∀ ops u u', Run Step s ops u → t ∈ u.listaEspera → u.due (u.ticks + 1) t = true →
    Step u .timerInterrupt u' → t ∈ u'.readyList ∧ t ∉ u'.listaEspera

theorem Inv.wakesWhenDue {s : State} (h : Inv s) (t : Addr) : WakesWhenDue t s := by
  intro ops u u' hrun hmem hdue hstep
  have hinv : Inv u := inv_of_run hrun h
  obtain ⟨th, hth, -⟩ := State.statusOf_eq_some.mp (hinv.espera t hmem).1
  have hwake := ticked_wakes hinv hmem hth (by rw [State.due, hth] at hdue; exact hdue)
  rw [show u' = u.ticked from hstep.effect hinv]
  exact ⟨hwake.1, hwake.2.2⟩

/-- The deadline of the current thread, set at some point, is still its deadline later. -/
theorem Inv.tickedBy_due {s : State} (h : Inv s) (k : Nat) : ∀ j : Nat,
    (s.tickedBy j).due k s.threadRunningVar = s.due k s.threadRunningVar := by
  intro j
  induction j generalizing s with
  | zero => rfl
  | succ j ih =>
      have hrest := ih ((moves_ticked h).inv h)
      rw [s.ticked_current, h.ticked_due] at hrest
      exact hrest

theorem Inv.setSleep_due {s : State} (h : Inv s) (d k : Nat) :
    (s.setSleep d).due k s.threadRunningVar = wakeTest k d := by
  obtain ⟨c, hc, -⟩ := h.hasCurrent
  have hheap : (s.setSleep d).heap s.threadRunningVar = some { c with sleepTime := d } :=
    (State.mapThread_heap _ _ _ _).trans ((if_pos rfl).trans (congrArg _ hc))
  rw [State.due, hheap]
  rfl

section Sleep

variable {s : State} {n : Point → Nat} {d : Int32}

/-- The state in which `thread_sleep` puts the current thread on `lista_espera`. -/
def State.settled (s : State) (d : Int) (n : Point → Nat) : State :=
  (((s.tickedBy (beforeClock n)).tickedBy (n ⟨.insertarStore, .body⟩)).setSleep
    (toUInt64 (s.ticks + beforeClock n + d))).tickedBy (n ⟨.insertarPush, .body⟩)

theorem Inv.settled (h : Inv s) (d : Int) (n : Point → Nat) : Inv (s.settled d n) :=
  (((h.tickedBy _).tickedBy _).setSleep _).tickedBy _

theorem State.settled_frame {β : Type} {f : State → β} (hf : ∀ s, f s.ticked = f s)
    (hd : ∀ d s, f (s.setSleep d) = f s) (s : State) (d : Int) (n : Point → Nat) :
    f (s.settled d n) = f s := by
  rw [State.settled, State.tickedBy_frame hf, hd, State.tickedBy_frame hf, State.tickedBy_frame hf]

theorem State.settled_current (s : State) (d : Int) (n : Point → Nat) :
    (s.settled d n).threadRunningVar = s.threadRunningVar :=
  State.settled_frame State.ticked_current (fun _ _ => rfl) s d n

/-- `insertar_en_lista_espera` up to its `thread_block`, called `i` ticks into `thread_sleep`. -/
theorem withTicks_insertar (hs : Inv s) (hi : s.intrEnabled = true) {i : Nat}
    (hclock : i + currentTicks n .insertarCur + n ⟨.insertarTicks, .body⟩ = beforeClock n) :
    withTicks n (insertarEnListaEspera d) (s.tickedBy i) =
      withTicks n threadBlock (s.settled d.toInt n).drowsy := by
  have hinv : ∀ j, Inv (s.tickedBy j) := hs.tickedBy
  have hon : ∀ j, (s.tickedBy j).intrEnabled = true := fun j => (s.tickedBy_intr j).trans hi
  have hcur : ∀ j, (s.tickedBy j).threadRunningVar = s.threadRunningVar := s.tickedBy_current
  unfold insertarEnListaEspera
  rw [withTicks_current (hinv i) (hon i), hcur, State.tickedBy_add,
    withTicks_step (hinv _) (hon _) rfl, State.tickedBy_add, hclock]
  dsimp only
  rw [s.tickedBy_ticks]
  have hstore : stores s.threadRunningVar
      (fun th => { th with sleepTime := toUInt64 ((s.ticks + beforeClock n : Nat) + d.toInt) })
      ((s.tickedBy (beforeClock n)).tickedBy (n ⟨.insertarStore, .body⟩)) =
      .ok ((), ((s.tickedBy (beforeClock n)).tickedBy (n ⟨.insertarStore, .body⟩)).setSleep
        (toUInt64 (s.ticks + beforeClock n + d.toInt))) := by
    have hok := ((hinv (beforeClock n)).tickedBy (n ⟨.insertarStore, .body⟩)).hasCurrent.stores
      fun th => { th with sleepTime := toUInt64 ((s.ticks + beforeClock n : Nat) + d.toInt) }
    rw [State.tickedBy_current, hcur] at hok
    rw [hok, State.setSleep, State.tickedBy_current, hcur]
    rfl
  rw [withTicks_step (hinv _) (hon _) hstore]
  have hpush : pushEspera s.threadRunningVar (s.settled d.toInt n) =
      .ok ((), (s.settled d.toInt n).drowsy) := by
    rw [← s.settled_current d.toInt n]
    exact pushEspera_drowsy (hs.settled d.toInt n).not_linked
  exact withTicks_step (((hinv _).tickedBy _).setSleep _)
    ((State.tickedBy_intr _ _).trans (hon _)) hpush

/-- `thread_sleep` up to its `thread_block`. -/
theorem withTicks_threadSleep (hs : Inv s) (hi : s.intrEnabled = true) (hd : 0 < d.toInt) :
    withTicks n (threadSleep d) s = withTicks n threadBlock (s.settled d.toInt n).drowsy := by
  have hon : ∀ j, (s.tickedBy j).intrEnabled = true := fun j => (s.tickedBy_intr j).trans hi
  have htouch : ∀ j, touches s.threadRunningVar (s.tickedBy j) = .ok ((), s.tickedBy j) := by
    intro j
    rw [← s.tickedBy_current j]
    exact (hs.tickedBy j).hasCurrent.touches
  unfold threadSleep
  rw [withTicks_step hs hi rfl, if_pos (decide_eq_true hd),
    withTicks_current (hs.tickedBy _) (hon _), s.tickedBy_current, State.tickedBy_add]
  rw [withTicks_step (hs.tickedBy _) (hon _) (by rw [State.tickedBy_add]; exact htouch _)]
  exact withTicks_insertar hs hi rfl

theorem settled_due (hs : Inv s) (k : Nat) :
    (s.settled d.toInt n).due k (s.settled d.toInt n).threadRunningVar =
      wakeTest k (toUInt64 (s.ticks + beforeClock n + d.toInt)) := by
  have hinv := (hs.tickedBy (beforeClock n)).tickedBy (n ⟨.insertarStore, .body⟩)
  rw [State.settled, State.tickedBy_current, (hinv.setSleep _).tickedBy_due]
  exact hinv.setSleep_due _ k

theorem settled_ticks : (s.settled d.toInt n).ticks =
    s.ticks + beforeClock n + n ⟨.insertarStore, .body⟩ + n ⟨.insertarPush, .body⟩ := by
  rw [State.settled, State.tickedBy_ticks]
  refine congrArg (· + _) ?_
  exact (State.tickedBy_ticks _ _).trans (congrArg (· + _) (s.tickedBy_ticks _))

/-- `thread_block`, entered with the current thread on `lista_espera`. -/
theorem withTicks_threadBlock {v : State} (hv : Inv v)
    (hdel : deliver State.intrEnabled tick (n ⟨.blockSave, .body⟩) s.drowsy = .ok v.drowsy) :
    withTicks n threadBlock s.drowsy = .ok ((), v.drowsy.blocked) := by
  have hc : HasCurrent (v.drowsy.mask false) := hv.hasCurrent.of_heap rfl rfl
  have hsw : Switchable (v.drowsy.mask false) := hv.toLinked.switchable.of_heap rfl rfl
  have hoff : Masked v.ledger (v.drowsy.mask false) := ⟨rfl, rfl⟩
  have hmask : runWith State.intrEnabled tick n blockMasked (v.drowsy.mask false) =
      .ok ((), (v.drowsy.mask false).blocked) := by
    rw [runWith_masked (fun _ h => h.1) keeps_blockMasked hoff, run_blockMasked hc hsw]
  rw [threadBlock_eq]
  refine (runWith_stmt hdel rfl).trans ((runWith_bind_ok hmask).trans ?_)
  exact runWith_stmt (deliver_off rfl) rfl

end Sleep

/-- With any number of ticks anywhere in `thread_sleep (d)`, it returns with the thread in one
place, to be woken when it is due, exactly if no tick between the insertion into `lista_espera` and
the mask finds the thread due. -/
theorem sleep_clean_iff {s : State} (hs : Reachable s)
    (hidle : s.idleThread ≠ some s.threadRunningVar) {d : Int32} (hd : 0 < d.toInt)
    (n : Point → Nat) :
    (∃ s', withTicks n (threadSleep d) s = .ok ((), s') ∧ InOnePlace s.threadRunningVar s' ∧
      WakesWhenDue s.threadRunningVar s') ↔ DeadlineAhead s d.toInt n := by
  have hinv := hs.inv.settled d.toInt n
  have hon : (s.settled d.toInt n).intrEnabled = true :=
    (State.settled_frame State.ticked_intr (fun _ _ => rfl) s d.toInt n).trans hs.intr
  have hidle' : (s.settled d.toInt n).idleThread = s.idleThread :=
    State.settled_frame State.ticked_idle (fun _ _ => rfl) s d.toInt n
  have hcur := s.settled_current d.toInt n
  rw [withTicks_threadSleep hs.inv hs.intr hd]
  by_cases hahead : DeadlineAhead s d.toInt n
  · refine ⟨fun _ => hahead, fun _ => ?_⟩
    have hdel := deliver_drowsy (n ⟨.blockSave, .body⟩) hinv hon (by
      intro i hi
      rw [settled_due hs.inv, settled_ticks]
      exact hahead i hi)
    have hinv' := hinv.tickedBy (n ⟨.blockSave, .body⟩)
    generalize hv : (s.settled d.toInt n).tickedBy (n ⟨.blockSave, .body⟩) = v at hdel hinv'
    have hcur' : v.threadRunningVar = s.threadRunningVar := by
      rw [← hv, State.tickedBy_current, hcur]
    have hw : v.worker v.threadRunningVar := hinv'.worker_of_not_idle (by
      rw [hcur', ← hv, State.tickedBy_frame State.ticked_idle, hidle']
      exact hidle)
    have hstop : Stop v (v.drowsy.setCurrent .blocked) := .sleep hw
    have hdone : Inv v.drowsy.blocked := (Move.switch hstop).inv hinv'
    have hmem : s.threadRunningVar ∈ v.drowsy.blocked.listaEspera := by
      rw [← hcur']
      exact List.mem_append_right _ (List.mem_singleton_self _)
    refine ⟨_, withTicks_threadBlock hinv' hdel, .inl ⟨hmem, (hdone.espera _ hmem).1, ?_, ?_⟩,
      hdone.wakesWhenDue _⟩
    · exact hdone.toLinked.sleeping.unlinked _ hmem
    · exact fun he => hdone.not_espera (he ▸ hmem)
  · refine ⟨?_, fun h => absurd h hahead⟩
    rintro ⟨s', hrun, -⟩
    have hdue : ∃ i < n ⟨.blockSave, .body⟩, (s.settled d.toInt n).due
        ((s.settled d.toInt n).ticks + (i + 1)) (s.settled d.toInt n).threadRunningVar = true := by
      unfold DeadlineAhead at hahead
      push Not at hahead
      obtain ⟨i, hi, hdue⟩ := hahead
      refine ⟨i, hi, ?_⟩
      rw [settled_due hs.inv, settled_ticks]
      exact (Bool.not_eq_false _).mp hdue
    obtain ⟨e, hdel⟩ := deliver_drowsy_panics hinv hon hdue
    have hfault : withTicks n threadBlock (s.settled d.toInt n).drowsy = .error e :=
      runWith_stmt_fault hdel
    rw [hfault] at hrun
    cases hrun

/-- One tick between the insertion and the mask does not disturb a sleep of two ticks. -/
theorem sleep_clean_two_ticks :
    let s := effects (afterBoot none 0 0) [.threadCreate .other (some 1) 5]
    let n : Point → Nat := fun pc => if pc = ⟨.blockSave, .body⟩ then 1 else 0
    ∃ s', withTicks n (threadSleep 2) s = .ok ((), s') ∧ InOnePlace (.block 1) s' ∧
      WakesWhenDue (.block 1) s' := by
  intro s n
  have hrun : Run Step (afterBoot none 0 0) _ s :=
    run_of_allows (afterBoot_inv none 0 0) (by decide +kernel)
  have hs : Reachable s := ⟨_, _, booted_iff.mpr ⟨none, 0, 0, rfl⟩, hrun⟩
  exact (sleep_clean_iff hs (by decide +kernel) (by decide) n).mpr (by decide +kernel)

/-- One tick there panics if the sleep was for one tick. -/
theorem sleep_tick_panics :
    let s := effects (afterBoot none 0 0) [.threadCreate .other (some 1) 5]
    let n : Point → Nat := fun pc => if pc = ⟨.blockSave, .body⟩ then 1 else 0
    Reachable s ∧ s.idleThread ≠ some s.threadRunningVar ∧
      withTicks n (threadSleep 1) s =
        .error (.assert "thread_unblock" "t->status == THREAD_BLOCKED") ∧
      ¬ ∃ s', withTicks n (threadSleep 1) s = .ok ((), s') ∧
        InOnePlace s.threadRunningVar s' ∧ WakesWhenDue s.threadRunningVar s' := by
  intro s n
  have hrun : Run Step (afterBoot none 0 0) _ s :=
    run_of_allows (afterBoot_inv none 0 0) (by decide +kernel)
  have hpanic : withTicks n (threadSleep 1) s =
      .error (.assert "thread_unblock" "t->status == THREAD_BLOCKED") := rfl
  refine ⟨⟨_, _, booted_iff.mpr ⟨none, 0, 0, rfl⟩, hrun⟩, by decide +kernel, hpanic, ?_⟩
  rintro ⟨s', hs', -⟩
  rw [hpanic] at hs'
  cases hs'

end PicoOS
