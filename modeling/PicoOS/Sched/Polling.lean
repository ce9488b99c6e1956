/-
# `PicoOS.Sched.Polling` — what `after_interrupt` leaves behind

`after_interrupt` takes four decisions, and each may change the current thread
and `ready_list` under the next.  What holds at the end, whatever the state it
started in: the idle thread runs only if no thread is ready (`Busy`), and in round
robin mode the current thread is within its quantum unless no thread is ready
(`InSlice`).  Both hold after every switch, and every branch either switches or
has just tested what is claimed.

`thread_ticks` is the number of ticks since the current thread became current;
`Sliced` counts these beside the run.  It follows that a thread cannot be charged
more ticks in a row than the quantum while another thread waits: it would have to
be switched away from and come back, and it comes back behind the one that waits
(`Behind`).
-/
import PicoOS.Sched.Accounting

namespace PicoOS

open Runs

/-! ## The slice of the current thread -/

/-- One call that returns, with the number of ticks since a thread last became current. -/
def Sliced (x : State × Nat) (op : Op) (y : State × Nat) : Prop :=
  Step x.1 op y.1 ∧ y.2 =
    if (switchedIn y.1.trace).length ≠ (switchedIn x.1.trace).length then 0
    else if op = .timerInterrupt then x.2 + 1 else x.2

/-- From `s` to `t` no thread became current and the slice is the same; or one did and its slice is
new.  The slice of the idle thread is of no interest. -/
def Turn (s t : State) : Prop :=
  (switchedIn t.trace).length = (switchedIn s.trace).length ∧
      t.threadRunningVar = s.threadRunningVar ∧ t.idleThread = s.idleThread ∧
      (t.idleThread = some t.threadRunningVar ∨ t.threadTicks = s.threadTicks) ∨
    (switchedIn s.trace).length < (switchedIn t.trace).length ∧ t.idleThread = s.idleThread ∧
      (t.idleThread = some t.threadRunningVar ∨ t.threadTicks = 0)

namespace Turn

variable {s t u : State}

theorem refl (s : State) : Turn s s := .inl ⟨rfl, rfl, rfl, .inr rfl⟩

theorem trans (h₁ : Turn s t) (h₂ : Turn t u) : Turn s u := by
  rcases h₁ with ⟨hl₁, hc₁, hi₁, ht₁⟩ | ⟨hl₁, hi₁, ht₁⟩
  · rcases h₂ with ⟨hl₂, hc₂, hi₂, ht₂⟩ | ⟨hl₂, hi₂, ht₂⟩
    · refine .inl ⟨hl₂.trans hl₁, hc₂.trans hc₁, hi₂.trans hi₁, ?_⟩
      rcases ht₂ with ht₂ | ht₂
      · exact .inl ht₂
      · rw [hi₂, hc₂, ht₂]
        exact ht₁
    · exact .inr ⟨hl₁ ▸ hl₂, hi₂.trans hi₁, ht₂⟩
  · rcases h₂ with ⟨hl₂, hc₂, hi₂, ht₂⟩ | ⟨hl₂, hi₂, ht₂⟩
    · refine .inr ⟨hl₂ ▸ hl₁, hi₂.trans hi₁, ?_⟩
      rcases ht₂ with ht₂ | ht₂
      · exact .inl ht₂
      · rw [hi₂, hc₂, ht₂]
        exact ht₁
    · exact .inr ⟨Nat.lt_trans hl₁ hl₂, hi₂.trans hi₁, ht₂⟩

end Turn

section Turn

variable {s t m : State}

theorem switchedIn_append (tr l : List Obs) : switchedIn (tr ++ l) = switchedIn tr ++ switchedIn l :=
  List.filterMap_append ..

theorem Stop.switchedIn (hm : Stop s m) : switchedIn m.trace = switchedIn s.trace := by
  cases hm with
  | block => rfl
  | yield =>
      refine State.requeued_frame (f := fun s => PicoOS.switchedIn s.trace) (fun a s => ?_) s
      exact (switchedIn_append s.trace [.enqueued a]).trans (List.append_nil _)
  | exit => exact (switchedIn_append s.trace [.exited _ _]).trans (List.append_nil _)
  | sleep => rfl

theorem Stop.idle (hm : Stop s m) : m.idleThread = s.idleThread := by
  cases hm with
  | block => rfl
  | yield => exact State.requeued_frame (f := State.idleThread) (fun _ _ => rfl) s
  | exit => rfl
  | sleep => rfl

/-- Only the idle thread follows on itself. -/
theorem Stop.idle_of_succ (hs : Inv s) (hm : Stop s m) (he : m.threadRunningVar = m.succ) :
    m.idleThread = some m.succ := by
  cases hr : m.readyList with
  | nil =>
      obtain ⟨i, hi, -⟩ := (hm.parked hs).idle
      rw [State.succ_nil hr hi, hi]
  | cons a rest =>
      have hsucc : m.succ = a := State.succ_cons hr
      refine absurd ?_ (hm.head_ne hs)
      rw [he, hsucc, hr]
      rfl

theorem Turn.switch (hs : Inv s) (hm : Stop s m) : Turn s m.dispatch := by
  have hlen : (PicoOS.switchedIn m.dispatch.trace).length =
      (PicoOS.switchedIn s.trace).length + (PicoOS.switchedIn m.dispatchLog).length := by
    rw [m.dispatch_trace, switchedIn_append, List.length_append, hm.switchedIn]
  have hlog : PicoOS.switchedIn m.dispatchLog =
      if m.threadRunningVar = m.succ then [] else [m.succ] := by
    unfold State.dispatchLog
    split_ifs <;> rfl
  rw [hlog] at hlen
  by_cases he : m.threadRunningVar = m.succ
  · rw [if_pos he] at hlen
    exact .inl ⟨hlen, he.symm.trans hm.current, hm.idle, .inl (hm.idle_of_succ hs he)⟩
  · rw [if_neg he] at hlen
    exact .inr ⟨hlen ▸ Nat.lt_succ_self _, hm.idle, .inr rfl⟩

theorem Move.turn (hs : Inv s) (h : Move s t) :
    t.ticks = s.ticks + 1 ∨ t.nextTid = s.nextTid + 1 ∨ Turn s t := by
  cases h with
  | switch hm => exact .inr (.inr (.switch hs hm))
  | deadline d => exact .inr (.inr (.refl s))
  | create hb d => exact .inr (.inl rfl)
  | charge => exact .inl rfl
  | @wake a ha hd =>
      refine .inr (.inr (.inl ⟨?_, rfl, rfl, .inr rfl⟩))
      exact congrArg List.length ((switchedIn_append s.trace [.enqueued a]).trans (List.append_nil _))
  | config m q e => exact .inr (.inr (.refl s))

theorem Move.clocks (h : Move s t) : s.ticks ≤ t.ticks ∧ s.nextTid ≤ t.nextTid := by
  cases h with
  | @switch m hm =>
      have hk : m.dispatch.ticks = s.ticks := hm.ticks
      have hn : m.dispatch.nextTid = s.nextTid := by
        cases hm with
        | block => rfl
        | yield => exact State.requeued_frame (f := State.nextTid) (fun _ _ => rfl) s
        | exit => rfl
        | sleep => rfl
      exact ⟨Nat.le_of_eq hk.symm, Nat.le_of_eq hn.symm⟩
  | deadline => exact ⟨Nat.le_refl _, Nat.le_refl _⟩
  | create => exact ⟨Nat.le_refl _, Nat.le_succ _⟩
  | charge => exact ⟨Nat.le_succ _, Nat.le_refl _⟩
  | wake => exact ⟨Nat.le_refl _, Nat.le_refl _⟩
  | config => exact ⟨Nat.le_refl _, Nat.le_refl _⟩

theorem Moves.clocks (h : Moves s t) : s.ticks ≤ t.ticks ∧ s.nextTid ≤ t.nextTid := by
  induction h with
  | refl => exact ⟨Nat.le_refl _, Nat.le_refl _⟩
  | tail _ hm ih => exact ⟨Nat.le_trans ih.1 hm.clocks.1, Nat.le_trans ih.2 hm.clocks.2⟩

/-- Moves that leave the clock and the next `tid` alone are no ticks and create no thread. -/
theorem Moves.turn (hs : Inv s) (h : Moves s t) (hk : t.ticks = s.ticks)
    (hn : t.nextTid = s.nextTid) : Turn s t := by
  induction h with
  | refl => exact .refl s
  | @tail t u ht hm ih =>
      have h₁ := Moves.clocks ht
      have h₂ := hm.clocks
      rcases hm.turn (Moves.inv ht hs) with hc | hc | hturn
      · omega
      · omega
      · exact (ih (by omega) (by omega)).trans hturn

end Turn

/-- What a call other than a tick and a creation does to the books and to the slice. -/
theorem quiet_effect {s : State} (hs : Inv s) {op : Op} (ha : Allowed s op)
    (hop : op ≠ .timerInterrupt) (hnew : ∀ name b d, op ≠ .threadCreate name (some b) d) :
    Quiet s (op.effect s) := by
  cases op with
  | threadCreate name block d =>
      cases block with
      | none => exact .refl s
      | some b => exact absurd rfl (hnew name b d)
  | threadSleep n => exact .slept hs (hs.worker_of_not_idle ha) n.toInt
  | timerSleep n => exact .slept hs (hs.worker_of_not_idle ha) n.toInt
  | threadYield => exact .yielded hs
  | threadExit => exact .exited hs
  | setThreadExitOnReturn => exact .config s _ _ 1
  | scheduleSetQuantum mode rrticks => exact .withQuantum s _ _
  | timerInterrupt => exact absurd rfl hop
  | afterInterrupt => exact .polled hs

theorem turn_effect {s : State} (hs : Inv s) {op : Op} (ha : Allowed s op)
    (hop : op ≠ .timerInterrupt) : Turn s (op.effect s) := by
  by_cases hnew : ∃ name b d, op = .threadCreate name (some b) d
  · obtain ⟨name, b, d, rfl⟩ := hnew
    have hadopt : Turn s (s.adopt b d.toInt) := by
      refine .inl ⟨?_, rfl, rfl, .inr rfl⟩
      exact congrArg List.length ((switchedIn_append s.trace _).trans (List.append_nil _))
    have hq := Quiet.idleBlocked (hs.adopt (ha b rfl) d.toInt)
    exact hadopt.trans ((moves_idleBlocked _).turn (hs.adopt (ha b rfl) _) hq.ticks hq.nextTid)
  · have hq := quiet_effect hs ha hop fun name b d he => hnew ⟨name, b, d, he⟩
    exact (moves_effect hs ha).turn hs hq.ticks hq.nextTid

/-- `thread_ticks` is the number of ticks in the slice of the current thread. -/
structure Sliceful (s : State) (n : Nat) : Prop where
  slice : s.idleThread ≠ some s.threadRunningVar → s.threadTicks = n % 2 ^ 32
  bounded : n ≤ s.ticks

theorem ticked_threadTicks (s : State) : s.ticked.threadTicks = (s.threadTicks + 1) % 2 ^ 32 :=
  State.wakeList_frame (f := State.threadTicks) (fun _ _ => rfl) _ _

theorem ticked_switchedIn (s : State) : switchedIn s.ticked.trace = switchedIn s.trace := by
  have hwake : ∀ a (s : State), switchedIn (s.wakeOne a).trace = switchedIn s.trace :=
    fun a s => (switchedIn_append s.trace [.enqueued a]).trans (List.append_nil _)
  refine (State.wakeList_frame (f := fun s => switchedIn s.trace) hwake _ _).trans ?_
  exact (switchedIn_append s.trace [.charged _ _]).trans (List.append_nil _)

theorem Sliceful.sliced {s t : State} {n m : Nat} {op : Op} (h : Sliceful s n) (hs : Inv s)
    (hstep : Sliced (s, n) op (t, m)) : Sliceful t m := by
  obtain ⟨hstep, hm⟩ := hstep
  have hclock := (hstep.moves hs).clocks.1
  have heq : t = op.effect s := hstep.effect hs
  by_cases hop : op = .timerInterrupt
  · subst hop
    have heq : t = s.ticked := heq
    subst heq
    rw [ticked_switchedIn, if_neg (not_not.mpr rfl), if_pos rfl] at hm
    refine ⟨fun hi => ?_, ?_⟩
    · rw [s.ticked_idle, s.ticked_current] at hi
      rw [ticked_threadTicks, h.slice hi, show m = n + 1 from hm]
      omega
    · rw [s.ticked_ticks, show m = n + 1 from hm]
      exact Nat.succ_le_succ h.bounded
  · rw [if_neg hop] at hm
    rcases heq ▸ turn_effect hs hstep.1 hop with ⟨hl, hc, hi, ht⟩ | ⟨hl, hi, ht⟩
    · rw [if_neg (not_not.mpr hl)] at hm
      have hm : m = n := hm
      subst hm
      refine ⟨fun hidle => ?_, Nat.le_trans h.bounded hclock⟩
      rw [ht.resolve_left hidle]
      exact h.slice (hi ▸ hc ▸ hidle)
    · rw [if_pos (Nat.ne_of_gt hl)] at hm
      have hm : m = 0 := hm
      subst hm
      exact ⟨fun hidle => ht.resolve_left hidle, Nat.zero_le _⟩

/-! ## After `after_interrupt` -/

/-- The idle thread is current only if no thread is ready. -/
def State.Busy (s : State) : Prop := s.idleThread = some s.threadRunningVar → s.readyList = []

/-- In round robin mode the slice is not used up, unless no thread is ready. -/
def State.InSlice (s : State) : Prop :=
  s.roundRobinMode ≠ 0 → s.readyList = [] ∨ s.threadTicks < s.roundRobinTicks

section After

variable {s m : State}

/-- After a switch both hold. -/
theorem Stop.busy (hs : Inv s) (hm : Stop s m) : m.dispatch.Busy := by
  intro hi
  cases hr : m.readyList with
  | nil =>
      show m.readyList.tail = []
      rw [hr]
      rfl
  | cons a rest =>
      have hsucc : m.succ = a := State.succ_cons hr
      have hw := ((hm.parked hs).ready a (by rw [hr]; exact List.mem_cons_self ..)).2.1
      have hi' : m.idleThread = some m.succ := hi
      rw [hsucc] at hi'
      exact absurd hi' hw.1

theorem State.inSlice_dispatch (hq : 0 < m.roundRobinTicks) : m.dispatch.InSlice := fun _ => .inr hq

theorem Stop.quantum (hm : Stop s m) : m.roundRobinTicks = s.roundRobinTicks := by
  cases hm with
  | block => rfl
  | yield => exact State.requeued_frame (f := State.roundRobinTicks) (fun _ _ => rfl) s
  | exit => rfl
  | sleep => rfl

/-- What holds after a switch holds after `thread_exit`, if it held before or the current thread
is removed. -/
theorem exited_settled (hs : Inv s) (hq : 0 < s.roundRobinTicks)
    (h : s.worker s.threadRunningVar ∨ s.Busy ∧ s.InSlice) : s.exited.Busy ∧ s.exited.InSlice := by
  have hswitch : ∀ {m}, Stop s m → m.dispatch.Busy ∧ m.dispatch.InSlice :=
    fun hm => ⟨hm.busy hs, State.inSlice_dispatch (hm.quantum.symm ▸ hq)⟩
  unfold State.exited State.yielded
  split_ifs with hw hr
  · exact hswitch (.exit hw)
  · exact h.resolve_left hw
  · exact hswitch (.yield hr)

theorem idleBlocked_busy (hs : Inv s) : s.idleBlocked.Busy := by
  unfold State.idleBlocked
  split_ifs with hi
  · exact (Stop.block hi).busy hs
  · exact fun hi' => absurd hi' hi

theorem expired_settled (hs : Inv s) (hq : 0 < s.roundRobinTicks) (hb : s.Busy) :
    s.expired.Busy ∧ s.expired.InSlice := by
  unfold State.expired
  split_ifs with hd hp
  · refine exited_settled hs hq ?_
    by_cases hw : s.worker s.threadRunningVar
    · exact .inl hw
    · -- The idle thread, which gives way to nobody.
      have hi : s.idleThread = some s.threadRunningVar := by
        by_contra hi
        exact hw (hs.worker_of_not_idle hi)
      exact .inr ⟨hb, fun _ => .inl (hb hi)⟩
  · rw [State.yielded, if_neg hp.2.1]
    have hm : Stop s _ := .yield hp.2.1
    exact ⟨hm.busy hs, State.inSlice_dispatch (hm.quantum.symm ▸ hq)⟩
  · refine ⟨hb, fun hmode => ?_⟩
    by_contra hne
    rw [not_or, Nat.not_lt] at hne
    exact hp ⟨hmode, hne.1, hne.2⟩

theorem polled_settled (hs : Inv s) (hq : 0 < s.roundRobinTicks) :
    s.polled.Busy ∧ s.polled.InSlice := by
  have h₁ : Inv s.idleBlocked := (moves_idleBlocked s).inv hs
  have hq₁ : 0 < s.idleBlocked.roundRobinTicks :=
    (State.settings_kept State.tuned_idleBlocked s).2.symm ▸ hq
  have h₂ : Inv s.idleBlocked.expired := (moves_expired _).inv h₁
  have hq₂ : 0 < s.idleBlocked.expired.roundRobinTicks :=
    s.idleBlocked.expired_settings.2.symm ▸ hq₁
  have hset := expired_settled h₁ hq₁ (idleBlocked_busy hs)
  unfold State.polled State.forced
  split_ifs
  · exact exited_settled h₂ hq₂ (.inr hset)
  · exact hset

end After

/-! ## The quantum is positive -/

theorem withQuantum_pos {s : State} (h : 0 < s.roundRobinTicks) (mode rrticks : Int) :
    0 < (s.withQuantum mode rrticks).roundRobinTicks := by
  unfold State.withQuantum
  split_ifs with h₀ h₁
  · exact h
  · show 0 < rrticks.toNat
    omega
  · exact h

theorem settings_pos (quantum : Option Int32) : 0 < (settings quantum).roundRobinTicks := by
  cases quantum with
  | none => exact Nat.succ_pos 4
  | some rrticks => exact withQuantum_pos (s := powerOn) (Nat.succ_pos 4) 1 rrticks.toInt

theorem effect_quantum_pos {s : State} (h : 0 < s.roundRobinTicks) (op : Op) :
    0 < (op.effect s).roundRobinTicks := by
  by_cases hop : op.KeepsQuantum
  · rw [(effect_settings hop s).2]
    exact h
  · cases op with
    | scheduleSetQuantum mode rrticks => exact withQuantum_pos h mode.toInt rrticks.toInt
    | _ => exact absurd (fun _ _ => nofun) hop

/-! ## One thread waits, another runs -/

section Guard

variable {A R : Addr}

/-- The thread at `A` is not ahead of the thread at `R` in the list. -/
def Behind (A R : Addr) (l : List Addr) : Prop := ∀ l₁ l₂, l = l₁ ++ R :: l₂ → A ∉ l₁

theorem behind_of_not_mem {l : List Addr} (h : A ∉ l) : Behind A R l := by
  rintro l₁ l₂ rfl hA
  exact h (List.mem_append_left _ hA)

theorem Behind.push {l : List Addr} (h : Behind A R l) {x : Addr} (hx : x ≠ R) :
    Behind A R (l ++ [x]) := by
  intro l₁ l₂ he
  rcases List.eq_nil_or_concat l₂ with rfl | ⟨l₃, y, rfl⟩
  · have hlast := (List.append_inj' he rfl).2
    exact absurd (List.singleton_inj.mp hlast) hx
  · have hsplit : l ++ [x] = (l₁ ++ R :: l₃) ++ [y] := by
      rw [he]
      simp
    exact h l₁ l₃ (List.append_inj' hsplit rfl).1

/-- The head of the list is not `A` if `R` comes after it. -/
theorem Behind.pop {a : Addr} {rest : List Addr} (h : Behind A R (a :: rest)) :
    Behind A R rest ∧ (R ∈ rest → a ≠ A) := by
  constructor
  · rintro l₁ l₂ rfl hA
    exact h (a :: l₁) l₂ rfl (List.mem_cons_of_mem _ hA)
  · rintro hR rfl
    obtain ⟨l₁, l₂, rfl⟩ := List.append_of_mem hR
    exact h (a :: l₁) l₂ rfl (List.mem_cons_self ..)

/-- From `s` to `t` the thread at `R` does not come to `ready_list`; that at `A` does not get ahead
of it, and does not become current while it waits. -/
structure Guard (A R : Addr) (s t : State) : Prop where
  waits : R ∈ t.readyList → R ∈ s.readyList
  behind : Behind A R s.readyList → Behind A R t.readyList
  current : Behind A R s.readyList → R ∈ t.readyList → t.threadRunningVar = A →
    s.threadRunningVar = A ∧ t.threadTicks = s.threadTicks

namespace Guard

variable {s t u m : State}

theorem refl (s : State) : Guard A R s s := ⟨id, id, fun _ _ h => ⟨h, rfl⟩⟩

theorem trans (h₁ : Guard A R s t) (h₂ : Guard A R t u) : Guard A R s u where
  waits hR := h₁.waits (h₂.waits hR)
  behind h := h₂.behind (h₁.behind h)
  current h hR hcur := by
    obtain ⟨hcur', ht⟩ := h₂.current (h₁.behind h) hR hcur
    obtain ⟨hcur'', ht'⟩ := h₁.current h (h₂.waits hR) hcur'
    exact ⟨hcur'', ht.trans ht'⟩

/-- `ready_list` grows at the back, by threads other than `R`. -/
theorem push {x : Addr} (hx : x ≠ R) (hr : t.readyList = s.readyList ++ [x])
    (hc : t.threadRunningVar = s.threadRunningVar) (ht : t.threadTicks = s.threadTicks) :
    Guard A R s t where
  waits hR := by
    rw [hr] at hR
    exact (List.mem_append.mp hR).resolve_right fun hm => hx (List.mem_singleton.mp hm).symm
  behind h := by
    rw [hr]
    exact h.push hx
  current _ _ h := ⟨hc ▸ h, ht⟩

theorem same (hr : t.readyList = s.readyList) (hc : t.threadRunningVar = s.threadRunningVar)
    (ht : t.threadTicks = s.threadTicks) : Guard A R s t where
  waits hR := hr ▸ hR
  behind h := hr.symm ▸ h
  current _ _ h := ⟨hc ▸ h, ht⟩

theorem dispatch (s : State) : Guard A R s s.dispatch := by
  have htail : s.dispatch.readyList = s.readyList.tail := rfl
  cases hr : s.readyList with
  | nil =>
      rw [hr] at htail
      refine ⟨fun hR => ?_, fun _ => ?_, fun _ hR => ?_⟩
      · rw [htail] at hR
        cases hR
      · rw [htail]
        exact behind_of_not_mem List.not_mem_nil
      · rw [htail] at hR
        cases hR
  | cons a rest =>
      rw [hr] at htail
      have hsucc : s.dispatch.threadRunningVar = a := State.succ_cons hr
      refine ⟨fun hR => ?_, fun h => ?_, fun h hR hcur => ?_⟩
      · rw [htail] at hR
        rw [hr]
        exact List.mem_cons_of_mem _ hR
      · rw [htail]
        rw [hr] at h
        exact h.pop.1
      · rw [htail] at hR
        rw [hr] at h
        exact absurd (hsucc.symm.trans hcur) (h.pop.2 hR)

theorem idleBlocked (s : State) : Guard A R s s.idleBlocked := by
  unfold State.idleBlocked
  split_ifs
  · exact trans (t := s.setCurrent .blocked) (same rfl rfl rfl) (dispatch _)
  · exact refl s

theorem yielded (hR : s.worker s.threadRunningVar → s.threadRunningVar ≠ R) :
    Guard A R s s.yielded := by
  unfold State.yielded
  split_ifs
  · exact refl s
  · refine trans ?_ (dispatch (s.requeued.setStatus s.threadRunningVar .ready))
    by_cases hw : s.worker s.threadRunningVar
    · rw [State.requeued, if_pos hw]
      exact push (hR hw) rfl rfl rfl
    · rw [State.requeued, if_neg hw]
      exact same rfl rfl rfl

theorem exited (s : State) : Guard A R s s.exited := by
  unfold State.exited
  split_ifs with hw
  · exact trans (t := s.unregister.setCurrent .dying) (same rfl rfl rfl) (dispatch _)
  · exact yielded fun hw' => absurd hw' hw

theorem expired (hR : s.preempted → s.threadRunningVar ≠ R) : Guard A R s s.expired := by
  unfold State.expired
  split_ifs with hd hp
  · exact exited s
  · exact yielded fun _ => hR hp
  · exact refl s

theorem forced (s : State) : Guard A R s s.forced := by
  unfold State.forced
  split_ifs
  · exact (exited s).trans (same rfl rfl rfl)
  · exact refl s

/-- The one thread that `after_interrupt` puts back is the one it found, unless that was the idle
thread: after it a slice begins. -/
theorem polled (hs : Inv s) (hq : 0 < s.roundRobinTicks) (hR : R ∈ s.readyList) :
    Guard A R s s.polled := by
  refine (idleBlocked s).trans ((expired fun hp => ?_).trans (forced _))
  by_cases hi : s.idleThread = some s.threadRunningVar
  · have hzero : s.idleBlocked.threadTicks = 0 := by
      rw [State.idleBlocked, if_pos hi]
      rfl
    have hquantum := (State.settings_kept State.tuned_idleBlocked s).2
    have hspent := hp.2.2
    omega
  · rw [State.idleBlocked, if_neg hi]
    rintro rfl
    exact hs.not_ready hR

theorem slept (n : Int) (s : State) : Guard A R s (s.slept n) := by
  unfold State.slept
  split_ifs
  · exact trans (t := (s.enlist n).setCurrent .blocked) (same rfl rfl rfl) (dispatch _)
  · exact refl s

theorem wakeList {k : Nat} : ∀ {l : List Addr} {s : State}, R ∉ l → Guard A R s (s.wakeList k l)
  | [], s, _ => refl s
  | a :: rest, s, hl => by
      have hne : a ≠ R := fun he => hl (he ▸ List.mem_cons_self ..)
      have hrest : R ∉ rest := fun hm => hl (List.mem_cons_of_mem _ hm)
      rw [State.wakeList]
      split_ifs
      · exact trans (t := s.wakeOne a) (push hne rfl rfl rfl) (wakeList hrest)
      · exact wakeList hrest

theorem withQuantum (s : State) (mode rrticks : Int) : Guard A R s (s.withQuantum mode rrticks) := by
  unfold State.withQuantum
  split_ifs
  · exact same rfl rfl rfl
  · exact same rfl rfl rfl
  · exact refl s

theorem effect (hs : Inv s) (hq : 0 < s.roundRobinTicks) (hR : R ∈ s.readyList) {op : Op}
    (ha : Allowed s op) (hop : op ≠ .timerInterrupt) : Guard A R s (op.effect s) := by
  cases op with
  | threadCreate name block d =>
      cases block with
      | none => exact refl s
      | some b =>
          have hne : Addr.block b ≠ R :=
            (State.ne_fresh (ha b rfl) (hs.live R (hs.ready R hR).2.2)).symm
          exact trans (t := s.adopt b d.toInt) (push hne rfl rfl rfl) (idleBlocked _)
  | threadSleep n => exact slept n.toInt s
  | timerSleep n => exact slept n.toInt s
  | threadYield =>
      refine yielded fun _ => ?_
      rintro rfl
      exact hs.not_ready hR
  | threadExit => exact exited s
  | setThreadExitOnReturn => exact same rfl rfl rfl
  | scheduleSetQuantum mode rrticks => exact withQuantum s mode.toInt rrticks.toInt
  | timerInterrupt => exact absurd rfl hop
  | afterInterrupt => exact polled hs hq hR

end Guard

end Guard

/-! ## The polling step -/

/-- One call that returns, in round robin mode with the quantum `q` while the thread at `R` is
ready; the tick, if it is one, is charged to the thread at `A`. -/
structure Stretch (A R : Addr) (q : Nat) (s : State) (op : Op) (t : State) : Prop where
  step : Step s op t
  mode : s.roundRobinMode = 1 ∧ t.roundRobinMode = 1
  quantum : s.roundRobinTicks = q ∧ t.roundRobinTicks = q
  ready : R ∈ s.readyList ∧ R ∈ t.readyList
  charged : op = .timerInterrupt → s.threadRunningVar = A

/-- `c` ticks of the stretch so far: none, or no more than the quantum, and the slice of the thread
at `A` shows them as long as it is current. -/
def Within (A R : Addr) (q : Nat) (b : Bool) (c : Nat) (s : State) : Prop :=
  c = 0 ∨ c ≤ q ∧ Behind A R s.readyList ∧
    (s.threadRunningVar = A → c ≤ s.threadTicks ∧ (b = true → c < q))

section Stretch

variable {A R : Addr} {q : Nat} {s t : State} {b : Bool} {c : Nat}

/-- A tick. -/
theorem Within.tick (h : Within A R q b c s) (hs : Inv s) (hb : b = true) (hq : 0 < q)
    (hR : R ∈ s.readyList) (hcur : s.threadRunningVar = A) (hk : s.threadTicks + 1 < 2 ^ 32) :
    Within A R q false (c + 1) s.ticked := by
  have hout : R ∉ s.listaEspera := fun he => hs.toLinked.sleeping.unlinked R he hR
  have hg : Guard A R s.charge s.ticked := .wakeList hout
  have hbehind : Behind A R s.readyList := behind_of_not_mem (hcur ▸ hs.not_ready)
  have hticks : s.ticked.threadTicks = s.threadTicks + 1 := by
    rw [ticked_threadTicks]
    exact Nat.mod_eq_of_lt hk
  have hle : c + 1 ≤ q ∧ c ≤ s.threadTicks := by
    rcases h with rfl | ⟨-, -, h⟩
    · exact ⟨hq, Nat.zero_le _⟩
    · exact ⟨(h hcur).2 hb, (h hcur).1⟩
  refine .inr ⟨hle.1, hg.behind hbehind, fun _ => ⟨?_, nofun⟩⟩
  rw [hticks]
  exact Nat.succ_le_succ hle.2

/-- Any other call. -/
theorem Within.other (h : Within A R q b c s) (hg : Guard A R s t) (hR : R ∈ t.readyList)
    {b' : Bool} (hb : b' = true → b = true ∨ t.threadTicks < q) : Within A R q b' c t := by
  rcases h with rfl | ⟨hle, hbehind, hcur⟩
  · exact .inl rfl
  · refine .inr ⟨hle, hg.behind hbehind, fun hc => ?_⟩
    obtain ⟨hc', ht⟩ := hg.current hbehind hR hc
    obtain ⟨hslice, hpoll⟩ := hcur hc'
    refine ⟨ht ▸ hslice, fun hb' => ?_⟩
    rcases hb hb' with hb | hlt
    · exact hpoll hb
    · exact Nat.lt_of_le_of_lt hslice (ht ▸ hlt)

theorem Within.stretch (h : Within A R q b c s) (hs : Inv s) (hq : 0 < q) {op : Op}
    (hstep : Stretch A R q s op t) (hpoll : op = .timerInterrupt → b = true)
    (hk : s.threadTicks + 1 < 2 ^ 32) :
    Within A R q (op.polled b) (if op = .timerInterrupt then c + 1 else c) t := by
  have heq : t = op.effect s := hstep.step.effect hs
  by_cases hop : op = .timerInterrupt
  · have hcur := hstep.charged hop
    have hb := hpoll hop
    subst hop
    rw [if_pos rfl]
    exact heq ▸ h.tick hs hb hq hstep.ready.1 hcur hk
  · have hpos : 0 < s.roundRobinTicks := hstep.quantum.1 ▸ hq
    have hg : Guard A R s t := heq ▸ .effect hs hpos hstep.ready.1 hstep.step.1 hop
    rw [if_neg hop]
    refine h.other hg hstep.ready.2 fun hb => ?_
    by_cases hpolled : op = .afterInterrupt
    · subst hpolled
      have hslice : t.InSlice := heq ▸ (polled_settled hs hpos).2
      refine .inr (hstep.quantum.2 ▸ (hslice ?_).resolve_left ?_)
      · rw [hstep.mode.2]
        decide
      · exact List.ne_nil_of_mem hstep.ready.2
    · refine .inl ?_
      cases op with
      | timerInterrupt => exact absurd rfl hop
      | afterInterrupt => exact absurd rfl hpolled
      | _ => exact hb

/-- The slice is no longer than the time since the boot. -/
theorem Move.slice_le (h : Move s t) (hle : s.threadTicks ≤ s.ticks) : t.threadTicks ≤ t.ticks := by
  cases h with
  | switch hm => exact Nat.zero_le _
  | deadline => exact hle
  | create => exact hle
  | charge => exact Nat.le_trans (Nat.mod_le _ _) (Nat.succ_le_succ hle)
  | wake => exact hle
  | config => exact hle

theorem Stretch.inv {op : Op} (h : Stretch A R q s op t) (hs : Inv s) : Inv t :=
  (h.step.moves hs).inv hs

theorem stretch_clock {ops : List Op} (hrun : Run (Stretch A R q) s ops t) (hs : Inv s) :
    s.ticks ≤ t.ticks := by
  induction hrun with
  | nil s => exact Nat.le_refl _
  | cons hstep _ ih =>
      exact Nat.le_trans (hstep.step.moves hs).clocks.1 (ih (hstep.inv hs))

theorem within_run {ops : List Op} (hrun : Run (Stretch A R q) s ops t) (hq : 0 < q) :
    ∀ {b : Bool} {c : Nat}, Inv s → s.threadTicks ≤ s.ticks → Within A R q b c s → Polled b ops →
      t.ticks < 2 ^ 31 → ∃ b', Within A R q b' (c + ops.count .timerInterrupt) t := by
  induction hrun with
  | nil s => exact fun {b} _ _ _ h _ _ => ⟨b, h⟩
  | @cons s t u op ops hstep hrest ih =>
      intro b c hs hle h hpoll hk
      have hclock : s.ticks ≤ u.ticks := stretch_clock (.cons hstep hrest) hs
      have hslice : t.threadTicks ≤ t.ticks :=
        ((hstep.step.moves hs).keeps (fun _ _ _ hp hm => hm.slice_le hp) hs hle).2
      have ht := h.stretch hs hq hstep hpoll.1 (by omega)
      obtain ⟨b', hu⟩ := ih (hstep.inv hs) hslice ht hpoll.2 hk
      refine ⟨b', ?_⟩
      have hcount : c + (op :: ops).count .timerInterrupt =
          (if op = .timerInterrupt then c + 1 else c) + ops.count .timerInterrupt := by
        rw [List.count_cons]
        by_cases hop : op = .timerInterrupt
        · simp [hop]
          omega
        · simp [hop]
      rw [hcount]
      exact hu

end Stretch

theorem Booted.sliceful {s : State} (h : Booted s) :
    Sliceful s 0 ∧ s.threadTicks ≤ s.ticks ∧ 0 < s.roundRobinTicks := by
  obtain ⟨quantum, i, k, rfl⟩ := booted_iff.mp h
  have hpos := settings_pos quantum
  obtain ⟨m, q, hset⟩ := settings_eq quantum
  have hticks : (afterBoot quantum i k).threadTicks = 0 := by
    simp [afterBoot, hset, powerOn]
  refine ⟨⟨fun hi => absurd rfl hi, Nat.zero_le _⟩, ?_, hpos⟩
  rw [hticks]
  exact Nat.zero_le _

/-- When `after_interrupt` returns, the idle thread runs only if no thread is ready; in round robin
mode no thread is ready or the slice is shorter than the quantum, and the slice is the number of
ticks since the current thread became current.  So in round robin mode, with `after_interrupt`
called between two ticks, a thread is charged no more ticks in a row than the quantum while another
one is ready. -/
theorem polling_step {s₀ s : State} {ops : List Op} {n : Nat} (h₀ : Booted s₀)
    (hrun : Run Sliced (s₀, 0) ops (s, n)) :
    (∀ t m, Sliced (s, n) .afterInterrupt (t, m) →
      (t.idleThread = some t.threadRunningVar → t.readyList = []) ∧
      (t.roundRobinMode = 1 → t.readyList = [] ∨ t.threadTicks < t.roundRobinTicks) ∧
      (t.idleThread ≠ some t.threadRunningVar → t.ticks < 2 ^ 31 → t.threadTicks = m)) ∧
    ∀ A R q stretch t, Run (Stretch A R q) s stretch t → Polled true stretch → t.ticks < 2 ^ 31 →
      stretch.count .timerInterrupt ≤ q := by
  obtain ⟨hslice₀, hle₀, hpos₀⟩ := h₀.sliceful
  obtain ⟨hs, hslice, hle, hpos⟩ :
      Inv s ∧ Sliceful s n ∧ s.threadTicks ≤ s.ticks ∧ 0 < s.roundRobinTicks := by
    refine hrun.invariant (I := fun x => Inv x.1 ∧ Sliceful x.1 x.2 ∧ x.1.threadTicks ≤ x.1.ticks ∧
      0 < x.1.roundRobinTicks) ?_ ⟨h₀.inv, hslice₀, hle₀, hpos₀⟩
    rintro ⟨s, n⟩ op ⟨t, m⟩ ⟨hs, hslice, hle, hpos⟩ hstep
    have hmoves := hstep.1.moves hs
    refine ⟨hmoves.inv hs, hslice.sliced hs hstep,
      (hmoves.keeps (fun _ _ _ hp hm => hm.slice_le hp) hs hle).2, ?_⟩
    exact hstep.1.effect hs ▸ effect_quantum_pos hpos op
  refine ⟨fun t m hstep => ?_, fun A R q stretch t hstretch hpoll hk => ?_⟩
  · have heq : t = s.polled := hstep.1.effect hs
    obtain ⟨hbusy, hin⟩ : t.Busy ∧ t.InSlice := heq ▸ polled_settled hs hpos
    have ht := hslice.sliced hs hstep
    refine ⟨hbusy, fun hmode => hin (by rw [hmode]; decide), fun hi hk => ?_⟩
    have hm := ht.bounded
    rw [ht.slice hi, Nat.mod_eq_of_lt (by omega)]
  · cases hstretch with
    | nil => exact Nat.zero_le _
    | cons hstep hrest =>
        have hq : 0 < q := hstep.quantum.1 ▸ hpos
        obtain ⟨b, hw⟩ := within_run (.cons hstep hrest) hq (b := true) (c := 0) hs hle (.inl rfl)
          hpoll hk
        rw [Nat.zero_add] at hw
        rcases hw with hzero | ⟨hle, -⟩
        · rw [hzero]
          exact Nat.zero_le _
        · exact hle

theorem sliced_of_run {s t : State} {ops : List Op} (h : Run Step s ops t) :
    ∀ n, ∃ m, Run Sliced (s, n) ops (t, m) := by
  induction h with
  | nil s => exact fun n => ⟨n, .nil (s, n)⟩
  | @cons s t u op ops hstep _ ih =>
      intro n
      obtain ⟨m, hm⟩ := ih (if (switchedIn t.trace).length ≠ (switchedIn s.trace).length then 0
        else if op = .timerInterrupt then n + 1 else n)
      exact ⟨m, .cons ⟨hstep, rfl⟩ hm⟩

/-- Two threads and a quantum of two ticks: the first is charged two, and then preempted. -/
theorem polling_step_two_threads :
    let s := effects (afterBoot (some 2) 0 0)
      [.threadCreate .other (some 1) 5, .threadCreate .other (some 2) 5]
    let t := effects s [.timerInterrupt, .afterInterrupt, .timerInterrupt]
    s.threadRunningVar = .block 1 ∧
      Run (Stretch (.block 1) (.block 2) 2) s [.timerInterrupt, .afterInterrupt, .timerInterrupt] t ∧
      List.count Op.timerInterrupt [.timerInterrupt, .afterInterrupt, .timerInterrupt] ≤ 2 ∧
      t.polled.threadRunningVar = .block 2 ∧
      (t.polled.readyList = [] ∨ t.polled.threadTicks < t.polled.roundRobinTicks) := by
  have h₀ : Booted (afterBoot (some 2) 0 0) := booted_iff.mpr ⟨some 2, 0, 0, rfl⟩
  have hrun : Run Step (afterBoot (some 2) 0 0)
      [.threadCreate .other (some 1) 5, .threadCreate .other (some 2) 5] _ :=
    run_of_allows h₀.inv (by decide +kernel)
  have hs := inv_of_run hrun h₀.inv
  have h₁ : Step _ .timerInterrupt _ := step_of_allowed hs trivial rfl
  have hs₁ := (h₁.moves hs).inv hs
  have h₂ : Step _ .afterInterrupt _ := step_of_allowed hs₁ trivial rfl
  have hs₂ := (h₂.moves hs₁).inv hs₁
  have h₃ : Step _ .timerInterrupt _ := step_of_allowed hs₂ trivial rfl
  have hs₃ := (h₃.moves hs₂).inv hs₂
  have hstretch : Run (Stretch (.block 1) (.block 2) 2) _
      [.timerInterrupt, .afterInterrupt, .timerInterrupt] _ :=
    .cons ⟨h₁, by decide +kernel, by decide +kernel, by decide +kernel, by decide +kernel⟩
      (.cons ⟨h₂, by decide +kernel, by decide +kernel, by decide +kernel, nofun⟩
        (.cons ⟨h₃, by decide +kernel, by decide +kernel, by decide +kernel, by decide +kernel⟩
          (.nil _)))
  obtain ⟨n, hn⟩ := sliced_of_run hrun 0
  obtain ⟨m, hm⟩ := sliced_of_run (hrun.snoc h₁ |>.snoc h₂ |>.snoc h₃) 0
  have h₄ : Step _ .afterInterrupt _ := step_of_allowed hs₃ trivial rfl
  have hpolled := (polling_step h₀ hm).1 _ _ ⟨h₄, rfl⟩
  refine ⟨by decide +kernel, hstretch, ?_, by decide +kernel, hpolled.2.1 (by decide +kernel)⟩
  exact (polling_step h₀ hn).2 _ _ _ _ _ hstretch (by simp [Polled, Op.polled])
    (by decide +kernel)

end PicoOS
