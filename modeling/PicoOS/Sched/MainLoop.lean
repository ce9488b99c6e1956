/-
# `PicoOS.Sched.MainLoop` — `while (1) after_interrupt ();` and its interrupts

Between any two statements of the loop at which interrupts are on, the timer may
tick and an alarm may create a thread.  What such an interrupt does is one of
four things (`Shift`): nothing, if `calloc` failed; a tick; a new thread in
`ready_list`; or, if the idle thread is current, a new thread in `ready_list`
and the idle thread blocked, so that another thread becomes the current one.
The last (`Takeover`) is what makes the loop hard to reason about: `t` in
`t = thread_current ()` need not be the current thread at the next statement.

The proof outline of `after_interrupt` is done once here, for any assertion `X`
that rides along (`Rider`).  The loop itself keeps the state `Steady`: the lists
in order, a RUNNING, registered current thread, and `X`.
-/
import PicoOS.Sched.Interrupts

namespace PicoOS

open Interruptible Relation

/-! ## The interrupts -/

/-- An interrupt: the timer's, or that of an alarm whose callback calls `thread_create`. -/
inductive Intr where
  | timer
  | create (name : Name) (block : Option Nat) (duration : Int32)
  deriving DecidableEq, Repr

/-- The call the handler makes. -/
def Intr.op : Intr → Op
  | .timer => .timerInterrupt
  | .create name block duration => .threadCreate name block duration

/-- The interrupts that may come in while they are enabled: those that `ok` lets in, a callback
getting memory that is not in use. -/
def interrupts (ok : Point → State → Intr → Prop) : Source State Fault Point Intr where
  enabled pc s i := s.intrEnabled = true ∧ Allowed s i.op ∧ ok pc s i
  handle i := exec i.op

/-- The top of the loop: an interrupt there comes before the first statement. -/
def loopTop : Point := ⟨.blockIfIdleTest, .runningThread⟩

/-- One step of `while (1) after_interrupt ();`. -/
def LoopRun (ok : Point → State → Intr → Prop) :
    Code Unit × State → Code Unit × State → Prop :=
  ReflTransGen (LoopStep (interrupts ok) loopTop afterInterrupt)

/-- A statement that does not fault under a stable assertion. -/
theorem safe_step {α β : Type} {ok : Point → State → Intr → Prop} {G P : State → Prop} {site : Site}
    {act : State → Except Fault (β × State)} {k : β → Code α} {Q : α → State → Prop} {s : State}
    (hP : Stable (interrupts ok) Fault.IsAssert ⟨site, .body⟩ P) (hs : P s)
    (hG : ∀ s', P s' → G s')
    (hk : ∀ s', P s' → ∃ b s'', act s' = .ok (b, s'') ∧
      Safe (interrupts ok) Fault.IsAssert G (k b) Q s'') :
    Safe (interrupts ok) Fault.IsAssert G (stmt site act >>= k) Q s :=
  Safe.step hP hs hG hk

/-! ## What an interrupt does -/

/-- What an interrupt does that leaves the current thread alone. -/
inductive Calm (ok : Point → State → Intr → Prop) (pc : Point) : State → State → Prop
  | nothing (s : State) : Calm ok pc s s
  | tick (s : State) : Calm ok pc s s.ticked
  | create {s : State} {name : Name} {b : Nat} {d : Int32} (hb : s.heap (.block b) = none)
      (hname : name ≠ .null) (hok : ok pc s (.create name (some b) d))
      (hi : s.idleThread ≠ some s.threadRunningVar) : Calm ok pc s (s.adopt b d.toInt)

/-- A thread is created while the idle thread is current. -/
inductive Takeover (ok : Point → State → Intr → Prop) (pc : Point) : State → State → Prop
  | create {s : State} {name : Name} {b : Nat} {d : Int32} (hb : s.heap (.block b) = none)
      (hname : name ≠ .null) (hok : ok pc s (.create name (some b) d))
      (hi : s.idleThread = some s.threadRunningVar) : Takeover ok pc s (s.adopt b d.toInt).blocked

/-- What an interrupt does. -/
def Shift (ok : Point → State → Intr → Prop) (pc : Point) (s s' : State) : Prop :=
  Calm ok pc s s' ∨ Takeover ok pc s s'

section Shift

variable {ok : Point → State → Intr → Prop} {pc : Point} {s s' : State}

theorem exec_create (h : Midway s) {name : Name} {b : Nat} {d : Int32}
    (hb : s.heap (.block b) = none) (hname : name ≠ .null) :
    exec (.threadCreate name (some b) d) s = .ok (s.adopt b d.toInt).idleBlocked := by
  have hrun : (threadCreate name (some b) d).run s = .ok (_, s.created (some b) d.toInt) :=
    run_threadCreate h.current h.toLinked.switchable (Nat.ne_of_gt h.tids)
      (fun _ he => Option.some.inj he ▸ h.toLinked.fresh hb) (fun _ => hname) d
  simp only [exec, Op.code, Prog.run_bind_ok hrun]
  rfl

/-- The handler, entered with a current thread that passes `thread_current`. -/
theorem shift_of_handle (h : Midway s) {i : Intr} (he : (interrupts ok).enabled pc s i) :
    (∀ e, exec i.op s = .error e → e.IsAssert) ∧
      ∀ s', exec i.op s = .ok s' → Shift ok pc s s' := by
  obtain ⟨-, hallowed, hok⟩ := he
  cases i with
  | timer =>
      have hrun : exec (Intr.op .timer) s = .ok s.ticked := tick_ok h
      rw [hrun]
      exact ⟨nofun, fun s' hs' => Except.ok.inj hs' ▸ .inl (.tick s)⟩
  | create name block d =>
      cases block with
      | none => exact ⟨nofun, fun s' hs' => Except.ok.inj hs' ▸ .inl (.nothing s)⟩
      | some b =>
          have hb : s.heap (.block b) = none := hallowed b rfl
          by_cases hname : name = .null
          · subst hname
            refine ⟨fun e hexec => ?_, fun s' hexec => ?_⟩
            · cases hexec
              trivial
            · cases hexec
          · have hrun : exec (Intr.op (.create name (some b) d)) s = _ := exec_create h hb hname
            rw [hrun]
            refine ⟨nofun, fun s' hs' => Except.ok.inj hs' ▸ ?_⟩
            unfold State.idleBlocked
            split_ifs with hi
            · exact .inr (.create hb hname hok hi)
            · exact .inl (.create hb hname hok hi)

/-- An assertion under which `thread_current` passes, kept by whatever an interrupt does. -/
theorem stable_of_shift {P : State → Prop} (hm : ∀ s, P s → Midway s)
    (hP : ∀ s s', P s → Shift ok pc s s' → P s') :
    Stable (interrupts ok) Fault.IsAssert pc P := by
  intro s i hs hi
  obtain ⟨hF, hok⟩ := shift_of_handle (hm s hs) hi
  exact ⟨hF, fun s' hs' => hP s s' hs (hok s' hs')⟩

/-! ### The lists and the current thread -/

theorem Midway.adopt (h : Midway s) {b : Nat} (hb : s.heap (.block b) = none) (d : Int) :
    Midway (s.adopt b d) :=
  ⟨h.toLinked.adopt hb d, h.current.adopt hb d, h.notInitial⟩

/-- `schedule` leaves a RUNNING, registered current thread. -/
theorem Linked.dispatch_midway (h : Linked s) (hd : s.statusOf s.threadRunningVar = some .dying →
    s.threadRunningVar ∉ s.allList) :
    Midway s.dispatch ∧ s.dispatch.threadRunningVar ∈ s.dispatch.allList := by
  obtain ⟨hall, hinit, -⟩ := h.succ_spec
  obtain ⟨th, hth⟩ := State.statusOf_ne_none.mp (h.live _ hall)
  have hheap : s.dispatch.heap s.dispatch.threadRunningVar = some { th with status := .running } := by
    show s.dispatch.heap s.succ = _
    simp only [State.dispatch, if_true, hth, Option.map_some]
  exact ⟨⟨h.dispatch hd, ⟨_, hheap, h.magic _ th hth, rfl⟩, hinit⟩, hall⟩

theorem Midway.blocked (h : Midway s) :
    Midway s.blocked ∧ s.blocked.threadRunningVar ∈ s.blocked.allList := by
  have hl : Linked (s.setCurrent .blocked) := h.toLinked.setStatus_off h.not_ready h.not_espera _
  refine hl.dispatch_midway fun hd => ?_
  exact absurd ((h.current.setCurrent_status .blocked).symm.trans hd) (by decide)

/-- A thread that blocks is not freed. -/
theorem Midway.blocked_kept (h : Midway s) (a : Addr) : ¬ (s.setCurrent .blocked).reaped a := by
  rintro ⟨rfl, -, hd, -⟩
  exact absurd ((h.current.setCurrent_status .blocked).symm.trans hd) (by decide)

theorem Midway.blocked_durationOf (h : Midway s) (a : Addr) :
    s.blocked.durationOf a = s.durationOf a :=
  (State.durationOf_dispatch (h.blocked_kept a)).trans (State.durationOf_setStatus ..)

theorem Midway.blocked_tidOf (h : Midway s) (a : Addr) : s.blocked.tidOf a = s.tidOf a :=
  (State.tidOf_dispatch (h.blocked_kept a)).trans (State.tidOf_setStatus ..)

/-- `thread_block` touches no other thread than the one that stops and the one that runs next. -/
theorem State.blocked_statusOf {a : Addr} (ha : a ≠ s.succ) (hc : a ≠ s.threadRunningVar) :
    s.blocked.statusOf a = s.statusOf a := by
  have hreap : ¬ (s.setCurrent .blocked).reaped a := fun hr => hc hr.1
  refine (State.statusOf_dispatch _ _).trans ((if_neg ha).trans ((if_neg hreap).trans ?_))
  exact (State.statusOf_setStatus _ _ _ _).trans (if_neg hc)

/-- After a takeover a worker is current, and the idle thread is BLOCKED. -/
theorem Takeover.spec (h : Takeover ok pc s s') (hs : Midway s) :
    Midway s' ∧ s'.threadRunningVar ∈ s'.allList ∧ s'.idleThread = s.idleThread ∧
      s'.idleThread ≠ some s'.threadRunningVar ∧
      s'.statusOf s.threadRunningVar = some .blocked := by
  cases h with
  | @create name b d hb hname hok hi =>
      have hm := hs.adopt hb d.toInt
      obtain ⟨t, rest, hready⟩ : ∃ t rest, (s.adopt b d.toInt).readyList = t :: rest :=
        List.exists_cons_of_ne_nil (List.append_ne_nil_of_right_ne_nil _ (by simp))
      have hsucc : (s.adopt b d.toInt).succ = t := State.succ_cons hready
      have hworker := (hm.ready t (by rw [hready]; exact List.mem_cons_self ..)).2.1
      have hne : s.threadRunningVar ≠ (s.adopt b d.toInt).succ := by
        rw [hsucc]
        rintro rfl
        exact hworker.1 hi
      refine ⟨hm.blocked.1, hm.blocked.2, rfl, ?_, ?_⟩
      · show s.idleThread ≠ some (s.adopt b d.toInt).succ
        rw [hsucc]
        exact hworker.1
      · refine (State.statusOf_dispatch _ _).trans ((if_neg hne).trans ?_)
        exact (if_neg (hm.blocked_kept _)).trans (hm.current.setCurrent_status .blocked)

theorem Calm.current (h : Calm ok pc s s') : s'.threadRunningVar = s.threadRunningVar := by
  cases h with
  | nothing => rfl
  | tick => exact s.ticked_current
  | create => rfl

theorem Calm.midway (h : Calm ok pc s s') (hs : Midway s) : Midway s' := by
  cases h with
  | nothing => exact hs
  | tick => exact hs.ticked
  | create hb hname hok hi => exact hs.adopt hb _

theorem Shift.midway (h : Shift ok pc s s') (hs : Midway s) : Midway s' :=
  h.elim (fun hc => hc.midway hs) fun ht => (ht.spec hs).1

theorem Shift.intr (h : Shift ok pc s s') : s'.intrEnabled = s.intrEnabled := by
  rcases h with h | h
  · cases h with
    | nothing => rfl
    | tick => exact s.ticked_intr
    | create => rfl
  · cases h
    rfl

theorem Shift.idle (h : Shift ok pc s s') : s'.idleThread = s.idleThread := by
  rcases h with h | h
  · cases h with
    | nothing => rfl
    | tick => exact s.ticked_idle
    | create => rfl
  · cases h
    rfl

theorem Shift.initial (h : Shift ok pc s s') : s'.initialThread = s.initialThread := by
  rcases h with h | h
  · cases h with
    | nothing => rfl
    | tick => exact State.ticked_frame (f := State.initialThread) rfl fun _ _ => rfl
    | create => rfl
  · cases h
    rfl

theorem Shift.all (h : Shift ok pc s s') : s'.allList = s.allList ∨
    ∃ b, s.heap (.block b) = none ∧ s'.allList = s.allList ++ [.block b] := by
  rcases h with h | h
  · cases h with
    | nothing => exact .inl rfl
    | tick => exact .inl s.ticked_all
    | create hb hname hok hi => exact .inr ⟨_, hb, rfl⟩
  · cases h with
    | create hb hname hok hi => exact .inr ⟨_, hb, rfl⟩

/-- A registered thread stays registered. -/
theorem Shift.mem_all (h : Shift ok pc s s') {a : Addr} (ha : a ∈ s.allList) : a ∈ s'.allList := by
  rcases h.all with he | ⟨b, -, he⟩
  · rw [he]
    exact ha
  · rw [he]
    exact List.mem_append_left _ ha

/-- A live thread that is not registered does not become registered. -/
theorem Shift.not_mem_all (h : Shift ok pc s s') {a : Addr} (hlive : s.statusOf a ≠ none)
    (ha : a ∉ s.allList) : a ∉ s'.allList := by
  rcases h.all with he | ⟨b, hb, he⟩
  · rw [he]
    exact ha
  · rw [he, List.mem_append, List.mem_singleton]
    exact not_or.mpr ⟨ha, State.ne_fresh hb hlive⟩

/-- A thread that is not asleep keeps its status. -/
theorem Calm.statusOf (h : Calm ok pc s s') {a : Addr} (ha : a ∉ s.listaEspera)
    (hlive : s.statusOf a ≠ none) : s'.statusOf a = s.statusOf a := by
  cases h with
  | nothing => rfl
  | tick => exact State.ticked_statusOf ha
  | create hb hname hok hi =>
      exact (Linked.statusOf_adopt _ _ _ _).trans (if_neg (State.ne_fresh hb hlive))

/-! ### The ticks a thread has left -/

theorem Midway.ticked_durationOf (h : Midway s) (a : Addr) : s.ticked.durationOf a =
    if a = s.threadRunningVar then s.durationOf a - 1 else s.durationOf a :=
  (State.wakeList_frame (f := fun s => s.durationOf a)
    (fun b _ => State.durationOf_setStatus b a .ready _) _ _).trans (h.current.durationOf_charge a)

theorem State.durationOf_fresh {a : Addr} {b : Nat} (hb : s.heap (.block b) = none)
    (ha : s.statusOf a ≠ none) (d : Int) : (s.adopt b d).durationOf a = s.durationOf a :=
  State.durationOf_adopt (State.ne_fresh hb ha) d

theorem Midway.live_current (h : Midway s) : s.statusOf s.threadRunningVar ≠ none := by
  rw [h.current.status]
  simp

/-- The current thread does not gain ticks. -/
theorem Calm.duration_current (h : Calm ok pc s s') (hs : Midway s) :
    s'.durationOf s'.threadRunningVar ≤ s.durationOf s.threadRunningVar := by
  rw [h.current]
  cases h with
  | nothing => exact Int.le_refl _
  | tick =>
      rw [hs.ticked_durationOf, if_pos rfl]
      omega
  | create hb hname hok hi => exact Int.le_of_eq (State.durationOf_fresh hb hs.live_current _)

/-- A thread that is not current keeps its ticks. -/
theorem Calm.duration_other (h : Calm ok pc s s') (hs : Midway s) {a : Addr}
    (ha : s.statusOf a ≠ none) (hne : a ≠ s.threadRunningVar) :
    s'.durationOf a = s.durationOf a := by
  cases h with
  | nothing => rfl
  | tick => rw [hs.ticked_durationOf, if_neg hne]
  | create hb hname hok hi => exact State.durationOf_fresh hb ha _

theorem Takeover.duration (h : Takeover ok pc s s') (hs : Midway s) {a : Addr}
    (ha : s.statusOf a ≠ none) : s'.durationOf a = s.durationOf a := by
  cases h with
  | create hb hname hok hi =>
      exact ((hs.adopt hb _).blocked_durationOf a).trans (State.durationOf_fresh hb ha _)

end Shift

/-! ## Riding along -/

/-- The two states differ at most in the mask, in the status of threads, in what the ledger does
not record, and in threads that are neither registered nor current. -/
structure Alike (s t : State) : Prop where
  ready : t.readyList = s.readyList
  espera : t.listaEspera = s.listaEspera
  all : t.allList = s.allList
  current : t.threadRunningVar = s.threadRunningVar
  idle : t.idleThread = s.idleThread
  initial : t.initialThread = s.initialThread
  nextTid : t.nextTid = s.nextTid
  exitOnReturn : t.threadExitOnReturn = s.threadExitOnReturn
  ledger : t.ledger = s.ledger
  tid : ∀ a, a ∈ s.allList ∨ a = s.threadRunningVar → t.tidOf a = s.tidOf a
  duration : ∀ a, a ∈ s.allList ∨ a = s.threadRunningVar → t.durationOf a = s.durationOf a

/-- The points between the test `thread_current () == idle_thread` and the mask of the
`thread_block` it guards. -/
def blockPoints : List Point := [⟨.blockIfIdleTest, .body⟩, ⟨.blockSave, .body⟩]

/-- The points between the test `duration_ticks <= 0` and the last `thread_current ()` in the
condition of the `thread_exit` it guards, but for those inside of a `thread_current ()`. -/
def exitPoints : List Point :=
  [⟨.afterExpired, .body⟩, ⟨.afterPrintf, .runningThread⟩, ⟨.afterPrintf, .body⟩,
    ⟨.exitTestInitial, .runningThread⟩, ⟨.exitTestInitial, .body⟩, ⟨.exitTestIdle, .runningThread⟩]

/-- What a proof about the loop has to say of the assertion `X` that rides along and of the
property `G` of every state.  `strict` asks that only the idle thread is blocked by
`block_if_idle_thread`, `paid` that only a thread without ticks exits. -/
structure Rider (ok : Point → State → Intr → Prop) (X G : State → Prop) (strict paid : Prop) :
    Prop where
  good : ∀ {s}, X s → G s
  goodLedger : ∀ {s t}, t.ledger = s.ledger → G s → G t
  alike : ∀ {s t}, Alike s t → X s → X t
  ticked : ∀ {s}, Midway s → X s → X s.ticked
  adopt : ∀ {pc s name b d}, Midway s → s.heap (.block b) = none →
    ok pc s (.create name (some b) d) → X s → X (s.adopt b d.toInt)
  blocked : ∀ {s}, Midway s → (strict → s.idleThread = some s.threadRunningVar) → X s → X s.blocked
  yieldedTo : ∀ {s}, Midway s → s.threadRunningVar ∈ s.allList → s.readyList ≠ [] → X s →
    X s.yieldedTo
  unregister : ∀ {s}, Midway s → s.worker s.threadRunningVar → s.threadRunningVar ∈ s.allList →
    (paid → s.durationOf s.threadRunningVar ≤ 0) → X s → X s.unregister
  switched : ∀ {s}, Linked s → s.threadRunningVar ∉ s.allList → X s → X s.switched
  clear : ∀ {s : State}, X s → X { s with threadExitOnReturn := 0 }
  unforced : ∀ {s}, paid → X s → s.threadExitOnReturn = 0
  blockCue : ∀ {pc s name b d}, strict → pc ∈ blockPoints → name ≠ .null →
    s.idleThread = some s.threadRunningVar → ¬ ok pc s (.create name (some b) d)
  exitCue : ∀ {pc s name b d}, paid → pc ∈ exitPoints → name ≠ .null →
    s.idleThread = some s.threadRunningVar → s.durationOf s.threadRunningVar ≤ 0 →
    ¬ ok pc s (.create name (some b) d)

/-- The state of the loop between two statements that do not switch. -/
structure Steady (X : State → Prop) (s : State) : Prop extends Midway s where
  intr : s.intrEnabled = true
  member : s.threadRunningVar ∈ s.allList
  rides : X s

section Outline

variable {ok : Point → State → Intr → Prop} {X G : State → Prop} {strict paid : Prop}
  {pc : Point} {s s' : State}

theorem Rider.calm (R : Rider ok X G strict paid) (hs : Midway s) (hx : X s)
    (h : Calm ok pc s s') : X s' := by
  cases h with
  | nothing => exact hx
  | tick => exact R.ticked hs hx
  | create hb hname hok hi => exact R.adopt hs hb hok hx

theorem Rider.takeover (R : Rider ok X G strict paid) (hs : Midway s) (hx : X s)
    (h : Takeover ok pc s s') : X s' := by
  cases h with
  | create hb hname hok hi =>
      exact R.blocked (hs.adopt hb _) (fun _ => hi) (R.adopt hs hb hok hx)

theorem Steady.shift (R : Rider ok X G strict paid) (h : Steady X s) (hsh : Shift ok pc s s') :
    Steady X s' := by
  refine ⟨hsh.midway h.toMidway, hsh.intr.trans h.intr, ?_, ?_⟩
  · rcases hsh with hc | ht
    · rw [hc.current]
      exact Shift.mem_all (.inl hc) h.member
    · exact (ht.spec h.toMidway).2.1
  · exact hsh.elim (R.calm h.toMidway h.rides) (R.takeover h.toMidway h.rides)

theorem Steady.stable (R : Rider ok X G strict paid) :
    Stable (interrupts ok) Fault.IsAssert pc (Steady X) :=
  stable_of_shift (fun _ h => h.toMidway) fun _ _ h hsh => h.shift R hsh

/-! ### `t = thread_current ()` -/

/-- `t` was the current thread, and `Y` held.  It is and `Y` holds, or it is the idle thread and
was taken over. -/
def Held (X Y : State → Prop) (t : Addr) (s : State) : Prop :=
  Steady X s ∧ (s.threadRunningVar = t ∧ Y s ∨
    s.idleThread = some t ∧ s.statusOf t = some .blocked ∧
      s.idleThread ≠ some s.threadRunningVar)

variable {Y : State → Prop} {t : Addr}

theorem Linked.live_idle (h : Linked s) (hi : s.idleThread = some t) :
    t ∈ s.allList ∧ t ∉ s.readyList ∧ t ∉ s.listaEspera := by
  obtain ⟨i, hi', hall, -⟩ := h.idle
  rw [hi] at hi'
  cases hi'
  exact ⟨hall, fun hm => (h.ready t hm).2.1.1 hi, fun hm => (h.espera t hm).2.1.1 hi⟩

theorem Held.registered (h : Held X Y t s) : t ∈ s.allList := by
  rcases h.2 with ⟨rfl, -⟩ | ⟨hi, -⟩
  · exact h.1.member
  · exact (h.1.toLinked.live_idle hi).1

theorem Linked.heap_of_mem (h : Linked s) (ht : t ∈ s.allList) :
    ∃ th, s.heap t = some th ∧ th.magic = threadMagic := by
  obtain ⟨th, hth⟩ := State.statusOf_ne_none.mp (h.live t ht)
  exact ⟨th, hth, h.magic t th hth⟩

theorem Held.shift (R : Rider ok X G strict paid)
    (hY : ∀ pc s s', Steady X s → Y s → Calm ok pc s s' → Y s') (h : Held X Y t s)
    (hsh : Shift ok pc s s') : Held X Y t s' := by
  refine ⟨h.1.shift R hsh, ?_⟩
  rcases hsh with hc | ht
  · rcases h.2 with ⟨hcur, hy⟩ | ⟨hi, hst, hne⟩
    · exact .inl ⟨hc.current.trans hcur, hY pc s s' h.1 hy hc⟩
    · have hidle := Shift.idle (.inl hc)
      refine .inr ⟨hidle.trans hi, ?_, ?_⟩
      · rw [hc.statusOf (h.1.toLinked.live_idle hi).2.2 (by rw [hst]; simp), hst]
      · rw [hidle, hc.current]
        exact hne
  · obtain ⟨-, -, hidle, hne, hst⟩ := ht.spec h.1.toMidway
    cases ht with
    | create hb hname hok hi =>
        rcases h.2 with ⟨rfl, -⟩ | ⟨-, -, hne'⟩
        · exact .inr ⟨hidle.trans hi, hst, hne⟩
        · exact absurd hi hne'

theorem Held.stable (R : Rider ok X G strict paid)
    (hY : ∀ pc s s', Steady X s → Y s → Calm ok pc s s' → Y s') :
    Stable (interrupts ok) Fault.IsAssert pc (Held X Y t) :=
  stable_of_shift (fun _ h => h.1.toMidway) fun _ _ h hsh => h.shift R hY hsh

theorem asserts_error {f c : String} {p : State → Except Fault Bool} {e : Fault} {b : Bool}
    (hp : p s = .ok b) (h : asserts f c p s = .error e) : e.IsAssert := by
  cases b with
  | true =>
      rw [asserts_ok hp] at h
      cases h
  | false =>
      rw [asserts_fail hp] at h
      cases h
      trivial

theorem asserts_pass {f c : String} {p : State → Except Fault Bool} {u : Unit} {b : Bool}
    (hp : p s = .ok b) (h : asserts f c p s = .ok (u, s')) : b = true ∧ s' = s := by
  cases b with
  | true =>
      rw [asserts_ok hp] at h
      cases h
      exact ⟨rfl, rfl⟩
  | false =>
      rw [asserts_fail hp] at h
      cases h

/-- `thread_current` returns the current thread, or panics after a takeover.  `Y` rides along if
a takeover before the variable is read keeps it. -/
theorem Steady.threadCurrent (R : Rider ok X G strict paid) {site : Site}
    (hY : ∀ pc s s', Steady X s → Y s → Calm ok pc s s' → Y s')
    (hT : ∀ s s', Steady X s → Y s → Takeover ok ⟨site, .runningThread⟩ s s' → Y s')
    (h : Steady X s) (hy : Y s) :
    Safe (interrupts ok) Fault.IsAssert G (PicoOS.threadCurrent site)
      (fun t s' => Steady X s' ∧ Y s' ∧ s'.threadRunningVar = t) s := by
  refine Safe.stmt (P := fun s => Steady X s ∧ Y s) ?_ ⟨h, hy⟩ (fun s' hs' => R.good hs'.1.rides)
    ?_ ?_
  · refine stable_of_shift (fun _ hs => hs.1.toMidway) fun s₁ s₂ hs hsh => ⟨hs.1.shift R hsh, ?_⟩
    exact hsh.elim (hY _ s₁ s₂ hs.1 hs.2) (hT s₁ s₂ hs.1 hs.2)
  · intro s₁ e _ he
    cases he
  intro s₁ t s₁' hs₁ hread
  cases hread
  refine Safe.stmt (Held.stable R hY) ⟨hs₁.1, .inl ⟨rfl, hs₁.2⟩⟩ (fun s' hs' => R.good hs'.1.rides)
    ?_ ?_
  · intro s₂ e hs₂ he
    obtain ⟨th, hth, hm⟩ := hs₂.1.toLinked.heap_of_mem hs₂.registered
    exact asserts_error (isThread_ok hth hm) he
  intro s₂ u s₂' hs₂ hok
  obtain ⟨th, hth, hm⟩ := hs₂.1.toLinked.heap_of_mem hs₂.registered
  obtain ⟨-, rfl⟩ := asserts_pass (isThread_ok hth hm) hok
  have hstat : ∀ s : State, Held X Y s₁.threadRunningVar s → ∃ th,
      s.heap s₁.threadRunningVar = some th ∧
      (status s₁.threadRunningVar s).map (· == .running) = .ok (th.status == .running) := by
    intro s hs
    obtain ⟨th, hth, -⟩ := hs.1.toLinked.heap_of_mem hs.registered
    exact ⟨th, hth, by rw [status_ok hth]; rfl⟩
  refine Safe.stmt (Held.stable R hY) hs₂ (fun s' hs' => R.good hs'.1.rides) ?_ ?_
  · intro s₃ e hs₃ he
    obtain ⟨th, hth, hst⟩ := hstat s₃ hs₃
    exact asserts_error hst he
  intro s₃ u' s₃' hs₃ hok
  obtain ⟨th, hth, hst⟩ := hstat s₃ hs₃
  obtain ⟨hrun, rfl⟩ := asserts_pass hst hok
  refine Safe.ret (R.good hs₃.1.rides) ⟨hs₃.1, ?_⟩
  rcases hs₃.2 with ⟨hcur, hy⟩ | ⟨-, hblocked, -⟩
  · exact ⟨hy, hcur⟩
  · rw [State.statusOf, hth, Option.map_some] at hblocked
    rw [Option.some.inj hblocked] at hrun
    cases hrun

/-! ### With interrupts off -/

/-- A stretch under the mask and the `restore_interrupts` after it: no interrupt can come in, so
its uninterrupted run says it all. -/
theorem Rider.masked (R : Rider ok X G strict paid) {p : Code Unit} {site : Site}
    {Q : Unit → State → Prop} (hkeep : ∀ l, Keeps (Masked l) p) (hG : G s)
    (hF : ∀ e, p.run (s.mask false) = .error e → e.IsAssert)
    (hQ : ∀ u, p.run (s.mask false) = .ok ((), u) → G (u.mask true) ∧ Q () (u.mask true)) :
    Safe (interrupts ok) Fault.IsAssert G (p >>= fun _ => stmt site (restoreInterrupts true)) Q
      (s.mask false) := by
  have hoff : ∀ u pc i, Masked s.ledger u → ¬ (interrupts ok).enabled pc u i := by
    intro u pc i hu he
    have hon := he.1
    rw [hu.1] at hon
    cases hon
  have hpart : Safe (interrupts ok) Fault.IsAssert G p (fun _ u => Masked s.ledger u ∧
      p.run (s.mask false) = .ok ((), u)) (s.mask false) :=
    Safe.of_run hoff (fun u hu => R.goodLedger hu.2 hG) (hkeep _) ⟨rfl, rfl⟩ hF
      fun _ u hm hu => ⟨hm, hu⟩
  refine Safe.bind hpart ?_
  rintro ⟨⟩ u ⟨hm, hu⟩
  refine Safe.step (P := fun s' => s' = u) ?_ rfl ?_ ?_
  · rintro s' i rfl hi
    exact absurd hi (hoff s' _ i hm)
  · rintro s' rfl
    exact R.goodLedger hm.2 hG
  · rintro s' rfl
    exact ⟨(), s'.mask true, rfl, hQ s' hu⟩

theorem State.mask_true (h : s.intrEnabled = true) : s.mask true = s := by
  rw [← h]
  rfl

/-! ### `block_if_idle_thread` -/

/-- Where `strict` matters nothing takes over. -/
theorem Rider.no_takeover (R : Rider ok X G strict paid) (hstrict : strict)
    (hpc : pc ∈ blockPoints) : ¬ Takeover ok pc s s' := by
  intro h
  cases h with
  | create hb hname hok hi => exact R.blockCue hstrict hpc hname hi hok

/-- What is known of the idle and the current thread stays known while none takes over. -/
theorem Rider.stable_idle (R : Rider ok X G strict paid) (hpc : pc ∈ blockPoints)
    (C : Option Addr → Addr → Prop) : Stable (interrupts ok) Fault.IsAssert pc
      fun s => Steady X s ∧ (strict → C s.idleThread s.threadRunningVar) := by
  refine stable_of_shift (fun _ hs => hs.1.toMidway) fun s₁ s₂ hs hsh =>
    ⟨hs.1.shift R hsh, fun hstrict => ?_⟩
  rcases hsh with hc | ht
  · rw [Shift.idle (.inl hc), hc.current]
    exact hs.2 hstrict
  · exact absurd ht (R.no_takeover hstrict hpc)

theorem Steady.blocked (R : Rider ok X G strict paid) (h : Steady X s)
    (hi : strict → s.idleThread = some s.threadRunningVar) : Steady X s.blocked :=
  ⟨h.toMidway.blocked.1, h.intr, h.toMidway.blocked.2, R.blocked h.toMidway hi h.rides⟩

/-- `thread_block`, called by `block_if_idle_thread`. -/
theorem Steady.threadBlock (R : Rider ok X G strict paid) (h : Steady X s)
    (hi : strict → s.idleThread = some s.threadRunningVar) :
    Safe (interrupts ok) Fault.IsAssert G PicoOS.threadBlock (fun _ => Steady X) s := by
  rw [threadBlock_eq]
  refine safe_step (P := fun s => Steady X s ∧ (strict → s.idleThread = some s.threadRunningVar)) ?_
    ⟨h, hi⟩ (fun s' hs' => R.good hs'.1.rides) ?_
  · exact R.stable_idle (by decide) fun idle current => idle = some current
  · rintro s₁ ⟨h₁, hi₁⟩
    refine ⟨true, s₁.mask false, by rw [← h₁.intr]; rfl, ?_⟩
    have hc : HasCurrent (s₁.mask false) := h₁.current.of_heap rfl rfl
    have hsw : Switchable (s₁.mask false) := h₁.toLinked.switchable.of_heap rfl rfl
    have hrun : blockMasked.run (s₁.mask false) = .ok ((), s₁.blocked.mask false) :=
      run_blockMasked hc hsw
    refine R.masked (fun _ => keeps_blockMasked) (R.good h₁.rides) (fun e he => ?_) fun u hu => ?_
    · rw [hrun] at he
      cases he
    · rw [hrun] at hu
      cases hu
      have hdone : Steady X s₁.blocked := h₁.blocked R hi₁
      show G (s₁.blocked.mask true) ∧ Steady X (s₁.blocked.mask true)
      rw [State.mask_true hdone.intr]
      exact ⟨R.good hdone.rides, hdone⟩

theorem Steady.blockIfIdleThread (R : Rider ok X G strict paid) (h : Steady X s) :
    Safe (interrupts ok) Fault.IsAssert G PicoOS.blockIfIdleThread (fun _ => Steady X) s := by
  unfold PicoOS.blockIfIdleThread
  refine Safe.bind (h.threadCurrent R (Y := fun _ => True) (fun _ _ _ _ _ _ => trivial)
    (fun _ _ _ _ _ => trivial) trivial) fun t s₁ h₁ => ?_
  refine safe_step (P := fun s => Steady X s ∧
    (strict → s.idleThread = some t → s.idleThread = some s.threadRunningVar)) ?_
    ⟨h₁.1, fun _ hi => h₁.2.2 ▸ hi⟩ (fun s' hs' => R.good hs'.1.rides) ?_
  · exact R.stable_idle (by decide) fun idle current => idle = some t → idle = some current
  · rintro s₂ ⟨h₂, hi₂⟩
    refine ⟨decide (some t = s₂.idleThread), s₂, rfl, ?_⟩
    by_cases hidle : some t = s₂.idleThread
    · rw [if_pos (decide_eq_true hidle)]
      exact h₂.threadBlock R fun hstrict => hi₂ hstrict hidle.symm
    · rw [if_neg (by simpa using hidle)]
      exact Safe.ret (R.good h₂.rides) h₂

/-! ### `thread_yield` -/

/-- The current thread is READY when `thread_yield` calls `schedule`. -/
theorem Midway.yielding_status (h : Midway s) :
    (s.requeued.setStatus s.threadRunningVar .ready).statusOf
      (s.requeued.setStatus s.threadRunningVar .ready).threadRunningVar = some .ready := by
  have hcur : (s.requeued.setStatus s.threadRunningVar .ready).threadRunningVar =
      s.threadRunningVar := s.requeued_current
  rw [hcur, State.statusOf_setStatus, if_pos rfl, State.statusOf, s.requeued_heap]
  exact congrArg (Option.map fun _ => ThreadStatus.ready) h.current.status

theorem Midway.yieldedTo (h : Midway s) (hm : s.threadRunningVar ∈ s.allList) :
    Midway s.yieldedTo ∧ s.yieldedTo.threadRunningVar ∈ s.yieldedTo.allList := by
  have hl : Linked (s.requeued.setStatus s.threadRunningVar .ready) := by
    by_cases hw : s.worker s.threadRunningVar
    · rw [State.requeued, if_pos hw]
      exact h.toLinked.enqueue_ready h.not_ready h.not_espera hw hm
    · rw [State.requeued, if_neg hw]
      exact h.toLinked.setStatus_off h.not_ready h.not_espera .ready
  refine hl.dispatch_midway fun hd => ?_
  rw [h.yielding_status] at hd
  cases hd

/-- A thread that yields is not freed. -/
theorem Midway.yielding_kept (h : Midway s) (a : Addr) :
    ¬ (s.requeued.setStatus s.threadRunningVar .ready).reaped a := by
  rintro ⟨rfl, -, hd, -⟩
  rw [h.yielding_status] at hd
  cases hd

theorem Midway.yieldedTo_durationOf (h : Midway s) (a : Addr) :
    s.yieldedTo.durationOf a = s.durationOf a := by
  refine (State.durationOf_dispatch (h.yielding_kept a)).trans
    ((State.durationOf_setStatus ..).trans ?_)
  exact State.requeued_frame (f := fun s => s.durationOf a) (fun _ _ => rfl) s

theorem Midway.yieldedTo_tidOf (h : Midway s) (a : Addr) : s.yieldedTo.tidOf a = s.tidOf a := by
  refine (State.tidOf_dispatch (h.yielding_kept a)).trans ((State.tidOf_setStatus ..).trans ?_)
  exact State.requeued_frame (f := fun s => s.tidOf a) (fun _ _ => rfl) s

theorem Steady.yielded (R : Rider ok X G strict paid) (h : Steady X s) : Steady X s.yielded := by
  unfold State.yielded
  split_ifs with hr
  · exact h
  · obtain ⟨hm, hall⟩ := h.toMidway.yieldedTo h.member
    exact ⟨hm, s.requeued_intrEnabled.trans h.intr, hall,
      R.yieldedTo h.toMidway h.member hr h.rides⟩

theorem Midway.not_linked (h : Midway s) : s.linked s.threadRunningVar = false := by
  simp [State.linked, h.not_ready, h.not_espera]

theorem Steady.threadYield (R : Rider ok X G strict paid) (h : Steady X s) :
    Safe (interrupts ok) Fault.IsAssert G PicoOS.threadYield (fun _ => Steady X) s := by
  rw [threadYield_eq]
  refine Safe.bind (h.threadCurrent R (Y := fun _ => True) (fun _ _ _ _ _ _ => trivial)
    (fun _ _ _ _ _ => trivial) trivial) fun t s₁ h₁ => ?_
  refine safe_step (Held.stable R (Y := fun _ => True) fun _ _ _ _ _ _ => trivial)
    ⟨h₁.1, .inl ⟨h₁.2.2, trivial⟩⟩ (fun s' hs' => R.good hs'.1.rides) fun s₂ h₂ => ?_
  refine ⟨true, s₂.mask false, by rw [← h₂.1.intr]; rfl, ?_⟩
  have hc : HasCurrent (s₂.mask false) := h₂.1.current.of_heap rfl rfl
  rcases h₂.2 with ⟨rfl, -⟩ | ⟨hi, -, hne⟩
  · have hsw : Switchable (s₂.mask false) := h₂.1.toLinked.switchable.of_heap rfl rfl
    have hrun : (yieldMasked s₂.threadRunningVar).run (s₂.mask false) =
        .ok ((), s₂.yielded.mask false) := by
      rw [← State.mask_yielded]
      exact run_yieldMasked hc hsw fun _ => h₂.1.not_linked
    have hdone : Steady X s₂.yielded := h₂.1.yielded R
    refine R.masked (fun _ => keeps_yieldMasked _) (R.good h₂.1.rides) (fun e he => ?_)
      fun u hu => ?_
    · rw [hrun] at he
      cases he
    · rw [hrun] at hu
      cases hu
      show G (s₂.yielded.mask true) ∧ Steady X (s₂.yielded.mask true)
      rw [State.mask_true hdone.intr]
      exact ⟨R.good hdone.rides, hdone⟩
  · obtain ⟨th, hth, -⟩ := h₂.1.toLinked.heap_of_mem h₂.registered
    have hrun := run_yieldMasked_stale hc hi hth fun he => hne (hi.trans (congrArg some he.symm))
    refine R.masked (fun _ => keeps_yieldMasked _) (R.good h₂.1.rides) (fun e he => ?_)
      fun u hu => ?_
    · rw [hrun] at he
      split_ifs at he
      cases he
      trivial
    · rw [hrun] at hu
      split_ifs at hu
      cases hu
      show G (s₂.mask true) ∧ Steady X (s₂.mask true)
      rw [State.mask_true h₂.1.intr]
      exact ⟨R.good h₂.1.rides, h₂.1⟩

/-! ### `thread_exit`, while the thread is running -/

/-- `thread_current`, called by a thread that nothing can take over. -/
theorem safe_threadCurrent {P : State → Prop} {site : Site}
    (hP : ∀ pc, Stable (interrupts ok) Fault.IsAssert pc P)
    (hm : ∀ s, P s → Midway s ∧ s.threadRunningVar = t) (hG : ∀ s, P s → G s) (hs : P s) :
    Safe (interrupts ok) Fault.IsAssert G (PicoOS.threadCurrent site) (fun t' s' => t = t' ∧ P s')
      s := by
  have hcur : ∀ s', P s' → ∃ th, s'.heap t = some th ∧ th.magic = threadMagic ∧
      th.status = .running := by
    intro s' hs'
    obtain ⟨hmid, rfl⟩ := hm s' hs'
    exact hmid.current
  refine Safe.step (hP _) hs hG fun s₁ h₁ => ⟨t, s₁, ?_, ?_⟩
  · rw [reads_runningThread, (hm s₁ h₁).2]
  refine Safe.step (hP _) h₁ hG fun s₂ h₂ => ⟨(), s₂, ?_, ?_⟩
  · obtain ⟨th, hth, hmagic, -⟩ := hcur s₂ h₂
    exact asserts_ok (isThread_ok hth hmagic)
  refine Safe.step (hP _) h₂ hG fun s₃ h₃ => ⟨(), s₃, ?_, Safe.ret (hG s₃ h₃) ⟨rfl, h₃⟩⟩
  obtain ⟨th, hth, -, hst⟩ := hcur s₃ h₃
  exact asserts_ok (by simp [status_ok hth, hst, Except.map])

/-- The worker at `t` is current and will exit; if `paid`, it has no ticks left. -/
structure Going (X : State → Prop) (paid : Prop) (t : Addr) (s : State) : Prop
    extends Steady X s where
  cur : s.threadRunningVar = t
  worker : s.worker t
  spent : paid → s.durationOf t ≤ 0

theorem Shift.worker (h : Shift ok pc s s') (a : Addr) : s'.worker a ↔ s.worker a := by
  rw [State.worker, h.idle, h.initial]
  rfl

/-- A worker is not taken over. -/
theorem Shift.calm (h : Shift ok pc s s') (hw : s.worker s.threadRunningVar) :
    Calm ok pc s s' := by
  rcases h with hc | ht
  · exact hc
  · cases ht with
    | create hb hname hok hi => exact absurd hi hw.1

theorem Going.stable (R : Rider ok X G strict paid) :
    Stable (interrupts ok) Fault.IsAssert pc (Going X paid t) := by
  refine stable_of_shift (fun _ h => h.toMidway) fun s₁ s₂ h hsh => ?_
  have hc := hsh.calm (h.cur ▸ h.worker)
  have hcur := hc.current.trans h.cur
  refine ⟨h.toSteady.shift R hsh, hcur, (hsh.worker t).mpr h.worker, fun hp => ?_⟩
  have hle := hc.duration_current h.toMidway
  rw [hcur, h.cur] at hle
  exact Int.le_trans hle (h.spent hp)

/-- The worker at `t` is current and has left `all_list`. -/
structure Exiting (X : State → Prop) (t : Addr) (s : State) : Prop extends Midway s where
  intr : s.intrEnabled = true
  rides : X s
  cur : s.threadRunningVar = t
  worker : s.worker t
  gone : t ∉ s.allList

theorem Exiting.stable (R : Rider ok X G strict paid) :
    Stable (interrupts ok) Fault.IsAssert pc (Exiting X t) := by
  refine stable_of_shift (fun _ h => h.toMidway) fun s₁ s₂ h hsh => ?_
  have hc := hsh.calm (h.cur ▸ h.worker)
  exact ⟨hc.midway h.toMidway, hsh.intr.trans h.intr, R.calm h.toMidway h.rides hc,
    hc.current.trans h.cur, (hsh.worker t).mpr h.worker,
    hsh.not_mem_all (h.cur ▸ h.live_current) h.gone⟩

theorem Going.unregister (R : Rider ok X G strict paid) (h : Going X paid t s) :
    Exiting X t s.unregister where
  toLinked := h.toLinked.unregister h.not_ready h.not_espera (h.cur ▸ h.worker)
  current := h.current.of_heap rfl rfl
  notInitial := h.notInitial
  intr := h.intr
  rides := R.unregister h.toMidway (h.cur ▸ h.worker) h.member (h.cur ▸ h.spent) h.rides
  cur := h.cur
  worker := h.worker
  gone hm := by
    rw [← h.cur] at hm
    exact h.allNodup.not_mem_erase hm

/-! ### `schedule`, called by a dying thread

A handler panics while the current thread is not RUNNING, unless `calloc` fails
and it returns at once; so nothing changes between these statements. -/

/-- The current thread is live and not RUNNING. -/
structure Stuck (s : State) : Prop extends Linked s where
  halted : ∃ th, s.heap s.threadRunningVar = some th ∧ th.status ≠ .running

theorem exec_create_panics (h : Stuck s) {name : Name} {b : Nat} {d : Int32}
    (hb : s.heap (.block b) = none) (hname : name ≠ .null) :
    exec (.threadCreate name (some b) d) s = .error notRunning := by
  obtain ⟨th, hth, hst⟩ := h.halted
  have hne : s.threadRunningVar ≠ .block b := by
    intro he
    rw [he, hb] at hth
    cases hth
  have hheap : (s.adopt b d.toInt).heap s.threadRunningVar = some th :=
    (Function.update_of_ne hne _ _).trans hth
  have hcur := run_threadCurrent_fault (s := s.adopt b d.toInt) hheap (h.magic _ th hth) hst
    .blockIfIdleTest
  have hrun : (threadCreate name (some b) d).run s = .error notRunning := by
    unfold threadCreate
    rw [run_step (show callocThread (some b) s =
      .ok (some (.block b), s.place (.block b) ⟨0, .running, 0, 0, 0⟩) from rfl)]
    dsimp only
    rw [run_threadCreate_adopt (h.toLinked.fresh hb) hname, run_step rfl]
    dsimp only
    rw [if_neg (fun h' => Nat.ne_of_gt h.tids h'.2)]
    exact Prog.run_bind_error (Prog.run_bind_error hcur)
  simp only [exec, Op.code, Prog.run_bind_error hrun]
  rfl

theorem Stuck.stable (h : Stuck s) :
    Stable (interrupts ok) Fault.IsAssert pc (fun s' => s' = s) := by
  rintro s' i rfl ⟨-, hallowed, -⟩
  cases i with
  | timer =>
      obtain ⟨th, hth, hst⟩ := h.halted
      have hrun : (interrupts ok).handle .timer s' = .error notRunning :=
        tick_panics hth (h.magic _ th hth) hst
      rw [hrun]
      exact ⟨fun e he => Except.error.inj he ▸ trivial, nofun⟩
  | create name block d =>
      cases block with
      | none => exact ⟨nofun, fun s'' hs'' => (Except.ok.inj hs'').symm⟩
      | some b =>
          have hb : s'.heap (.block b) = none := hallowed b rfl
          by_cases hname : name = .null
          · subst hname
            have hrun : (interrupts ok).handle (.create .null (some b) d) s' =
                .error (.assert "init_thread" "name != NULL") := exec_null s' b d
            rw [hrun]
            exact ⟨fun e he => Except.error.inj he ▸ trivial, nofun⟩
          · have hrun : (interrupts ok).handle (.create name (some b) d) s' = .error notRunning :=
              exec_create_panics h hb hname
            rw [hrun]
            exact ⟨fun e he => Except.error.inj he ▸ trivial, nofun⟩

theorem safe_stuck {α β : Type} {act : State → Except Fault (β × State)} {k : β → Code α}
    {Q : α → State → Prop} {b : β} (h : Stuck s) (hG : G s) (ha : act s = .ok (b, s'))
    (hk : Safe (interrupts ok) Fault.IsAssert G (k b) Q s') :
    Safe (interrupts ok) Fault.IsAssert G (.stmt pc act k) Q s :=
  Safe.step h.stable rfl (fun _ he => he ▸ hG) fun _ he => ⟨b, s', he ▸ ha, hk⟩

/-! ### `thread_schedule_tail`, after a dying thread -/

/-- The switch from the dying thread at `p` is done. -/
structure Landed (X : State → Prop) (p : Addr) (s : State) : Prop extends Steady X s where
  dying : s.statusOf p = some .dying
  gone : p ∉ s.allList
  notInitialThread : p ≠ s.initialThread

variable {p : Addr}

theorem Landed.shift (R : Rider ok X G strict paid) (h : Landed X p s) (hsh : Shift ok pc s s') :
    Landed X p s' := by
  have hlive : s.statusOf p ≠ none := by rw [h.dying]; simp
  have hgone := hsh.not_mem_all hlive h.gone
  refine ⟨h.toSteady.shift R hsh, ?_, hgone, hsh.initial ▸ h.notInitialThread⟩
  rw [← h.dying]
  rcases hsh with hc | ht
  · exact hc.statusOf (fun hm => h.gone (h.espera p hm).2.2) hlive
  · cases ht with
    | @create name b d hb hname hok hi =>
        have hm := h.toMidway.adopt hb d.toInt
        have hne : p ≠ .block b := State.ne_fresh hb hlive
        have hsucc : p ≠ (s.adopt b d.toInt).succ := by
          rintro rfl
          exact hgone hm.toLinked.succ_spec.1
        have hcur : p ≠ s.threadRunningVar := by
          rintro rfl
          exact h.gone h.member
        rw [State.blocked_statusOf hsucc hcur, Linked.statusOf_adopt, if_neg hne]

theorem Landed.stable (R : Rider ok X G strict paid) :
    Stable (interrupts ok) Fault.IsAssert pc (Landed X p) :=
  stable_of_shift (fun _ h => h.toMidway) fun _ _ h hsh => h.shift R hsh

theorem Alike.setStatus (s : State) (a : Addr) (st : ThreadStatus) : Alike s (s.setStatus a st) :=
  ⟨rfl, rfl, rfl, rfl, rfl, rfl, rfl, rfl, rfl, fun _ _ => State.tidOf_setStatus ..,
    fun _ _ => State.durationOf_setStatus ..⟩

/-- `cur->status = THREAD_RUNNING`, where `cur` may be an idle thread that was taken over. -/
theorem Landed.setRunning (R : Rider ok X G strict paid) (h : Landed X p s)
    (hc : s.threadRunningVar = c ∨ s.idleThread = some c) :
    Landed X p (s.setStatus c .running) ∧ p ≠ c ∧ ∃ th, s.heap c = some th := by
  have hoff : c ∈ s.allList ∧ c ∉ s.readyList ∧ c ∉ s.listaEspera := by
    rcases hc with rfl | hi
    · exact ⟨h.member, h.not_ready, h.not_espera⟩
    · exact h.toLinked.live_idle hi
  obtain ⟨th, hth, hm⟩ := h.toLinked.heap_of_mem hoff.1
  have hne : p ≠ c := fun he => h.gone (he ▸ hoff.1)
  have hcur : HasCurrent (s.setStatus c .running) := by
    by_cases he : s.threadRunningVar = c
    · refine ⟨{ th with status := .running }, ?_, hm, rfl⟩
      refine (State.setStatus_heap _ _ _ _).trans ((if_pos he).trans ?_)
      exact congrArg _ (he.symm ▸ hth)
    · exact h.current.setStatus_other he .running
  refine ⟨⟨⟨⟨h.toLinked.setStatus_off hoff.2.1 hoff.2.2 _, hcur, h.notInitial⟩, h.intr, h.member,
    R.alike (.setStatus s c .running) h.rides⟩, ?_, h.gone, h.notInitialThread⟩, hne, th, hth⟩
  rw [State.statusOf_setStatus, if_neg hne]
  exact h.dying

theorem Landed.newSlice (R : Rider ok X G strict paid) (h : Landed X p s) :
    Landed X p { s with threadTicks := 0 } := by
  have hl : Linked { s with threadTicks := 0 } :=
    h.toLinked.frame rfl rfl rfl rfl rfl (Nat.le_refl _) h.magic (fun _ ha => ha) fun _ _ => rfl
  have hlike : Alike s { s with threadTicks := 0 } :=
    ⟨rfl, rfl, rfl, rfl, rfl, rfl, rfl, rfl, rfl, fun _ _ => rfl, fun _ _ => rfl⟩
  exact ⟨⟨⟨hl, h.current.of_heap rfl rfl, h.notInitial⟩, h.intr, h.member, R.alike hlike h.rides⟩,
    h.dying, h.gone, h.notInitialThread⟩

/-- `free (prev)`. -/
theorem Landed.release (R : Rider ok X G strict paid) (h : Landed X p s) :
    Steady X (s.release p) := by
  have hheap : ∀ a ∈ s.allList, (s.release p).heap a = s.heap a := by
    intro a ha
    refine Function.update_of_ne ?_ _ _
    rintro rfl
    exact h.gone ha
  have hstat : ∀ a ∈ s.allList, (s.release p).statusOf a = s.statusOf a :=
    fun a ha => congrArg (Option.map Thread.status) (hheap a ha)
  have hmem : ∀ a, a ∈ s.allList ∨ a = s.threadRunningVar → a ∈ s.allList :=
    fun a ha => ha.elim id fun he => he ▸ h.member
  have hlinked : Linked (s.release p) := by
    refine ⟨h.readyNodup, h.esperaNodup, h.allNodup, fun a ha => ?_, fun a ha => ?_,
      fun a ha => ?_, fun a th ha => ?_, h.idle, h.initial, h.tids⟩
    · rw [hstat a (h.ready a ha).2.2]
      exact h.ready a ha
    · rw [hstat a (h.espera a ha).2.2]
      exact h.espera a ha
    · rw [hstat a ha]
      exact h.live a ha
    · simp only [State.release, State.log, Function.update_apply] at ha
      split_ifs at ha
      exact h.magic a th ha
  have hlike : Alike s (s.release p) := by
    refine ⟨rfl, rfl, rfl, rfl, rfl, rfl, rfl, rfl, State.ledger_log rfl _, fun a ha => ?_,
      fun a ha => ?_⟩
    · rw [State.tidOf, hheap a (hmem a ha), State.tidOf]
    · rw [State.durationOf, hheap a (hmem a ha), State.durationOf]
  obtain ⟨th, hth, hcur⟩ := h.current
  exact ⟨⟨hlinked, ⟨th, (hheap _ h.member).trans hth, hcur⟩, h.notInitial⟩, h.intr, h.member,
    R.alike hlike h.rides⟩

theorem Landed.threadScheduleTail (R : Rider ok X G strict paid) (h : Landed X p s) :
    Safe (interrupts ok) Fault.IsAssert G (PicoOS.threadScheduleTail (some p))
      (fun _ => Steady X) s := by
  have hG : ∀ s', Landed X p s' → G s' := fun s' hs' => R.good hs'.rides
  unfold PicoOS.threadScheduleTail
  refine safe_step (Landed.stable R) h hG fun s₁ h₁ => ⟨_, s₁, rfl, ?_⟩
  refine safe_step (P := fun s => Landed X p s ∧
    (s.threadRunningVar = s₁.threadRunningVar ∨ s.idleThread = some s₁.threadRunningVar)) ?_
    ⟨h₁, .inl rfl⟩ (fun s' hs' => hG s' hs'.1) fun s₂ h₂ => ?_
  · refine stable_of_shift (fun _ hs => hs.1.toMidway) fun s₃ s₄ hs hsh => ⟨hs.1.shift R hsh, ?_⟩
    rw [hsh.idle]
    rcases hs.2 with hcur | hidle
    · rcases hsh with hc | ht
      · exact .inl (hc.current.trans hcur)
      · cases ht with
        | create hb hname hok hi => exact .inr (hcur ▸ hi)
    · exact .inr hidle
  obtain ⟨h₃, hne, th, hth⟩ := h₂.1.setRunning R h₂.2
  refine ⟨(), s₂.setStatus s₁.threadRunningVar .running, stores_ok hth, ?_⟩
  refine safe_step (Landed.stable R) h₃ hG fun s₄ h₄ => ⟨(), _, rfl, ?_⟩
  refine safe_step (Landed.stable R) (h₄.newSlice R) hG fun s₅ h₅ => ⟨true, s₅, ?_, ?_⟩
  · obtain ⟨th', hth', hd⟩ := State.statusOf_eq_some.mp h₅.dying
    simp [derefs, status_ok hth', hd, h₅.notInitialThread, Except.map]
  refine safe_step (Landed.stable R) h₅ hG fun s₆ h₆ =>
    ⟨(), s₆, asserts_ok (congrArg Except.ok (bne_iff_ne.mpr hne)), ?_⟩
  refine Safe.step (Landed.stable R) h₆ hG fun s₇ h₇ => ⟨(), s₇.release p, ?_, ?_⟩
  · obtain ⟨th', hth', -⟩ := State.statusOf_eq_some.mp h₇.dying
    exact free_ok hth'
  · exact Safe.ret (R.good (h₇.release R).rides) (h₇.release R)

/-! ### Through the switch -/

theorem Exiting.schedule (R : Rider ok X G strict paid) (h : Exiting X t s) :
    Safe (interrupts ok) Fault.IsAssert G PicoOS.schedule (fun _ => Steady X)
      (s.setStatus t .dying) := by
  have hl : Linked (s.setStatus t .dying) :=
    h.toLinked.setStatus_off (h.cur ▸ h.not_ready) (h.cur ▸ h.not_espera) .dying
  have hd : (s.setStatus t .dying).statusOf t = some .dying := by
    rw [← h.cur]
    exact h.current.setCurrent_status .dying
  have hx : X (s.setStatus t .dying) := R.alike (.setStatus s t .dying) h.rides
  have hcur : (s.setStatus t .dying).threadRunningVar = t := h.cur
  have hgone : t ∉ (s.setStatus t .dying).allList := h.gone
  have hinit : t ≠ (s.setStatus t .dying).initialThread := h.worker.2
  have hintr : (s.setStatus t .dying).intrEnabled = true := h.intr
  generalize s.setStatus t .dying = v at *
  have hne : t ≠ v.succ := fun he => hgone (he ▸ hl.succ_spec.1)
  obtain ⟨th, hth, hst⟩ := State.statusOf_eq_some.mp hd
  obtain ⟨nx, hnx, hmagic⟩ := hl.switchable.heap
  have hhalt : th.status ≠ .running := by rw [hst]; decide
  have hset : (v.choose.setStatus v.succ .running).heap t = some th :=
    (State.setStatus_heap _ _ _ _).trans ((if_neg hne).trans hth)
  have hs₁ : Stuck v := ⟨hl, th, hcur ▸ hth, hhalt⟩
  have hs₂ : Stuck v.choose := ⟨hl.choose, th, hcur ▸ hth, hhalt⟩
  have hs₃ : Stuck (v.choose.setStatus v.succ .running) :=
    ⟨hl.choose.setStatus_off hl.succ_unlinked.1 hl.succ_unlinked.2 _, th, hcur ▸ hset, hhalt⟩
  have hG₁ : G v := R.good hx
  have hled : v.choose.ledger = v.ledger := State.ledger_log rfl _
  have hG₂ : G v.choose := R.goodLedger hled hG₁
  have hG₃ : G (v.choose.setStatus v.succ .running) := R.goodLedger (s := v) hled hG₁
  have hnext : nextOf v.readyList.isEmpty v = .ok (some v.succ, v.choose) := by
    rw [nextOf_ok, hl.switchable.succ]
  have hstat : (status v.threadRunningVar v.choose).map (· != .running) = .ok true := by
    rw [hcur, status_ok (show v.choose.heap t = some th from hth), hst]
    rfl
  have hlanded : Landed X t v.switched :=
    ⟨⟨⟨hl.switched, hl.switched_current, hl.succ_spec.2.1⟩, hintr, hl.succ_spec.1,
      R.switched hl (hcur ▸ hgone) hx⟩,
      (State.statusOf_setStatus _ _ _ _).trans ((if_neg hne).trans hd), hgone, hinit⟩
  unfold PicoOS.schedule
  refine safe_stuck hs₁ hG₁ (reads_runningThread v) ?_
  refine safe_stuck hs₁ hG₁ rfl (safe_stuck hs₁ hG₁ hnext ?_)
  refine safe_stuck hs₂ hG₂ (asserts_ok hstat) ?_
  refine safe_stuck hs₂ hG₂ (asserts_ok (isThread_ok hnx hmagic)) ?_
  dsimp only [Prog.bind]
  rw [if_pos (hcur ▸ hne)]
  refine safe_stuck hs₂ hG₂ (touches_ok (hcur ▸ hth)) (safe_stuck hs₂ hG₂ (touches_ok hnx) ?_)
  refine safe_stuck hs₂ hG₂ (stores_ok hnx) (safe_stuck hs₃ hG₃ rfl ?_)
  rw [hcur]
  exact hlanded.threadScheduleTail R

theorem Going.exitCurrent (R : Rider ok X G strict paid) (h : Going X paid t s) :
    Safe (interrupts ok) Fault.IsAssert G PicoOS.exitCurrent (fun _ => Steady X) s := by
  have hG : ∀ s', Going X paid t s' → G s' := fun s' hs' => R.good hs'.rides
  have hG' : ∀ s', Exiting X t s' → G s' := fun s' hs' => R.good hs'.rides
  have hm : ∀ s', Exiting X t s' → Midway s' ∧ s'.threadRunningVar = t :=
    fun s' hs' => ⟨hs'.toMidway, hs'.cur⟩
  unfold PicoOS.exitCurrent
  refine Safe.bind (safe_threadCurrent (fun _ => Going.stable R)
    (fun s' hs' => ⟨hs'.toMidway, hs'.cur⟩) hG h) ?_
  rintro _ s₁ ⟨rfl, h₁⟩
  refine safe_step (Going.stable R) h₁ hG fun s₂ h₂ => ⟨(), s₂.unregister, ?_, ?_⟩
  · obtain ⟨th, hth, -⟩ := h₂.current
    have hmem := h₂.cur ▸ h₂.member
    simp [removeAll, hmem, h₂.cur ▸ hth, State.unregister, State.tidOf, h₂.cur]
  refine Safe.bind (safe_threadCurrent (fun _ => Exiting.stable R) hm hG' (h₂.unregister R)) ?_
  rintro _ s₃ ⟨rfl, h₃⟩
  refine safe_step (Exiting.stable R) h₃ hG' fun s₄ h₄ =>
    ⟨(), s₄, h₄.cur ▸ h₄.current.touches, ?_⟩
  refine Safe.bind (safe_threadCurrent (fun _ => Exiting.stable R) hm hG' h₄) ?_
  rintro _ s₅ ⟨rfl, h₅⟩
  refine safe_step (Exiting.stable R) h₅ hG' fun s₆ h₆ => ⟨(), s₆.setStatus t .dying, ?_, ?_⟩
  · exact h₆.cur ▸ h₆.current.stores _
  · exact h₆.schedule R

/-! ### The way to `thread_exit` -/

/-- The current thread has no ticks left, if that matters. -/
def Spent (paid : Prop) (s : State) : Prop := paid → s.durationOf s.threadRunningVar ≤ 0

theorem Spent.calm (pc : Point) (s s' : State) (hs : Steady X s) (h : Spent paid s)
    (hc : Calm ok pc s s') : Spent paid s' :=
  fun hp => Int.le_trans (hc.duration_current hs.toMidway) (h hp)

/-- Where `paid` matters nothing takes over an idle thread without ticks. -/
theorem Spent.takeover (R : Rider ok X G strict paid) (hpc : pc ∈ exitPoints) (s s' : State)
    (_ : Steady X s) (h : Spent paid s) (ht : Takeover ok pc s s') : Spent paid s' := by
  intro hp
  cases ht with
  | create hb hname hok hi => exact absurd hok (R.exitCue hp hpc hname hi (h hp))

theorem Spent.stable (R : Rider ok X G strict paid) (hpc : pc ∈ exitPoints) :
    Stable (interrupts ok) Fault.IsAssert pc (fun s => Steady X s ∧ Spent paid s) := by
  refine stable_of_shift (fun _ h => h.1.toMidway) fun s₁ s₂ h hsh => ⟨h.1.shift R hsh, ?_⟩
  exact hsh.elim (Spent.calm pc s₁ s₂ h.1 h.2) (Spent.takeover R hpc s₁ s₂ h.1 h.2)

/-- If the condition of `thread_exit` holds, the current thread is a worker, and has no ticks left
if that matters. -/
theorem Steady.exitTest (R : Rider ok X G strict paid) (h : Steady X s) (hy : Spent paid s) :
    Safe (interrupts ok) Fault.IsAssert G PicoOS.exitTest (fun b s' => Steady X s' ∧
      (b = true → s'.worker s'.threadRunningVar ∧ Spent paid s')) s := by
  unfold PicoOS.exitTest
  refine Safe.bind (h.threadCurrent R Spent.calm (Spent.takeover R (by decide)) hy)
    fun t s₁ h₁ => ?_
  refine safe_step (Spent.stable R (by decide)) ⟨h₁.1, h₁.2.1⟩ (fun s' hs' => R.good hs'.1.rides)
    fun s₂ h₂ => ⟨decide (t ≠ s₂.initialThread), s₂, rfl, ?_⟩
  by_cases hinit : t ≠ s₂.initialThread
  · rw [if_pos (decide_eq_true hinit)]
    refine Safe.bind (h₂.1.threadCurrent R Spent.calm (Spent.takeover R (by decide)) h₂.2)
      fun t' s₃ h₃ => ?_
    refine Safe.step (Held.stable R Spent.calm) ⟨h₃.1, .inl ⟨h₃.2.2, h₃.2.1⟩⟩
      (fun s' hs' => R.good hs'.1.rides) fun s₄ h₄ => ⟨_, s₄, rfl, ?_⟩
    refine Safe.ret (R.good h₄.1.rides) ⟨h₄.1, fun hb => ?_⟩
    rcases h₄.2 with ⟨rfl, hy'⟩ | ⟨hi, -⟩
    · exact ⟨⟨(of_decide_eq_true hb).symm, h₄.1.notInitial⟩, hy'⟩
    · exact absurd hi.symm (of_decide_eq_true hb)
  · rw [if_neg (by simpa using hinit)]
    exact Safe.ret (R.good h₂.1.rides) ⟨h₂.1, nofun⟩

theorem Steady.threadExit (R : Rider ok X G strict paid) (h : Steady X s) (hy : Spent paid s) :
    Safe (interrupts ok) Fault.IsAssert G PicoOS.threadExit (fun _ => Steady X) s := by
  unfold PicoOS.threadExit
  refine Safe.bind (h.exitTest R hy) fun b s₁ h₁ => ?_
  cases b with
  | false => exact h₁.1.threadYield R
  | true =>
      obtain ⟨hw, hspent⟩ := h₁.2 rfl
      have hgoing : Going X paid s₁.threadRunningVar s₁ := ⟨h₁.1, rfl, hw, hspent⟩
      exact hgoing.exitCurrent R

/-! ### `after_interrupt` -/

/-- A thread read from `thread_current ()` stays registered. -/
theorem Steady.stable_mem (R : Rider ok X G strict paid) :
    Stable (interrupts ok) Fault.IsAssert pc (fun s => Steady X s ∧ t ∈ s.allList) :=
  stable_of_shift (fun _ h => h.1.toMidway) fun _ _ h hsh => ⟨h.1.shift R hsh, hsh.mem_all h.2⟩

/-- The thread at `t` was current.  If it has no ticks left, neither has the current thread. -/
theorem Held.spent_stable (R : Rider ok X G strict paid) (hpc : pc ∈ exitPoints) :
    Stable (interrupts ok) Fault.IsAssert pc (fun s => Held X (fun _ => True) t s ∧
      (s.durationOf t ≤ 0 → Spent paid s)) := by
  refine stable_of_shift (fun _ h => h.1.1.toMidway) fun s₁ s₂ h hsh =>
    ⟨h.1.shift R (fun _ _ _ _ _ _ => trivial) hsh, fun hle hp => ?_⟩
  have hmid := h.1.1.toMidway
  have hlive : s₁.statusOf t ≠ none := h.1.1.live t h.1.registered
  rcases hsh with hc | ht
  · by_cases hcur : s₁.threadRunningVar = t
    · rw [hc.current, hcur]
      exact hle
    · rw [hc.duration_other hmid hlive fun he => hcur he.symm] at hle
      exact Int.le_trans (hc.duration_current hmid) (h.2 hle hp)
  · rw [ht.duration hmid hlive] at hle
    cases ht with
    | create hb hname hok hi => exact absurd hok (R.exitCue hp hpc hname hi (h.2 hle hp))

theorem Steady.afterExpiry (R : Rider ok X G strict paid) (h : Steady X s) :
    Safe (interrupts ok) Fault.IsAssert G PicoOS.afterExpiry (fun _ => Steady X) s := by
  have hG : ∀ s', Steady X s' → G s' := fun s' hs' => R.good hs'.rides
  unfold PicoOS.afterExpiry
  refine Safe.bind (h.threadCurrent R (Y := fun _ => True) (fun _ _ _ _ _ _ => trivial)
    (fun _ _ _ _ _ => trivial) trivial) ?_
  rintro t s₁ ⟨h₁, -, rfl⟩
  refine safe_step (Held.spent_stable R (by decide)) ⟨⟨h₁, .inl ⟨rfl, trivial⟩⟩, fun hle _ => hle⟩
    (fun s' hs' => hG s' hs'.1.1) ?_
  rintro s₂ ⟨h₂, hspent⟩
  refine ⟨decide (s₂.durationOf s₁.threadRunningVar ≤ 0), s₂, ?_, ?_⟩
  · obtain ⟨th, hth, -⟩ := h₂.1.toLinked.heap_of_mem h₂.registered
    simp [derefs, durationTicks, State.load, State.durationOf, hth, Except.map]
  by_cases hle : s₂.durationOf s₁.threadRunningVar ≤ 0
  · rw [if_pos (decide_eq_true hle)]
    refine Safe.bind (h₂.1.threadCurrent R Spent.calm (Spent.takeover R (by decide)) (hspent hle)) ?_
    rintro t s₃ ⟨h₃, hy, rfl⟩
    refine safe_step (P := fun s => (Steady X s ∧ Spent paid s) ∧ s₃.threadRunningVar ∈ s.allList)
      ?_ ⟨⟨h₃, hy⟩, h₃.member⟩ (fun s' hs' => hG s' hs'.1.1) fun s₄ h₄ => ⟨(), s₄, ?_, ?_⟩
    · exact fun s i hs hi => ⟨(Spent.stable R (by decide) s i hs.1 hi).1, fun s' hs' =>
        ⟨(Spent.stable R (by decide) s i hs.1 hi).2 s' hs',
          ((Steady.stable_mem R s i ⟨hs.1.1, hs.2⟩ hi).2 s' hs').2⟩⟩
    · obtain ⟨th, hth, -⟩ := h₄.1.1.toLinked.heap_of_mem h₄.2
      exact touches_ok hth
    · exact h₄.1.1.threadExit R h₄.1.2
  · rw [if_neg (by simpa using hle)]
    refine safe_step (Steady.stable R) h₂.1 hG fun s₃ h₃ => ⟨_, s₃, rfl, ?_⟩
    split
    · refine safe_step (Steady.stable R) h₃ hG fun s₄ h₄ => ⟨_, s₄, rfl, ?_⟩
      split
      · exact h₄.threadYield R
      · exact Safe.ret (hG s₄ h₄) h₄
    · exact Safe.ret (hG s₃ h₃) h₃

theorem Steady.afterForced (R : Rider ok X G strict paid) (h : Steady X s) :
    Safe (interrupts ok) Fault.IsAssert G PicoOS.afterForced (fun _ => Steady X) s := by
  have hG : ∀ s', Steady X s' → G s' := fun s' hs' => R.good hs'.rides
  unfold PicoOS.afterForced
  refine safe_step (Steady.stable R) h hG fun s₁ h₁ => ⟨_, s₁, rfl, ?_⟩
  split
  next hasked =>
    have hunpaid : ¬ paid := fun hp => of_decide_eq_true hasked (R.unforced hp h₁.rides)
    refine Safe.bind (h₁.threadCurrent R (Y := fun _ => True) (fun _ _ _ _ _ _ => trivial)
      (fun _ _ _ _ _ => trivial) trivial) ?_
    rintro t s₂ ⟨h₂, -, rfl⟩
    refine safe_step (Steady.stable_mem R) ⟨h₂, h₂.member⟩ (fun s' hs' => hG s' hs'.1)
      fun s₃ h₃ => ⟨decide (s₃.durationOf s₂.threadRunningVar ≠ 0), s₃, ?_, ?_⟩
    · obtain ⟨th, hth, -⟩ := h₃.1.toLinked.heap_of_mem h₃.2
      simp [derefs, durationTicks, State.load, State.durationOf, hth, Except.map]
    split
    · refine Safe.bind (h₃.1.threadCurrent R (Y := fun _ => True) (fun _ _ _ _ _ _ => trivial)
        (fun _ _ _ _ _ => trivial) trivial) ?_
      rintro t s₄ ⟨h₄, -, rfl⟩
      refine safe_step (Steady.stable_mem R) ⟨h₄, h₄.member⟩ (fun s' hs' => hG s' hs'.1)
        fun s₅ h₅ => ⟨(), s₅, ?_, ?_⟩
      · obtain ⟨th, hth, -⟩ := h₅.1.toLinked.heap_of_mem h₅.2
        exact touches_ok hth
      refine Safe.bind (h₅.1.threadExit R fun hp => absurd hp hunpaid) fun _ s₆ h₆ => ?_
      refine Safe.step (Steady.stable R) h₆ hG fun s₇ h₇ => ⟨(), _, rfl, ?_⟩
      have hclear : Steady X { s₇ with threadExitOnReturn := 0 } :=
        ⟨⟨h₇.toLinked.frame rfl rfl rfl rfl rfl (Nat.le_refl _) h₇.magic (fun _ ha => ha)
          fun _ _ => rfl, h₇.current.of_heap rfl rfl, h₇.notInitial⟩, h₇.intr, h₇.member,
          R.clear h₇.rides⟩
      exact Safe.ret (hG _ hclear) hclear
    · exact Safe.ret (hG s₃ h₃.1) h₃.1
  next => exact Safe.ret (hG s₁ h₁) h₁

theorem Steady.afterInterrupt (R : Rider ok X G strict paid) (h : Steady X s) :
    Safe (interrupts ok) Fault.IsAssert G PicoOS.afterInterrupt (fun _ => Steady X) s := by
  unfold PicoOS.afterInterrupt
  refine Safe.bind (h.blockIfIdleThread R) fun _ s₁ h₁ => ?_
  exact Safe.bind (h₁.afterExpiry R) fun _ s₂ h₂ => h₂.afterForced R

/-- In every configuration the loop reaches `G` holds and nothing but an `ASSERT` can fail; at the
top of the loop the state is steady. -/
theorem Rider.loop (R : Rider ok X G strict paid) (h : Steady X s) {c : Code Unit × State}
    (hrun : LoopRun ok (.ret (), s) c) :
    G c.2 ∧ (∀ e, LoopFault (interrupts ok) loopTop c e → e.IsAssert) ∧
      (c.1 = .ret () → Steady X c.2) := by
  have hsafe := loop_safe (Steady.stable R) (fun _ hs => R.good hs.rides)
    (fun _ hs => hs.afterInterrupt R) h hrun
  refine ⟨hsafe.good, fun e he => hsafe.fault (Steady.stable R) he, fun hret => ?_⟩
  rw [hret] at hsafe
  exact hsafe.2

end Outline

/-! ## From the boot -/

theorem Booted.trace {s : State} (h : Booted s) : s.trace = [] := by
  obtain ⟨quantum, i, k, rfl⟩ := booted_iff.mp h
  exact (afterBoot_kept quantum i k).2.2.2.2.2

/-- The loop starts in a steady state. -/
theorem Booted.steady {X : State → Prop} {s : State} (h : Booted s) (hx : X s) : Steady X s :=
  ⟨h.inv.midway, Reachable.intr ⟨s, [], h, .nil s⟩, h.inv.registered _ h.inv.live_current, hx⟩

/-- The interrupt may come in, as far as the mask and the memory go. -/
def Intr.possible (s : State) (i : Intr) : Bool := s.intrEnabled && decide (Allowed s i.op)

theorem Intr.possible.enabled {ok : Point → State → Intr → Prop} {pc : Point} {s : State}
    {i : Intr} (h : i.possible s = true) (hok : ok pc s i) : (interrupts ok).enabled pc s i := by
  obtain ⟨hi, ha⟩ := Bool.and_eq_true_iff.mp h
  exact ⟨hi, of_decide_eq_true ha, hok⟩

end PicoOS
