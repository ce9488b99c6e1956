/-
# `PicoOS.Intrusive.Refines` — the links are the sequences

A machine belongs to a state of `Sched.State` when its globals are those of the
state and its links hold the three sequences (`Rel`).  Every statement of
`Intrusive.Code` takes related states to related states and fails the `ASSERT`
its counterpart fails (`Follows`), so every function mirrors its counterpart.

Two kinds of statements make up the code.  One that uses no list is *blind*: it
does on the bare globals what it does on the whole state.  One that calls
`list.c` is covered by the specification of that function over sequences; where
the function has none (an element linked twice, one unlinked that is in no list)
the state has a fault without a counterpart.

Two functions do not mirror their counterparts statement by statement, and only
their uninterrupted runs are compared: the scan of `lista_espera`, where the walk
over the links is more statements than that over a sequence, and `thread_create`,
where the machine clears memory: it must not be linked, and if it is, the
sequences fault later on.
-/
import PicoOS.Intrusive.Code
import PicoOS.Lib.Simulation
import PicoOS.Lists.Specs

namespace PicoOS.Intrusive

open Interruptible LinkedSeq

variable {α β : Type}

/-! ## The relation -/

/-- The sequences of cells that the lists of the state stand for. -/
def seqs (s : State) : Queue → List Cell
  | .readyList => s.readyList.map .elem
  | .listaEspera => s.listaEspera.map .elem
  | .allList => s.allList.map .allelem

/-- The machine holds the state. -/
structure Rel (s : State) (m : Machine) : Prop where
  globals : m.globals = s.bare
  holds : Holds m.links ends (seqs s)

/-- A failed `ASSERT` is one; the other faults of the state are about its sequences and its dead
threads. -/
def image : PicoOS.Fault → Option Fault
  | .assert function condition => some (.assert function condition)
  | _ => none

theorem image_isAssert {e : PicoOS.Fault} (h : e.IsAssert) : image e ≠ none := by
  cases e with
  | assert f c => exact Option.some_ne_none _
  | _ => exact h.elim

/-- The two programs mirror each other. -/
abbrev Mirror (p : PicoOS.Code α) (q : Code α) : Prop := Mirrors Rel image p q

/-- The two statements do the same. -/
abbrev Follow (act : State → Except PicoOS.Fault (β × State))
    (act' : Machine → Except Fault (β × Machine)) : Prop := Follows Rel image act act'

/-! ## Blind statements -/

/-- The lists of a state. -/
def lists (s : State) : List Addr × List Addr × List Addr :=
  (s.readyList, s.listaEspera, s.allList)

/-- The statement neither reads nor writes a list or the log; it may add to the log. -/
def Blind (act : State → Except PicoOS.Fault (β × State)) : Prop :=
  ∀ s, match act s with
    | .ok (b, s') => (∃ u, act s.bare = .ok (b, u) ∧ u.bare = s'.bare) ∧ lists s' = lists s
    | .error e => act s.bare = .error e

theorem seqs_of_lists {s s' : State} (h : lists s' = lists s) : seqs s' = seqs s := by
  simp only [lists, Prod.mk.injEq] at h
  obtain ⟨hr, he, ha⟩ := h
  funext q
  cases q with
  | readyList => simp only [seqs, hr]
  | listaEspera => simp only [seqs, he]
  | allList => simp only [seqs, ha]

theorem Blind.follow {act : State → Except PicoOS.Fault (β × State)} (h : Blind act) :
    Follow act (shared act) := by
  intro s m hR
  have hs := h s
  cases ha : act s with
  | ok r =>
      rw [ha] at hs
      obtain ⟨⟨u, hu, hbare⟩, hl⟩ := hs
      refine ⟨(r.1, { m with globals := u.bare, clean := rfl }), ?_, rfl, hbare, ?_⟩
      · simp only [shared, hR.globals, hu]
      · rw [seqs_of_lists hl]
        exact hR.holds
  | error e =>
      rw [ha] at hs
      intro d hd
      simp only [shared, hR.globals, hs]
      cases e with
      | assert f c =>
          cases hd
          rfl
      | _ => cases hd

theorem blind_reads {f : State → β} (h : ∀ s : State, f s.bare = f s) : Blind (reads f) := by
  intro s
  refine ⟨⟨s.bare, ?_, rfl⟩, rfl⟩
  simp only [reads, h]

theorem blind_derefs {f : State → Except PicoOS.Fault β} (h : ∀ s : State, f s.bare = f s) :
    Blind (derefs f) := by
  intro s
  simp only [derefs, h]
  cases f s with
  | ok b => exact ⟨⟨s.bare, rfl, rfl⟩, rfl⟩
  | error e => rfl

theorem blind_touches (t : Addr) : Blind (touches t) := by
  intro s
  have hload : s.bare.load t = s.load t := rfl
  simp only [touches, hload]
  cases s.load t with
  | ok th => exact ⟨⟨s.bare, rfl, rfl⟩, rfl⟩
  | error e => rfl

theorem blind_writes {f : State → State} (hf : ∀ s : State, (f s.bare).bare = (f s).bare)
    (hl : ∀ s, lists (f s) = lists s) : Blind (writes f) := fun s =>
  ⟨⟨f s.bare, rfl, hf s⟩, hl s⟩

theorem blind_stores (t : Addr) (f : Thread → Thread) : Blind (stores t f) := by
  intro s
  have hheap : s.bare.heap t = s.heap t := rfl
  simp only [stores, hheap]
  cases s.heap t with
  | some th => exact ⟨⟨_, rfl, rfl⟩, rfl⟩
  | none => rfl

theorem blind_asserts {f c : String} {p : State → Except PicoOS.Fault Bool}
    (h : ∀ s : State, p s.bare = p s) : Blind (asserts f c p) := by
  intro s
  simp only [asserts, h]
  cases p s with
  | ok b =>
      cases b with
      | true => exact ⟨⟨s.bare, rfl, rfl⟩, rfl⟩
      | false => rfl
  | error e => rfl

theorem blind_save : Blind saveAndDisableInterrupts := fun _ => ⟨⟨_, rfl, rfl⟩, rfl⟩

theorem blind_restore (oldLevel : Bool) : Blind (restoreInterrupts oldLevel) := fun _ =>
  ⟨⟨_, rfl, rfl⟩, rfl⟩

/-- A statement that goes by whether a thread is live. -/
theorem blind_live {t : Addr} {act : State → Except PicoOS.Fault (β × State)}
    {f : Thread → State → β × State}
    (hact : ∀ s, act s = match s.heap t with
      | some th => .ok (f th s)
      | none => .error .wild)
    (hf : ∀ th (s : State), (f th s.bare).1 = (f th s).1 ∧
      (f th s.bare).2.bare = (f th s).2.bare ∧ lists (f th s).2 = lists s) : Blind act := by
  intro s
  have hheap : s.bare.heap t = s.heap t := rfl
  rw [hact, hact, hheap]
  cases s.heap t with
  | some th =>
      obtain ⟨hval, hbare, hl⟩ := hf th s
      exact ⟨⟨(f th s.bare).2, congrArg Except.ok (Prod.ext hval rfl), hbare⟩, hl⟩
  | none => rfl

theorem blind_free (t : Addr) : Blind (free t) :=
  blind_live (t := t) (f := fun th s =>
    ((), { s with heap := Function.update s.heap t none }.log (.freed t th.tid)))
    (fun s => by unfold free; cases s.heap t <;> rfl) fun _ _ => ⟨rfl, rfl, rfl⟩

theorem blind_assignTid (t : Addr) : Blind (assignTid t) :=
  blind_live (t := t) (f := fun _ s => (s.nextTid,
      { s.mapThread t (fun th => { th with tid := s.nextTid }) with nextTid := s.nextTid + 1 }))
    (fun s => by unfold assignTid; cases s.heap t <;> rfl) fun _ _ => ⟨rfl, rfl, rfl⟩

theorem blind_assignDuration (t : Addr) (tid : Nat) (d : Int) : Blind (assignDuration t tid d) :=
  blind_live (t := t) (f := fun _ s => ((),
      (s.mapThread t fun th => { th with durationTicks := d }).log (.created t tid d)))
    (fun s => by unfold assignDuration; cases s.heap t <;> rfl) fun _ _ => ⟨rfl, rfl, rfl⟩

theorem blind_isThread (f c : String) (t : Option Addr) : Blind (asserts f c (isThread t)) := by
  refine blind_asserts fun s => ?_
  cases t with
  | none => rfl
  | some a => rfl

/-! ## Functions that use no list -/

/-- A blind statement, and what comes after it. -/
theorem mirror_blind {pc : Point} {act : State → Except PicoOS.Fault (β × State)}
    {k : β → PicoOS.Code α} {k' : β → Code α} (h : Blind act) (hk : ∀ b, Mirror (k b) (k' b)) :
    Mirror (.stmt pc act k) (.stmt pc (shared act) k') :=
  .stmt pc h.follow hk

theorem mirror_threadCurrent (site : Site) :
    Mirror (threadCurrent site) (embed (threadCurrent site)) :=
  mirror_blind (blind_reads fun _ => rfl) fun t =>
    mirror_blind (blind_isThread _ _ (some t)) fun _ =>
      mirror_blind (blind_asserts fun _ => rfl) fun _ => .ret t

theorem mirror_switchThreadsC (cur next : Addr) :
    Mirror (switchThreadsC cur next) (embed (switchThreadsC cur next)) :=
  mirror_blind (blind_touches cur) fun _ =>
    mirror_blind (blind_touches next) fun _ =>
      mirror_blind (blind_stores next _) fun _ =>
        mirror_blind (blind_writes (fun _ => rfl) fun _ => rfl) fun _ => .ret cur

theorem mirror_threadScheduleTail (prev : Option Addr) :
    Mirror (threadScheduleTail prev) (embed (threadScheduleTail prev)) := by
  refine mirror_blind (blind_reads fun _ => rfl) fun cur => ?_
  refine mirror_blind (blind_stores cur _) fun _ => ?_
  refine mirror_blind (blind_writes (fun _ => rfl) fun _ => rfl) fun _ => ?_
  cases prev with
  | none => exact .ret ()
  | some p =>
      refine mirror_blind (blind_derefs fun _ => rfl) fun dying => ?_
      cases dying with
      | false => exact .ret ()
      | true =>
          exact mirror_blind (blind_asserts fun _ => rfl) fun _ =>
            mirror_blind (blind_free p) fun _ => .ret ()

theorem embed_bind (f : α → PicoOS.Code β) :
    ∀ p : PicoOS.Code α, embed (p >>= f) = embed p >>= fun a => embed (f a)
  | .ret _ => rfl
  | .stmt pc act k => congrArg (Prog.stmt pc (shared act)) (funext fun b => embed_bind f (k b))

theorem mirror_embed {p : PicoOS.Code α} {f : α → PicoOS.Code β} (hp : Mirror p (embed p))
    (hf : ∀ a, Mirror (f a) (embed (f a))) : Mirror (p >>= f) (embed (p >>= f)) := by
  rw [embed_bind]
  exact hp.bind hf

theorem mirror_exitTest : Mirror exitTest (embed exitTest) := by
  refine mirror_embed (mirror_threadCurrent .exitTestInitial) fun t => ?_
  refine mirror_blind (blind_reads fun _ => rfl) fun notInitial => ?_
  cases notInitial with
  | false => exact .ret false
  | true =>
      show Mirror (threadCurrent .exitTestIdle >>= _) (embed (threadCurrent .exitTestIdle >>= _))
      refine mirror_embed (mirror_threadCurrent .exitTestIdle) fun t => ?_
      exact mirror_blind (blind_reads fun _ => rfl) fun b => .ret b

theorem mirror_allocFrame (t : Addr) (size : Nat) :
    Mirror (allocFrame t size) (embed (allocFrame t size)) :=
  mirror_blind (blind_isThread _ _ (some t)) fun _ =>
    mirror_blind (blind_asserts fun _ => rfl) fun _ => .ret ()

theorem mirror_threadTick : Mirror threadTick (embed threadTick) := by
  refine mirror_embed (mirror_threadCurrent .tickCur) fun t => ?_
  refine mirror_blind (blind_writes (fun s => ?_) fun s => ?_) fun _ => ?_
  · show (if some t = s.idleThread then _ else _ : State).bare =
      (if some t = s.idleThread then _ else _ : State).bare
    split_ifs <;> rfl
  · split_ifs <;> rfl
  refine mirror_blind (blind_writes (fun _ => rfl) fun _ => rfl) fun _ => ?_
  refine mirror_blind (blind_live (t := t) (f := fun th s => ((), (s.mapThread t fun th =>
    { th with durationTicks := th.durationTicks - 1 }).log (.charged t th.tid)))
    (fun s => ?_) fun _ _ => ⟨rfl, rfl, rfl⟩) fun _ => .ret ()
  cases s.heap t <;> rfl

theorem mirror_setThreadExitOnReturn :
    Mirror setThreadExitOnReturn (embed setThreadExitOnReturn) :=
  mirror_blind (blind_writes (fun _ => rfl) fun _ => rfl) fun _ => .ret ()

theorem mirror_scheduleSetQuantum (mode rrticks : Int32) :
    Mirror (scheduleSetQuantum mode rrticks) (embed (scheduleSetQuantum mode rrticks)) := by
  refine mirror_blind (blind_writes (fun s => ?_) fun s => ?_) fun _ => .ret ()
  · split_ifs <;> rfl
  · split_ifs <;> rfl

/-! ## Calls of `list.c` -/

section Lists

variable {s : State} {m : Machine} {t : Addr}

theorem mem_cells {c : Cell} {q : Queue} (hh : ∀ q, c ≠ .head q) (ht : ∀ q, c ≠ .tail q) :
    c ∈ (ends q).cells (seqs s q) ↔ c ∈ seqs s q := by
  simp [Ends.cells, ends, hh, ht]

/-- The `elem` of a thread that is in neither of the two lists that go through it. -/
theorem elem_free (h : s.linked t = false) (q : Queue) :
    Cell.elem t ∉ (ends q).cells (seqs s q) := by
  simp only [State.linked, Bool.or_eq_false_iff, List.contains_eq_mem, decide_eq_false_iff_not] at h
  rw [mem_cells (fun _ => Cell.noConfusion) fun _ => Cell.noConfusion]
  cases q with
  | readyList => simpa [seqs] using h.1
  | listaEspera => simpa [seqs] using h.2
  | allList => simp [seqs]

theorem allelem_free (h : t ∉ s.allList) (q : Queue) :
    Cell.allelem t ∉ (ends q).cells (seqs s q) := by
  rw [mem_cells (fun _ => Cell.noConfusion) fun _ => Cell.noConfusion]
  cases q with
  | allList => simpa [seqs] using h
  | _ => simp [seqs]

theorem seqs_ready (l : List Addr) :
    Function.update (seqs s) .readyList (l.map .elem) = seqs { s with readyList := l } := by
  funext q
  cases q <;> rfl

theorem seqs_espera (l : List Addr) :
    Function.update (seqs s) .listaEspera (l.map .elem) = seqs { s with listaEspera := l } := by
  funext q
  cases q <;> rfl

theorem seqs_all (l : List Addr) :
    Function.update (seqs s) .allList (l.map .allelem) = seqs { s with allList := l } := by
  funext q
  cases q <;> rfl

/-- A call of `list.c` by what it does to the sequences. -/
theorem onList_agrees {p : Lists.Code Cell β} {b : β} {s' : State} {cs : List Cell} (hR : Rel s m)
    (hbare : s'.bare = s.bare) (h : Lists.Leaves m.links ends p b (seqs s') cs) :
    Agrees (Same Rel) image (.ok (b, s')) (onList p m) := by
  obtain ⟨H, hrun, hholds, -⟩ := h
  refine ⟨(b, { m with links := H }), ?_, rfl, hR.globals.trans hbare.symm, hholds⟩
  simp only [onList, hrun]

/-- A call that only looks. -/
theorem onList_looks {p : Lists.Code Cell β} {b : β} (hR : Rel s m)
    (h : p m.links = .ok (b, m.links)) : Agrees (Same Rel) image (.ok (b, s)) (onList p m) :=
  onList_agrees hR rfl (.refl hR.holds h [])

theorem follow_readyEmpty : Follow (reads fun s => s.readyList.isEmpty) readyEmpty := by
  intro s m hR
  have hempty : decide (seqs s .readyList = []) = s.readyList.isEmpty := by
    cases h : s.readyList <;> simp [seqs, h]
  have hrun := Lists.listEmpty_ok hR.holds .readyList
  rw [hempty] at hrun
  exact onList_looks hR hrun

theorem follow_pushReady (t : Addr) : Follow (PicoOS.pushReady t) (pushReady t) := by
  intro s m hR
  unfold PicoOS.pushReady
  split_ifs with h
  · exact agrees_stray rfl
  · have hpush := Lists.listPushBack_leaves (i := .readyList) hR.holds
      (elem_free (Bool.eq_false_iff.mpr h))
    rw [show seqs s .readyList ++ [.elem t] = (s.readyList ++ [t]).map .elem by simp [seqs],
      seqs_ready] at hpush
    exact onList_agrees hR rfl hpush

theorem follow_pushEspera (t : Addr) : Follow (PicoOS.pushEspera t) (pushEspera t) := by
  intro s m hR
  unfold PicoOS.pushEspera
  split_ifs with h
  · exact agrees_stray rfl
  · have hpush := Lists.listPushBack_leaves (i := .listaEspera) hR.holds
      (elem_free (Bool.eq_false_iff.mpr h))
    rw [show seqs s .listaEspera ++ [.elem t] = (s.listaEspera ++ [t]).map .elem by simp [seqs],
      seqs_espera] at hpush
    exact onList_agrees hR rfl hpush

theorem follow_pushAll (t : Addr) : Follow (PicoOS.pushAll t) (pushAll t) := by
  intro s m hR
  unfold PicoOS.pushAll
  split_ifs with h
  · exact agrees_stray rfl
  · have hpush := Lists.listPushBack_leaves (i := .allList) hR.holds
      (allelem_free (by simpa using h))
    rw [show seqs s .allList ++ [.allelem t] = (s.allList ++ [t]).map .allelem by simp [seqs],
      seqs_all] at hpush
    exact onList_agrees hR rfl hpush

theorem follow_removeAll (t : Addr) : Follow (PicoOS.removeAll t) (removeAll t) := by
  intro s m hR
  unfold PicoOS.removeAll
  split_ifs with h
  · cases hth : s.heap t with
    | none => exact agrees_stray rfl
    | some th =>
        obtain ⟨ys, zs, -, hall, herase⟩ := List.exists_erase_eq (List.contains_iff_mem.mp h)
        have hx : seqs s .allList = ys.map .allelem ++ .allelem t :: zs.map .allelem := by
          simp [seqs, hall]
        have hremove := (Lists.listRemove_leaves hR.holds hx).returns (c := ())
        rw [← List.map_append, ← herase, seqs_all] at hremove
        exact onList_agrees hR rfl hremove
  · exact agrees_stray rfl

/-- `list_pop_front` of an empty list. -/
theorem popFront_empty {H : Links Cell} {xs : Queue → List Cell} {q : Queue}
    (h : Holds H ends xs) (hx : xs q = []) :
    Lists.listPopFront (listPtr q) H = .error (.assert "list_front" "!list_empty (list)") := by
  have hempty := Lists.listEmpty_ok h q
  rw [hx, decide_eq_true rfl] at hempty
  refine Fallible.bind_error ?_
  exact (Fallible.bind_ok hempty).trans (Fallible.bind_error rfl)

theorem follow_nextOf (empty : Bool) : Follow (PicoOS.nextOf empty) (nextOf empty) := by
  intro s m hR
  unfold PicoOS.nextOf nextOf
  split_ifs
  · rw [hR.globals]
    exact agrees_ok ⟨hR.globals, hR.holds⟩
  · cases hready : s.readyList with
    | nil =>
        have hx : seqs s .readyList = [] := by simp [seqs, hready]
        intro d hd
        cases hd
        simp only [onList, popFront_empty hR.holds hx]
        rfl
    | cons t rest =>
        have hx : seqs s .readyList = .elem t :: rest.map .elem := by simp [seqs, hready]
        have hpop := Lists.listPopFront_leaves hR.holds hx
        rw [seqs_ready] at hpop
        have hag : Agrees (Same Rel) image (.ok (some (.elem t),
            { s with readyList := rest }.log (.chosen (some t) (t :: rest))))
            (onList (Lists.listPopFront (listPtr .readyList)) m) := onList_agrees hR rfl hpop
        obtain ⟨⟨e, m'⟩, hrun, rfl, hR'⟩ := hag
        refine ⟨(some t, m'), ?_, rfl, hR'⟩
        rw [hrun]
        rfl

theorem follow_othersReady : Follow (reads fun s =>
    decide (s.roundRobinMode ≠ 0) && !s.readyList.isEmpty) othersReady := by
  intro s m hR
  have hmode : m.globals.roundRobinMode = s.roundRobinMode := by rw [hR.globals]; rfl
  obtain ⟨⟨b, m'⟩, hrun, rfl, hR'⟩ := follow_readyEmpty s m hR
  unfold othersReady reads
  rw [hmode, hrun]
  split_ifs with h
  · refine ⟨(!s.readyList.isEmpty, m'), rfl, ?_, hR'⟩
    simp [h]
  · refine ⟨(false, m), rfl, ?_, hR⟩
    simp [h]

end Lists

/-! ## Functions that use the lists -/

theorem mirror_nextThreadToRun : Mirror PicoOS.nextThreadToRun nextThreadToRun :=
  .stmt _ follow_readyEmpty fun empty => .stmt _ (follow_nextOf empty) fun next => .ret next

theorem mirror_schedule : Mirror PicoOS.schedule schedule := by
  refine mirror_blind (blind_reads fun _ => rfl) fun cur => ?_
  show Mirror (PicoOS.nextThreadToRun >>= _) (nextThreadToRun >>= _)
  refine mirror_nextThreadToRun.bind fun next => ?_
  refine mirror_blind (blind_asserts fun _ => rfl) fun _ => ?_
  refine mirror_blind (blind_isThread _ _ next) fun _ => ?_
  cases next with
  | none => exact .stmt _ (fun _ _ _ => agrees_stray rfl) fun _ => .ret ()
  | some next =>
      show Mirror (if cur ≠ next then _ else _) (if cur ≠ next then _ else _)
      split_ifs
      · exact (mirror_switchThreadsC cur next).bind fun prev => mirror_threadScheduleTail (some prev)
      · exact mirror_threadScheduleTail none

theorem mirror_threadBlock : Mirror PicoOS.threadBlock threadBlock := by
  refine mirror_blind blind_save fun oldLevel => ?_
  show Mirror (threadCurrent .blockStatus >>= _) (embed (threadCurrent .blockStatus) >>= _)
  refine (mirror_threadCurrent .blockStatus).bind fun t => ?_
  refine mirror_blind (blind_stores t _) fun _ => ?_
  show Mirror (PicoOS.schedule >>= _) (schedule >>= _)
  refine mirror_schedule.bind fun _ => ?_
  exact mirror_blind (blind_restore oldLevel) fun _ => .ret ()

theorem mirror_blockIfIdleThread : Mirror PicoOS.blockIfIdleThread blockIfIdleThread := by
  refine (mirror_threadCurrent .blockIfIdleTest).bind fun t => ?_
  refine mirror_blind (blind_reads fun _ => rfl) fun isIdle => ?_
  cases isIdle with
  | false => exact .ret ()
  | true => exact mirror_threadBlock

theorem mirror_yieldRequeue (cur : Addr) :
    Mirror (PicoOS.yieldRequeue cur) (yieldRequeue cur) := by
  refine mirror_blind (blind_reads fun _ => rfl) fun worker => ?_
  cases worker with
  | false => exact .ret ()
  | true =>
      show Mirror (threadCurrent .yieldPrintf >>= _) (embed (threadCurrent .yieldPrintf) >>= _)
      refine (mirror_threadCurrent .yieldPrintf).bind fun t => ?_
      refine mirror_blind (blind_touches t) fun _ => ?_
      exact .stmt _ (follow_pushReady cur) fun _ => .ret ()

theorem mirror_threadYield : Mirror PicoOS.threadYield threadYield := by
  refine (mirror_threadCurrent .yieldCur).bind fun cur => ?_
  refine mirror_blind blind_save fun oldLevel => ?_
  refine .stmt _ follow_readyEmpty fun empty => ?_
  cases empty with
  | true => exact mirror_blind (blind_restore oldLevel) fun _ => .ret ()
  | false =>
      show Mirror (PicoOS.yieldRequeue cur >>= _) (yieldRequeue cur >>= _)
      refine (mirror_yieldRequeue cur).bind fun _ => ?_
      refine mirror_blind (blind_stores cur _) fun _ => ?_
      show Mirror (PicoOS.schedule >>= _) (schedule >>= _)
      refine mirror_schedule.bind fun _ => ?_
      exact mirror_blind (blind_restore oldLevel) fun _ => .ret ()

theorem mirror_exitCurrent : Mirror PicoOS.exitCurrent exitCurrent := by
  refine (mirror_threadCurrent .exitUnlink).bind fun t => ?_
  refine .stmt _ (follow_removeAll t) fun _ => ?_
  show Mirror (threadCurrent .exitPrintf >>= _) (embed (threadCurrent .exitPrintf) >>= _)
  refine (mirror_threadCurrent .exitPrintf).bind fun t => ?_
  refine mirror_blind (blind_touches t) fun _ => ?_
  show Mirror (threadCurrent .exitDying >>= _) (embed (threadCurrent .exitDying) >>= _)
  refine (mirror_threadCurrent .exitDying).bind fun t => ?_
  exact mirror_blind (blind_stores t _) fun _ => mirror_schedule

theorem mirror_threadExit : Mirror PicoOS.threadExit threadExit := by
  refine mirror_exitTest.bind fun worker => ?_
  cases worker with
  | false => exact mirror_threadYield
  | true => exact mirror_exitCurrent

theorem mirror_threadUnblock (t : Addr) :
    Mirror (PicoOS.threadUnblock t) (threadUnblock t) := by
  refine mirror_blind (blind_isThread _ _ (some t)) fun _ => ?_
  refine mirror_blind (blind_asserts fun _ => rfl) fun _ => ?_
  refine .stmt _ (follow_pushReady t) fun _ => ?_
  exact mirror_blind (blind_stores t _) fun _ => .ret ()

theorem mirror_insertarEnListaEspera (ticks : Int32) :
    Mirror (PicoOS.insertarEnListaEspera ticks) (insertarEnListaEspera ticks) := by
  refine (mirror_threadCurrent .insertarCur).bind fun threadActual => ?_
  refine mirror_blind (blind_reads fun _ => rfl) fun now => ?_
  refine mirror_blind (blind_stores threadActual _) fun _ => ?_
  exact .stmt _ (follow_pushEspera threadActual) fun _ => mirror_threadBlock

theorem mirror_threadSleep (ticks : Int32) :
    Mirror (PicoOS.threadSleep ticks) (threadSleep ticks) := by
  refine mirror_blind (blind_reads fun _ => rfl) fun positive => ?_
  cases positive with
  | false => exact .ret ()
  | true =>
      show Mirror (threadCurrent .sleepPrintf >>= _) (embed (threadCurrent .sleepPrintf) >>= _)
      refine (mirror_threadCurrent .sleepPrintf).bind fun t => ?_
      exact mirror_blind (blind_touches t) fun _ => mirror_insertarEnListaEspera ticks

theorem mirror_timerSleep (ticks : Int32) :
    Mirror (PicoOS.timerSleep ticks) (timerSleep ticks) := by
  refine mirror_blind (blind_reads fun _ => rfl) fun positive => ?_
  cases positive with
  | false => exact .ret ()
  | true => exact mirror_insertarEnListaEspera ticks

theorem mirror_afterExpiry : Mirror PicoOS.afterExpiry afterExpiry := by
  refine (mirror_threadCurrent .afterExpired).bind fun t => ?_
  refine mirror_blind (blind_derefs fun _ => rfl) fun expired => ?_
  cases expired with
  | true =>
      show Mirror (threadCurrent .afterPrintf >>= _) (embed (threadCurrent .afterPrintf) >>= _)
      refine (mirror_threadCurrent .afterPrintf).bind fun t => ?_
      exact mirror_blind (blind_touches t) fun _ => mirror_threadExit
  | false =>
      refine .stmt _ follow_othersReady fun others => ?_
      cases others with
      | false => exact .ret ()
      | true =>
          refine mirror_blind (blind_reads fun _ => rfl) fun spent => ?_
          cases spent with
          | false => exact .ret ()
          | true => exact mirror_threadYield

theorem mirror_afterForced : Mirror PicoOS.afterForced afterForced := by
  refine mirror_blind (blind_reads fun _ => rfl) fun asked => ?_
  cases asked with
  | false => exact .ret ()
  | true =>
      show Mirror (threadCurrent .afterForcedDuration >>= _)
        (embed (threadCurrent .afterForcedDuration) >>= _)
      refine (mirror_threadCurrent .afterForcedDuration).bind fun t => ?_
      refine mirror_blind (blind_derefs fun _ => rfl) fun left => ?_
      cases left with
      | false => exact .ret ()
      | true =>
          show Mirror (threadCurrent .afterForcedPrintf >>= _)
            (embed (threadCurrent .afterForcedPrintf) >>= _)
          refine (mirror_threadCurrent .afterForcedPrintf).bind fun t => ?_
          refine mirror_blind (blind_touches t) fun _ => ?_
          show Mirror (PicoOS.threadExit >>= _) (threadExit >>= _)
          refine mirror_threadExit.bind fun _ => ?_
          exact mirror_blind (blind_writes (fun _ => rfl) fun _ => rfl) fun _ => .ret ()

theorem mirror_afterInterrupt : Mirror PicoOS.afterInterrupt afterInterrupt :=
  mirror_blockIfIdleThread.bind fun _ => mirror_afterExpiry.bind fun _ => mirror_afterForced

end PicoOS.Intrusive
