/-
# `PicoOS.Lists.WakeUp` — the wake-up scan over the linked threads

`remover_thread_durmiente` and `thread_unblock` at the level of the linked
structure: `lista_espera` and `ready_list` run through the `elem` fields of the
threads, and the loop takes a thread out of the list it walks and appends it to
the other one, through the same two links.

The invariant of the loop is that the heap holds the two lists, the walked one
split at the iterator, and that the threads still to come are as they were.  One
round is `listNext_ok` or `listRemove_leaves` with `listPushBack_leaves`; the
induction is on the threads still to come.
-/
import PicoOS.Lists.Specs
import PicoOS.Sched.State

namespace PicoOS.Lists

open Fallible LinkedSeq

/-! ## Threads in memory -/

/-- The fields of `struct thread` that are not list elements. -/
structure Fields where
  tid : Int32
  status : ThreadStatus
  name : Vector UInt8 16
  stack : UInt32
  priority : Int32
  truePriority : Int32
  sleepTime : UInt64
  registerSave : Vector UInt32 16
  durationTicks : Int32
  magic : UInt32
  deriving DecidableEq, Repr

/-- The links of all list elements, and the fields of the threads by their addresses. -/
structure Memory where
  links : Links Nat
  threads : Nat → Option Fields

/-- Code that reads and writes both. -/
abbrev ThreadCode (β : Type) := StateT Memory (Except Fault) β

/-- `&t->elem`. -/
def elem (t : Nat) : Nat := t + 44

/-- `list_entry (e, struct thread, elem)`. -/
def listEntry (e : Ptr Nat) : Ptr Nat := e.map (· - 44)

/-- A function of `list.c`, called from `thread.c`. -/
def onLinks {β : Type} (p : Code Nat β) : ThreadCode β := fun m =>
  match p m.links with
  | .ok (b, links) => .ok (b, { m with links })
  | .error fault => .error fault

/-- The fields of the thread at `t`. -/
def loads (t : Ptr Nat) : ThreadCode Fields := fun m =>
  match t.bind m.threads with
  | some th => .ok (th, m)
  | none => .error .null

/-- `t->status = status`. -/
def setStatus (t : Ptr Nat) (status : ThreadStatus) : ThreadCode Unit := fun m =>
  match t, t.bind m.threads with
  | some a, some th => .ok ((), { m with
      threads := Function.update m.threads a (some { th with status }) })
  | _, _ => .error .null

/-- `ASSERT (condition)`, in `thread.c`. -/
def ensures (function condition : String) (test : Bool) : ThreadCode Unit := fun m =>
  if test then .ok ((), m) else .error (.assert function condition)

/-! ## The code -/

/-- The two lists that go through `elem`. -/
inductive Queue where
  | listaEspera
  | readyList
  deriving DecidableEq, Repr

variable (L : Queue → Ends Nat)

/-- `is_thread (t)`. -/
def isThread (t : Ptr Nat) : ThreadCode Bool := do
  if t = none then return false
  else return (← loads t).magic == UInt32.ofNat threadMagic

/-- `thread_unblock (t)`. -/
def threadUnblock (t : Ptr Nat) : ThreadCode Unit := do
  ensures "thread_unblock" "is_thread (t)" (← isThread t)
  ensures "thread_unblock" "t->status == THREAD_BLOCKED" ((← loads t).status == .blocked)
  onLinks (listPushBack (some (L .readyList)) (t.map elem))
  setStatus t .ready

/-- `ticks >= sleep_time`: the `int` is converted to `uint64_t`. -/
def wakeTime (ticks : Int32) (sleepTime : UInt64) : Bool := sleepTime ≤ ticks.toInt64.toUInt64

/-- The loop of `remover_thread_durmiente`, at `iter`. -/
def removerLoop (ticks : Int32) : Nat → Ptr Nat → ThreadCode Unit
  | 0, _ => throw .rounds
  | n + 1, iter => do
      if iter ≠ (← onLinks (listEnd (some (L .listaEspera)))) then
        let threadListaEspera := listEntry iter
        if wakeTime ticks (← loads threadListaEspera).sleepTime then
          let iter ← onLinks (listRemove iter)
          threadUnblock L threadListaEspera
          removerLoop ticks n iter
        else
          let iter ← onLinks (listNext iter)
          removerLoop ticks n iter
      else return ()

/-- `remover_thread_durmiente (ticks)`, in at most `n` rounds. -/
def removerThreadDurmiente (n : Nat) (ticks : Int32) : ThreadCode Unit := do
  let iter ← onLinks (listBegin (some (L .listaEspera)))
  removerLoop L ticks n iter

/-! ## Running it -/

section Running

variable {β : Type} {m : Memory}

theorem onLinks_ok {p : Code Nat β} {b : β} {H : Links Nat} (h : p m.links = .ok (b, H)) :
    onLinks p m = .ok (b, { m with links := H }) := by
  show (match p m.links with
    | .ok (b, links) => Except.ok (b, { m with links })
    | .error fault => .error fault) = _
  rw [h]

theorem loads_ok {t : Nat} {th : Fields} (h : m.threads t = some th) :
    loads (some t) m = .ok (th, m) := by
  simp [loads, h]

theorem ensures_ok {f c : String} {test : Bool} (h : test = true) :
    ensures f c test m = .ok ((), m) :=
  if_pos h

end Running

/-! ## Sleepers -/

/-- The thread at `t` passes the checks of `thread_unblock`. -/
def Sleeper (threads : Nat → Option Fields) (t : Nat) : Prop :=
  ∃ th, threads t = some th ∧ th.status = .blocked ∧ th.magic = UInt32.ofNat threadMagic

/-- The deadline of the thread at `t` has been reached at tick `k`. -/
def due (threads : Nat → Option Fields) (k : Int32) (t : Nat) : Bool :=
  (threads t).elim false fun th => th.sleepTime.toNat ≤ k.toInt

/-- The threads, those among `ts` whose deadline has been reached being READY now. -/
def roused (threads : Nat → Option Fields) (k : Int32) (ts : List Nat) (t : Nat) :
    Option Fields :=
  if t ∈ ts ∧ due threads k t then (threads t).map ({ · with status := .ready }) else threads t

/-- The lists, by the threads they hold. -/
def queues (espera ready : List Nat) : Queue → List Nat
  | .listaEspera => espera.map elem
  | .readyList => ready.map elem

theorem wakeTime_eq {k : Int32} (hk : 0 ≤ k.toInt) (d : UInt64) :
    wakeTime k d = decide (d.toNat ≤ k.toInt) := by
  have hint : k.toInt64.toBitVec.toInt = k.toInt :=
    (Int64.toInt_toBitVec _).trans (Int32.toInt_toInt64 k)
  have hnat : (k.toInt64.toUInt64.toNat : Int) = k.toInt := by
    have hcond := BitVec.toInt_eq_toNat_cond k.toInt64.toBitVec
    have hlt := k.toInt64.toBitVec.isLt
    show (k.toInt64.toBitVec.toNat : Int) = k.toInt
    split at hcond <;> omega
  rw [wakeTime, decide_eq_decide, UInt64.le_iff_toNat_le]
  omega

theorem listEntry_elem (t : Nat) : listEntry (some (elem t)) = some t := by
  simp [listEntry, elem]

theorem queues_espera (espera ready espera' : List Nat) :
    Function.update (queues espera ready) .listaEspera (espera'.map elem) = queues espera' ready := by
  funext q
  cases q <;> rfl

theorem queues_ready (espera ready ready' : List Nat) :
    Function.update (queues espera ready) .readyList (ready'.map elem) = queues espera ready' := by
  funext q
  cases q <;> rfl

/-! ## One round -/

section Rounds

variable {L : Queue → Ends Nat} {m : Memory} {k : Int32} {stay rest ready : List Nat} {t : Nat}
  {th : Fields}

/-- The cells of the two lists. -/
def bothCells (L : Queue → Ends Nat) (espera ready : List Nat) : List Nat :=
  (L .listaEspera).cells (espera.map elem) ++ (L .readyList).cells (ready.map elem)

/-- A thread that changes lists takes its cell with it. -/
theorem bothCells_move (L : Queue → Ends Nat) (stay rest ready : List Nat) (t : Nat) :
    bothCells L (stay ++ rest) (ready ++ [t]) ⊆ bothCells L (stay ++ t :: rest) ready := by
  intro x hx
  simp only [bothCells, Ends.cells, List.map_append, List.map_cons, List.map_nil, List.mem_append,
    List.mem_cons] at hx ⊢
  tauto

/-- `thread_unblock` of a blocked thread that is on neither list. -/
theorem threadUnblock_ok {xs : Queue → List Nat} (h : Holds m.links L xs)
    (ht : m.threads t = some th) (hb : th.status = .blocked)
    (hm : th.magic = UInt32.ofNat threadMagic) (hout : ∀ q, elem t ∉ (L q).cells (xs q)) :
    ∃ H', threadUnblock L (some t) m =
        .ok ((), ⟨H', Function.update m.threads t (some { th with status := .ready })⟩) ∧
      Holds H' L (Function.update xs .readyList (xs .readyList ++ [elem t])) ∧
      m.links.SameOff H' (elem t :: (L .readyList).cells (xs .readyList)) := by
  obtain ⟨H', hpush, hholds, hoff⟩ := listPushBack_leaves (i := .readyList) h hout
  have hthread : isThread (some t) m = .ok (true, m) := by
    unfold isThread
    rw [if_neg (Option.some_ne_none t), bind_ok (loads_ok ht), hm, beq_self_eq_true]
    rfl
  refine ⟨H', ?_, hholds, hoff⟩
  unfold threadUnblock
  rw [bind_ok hthread, bind_ok (ensures_ok rfl), bind_ok (loads_ok ht),
    bind_ok (ensures_ok (beq_iff_eq.mpr hb)), Option.map_some,
    bind_ok (onLinks_ok hpush)]
  simp [setStatus, ht]

/-- A round at a thread that stays. -/
theorem removerLoop_pass (h : Holds m.links L (queues (stay ++ t :: rest) ready))
    (ht : m.threads t = some th) (hd : wakeTime k th.sleepTime = false) (n : Nat) :
    removerLoop L k (n + 1) (some (elem t)) m =
      removerLoop L k n ((L .listaEspera).at (rest.map elem)) m := by
  have hx : queues (stay ++ t :: rest) ready .listaEspera =
      stay.map elem ++ elem t :: rest.map elem := List.map_append
  rw [removerLoop, bind_ok (onLinks_ok (listEnd_ok m.links (L .listaEspera))),
    if_pos (h.ne_tail hx), listEntry_elem, bind_ok (loads_ok ht), hd,
    if_neg Bool.false_ne_true, bind_ok (onLinks_ok (listNext_ok h hx))]

/-- A round at a thread whose time has come. -/
theorem removerLoop_wake (h : Holds m.links L (queues (stay ++ t :: rest) ready))
    (ht : m.threads t = some th) (hb : th.status = .blocked)
    (hm : th.magic = UInt32.ofNat threadMagic) (hd : wakeTime k th.sleepTime = true) (n : Nat) :
    ∃ H', removerLoop L k (n + 1) (some (elem t)) m =
        removerLoop L k n ((L .listaEspera).at (rest.map elem))
          ⟨H', Function.update m.threads t (some { th with status := .ready })⟩ ∧
      Holds H' L (queues (stay ++ rest) (ready ++ [t])) ∧
      m.links.SameOff H' (bothCells L (stay ++ t :: rest) ready) := by
  have hx : queues (stay ++ t :: rest) ready .listaEspera =
      stay.map elem ++ elem t :: rest.map elem := List.map_append
  have hx' : queues (stay ++ t :: rest) ready .listaEspera =
      stay.map elem ++ [elem t] ++ rest.map elem := by simpa using hx
  obtain ⟨H₁, hremove, hholds₁, hoff₁⟩ := listRemove_leaves h hx
  have hloose := (h.apart.cut hx').2
  rw [← List.map_append, queues_espera] at hholds₁ hloose
  -- Out of one list and not yet in the other, the element is in neither.
  obtain ⟨H₂, hunblock, hholds₂, hoff₂⟩ := threadUnblock_ok (m := ⟨H₁, m.threads⟩) hholds₁ ht hb hm
    fun q => hloose.disjoint q (List.mem_singleton_self _)
  refine ⟨H₂, ?_, ?_, ?_⟩
  · rw [removerLoop, bind_ok (onLinks_ok (listEnd_ok m.links (L .listaEspera))),
      if_pos (h.ne_tail hx), listEntry_elem, bind_ok (loads_ok ht), hd, if_pos rfl,
      bind_ok (onLinks_ok hremove), bind_ok hunblock]
  · have hready : queues (stay ++ rest) ready .readyList ++ [elem t] = (ready ++ [t]).map elem := by
      simp [queues]
    rwa [hready, queues_ready] at hholds₂
  · refine (hoff₁.mono ?_).trans (hoff₂.mono ?_)
    · exact List.subset_append_left _ _
    · intro x hin
      rcases List.mem_cons.mp hin with rfl | hin
      · refine List.mem_append_left _ (List.mem_cons_of_mem _ (List.mem_append_left _ ?_))
        exact List.mem_map_of_mem (List.mem_append_right _ (List.mem_cons_self ..))
      · exact List.mem_append_right _ hin

end Rounds

/-! ## The whole scan -/

section Scan

variable {L : Queue → Ends Nat} {k : Int32}

/-- A change of status moves no deadline. -/
theorem due_update {threads : Nat → Option Fields} {t : Nat} {th : Fields}
    (ht : threads t = some th) (st : ThreadStatus) :
    due (Function.update threads t (some { th with status := st })) k = due threads k := by
  funext x
  by_cases hx : x = t
  · subst hx
    simp [due, ht]
  · simp [due, Function.update_of_ne hx]

theorem due_eq {threads : Nat → Option Fields} {t : Nat} {th : Fields} (hk : 0 ≤ k.toInt)
    (ht : threads t = some th) : due threads k t = wakeTime k th.sleepTime := by
  rw [wakeTime_eq hk, due, ht]
  rfl

/-- The first thread stays as it is: the others are to be roused. -/
theorem roused_pass {threads : Nat → Option Fields} {t : Nat} {rest : List Nat}
    (hd : due threads k t = false) : roused threads k (t :: rest) = roused threads k rest := by
  funext x
  by_cases hx : x = t
  · subst hx
    simp [roused, hd]
  · simp [roused, hx]

/-- The first thread is roused, then the others. -/
theorem roused_wake {threads : Nat → Option Fields} {t : Nat} {th : Fields} {rest : List Nat}
    (ht : threads t = some th) (hd : due threads k t = true) (hn : t ∉ rest) :
    roused (Function.update threads t (some { th with status := .ready })) k rest =
      roused threads k (t :: rest) := by
  funext x
  rw [roused, roused, due_update ht]
  by_cases hx : x = t
  · subst hx
    simp [hn, hd, ht]
  · simp [hx]

/-- What the loop leaves when it is at `rest`, `stay` being behind it. -/
structure Scanned (L : Queue → Ends Nat) (k : Int32) (stay rest ready : List Nat)
    (m m' : Memory) : Prop where
  holds : Holds m'.links L (queues (stay ++ rest.filter fun t => !due m.threads k t)
    (ready ++ rest.filter (due m.threads k)))
  off : m.links.SameOff m'.links (bothCells L (stay ++ rest) ready)
  threads : m'.threads = roused m.threads k rest

/-- A thread is on the list once. -/
theorem notMem_rest {m : Memory} {stay rest ready : List Nat} {t : Nat}
    (h : Holds m.links L (queues (stay ++ t :: rest) ready)) : t ∉ rest := by
  intro hin
  have hcells := h.apart.nodup .listaEspera
  simp only [queues, Ends.cells, List.map_append, List.map_cons] at hcells
  have hinner := (List.nodup_append.mp (List.nodup_cons.mp hcells).2).1
  exact (List.nodup_cons.mp (List.nodup_append.mp hinner).2.1).1 (List.mem_map_of_mem hin)

/-- A thread that stays, and the scan of the rest. -/
theorem Scanned.pass {stay rest ready : List Nat} {t : Nat} {m m' : Memory}
    (hd : due m.threads k t = false) (h : Scanned L k (stay ++ [t]) rest ready m m') :
    Scanned L k stay (t :: rest) ready m m' := by
  refine ⟨?_, ?_, ?_⟩
  · simpa [hd] using h.holds
  · simpa using h.off
  · rw [roused_pass hd]
    exact h.threads

/-- A thread that is woken, and the scan of the rest. -/
theorem Scanned.wake {stay rest ready : List Nat} {t : Nat} {th : Fields} {m m' : Memory}
    {H' : Links Nat} (ht : m.threads t = some th) (hd : due m.threads k t = true) (hn : t ∉ rest)
    (hoff : m.links.SameOff H' (bothCells L (stay ++ t :: rest) ready))
    (h : Scanned L k stay rest (ready ++ [t])
      ⟨H', Function.update m.threads t (some { th with status := .ready })⟩ m') :
    Scanned L k stay (t :: rest) ready m m' := by
  refine ⟨?_, ?_, ?_⟩
  · have hfinal := h.holds
    simp only [due_update ht] at hfinal
    simpa only [hd, List.filter_cons, Bool.not_true, Bool.false_eq_true, if_false, if_true,
      List.append_assoc, List.singleton_append] using hfinal
  · exact hoff.trans (h.off.mono (bothCells_move L stay rest ready t))
  · rw [← roused_wake ht hd hn]
    exact h.threads

theorem removerLoop_scans (hk : 0 ≤ k.toInt) : ∀ {rest stay ready : List Nat} {m : Memory} {n : Nat},
    Holds m.links L (queues (stay ++ rest) ready) → (∀ t ∈ rest, Sleeper m.threads t) →
    rest.length < n →
    ∃ m', removerLoop L k n ((L .listaEspera).at (rest.map elem)) m = .ok ((), m') ∧
      Scanned L k stay rest ready m m' := by
  intro rest
  induction rest with
  | nil =>
      intro stay ready m n h _ hn
      obtain ⟨n, rfl, -⟩ := another_round hn
      refine ⟨m, ?_, ?_, fun _ _ => ⟨rfl, rfl⟩, ?_⟩
      · rw [removerLoop, bind_ok (onLinks_ok (listEnd_ok m.links (L .listaEspera))),
          List.map_nil, Ends.at_nil, if_neg (fun hne => hne rfl)]
        rfl
      · simpa using h
      · funext x
        simp [roused]
  | cons t rest ih =>
      intro stay ready m n h hs hn
      obtain ⟨n, rfl, hn'⟩ := another_round hn
      have hs' : ∀ x ∈ rest, Sleeper m.threads x := fun x hx => hs x (List.mem_cons_of_mem _ hx)
      obtain ⟨th, ht, hb, hm⟩ := hs t (List.mem_cons_self ..)
      have hdue := due_eq hk ht
      rw [List.map_cons, Ends.at_cons]
      cases hd : wakeTime k th.sleepTime with
      | false =>
          have h' : Holds m.links L (queues ((stay ++ [t]) ++ rest) ready) := by
            rwa [List.append_assoc, List.singleton_append]
          obtain ⟨m', hrun, hscan⟩ := ih h' hs' hn'
          exact ⟨m', (removerLoop_pass h ht hd n).trans hrun, hscan.pass (hdue.trans hd)⟩
      | true =>
          have hnot := notMem_rest h
          obtain ⟨H', hround, hholds, hoff⟩ := removerLoop_wake h ht hb hm hd n
          have hs'' : ∀ x ∈ rest, Sleeper
              (Function.update m.threads t (some { th with status := .ready })) x := by
            intro x hx
            have hne : x ≠ t := fun he => hnot (he ▸ hx)
            rw [Sleeper, Function.update_of_ne hne]
            exact hs' x hx
          obtain ⟨m', hrun, hscan⟩ :=
            ih (m := ⟨H', Function.update m.threads t (some { th with status := .ready })⟩)
              hholds hs'' hn'
          exact ⟨m', hround.trans hrun, hscan.wake ht (hdue.trans hd) hnot hoff⟩

/-- `remover_thread_durmiente (k)` takes the threads whose time has come out of `lista_espera`, and
appends them to `ready_list` in the order in which they slept.  No `ASSERT` fails; no link outside
the two lists is written, and no field but the status of these threads. -/
theorem wake_up_scan {m : Memory} {espera ready : List Nat} {n : Nat}
    (hholds : Holds m.links L (queues espera ready)) (hsleep : ∀ t ∈ espera, Sleeper m.threads t)
    (hk : 0 ≤ k.toInt) (hn : espera.length < n) :
    ∃ m', removerThreadDurmiente L n k m = .ok ((), m') ∧
      Holds m'.links L (queues (espera.filter fun t => !due m.threads k t)
        (ready ++ espera.filter (due m.threads k))) ∧
      m.links.SameOff m'.links (bothCells L espera ready) ∧
      m'.threads = roused m.threads k espera := by
  have hholds' : Holds m.links L (queues ([] ++ espera) ready) := hholds
  obtain ⟨m', hrun, hscan⟩ := removerLoop_scans hk hholds' hsleep hn
  refine ⟨m', ?_, hscan.holds, hscan.off, hscan.threads⟩
  unfold removerThreadDurmiente
  rw [bind_ok (onLinks_ok (listBegin_ok hholds .listaEspera))]
  exact hrun

end Scan

/-- Two threads asleep until 5 and 9, at tick 7: the first is woken. -/
theorem wake_up_scan_two_sleepers :
    let asleep : UInt64 → Fields := fun d =>
      ⟨3, .blocked, .replicate 16 0, 0, 0, 0, d, .replicate 16 0, 10, UInt32.ofNat threadMagic⟩
    let L : Queue → Ends Nat := fun
      | .listaEspera => ⟨0, 1⟩
      | .readyList => ⟨2, 3⟩
    let m : Memory := ⟨⟨fun x => if x = 0 then some 1044 else if x = 1044 then some 2044
        else if x = 2044 then some 1 else if x = 2 then some 3 else none,
      fun x => if x = 1 then some 2044 else if x = 2044 then some 1044
        else if x = 1044 then some 0 else if x = 3 then some 2 else none⟩,
      fun t => if t = 1000 then some (asleep 5) else if t = 2000 then some (asleep 9) else none⟩
    ∃ m', removerThreadDurmiente L 3 7 m = .ok ((), m') ∧
      Holds m'.links L (queues [2000] [1000]) ∧ m'.threads 2000 = some (asleep 9) := by
  intro asleep L m
  have hholds : Holds m.links L (queues [1000, 2000] []) := by
    refine ⟨⟨fun q => ?_, fun q q' hq => ?_⟩, fun q => ⟨?_, ?_, ?_, ?_⟩⟩
    · cases q <;> decide
    · cases q <;> cases q' <;>
        first | exact absurd rfl hq | simp [L, Ends.cells, queues, elem]
    all_goals
      cases q <;> simp [m, L, Ends.cells, queues, elem]
  have hsleep : ∀ t ∈ [1000, 2000], Sleeper m.threads t := by
    intro t ht
    rcases List.mem_pair.mp ht with rfl | rfl
    · exact ⟨asleep 5, rfl, rfl, rfl⟩
    · exact ⟨asleep 9, rfl, rfl, rfl⟩
  obtain ⟨m', hrun, hqueues, -, hthreads⟩ :=
    wake_up_scan (k := 7) (n := 3) hholds hsleep (by decide) (by decide)
  refine ⟨m', hrun, hqueues, ?_⟩
  rw [hthreads]
  rfl

end PicoOS.Lists
