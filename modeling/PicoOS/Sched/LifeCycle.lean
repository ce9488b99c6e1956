/-
# `PicoOS.Sched.LifeCycle` — from `init_thread` to `free`

A thread is registered by `init_thread`, unlinked from `all_list` by
`thread_exit`, and freed by `thread_schedule_tail` on behalf of the thread that
runs next.  `Registry` says what `all_list` is in terms of the log: the threads
born, less those that left, in the order of their birth and so of their `tid`s;
and that the threads freed are the threads that left, each of them once.

Where the memory of a thread is freed is a question about single statements, and
`Every` asks it of every statement of every call: the one at the end of
`thread_schedule_tail` is the only one after which a thread is no longer there,
and nothing refers to that thread any more (`every_frees`).
-/
import PicoOS.Sched.Queues

namespace PicoOS

open Interruptible Runs

/-! ## The boot, with its log -/

/-- A state `main` is in after its boot. -/
def Launched (s : State) : Prop :=
  ∃ quantum block k, (boot quantum block k).run powerOn = .ok ((), s)

/-- A state `main` is in between two calls of its boot: after `thread_init`, or after
`thread_start` and `k` ticks. -/
inductive Booting : State → Prop
  | init {quantum : Option Int32} {s : State}
      (h : (do setUserQuantum quantum; threadInit : Code Unit).run powerOn = .ok ((), s)) :
      Booting s
  | start {quantum : Option Int32} {block k : Nat} {s : State}
      (h : (do
        setUserQuantum quantum
        threadInit
        threadStart (some block)
        (List.replicate k ()).forM fun _ => timerInterrupt : Code Unit).run powerOn = .ok ((), s)) :
      Booting s

/-! ## The property -/

/-- The threads initialised, with their `tid`s, oldest first: `initial_thread` by `thread_init`,
the others by `thread_create`. -/
def bornIn (tr : List Obs) : List (Addr × Nat) :=
  (.stackPage, 1) :: tr.filterMap fun o => match o with
    | .created a tid _ => some (a, tid)
    | _ => none

/-- The threads that took the exit path of `thread_exit`, oldest first. -/
def leftIn (tr : List Obs) : List (Addr × Nat) :=
  tr.filterMap fun o => match o with
    | .exited a tid => some (a, tid)
    | _ => none

/-- The threads that were freed, oldest first. -/
def releasedIn (tr : List Obs) : List (Addr × Nat) :=
  tr.filterMap fun o => match o with
    | .freed a tid => some (a, tid)
    | _ => none

/-- Whoever leaves `all_list` is freed by the next switch, before anything else happens. -/
def Prompt : List Obs → Prop
  | [] => True
  | .exited a tid :: rest =>
      (∃ next ready succ after,
        rest = .chosen next ready :: .switched succ :: .freed a tid :: after) ∧ Prompt rest
  | _ :: rest => Prompt rest

/-- `all_list` is what the log says it is. -/
structure Registry (s : State) : Prop where
  /-- The threads born and not gone, in the order of their birth. -/
  all : s.allList.map (fun a => (a, s.tidOf a)) =
    (bornIn s.trace).filter fun p => decide (p ∉ leftIn s.trace)
  increasing : (s.allList.map s.tidOf).Pairwise (· < ·)
  bounded : ∀ a ∈ s.allList, s.tidOf a < s.nextTid
  /-- Who left was freed, in that order. -/
  released : releasedIn s.trace = leftIn s.trace
  once : (leftIn s.trace).Nodup
  prompt : Prompt s.trace
  leftBounded : ∀ p ∈ leftIn s.trace, p.2 < s.nextTid

/-- What holds of `all_list` between two calls. -/
structure LifeCycle (s : State) : Prop extends Registry s where
  nodup : s.allList.Nodup
  initial : s.initialThread ∈ s.allList
  idle : ∀ i, s.idleThread = some i → i ∈ s.allList

/-- No list and no variable refers to the thread at `a`. -/
structure State.Forgotten (s : State) (a : Addr) : Prop where
  ready : a ∉ s.readyList
  espera : a ∉ s.listaEspera
  all : a ∉ s.allList
  running : a ≠ s.threadRunningVar
  idle : s.idleThread ≠ some a
  initial : a ≠ s.initialThread

/-- What a statement may do to a thread's memory: only the `free` of `thread_schedule_tail` gives
it back, and only that of a thread that has left and is referred to by nothing. -/
def Frees (pc : Point) (s s' : State) : Prop :=
  ∀ a, s.heap a ≠ none → s'.heap a = none → pc = ⟨.tailFree, .body⟩ ∧
    (a, s.tidOf a) ∈ leftIn s.trace ∧ s.Forgotten a

/-! ## The registry, move by move -/

section Logs

theorem bornIn_append (tr l : List Obs) : bornIn (tr ++ l) = bornIn tr ++ (bornIn l).tail := by
  simp [bornIn]

theorem leftIn_append (tr l : List Obs) : leftIn (tr ++ l) = leftIn tr ++ leftIn l :=
  List.filterMap_append ..

theorem releasedIn_append (tr l : List Obs) :
    releasedIn (tr ++ l) = releasedIn tr ++ releasedIn l :=
  List.filterMap_append ..

theorem prompt_append {tr l : List Obs} (ht : Prompt tr) (hl : Prompt l) : Prompt (tr ++ l) := by
  induction tr with
  | nil => exact hl
  | cons o rest ih =>
      cases o with
      | exited a tid =>
          obtain ⟨⟨next, ready, succ, after, rfl⟩, hrest⟩ := ht
          exact ⟨⟨next, ready, succ, after ++ l, rfl⟩, ih hrest⟩
      | _ => exact ih ht

theorem prompt_suffix {tr l : List Obs} (h : Prompt (tr ++ l)) : Prompt l := by
  induction tr with
  | nil => exact h
  | cons o rest ih =>
      cases o with
      | exited a tid => exact ih h.2
      | _ => exact ih h

theorem prompt_of_nobody_left {l : List Obs} (h : leftIn l = []) : Prompt l := by
  induction l with
  | nil => trivial
  | cons o rest ih =>
      cases o with
      | exited a tid => cases h
      | _ => exact ih h

/-- `schedule` logs nothing of a thread's life but its end. -/
theorem dispatchLog_life (s : State) :
    (bornIn s.dispatchLog).tail = [] ∧ leftIn s.dispatchLog = [] ∧
      releasedIn s.dispatchLog = if s.reaped s.threadRunningVar then
        [(s.threadRunningVar, s.tidOf s.threadRunningVar)] else [] := by
  unfold State.dispatchLog
  split_ifs <;> simp [bornIn, leftIn, releasedIn]

/-- `schedule`, called by a thread that has exited. -/
theorem State.dispatchLog_reaped {m : State} (h : m.reaped m.threadRunningVar) :
    m.dispatchLog = [.chosen m.next m.readyList, .switched m.succ,
      .freed m.threadRunningVar (m.tidOf m.threadRunningVar)] := by
  rw [State.dispatchLog, if_neg h.2.1, if_pos h]
  rfl

end Logs

/-- A thread that stops and is not DYING is not freed. -/
theorem State.not_reaped {m : State} {st : ThreadStatus}
    (hst : m.statusOf m.threadRunningVar = some st) (hd : st ≠ .dying) (a : Addr) :
    ¬ m.reaped a := by
  rintro ⟨rfl, -, hr, -⟩
  rw [hst] at hr
  exact hd (Option.some.inj hr)

namespace Registry

open State

variable {s t : State}

/-- A step that logs nothing of a thread's life, and keeps `all_list`. -/
theorem extend (h : Registry s) (l : List Obs) (htr : t.trace = s.trace ++ l)
    (hb : (bornIn l).tail = []) (hl : leftIn l = []) (hr : releasedIn l = [])
    (ha : t.allList = s.allList) (htid : ∀ a ∈ s.allList, t.tidOf a = s.tidOf a)
    (hn : t.nextTid = s.nextTid) : Registry t := by
  have hborn : bornIn t.trace = bornIn s.trace := by
    rw [htr, bornIn_append, hb, List.append_nil]
  have hleft : leftIn t.trace = leftIn s.trace := by
    rw [htr, leftIn_append, hl, List.append_nil]
  have hrel : releasedIn t.trace = releasedIn s.trace := by
    rw [htr, releasedIn_append, hr, List.append_nil]
  have hmap : ∀ {β : Type} (f : Addr → Nat → β), t.allList.map (fun a => f a (t.tidOf a)) =
      s.allList.map fun a => f a (s.tidOf a) := by
    intro β f
    rw [ha]
    exact List.map_congr_left fun a hm => by rw [htid a hm]
  refine ⟨?_, ?_, ?_, ?_, ?_, ?_, ?_⟩
  · rw [hborn, hleft, hmap fun a n => (a, n)]
    exact h.all
  · rw [hmap fun _ n => n]
    exact h.increasing
  · intro a hm
    rw [ha] at hm
    rw [htid a hm, hn]
    exact h.bounded a hm
  · rw [hrel, hleft]
    exact h.released
  · rw [hleft]
    exact h.once
  · rw [htr]
    exact prompt_append h.prompt (prompt_of_nobody_left hl)
  · rw [hleft, hn]
    exact h.leftBounded

/-- A step that leaves the log and `all_list` alone. -/
theorem same (h : Registry s) (htr : t.trace = s.trace) (ha : t.allList = s.allList)
    (htid : ∀ a ∈ s.allList, t.tidOf a = s.tidOf a) (hn : t.nextTid = s.nextTid) : Registry t :=
  h.extend [] (by rw [htr, List.append_nil]) rfl rfl rfl ha htid hn

/-- `schedule`, with a current thread that is not freed. -/
theorem dispatch (h : Registry s) (hr : ∀ a, ¬ s.reaped a) : Registry s.dispatch := by
  obtain ⟨hb, hl, hrel⟩ := dispatchLog_life s
  rw [if_neg (hr _)] at hrel
  exact h.extend s.dispatchLog s.dispatch_trace hb hl hrel rfl
    (fun a _ => State.tidOf_dispatch (hr a)) rfl

theorem requeued (h : Registry s) : Registry s.requeued := by
  unfold State.requeued
  split_ifs
  · exact h.extend [.enqueued _] rfl rfl rfl rfl rfl (fun _ _ => rfl) rfl
  · exact h

theorem adopt (h : Registry s) (hs : Inv s) {b : Nat} (hb : s.heap (.block b) = none) (d : Int) :
    Registry (s.adopt b d) := by
  have hborn : bornIn (s.adopt b d).trace = bornIn s.trace ++ [(.block b, s.nextTid)] := by
    show bornIn (s.trace ++ _) = _
    rw [bornIn_append]
    rfl
  have hleft : leftIn (s.adopt b d).trace = leftIn s.trace := by
    show leftIn (s.trace ++ _) = _
    rw [leftIn_append]
    exact List.append_nil _
  have hrel : releasedIn (s.adopt b d).trace = releasedIn s.trace := by
    show releasedIn (s.trace ++ _) = _
    rw [releasedIn_append]
    exact List.append_nil _
  have hnew : (s.adopt b d).tidOf (.block b) = s.nextTid := by simp [State.tidOf, State.adopt]
  have hfresh : (Addr.block b, s.nextTid) ∉ leftIn s.trace := fun hm =>
    Nat.lt_irrefl _ (h.leftBounded _ hm)
  have htid : ∀ a ∈ s.allList, (s.adopt b d).tidOf a = s.tidOf a := fun a ha =>
    State.tidOf_adopt (State.ne_fresh hb (hs.live a ha)) d
  have hall : (s.adopt b d).allList = s.allList ++ [.block b] := rfl
  refine ⟨?_, ?_, ?_, ?_, ?_, ?_, ?_⟩
  · rw [hborn, hleft, hall, List.map_append, List.filter_append, ← h.all,
      List.map_congr_left fun a ha => by rw [htid a ha]]
    simp [hnew, hfresh]
  · rw [hall, List.map_append, List.map_congr_left htid]
    refine List.pairwise_append.mpr ⟨h.increasing, by simp, fun n hn m hm => ?_⟩
    obtain ⟨a, ha, rfl⟩ := List.mem_map.mp hn
    rw [List.map_singleton, List.mem_singleton, hnew] at hm
    rw [hm]
    exact h.bounded a ha
  · intro a ha
    show _ < s.nextTid + 1
    rcases List.mem_append.mp ha with ha | ha
    · rw [htid a ha]
      exact Nat.lt_succ_of_lt (h.bounded a ha)
    · cases List.mem_singleton.mp ha
      rw [hnew]
      exact Nat.lt_succ_self _
  · rw [hrel, hleft]
    exact h.released
  · rw [hleft]
    exact h.once
  · exact prompt_append h.prompt (prompt_of_nobody_left rfl)
  · rw [hleft]
    exact fun p hp => Nat.lt_succ_of_lt (h.leftBounded p hp)

/-- A step in which the thread at `c` leaves and is freed. -/
theorem leave (h : Registry s) (hs : Inv s) {c : Addr} (hc : c ∈ s.allList) (l : List Obs)
    (htr : t.trace = s.trace ++ l) (hb : (bornIn l).tail = []) (hl : leftIn l = [(c, s.tidOf c)])
    (hr : releasedIn l = [(c, s.tidOf c)]) (hp : Prompt l) (ha : t.allList = s.allList.erase c)
    (htid : ∀ a ∈ t.allList, t.tidOf a = s.tidOf a) (hn : t.nextTid = s.nextTid) : Registry t := by
  have hborn : bornIn t.trace = bornIn s.trace := by
    rw [htr, bornIn_append, hb, List.append_nil]
  have hleft : leftIn t.trace = leftIn s.trace ++ [(c, s.tidOf c)] := by
    rw [htr, leftIn_append, hl]
  have hsub : ∀ a ∈ t.allList, a ∈ s.allList := fun a hm => List.mem_of_mem_erase (ha ▸ hm)
  have hnew : (c, s.tidOf c) ∉ leftIn s.trace := by
    have hin : (c, s.tidOf c) ∈ s.allList.map fun a => (a, s.tidOf a) :=
      List.mem_map.mpr ⟨c, hc, rfl⟩
    rw [h.all] at hin
    exact of_decide_eq_true (List.mem_filter.mp hin).2
  refine ⟨?_, ?_, ?_, ?_, ?_, ?_, ?_⟩
  · have hfilter : (bornIn s.trace).filter (fun p => decide (p ∉ leftIn t.trace)) =
        ((bornIn s.trace).filter fun p => decide (p ∉ leftIn s.trace)).filter
          fun p => decide (p ≠ (c, s.tidOf c)) := by
      rw [List.filter_filter, hleft]
      refine List.filter_congr fun p _ => ?_
      simp [Bool.and_comm]
    rw [hborn, hfilter, ← h.all, List.filter_map, List.map_congr_left fun a hm => by rw [htid a hm],
      ha, hs.allNodup.erase_eq_filter]
    refine congrArg (List.map _) (List.filter_congr fun a _ => ?_)
    by_cases hac : a = c
    · simp [hac]
    · simp [hac]
  · rw [List.map_congr_left htid, ha]
    exact h.increasing.sublist ((List.erase_sublist ..).map _)
  · intro a hm
    rw [htid a hm, hn]
    exact h.bounded a (hsub a hm)
  · rw [hleft, htr, releasedIn_append, hr, h.released]
  · rw [hleft, ← List.concat_eq_append]
    exact h.once.concat hnew
  · rw [htr]
    exact prompt_append h.prompt hp
  · intro p hp
    rw [hleft] at hp
    rw [hn]
    rcases List.mem_append.mp hp with hp | hp
    · exact h.leftBounded p hp
    · cases List.mem_singleton.mp hp
      exact h.bounded c hc

/-- `thread_exit` takes the current thread off `all_list` and `schedule` frees it. -/
theorem exit (h : Registry s) (hs : Inv s) (hw : s.worker s.threadRunningVar) :
    Registry s.exitedCurrent := by
  have hparked : Parked (s.unregister.setCurrent .dying) := Stop.parked (.exit hw) hs
  have hgone : s.threadRunningVar ∉ s.allList.erase s.threadRunningVar :=
    hs.allNodup.not_mem_erase
  have htid : (s.unregister.setCurrent .dying).tidOf = s.tidOf :=
    funext fun a => State.tidOf_setStatus ..
  have hdying : (s.unregister.setCurrent .dying).statusOf s.threadRunningVar = some .dying := by
    refine (State.statusOf_setStatus ..).trans ((if_pos rfl).trans ?_)
    exact congrArg (Option.map fun _ => ThreadStatus.dying) ((hs.running _).mpr rfl)
  have hne : s.threadRunningVar ≠ (s.unregister.setCurrent .dying).succ :=
    fun he => hgone (he ▸ hparked.toLinked.succ_spec.1 :)
  have hreap : (s.unregister.setCurrent .dying).reaped s.threadRunningVar :=
    ⟨rfl, hne, hdying, hw.2⟩
  obtain ⟨hb, hl, hrel⟩ := dispatchLog_life (s.unregister.setCurrent .dying)
  rw [htid] at hrel
  refine h.leave hs (hs.registered _ hs.live_current)
    (.exited s.threadRunningVar (s.tidOf s.threadRunningVar) ::
      (s.unregister.setCurrent .dying).dispatchLog) ?_ ?_ ?_ ?_ ⟨?_, ?_⟩ rfl (fun a ha => ?_) rfl
  · refine (State.dispatch_trace _).trans ?_
    exact List.append_assoc s.trace [_] _
  · exact hb
  · exact congrArg (_ :: ·) hl
  · exact hrel.trans (if_pos hreap)
  · have hlog := State.dispatchLog_reaped (m := s.unregister.setCurrent .dying) hreap
    rw [htid] at hlog
    exact ⟨_, _, _, [], hlog⟩
  · exact prompt_of_nobody_left hl
  · have hac : a ≠ s.threadRunningVar := by
      rintro rfl
      exact hgone ha
    have hkept : ¬ (s.unregister.setCurrent .dying).reaped a := fun hr => hac hr.1
    exact (State.tidOf_dispatch hkept).trans (congrFun htid a)

theorem move (hs : Inv s) (h : Registry s) (hm : Move s t) : Registry t := by
  have hall := hs.registered _ hs.live_current
  cases hm with
  | switch hm =>
      cases hm with
      | block hi =>
          have hst : (s.setCurrent .blocked).statusOf s.threadRunningVar = some .blocked :=
            (hs.toLinked.statusOf_set hall _ .blocked).trans (if_pos rfl)
          have hm : Registry (s.setCurrent .blocked) :=
            h.same rfl rfl (fun _ _ => State.tidOf_setStatus ..) rfl
          exact hm.dispatch (not_reaped hst (by decide))
      | yield hr =>
          have hcur : (s.requeued.setStatus s.threadRunningVar .ready).threadRunningVar =
              s.threadRunningVar := s.requeued_current
          have hst : (s.requeued.setStatus s.threadRunningVar .ready).statusOf
              (s.requeued.setStatus s.threadRunningVar .ready).threadRunningVar = some .ready := by
            rw [hcur, State.statusOf, State.setStatus_heap, s.requeued_heap,
              ← State.setStatus_heap]
            exact (hs.toLinked.statusOf_set hall _ .ready).trans (if_pos rfl)
          have hm : Registry (s.requeued.setStatus s.threadRunningVar .ready) :=
            h.requeued.same rfl rfl (fun _ _ => State.tidOf_setStatus ..) rfl
          exact hm.dispatch (not_reaped hst (by decide))
      | exit hw => exact h.exit hs hw
      | sleep hw =>
          have hst : (s.drowsy.setCurrent .blocked).statusOf s.threadRunningVar = some .blocked :=
            (hs.toLinked.statusOf_set hall _ .blocked).trans (if_pos rfl)
          have hm : Registry (s.drowsy.setCurrent .blocked) :=
            h.same rfl rfl (fun _ _ => State.tidOf_setStatus ..) rfl
          exact hm.dispatch (not_reaped hst (by decide))
  | deadline d =>
      exact h.same rfl rfl (fun _ _ => State.tidOf_mapThread (f := fun th =>
        { th with sleepTime := d }) (fun _ => rfl) s) rfl
  | create hb d => exact h.adopt hs hb d
  | charge =>
      exact h.extend [.charged _ _] rfl rfl rfl rfl rfl (fun a _ => s.tidOf_charge a) rfl
  | @wake a ha hd =>
      exact h.extend [.enqueued a] rfl rfl rfl rfl rfl
        (fun b _ => State.tidOf_setStatus a b .ready _) rfl
  | config m q e => exact h.same rfl rfl (fun _ _ => rfl) rfl

end Registry

/-! ## The registry after the boot -/

theorem registry_started {s : State} (h : s.trace = []) : Registry s.started := by
  have htr : s.started.trace = [] := h
  have htid : s.started.tidOf .stackPage = 1 := by simp [State.tidOf, State.started]
  have hall : s.started.allList = [.stackPage] := rfl
  refine ⟨?_, ?_, ?_, ?_, ?_, ?_, ?_⟩
  · simp [hall, htr, htid, bornIn, leftIn]
  · simp [hall]
  · intro a ha
    cases List.mem_singleton.mp ha
    rw [htid]
    exact Nat.lt_succ_self 1
  · rw [htr]
    rfl
  · rw [htr]
    exact List.nodup_nil
  · rw [htr]
    trivial
  · intro p hp
    rw [htr] at hp
    cases hp

theorem registry_booting (s : State) (i k : Nat) : Registry (s.booting i k) := by
  have hpage : (s.booting i k).tidOf .stackPage = 1 := by simp [State.tidOf, State.booting]
  have hblock : (s.booting i k).tidOf (.block i) = 2 := by simp [State.tidOf, State.booting]
  have hall : (s.booting i k).allList = [.stackPage, .block i] := rfl
  have hborn : bornIn (s.booting i k).trace = [(.stackPage, 1), (.block i, 2)] := by
    simp [State.booting, bornIn]
  have hleft : leftIn (s.booting i k).trace = [] := by
    simp [State.booting, leftIn]
  have hrel : releasedIn (s.booting i k).trace = [] := by
    simp [State.booting, releasedIn]
  refine ⟨?_, ?_, ?_, ?_, ?_, ?_, ?_⟩
  · simp [hall, hborn, hleft, hpage, hblock]
  · simp [hall, hpage, hblock]
  · intro a ha
    show _ < 3
    rw [hall, List.mem_cons, List.mem_singleton] at ha
    rcases ha with rfl | rfl
    · omega
    · omega
  · rw [hrel, hleft]
  · rw [hleft]
    exact List.nodup_nil
  · exact prompt_of_nobody_left hleft
  · intro p hp
    rw [hleft] at hp
    cases hp

theorem Launched.eq_yielded {s : State} (h : Launched s) :
    ∃ quantum i k, s = ((settings quantum).booting i k).yielded := by
  obtain ⟨quantum, i, k, hrun⟩ := h
  rw [run_boot] at hrun
  cases hrun
  exact ⟨quantum, i, k, rfl⟩

theorem Launched.inv {s : State} (h : Launched s) : Inv s := by
  obtain ⟨quantum, i, k, rfl⟩ := h.eq_yielded
  have hi : Inv { ((settings quantum).booting i k).yielded with trace := [] } :=
    afterBoot_eq quantum i k ▸ afterBoot_inv quantum i k
  exact ⟨⟨hi.readyNodup, hi.esperaNodup, hi.allNodup, hi.ready, hi.espera, hi.live, hi.magic,
    hi.idle, hi.initial, hi.tids⟩, ⟨hi.running, hi.alive, hi.kept, hi.registered, hi.current⟩⟩

theorem booting_yielded (s : State) (i k : Nat) : (s.booting i k).yielded =
    ((s.booting i k).requeued.setStatus .stackPage .ready).dispatch :=
  if_neg (by simp [State.booting])

/-- The first `thread_yield` frees nobody. -/
theorem booting_not_reaped (s : State) (i k : Nat) (a : Addr) :
    ¬ ((s.booting i k).requeued.setStatus .stackPage .ready).reaped a := by
  have hst : ((s.booting i k).requeued.setStatus .stackPage .ready).statusOf .stackPage =
      some .ready := by
    rw [State.statusOf, State.setStatus_heap, State.requeued_heap]
    simp [State.booting]
  exact State.not_reaped hst (by decide) a

theorem Launched.registry {s : State} (h : Launched s) : Registry s := by
  obtain ⟨quantum, i, k, rfl⟩ := h.eq_yielded
  have hm : Registry (((settings quantum).booting i k).requeued.setStatus .stackPage .ready) :=
    (registry_booting _ i k).requeued.same rfl rfl (fun _ _ => State.tidOf_setStatus ..) rfl
  rw [booting_yielded]
  exact hm.dispatch (booting_not_reaped _ i k)

theorem Booting.eq {s : State} (h : Booting s) :
    ∃ quantum, s = (settings quantum).started ∨ ∃ i k, s = (settings quantum).booting i k := by
  cases h with
  | @init quantum s h =>
      have hset := settings_unstarted quantum
      rw [Prog.run_bind_ok (run_setUserQuantum quantum), run_threadInit hset.1 hset.2.2.1] at h
      cases h
      exact ⟨quantum, .inl rfl⟩
  | @start quantum i k s h =>
      have hset := settings_unstarted quantum
      rw [Prog.run_bind_ok (run_setUserQuantum quantum),
        Prog.run_bind_ok (run_threadInit hset.1 hset.2.2.1),
        Prog.run_bind_ok (run_threadStart hset), run_ticks _ i k 0, Nat.zero_add] at h
      cases h
      exact ⟨quantum, .inr ⟨i, k, rfl⟩⟩

theorem Booting.lifeCycle {s : State} (h : Booting s) : LifeCycle s := by
  obtain ⟨quantum, rfl | ⟨i, k, rfl⟩⟩ := h.eq
  · have hset := settings_unstarted quantum
    have hidle : (settings quantum).started.idleThread = none := hset.2.1
    refine ⟨registry_started hset.2.2.2.2.2.2.2, ?_, ?_, fun i hi => ?_⟩
    · exact List.nodup_singleton _
    · exact List.mem_singleton_self _
    · rw [hidle] at hi
      cases hi
  · refine ⟨registry_booting _ i k, ?_, ?_, fun j hj => ?_⟩
    · exact List.nodup_cons.mpr ⟨by simp, List.nodup_singleton _⟩
    · exact List.mem_cons_self ..
    · cases hj
      exact List.mem_cons_of_mem _ (List.mem_singleton_self _)

/-! ## Where a thread is freed -/

/-- The statement gives no thread's memory back. -/
def Spares {β : Type} (act : State → Except Fault (β × State)) : Prop :=
  ∀ s b s', act s = .ok (b, s') → ∀ a, s.heap a ≠ none → s'.heap a ≠ none

/-- No statement of the code gives a thread's memory back. -/
def Sparing {α : Type} (p : Code α) : Prop := ∀ s, Every Frees p s

theorem Frees.of_live {pc : Point} {s s' : State} (h : ∀ a, s.heap a ≠ none → s'.heap a ≠ none) :
    Frees pc s s' :=
  fun a hl hn => absurd hn (h a hl)

section Spares

variable {α β : Type}

theorem spares_of_heap {act : State → Except Fault (β × State)}
    (h : ∀ s b s', act s = .ok (b, s') → s'.heap = s.heap) : Spares act := by
  intro s b s' ha a hl
  rw [h s b s' ha]
  exact hl

theorem mapThread_live (a b : Addr) (f : Thread → Thread) {s : State} (h : s.heap b ≠ none) :
    (s.mapThread a f).heap b ≠ none := by
  rw [State.mapThread_heap]
  split_ifs
  · rwa [Ne, Option.map_eq_none_iff]
  · exact h

theorem place_live (a b : Addr) (th : Thread) {s : State} (h : s.heap b ≠ none) :
    (s.place a th).heap b ≠ none := by
  show Function.update s.heap a (some th) b ≠ none
  rw [Function.update_apply]
  split_ifs
  · exact Option.some_ne_none th
  · exact h

theorem spares_reads {f : State → β} : Spares (reads f) := by
  refine spares_of_heap fun s b s' h => ?_
  cases h
  rfl

theorem spares_derefs {f : State → Except Fault β} : Spares (derefs f) := by
  refine spares_of_heap fun s b s' h => ?_
  rw [derefs_state h]

theorem spares_touches {a : Addr} : Spares (touches a) := by
  refine spares_of_heap fun s b s' h => ?_
  rw [touches_state h]

theorem spares_asserts {f c : String} {p : State → Except Fault Bool} :
    Spares (asserts f c p) := by
  refine spares_of_heap fun s b s' h => ?_
  rw [asserts_state h]

theorem spares_stores {a : Addr} {f : Thread → Thread} : Spares (stores a f) := by
  intro s b s' h x hl
  rw [stores_state h]
  exact mapThread_live a x f hl

theorem spares_writes {f : State → State} (hf : ∀ s, (f s).heap = s.heap) : Spares (writes f) := by
  refine spares_of_heap fun s b s' h => ?_
  cases h
  exact hf s

theorem sparing_writes {site : Site} {f : State → State} (hf : ∀ s, (f s).heap = s.heap) :
    Sparing (stmt site (writes f)) :=
  fun s b s' ha => ⟨.of_live (spares_writes hf s b s' ha), trivial⟩

theorem spares_nextOf (empty : Bool) : Spares (nextOf empty) := by
  refine spares_of_heap fun s b s' h => ?_
  unfold nextOf at h
  split at h
  · cases h
    rfl
  · split at h
    · cases h
    · cases h
      rfl

theorem spares_pushReady (a : Addr) : Spares (pushReady a) := by
  refine spares_of_heap fun s b s' h => ?_
  unfold pushReady at h
  split at h
  · cases h
  · cases h
    rfl

theorem spares_removeEspera (a : Addr) : Spares (removeEspera a) := by
  refine spares_of_heap fun s b s' h => ?_
  unfold removeEspera at h
  split at h
  · cases h
    rfl
  · cases h

theorem sparing_stmt {pc : Point} {act : State → Except Fault (β × State)} {k : β → Code α}
    (h : Spares act) (hk : ∀ b, Sparing (k b)) : Sparing (.stmt pc act k) :=
  fun s b s' ha => ⟨.of_live (h s b s' ha), hk b s'⟩

theorem sparing_ret (a : α) : Sparing (.ret a : Code α) := fun _ => trivial

theorem Sparing.bind {p : Code β} {f : β → Code α} (hp : Sparing p) (hf : ∀ b, Sparing (f b)) :
    Sparing (p >>= f) :=
  fun s => Every.bind (hp s) fun b s' _ => hf b s'

end Spares

section Sparing

theorem sparing_threadCurrent (site : Site) : Sparing (threadCurrent site) :=
  sparing_stmt spares_reads fun _ => sparing_stmt spares_asserts fun _ =>
    sparing_stmt spares_asserts fun _ => sparing_ret _

theorem sparing_nextThreadToRun : Sparing nextThreadToRun :=
  sparing_stmt spares_reads fun empty => sparing_stmt (spares_nextOf empty) fun _ => sparing_ret _

theorem sparing_switchThreadsC (cur next : Addr) : Sparing (switchThreadsC cur next) :=
  sparing_stmt spares_touches fun _ => sparing_stmt spares_touches fun _ =>
    sparing_stmt spares_stores fun _ =>
      sparing_stmt (spares_writes fun _ => rfl) fun _ => sparing_ret _

theorem sparing_yieldRequeue (cur : Addr) : Sparing (yieldRequeue cur) := by
  refine sparing_stmt spares_reads fun worker => ?_
  cases worker with
  | false => exact sparing_ret _
  | true =>
      exact (sparing_threadCurrent _).bind fun _ => sparing_stmt spares_touches fun _ =>
        sparing_stmt (spares_pushReady cur) fun _ => sparing_ret _

theorem sparing_exitTest : Sparing exitTest := by
  refine (sparing_threadCurrent _).bind fun _ => sparing_stmt spares_reads fun notInitial => ?_
  cases notInitial with
  | false => exact sparing_ret _
  | true => exact (sparing_threadCurrent _).bind fun _ => sparing_stmt spares_reads sparing_ret

theorem sparing_threadUnblock (t : Addr) : Sparing (threadUnblock t) :=
  sparing_stmt spares_asserts fun _ => sparing_stmt spares_asserts fun _ =>
    sparing_stmt (spares_pushReady t) fun _ => sparing_stmt spares_stores fun _ => sparing_ret _

theorem sparing_removerLoop (k : Nat) : ∀ l : List Addr, Sparing (removerLoop k l)
  | [] => sparing_ret _
  | t :: rest => by
      refine sparing_stmt spares_derefs fun due => ?_
      cases due with
      | false => exact sparing_removerLoop k rest
      | true =>
          exact sparing_stmt (spares_removeEspera t) fun _ =>
            (sparing_threadUnblock t).bind fun _ => sparing_removerLoop k rest

theorem sparing_threadTick : Sparing threadTick := by
  refine (sparing_threadCurrent _).bind fun t => sparing_stmt (spares_writes fun s => ?_) fun _ =>
    sparing_stmt (spares_writes fun _ => rfl) fun _ => sparing_stmt ?_ fun _ => sparing_ret _
  · split_ifs <;> rfl
  · intro s b s' h a hl
    dsimp only at h
    split at h
    · cases h
      exact mapThread_live t a _ hl
    · cases h

theorem sparing_timerInterrupt : Sparing timerInterrupt :=
  sparing_stmt (spares_writes fun _ => rfl) fun _ => sparing_threadTick.bind fun _ =>
    (sparing_threadCurrent _).bind fun _ => sparing_stmt spares_derefs fun k =>
      sparing_stmt spares_reads fun l => sparing_removerLoop k l

end Sparing

section Every

variable {α β : Type} {s t : State}

theorem every_step {site : Site} {act : State → Except Fault (β × State)} {k : β → Code α} {b : β}
    (h : act s = .ok (b, t)) (hf : Frees ⟨site, .body⟩ s t) (hk : Every Frees (k b) t) :
    Every Frees (stmt site act >>= k) s := by
  intro b' t' ha
  rw [h] at ha
  cases ha
  exact ⟨hf, hk⟩

theorem every_current (h : HasCurrent s) {site : Site} {k : Addr → Code α}
    (hk : Every Frees (k s.threadRunningVar) s) : Every Frees (threadCurrent site >>= k) s := by
  refine Every.bind (sparing_threadCurrent site s) fun b s' hr => ?_
  rw [run_threadCurrent h] at hr
  cases hr
  exact hk

/-- The thread at `p`, which has given up the processor, has left and is referred to by nothing if
it is DYING. -/
theorem every_threadScheduleTail {p : Addr} {pr c : Thread} (hp : s.heap p = some pr)
    (hc : s.heap s.threadRunningVar = some c) (hne : p ≠ s.threadRunningVar)
    (hd : pr.status = .dying → (p, s.tidOf p) ∈ leftIn s.trace ∧ s.Forgotten p) :
    Every Frees (threadScheduleTail (some p)) s := by
  have hp' : s.enter.heap p = some pr :=
    (State.setStatus_heap _ _ _ _).trans ((if_neg hne).trans hp)
  have htest : derefs (fun s => (status p s).map fun st => st == .dying && p != s.initialThread)
      s.enter = .ok (pr.status == .dying && p != s.initialThread, s.enter) := by
    simp only [derefs, status_ok hp', Except.map]
    rfl
  refine every_step (reads_runningThread s) (.of_live fun _ h => h) ?_
  refine every_step (stores_ok hc) (.of_live fun a h => mapThread_live _ a _ h) ?_
  refine every_step (t := s.enter) rfl (.of_live fun _ h => h) ?_
  refine every_step htest (.of_live fun _ h => h) ?_
  by_cases hb : (pr.status == .dying && p != s.initialThread) = true
  · rw [if_pos hb]
    refine every_step (asserts_ok (congrArg Except.ok (bne_iff_ne.mpr hne)))
      (.of_live fun _ h => h) ?_
    intro u s' ha
    refine ⟨fun a hlive hfree => ?_, trivial⟩
    simp only [free, hp', Except.ok.injEq, Prod.mk.injEq, true_and] at ha
    have hap : a = p := by
      by_contra hap
      rw [← ha] at hfree
      exact hlive ((Function.update_of_ne hap _ _).symm.trans hfree)
    have htid : s.enter.tidOf p = s.tidOf p := by
      rw [State.tidOf, hp', State.tidOf, hp]
    obtain ⟨hleft, hforgot⟩ := hd (by simpa using (Bool.and_eq_true_iff.mp hb).1)
    rw [hap, htid]
    exact ⟨rfl, hleft, ⟨hforgot.ready, hforgot.espera, hforgot.all, hforgot.running, hforgot.idle,
      hforgot.initial⟩⟩
  · rw [if_neg hb]
    trivial

theorem every_asserts {site : Site} {f c : String} {p : State → Except Fault Bool}
    {k : Unit → Code α} (hk : Every Frees (k ()) s) :
    Every Frees (stmt site (asserts f c p) >>= k) s := by
  intro u s' ha
  cases asserts_state ha
  exact ⟨.of_live fun _ h => h, hk⟩

theorem sparing_threadScheduleTail_none : Sparing (threadScheduleTail none) :=
  sparing_stmt spares_reads fun _ => sparing_stmt spares_stores fun _ =>
    sparing_stmt (spares_writes fun _ => rfl) fun _ => sparing_ret _

/-- A thread that is not registered is referred to by nothing once another has been chosen. -/
theorem Linked.forgotten (h : Linked s) (hc : s.threadRunningVar ∉ s.allList) :
    s.switched.Forgotten s.threadRunningVar where
  ready hm := hc (h.ready _ (List.mem_of_mem_tail hm)).2.2
  espera hm := hc (h.espera _ hm).2.2
  all := hc
  running he := hc ((show s.threadRunningVar = s.succ from he) ▸ h.succ_spec.1)
  idle hi := by
    obtain ⟨i, hi', hmem, -⟩ := h.idle
    rw [show s.switched.idleThread = s.idleThread from rfl, hi'] at hi
    exact hc (Option.some.inj hi ▸ hmem)
  initial he := hc (he ▸ h.initial :)

/-- `schedule` frees the thread that stopped if it is DYING, and then nothing refers to it. -/
theorem every_schedule (hl : Linked s) {c : Thread} (hc : s.heap s.threadRunningVar = some c)
    (hd : c.status = .dying → s.threadRunningVar ∉ s.allList ∧
      (s.threadRunningVar, s.tidOf s.threadRunningVar) ∈ leftIn s.trace) :
    Every Frees schedule s := by
  obtain ⟨th, hth, -⟩ := hl.switchable.heap
  unfold schedule
  refine every_step (reads_runningThread s) (.of_live fun _ h => h) ?_
  refine Every.bind (sparing_nextThreadToRun s) fun next s₁ h₁ => ?_
  rw [run_nextThreadToRun] at h₁
  cases h₁
  refine every_asserts (every_asserts ?_)
  rw [hl.switchable.succ]
  dsimp only
  by_cases hcur : s.threadRunningVar = s.succ
  · rw [if_neg (not_not.mpr hcur)]
    exact sparing_threadScheduleTail_none _
  · have hp : s.switched.heap s.threadRunningVar = some c :=
      (State.setStatus_heap _ _ _ _).trans ((if_neg hcur).trans hc)
    have hn : s.switched.heap s.succ = some { th with status := .running } :=
      (State.setStatus_heap _ _ _ _).trans ((if_pos rfl).trans (congrArg _ hth))
    have htid : s.switched.tidOf s.threadRunningVar = s.tidOf s.threadRunningVar := by
      rw [State.tidOf, hp, State.tidOf, hc]
    have hleft : leftIn s.switched.trace = leftIn s.trace := by
      show leftIn (s.trace ++ [_] ++ [_]) = _
      rw [leftIn_append, leftIn_append]
      simp [leftIn]
    rw [if_pos hcur]
    refine Every.bind (sparing_switchThreadsC _ _ _) fun prev s₂ h₂ => ?_
    rw [run_switchThreadsC (s := s.choose) hc hth] at h₂
    cases h₂
    refine every_threadScheduleTail (s := s.switched) hp hn hcur fun hdy => ?_
    obtain ⟨hgone, hexit⟩ := hd hdy
    rw [htid, hleft]
    exact ⟨hexit, hl.forgotten hgone⟩

/-- `schedule`, called by a function that has changed the status of the current thread. -/
theorem every_schedule_set (hc : HasCurrent s) {st : ThreadStatus}
    (hl : Linked (s.setCurrent st)) (hd : st = .dying → s.threadRunningVar ∉ s.allList ∧
      (s.threadRunningVar, s.tidOf s.threadRunningVar) ∈ leftIn s.trace) :
    Every Frees schedule (s.setCurrent st) := by
  obtain ⟨c, hheap, -⟩ := hc
  have hset : (s.setCurrent st).heap s.threadRunningVar = some { c with status := st } :=
    (State.setStatus_heap _ _ _ _).trans ((if_pos rfl).trans (congrArg _ hheap))
  have htid : (s.setCurrent st).tidOf s.threadRunningVar = s.tidOf s.threadRunningVar :=
    State.tidOf_setStatus ..
  refine every_schedule hl hset fun hdy => ?_
  rw [show (s.setCurrent st).threadRunningVar = s.threadRunningVar from rfl, htid]
  exact hd hdy

theorem Linked.mask (h : Linked s) (b : Bool) : Linked (s.mask b) :=
  h.frame rfl rfl rfl rfl rfl (Nat.le_refl _) h.magic (fun _ ha => ha) fun _ _ => rfl

theorem every_restoreInterrupts (site : Site) (b : Bool) (s : State) :
    Every Frees (stmt site (restoreInterrupts b)) s := by
  refine sparing_stmt (spares_of_heap fun _ _ _ h => ?_) (fun _ => sparing_ret _) s
  cases h
  rfl

theorem every_threadBlock (hc : HasCurrent s) (hl : Linked (s.setCurrent .blocked)) :
    Every Frees threadBlock s := by
  have hc' : HasCurrent (s.mask false) := hc.of_heap rfl rfl
  have hl' : Linked ((s.mask false).setCurrent .blocked) := hl.mask false
  unfold threadBlock
  refine every_step (t := s.mask false) rfl (.of_live fun _ h => h) (every_current hc' ?_)
  refine every_step (hc'.stores _) (.of_live fun a h => mapThread_live _ a _ h) ?_
  exact Every.bind (every_schedule_set hc' hl' nofun) fun _ s₁ _ =>
    every_restoreInterrupts _ _ s₁

theorem every_blockIfIdleThread (h : Inv s) : Every Frees blockIfIdleThread s := by
  unfold blockIfIdleThread
  refine every_current h.hasCurrent (every_step rfl (.of_live fun _ hl => hl) ?_)
  split
  · exact every_threadBlock h.hasCurrent
      (h.toLinked.setStatus_off h.not_ready h.not_espera .blocked)
  · exact sparing_ret _ s

theorem every_threadYield (h : Inv s) : Every Frees threadYield s := by
  have hc : HasCurrent (s.mask false) := h.hasCurrent.of_heap rfl rfl
  unfold threadYield
  refine every_current h.hasCurrent ?_
  refine every_step (t := s.mask false) rfl (.of_live fun _ hl => hl) ?_
  refine every_step rfl (.of_live fun _ hl => hl) ?_
  split
  · exact every_restoreInterrupts _ _ _
  next hr =>
    have hne : s.readyList ≠ [] := fun he => hr (List.isEmpty_iff.mpr he)
    have hcur : (s.mask false).requeued.threadRunningVar = s.threadRunningVar :=
      State.requeued_current _
    have hcr : HasCurrent (s.mask false).requeued :=
      hc.of_heap (State.requeued_heap _) (State.requeued_current _)
    have hl : Linked ((s.mask false).requeued.setCurrent .ready) := by
      rw [State.setCurrent, hcur, State.mask_requeued]
      exact (Stop.parked (.yield hne) h).toLinked.mask false
    refine Every.bind (sparing_yieldRequeue _ _) fun _ s₁ h₁ => ?_
    have hreq : (yieldRequeue s.threadRunningVar).run (s.mask false) =
        .ok ((), (s.mask false).requeued) := run_yieldRequeue hc h.fit.unlinked
    rw [hreq] at h₁
    cases h₁
    have hstore := hcr.stores fun th => { th with status := .ready }
    rw [hcur] at hstore
    refine every_step hstore (.of_live fun a hlive => mapThread_live _ a _ hlive) ?_
    have hsched := every_schedule_set hcr hl fun hd => by cases hd
    rw [State.setCurrent, hcur] at hsched
    exact Every.bind hsched fun _ s₁ _ => every_restoreInterrupts _ _ s₁

theorem every_exitCurrent (h : Inv s) (hw : s.worker s.threadRunningVar) :
    Every Frees exitCurrent s := by
  have hc := h.hasCurrent
  have hc' : HasCurrent s.unregister := hc.of_heap rfl rfl
  have hunlink : removeAll s.threadRunningVar s = .ok ((), s.unregister) := by
    obtain ⟨c, hheap, -⟩ := hc
    simp [removeAll, h.registered _ h.live_current, hheap, State.unregister, State.tidOf]
  have hl : Linked (s.unregister.setCurrent .dying) := (Stop.parked (.exit hw) h).toLinked
  have hleft : (s.threadRunningVar, s.tidOf s.threadRunningVar) ∈ leftIn s.unregister.trace := by
    show _ ∈ leftIn (s.trace ++ [_])
    rw [leftIn_append]
    exact List.mem_append_right _ (List.mem_singleton_self _)
  unfold exitCurrent
  refine every_current hc (every_step hunlink (.of_live fun _ hlive => hlive) ?_)
  refine every_current hc' (every_step hc'.touches (.of_live fun _ hlive => hlive) ?_)
  refine every_current hc' ?_
  refine every_step (hc'.stores _) (.of_live fun a hlive => mapThread_live _ a _ hlive) ?_
  exact every_schedule_set hc' hl fun _ => ⟨h.allNodup.not_mem_erase, hleft⟩

theorem every_threadExit (h : Inv s) : Every Frees threadExit s := by
  unfold threadExit
  refine Every.bind (sparing_exitTest s) fun b s₁ h₁ => ?_
  rw [run_exitTest h.hasCurrent] at h₁
  cases h₁
  split
  next hw => exact every_exitCurrent h (of_decide_eq_true hw)
  next => exact every_threadYield h

theorem every_insertarEnListaEspera (h : Inv s) (hw : s.worker s.threadRunningVar) (n : Int32) :
    Every Frees (insertarEnListaEspera n) s := by
  have hc := h.hasCurrent
  have hi : Inv (s.setSleep (toUInt64 (s.ticks + n.toInt))) := h.setSleep _
  unfold insertarEnListaEspera
  refine every_current hc (every_step rfl (.of_live fun _ hlive => hlive) ?_)
  refine every_step (hc.stores _) (.of_live fun a hlive => mapThread_live _ a _ hlive) ?_
  refine every_step (pushEspera_drowsy (s := s.setSleep _) hi.not_linked)
    (.of_live fun _ hlive => hlive) ?_
  refine every_threadBlock (hi.hasCurrent.of_heap rfl rfl) ?_
  exact (Stop.parked (.sleep (s := s.setSleep _) hw) hi).toLinked

theorem every_threadSleep (h : Inv s) (hw : s.worker s.threadRunningVar) (n : Int32) :
    Every Frees (threadSleep n) s := by
  unfold threadSleep
  refine every_step rfl (.of_live fun _ hlive => hlive) ?_
  split
  · refine every_current h.hasCurrent ?_
    refine every_step h.hasCurrent.touches (.of_live fun _ hlive => hlive) ?_
    exact every_insertarEnListaEspera h hw n
  · exact sparing_ret _ s

theorem every_timerSleep (h : Inv s) (hw : s.worker s.threadRunningVar) (n : Int32) :
    Every Frees (timerSleep n) s := by
  unfold timerSleep
  refine every_step rfl (.of_live fun _ hlive => hlive) ?_
  split
  · exact every_insertarEnListaEspera h hw n
  · exact sparing_ret _ s

/-- `thread_create` between its `calloc` and its assignment of `idle_thread`. -/
theorem sparing_createHead (a : Addr) (name : Name) (d : Int) :
    Sparing (do
      initThread a name
      let tid ← stmt .createTid (assignTid a)
      stmt .createDuration (assignDuration a tid d)
      allocFrame a frameSize
      threadUnblock a
      return tid : Code Nat) := by
  refine sparing_stmt spares_asserts fun _ => sparing_stmt ?_ fun _ => sparing_stmt ?_ fun _ =>
    sparing_stmt ?_ fun tid => sparing_stmt ?_ fun _ => sparing_stmt spares_asserts fun _ =>
      sparing_stmt spares_asserts fun _ => (sparing_threadUnblock a).bind fun _ => sparing_ret _
  · intro s b s' h x hlive
    cases h
    exact place_live a x _ hlive
  · refine spares_of_heap fun s b s' h => ?_
    unfold pushAll at h
    split at h
    · cases h
    · cases h
      rfl
  · intro s b s' h x hlive
    unfold assignTid at h
    split at h
    · cases h
      exact mapThread_live a x _ hlive
    · cases h
  · intro s b s' h x hlive
    unfold assignDuration at h
    split at h
    · cases h
      exact mapThread_live a x _ hlive
    · cases h

theorem every_threadCreate_adopt {b : Nat} (hf : Fresh s b) (name : Name) (d : Int)
    {k : Nat → Code α} (hk : Every Frees (k s.nextTid) (s.adopt b d)) :
    Every Frees (do
      initThread (.block b) name
      let tid ← stmt .createTid (assignTid (.block b))
      stmt .createDuration (assignDuration (.block b) tid d)
      allocFrame (.block b) frameSize
      threadUnblock (.block b)
      k tid : Code α) (s.place (.block b) ⟨0, .running, 0, 0, 0⟩) := by
  refine Every.bind (sparing_createHead (.block b) name d _) (f := k) fun tid s₁ h₁ => ?_
  by_cases hname : name = .null
  · rw [hname] at h₁
    cases h₁
  · rw [run_threadCreate_adopt hf hname] at h₁
    cases h₁
    exact hk

theorem every_threadCreate (h : Inv s) {block : Option Nat}
    (hb : ∀ b ∈ block, s.heap (.block b) = none) (name : Name) (d : Int32) :
    Every Frees (threadCreate name block d) s := by
  cases block with
  | none => exact every_step rfl (.of_live fun _ hlive => hlive) (sparing_ret _ s)
  | some b =>
      have hfresh := h.toLinked.fresh (hb b rfl)
      refine every_step (t := s.place (.block b) ⟨0, .running, 0, 0, 0⟩) rfl
        (.of_live fun a hlive => place_live _ a _ hlive) ?_
      refine every_threadCreate_adopt hfresh name d.toInt ?_
      refine every_step rfl (.of_live fun _ hlive => ?_) ?_
      · split_ifs <;> exact hlive
      · dsimp only
        rw [if_neg fun hi => Nat.ne_of_gt h.tids hi.2]
        exact Every.bind (every_blockIfIdleThread (h.adopt (hb b rfl) d.toInt)) fun _ s₂ _ =>
          sparing_ret _ s₂

theorem every_afterExpiry (h : Inv s) : Every Frees afterExpiry s := by
  have hdur : derefs (fun s' => (durationTicks s.threadRunningVar s').map (decide <| · ≤ 0)) s =
      .ok (decide (s.durationOf s.threadRunningVar ≤ 0), s) := by
    simp only [derefs, durationTicks_ok h.hasCurrent, Except.map]
  unfold afterExpiry
  refine every_current h.hasCurrent (every_step hdur (.of_live fun _ hlive => hlive) ?_)
  split
  · refine every_current h.hasCurrent ?_
    exact every_step h.hasCurrent.touches (.of_live fun _ hlive => hlive) (every_threadExit h)
  · refine every_step rfl (.of_live fun _ hlive => hlive) ?_
    split
    · refine every_step rfl (.of_live fun _ hlive => hlive) ?_
      split
      · exact every_threadYield h
      · exact sparing_ret _ s
    · exact sparing_ret _ s

theorem every_afterForced (h : Inv s) : Every Frees afterForced s := by
  have hdur : derefs (fun s' => (durationTicks s.threadRunningVar s').map (decide <| · ≠ 0)) s =
      .ok (decide (s.durationOf s.threadRunningVar ≠ 0), s) := by
    simp only [derefs, durationTicks_ok h.hasCurrent, Except.map]
  unfold afterForced
  refine every_step rfl (.of_live fun _ hlive => hlive) ?_
  split
  · refine every_current h.hasCurrent (every_step hdur (.of_live fun _ hlive => hlive) ?_)
    split
    · refine every_current h.hasCurrent ?_
      refine every_step h.hasCurrent.touches (.of_live fun _ hlive => hlive) ?_
      exact Every.bind (every_threadExit h) fun _ s₁ _ =>
        sparing_writes (by exact fun _ => rfl) s₁
    · exact sparing_ret _ s
  · exact sparing_ret _ s

theorem every_afterInterrupt (h : Inv s) : Every Frees afterInterrupt s := by
  have h₁ : Inv s.idleBlocked := (moves_idleBlocked s).inv h
  unfold afterInterrupt
  refine Every.bind (every_blockIfIdleThread h) fun _ s₁ hr₁ => ?_
  rw [run_blockIfIdleThread h.hasCurrent h.fit.next] at hr₁
  cases hr₁
  refine Every.bind (every_afterExpiry h₁) fun _ s₂ hr₂ => ?_
  rw [run_afterExpiry h₁.fit] at hr₂
  cases hr₂
  exact every_afterForced ((moves_expired _).inv h₁)

/-- No call gives a thread's memory back but by the `free` of `thread_schedule_tail`, and then
that of a thread which has left and is referred to by nothing. -/
theorem every_frees (h : Inv s) {op : Op} (ha : Allowed s op) : Every Frees op.code s := by
  cases op with
  | threadCreate name block d =>
      exact Every.bind (every_threadCreate h ha name d) fun _ s₁ _ => sparing_ret _ s₁
  | threadSleep n => exact every_threadSleep h (h.worker_of_not_idle ha) n
  | timerSleep n => exact every_timerSleep h (h.worker_of_not_idle ha) n
  | threadYield => exact every_threadYield h
  | threadExit => exact every_threadExit h
  | setThreadExitOnReturn =>
      exact sparing_writes (by exact fun _ => rfl) s
  | scheduleSetQuantum mode rrticks =>
      refine sparing_writes (fun s => ?_) s
      split_ifs <;> rfl
  | timerInterrupt => exact sparing_timerInterrupt s
  | afterInterrupt => exact every_afterInterrupt h

end Every

/-! ## The life cycle of a thread -/

theorem lifeCycle_of_run {s₀ s : State} {ops : List Op} (h₀ : Launched s₀)
    (hrun : Run Step s₀ ops s) : LifeCycle s := by
  have hs : Inv s := inv_of_run hrun h₀.inv
  have hreg : Registry s := keeps_of_run (fun _ _ hi hp hm => hp.move hi hm) hrun h₀.inv h₀.registry
  refine ⟨hreg, hs.allNodup, hs.initial, fun i hi => ?_⟩
  obtain ⟨j, hj, hmem, -⟩ := hs.idle
  rw [hi] at hj
  exact Option.some.inj hj ▸ hmem

/-- A call that returns frees those, and only those, that leave during it. -/
theorem LifeCycle.step {s t : State} (hs : LifeCycle s) (ht : LifeCycle t)
    (hlog : s.trace <+: t.trace) :
    ∃ l, t.trace = s.trace ++ l ∧ releasedIn l = leftIn l ∧ Prompt l := by
  obtain ⟨l, hl⟩ := hlog
  have hrel : releasedIn (s.trace ++ l) = leftIn (s.trace ++ l) := by
    rw [hl]
    exact ht.released
  rw [releasedIn_append, leftIn_append, hs.released] at hrel
  have hprompt : Prompt (s.trace ++ l) := by
    rw [hl]
    exact ht.prompt
  exact ⟨l, hl.symm, List.append_cancel_left hrel, prompt_suffix hprompt⟩

/-- During the boot and after every call of every run, `all_list` holds the threads born and not
gone, in the order of their birth; who leaves in a call is freed in that call, and no statement of
any call frees a thread that has not left or that anything still refers to. -/
theorem life_cycle :
    (∀ s, Booting s → LifeCycle s) ∧
    ∀ s₀ ops s, Launched s₀ → Run Step s₀ ops s → LifeCycle s ∧ ∀ op, Allowed s op →
      Every Frees op.code s ∧
      ∀ t, Step s op t → ∃ l, t.trace = s.trace ++ l ∧ releasedIn l = leftIn l ∧ Prompt l := by
  refine ⟨fun s hs => hs.lifeCycle, fun s₀ ops s h₀ hrun => ?_⟩
  have hs : Inv s := inv_of_run hrun h₀.inv
  have hlife : LifeCycle s := lifeCycle_of_run h₀ hrun
  refine ⟨hlife, fun op ha => ⟨every_frees hs ha, fun t hstep => ?_⟩⟩
  exact hlife.step (lifeCycle_of_run h₀ (hrun.snoc hstep))
    (hstep.moves hs).log

/-- A thread is created and exits. -/
theorem life_cycle_one_thread :
    LifeCycle (effects ((settings none).booting 0 0).yielded
      [.threadCreate .other (some 1) 5, .threadExit]) ∧
    releasedIn (effects ((settings none).booting 0 0).yielded
      [.threadCreate .other (some 1) 5, .threadExit]).trace = [(.block 1, 3)] := by
  have h₀ : Launched ((settings none).booting 0 0).yielded := ⟨none, 0, 0, run_boot none 0 0⟩
  refine ⟨(life_cycle.2 _ _ _ h₀ (run_of_allows h₀.inv ?_)).1, ?_⟩
  · decide +kernel
  · decide +kernel

end PicoOS
