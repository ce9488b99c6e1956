/-
# `PicoOS.Sched.Invariant` — where every thread is

`Linked` is what the three lists promise on their own: no thread occurs twice,
a thread in `ready_list` is READY, one in `lista_espera` is BLOCKED, both are
live workers, and `idle_thread` and `initial_thread` exist and are in neither.
It says nothing about the current thread, and so it holds in the middle of a
function as well as between calls.

`Placed` adds what holds between calls: one thread is RUNNING and it is the
current one, no thread is DYING, and every live worker is the current thread or
in a list.  `Inv` is both.

`Parked` is `Placed` in the moment before `schedule`, when the current thread
has given up the processor and stands in a list, or is idle, or is dying.  The
four functions that switch (`Stop`) take an `Inv` state to a `Parked` one
(`Stop.parked`), and `dispatch` takes that back to `Inv` (`Parked.dispatch`).
-/
import PicoOS.Sched.Specs

namespace PicoOS

/-! ## The lists -/

/-- What `ready_list`, `lista_espera` and `all_list` promise. -/
structure Linked (s : State) : Prop where
  readyNodup : s.readyList.Nodup
  esperaNodup : s.listaEspera.Nodup
  allNodup : s.allList.Nodup
  ready : ∀ a ∈ s.readyList, s.statusOf a = some .ready ∧ s.worker a ∧ a ∈ s.allList
  espera : ∀ a ∈ s.listaEspera, s.statusOf a = some .blocked ∧ s.worker a ∧ a ∈ s.allList
  live : ∀ a ∈ s.allList, s.statusOf a ≠ none
  magic : ∀ a th, s.heap a = some th → th.magic = threadMagic
  idle : ∃ i, s.idleThread = some i ∧ i ∈ s.allList ∧ i ≠ s.initialThread
  initial : s.initialThread ∈ s.allList
  tids : 2 < s.nextTid

theorem State.statusOf_ne_none {s : State} {a : Addr} :
    s.statusOf a ≠ none ↔ ∃ th, s.heap a = some th := by
  rw [State.statusOf, Ne, Option.map_eq_none_iff, ← Ne, Option.ne_none_iff_exists']

theorem State.statusOf_eq_some {s : State} {a : Addr} {st : ThreadStatus} :
    s.statusOf a = some st ↔ ∃ th, s.heap a = some th ∧ th.status = st := by
  rw [State.statusOf, Option.map_eq_some_iff]

theorem State.statusOf_mapThread (a b : Addr) {f : Thread → Thread}
    (hf : ∀ th, (f th).status = th.status) (s : State) :
    (s.mapThread a f).statusOf b = s.statusOf b := by
  simp only [State.statusOf, State.mapThread_heap]
  split_ifs
  · simp [Function.comp_def, hf]
  · rfl

theorem State.magic_mapThread {a : Addr} {f : Thread → Thread} {s : State}
    (hf : ∀ th, (f th).magic = th.magic)
    (h : ∀ a th, s.heap a = some th → th.magic = threadMagic) :
    ∀ b th, (s.mapThread a f).heap b = some th → th.magic = threadMagic := by
  intro b th hb
  rw [State.mapThread_heap] at hb
  split_ifs at hb
  · obtain ⟨th', hth', rfl⟩ := Option.map_eq_some_iff.mp hb
    rw [hf]
    exact h b th' hth'
  · exact h b th hb

theorem State.magic_setStatus {s : State} (a : Addr) (st : ThreadStatus)
    (h : ∀ a th, s.heap a = some th → th.magic = threadMagic) :
    ∀ b th, (s.setStatus a st).heap b = some th → th.magic = threadMagic :=
  State.magic_mapThread (fun _ => rfl) h

/-- A live thread is not in a block that `calloc` may return. -/
theorem State.ne_fresh {s : State} {a : Addr} {b : Nat} (hb : s.heap (.block b) = none)
    (ha : s.statusOf a ≠ none) : a ≠ .block b := by
  rintro rfl
  exact ha (congrArg (Option.map Thread.status) hb)

namespace Linked

variable {s : State}

theorem fresh (h : Linked s) {b : Nat} (hb : s.heap (.block b) = none) : Fresh s b := by
  have hall : Addr.block b ∉ s.allList := fun hm =>
    State.ne_fresh hb (h.live _ hm) rfl
  have hr : Addr.block b ∉ s.readyList := fun hm => hall (h.ready _ hm).2.2
  have he : Addr.block b ∉ s.listaEspera := fun hm => hall (h.espera _ hm).2.2
  exact ⟨hb, hall, by simp [State.linked, hr, he]⟩

theorem switchable (h : Linked s) : Switchable s := by
  cases hr : s.readyList with
  | nil =>
      obtain ⟨i, hi, hmem, -⟩ := h.idle
      obtain ⟨th, hth⟩ := State.statusOf_ne_none.mp (h.live i hmem)
      exact ⟨i, th, by rw [State.next, hr, hi], hth, h.magic i th hth⟩
  | cons t rest =>
      have ht : t ∈ s.readyList := by rw [hr]; exact List.mem_cons_self ..
      obtain ⟨th, hth⟩ := State.statusOf_ne_none.mp (h.live t (h.ready t ht).2.2)
      exact ⟨t, th, by rw [State.next, hr], hth, h.magic t th hth⟩

theorem sleeping (h : Linked s) : Sleeping s s.listaEspera where
  nodup := h.esperaNodup
  espera := h.esperaNodup
  mem _ ha := ha
  unlinked a ha hr := by
    have h₁ := (h.ready a hr).1
    rw [(h.espera a ha).1] at h₁
    cases h₁
  blocked a ha := by
    obtain ⟨th, hth, hb⟩ := State.statusOf_eq_some.mp (h.espera a ha).1
    exact ⟨th, hth, h.magic a th hth, hb⟩

/-- A step that keeps the lists and the globals, and the status of every thread in a list. -/
theorem frame (h : Linked s) {t : State} (hr : t.readyList = s.readyList)
    (he : t.listaEspera = s.listaEspera) (ha : t.allList = s.allList)
    (hi : t.idleThread = s.idleThread) (hn : t.initialThread = s.initialThread)
    (htid : s.nextTid ≤ t.nextTid) (hm : ∀ a th, t.heap a = some th → th.magic = threadMagic)
    (hst : ∀ a, s.statusOf a ≠ none → t.statusOf a ≠ none)
    (hst' : ∀ a, a ∈ s.readyList ∨ a ∈ s.listaEspera → t.statusOf a = s.statusOf a) :
    Linked t := by
  refine ⟨?_, ?_, ?_, ?_, ?_, ?_, hm, ?_, ?_, ?_⟩
  · rw [hr]; exact h.readyNodup
  · rw [he]; exact h.esperaNodup
  · rw [ha]; exact h.allNodup
  · intro a hmem
    rw [hr] at hmem
    rw [hst' a (.inl hmem), State.worker, hi, hn, ha]
    exact h.ready a hmem
  · intro a hmem
    rw [he] at hmem
    rw [hst' a (.inr hmem), State.worker, hi, hn, ha]
    exact h.espera a hmem
  · intro a hmem
    rw [ha] at hmem
    exact hst a (h.live a hmem)
  · rw [hi, ha, hn]; exact h.idle
  · rw [hn, ha]; exact h.initial
  · exact Nat.lt_of_lt_of_le h.tids htid

/-! ### One list operation at a time -/

theorem statusOf_set (h : Linked s) {a : Addr} (ha : a ∈ s.allList) (b : Addr)
    (st : ThreadStatus) :
    (s.setStatus a st).statusOf b = if b = a then some st else s.statusOf b := by
  rw [State.statusOf_setStatus]
  split_ifs with hb
  · obtain ⟨th, hth⟩ := State.statusOf_ne_none.mp (h.live a ha)
    simp [State.statusOf, hb, hth]
  · rfl

/-- The status of a thread in neither list may change. -/
theorem setStatus_off (h : Linked s) {a : Addr} (hr : a ∉ s.readyList) (he : a ∉ s.listaEspera)
    (st : ThreadStatus) : Linked (s.setStatus a st) := by
  refine h.frame rfl rfl rfl rfl rfl (Nat.le_refl _) (State.magic_setStatus a st h.magic) ?_ ?_
  · intro b hb
    rw [State.statusOf_setStatus]
    split_ifs
    · simpa using hb
    · exact hb
  · intro b hb
    rw [State.statusOf_setStatus, if_neg]
    rintro rfl
    exact hb.elim hr he

theorem mapThread (h : Linked s) (a : Addr) {f : Thread → Thread}
    (hm : ∀ th, (f th).magic = th.magic) (hst : ∀ th, (f th).status = th.status) :
    Linked (s.mapThread a f) := by
  refine h.frame rfl rfl rfl rfl rfl (Nat.le_refl _) (State.magic_mapThread hm h.magic) ?_ ?_
  · intro b hb
    rw [State.statusOf_mapThread a b hst]
    exact hb
  · intro b _
    exact State.statusOf_mapThread a b hst s

theorem charge (h : Linked s) : Linked s.charge := by
  have hm := h.mapThread s.threadRunningVar (f := fun th =>
    { th with durationTicks := th.durationTicks - 1 }) (fun _ => rfl) (fun _ => rfl)
  exact hm.frame rfl rfl rfl rfl rfl (Nat.le_refl _) hm.magic (fun _ hb => hb) (fun _ _ => rfl)

/-- A registered worker in neither list goes to the back of `ready_list`. -/
theorem enqueue_ready (h : Linked s) {a : Addr} (hr : a ∉ s.readyList) (he : a ∉ s.listaEspera)
    (hw : s.worker a) (ha : a ∈ s.allList) : Linked ((s.enqueue a).setStatus a .ready) := by
  have hs : ∀ b, ((s.enqueue a).setStatus a .ready).statusOf b =
      if b = a then some .ready else s.statusOf b := fun b => h.statusOf_set ha b .ready
  refine ⟨?_, h.esperaNodup, h.allNodup, ?_, ?_, ?_, State.magic_setStatus a _ h.magic, h.idle,
    h.initial, h.tids⟩
  · show (s.readyList ++ [a]).Nodup
    exact List.concat_eq_append ▸ h.readyNodup.concat hr
  · intro b hb
    rw [hs]
    split_ifs with hba
    · cases hba
      exact ⟨rfl, hw, ha⟩
    · have hb' : b ∈ s.readyList := by
        rcases List.mem_append.mp hb with hb | hb
        · exact hb
        · exact absurd (List.mem_singleton.mp hb) hba
      exact h.ready b hb'
  · intro b hb
    have hba : b ≠ a := fun hba => he (hba ▸ hb)
    rw [hs, if_neg hba]
    exact h.espera b hb
  · intro b hb
    rw [hs]
    split_ifs
    · simp
    · exact h.live b hb

/-- A sleeper is woken. -/
theorem wakeOne (h : Linked s) {a : Addr} (ha : a ∈ s.listaEspera) : Linked (s.wakeOne a) := by
  have herase : Linked { s with listaEspera := s.listaEspera.erase a } := by
    refine ⟨h.readyNodup, h.esperaNodup.erase a, h.allNodup, h.ready, ?_, h.live, h.magic, h.idle,
      h.initial, h.tids⟩
    intro b hb
    exact h.espera b (List.mem_of_mem_erase hb)
  have hr : a ∉ s.readyList := h.sleeping.unlinked a ha
  obtain ⟨-, hw, hall⟩ := h.espera a ha
  exact herase.enqueue_ready hr h.esperaNodup.not_mem_erase hw hall

/-- A registered worker in neither list goes to the back of `lista_espera`. -/
theorem drowsy_blocked (h : Linked s) (hr : s.threadRunningVar ∉ s.readyList)
    (he : s.threadRunningVar ∉ s.listaEspera) (hw : s.worker s.threadRunningVar)
    (ha : s.threadRunningVar ∈ s.allList) : Linked (s.drowsy.setCurrent .blocked) := by
  have hs : ∀ b, (s.drowsy.setCurrent .blocked).statusOf b =
      if b = s.threadRunningVar then some .blocked else s.statusOf b :=
    fun b => h.statusOf_set ha b .blocked
  refine ⟨h.readyNodup, ?_, h.allNodup, ?_, ?_, ?_, State.magic_setStatus _ _ h.magic, h.idle,
    h.initial, h.tids⟩
  · show (s.listaEspera ++ [s.threadRunningVar]).Nodup
    exact List.concat_eq_append ▸ h.esperaNodup.concat he
  · intro b hb
    have hne : b ≠ s.threadRunningVar := fun hba => hr (hba ▸ hb)
    rw [hs, if_neg hne]
    exact h.ready b hb
  · intro b hb
    rw [hs]
    split_ifs with hba
    · cases hba
      exact ⟨rfl, hw, ha⟩
    · have hb' : b ∈ s.listaEspera := by
        rcases List.mem_append.mp hb with hb | hb
        · exact hb
        · exact absurd (List.mem_singleton.mp hb) hba
      exact h.espera b hb'
  · intro b hb
    rw [hs]
    split_ifs
    · simp
    · exact h.live b hb

/-- A worker in neither list leaves `all_list`. -/
theorem unregister (h : Linked s) (hr : s.threadRunningVar ∉ s.readyList)
    (he : s.threadRunningVar ∉ s.listaEspera) (hw : s.worker s.threadRunningVar) :
    Linked s.unregister := by
  have hmem : ∀ b ∈ s.allList, b ≠ s.threadRunningVar → b ∈ s.unregister.allList :=
    fun b hb hne => (List.mem_erase_of_ne hne).mpr hb
  refine ⟨h.readyNodup, h.esperaNodup, h.allNodup.erase _, ?_, ?_, ?_, h.magic, ?_, ?_, h.tids⟩
  · intro b hb
    obtain ⟨h₁, h₂, h₃⟩ := h.ready b hb
    exact ⟨h₁, h₂, hmem b h₃ fun hba => hr (hba ▸ hb)⟩
  · intro b hb
    obtain ⟨h₁, h₂, h₃⟩ := h.espera b hb
    exact ⟨h₁, h₂, hmem b h₃ fun hba => he (hba ▸ hb)⟩
  · intro b hb
    exact h.live b (List.mem_of_mem_erase hb)
  · obtain ⟨i, hi, hall, hne⟩ := h.idle
    exact ⟨i, hi, hmem i hall fun hic => hw.1 (hic ▸ hi), hne⟩
  · exact hmem _ h.initial fun hic => hw.2 hic.symm

theorem statusOf_adopt (s : State) (b : Nat) (d : Int) (a : Addr) :
    (s.adopt b d).statusOf a = if a = .block b then some .ready else s.statusOf a := by
  simp only [State.statusOf, State.adopt, Function.update_apply]
  split_ifs <;> rfl

/-- A new thread. -/
theorem adopt (h : Linked s) {b : Nat} (hb : s.heap (.block b) = none) (d : Int) :
    Linked (s.adopt b d) := by
  have hall := (h.fresh hb).all
  have hold : ∀ a ∈ s.allList, (s.adopt b d).statusOf a = s.statusOf a ∧
      a ∈ (s.adopt b d).allList := by
    intro a ha
    have hne : a ≠ .block b := fun he => hall (he ▸ ha)
    exact ⟨by rw [statusOf_adopt, if_neg hne], List.mem_append_left _ ha⟩
  have hnew : s.worker (.block b) := by
    obtain ⟨i, hi, hmem, -⟩ := h.idle
    refine ⟨fun he => ?_, fun he => hall (he ▸ h.initial)⟩
    rw [hi] at he
    exact hall (Option.some.inj he ▸ hmem)
  have hready : Addr.block b ∉ s.readyList := fun hm => hall (h.ready _ hm).2.2
  refine ⟨?_, h.esperaNodup, ?_, ?_, ?_, ?_, ?_, ?_, (hold _ h.initial).2,
    Nat.lt_succ_of_lt h.tids⟩
  · show (s.readyList ++ [Addr.block b]).Nodup
    exact List.concat_eq_append ▸ h.readyNodup.concat hready
  · show (s.allList ++ [Addr.block b]).Nodup
    exact List.concat_eq_append ▸ h.allNodup.concat hall
  · intro a ha
    rcases List.mem_append.mp ha with ha | ha
    · obtain ⟨h₁, h₂, h₃⟩ := h.ready a ha
      exact ⟨(hold a h₃).1.trans h₁, h₂, (hold a h₃).2⟩
    · cases List.mem_singleton.mp ha
      refine ⟨?_, hnew, List.mem_append_right _ (List.mem_singleton_self _)⟩
      rw [statusOf_adopt, if_pos rfl]
  · intro a ha
    obtain ⟨h₁, h₂, h₃⟩ := h.espera a ha
    exact ⟨(hold a h₃).1.trans h₁, h₂, (hold a h₃).2⟩
  · intro a ha
    rw [statusOf_adopt]
    split_ifs with hab
    · simp
    · rcases List.mem_append.mp ha with ha | ha
      · exact h.live a ha
      · exact absurd (List.mem_singleton.mp ha) hab
  · intro a th ha
    simp only [State.adopt, Function.update_apply] at ha
    split_ifs at ha
    · cases ha
      rfl
    · exact h.magic a th ha
  · obtain ⟨i, hi, hmem, hne⟩ := h.idle
    exact ⟨i, hi, (hold i hmem).2, hne⟩

/-- The next thread is in neither list once it is popped. -/
theorem succ_unlinked (h : Linked s) :
    s.succ ∉ s.readyList.tail ∧ s.succ ∉ s.listaEspera := by
  cases hr : s.readyList with
  | nil =>
      obtain ⟨i, hi, -⟩ := h.idle
      have hsucc : s.succ = i := State.succ_nil hr hi
      refine ⟨List.not_mem_nil, fun he => ?_⟩
      exact (h.espera _ he).2.1.1 (hsucc ▸ hi)
  | cons t rest =>
      have hsucc : s.succ = t := State.succ_cons hr
      have hnd := h.readyNodup
      rw [hr] at hnd
      rw [hsucc]
      refine ⟨(List.nodup_cons.mp hnd).1, fun he => ?_⟩
      exact h.sleeping.unlinked t he (by rw [hr]; exact List.mem_cons_self ..)

/-- `schedule` keeps the lists, if a dying thread has left them. -/
theorem dispatch (h : Linked s) (hd : s.statusOf s.threadRunningVar = some .dying →
    s.threadRunningVar ∉ s.allList) : Linked s.dispatch := by
  have hs := s.statusOf_dispatch
  have hreap : ∀ a ∈ s.allList, ¬ s.reaped a := by
    intro a ha hr
    exact hd (hr.1 ▸ hr.2.2.1) (hr.1 ▸ ha)
  refine ⟨h.readyNodup.tail, h.esperaNodup, h.allNodup, ?_, ?_, ?_, ?_, h.idle, h.initial,
    h.tids⟩
  · intro a ha
    have hold := h.ready a (List.mem_of_mem_tail ha)
    have hne : a ≠ s.succ := fun he => h.succ_unlinked.1 (he ▸ ha)
    rw [hs, if_neg hne, if_neg (hreap a hold.2.2)]
    exact hold
  · intro a ha
    have hold := h.espera a ha
    have hne : a ≠ s.succ := fun he => h.succ_unlinked.2 (he ▸ ha)
    rw [hs, if_neg hne, if_neg (hreap a hold.2.2)]
    exact hold
  · intro a ha
    rw [hs, if_neg (hreap a ha)]
    split_ifs
    · simpa using h.live a ha
    · exact h.live a ha
  · intro a th ha
    simp only [State.dispatch] at ha
    split_ifs at ha
    · obtain ⟨th', hth', rfl⟩ := Option.map_eq_some_iff.mp ha
      exact h.magic a th' hth'
    · exact h.magic a th ha

end Linked

/-! ## The current thread -/

/-- Between calls: who runs, and that no live thread is astray. -/
structure Placed (s : State) : Prop where
  running : ∀ a, s.statusOf a = some .running ↔ a = s.threadRunningVar
  alive : ∀ a, s.statusOf a ≠ some .dying
  kept : ∀ a, s.statusOf a ≠ none → s.worker a →
    a = s.threadRunningVar ∨ a ∈ s.readyList ∨ a ∈ s.listaEspera
  registered : ∀ a, s.statusOf a ≠ none → a ∈ s.allList
  current : s.threadRunningVar ≠ s.initialThread

/-- The invariant of the scheduler between calls. -/
structure Inv (s : State) : Prop extends Linked s, Placed s

/-- Before `schedule`: the current thread has given up the processor. -/
structure Parked (s : State) : Prop extends Linked s where
  stopped : s.statusOf s.threadRunningVar ≠ some .running
  still : ∀ a, a ≠ s.threadRunningVar →
    s.statusOf a ≠ some .running ∧ s.statusOf a ≠ some .dying
  stored : ∀ a, s.statusOf a ≠ none → s.statusOf a ≠ some .dying →
    a ∈ s.allList ∧ (s.worker a → a ∈ s.readyList ∨ a ∈ s.listaEspera)
  dying : s.statusOf s.threadRunningVar = some .dying →
    s.threadRunningVar ∉ s.allList ∧ s.worker s.threadRunningVar
  current : s.threadRunningVar ≠ s.initialThread

namespace Inv

variable {s : State}

theorem hasCurrent (h : Inv s) : HasCurrent s := by
  obtain ⟨c, hc, hst⟩ := State.statusOf_eq_some.mp ((h.running _).mpr rfl)
  exact ⟨c, hc, h.magic _ c hc, hst⟩

theorem live_current (h : Inv s) : s.statusOf s.threadRunningVar ≠ none := by
  rw [(h.running _).mpr rfl]
  simp

theorem not_ready (h : Inv s) : s.threadRunningVar ∉ s.readyList := by
  intro hm
  have hst := (h.ready _ hm).1
  rw [(h.running _).mpr rfl] at hst
  cases hst

theorem not_espera (h : Inv s) : s.threadRunningVar ∉ s.listaEspera := by
  intro hm
  have hst := (h.espera _ hm).1
  rw [(h.running _).mpr rfl] at hst
  cases hst

theorem not_linked (h : Inv s) : s.linked s.threadRunningVar = false := by
  simp [State.linked, h.not_ready, h.not_espera]

theorem fit (h : Inv s) : Fit s where
  current := h.hasCurrent
  next := h.toLinked.switchable
  unlinked _ := h.not_linked
  registered _ := h.registered _ h.live_current

theorem others (h : Inv s) {a : Addr} (ha : a ≠ s.threadRunningVar) :
    s.statusOf a ≠ some .running ∧ s.statusOf a ≠ some .dying :=
  ⟨fun hr => ha ((h.running a).mp hr), h.alive a⟩

end Inv

/-- The thread `schedule` switches to is a thread of `all_list`, not `initial_thread`, and if it
is not the idle thread it heads `ready_list`. -/
theorem Linked.succ_spec {s : State} (h : Linked s) : s.succ ∈ s.allList ∧
    s.succ ≠ s.initialThread ∧
    (s.worker s.succ → ∃ rest, s.readyList = s.succ :: rest) := by
  cases hr : s.readyList with
  | nil =>
      obtain ⟨i, hi, hmem, hne⟩ := h.idle
      have hsucc : s.succ = i := State.succ_nil hr hi
      rw [hsucc]
      exact ⟨hmem, hne, fun hw => absurd hi hw.1⟩
  | cons t rest =>
      have hsucc : s.succ = t := State.succ_cons hr
      have ht := h.ready t (by rw [hr]; exact List.mem_cons_self ..)
      rw [hsucc]
      exact ⟨ht.2.2, ht.2.1.2, fun _ => ⟨rest, rfl⟩⟩

/-- `schedule` switches to the idle thread only if nothing is ready. -/
theorem Linked.alone_of_idle {s : State} (h : Linked s) (hi : s.idleThread = some s.succ) :
    s.readyList = [] := by
  cases hr : s.readyList with
  | nil => rfl
  | cons t rest =>
      have hsucc : s.succ = t := State.succ_cons hr
      have ht := h.ready t (by rw [hr]; exact List.mem_cons_self ..)
      exact absurd (hsucc ▸ hi) ht.2.1.1

theorem State.mem_tail_ready {s : State} {a : Addr} (ha : a ∈ s.readyList) (hne : a ≠ s.succ) :
    a ∈ s.readyList.tail := by
  cases hr : s.readyList with
  | nil =>
      rw [hr] at ha
      cases ha
  | cons t rest =>
      rw [hr] at ha
      rcases List.mem_cons.mp ha with rfl | ha
      · exact absurd (State.succ_cons hr).symm hne
      · exact ha

/-- `schedule` takes a parked state to one between calls. -/
theorem Parked.dispatch {s : State} (h : Parked s) : Inv s.dispatch := by
  obtain ⟨hall, hinit, -⟩ := h.toLinked.succ_spec
  obtain ⟨th, hth⟩ := State.statusOf_ne_none.mp (h.live _ hall)
  have hsucc : s.dispatch.statusOf s.succ = some .running := by
    rw [s.statusOf_dispatch, if_pos rfl]
    simp [State.statusOf, hth]
  have hold : ∀ a, a ≠ s.succ → s.dispatch.statusOf a ≠ none →
      s.dispatch.statusOf a = s.statusOf a ∧ s.statusOf a ≠ some .dying := by
    intro a hne hlive
    rw [s.statusOf_dispatch, if_neg hne] at hlive ⊢
    split_ifs at hlive ⊢ with hr
    · exact absurd rfl hlive
    · refine ⟨rfl, fun hd => ?_⟩
      by_cases hcur : a = s.threadRunningVar
      · exact hr ⟨hcur, hne, hd, hcur ▸ h.current⟩
      · exact (h.still a hcur).2 hd
  refine ⟨h.toLinked.dispatch fun hd => (h.dying hd).1, ?_, ?_, ?_, ?_, hinit⟩
  · intro a
    refine ⟨fun hr => ?_, fun he => ?_⟩
    · by_contra hne
      have hst := (hold a hne (by rw [hr]; simp)).1
      rw [hr] at hst
      by_cases hcur : a = s.threadRunningVar
      · exact h.stopped (hcur ▸ hst.symm)
      · exact (h.still a hcur).1 hst.symm
    · cases he
      exact hsucc
  · intro a hd
    by_cases hne : a = s.succ
    · rw [hne, hsucc] at hd
      cases hd
    · obtain ⟨hst, hnd⟩ := hold a hne (by rw [hd]; simp)
      exact hnd (hst ▸ hd)
  · intro a hlive hw
    by_cases hne : a = s.succ
    · exact .inl hne
    · obtain ⟨hst, hnd⟩ := hold a hne hlive
      rcases (h.stored a (hst ▸ hlive) hnd).2 hw with hr | he
      · exact .inr (.inl (State.mem_tail_ready hr hne))
      · exact .inr (.inr he)
  · intro a hlive
    by_cases hne : a = s.succ
    · exact hne ▸ hall
    · obtain ⟨hst, hnd⟩ := hold a hne hlive
      exact (h.stored a (hst ▸ hlive) hnd).1

/-! ## The functions that switch -/

namespace Inv

variable {s : State}

/-- Between `cur->status = …` and `schedule`: the current thread has the status `st` and has
changed lists, nothing else has moved. -/
theorem parked (h : Inv s) {m : State} (st : ThreadStatus) (hm : Linked m)
    (hcur : m.threadRunningVar = s.threadRunningVar) (hidle : m.idleThread = s.idleThread)
    (hinit : m.initialThread = s.initialThread) (hst : st ≠ .running)
    (hstat : ∀ a, m.statusOf a = if a = s.threadRunningVar then some st else s.statusOf a)
    (hr : ∀ a ∈ s.readyList, a ∈ m.readyList) (he : ∀ a ∈ s.listaEspera, a ∈ m.listaEspera)
    (ha : ∀ a ∈ s.allList, a ≠ s.threadRunningVar → a ∈ m.allList)
    (hkept : st ≠ .dying → s.threadRunningVar ∈ m.allList ∧ (s.worker s.threadRunningVar →
      s.threadRunningVar ∈ m.readyList ∨ s.threadRunningVar ∈ m.listaEspera))
    (hgone : st = .dying → s.threadRunningVar ∉ m.allList ∧ s.worker s.threadRunningVar) :
    Parked m := by
  have hw : ∀ a, m.worker a ↔ s.worker a := by
    intro a
    rw [State.worker, hidle, hinit]
    rfl
  refine ⟨hm, ?_, ?_, ?_, ?_, ?_⟩
  · rw [hstat, hcur, if_pos rfl]
    exact fun hs => hst (Option.some.inj hs)
  · intro a hne
    rw [hcur] at hne
    rw [hstat, if_neg hne]
    exact h.others hne
  · intro a hlive hnd
    rw [hstat] at hlive hnd
    rw [hw]
    split_ifs at hlive hnd with hac
    · rw [hac]
      exact hkept fun hs => hnd (congrArg some hs)
    · refine ⟨ha a (h.registered a hlive) hac, fun hwa => ?_⟩
      rcases h.kept a hlive hwa with hk | hk | hk
      · exact absurd hk hac
      · exact .inl (hr a hk)
      · exact .inr (he a hk)
  · rw [hstat, hcur, if_pos rfl, hw]
    exact fun hs => hgone (Option.some.inj hs)
  · rw [hcur, hinit]
    exact h.current

end Inv

/-- The current thread gives up the processor: the states in which the four functions that
switch call `schedule`. -/
inductive Stop : State → State → Prop
  | block {s : State} (hi : s.idleThread = some s.threadRunningVar) : Stop s (s.setCurrent .blocked)
  | yield {s : State} (hr : s.readyList ≠ []) :
      Stop s (s.requeued.setStatus s.threadRunningVar .ready)
  | exit {s : State} (hw : s.worker s.threadRunningVar) :
      Stop s (s.unregister.setCurrent .dying)
  | sleep {s : State} (hw : s.worker s.threadRunningVar) : Stop s (s.drowsy.setCurrent .blocked)

theorem Stop.parked {s m : State} (hm : Stop s m) (h : Inv s) : Parked m := by
  have hall := h.registered _ h.live_current
  cases hm with
  | block hi =>
      have hl : Linked (s.setCurrent .blocked) :=
        h.toLinked.setStatus_off h.not_ready h.not_espera .blocked
      refine h.parked .blocked hl rfl rfl rfl (by decide) ?_ (fun _ ha => ha) (fun _ ha => ha)
        (fun _ ha _ => ha) ?_ fun hd => ?_
      · exact fun a => h.toLinked.statusOf_set hall a .blocked
      · exact fun _ => ⟨hall, fun hw => absurd hi hw.1⟩
      · cases hd
  | yield hr =>
      by_cases hw : s.worker s.threadRunningVar
      · have hl : Linked ((s.enqueue s.threadRunningVar).setStatus s.threadRunningVar .ready) :=
          h.toLinked.enqueue_ready h.not_ready h.not_espera hw hall
        rw [State.requeued, if_pos hw]
        refine h.parked .ready hl rfl rfl rfl (by decide) ?_
          (fun _ ha => List.mem_append_left _ ha) (fun _ ha => ha) (fun _ ha _ => ha) ?_ fun hd => ?_
        · exact fun a => h.toLinked.statusOf_set hall a .ready
        · exact fun _ =>
            ⟨hall, fun _ => .inl (List.mem_append_right _ (List.mem_singleton_self _))⟩
        · cases hd
      · have hl : Linked (s.setStatus s.threadRunningVar .ready) :=
          h.toLinked.setStatus_off h.not_ready h.not_espera .ready
        rw [State.requeued, if_neg hw]
        refine h.parked .ready hl rfl rfl rfl (by decide) ?_ (fun _ ha => ha) (fun _ ha => ha)
          (fun _ ha _ => ha) ?_ fun hd => ?_
        · exact fun a => h.toLinked.statusOf_set hall a .ready
        · exact fun _ => ⟨hall, fun hwc => absurd hwc hw⟩
        · cases hd
  | exit hw =>
      have hl : Linked (s.unregister.setCurrent .dying) :=
        (h.toLinked.unregister h.not_ready h.not_espera hw).setStatus_off h.not_ready
          h.not_espera .dying
      refine h.parked .dying hl rfl rfl rfl (by decide) ?_ (fun _ ha => ha) (fun _ ha => ha) ?_
        (fun hd => absurd rfl hd) ?_
      · exact fun a => h.toLinked.statusOf_set hall a .dying
      · exact fun a ha hne => (List.mem_erase_of_ne hne).mpr ha
      · exact fun _ => ⟨h.allNodup.not_mem_erase, hw⟩
  | sleep hw =>
      have hl : Linked (s.drowsy.setCurrent .blocked) :=
        h.toLinked.drowsy_blocked h.not_ready h.not_espera hw hall
      refine h.parked .blocked hl rfl rfl rfl (by decide) ?_ (fun _ ha => ha)
        (fun _ ha => List.mem_append_left _ ha) (fun _ ha _ => ha) ?_ fun hd => ?_
      · exact fun a => h.toLinked.statusOf_set hall a .blocked
      · exact fun _ =>
          ⟨hall, fun _ => .inr (List.mem_append_right _ (List.mem_singleton_self _))⟩
      · cases hd

theorem Stop.current {s m : State} (hm : Stop s m) :
    m.threadRunningVar = s.threadRunningVar := by
  cases hm with
  | block => rfl
  | yield => exact s.requeued_current
  | exit => rfl
  | sleep => rfl

theorem Stop.heap {s m : State} (hm : Stop s m) {a : Addr} (ha : a ≠ s.threadRunningVar) :
    m.heap a = s.heap a := by
  cases hm with
  | block => exact (State.setStatus_heap _ _ _ _).trans (if_neg ha)
  | yield =>
      refine (State.setStatus_heap _ _ _ _).trans ((if_neg ha).trans ?_)
      rw [State.requeued_heap]
  | exit => exact (State.setStatus_heap _ _ _ _).trans (if_neg ha)
  | sleep => exact (State.setStatus_heap _ _ _ _).trans (if_neg ha)

theorem Stop.espera {s m : State} (hm : Stop s m) {a : Addr} (ha : a ∈ s.listaEspera) :
    a ∈ m.listaEspera := by
  cases hm with
  | block => exact ha
  | yield =>
      show a ∈ s.requeued.listaEspera
      unfold State.requeued
      split_ifs <;> exact ha
  | exit => exact ha
  | sleep => exact List.mem_append_left _ ha

theorem Stop.ticks {s m : State} (hm : Stop s m) : m.ticks = s.ticks := by
  cases hm with
  | block => rfl
  | yield =>
      show s.requeued.ticks = s.ticks
      unfold State.requeued
      split_ifs <;> rfl
  | exit => rfl
  | sleep => rfl

/-- A thread that stops keeps its ticks. -/
theorem Stop.durationOf {s m : State} (hm : Stop s m) (a : Addr) :
    m.durationOf a = s.durationOf a := by
  cases hm with
  | block => exact State.durationOf_setStatus ..
  | yield =>
      refine (State.durationOf_setStatus ..).trans ?_
      rw [State.durationOf, State.requeued_heap, State.durationOf]
  | exit => exact State.durationOf_setStatus ..
  | sleep => exact State.durationOf_setStatus ..

theorem Stop.worker {s m : State} (hm : Stop s m) (a : Addr) : m.worker a ↔ s.worker a := by
  cases hm with
  | block => exact Iff.rfl
  | yield =>
      show s.requeued.worker a ↔ s.worker a
      unfold State.requeued
      split_ifs <;> exact Iff.rfl
  | exit => exact Iff.rfl
  | sleep => exact Iff.rfl

theorem Stop.live {s m : State} (hm : Stop s m) (hs : Inv s) {a : Addr}
    (ha : m.statusOf a ≠ none) : s.statusOf a ≠ none := by
  by_cases hcur : a = s.threadRunningVar
  · rw [hcur]
    exact hs.live_current
  · rw [State.statusOf, ← hm.heap hcur]
    exact ha

/-- The thread that stopped is not the one `schedule` takes from `ready_list`. -/
theorem Stop.head_ne {s m : State} (hm : Stop s m) (h : Inv s) :
    m.readyList.head? ≠ some m.threadRunningVar := by
  have hkeep : ∀ l : List Addr, s.threadRunningVar ∉ l → l.head? ≠ some s.threadRunningVar :=
    fun l hl hh => hl (List.mem_of_mem_head? hh)
  rw [hm.current]
  cases hm with
  | block => exact hkeep _ h.not_ready
  | yield hr =>
      have hhead : s.requeued.readyList.head? = s.readyList.head? := by
        obtain ⟨t, rest, hcons⟩ := List.exists_cons_of_ne_nil hr
        unfold State.requeued
        split_ifs
        · simp [State.enqueue, State.log, hcons]
        · rfl
      show s.requeued.readyList.head? ≠ _
      rw [hhead]
      exact hkeep _ h.not_ready
  | exit => exact hkeep _ h.not_ready
  | sleep => exact hkeep _ h.not_ready

namespace Inv

variable {s : State}

/-! ## The functions that do not switch -/

/-- A new thread. -/
theorem adopt (h : Inv s) {b : Nat} (hb : s.heap (.block b) = none) (d : Int) :
    Inv (s.adopt b d) := by
  have hs := Linked.statusOf_adopt s b d
  have hcur : s.threadRunningVar ≠ .block b := by
    intro he
    exact h.live_current (by rw [he, State.statusOf, hb]; rfl)
  refine ⟨h.toLinked.adopt hb d, ?_, ?_, ?_, ?_, h.current⟩
  · intro a
    rw [hs]
    split_ifs with hab
    · refine ⟨fun he => ?_, fun he => absurd (he.symm.trans hab) hcur⟩
      cases he
    · exact h.running a
  · intro a
    rw [hs]
    split_ifs
    · intro he
      cases he
    · exact h.alive a
  · intro a hlive hw
    rw [hs] at hlive
    split_ifs at hlive with hab
    · exact .inr (.inl (List.mem_append_right _ (List.mem_singleton.mpr hab)))
    · rcases h.kept a hlive hw with hk | hk | hk
      · exact .inl hk
      · exact .inr (.inl (List.mem_append_left _ hk))
      · exact .inr (.inr hk)
  · intro a hlive
    rw [hs] at hlive
    split_ifs at hlive with hab
    · exact List.mem_append_right _ (List.mem_singleton.mpr hab)
    · exact List.mem_append_left _ (h.registered a hlive)

/-- A step that keeps the lists, the globals and the status of every thread. -/
theorem same (h : Inv s) {t : State} (ht : Linked t) (hs : ∀ a, t.statusOf a = s.statusOf a)
    (hc : t.threadRunningVar = s.threadRunningVar) (hr : t.readyList = s.readyList)
    (he : t.listaEspera = s.listaEspera) (ha : t.allList = s.allList)
    (hi : t.idleThread = s.idleThread) (hn : t.initialThread = s.initialThread) : Inv t := by
  refine ⟨ht, ?_, ?_, ?_, ?_, ?_⟩
  · intro a
    rw [hs, hc]
    exact h.running a
  · intro a
    rw [hs]
    exact h.alive a
  · intro a
    rw [hs, hc, hr, he, State.worker, hi, hn]
    exact h.kept a
  · intro a
    rw [hs, ha]
    exact h.registered a
  · rw [hc, hn]
    exact h.current

theorem charge (h : Inv s) : Inv s.charge := by
  have hs : ∀ a, s.charge.statusOf a = s.statusOf a := by
    intro a
    exact State.statusOf_mapThread s.threadRunningVar a (f := fun th =>
      { th with durationTicks := th.durationTicks - 1 }) (fun _ => rfl) s
  exact h.same h.toLinked.charge hs rfl rfl rfl rfl rfl rfl

/-- The deadline of the current thread is set. -/
theorem setSleep (h : Inv s) (d : Nat) : Inv (s.setSleep d) := by
  have hs : ∀ a, (s.setSleep d).statusOf a = s.statusOf a :=
    fun a => State.statusOf_mapThread s.threadRunningVar a
      (f := fun th => { th with sleepTime := d }) (fun _ => rfl) s
  have hl : Linked (s.setSleep d) :=
    h.toLinked.mapThread s.threadRunningVar (fun _ => rfl) (fun _ => rfl)
  exact h.same hl hs rfl rfl rfl rfl rfl rfl

theorem wakeOne (h : Inv s) {a : Addr} (ha : a ∈ s.listaEspera) : Inv (s.wakeOne a) := by
  have hs : ∀ b, (s.wakeOne a).statusOf b = if b = a then some .ready else s.statusOf b :=
    fun b => h.toLinked.statusOf_set (h.espera a ha).2.2 b .ready
  have hcur : s.threadRunningVar ≠ a := fun he => h.not_espera (he ▸ ha)
  refine ⟨h.toLinked.wakeOne ha, ?_, ?_, ?_, ?_, h.current⟩
  · intro b
    rw [hs]
    split_ifs with hba
    · exact ⟨nofun, fun he => absurd (he.symm.trans hba) hcur⟩
    · exact h.running b
  · intro b
    rw [hs]
    split_ifs
    · exact nofun
    · exact h.alive b
  · intro b hlive hw
    rw [hs] at hlive
    split_ifs at hlive with hba
    · exact .inr (.inl (List.mem_append_right _ (List.mem_singleton.mpr hba)))
    · rcases h.kept b hlive hw with hk | hk | hk
      · exact .inl hk
      · exact .inr (.inl (List.mem_append_left _ hk))
      · exact .inr (.inr ((List.mem_erase_of_ne hba).mpr hk))
  · intro b hlive
    rw [hs] at hlive
    split_ifs at hlive with hba
    · exact hba ▸ (h.espera a ha).2.2
    · exact h.registered b hlive

/-- What the configuration calls write is no part of the invariant. -/
theorem config (h : Inv s) (m : Int) (q : Nat) (e : Int) :
    Inv { s with roundRobinMode := m, roundRobinTicks := q, threadExitOnReturn := e } :=
  ⟨⟨h.readyNodup, h.esperaNodup, h.allNodup, h.ready, h.espera, h.live, h.magic, h.idle, h.initial,
    h.tids⟩, ⟨h.running, h.alive, h.kept, h.registered, h.current⟩⟩

end Inv

end PicoOS
