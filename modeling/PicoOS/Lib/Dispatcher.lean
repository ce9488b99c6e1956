/-
# `PicoOS.Lib.Dispatcher` — a queue of jobs and a processor

What a uniprocessor scheduler without sleeping does, and nothing of how.  A job
is an identity and the ticks it still needs.  One job runs, the others wait in
a queue; a tick is charged to the running job; a poll retires it when it is done
and, under a quantum, rotates it to the back of the queue when its slice is
spent and another job waits.  The slice is counted modulo `w`, as a machine
counter is.

    submit    a job arrives: it runs at once if nothing runs, else it waits
    tick      the running job is charged
    poll      the running job is retired or rotated

The orders in which ticks are charged have closed forms: `fifo`, each job to
its end in the order of arrival, and `roundRobin`, the textbook algorithm on a
queue.  Both are *budgets*: what was charged so far followed by what the machine
has still to charge is the closed form (`Charges`, `Slices`), so what was charged
is a prefix of it.  `Ledger` counts: a job that is done was charged exactly what
it asked for.
-/
import Mathlib.Algebra.GroupWithZero.Nat
import Mathlib.Data.List.Nodup
import Mathlib.Data.List.Perm.Lattice

namespace Dispatching

variable {ι : Type}

/-! ## The machine -/

/-- The state: the running job, its ticks in this slice, the queue, and the log of charges,
retirements and submissions. -/
structure Dispatcher (ι : Type) where
  running : Option (ι × Nat)
  used : Nat
  waiting : List (ι × Nat)
  charged : List ι
  finished : List ι
  submitted : List (ι × Nat)

namespace Dispatcher

/-- Nothing has arrived. -/
def empty : Dispatcher ι := ⟨none, 0, [], [], [], []⟩

/-- The jobs that are not done, the running one first. -/
def jobs (m : Dispatcher ι) : List (ι × Nat) := m.running.toList ++ m.waiting

/-- A job arrives. -/
def submit (j : ι) (d : Nat) (m : Dispatcher ι) : Dispatcher ι :=
  match m.running with
  | none => { m with running := some (j, d), used := 0, submitted := m.submitted ++ [(j, d)] }
  | some _ => { m with waiting := m.waiting ++ [(j, d)], submitted := m.submitted ++ [(j, d)] }

/-- A tick. -/
def tick (w : Nat) (m : Dispatcher ι) : Dispatcher ι :=
  match m.running with
  | none => { m with used := (m.used + 1) % w }
  | some (j, r) =>
      { m with running := some (j, r - 1), used := (m.used + 1) % w, charged := m.charged ++ [j] }

/-- The running job leaves the processor to the head of the queue, `back` going to its end. -/
def next (back : List (ι × Nat)) (m : Dispatcher ι) : Dispatcher ι :=
  { m with running := (m.waiting ++ back).head?, used := 0, waiting := (m.waiting ++ back).tail }

/-- A poll: under FIFO if there is no quantum, else under round robin. -/
def poll (quantum : Option Nat) (m : Dispatcher ι) : Dispatcher ι :=
  match m.running with
  | none => { m with used := 0 }
  | some (j, r) =>
      if r = 0 then { m.next [] with finished := m.finished ++ [j] }
      else
        match quantum with
        | none => m
        | some q => if m.waiting ≠ [] ∧ q ≤ m.used then m.next [(j, r)] else m

/-- A job waits only if one runs, and every job that waits needs a tick. -/
structure Tidy (m : Dispatcher ι) : Prop where
  idle : m.running = none → m.waiting = []
  needs : ∀ j ∈ m.waiting, 0 < j.2

/-- The running job needs a tick. -/
def Needy (m : Dispatcher ι) : Prop := ∀ j r, m.running = some (j, r) → 0 < r

end Dispatcher

/-! ## The closed forms -/

/-- Each job to its end, in order. -/
def fifo (jobs : List (ι × Nat)) : List ι := jobs.flatMap fun j => List.replicate j.2 j.1

/-- The textbook round robin: the head runs a slice if others wait, else to its end; if it still
needs ticks it goes to the tail. -/
def roundRobin (q : Nat) (hq : 0 < q) : List (ι × Nat) → List ι
  | [] => []
  | [(j, r)] => List.replicate r j
  | (j, r) :: k :: rest =>
      List.replicate (min q r) j ++
        roundRobin q hq (k :: rest ++ if q < r then [(j, r - q)] else [])
termination_by jobs => (jobs.map (·.2)).sum + jobs.length
decreasing_by
  split_ifs
  · simp only [List.map_append, List.map_cons, List.map_nil, List.sum_append, List.sum_cons,
      List.sum_nil, List.length_append, List.length_cons, List.length_nil, List.cons_append]
    omega
  · simp only [List.append_nil, List.map_cons, List.sum_cons, List.length_cons]
    omega

theorem fifo_append (xs ys : List (ι × Nat)) : fifo (xs ++ ys) = fifo xs ++ fifo ys :=
  List.flatMap_append

theorem fifo_cons (j : ι) (r : Nat) (xs : List (ι × Nat)) :
    fifo ((j, r) :: xs) = List.replicate r j ++ fifo xs := List.flatMap_cons

/-- The head of a round robin with `used` ticks of its slice gone. -/
def roundRobinFrom (q : Nat) (hq : 0 < q) (used : Nat) (j : ι) (r : Nat)
    (rest : List (ι × Nat)) : List ι :=
  if rest = [] then List.replicate r j
  else List.replicate (min (q - used) r) j ++
    roundRobin q hq (rest ++ if q - used < r then [(j, r - (q - used))] else [])

theorem roundRobin_cons (q : Nat) (hq : 0 < q) (j : ι) (r : Nat) (rest : List (ι × Nat)) :
    roundRobin q hq ((j, r) :: rest) = roundRobinFrom q hq 0 j r rest := by
  cases rest with
  | nil => simp [roundRobin, roundRobinFrom]
  | cons k rest => simp [roundRobin, roundRobinFrom]

/-- A tick. -/
theorem roundRobinFrom_tick {q : Nat} {hq : 0 < q} {used : Nat} {j : ι} {r : Nat}
    {rest : List (ι × Nat)} (hr : 0 < r) (hu : rest ≠ [] → used < q) :
    roundRobinFrom q hq used j r rest = j :: roundRobinFrom q hq (used + 1) j (r - 1) rest := by
  obtain ⟨r', rfl⟩ : ∃ r', r = r' + 1 := ⟨r - 1, by omega⟩
  by_cases hrest : rest = []
  · simp [roundRobinFrom, hrest, List.replicate_succ]
  · have hu' := hu hrest
    have hmin : min (q - used) (r' + 1) = min (q - (used + 1)) r' + 1 := by omega
    have hiff : q - used < r' + 1 ↔ q - (used + 1) < r' := by omega
    have hsub : r' + 1 - (q - used) = r' - (q - (used + 1)) := by omega
    simp only [roundRobinFrom, if_neg hrest, hmin, hiff, hsub, List.replicate_succ,
      Nat.add_sub_cancel, List.cons_append]

/-- The head is done. -/
theorem roundRobinFrom_done (q : Nat) (hq : 0 < q) (used : Nat) (j : ι)
    (rest : List (ι × Nat)) : roundRobinFrom q hq used j 0 rest = roundRobin q hq rest := by
  by_cases hrest : rest = []
  · rw [roundRobinFrom, if_pos hrest, hrest]
    simp [roundRobin]
  · rw [roundRobinFrom, if_neg hrest]
    simp

/-- The head's slice is spent. -/
theorem roundRobinFrom_spent {q : Nat} {hq : 0 < q} {used : Nat} {j : ι} {r : Nat}
    {rest : List (ι × Nat)} (hrest : rest ≠ []) (hr : 0 < r) (hu : q ≤ used) :
    roundRobinFrom q hq used j r rest = roundRobin q hq (rest ++ [(j, r)]) := by
  have hz : q - used = 0 := by omega
  simp [roundRobinFrom, hrest, hz, hr]

/-! ## What a step can do -/

namespace Dispatcher

variable {m : Dispatcher ι}

theorem submit_idle {j : ι} {d : Nat} (h : m.running = none) : m.submit j d =
    { m with running := some (j, d), used := 0, submitted := m.submitted ++ [(j, d)] } := by
  simp only [submit, h]

theorem submit_busy {x : ι × Nat} {j : ι} {d : Nat} (h : m.running = some x) : m.submit j d =
    { m with waiting := m.waiting ++ [(j, d)], submitted := m.submitted ++ [(j, d)] } := by
  simp only [submit, h]

theorem tick_idle {w : Nat} (h : m.running = none) :
    m.tick w = { m with used := (m.used + 1) % w } := by
  simp only [tick, h]

theorem tick_busy {w : Nat} {j : ι} {r : Nat} (h : m.running = some (j, r)) : m.tick w =
    { m with running := some (j, r - 1), used := (m.used + 1) % w, charged := m.charged ++ [j] } := by
  simp only [tick, h]

section Poll

variable {quantum : Option Nat} {j : ι} {r : Nat}

theorem poll_idle (h : m.running = none) : m.poll quantum = { m with used := 0 } := by
  simp only [poll, h]

theorem poll_done (h : m.running = some (j, 0)) :
    m.poll quantum = { m.next [] with finished := m.finished ++ [j] } := by
  simp only [poll, h, if_true]

theorem poll_rotate {q : Nat} (h : m.running = some (j, r)) (hr : 0 < r) (hw : m.waiting ≠ [])
    (hu : q ≤ m.used) : m.poll (some q) = m.next [(j, r)] := by
  simp only [poll, h, if_neg (Nat.ne_of_gt hr), if_pos (And.intro hw hu)]

theorem poll_stay (h : m.running = some (j, r)) (hr : 0 < r)
    (hs : ∀ q, quantum = some q → m.waiting ≠ [] → m.used < q) : m.poll quantum = m := by
  cases quantum with
  | none => simp only [poll, h, if_neg (Nat.ne_of_gt hr)]
  | some q =>
      have hstay : ¬ (m.waiting ≠ [] ∧ q ≤ m.used) :=
        fun hrot => Nat.not_le_of_lt (hs q rfl hrot.1) hrot.2
      simp only [poll, h, if_neg (Nat.ne_of_gt hr), if_neg hstay]

/-- The four outcomes of a poll. -/
theorem poll_cases (quantum : Option Nat) (m : Dispatcher ι) :
    (m.running = none ∧ m.poll quantum = { m with used := 0 }) ∨
    (∃ j, m.running = some (j, 0) ∧
      m.poll quantum = { m.next [] with finished := m.finished ++ [j] }) ∨
    (∃ j r q, m.running = some (j, r) ∧ 0 < r ∧ quantum = some q ∧ m.waiting ≠ [] ∧ q ≤ m.used ∧
      m.poll quantum = m.next [(j, r)]) ∨
    (∃ j r, m.running = some (j, r) ∧ 0 < r ∧
      (∀ q, quantum = some q → m.waiting ≠ [] → m.used < q) ∧ m.poll quantum = m) := by
  cases hr : m.running with
  | none =>
      refine .inl ⟨rfl, ?_⟩
      rw [poll_idle hr, hr]
  | some x =>
      obtain ⟨j, r⟩ := x
      cases r with
      | zero => exact .inr (.inl ⟨j, rfl, poll_done hr⟩)
      | succ r =>
          by_cases hs : ∀ q, quantum = some q → m.waiting ≠ [] → m.used < q
          · exact .inr (.inr (.inr ⟨j, r + 1, rfl, Nat.succ_pos r, hs,
              poll_stay hr (Nat.succ_pos r) hs⟩))
          · simp only [not_forall] at hs
            obtain ⟨q, rfl, hw, hu⟩ := hs
            have hle : q ≤ m.used := Nat.le_of_not_lt hu
            exact .inr (.inr (.inl ⟨j, r + 1, q, rfl, Nat.succ_pos r, rfl, hw, hle,
              poll_rotate hr (Nat.succ_pos r) hw hle⟩))

end Poll

theorem jobs_next (back : List (ι × Nat)) (m : Dispatcher ι) :
    (m.next back).jobs = m.waiting ++ back := by
  show (m.waiting ++ back).head?.toList ++ (m.waiting ++ back).tail = m.waiting ++ back
  cases m.waiting ++ back <;> rfl

/-! ## Tidiness -/

theorem Tidy.empty : Tidy (empty : Dispatcher ι) := ⟨fun _ => rfl, nofun⟩

theorem Tidy.submit (h : Tidy m) (j : ι) {d : Nat} (hd : 0 < d) : Tidy (m.submit j d) := by
  cases hr : m.running with
  | none =>
      rw [submit_idle hr]
      exact ⟨nofun, h.needs⟩
  | some x =>
      rw [submit_busy hr]
      refine ⟨fun hn => absurd (hr.symm.trans hn) nofun, fun k hk => ?_⟩
      rcases List.mem_append.mp hk with hk | hk
      · exact h.needs k hk
      · cases List.mem_singleton.mp hk
        exact hd

/-- The head of the queue, and what stays in it, need a tick. -/
theorem Tidy.next (h : Tidy m) {back : List (ι × Nat)} (hb : ∀ j ∈ back, 0 < j.2) :
    Tidy (m.next back) ∧ Needy (m.next back) := by
  have hneeds : ∀ j ∈ m.waiting ++ back, 0 < j.2 := by
    intro j hj
    rcases List.mem_append.mp hj with hj | hj
    · exact h.needs j hj
    · exact hb j hj
  refine ⟨⟨fun hn => ?_, fun j hj => hneeds j (List.mem_of_mem_tail hj)⟩, fun j r hr => ?_⟩
  · have hnil : m.waiting ++ back = [] := List.head?_eq_none_iff.mp hn
    show (m.waiting ++ back).tail = []
    rw [hnil]
    rfl
  · exact hneeds (j, r) (List.mem_of_mem_head? hr)

/-- After a poll the running job needs a tick. -/
theorem Tidy.poll (h : Tidy m) (quantum : Option Nat) :
    Tidy (m.poll quantum) ∧ Needy (m.poll quantum) := by
  rcases m.poll_cases quantum with ⟨hr, he⟩ | ⟨j, hr, he⟩ | ⟨j, r, q, hr, hpos, -, -, -, he⟩ |
    ⟨j, r, hr, hpos, -, he⟩
  · rw [he]
    refine ⟨⟨h.idle, h.needs⟩, fun k r hk => ?_⟩
    rw [show m.running = some (k, r) from hk] at hr
    cases hr
  · rw [he]
    obtain ⟨ht, hn⟩ := h.next (show ∀ j ∈ ([] : List (ι × Nat)), 0 < j.2 from nofun)
    exact ⟨⟨ht.idle, ht.needs⟩, hn⟩
  · rw [he]
    refine h.next fun k hk => ?_
    cases List.mem_singleton.mp hk
    exact hpos
  · rw [he]
    refine ⟨h, fun k r' hk => ?_⟩
    rw [hr] at hk
    cases hk
    exact hpos

theorem Needy.submit (hn : Needy m) {j : ι} {d : Nat} (hd : 0 < d) : Needy (m.submit j d) := by
  cases hr : m.running with
  | none =>
      rw [submit_idle hr]
      intro k r hk
      cases hk
      exact hd
  | some x =>
      rw [submit_busy hr]
      exact hn

/-! ## First in, first out -/

/-- What was charged and what is still owed is each submitted job to its end, in order. -/
def Charges (m : Dispatcher ι) : Prop := m.charged ++ fifo m.jobs = fifo m.submitted

theorem jobs_submit (ht : Tidy m) (j : ι) (d : Nat) : (m.submit j d).jobs = m.jobs ++ [(j, d)] := by
  cases hr : m.running with
  | none =>
      rw [submit_idle hr]
      simp [jobs, hr, ht.idle hr]
  | some x =>
      rw [submit_busy hr]
      simp [jobs]

theorem submit_log (j : ι) (d : Nat) (m : Dispatcher ι) :
    (m.submit j d).submitted = m.submitted ++ [(j, d)] ∧ (m.submit j d).charged = m.charged ∧
      (m.submit j d).finished = m.finished := by
  cases hr : m.running with
  | none =>
      rw [submit_idle hr]
      exact ⟨rfl, rfl, rfl⟩
  | some x =>
      rw [submit_busy hr]
      exact ⟨rfl, rfl, rfl⟩

theorem tick_submitted (w : Nat) (m : Dispatcher ι) : (m.tick w).submitted = m.submitted := by
  cases hr : m.running with
  | none => rw [tick_idle hr]
  | some x => rw [tick_busy hr]

theorem poll_submitted (quantum : Option Nat) (m : Dispatcher ι) :
    (m.poll quantum).submitted = m.submitted := by
  rcases m.poll_cases quantum with ⟨-, he⟩ | ⟨j, -, he⟩ | ⟨j, r, q, -, -, -, -, -, he⟩ |
    ⟨j, r, -, -, -, he⟩
  · rw [he]
  · rw [he]
    rfl
  · rw [he]
    rfl
  · rw [he]

theorem Charges.submit (h : Charges m) (ht : Tidy m) (j : ι) (d : Nat) :
    Charges (m.submit j d) := by
  obtain ⟨hsub, hch, -⟩ := m.submit_log j d
  unfold Charges at h ⊢
  rw [jobs_submit ht, hsub, hch, fifo_append, fifo_append, ← List.append_assoc, h]

theorem Charges.tick (h : Charges m) (hn : Needy m) (w : Nat) : Charges (m.tick w) := by
  cases hr : m.running with
  | none =>
      rw [tick_idle hr]
      exact h
  | some x =>
      obtain ⟨j, r⟩ := x
      obtain ⟨r', rfl⟩ : ∃ r', r = r' + 1 := ⟨r - 1, by have := hn j r hr; omega⟩
      rw [tick_busy hr]
      unfold Charges jobs at h ⊢
      rw [hr] at h
      simpa [fifo_cons, List.replicate_succ] using h

theorem Charges.poll (h : Charges m) : Charges (m.poll none) := by
  rcases m.poll_cases none with ⟨hr, he⟩ | ⟨j, hr, he⟩ | ⟨j, r, q, -, -, hq, -⟩ |
    ⟨j, r, -, -, -, he⟩
  · rw [he]
    exact h
  · rw [he]
    have hjobs : fifo m.jobs = fifo m.waiting := by simp [jobs, hr, fifo_cons]
    show m.charged ++ fifo (m.next []).jobs = fifo m.submitted
    rw [jobs_next, List.append_nil, ← hjobs]
    exact h
  · cases hq
  · rw [he]
    exact h

/-! ## Round robin -/

section RoundRobin

variable {q : Nat} {hq : 0 < q}

/-- What a round robin has still to charge. -/
def owed (q : Nat) (hq : 0 < q) (m : Dispatcher ι) : List ι :=
  match m.running with
  | none => []
  | some (j, r) => roundRobinFrom q hq m.used j r m.waiting

theorem owed_some {j : ι} {r : Nat} (h : m.running = some (j, r)) :
    m.owed q hq = roundRobinFrom q hq m.used j r m.waiting := by
  simp only [owed, h]

/-- What was charged and what is still owed is the round robin of the submitted jobs. -/
def Slices (q : Nat) (hq : 0 < q) (m : Dispatcher ι) : Prop :=
  m.charged ++ m.owed q hq = roundRobin q hq m.submitted

/-- The running job has ticks of its slice left if another waits. -/
def InSlice (q : Nat) (m : Dispatcher ι) : Prop := m.waiting ≠ [] → m.used < q

/-- A machine that has not ticked yet: the submitted jobs, in order. -/
structure Untouched (m : Dispatcher ι) : Prop extends Tidy m where
  needy : Needy m
  charged : m.charged = []
  used : m.running ≠ none → m.used = 0
  jobs : m.jobs = m.submitted

theorem Untouched.submit (h : Untouched m) (j : ι) {d : Nat} (hd : 0 < d) :
    Untouched (m.submit j d) := by
  obtain ⟨hsub, hch, -⟩ := m.submit_log j d
  refine ⟨h.toTidy.submit j hd, h.needy.submit hd, hch.trans h.charged, ?_, ?_⟩
  · cases hr : m.running with
    | none =>
        rw [submit_idle hr]
        exact fun _ => rfl
    | some x =>
        rw [submit_busy hr]
        exact h.used
  · rw [jobs_submit h.toTidy, hsub, h.jobs]

theorem Untouched.poll (h : Untouched m) (hq : 0 < q) : Untouched (m.poll (some q)) := by
  rcases m.poll_cases (some q) with ⟨hr, he⟩ | ⟨j, hr, -⟩ | ⟨j, r, q', hr, -, hq', -, hle, -⟩ |
    ⟨j, r, -, -, -, he⟩
  · rw [he]
    exact ⟨⟨h.idle, h.needs⟩, h.needy, h.charged, fun _ => rfl, h.jobs⟩
  · exact absurd (h.needy j 0 hr) (Nat.lt_irrefl 0)
  · cases hq'
    have hu := h.used (by rw [hr]; exact nofun)
    omega
  · rw [he]
    exact h

/-- Before the first tick everything is owed. -/
theorem Untouched.slices (h : Untouched m) : Slices q hq m ∧ InSlice q m := by
  cases hr : m.running with
  | none =>
      have hw := h.idle hr
      have hsub : m.submitted = [] := by rw [← h.jobs, Dispatcher.jobs, hr, hw]; rfl
      refine ⟨?_, fun hne => absurd hw hne⟩
      simp [Slices, owed, hr, h.charged, hsub, roundRobin]
  | some x =>
      obtain ⟨j, r⟩ := x
      have hu : m.used = 0 := h.used (by rw [hr]; exact nofun)
      have hsub : m.submitted = (j, r) :: m.waiting := by rw [← h.jobs, Dispatcher.jobs, hr]; rfl
      refine ⟨?_, fun _ => hu ▸ hq⟩
      rw [Slices, owed_some hr, h.charged, hsub, roundRobin_cons, hu]
      rfl

theorem roundRobinFrom_nil (used used' : Nat) (j : ι) (r : Nat) :
    roundRobinFrom q hq used j r [] = roundRobinFrom q hq used' j r [] := by
  simp [roundRobinFrom]

theorem Slices.tick (h : Slices q hq m) (hn : Needy m) (hs : InSlice q m) {w : Nat}
    (hw : q < w) : Slices q hq (m.tick w) := by
  cases hr : m.running with
  | none =>
      rw [tick_idle hr]
      simpa only [Slices, owed, hr] using h
  | some x =>
      obtain ⟨j, r⟩ := x
      have hused : roundRobinFrom q hq ((m.used + 1) % w) j (r - 1) m.waiting =
          roundRobinFrom q hq (m.used + 1) j (r - 1) m.waiting := by
        by_cases hwait : m.waiting = []
        · rw [hwait]
          exact roundRobinFrom_nil ..
        · rw [Nat.mod_eq_of_lt (by have := hs hwait; omega)]
      have htick : roundRobinFrom q hq m.used j r m.waiting =
          j :: roundRobinFrom q hq (m.used + 1) j (r - 1) m.waiting :=
        roundRobinFrom_tick (hn j r hr) hs
      rw [Slices, owed_some hr, htick] at h
      rw [tick_busy hr]
      show m.charged ++ [j] ++ roundRobinFrom q hq ((m.used + 1) % w) j (r - 1) m.waiting =
        roundRobin q hq m.submitted
      rw [hused, List.append_assoc, List.singleton_append]
      exact h

/-- The head of the queue starts a slice of its own. -/
theorem owed_next (back : List (ι × Nat)) (m : Dispatcher ι) :
    (m.next back).owed q hq = roundRobin q hq (m.waiting ++ back) := by
  cases hl : m.waiting ++ back with
  | nil =>
      have hr : (m.next back).running = none := by simp [next, hl]
      simp [owed, hr, roundRobin]
  | cons x rest =>
      obtain ⟨j, r⟩ := x
      have hr : (m.next back).running = some (j, r) := by simp [next, hl]
      have hw : (m.next back).waiting = rest := by simp [next, hl]
      rw [owed_some hr, hw, roundRobin_cons]
      rfl

theorem Slices.poll (h : Slices q hq m) :
    Slices q hq (m.poll (some q)) ∧ InSlice q (m.poll (some q)) := by
  rcases m.poll_cases (some q) with ⟨hr, he⟩ | ⟨j, hr, he⟩ | ⟨j, r, q', hr, hpos, hq', hw, hle, he⟩ |
    ⟨j, r, hr, hpos, hs, he⟩
  · rw [he]
    refine ⟨?_, fun _ => hq⟩
    simpa only [Slices, owed, hr] using h
  · rw [he]
    refine ⟨?_, fun _ => hq⟩
    show m.charged ++ (m.next []).owed q hq = roundRobin q hq m.submitted
    rw [owed_next, List.append_nil, ← roundRobinFrom_done q hq m.used j, ← owed_some hr]
    exact h
  · cases hq'
    rw [he]
    refine ⟨?_, fun _ => hq⟩
    show m.charged ++ (m.next [(j, r)]).owed q hq = roundRobin q hq m.submitted
    rw [owed_next, ← roundRobinFrom_spent hw hpos hle, ← owed_some hr]
    exact h
  · rw [he]
    exact ⟨h, hs q rfl⟩

end RoundRobin

/-! ## The ledger -/

/-- The jobs' identities. -/
def ids (jobs : List (ι × Nat)) : List ι := jobs.map Prod.fst

/-- Every submitted job is done or not, and has been charged what it does not need any more. -/
structure Ledger [DecidableEq ι] (m : Dispatcher ι) : Prop where
  distinct : (ids m.submitted).Nodup
  split : (ids m.submitted).Perm (m.finished ++ ids m.jobs)
  known : ∀ j ∈ m.charged, j ∈ ids m.submitted
  current : ∀ j r d, (j, r) ∈ m.jobs → (j, d) ∈ m.submitted → m.charged.count j + r = d
  done : ∀ j d, j ∈ m.finished → (j, d) ∈ m.submitted → m.charged.count j = d

theorem mem_ids {j : ι} {d : Nat} {jobs : List (ι × Nat)} (h : (j, d) ∈ jobs) : j ∈ ids jobs :=
  List.mem_map_of_mem h

section Ledger

variable [DecidableEq ι]

theorem Ledger.empty : Ledger (empty : Dispatcher ι) :=
  ⟨List.nodup_nil, .nil, nofun, nofun, nofun⟩

/-- The jobs that are not done were submitted, and are distinct from each other and from those
that are done. -/
theorem Ledger.apart (h : Ledger m) : (m.finished ++ ids m.jobs).Nodup :=
  h.split.nodup h.distinct

theorem Ledger.submit (h : Ledger m) (ht : Tidy m) {j : ι} (hj : j ∉ ids m.submitted) (d : Nat) :
    Ledger (m.submit j d) := by
  obtain ⟨hsub, hch, hfin⟩ := m.submit_log j d
  have hjobs := jobs_submit ht j d
  have hids : ids (m.submit j d).submitted = ids m.submitted ++ [j] := by simp [hsub, ids]
  have hopen : ids (m.submit j d).jobs = ids m.jobs ++ [j] := by simp [hjobs, ids]
  have hold : ∀ k ∈ m.finished ++ ids m.jobs, k ≠ j := by
    rintro k hk rfl
    exact hj (h.split.mem_iff.mpr hk)
  refine ⟨?_, ?_, ?_, ?_, ?_⟩
  · rw [hids, ← List.concat_eq_append]
    exact h.distinct.concat hj
  · rw [hids, hopen, hfin, ← List.append_assoc]
    exact h.split.append_right [j]
  · intro k hk
    rw [hch] at hk
    rw [hids]
    exact List.mem_append_left _ (h.known k hk)
  · intro k r d' hk hd
    rw [hjobs] at hk
    rw [hsub] at hd
    rw [hch]
    rcases List.mem_append.mp hk with hk | hk
    · rcases List.mem_append.mp hd with hd | hd
      · exact h.current k r d' hk hd
      · cases List.mem_singleton.mp hd
        exact absurd rfl (hold j (List.mem_append_right _ (mem_ids hk)))
    · cases List.mem_singleton.mp hk
      rcases List.mem_append.mp hd with hd | hd
      · exact absurd (mem_ids hd) hj
      · cases List.mem_singleton.mp hd
        rw [List.count_eq_zero.mpr fun hmem => hj (h.known j hmem), Nat.zero_add]
  · intro k d' hk hd
    rw [hfin] at hk
    rw [hsub] at hd
    rw [hch]
    rcases List.mem_append.mp hd with hd | hd
    · exact h.done k d' hk hd
    · cases List.mem_singleton.mp hd
      exact absurd rfl (hold j (List.mem_append_left _ hk))

theorem Ledger.tick (h : Ledger m) (hn : Needy m) (w : Nat) : Ledger (m.tick w) := by
  cases hr : m.running with
  | none =>
      rw [tick_idle hr]
      exact ⟨h.distinct, h.split, h.known, h.current, h.done⟩
  | some x =>
      obtain ⟨j, r⟩ := x
      have hpos := hn j r hr
      have hjobs : m.jobs = (j, r) :: m.waiting := by rw [jobs, hr]; rfl
      have hapart := h.apart
      rw [hjobs] at hapart
      have hwait : ∀ k s, (k, s) ∈ m.waiting → k ≠ j := by
        rintro k s hk rfl
        have hnd := (List.nodup_append.mp hapart).2.1
        exact (List.nodup_cons.mp hnd).1 (mem_ids hk)
      have hfin : ∀ k ∈ m.finished, k ≠ j := by
        intro k hk hkj
        exact (List.nodup_append.mp hapart).2.2 k hk j (List.mem_cons_self ..) hkj
      have hcount : ∀ k, k ≠ j → (m.charged ++ [j]).count k = m.charged.count k := by
        intro k hk
        rw [List.count_append, List.count_singleton, if_neg (by simpa using hk.symm), Nat.add_zero]
      rw [tick_busy hr]
      refine ⟨h.distinct, ?_, ?_, ?_, ?_⟩
      · have hsplit := h.split
        rw [hjobs] at hsplit
        exact hsplit
      · intro k hk
        rcases List.mem_append.mp hk with hk | hk
        · exact h.known k hk
        · cases List.mem_singleton.mp hk
          exact h.split.mem_iff.mpr (List.mem_append_right _ (mem_ids (hjobs ▸ List.mem_cons_self ..)))
      · intro k s d hk hd
        rcases List.mem_cons.mp hk with hk | hk
        · cases hk
          have hold := h.current j r d (hjobs ▸ List.mem_cons_self ..) hd
          show (m.charged ++ [j]).count j + (r - 1) = d
          rw [List.count_append, List.count_singleton_self]
          omega
        · show (m.charged ++ [j]).count k + s = d
          rw [hcount k (hwait k s hk)]
          exact h.current k s d (hjobs ▸ List.mem_cons_of_mem _ hk) hd
      · intro k d hk hd
        show (m.charged ++ [j]).count k = d
        rw [hcount k (hfin k hk)]
        exact h.done k d hk hd

theorem Ledger.poll (h : Ledger m) (quantum : Option Nat) : Ledger (m.poll quantum) := by
  rcases m.poll_cases quantum with ⟨hr, he⟩ | ⟨j, hr, he⟩ | ⟨j, r, q, hr, -, -, -, -, he⟩ |
    ⟨j, r, -, -, -, he⟩
  · rw [he]
    exact ⟨h.distinct, h.split, h.known, h.current, h.done⟩
  · have hjobs : m.jobs = (j, 0) :: m.waiting := by rw [jobs, hr]; rfl
    have hnext : (m.next []).jobs = m.waiting := by rw [jobs_next, List.append_nil]
    rw [he]
    refine ⟨h.distinct, ?_, h.known, ?_, ?_⟩
    · show (ids m.submitted).Perm (m.finished ++ [j] ++ ids (m.next []).jobs)
      have hsplit := h.split
      rw [hjobs] at hsplit
      rw [hnext, List.append_assoc]
      exact hsplit
    · intro k s d hk hd
      have hk' : (k, s) ∈ m.waiting := hnext ▸ hk
      exact h.current k s d (hjobs ▸ List.mem_cons_of_mem _ hk') hd
    · intro k d hk hd
      rcases List.mem_append.mp hk with hk | hk
      · exact h.done k d hk hd
      · cases List.mem_singleton.mp hk
        exact h.current j 0 d (hjobs ▸ List.mem_cons_self ..) hd
  · have hjobs : m.jobs = (j, r) :: m.waiting := by rw [jobs, hr]; rfl
    have hnext : (m.next [(j, r)]).jobs = m.waiting ++ [(j, r)] := jobs_next ..
    have hperm : m.jobs.Perm (m.next [(j, r)]).jobs := by
      rw [hjobs, hnext]
      exact (List.perm_append_singleton _ _).symm
    rw [he]
    refine ⟨h.distinct, ?_, h.known, ?_, h.done⟩
    · exact h.split.trans ((hperm.map Prod.fst).append_left m.finished)
    · intro k s d hk hd
      exact h.current k s d (hperm.mem_iff.mpr hk) hd
  · rw [he]
    exact h

/-- When nothing runs, everything submitted is done. -/
theorem Ledger.all_done (h : Ledger m) (ht : Tidy m) (hr : m.running = none) {j : ι}
    (hj : j ∈ ids m.submitted) : j ∈ m.finished := by
  have hmem := h.split.mem_iff.mp hj
  rw [jobs, hr, ht.idle hr] at hmem
  simpa [ids] using hmem

end Ledger

end Dispatcher

end Dispatching
