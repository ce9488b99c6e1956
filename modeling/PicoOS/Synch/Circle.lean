/-
# `PicoOS.Synch.Circle` — the waiters of a `sema_down` that does not end

`PicoOS.Synch.Port` follows the loop of `sema_down` as long as the waiters are a
sequence, and stops where the idle thread is to be linked a second time.  Here they are
links, written by the `list_push_back` of `list.c`, which does not notice: no `ASSERT`
fails, and the loop goes on for ever.  Linked behind itself, the `elem` of the idle
thread is its own neighbour from then on, and the list has no end any more.

The elements of `ready_list` stay a sequence.  No thread is in both lists, so neither
push meets the links of the other.
-/
import PicoOS.Lists.Specs
import PicoOS.Synch.Port

namespace PicoOS.Synch

open Fallible LinkedSeq

/-! ## The loop -/

/-- A `struct list_elem *`: an end of the list of waiters, or the `elem` of a thread. -/
inductive Cell where
  | head
  | tail
  | elem (t : Addr)
  deriving DecidableEq

/-- `sema->waiters`. -/
def waiters : Ends Cell := ⟨.head, .tail⟩

/-- The scheduler's state and a semaphore, its waiters linked. -/
structure LinkedKernel where
  sched : PicoOS.State
  value : UInt32
  links : Links Cell

/-- Why a round fails. -/
inductive LinkFault where
  | sched (e : Fault)
  | list (e : Lists.Fault)

/-- `list_push_back (&sema->waiters, &t->elem)`, the thread being in no list of the scheduler. -/
def pushLinked (t : Addr) (k : LinkedKernel) : Except LinkFault LinkedKernel :=
  if k.sched.linked t then .error (.sched .relinked)
  else
    match Lists.listPushBack (some waiters) (some (.elem t)) k.links with
    | .ok ((), H) => .ok { k with links := H }
    | .error e => .error (.list e)

/-- One round of the loop of `sema_down`. -/
def roundLinked (k : LinkedKernel) : Except LinkFault LinkedKernel := do
  let (t, s) ← ((threadCurrent .blockStatus).run k.sched).mapError .sched
  let k ← pushLinked t { k with sched := s }
  let ((), s) ← (PicoOS.threadBlock.run k.sched).mapError .sched
  return { k with sched := s }

/-- `sema_down (sema)`, followed for `n` tests of the value. -/
def semaDownLinked : Nat → LinkedKernel → Option (Except LinkFault LinkedKernel)
  | 0, _ => none
  | n + 1, k =>
      if k.value = 0 then
        match roundLinked k with
        | .ok k => semaDownLinked n k
        | .error e => some (.error e)
      else some (.ok { k with value := k.value - 1 })

/-- `n` rounds of the loop. -/
def roundsLinked : Nat → LinkedKernel → Except LinkFault LinkedKernel
  | 0, k => .ok k
  | n + 1, k => roundLinked k >>= roundsLinked n

theorem roundsLinked_succ {n : Nat} {k k' : LinkedKernel} : roundsLinked (n + 1) k = .ok k' ↔
    ∃ k₁, roundLinked k = .ok k₁ ∧ roundsLinked n k₁ = .ok k' :=
  ok_bind_iff

theorem roundsLinked_add : ∀ {m n : Nat} {k k' : LinkedKernel}, roundsLinked m k = .ok k' →
    roundsLinked (m + n) k = roundsLinked n k'
  | 0, n, k, k', h => by
      cases h
      rw [Nat.zero_add]
  | m + 1, n, k, k', h => by
      obtain ⟨k₁, hr, hk⟩ := roundsLinked_succ.mp h
      rw [Nat.add_right_comm, roundsLinked, hr]
      exact roundsLinked_add hk

/-- A round whose push is known. -/
theorem roundLinked_ok {k : LinkedKernel} {H : Links Cell} (h : Midway k.sched)
    (hp : Lists.listPushBack (some waiters) (some (.elem k.sched.threadRunningVar)) k.links =
      .ok ((), H)) :
    roundLinked k = .ok ⟨k.sched.blocked, k.value, H⟩ := by
  have hl : k.sched.linked k.sched.threadRunningVar = false := by
    simp [State.linked, h.not_ready, h.not_espera]
  simp [roundLinked, pushLinked, run_threadCurrent h.current, run_threadBlock h.current
    h.toLinked.switchable, hl, hp, Except.mapError, bind, Except.bind, pure, Except.pure]

/-- While no round fails, the value stays zero, and the loop goes on. -/
theorem semaDownLinked_none : ∀ (n : Nat) {k : LinkedKernel}, k.value = 0 →
    (∀ m, ∃ k', roundsLinked m k = .ok k' ∧ k'.value = 0) → semaDownLinked n k = none
  | 0, _, _, _ => rfl
  | n + 1, k, hv, h => by
      obtain ⟨k₁, hk₁, hv₁⟩ := h 1
      have hr : roundLinked k = .ok k₁ := (bind_pure (roundLinked k)).symm.trans hk₁
      rw [semaDownLinked, if_pos hv, hr]
      refine semaDownLinked_none n hv₁ fun m => ?_
      obtain ⟨k', hk', hv'⟩ := h (1 + m)
      rw [roundsLinked_add hk₁] at hk'
      exact ⟨k', hk', hv'⟩

/-! ## While the waiters are a sequence -/

/-- The links hold the waiters `ws`. -/
def Queued (H : Links Cell) (ws : List Addr) : Prop :=
  Holds H (fun _ : Unit => waiters) fun _ => ws.map .elem

theorem push_queued {H : Links Cell} {ws : List Addr} {t : Addr} (h : Queued H ws) (ht : t ∉ ws) :
    ∃ H', Lists.listPushBack (some waiters) (some (.elem t)) H = .ok ((), H') ∧
      Queued H' (ws ++ [t]) := by
  have he : ∀ _ : Unit, Cell.elem t ∉ waiters.cells (ws.map .elem) := by
    intro _
    simpa [Ends.cells, waiters] using ht
  obtain ⟨H', hrun, hholds, -⟩ := Lists.listPushBack_leaves (i := ()) h he
  refine ⟨H', hrun, ?_⟩
  have hws : Function.update (fun _ : Unit => ws.map Cell.elem) () (ws.map .elem ++ [.elem t]) =
      fun _ => (ws ++ [t]).map .elem := by
    funext u
    simp
  rwa [hws] at hholds

/-- A round on the sequence is one on the links. -/
theorem roundLinked_queued {k k' : Kernel} {H : Links Cell} (hm : Midway k.sched)
    (hr : round k = .ok k') (h : Queued H k.waiters) :
    ∃ H', roundLinked ⟨k.sched, k.value, H⟩ = .ok ⟨k'.sched, k'.value, H'⟩ ∧
      Queued H' k'.waiters ∧ Midway k'.sched := by
  by_cases hw : k.sched.threadRunningVar ∈ k.waiters
  · rw [round_relinked hm hw] at hr
    cases hr
  · rw [round_eq hm hw] at hr
    cases hr
    obtain ⟨H', hpush, hq⟩ := push_queued h hw
    exact ⟨H', roundLinked_ok hm hpush, hq, hm.blocked.1⟩

theorem roundsLinked_queued : ∀ {n : Nat} {k k' : Kernel} {H : Links Cell}, Midway k.sched →
    rounds n k = .ok k' → Queued H k.waiters →
    ∃ H', roundsLinked n ⟨k.sched, k.value, H⟩ = .ok ⟨k'.sched, k'.value, H'⟩ ∧
      Queued H' k'.waiters
  | 0, k, k', H, _, hr, h => by
      cases hr
      exact ⟨H, rfl, h⟩
  | n + 1, k, k', H, hm, hr, h => by
      obtain ⟨k₁, hround, hrest⟩ := rounds_succ.mp hr
      obtain ⟨H₁, hr₁, hq₁, hm₁⟩ := roundLinked_queued hm hround h
      obtain ⟨H', hr', hq'⟩ := roundsLinked_queued hm₁ hrest hq₁
      exact ⟨H', roundsLinked_succ.mpr ⟨_, hr₁, hr'⟩, hq'⟩

/-! ## From then on -/

/-- Nobody is left but the idle thread `i`.  From the front the list leads through `us` to `i`;
from the back, `p` is what it leads to. -/
structure Trailing (i p : Addr) (us : List Addr) (k : LinkedKernel) : Prop where
  midway : Midway k.sched
  current : k.sched.threadRunningVar = i
  idle : k.sched.idleThread = some i
  ready : k.sched.readyList = []
  zero : k.value = 0
  tail : k.links.next .tail = none ∧ k.links.prev .tail = some (.elem p)
  path : (Cell.head :: (us.map .elem ++ [.elem i])).IsChain fun x y => k.links.next x = some y
  others : i ∉ us ∧ p ∉ us

/-- The links in front of the last cell of a path are all that the path needs. -/
theorem path_frame {H H' : Links Cell} {x : Cell} : ∀ {l : List Cell},
    (∀ y ∈ l, H'.next y = H.next y) → ((l ++ [x]).IsChain fun y z => H.next y = some z) →
    (l ++ [x]).IsChain fun y z => H'.next y = some z
  | [], _, _ => .singleton x
  | [y], hs, h => by
      have hyx := (List.isChain_cons_cons.mp h).1
      exact List.isChain_cons_cons.mpr ⟨(hs y (List.mem_cons_self ..)).trans hyx, .singleton x⟩
  | y :: z :: l, hs, h => by
      obtain ⟨hyz, hrest⟩ := List.isChain_cons_cons.mp h
      refine List.isChain_cons_cons.mpr ⟨(hs y (List.mem_cons_self ..)).trans hyz, ?_⟩
      exact path_frame (l := z :: l) (fun w hw => hs w (List.mem_cons_of_mem _ hw)) hrest

/-- Another round: the idle thread is put behind `p`, and dispatched again. -/
theorem Trailing.round {i p : Addr} {us : List Addr} {k : LinkedKernel} (h : Trailing i p us k) :
    ∃ k', roundLinked k = .ok k' ∧ Trailing i i us k' ∧
      (p = i → k'.links.next (.elem i) = some (.elem i) ∧
        k'.links.prev (.elem i) = some (.elem i)) := by
  have hpush : Lists.listPushBack (some waiters) (some (.elem k.sched.threadRunningVar)) k.links =
      .ok ((), k.links.enclose (.elem p) .tail (.elem i) (.elem i)) := by
    rw [h.current]
    exact Lists.listInsert_ok h.tail.2 (Cell.noConfusion : Cell.tail ≠ .elem i)
  have hsucc : k.sched.succ = i := State.succ_nil h.ready h.idle
  refine ⟨_, roundLinked_ok h.midway hpush, ?_, ?_⟩
  · refine ⟨h.midway.blocked.1, hsucc, h.idle, ?_, h.zero, ?_, ?_, h.others.1, h.others.1⟩
    · show k.sched.readyList.tail = []
      rw [h.ready]
      rfl
    · rw [enclose_next, enclose_prev]
      simpa using h.tail.1
    · have hpath := h.path
      rw [← List.cons_append] at hpath ⊢
      refine path_frame (fun y hy => ?_) hpath
      rw [enclose_next, if_neg, if_neg]
      · rintro rfl
        simp [h.others.1] at hy
      · rintro rfl
        simp [h.others.2] at hy
  · rintro rfl
    rw [enclose_next, enclose_prev]
    simp

/-- And so on. -/
theorem Trailing.rounds {i : Addr} {us : List Addr} : ∀ (n : Nat) {k : LinkedKernel},
    Trailing i i us k → ∃ k', roundsLinked (n + 1) k = .ok k' ∧ Trailing i i us k' ∧
      k'.links.next (.elem i) = some (.elem i) ∧ k'.links.prev (.elem i) = some (.elem i)
  | 0, k, h => by
      obtain ⟨k', hk', ht, hself⟩ := h.round
      exact ⟨k', roundsLinked_succ.mpr ⟨k', hk', rfl⟩, ht, hself rfl⟩
  | n + 1, k, h => by
      obtain ⟨k₁, hk₁, ht₁, -⟩ := h.round
      obtain ⟨k', hk', ht, hself⟩ := Trailing.rounds n ht₁
      exact ⟨k', roundsLinked_succ.mpr ⟨k₁, hk₁, hk'⟩, ht, hself⟩

/-- What the links are when the idle thread is to be linked again. -/
theorem Queued.trailing {i : Addr} {us vs : List Addr} {k : LinkedKernel} (hm : Midway k.sched)
    (hc : k.sched.threadRunningVar = i) (hi : k.sched.idleThread = some i)
    (hr : k.sched.readyList = []) (hv : k.value = 0) (h : Queued k.links (us ++ i :: vs)) :
    ∃ p, Trailing i p us k := by
  have hnodup : (us ++ i :: vs).Nodup := by
    have hcells := h.apart.nodup ()
    simp only [Ends.cells, List.nodup_cons, List.nodup_append] at hcells
    exact List.Nodup.of_map _ hcells.2.1
  obtain ⟨-, -, hapart⟩ := List.nodup_append.mp hnodup
  obtain ⟨ws, p, hlast⟩ := (List.eq_nil_or_concat' (i :: vs)).resolve_left (List.cons_ne_nil i vs)
  have hmem : p ∈ i :: vs := hlast ▸ List.mem_append_right ws (List.mem_singleton_self p)
  have hthreaded := h.threaded ()
  refine ⟨p, hm, hc, hi, hr, hv, ⟨hthreaded.last, ?_⟩, ?_, ?_, ?_⟩
  · have hx : (us ++ i :: vs).map Cell.elem = ((us ++ ws).map .elem ++ [.elem p]) ++ [] := by
      rw [hlast]
      simp
    exact (h.joined (i := ()) hx (Ends.upTo_concat ..) (Ends.at_nil ..)).2
  · have hforward := hthreaded.forward
    have hcut : waiters.cells ((us ++ i :: vs).map .elem) =
        (Cell.head :: (us.map .elem ++ [.elem i])) ++ (vs.map .elem ++ [.tail]) := by
      simp [Ends.cells, waiters]
    rw [hcut] at hforward
    exact hforward.left_of_append
  · exact fun hin => hapart i hin i (List.mem_cons_self ..) rfl
  · exact fun hin => hapart p hin p hmem rfl

/-! ## From the start -/

theorem rounds_prefix : ∀ {m n : Nat} {k k' : Kernel}, rounds (m + n) k = .ok k' →
    ∃ k₁, rounds m k = .ok k₁ ∧ k₁.value = k.value
  | 0, _, k, _, _ => ⟨k, rfl, rfl⟩
  | m + 1, n, k, k', h => by
      rw [Nat.add_right_comm] at h
      obtain ⟨k₁, hr, hrest⟩ := rounds_succ.mp h
      obtain ⟨k₂, hk₂, hv⟩ := rounds_prefix (m := m) hrest
      exact ⟨k₂, rounds_succ.mpr ⟨k₁, hr, hk₂⟩, hv.trans (round_value hr)⟩

/-- The idle thread `i` is current and nobody is ready.  From the front the list of waiters leads
through `us` to `i`, which has itself before it and behind it; from the back it leads to `i` at
once. -/
structure Circling (i : Addr) (us : List Addr) (k : LinkedKernel) : Prop where
  current : k.sched.threadRunningVar = i
  ready : k.sched.readyList = []
  path : (Cell.head :: (us.map .elem ++ [.elem i])).IsChain fun x y => k.links.next x = some y
  next : k.links.next (.elem i) = some (.elem i)
  prev : k.links.prev (.elem i) = some (.elem i)
  tail : k.links.prev .tail = some (.elem i)

/-- From every state of the scheduler, `sema_down` of a semaphore with value zero and no waiters goes
on for ever: no round fails, and in the end the list of waiters is a circle.  In front of the idle
thread it holds the threads that were to run, unless it is the idle thread that called. -/
theorem sema_down_circles {s : PicoOS.State} (h : PicoOS.Reachable s) {H : Links Cell}
    (hH : Holds H (fun _ : Unit => waiters) fun _ => []) :
    (∀ n, semaDownLinked n ⟨s, 0, H⟩ = none) ∧
    ∃ N i, s.idleThread = some i ∧ ∀ n, N ≤ n → ∃ k, roundsLinked n ⟨s, 0, H⟩ = .ok k ∧
      Circling i (if s.threadRunningVar = i then [] else s.threadRunningVar :: s.readyList) k := by
  obtain ⟨N, k, i, hk, hi, hidle, hr, hc, hw, -, hm, -⟩ := exhausts h.inv
  let us := if s.threadRunningVar = i then [] else s.threadRunningVar :: s.readyList
  have hws : ∃ vs, k.waiters = us ++ i :: vs := by
    by_cases hci : s.threadRunningVar = i
    · refine ⟨s.readyList, ?_⟩
      simp [us, hw, hci]
    · refine ⟨[], ?_⟩
      simp [us, hw, hci]
  obtain ⟨vs, hws⟩ := hws
  have hv : k.value = 0 := by
    obtain ⟨k', hk', hv'⟩ := rounds_prefix (n := 0) hk
    cases hk.symm.trans hk'
    exact hv'
  obtain ⟨H', hrun, hq⟩ := roundsLinked_queued h.inv.midway hk hH
  obtain ⟨p, htrailing⟩ := Queued.trailing (k := ⟨k.sched, k.value, H'⟩) hm hc hidle hr hv (hws ▸ hq)
  obtain ⟨k₁, hk₁, hagain, -⟩ := htrailing.round
  have hrun₁ : roundsLinked (N + 1) ⟨s, 0, H⟩ = .ok k₁ :=
    (roundsLinked_add hrun).trans (roundsLinked_succ.mpr ⟨k₁, hk₁, rfl⟩)
  have hlate : ∀ n, N + 2 ≤ n → ∃ k', roundsLinked n ⟨s, 0, H⟩ = .ok k' ∧ Trailing i i us k' ∧
      k'.links.next (.elem i) = some (.elem i) ∧ k'.links.prev (.elem i) = some (.elem i) := by
    intro n hn
    obtain ⟨j, rfl⟩ := Nat.exists_eq_add_of_le hn
    rw [show N + 2 + j = N + 1 + (j + 1) by omega, roundsLinked_add hrun₁]
    exact hagain.rounds j
  refine ⟨fun n => semaDownLinked_none n rfl fun m => ?_, N + 2, i, hi, fun n hn => ?_⟩
  · -- Before the idle thread comes round, at that, and after it.
    rcases Nat.lt_trichotomy m (N + 1) with hlt | rfl | hgt
    · obtain ⟨j, rfl⟩ := Nat.exists_eq_add_of_le (Nat.lt_succ_iff.mp hlt)
      obtain ⟨k', hk', hv'⟩ := rounds_prefix hk
      obtain ⟨H₁, hrun', -⟩ := roundsLinked_queued h.inv.midway hk' hH
      exact ⟨_, hrun', hv'⟩
    · exact ⟨k₁, hrun₁, hagain.zero⟩
    · obtain ⟨k', hk', ht, -⟩ := hlate m hgt
      exact ⟨k', hk', ht.zero⟩
  · obtain ⟨k', hk', ht, hnext, hprev⟩ := hlate n hn
    exact ⟨k', hk', ht.current, ht.ready, ht.path, hnext, hprev, ht.tail.2⟩

/-- The boot, with two more threads. -/
theorem sema_down_circles_two :
    let s := effects (afterBoot none 0 0) [.threadCreate .other (some 1) 5,
      .threadCreate .other (some 2) 5]
    let H : Links Cell := ⟨fun x => if x = .head then some .tail else none,
      fun x => if x = .tail then some .head else none⟩
    (∀ n, semaDownLinked n ⟨s, 0, H⟩ = none) ∧
    ∃ N i, s.idleThread = some i ∧ ∀ n, N ≤ n → ∃ k, roundsLinked n ⟨s, 0, H⟩ = .ok k ∧
      Circling i (if s.threadRunningVar = i then [] else s.threadRunningVar :: s.readyList) k := by
  intro s H
  have h₀ : Booted (afterBoot none 0 0) := booted_iff.mpr ⟨none, 0, 0, rfl⟩
  have hallows : Allows (afterBoot none 0 0) [.threadCreate .other (some 1) 5,
      .threadCreate .other (some 2) 5] := by
    decide +kernel
  have hempty : Holds H (fun _ : Unit => waiters) fun _ => [] := by
    refine .single (by decide) ⟨?_, ?_, rfl, rfl⟩
    · show [Cell.head, .tail].IsChain fun x y => H.next x = some y
      simp [H]
    · show [Cell.tail, .head].IsChain fun x y => H.prev x = some y
      simp [H]
  exact sema_down_circles ⟨_, _, h₀, run_of_allows h₀.inv hallows⟩ hempty

end PicoOS.Synch
