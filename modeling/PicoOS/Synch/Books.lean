/-
# `PicoOS.Synch.Books` — runs of `synch.c`

Calls of `synch.c` by whoever is current, between calls of the scheduler.  What returns
is one of a few changes (`Change`), each of which is checked against three books: the
lists of waiters, which stay empty; the units of every semaphore; and the acquisitions
and releases of every lock.

The scheduler goes its way as if `synch.c` were not there.  So it gives no thread cause
to wait, and none can: what a call does in such a run is known from `Synch.Calls`.
-/
import PicoOS.Synch.Calls

namespace PicoOS.Synch

open Fallible Runs

variable {S L C : Type} [DecidableEq S] [DecidableEq L] {m m' : Machine S L C} {x : Sema S L} {l : L}
  {v₀ : S → UInt32}

/-! ## Changes -/

/-- What a step does to the machine. -/
inductive Change (m : Machine S L C) : Machine S L C → Prop
  | nothing : Change m m
  | sched {s : PicoOS.State} (h : Inv s) : Change m { m with sched := s }
  | downed (s : S) (hv : m.value (.own s) ≠ 0) : Change m (m.downed (.own s))
  | upped (s : S) : Change m (m.upped (.own s))
  | locked (l : L) (hl : m.holder l = none) : Change m (m.locked l)
  | unlocked (l : L) (hl : m.holder l = some m.sched.threadRunningVar) : Change m (m.unlocked l)

theorem Call.change (f : Call S L C) (hm : ¬ f.Misuse m) (hw : ¬ f.Waits m) :
    Change m (f.effect m) := by
  cases f with
  | semaDown s => exact .downed s hw
  | semaTryDown s =>
      simp only [Call.effect]
      split_ifs with hv
      · exact .nothing
      · exact .downed s hv
  | semaUp s => exact .upped s
  | lockAcquire l =>
      refine .locked l ?_
      by_contra hl
      exact hw ⟨hl, hm⟩
  | lockTryAcquire l =>
      simp only [Call.effect]
      split_ifs with hl
      · exact .locked l hl
      · exact .nothing
  | lockRelease l => exact .unlocked l (not_not.mp hm)
  | condWait _ _ _ => exact .nothing
  | condSignal _ _ => exact .nothing
  | condBroadcast _ _ => exact .nothing

/-! ## The books -/

omit [DecidableEq S] [DecidableEq L] in
theorem start_quiet {s : PicoOS.State} (h : Inv s) : Quiet (start v₀ s : Machine S L C) :=
  ⟨h, fun _ => rfl, fun _ => rfl, fun _ => .inl ⟨rfl, rfl⟩⟩

theorem Quiet.change (h : Quiet m) (hc : Change m m') : Quiet m' := by
  cases hc with
  | nothing => exact h
  | sched hs => exact ⟨hs, h.waiters, h.conds, h.locks⟩
  | downed s hv =>
      refine ⟨h.sched, h.waiters, h.conds, fun l => ?_⟩
      simpa [Machine.downed, Machine.setValue, Machine.record] using h.locks l
  | upped s =>
      refine ⟨h.sched, h.waiters, h.conds, fun l => ?_⟩
      simpa [Machine.upped, Machine.setValue, Machine.record] using h.locks l
  | locked k hk =>
      refine ⟨h.sched, h.waiters, h.conds, fun l => ?_⟩
      by_cases hlk : l = k
      · subst hlk
        refine .inr ⟨?_, ?_⟩
        · simp [Machine.locked, Machine.downed, Machine.setValue, Machine.setHolder, Machine.record,
            h.free hk]
        · simp [Machine.locked, Machine.setHolder, Machine.record]
      · simpa [Machine.locked, Machine.downed, Machine.setValue, Machine.setHolder, Machine.record,
          hlk] using h.locks l
  | unlocked k hk =>
      refine ⟨h.sched, h.waiters, h.conds, fun l => ?_⟩
      by_cases hlk : l = k
      · subst hlk
        refine .inl ⟨?_, ?_⟩
        · simp [Machine.unlocked, Machine.upped, Machine.setValue, Machine.setHolder,
            Machine.record, h.held (hk ▸ Option.some_ne_none _)]
        · simp [Machine.unlocked, Machine.upped, Machine.setValue, Machine.setHolder,
            Machine.record]
      · simpa [Machine.unlocked, Machine.upped, Machine.setValue, Machine.setHolder,
          Machine.record, hlk] using h.locks l

/-- The units of a semaphore: those it has and those that were taken, against those it had and
those that were given.  `sema_up` may wrap the value round. -/
structure Balanced (v₀ : S → UInt32) (m : Machine S L C) (x : Sema S L) : Prop where
  bound : (m.value x).toNat + m.log.count (.downed x) ≤
    (initial v₀ x).toNat + m.log.count (.upped x)
  total : ((m.value x).toNat + m.log.count (.downed x)) % 2 ^ 32 =
    ((initial v₀ x).toNat + m.log.count (.upped x)) % 2 ^ 32

theorem Balanced.frame {es : List (Event S L)} (h : Balanced v₀ m x) (hv : m'.value x = m.value x)
    (hlog : m'.log = m.log ++ es) (hd : .downed x ∉ es) (hu : .upped x ∉ es) :
    Balanced v₀ m' x := by
  have hdowns : m'.log.count (.downed x) = m.log.count (.downed x) := by
    rw [hlog, List.count_append, List.count_eq_zero.mpr hd, Nat.add_zero]
  have hups : m'.log.count (.upped x) = m.log.count (.upped x) := by
    rw [hlog, List.count_append, List.count_eq_zero.mpr hu, Nat.add_zero]
  exact ⟨by rw [hv, hdowns, hups]; exact h.bound, by rw [hv, hdowns, hups]; exact h.total⟩

theorem Balanced.downed (h : Balanced v₀ m x) {y : Sema S L} (hy : m.value y ≠ 0) :
    Balanced v₀ (m.downed y) x := by
  by_cases hxy : x = y
  · subst hxy
    have hv : (m.value x - 1).toNat + 1 = (m.value x).toNat := by
      have hpos : 1 ≤ m.value x := UInt32.pos_iff_ne_zero.mpr hy
      have hpos' : 1 ≤ (m.value x).toNat := hpos
      rw [UInt32.toNat_sub_of_le _ _ hpos]
      exact Nat.sub_add_cancel hpos'
    have hsum : ((m.downed x).value x).toNat + (m.downed x).log.count (.downed x) =
        (m.value x).toNat + m.log.count (.downed x) := by
      simp [Machine.downed, Machine.setValue, Machine.record]
      omega
    have hups : (m.downed x).log.count (.upped x) = m.log.count (.upped x) := by
      simp [Machine.downed, Machine.setValue, Machine.record]
    exact ⟨by rw [hsum, hups]; exact h.bound, by rw [hsum, hups]; exact h.total⟩
  · refine h.frame (Function.update_of_ne hxy _ _) rfl ?_ ?_
    · simpa using hxy
    · simp

theorem Balanced.upped (h : Balanced v₀ m x) (y : Sema S L) : Balanced v₀ (m.upped y) x := by
  by_cases hxy : x = y
  · subst hxy
    have hv : (m.value x + 1).toNat = ((m.value x).toNat + 1) % 2 ^ 32 := UInt32.toNat_add ..
    have hval : (m.upped x).value x = m.value x + 1 := by
      simp [Machine.upped, Machine.setValue, Machine.record]
    have hdowns : (m.upped x).log.count (.downed x) = m.log.count (.downed x) := by
      simp [Machine.upped, Machine.setValue, Machine.record]
    have hups : (m.upped x).log.count (.upped x) = m.log.count (.upped x) + 1 := by
      simp [Machine.upped, Machine.setValue, Machine.record]
    have hbound := h.bound
    have htotal := h.total
    refine ⟨?_, ?_⟩
    · rw [hval, hdowns, hups, hv]
      omega
    · rw [hval, hdowns, hups, hv]
      omega
  · refine h.frame (Function.update_of_ne hxy _ _) rfl ?_ ?_
    · simp
    · simpa using hxy

theorem Balanced.change (h : ∀ x, Balanced v₀ m x) (hq : Quiet m) (hc : Change m m')
    (x : Sema S L) : Balanced v₀ m' x := by
  cases hc with
  | nothing => exact h x
  | sched _ => exact ⟨(h x).bound, (h x).total⟩
  | downed s hv => exact (h x).downed hv
  | upped s => exact (h x).upped _
  | locked l hl =>
      have hv : m.value (.ofLock l) ≠ 0 := by
        rw [hq.free hl]
        decide
      exact ((h x).downed hv).frame rfl rfl (by simp) (by simp)
  | unlocked l hl =>
      have hfreed : Balanced v₀ ((m.setHolder l none).record
          ((m.holder l).toList.map (.released · l))) x :=
        (h x).frame rfl rfl (by simp [hl]) (by simp [hl])
      exact hfreed.upped _

/-- The acquisitions and releases of `l`, oldest first. -/
def lockLog (l : L) (log : List (Event S L)) : List (Event S L) :=
  log.filter fun
    | .acquired _ k => k = l
    | .released _ k => k = l
    | _ => false

/-- Each acquisition is followed by the release by the same thread, and the last one is open if
the lock has a holder. -/
def Alternates (l : L) (m : Machine S L C) : Prop :=
  ∃ ts : List Addr, lockLog l m.log =
    ts.flatMap (fun t => [.acquired t l, .released t l]) ++
      (m.holder l).toList.map (Event.acquired · l)

omit [DecidableEq S] in
/-- A change that concerns another lock, or none. -/
theorem Alternates.frame {es : List (Event S L)} (h : Alternates l m)
    (hh : m'.holder l = m.holder l) (hl : m'.log = m.log ++ es) (he : lockLog l es = []) :
    Alternates l m' := by
  obtain ⟨ts, hts⟩ := h
  refine ⟨ts, ?_⟩
  rw [hl, hh, ← hts]
  simp only [lockLog, List.filter_append] at he ⊢
  rw [he, List.append_nil]

theorem Alternates.change (h : Alternates l m) (hc : Change m m') : Alternates l m' := by
  cases hc with
  | nothing => exact h
  | sched _ => exact h
  | downed s _ => exact h.frame rfl rfl rfl
  | upped s => exact h.frame rfl rfl rfl
  | locked k hk =>
      by_cases hkl : k = l
      · subst hkl
        obtain ⟨ts, hts⟩ := h
        refine ⟨ts, ?_⟩
        rw [hk] at hts
        simp only [lockLog] at hts
        simp [lockLog, Machine.locked, Machine.downed, Machine.setValue, Machine.record,
          Machine.setHolder, hts]
      · refine h.frame (Function.update_of_ne (Ne.symm hkl) _ _) (List.append_assoc ..) ?_
        simp [lockLog, hkl]
  | unlocked k hk =>
      by_cases hkl : k = l
      · subst hkl
        obtain ⟨ts, hts⟩ := h
        refine ⟨ts ++ [m.sched.threadRunningVar], ?_⟩
        rw [hk] at hts
        simp only [lockLog] at hts
        simp [lockLog, Machine.unlocked, Machine.upped, Machine.setValue, Machine.record,
          Machine.setHolder, hts, hk]
      · refine h.frame (Function.update_of_ne (Ne.symm hkl) _ _) (List.append_assoc ..) ?_
        simp [lockLog, hk, hkl]

/-! ## Runs -/

variable [DecidableEq C] {s : PicoOS.State} {ls : List (Label S L C)}

omit [DecidableEq C] in
/-- No call changes the scheduler's state. -/
theorem Call.effect_sched (f : Call S L C) (m : Machine S L C) : (f.effect m).sched = m.sched := by
  cases f with
  | semaTryDown s =>
      simp only [Call.effect]
      split_ifs <;> rfl
  | lockTryAcquire l =>
      simp only [Call.effect]
      split_ifs <;> rfl
  | _ => rfl

/-- What a call was that returned. -/
theorem Quiet.of_step (h : Quiet m) {f : Call S L C} (hstep : Step m (.call f) m') :
    ¬ f.Misuse m ∧ ¬ f.Waits m ∧ m' = f.effect m := by
  obtain ⟨n, hn⟩ := hstep
  cases h.ends f n with
  | returns hm hw hr =>
      cases hn.symm.trans hr
      exact ⟨hm, hw, rfl⟩
  | panics _ hr =>
      obtain ⟨_, _, hr⟩ := hr
      cases hn.symm.trans hr
  | hangs _ _ hr =>
      rcases hr with hr | hr
      · cases hn.symm.trans hr
      · cases hn.symm.trans hr

/-- A step is a change. -/
theorem Step.change {label : Label S L C} (h : Step m label m') (hq : Quiet m) : Change m m' := by
  cases label with
  | sched op =>
      obtain ⟨s, hs, rfl⟩ := h
      exact .sched ((hs.moves hq.sched).inv hq.sched)
  | call f =>
      obtain ⟨hm, hw, rfl⟩ := hq.of_step h
      exact f.change hm hw

/-- A call that is no mistake and need not wait is a step. -/
theorem Quiet.step (h : Quiet m) {f : Call S L C} (hm : ¬ f.Misuse m) (hw : ¬ f.Waits m) :
    Step m (.call f) (f.effect m) := by
  refine ⟨0, ?_⟩
  cases h.ends f 0 with
  | returns _ _ hr => exact hr
  | panics hm' _ => exact absurd hm' hm
  | hangs _ hw' _ => exact absurd hw' hw

/-- What holds at the start and is kept by every change holds after every run. -/
theorem keeps_of_run {I : Machine S L C → Prop} (hI : ∀ m m', Quiet m → I m → Change m m' → I m')
    (hs : Inv s) (h₀ : I (start v₀ s)) (hrun : Run Step (start v₀ s) ls m) : Quiet m ∧ I m := by
  refine hrun.invariant (I := fun m => Quiet m ∧ I m) ?_ ⟨start_quiet hs, h₀⟩
  intro m label m' hm hstep
  have hc := hstep.change hm.1
  exact ⟨hm.1.change hc, hI m m' hm.1 hm.2 hc⟩

theorem quiet_of_run (hs : Inv s) (hrun : Run Step (start v₀ s) ls m) : Quiet m :=
  (keeps_of_run (I := fun _ => True) (fun _ _ _ _ _ => trivial) hs trivial hrun).1

/-- The scheduler's part of a run. -/
theorem sched_of_run (hrun : Run Step m ls m') :
    Quiet m → Run PicoOS.Step m.sched (ls.filterMap Label.op?) m'.sched := by
  induction hrun with
  | nil m => exact fun _ => .nil _
  | @cons m m₁ m' label ls h _ ih =>
      intro hq
      have hrest := ih (hq.change (h.change hq))
      cases label with
      | sched op =>
          obtain ⟨s, hs, rfl⟩ := h
          exact .cons hs hrest
      | call f =>
          obtain ⟨-, -, rfl⟩ := hq.of_step h
          rwa [f.effect_sched] at hrest

/-- The books after a run.  The scheduler has made the calls of its own, and no other step; nobody
is in a list of waiters; and the value of a semaphore is what it was initialised with and what
`sema_up` gave, less what was taken. -/
theorem synch_books (hs : Booted s) (hrun : Run Step (start v₀ s) ls m) :
    Run PicoOS.Step s (ls.filterMap Label.op?) m.sched ∧
    (∀ x, m.waiters x = []) ∧ (∀ c, m.conds c = []) ∧
    ∀ x, (m.value x).toNat + m.log.count (.downed x) ≤
        (initial v₀ x).toNat + m.log.count (.upped x) ∧
      ((m.value x).toNat + m.log.count (.downed x)) % 2 ^ 32 =
        ((initial v₀ x).toNat + m.log.count (.upped x)) % 2 ^ 32 := by
  have hstart : ∀ x, Balanced v₀ (start v₀ s : Machine S L C) x :=
    fun x => ⟨Nat.le_refl _, rfl⟩
  obtain ⟨hq, hb⟩ := keeps_of_run (fun _ _ hq hb hc => Balanced.change hb hq hc) hs.inv hstart hrun
  have hsched := sched_of_run hrun (start_quiet hs.inv)
  exact ⟨hsched, hq.waiters, hq.conds, fun x => ⟨(hb x).bound, (hb x).total⟩⟩

/-- A unit is given, a tick comes in, and the unit is taken. -/
theorem synch_books_up_down :
    let s := afterBoot none 0 0
    let ls : List (Label Unit Unit Unit) :=
      [.call (.semaUp ()), .sched .timerInterrupt, .call (.semaDown ())]
    ∃ m, Run Step (start (fun _ => 0) s) ls m ∧
      Run PicoOS.Step s (ls.filterMap Label.op?) m.sched ∧
      (∀ x, m.waiters x = []) ∧ (∀ c, m.conds c = []) ∧
      ∀ x, (m.value x).toNat + m.log.count (.downed x) ≤
          (initial (fun _ => 0) x).toNat + m.log.count (.upped x) ∧
        ((m.value x).toNat + m.log.count (.downed x)) % 2 ^ 32 =
          ((initial (fun _ => 0) x).toNat + m.log.count (.upped x)) % 2 ^ 32 := by
  intro s ls
  have hs : Booted s := booted_iff.mpr ⟨none, 0, 0, rfl⟩
  have h₀ : Quiet (start (fun _ => 0) s : Machine Unit Unit Unit) := start_quiet hs.inv
  have hup := h₀.step (f := .semaUp ()) id id
  have h₁ := h₀.change (hup.change h₀)
  have htick : Step _ (.sched .timerInterrupt) _ :=
    ⟨_, step_of_allowed h₁.sched (show Allowed _ .timerInterrupt from trivial) rfl, rfl⟩
  have h₂ := h₁.change (htick.change h₁)
  have hdown := h₂.step (f := .semaDown ()) id (show (0 : UInt32) + 1 ≠ 0 by decide)
  have hrun : Run Step _ ls _ := .cons hup (.cons htick (.cons hdown (.nil _)))
  exact ⟨_, hrun, synch_books hs hrun⟩

/-- Which calls return after a run, which PANIC and which go on for ever. -/
theorem call_ends_iff (hs : Booted s) (hrun : Run Step (start v₀ s) ls m) (f : Call S L C) :
    ((∃ n m', f.code n m = .ok ((), m')) ↔ ¬ f.Misuse m ∧ ¬ f.Waits m) ∧
    ((∃ n, Panics (f.code n m)) ↔ f.Misuse m) ∧ ((∀ n, Hangs (f.code n m)) ↔ f.Waits m) := by
  have hends := (quiet_of_run hs.inv hrun).ends f
  refine ⟨?_, ?_, ?_⟩
  · exact ⟨fun ⟨n, h⟩ => (hends n).returns_iff.mp h, fun h => ⟨0, (hends 0).returns_iff.mpr h⟩⟩
  · exact ⟨fun ⟨n, h⟩ => (hends n).panics_iff.mp h, fun h => ⟨0, (hends 0).panics_iff.mpr h⟩⟩
  · exact ⟨fun h => (hends 0).hangs_iff.mp (h 0), fun h n => (hends n).hangs_iff.mpr h⟩

/-- A semaphore without a unit, right after the boot. -/
theorem call_ends_iff_no_unit :
    let m : Machine Unit Unit Unit := start (fun _ => 0) (afterBoot none 0 0)
    let f : Call Unit Unit Unit := .semaDown ()
    f.Waits m ∧ ((∃ n m', f.code n m = .ok ((), m')) ↔ ¬ f.Misuse m ∧ ¬ f.Waits m) ∧
      ((∃ n, Panics (f.code n m)) ↔ f.Misuse m) ∧ ((∀ n, Hangs (f.code n m)) ↔ f.Waits m) :=
  ⟨rfl, call_ends_iff (booted_iff.mpr ⟨none, 0, 0, rfl⟩) (.nil _) _⟩

end PicoOS.Synch
