/-
# `PicoOS.Synch.Calls` — which calls of `synch.c` return

Between calls no list of waiters has anybody in it: a call that pushes a thread onto one
goes on for ever (`PicoOS.Synch.Port`).  So on this port every call has one of three
outcomes, and the value of the semaphore, or the holder of the lock, says which.  It
returns at once (`Call.effect`).  It is a mistake of the caller, and an `ASSERT` fails
(`Call.Misuse`).  Or it would have to wait (`Call.Waits`), and never returns.
-/
import PicoOS.Lib.Runs
import PicoOS.Synch.Port

namespace PicoOS.Synch

open Fallible Runs

variable {S L C : Type} [DecidableEq S] [DecidableEq L] {m m' : Machine S L C} {x : Sema S L} {l : L}
  {c : C}

/-! ## The changes -/

namespace Machine

/-- A unit of `x` is taken. -/
def downed (x : Sema S L) (m : Machine S L C) : Machine S L C :=
  (m.setValue x (m.value x - 1)).record [.downed x]

/-- A unit of `x` is given back. -/
def upped (x : Sema S L) (m : Machine S L C) : Machine S L C :=
  (m.setValue x (m.value x + 1)).record [.upped x]

/-- The current thread takes the lock. -/
def locked (l : L) (m : Machine S L C) : Machine S L C :=
  ((m.downed (.ofLock l)).setHolder l (some m.sched.threadRunningVar)).record
    [.acquired m.sched.threadRunningVar l]

/-- The lock is given back. -/
def unlocked (l : L) (m : Machine S L C) : Machine S L C :=
  ((m.setHolder l none).record ((m.holder l).toList.map (.released · l))).upped (.ofLock l)

end Machine

/-- A call that never returns: its loop outlasts the rounds it was given, or links a thread twice.
That it goes on after that too is shown in `PicoOS.Synch.Circle`. -/
def Hangs {β : Type} (r : Except Stop β) : Prop := r = .error .rounds ∨ r = .error (.fault .relinked)

/-- An `ASSERT` fails. -/
def Panics {β : Type} (r : Except Stop β) : Prop := ∃ f c, r = .error (.fault (.assert f c))

omit [DecidableEq S] [DecidableEq L] in
theorem Hangs.bind {β γ : Type} {p : Code S L C β} {k : β → Code S L C γ} (h : Hangs (p m)) :
    Hangs ((p >>= k) m) :=
  h.imp bind_error bind_error

omit [DecidableEq S] [DecidableEq L] in
theorem Panics.bind {β γ : Type} {p : Code S L C β} {k : β → Code S L C γ} (h : Panics (p m)) :
    Panics ((p >>= k) m) := by
  obtain ⟨f, c, h⟩ := h
  exact ⟨f, c, bind_error h⟩

/-- The machine between two calls. -/
structure Quiet (m : Machine S L C) : Prop where
  sched : Inv m.sched
  waiters : ∀ x, m.waiters x = []
  conds : ∀ c, m.conds c = []
  locks : ∀ l, (m.value (.ofLock l) = 1 ∧ m.holder l = none) ∨
    (m.value (.ofLock l) = 0 ∧ m.holder l ≠ none)

omit [DecidableEq S] [DecidableEq L] in
theorem Quiet.free (h : Quiet m) (hl : m.holder l = none) : m.value (.ofLock l) = 1 :=
  ((h.locks l).resolve_right fun hr => hr.2 hl).1

omit [DecidableEq S] [DecidableEq L] in
theorem Quiet.held (h : Quiet m) (hl : m.holder l ≠ none) : m.value (.ofLock l) = 0 :=
  ((h.locks l).resolve_left fun hr => hl hr.2).1

/-! ## The functions -/

section Functions

omit [DecidableEq S] [DecidableEq L] in
theorem calls_ok {β : Type} {p : PicoOS.Code β} {b : β} {s : PicoOS.State}
    (h : p.run m.sched = .ok (b, s)) : calls p m = .ok (b, { m with sched := s }) := by
  unfold calls
  rw [h]

omit [DecidableEq S] [DecidableEq L] in
theorem current_ok (h : Inv m.sched) : current m = .ok (m.sched.threadRunningVar, m) :=
  calls_ok (run_threadCurrent h.hasCurrent _)

omit [DecidableEq S] [DecidableEq L] in
theorem lockHeld_ok (h : Inv m.sched) : lockHeldByCurrentThread l m =
    .ok (decide (m.holder l = some m.sched.threadRunningVar), m) := by
  unfold lockHeldByCurrentThread
  rw [bind_ok (current_ok h)]
  rfl

section Asserts

variable {β : Type} {f t : String} {k : Unit → Code S L C β}

omit [DecidableEq S] [DecidableEq L] in
/-- The `ASSERT` that the current thread holds the lock. -/
theorem panics_unheld (h : Inv m.sched) (hl : m.holder l ≠ some m.sched.threadRunningVar) :
    Panics ((lockHeldByCurrentThread l >>= fun held => asserts f t held >>= k) m) := by
  refine ⟨f, t, ?_⟩
  rw [bind_ok (lockHeld_ok h)]
  exact bind_error (require_error (decide_eq_false hl))

omit [DecidableEq S] [DecidableEq L] in
/-- The `ASSERT` that it does not. -/
theorem panics_held (h : Inv m.sched) (hl : m.holder l = some m.sched.threadRunningVar) :
    Panics ((lockHeldByCurrentThread l >>= fun held => asserts f t (!held) >>= k) m) := by
  refine ⟨f, t, ?_⟩
  rw [bind_ok (lockHeld_ok h)]
  exact bind_error (require_error (by simp [hl]))

end Asserts

theorem semaDown_ok (hw : m.waiters x = []) (hv : m.value x ≠ 0) (n : Nat) :
    semaDown (n + 1) x m = .ok ((), m.downed x) := by
  have hkeep : Function.update m.waiters x [] = m.waiters := by
    rw [← hw, Function.update_eq_self]
  unfold semaDown
  rw [semaDownLoop, if_neg hv]
  simp only [Machine.setWaiters, Machine.setValue, hw, hkeep]
  rfl

/-- With no unit left, the loop of `sema_down` does not end. -/
theorem semaDown_hangs (h : Inv m.sched) (hw : m.waiters x = []) (hv : m.value x = 0) (n : Nat) :
    Hangs (semaDown n x m) := by
  have hloop := semaDownLoop_stuck h n
  unfold semaDown Hangs
  rw [hw, hv]
  rcases hloop with hloop | hloop
  · exact .inl (by rw [hloop])
  · exact .inr (by rw [hloop])

theorem semaTryDown_eq : semaTryDown x m =
    .ok (decide (m.value x ≠ 0), if m.value x = 0 then m else m.downed x) := by
  unfold semaTryDown
  by_cases hv : m.value x = 0
  · simp [hv]
  · have hpos : m.value x > 0 := UInt32.pos_iff_ne_zero.mpr hv
    rw [if_pos hpos, if_neg hv, decide_eq_true hv]
    rfl

theorem semaUp_ok (hw : m.waiters x = []) : semaUp x m = .ok ((), m.upped x) := by
  have hread : reads (·.waiters x) m = .ok ([], m) := by
    rw [← hw]
    rfl
  unfold semaUp
  rw [bind_ok hread]
  rfl

theorem lockAcquire_ok (h : Quiet m) (hl : m.holder l = none) (n : Nat) :
    lockAcquire (n + 1) l m = .ok ((), m.locked l) := by
  have hv : m.value (.ofLock l) ≠ 0 := by
    rw [h.free hl]
    decide
  have hdown := semaDown_ok (h.waiters (.ofLock l)) hv n
  have hsched : Inv (m.downed (.ofLock l)).sched := h.sched
  unfold lockAcquire
  rw [bind_ok (lockHeld_ok h.sched), bind_ok (require_ok (by simp [hl])), bind_ok hdown,
    bind_ok (current_ok hsched)]
  rfl

theorem lockAcquire_hangs (h : Quiet m) {t : Addr} (hl : m.holder l = some t)
    (ht : t ≠ m.sched.threadRunningVar) (n : Nat) : Hangs (lockAcquire n l m) := by
  have hv : m.value (.ofLock l) = 0 := h.held (by simp [hl])
  unfold lockAcquire
  rw [bind_ok (lockHeld_ok h.sched), bind_ok (require_ok (by simp [hl, ht]))]
  exact (semaDown_hangs h.sched (h.waiters _) hv n).bind

theorem lockTryAcquire_ok (h : Quiet m) (hl : m.holder l ≠ some m.sched.threadRunningVar) :
    lockTryAcquire l m =
      .ok (decide (m.holder l = none), if m.holder l = none then m.locked l else m) := by
  unfold lockTryAcquire
  rw [bind_ok (lockHeld_ok h.sched), bind_ok (require_ok (by simp [hl]))]
  by_cases hfree : m.holder l = none
  · have hone : m.value (.ofLock l) ≠ 0 := by
      rw [h.free hfree]
      decide
    have hdown : semaTryDown (.ofLock l) m = .ok (true, m.downed (.ofLock l)) := by
      rw [semaTryDown_eq, if_neg hone, decide_eq_true hone]
    have hsched : Inv (m.downed (.ofLock l)).sched := h.sched
    rw [bind_ok hdown, if_pos hfree, decide_eq_true hfree]
    exact (bind_ok (current_ok hsched)).trans rfl
  · have hv := h.held hfree
    have hdown : semaTryDown (.ofLock l) m = .ok (false, m) := by
      rw [semaTryDown_eq, if_pos hv, decide_eq_false (not_not_intro hv)]
    rw [bind_ok hdown, if_neg hfree, decide_eq_false hfree]
    rfl

theorem lockRelease_ok (h : Inv m.sched) (hw : m.waiters (.ofLock l) = [])
    (hl : m.holder l = some m.sched.threadRunningVar) :
    lockRelease l m = .ok ((), m.unlocked l) := by
  unfold lockRelease
  rw [bind_ok (lockHeld_ok h), bind_ok (require_ok (by simp [hl])), bind_ok rfl]
  exact semaUp_ok hw

variable [DecidableEq C]

/-- `cond_wait` gives the lock back, and never returns. -/
theorem condWait_hangs (h : Quiet m) (hl : m.holder l = some m.sched.threadRunningVar)
    (n frame : Nat) (c : C) : Hangs (condWait n frame c l m) := by
  let m₁ := (m.setValue (.waiter frame) 0).setWaiters (.waiter frame) []
  let m₂ := m₁.setConds c (m₁.conds c ++ [.waiter frame])
  have hw : ∀ x, m₂.waiters x = [] := by
    intro x
    show Function.update m.waiters (.waiter frame) [] x = []
    rw [Function.update_apply, h.waiters, ite_self]
  have hrelease := lockRelease_ok (m := m₂) h.sched (hw (.ofLock l)) hl
  have hv : (m₂.unlocked l).value (.waiter frame) = 0 := by
    have hne : (Sema.waiter frame : Sema S L) ≠ .ofLock l := by simp
    show Function.update (Function.update m.value (.waiter frame) 0) (.ofLock l)
      (m₂.value (.ofLock l) + 1) (.waiter frame) = 0
    rw [Function.update_of_ne hne, Function.update_self]
  unfold condWait
  rw [bind_ok (lockHeld_ok h.sched), bind_ok (require_ok (by simp [hl])), bind_ok rfl, bind_ok rfl,
    bind_ok hrelease]
  exact (semaDown_hangs (m := m₂.unlocked l) h.sched (hw (.waiter frame)) hv n).bind

theorem condSignal_ok (h : Quiet m) (hl : m.holder l = some m.sched.threadRunningVar) :
    condSignal c l m = .ok ((), m) := by
  have hread : reads (·.conds c) m = .ok ([], m) := by
    rw [← h.conds c]
    rfl
  unfold condSignal
  rw [bind_ok (lockHeld_ok h.sched), bind_ok (require_ok (by simp [hl])), bind_ok hread]
  rfl

/-- `cond_broadcast` on an empty list looks at no lock. -/
theorem condBroadcast_ok (h : Quiet m) (n : Nat) (l : L) :
    condBroadcast (n + 1) c l m = .ok ((), m) := by
  have hread : reads (fun m => (m.conds c).isEmpty) m = .ok (true, m) := by
    rw [reads, h.conds c]
    rfl
  rw [condBroadcast, bind_ok hread]
  rfl

end Functions

/-! ## The outcome of a call -/

/-- The caller makes a mistake: it takes a lock that it has, or gives back, waits under or signals
under one that it has not. -/
def Call.Misuse (m : Machine S L C) : Call S L C → Prop
  | .lockAcquire l | .lockTryAcquire l => m.holder l = some m.sched.threadRunningVar
  | .lockRelease l | .condWait _ _ l | .condSignal _ l =>
      m.holder l ≠ some m.sched.threadRunningVar
  | .semaDown _ | .semaTryDown _ | .semaUp _ | .condBroadcast _ _ => False

/-- The caller would have to wait: for a unit, for a lock that another thread has, for a signal. -/
def Call.Waits (m : Machine S L C) : Call S L C → Prop
  | .semaDown s => m.value (.own s) = 0
  | .lockAcquire l => m.holder l ≠ none ∧ m.holder l ≠ some m.sched.threadRunningVar
  | .condWait _ _ l => m.holder l = some m.sched.threadRunningVar
  | _ => False

/-- What a call does that returns. -/
def Call.effect (m : Machine S L C) : Call S L C → Machine S L C
  | .semaDown s => m.downed (.own s)
  | .semaTryDown s => if m.value (.own s) = 0 then m else m.downed (.own s)
  | .semaUp s => m.upped (.own s)
  | .lockAcquire l => m.locked l
  | .lockTryAcquire l => if m.holder l = none then m.locked l else m
  | .lockRelease l => m.unlocked l
  | .condWait _ _ _ | .condSignal _ _ | .condBroadcast _ _ => m

/-- The outcome of a call. -/
inductive Call.Ends (f : Call S L C) (m : Machine S L C) (r : Except Stop (Unit × Machine S L C)) :
    Prop
  | returns (hm : ¬ f.Misuse m) (hw : ¬ f.Waits m) (h : r = .ok ((), f.effect m))
  | panics (hm : f.Misuse m) (h : Panics r)
  | hangs (hm : ¬ f.Misuse m) (hw : f.Waits m) (h : Hangs r)

omit [DecidableEq S] [DecidableEq L] in
/-- A mistake is found before there is anything to wait for. -/
theorem Call.not_misuse {f : Call S L C} (hw : f.Waits m) : ¬ f.Misuse m := by
  cases f with
  | semaDown s => exact id
  | lockAcquire l => exact hw.2
  | condWait _ _ l => exact not_not_intro hw
  | _ => exact hw.elim

section Ends

variable {f : Call S L C} {r : Except Stop (Unit × Machine S L C)}

theorem Call.Ends.returns_iff (h : f.Ends m r) :
    (∃ m', r = .ok ((), m')) ↔ ¬ f.Misuse m ∧ ¬ f.Waits m := by
  cases h with
  | returns hm hw hr => exact iff_of_true ⟨_, hr⟩ ⟨hm, hw⟩
  | panics hm hr =>
      obtain ⟨_, _, rfl⟩ := hr
      exact iff_of_false (by rintro ⟨_, hr⟩; cases hr) fun hn => hn.1 hm
  | hangs _ hw hr =>
      refine iff_of_false ?_ fun hn => hn.2 hw
      rintro ⟨_, rfl⟩
      rcases hr with hr | hr
      · cases hr
      · cases hr

theorem Call.Ends.panics_iff (h : f.Ends m r) : Panics r ↔ f.Misuse m := by
  cases h with
  | returns hm _ hr => exact iff_of_false (by rintro ⟨_, _, hr'⟩; cases hr.symm.trans hr') hm
  | panics hm hr => exact iff_of_true hr hm
  | hangs hm _ hr =>
      refine iff_of_false ?_ hm
      rintro ⟨_, _, rfl⟩
      rcases hr with hr | hr
      · cases hr
      · cases hr

theorem Call.Ends.hangs_iff (h : f.Ends m r) : Hangs r ↔ f.Waits m := by
  cases h with
  | returns _ hw hr =>
      refine iff_of_false ?_ hw
      rintro (hr' | hr')
      · cases hr.symm.trans hr'
      · cases hr.symm.trans hr'
  | panics hm hr =>
      obtain ⟨_, _, rfl⟩ := hr
      refine iff_of_false ?_ fun hw => Call.not_misuse hw hm
      rintro (hr | hr)
      · cases hr
      · cases hr
  | hangs _ hw hr => exact iff_of_true hr hw

end Ends

variable [DecidableEq C]

theorem Quiet.ends (h : Quiet m) (f : Call S L C) (n : Nat) : f.Ends m (f.code n m) := by
  cases f with
  | semaDown s =>
      by_cases hv : m.value (.own s) = 0
      · exact .hangs id hv (semaDown_hangs h.sched (h.waiters _) hv _)
      · exact .returns id hv (semaDown_ok (h.waiters _) hv n)
  | semaTryDown s => exact .returns id id (bind_ok semaTryDown_eq)
  | semaUp s => exact .returns id id (semaUp_ok (h.waiters _))
  | lockAcquire l =>
      by_cases hl : m.holder l = some m.sched.threadRunningVar
      · exact .panics hl (panics_held h.sched hl)
      · cases hh : m.holder l with
        | none => exact .returns hl (fun hw => hw.1 hh) (lockAcquire_ok h hh n)
        | some t =>
            have ht : t ≠ m.sched.threadRunningVar := fun he => hl (he ▸ hh)
            exact .hangs hl ⟨hh ▸ Option.some_ne_none t, hl⟩ (lockAcquire_hangs h hh ht _)
  | lockTryAcquire l =>
      by_cases hl : m.holder l = some m.sched.threadRunningVar
      · exact .panics hl (panics_held h.sched hl).bind
      · exact .returns hl id (bind_ok (lockTryAcquire_ok h hl))
  | lockRelease l =>
      by_cases hl : m.holder l = some m.sched.threadRunningVar
      · exact .returns (not_not_intro hl) id (lockRelease_ok h.sched (h.waiters _) hl)
      · exact .panics hl (panics_unheld h.sched hl)
  | condWait frame c l =>
      by_cases hl : m.holder l = some m.sched.threadRunningVar
      · exact .hangs (not_not_intro hl) hl (condWait_hangs h hl _ frame c)
      · exact .panics hl (panics_unheld h.sched hl)
  | condSignal c l =>
      by_cases hl : m.holder l = some m.sched.threadRunningVar
      · exact .returns (not_not_intro hl) id (condSignal_ok h hl)
      · exact .panics hl (panics_unheld h.sched hl)
  | condBroadcast c l => exact .returns id id (condBroadcast_ok h n l)

end PicoOS.Synch
