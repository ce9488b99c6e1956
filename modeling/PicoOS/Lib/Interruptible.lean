/-
# `PicoOS.Lib.Interruptible` — programs an interrupt can break into

A uniprocessor program is a tree of *statements*.  Each statement is atomic, is
labelled with the program point it stands at, may fault, and hands a value to
the rest of the program.  One tree has three readings, and they are the reason
for having the tree at all:

    run        the statements one after the other, nothing in between
    runWith    a fixed number of interrupts before each program point
    LoopStep   the program as the body of `while (1)`, any interrupt the source
               enables before any statement

so a function of the source is written down once and the atomic reading and the
interleaved ones are about the same definition.

Two judgements go with the last two readings.  `Ends` says how `runWith` ends,
by a return or by a fault.  `Safe` is partial correctness under every
interleaving: every state met satisfies `G`, every fault met satisfies `F`,
every return satisfies the postcondition.  Its statement rule (`Safe.stmt`) asks
for an assertion that the handlers keep (the *stable* assertion of
rely-guarantee reasoning), and `loop_safe` turns a `Safe` body into an
invariant of the loop.

Nothing here knows which program is meant.
-/
import Mathlib.Logic.Relation

namespace Interruptible

/-- A program with states `σ`, faults `ε`, program points `π` and result `α`. -/
inductive Prog (σ ε π α : Type) : Type 1 where
  | ret (a : α) : Prog σ ε π α
  | stmt {β : Type} (pc : π) (act : σ → Except ε (β × σ)) (k : β → Prog σ ε π α) : Prog σ ε π α

namespace Prog

variable {σ ε π α β γ : Type}

/-- Sequencing: the statements of the first program, then those of the second. -/
def bind : Prog σ ε π α → (α → Prog σ ε π β) → Prog σ ε π β
  | .ret a, f => f a
  | .stmt pc act k, f => .stmt pc act fun b => (k b).bind f

instance : Monad (Prog σ ε π) where
  pure := .ret
  bind := .bind

@[simp] theorem pure_eq (a : α) : (pure a : Prog σ ε π α) = .ret a := rfl

@[simp] theorem ret_bind (a : α) (f : α → Prog σ ε π β) : ((.ret a : Prog σ ε π α) >>= f) = f a :=
  rfl

@[simp] theorem stmt_bind {δ : Type} (pc : π) (act : σ → Except ε (δ × σ))
    (k : δ → Prog σ ε π α) (f : α → Prog σ ε π β) :
    (Prog.stmt pc act k >>= f) = .stmt pc act fun b => k b >>= f := rfl

theorem bind_assoc (f : α → Prog σ ε π β) (g : β → Prog σ ε π γ) :
    ∀ p : Prog σ ε π α, p >>= f >>= g = p >>= fun a => f a >>= g
  | .ret _ => rfl
  | .stmt pc act k => by
      simp only [stmt_bind]
      exact congrArg (Prog.stmt pc act) (funext fun b => bind_assoc f g (k b))

/-! ## Without interrupts -/

/-- The statements one after the other. -/
def run : Prog σ ε π α → σ → Except ε (α × σ)
  | .ret a, s => .ok (a, s)
  | .stmt _ act k, s =>
      match act s with
      | .error e => .error e
      | .ok (b, s') => (k b).run s'

@[simp] theorem run_ret (a : α) (s : σ) : (Prog.ret a : Prog σ ε π α).run s = .ok (a, s) := rfl

theorem run_stmt_ok {δ : Type} {pc : π} {act : σ → Except ε (δ × σ)} {k : δ → Prog σ ε π α}
    {s s' : σ} {b : δ} (h : act s = .ok (b, s')) : (Prog.stmt pc act k).run s = (k b).run s' := by
  simp only [run, h]

theorem run_stmt_error {δ : Type} {pc : π} {act : σ → Except ε (δ × σ)} {k : δ → Prog σ ε π α}
    {s : σ} {e : ε} (h : act s = .error e) : (Prog.stmt pc act k).run s = .error e := by
  simp only [run, h]

theorem run_bind_ok {f : α → Prog σ ε π β} {a : α} {s' : σ} :
    ∀ {p : Prog σ ε π α} {s : σ}, p.run s = .ok (a, s') → (p >>= f).run s = (f a).run s'
  | .ret _, _, h => by cases h; rfl
  | .stmt _ act k, s, h => by
      cases ha : act s with
      | error e => rw [run_stmt_error ha] at h; cases h
      | ok r =>
          rw [run_stmt_ok ha] at h
          rw [stmt_bind, run_stmt_ok ha]
          exact run_bind_ok h

theorem run_bind_error {f : α → Prog σ ε π β} {e : ε} :
    ∀ {p : Prog σ ε π α} {s : σ}, p.run s = .error e → (p >>= f).run s = .error e
  | .ret _, _, h => by cases h
  | .stmt _ act k, s, h => by
      cases ha : act s with
      | error e' =>
          rw [run_stmt_error ha] at h
          rw [stmt_bind, run_stmt_error ha]
          cases h; rfl
      | ok r =>
          rw [run_stmt_ok ha] at h
          rw [stmt_bind, run_stmt_ok ha]
          exact run_bind_error h

end Prog

/-! ## A fixed number of interrupts at each point -/

section Placed

variable {σ ε π α β : Type}

/-- Up to `n` pending interrupts, taken one after the other while `on` lets them. -/
def deliver (on : σ → Bool) (h : σ → Except ε σ) : Nat → σ → Except ε σ
  | 0, s => .ok s
  | n + 1, s =>
      if on s then
        match h s with
        | .error e => .error e
        | .ok s' => deliver on h n s'
      else .ok s

/-- `n pc` interrupts, all handled by `h`, are pending when the statement at `pc` is reached. -/
def runWith (on : σ → Bool) (h : σ → Except ε σ) (n : π → Nat) :
    Prog σ ε π α → σ → Except ε (α × σ)
  | .ret a, s => .ok (a, s)
  | .stmt pc act k, s =>
      match deliver on h (n pc) s with
      | .error e => .error e
      | .ok s' =>
          match act s' with
          | .error e => .error e
          | .ok (b, s'') => runWith on h n (k b) s''

/-- How `runWith` ends: a return satisfies `Q`, a fault satisfies `E`. -/
def Ends (on : σ → Bool) (h : σ → Except ε σ) (n : π → Nat) (p : Prog σ ε π α)
    (Q : α → σ → Prop) (E : ε → Prop) (s : σ) : Prop :=
  match runWith on h n p s with
  | .ok (a, s') => Q a s'
  | .error e => E e

variable {on : σ → Bool} {h : σ → Except ε σ} {n : π → Nat}

theorem deliver_off {k : Nat} {s : σ} (hs : on s = false) : deliver on h k s = .ok s := by
  cases k with
  | zero => rfl
  | succ k => simp [deliver, hs]

/-- An assertion the handler keeps, and under which it does not fault, survives any number of
interrupts. -/
theorem deliver_stable {P : σ → Prop} (hP : ∀ s, P s → on s = true → ∃ s', h s = .ok s' ∧ P s') :
    ∀ (k : Nat) {s : σ}, P s → ∃ s', deliver on h k s = .ok s' ∧ P s'
  | 0, s, hs => ⟨s, rfl, hs⟩
  | k + 1, s, hs => by
      cases hon : on s with
      | false => exact ⟨s, deliver_off hon, hs⟩
      | true =>
          obtain ⟨s₁, h₁, hs₁⟩ := hP s hs hon
          obtain ⟨s₂, h₂, hs₂⟩ := deliver_stable hP k hs₁
          exact ⟨s₂, by simp [deliver, hon, h₁, h₂], hs₂⟩

theorem runWith_stmt {δ : Type} {pc : π} {act : σ → Except ε (δ × σ)} {k : δ → Prog σ ε π α}
    {s s' s'' : σ} {b : δ} (hd : deliver on h (n pc) s = .ok s') (ha : act s' = .ok (b, s'')) :
    runWith on h n (Prog.stmt pc act k) s = runWith on h n (k b) s'' := by
  simp only [runWith, hd, ha]

theorem runWith_stmt_fault {δ : Type} {pc : π} {act : σ → Except ε (δ × σ)}
    {k : δ → Prog σ ε π α} {s : σ} {e : ε} (hd : deliver on h (n pc) s = .error e) :
    runWith on h n (Prog.stmt pc act k) s = .error e := by
  simp only [runWith, hd]

theorem runWith_bind_ok {f : β → Prog σ ε π α} {b : β} {s' : σ} :
    ∀ {p : Prog σ ε π β} {s : σ}, runWith on h n p s = .ok (b, s') →
      runWith on h n (p >>= f) s = runWith on h n (f b) s'
  | .ret _, _, hp => by cases hp; rfl
  | .stmt pc act k, s, hp => by
      rw [Prog.stmt_bind]
      cases hd : deliver on h (n pc) s with
      | error e =>
          rw [runWith_stmt_fault hd] at hp
          cases hp
      | ok s₁ =>
          cases ha : act s₁ with
          | error e =>
              simp only [runWith, hd, ha] at hp
              cases hp
          | ok r =>
              rw [runWith_stmt hd ha] at hp ⊢
              exact runWith_bind_ok hp

namespace Ends

variable {Q : α → σ → Prop} {E : ε → Prop}

theorem mono {p : Prog σ ε π α} {s : σ} {Q' : α → σ → Prop} (hp : Ends on h n p Q E s)
    (hQ : ∀ a s', Q a s' → Q' a s') : Ends on h n p Q' E s := by
  unfold Ends at hp ⊢
  cases hr : runWith on h n p s with
  | error e => simpa only [hr] using hp
  | ok r =>
      rw [hr] at hp
      exact hQ _ _ hp

/-- A statement before which the handler is harmless. -/
theorem stmt {δ : Type} {P : σ → Prop} {pc : π} {act : σ → Except ε (δ × σ)}
    {k : δ → Prog σ ε π α} {s : σ}
    (hP : ∀ s, P s → on s = true → ∃ s', h s = .ok s' ∧ P s') (hs : P s)
    (ha : ∀ s', P s' → ∃ b s'', act s' = .ok (b, s'') ∧ Ends on h n (k b) Q E s'') :
    Ends on h n (.stmt pc act k) Q E s := by
  obtain ⟨s', hd, hs'⟩ := deliver_stable hP (n pc) hs
  obtain ⟨b, s'', hact, hk⟩ := ha s' hs'
  unfold Ends
  rw [runWith_stmt hd hact]
  exact hk

/-- A statement before which the handler faults: either nothing is pending there, or the run
ends in that fault. -/
theorem stmt_fatal {δ : Type} {pc : π} {act : σ → Except ε (δ × σ)} {k : δ → Prog σ ε π α}
    {s s'' : σ} {e : ε} {b : δ} (hon : on s = true) (he : h s = .error e) (hE : n pc ≠ 0 → E e)
    (ha : act s = .ok (b, s'')) (hk : n pc = 0 → Ends on h n (k b) Q E s'') :
    Ends on h n (.stmt pc act k) Q E s := by
  unfold Ends
  cases hn : n pc with
  | zero =>
      have hd : deliver on h (n pc) s = .ok s := by rw [hn]; rfl
      rw [runWith_stmt hd ha]
      exact hk hn
  | succ m =>
      have hd : deliver on h (n pc) s = .error e := by rw [hn]; simp [deliver, hon, he]
      rw [runWith_stmt_fault hd]
      exact hE (by omega)

theorem bind {Q' : β → σ → Prop} {f : β → Prog σ ε π α} :
    ∀ {p : Prog σ ε π β} {s : σ}, Ends on h n p Q' E s →
      (∀ b s', Q' b s' → Ends on h n (f b) Q E s') → Ends on h n (p >>= f) Q E s
  | .ret b, s, hp, hf => hf b s hp
  | .stmt pc act k, s, hp, hf => by
      unfold Ends at hp ⊢
      rw [Prog.stmt_bind]
      cases hd : deliver on h (n pc) s with
      | error e => simpa only [runWith, hd] using hp
      | ok s₁ =>
          cases ha : act s₁ with
          | error e => simpa only [runWith, hd, ha] using hp
          | ok r =>
              rw [runWith_stmt hd ha] at hp ⊢
              exact bind hp hf

end Ends

end Placed

/-! ## What every statement of a program keeps -/

section Keeps

variable {σ ε π α β : Type}

/-- Every statement of the program, run in a state of `M`, ends in a state of `M`. -/
def Keeps (M : σ → Prop) : Prog σ ε π α → Prop
  | .ret _ => True
  | .stmt _ act k => ∀ s b s', M s → act s = .ok (b, s') → M s' ∧ Keeps M (k b)

theorem Keeps.bind {M : σ → Prop} {f : β → Prog σ ε π α} :
    ∀ {p : Prog σ ε π β}, Keeps M p → (∀ b, Keeps M (f b)) → Keeps M (p >>= f)
  | .ret b, _, hf => hf b
  | .stmt _ _ _, hp, hf => fun s b s' hs ha =>
      ⟨(hp s b s' hs ha).1, Keeps.bind (hp s b s' hs ha).2 hf⟩

theorem Keeps.run {M : σ → Prop} {a : α} {s' : σ} :
    ∀ {p : Prog σ ε π α} {s : σ}, Keeps M p → M s → p.run s = .ok (a, s') → M s'
  | .ret _, _, _, hs, hr => by
      cases hr
      exact hs
  | .stmt _ act k, s, hp, hs, hr => by
      cases ha : act s with
      | error e =>
          rw [Prog.run_stmt_error ha] at hr
          cases hr
      | ok r =>
          rw [Prog.run_stmt_ok ha] at hr
          obtain ⟨hs', hk⟩ := hp s r.1 r.2 hs ha
          exact hk.run hs' hr

/-- With interrupts off throughout, the pending ones make no difference. -/
theorem runWith_masked {M : σ → Prop} {on : σ → Bool} {h : σ → Except ε σ} {n : π → Nat}
    (hM : ∀ s, M s → on s = false) : ∀ {p : Prog σ ε π α} {s : σ}, Keeps M p → M s →
      runWith on h n p s = p.run s
  | .ret _, _, _, _ => rfl
  | .stmt pc act k, s, hk, hs => by
      cases ha : act s with
      | error e => simp only [runWith, Prog.run, deliver_off (hM s hs), ha]
      | ok r =>
          obtain ⟨hs', hk'⟩ := hk s r.1 r.2 hs ha
          rw [runWith_stmt (deliver_off (hM s hs)) ha, Prog.run_stmt_ok ha]
          exact runWith_masked hM hk' hs'

/-- Every statement that the run from `s` executes, at its point, takes its state to one that `Φ`
relates it to. -/
def Every (Φ : π → σ → σ → Prop) : Prog σ ε π α → σ → Prop
  | .ret _, _ => True
  | .stmt pc act k, s => ∀ b s', act s = .ok (b, s') → Φ pc s s' ∧ Every Φ (k b) s'

theorem Every.bind {Φ : π → σ → σ → Prop} {f : β → Prog σ ε π α} :
    ∀ {p : Prog σ ε π β} {s : σ}, Every Φ p s →
      (∀ b s', p.run s = .ok (b, s') → Every Φ (f b) s') → Every Φ (p >>= f) s
  | .ret b, s, _, hf => hf b s rfl
  | .stmt _ _ _, _, hp, hf => fun b s' ha =>
      ⟨(hp b s' ha).1, Every.bind (hp b s' ha).2 fun c s'' hr =>
        hf c s'' ((Prog.run_stmt_ok ha).trans hr)⟩

end Keeps

/-! ## Every interleaving -/

section Interleaved

variable {σ ε π ι α β : Type}

/-- An interrupt source: the interrupts that may be taken before the statement at a point, and
what their handlers do. -/
structure Source (σ ε π ι : Type) where
  enabled : π → σ → ι → Prop
  handle : ι → σ → Except ε σ

/-- One interrupt taken at `pc`, its handler returning. -/
def Source.Taken (I : Source σ ε π ι) (pc : π) (s s' : σ) : Prop :=
  ∃ i, I.enabled pc s i ∧ I.handle i s = .ok s'

/-- Partial correctness under every interleaving: `G` of every state met, `F` of every fault,
`Q` of every return. -/
def Safe (I : Source σ ε π ι) (F : ε → Prop) (G : σ → Prop) :
    Prog σ ε π α → (α → σ → Prop) → σ → Prop
  | .ret a, Q, s => G s ∧ Q a s
  | .stmt pc act k, Q, s => ∀ s', Relation.ReflTransGen (I.Taken pc) s s' →
      G s' ∧ (∀ i e, I.enabled pc s' i → I.handle i s' = .error e → F e) ∧
      (∀ e, act s' = .error e → F e) ∧
      ∀ b s'', act s' = .ok (b, s'') → Safe I F G (k b) Q s''

/-- The handlers keep `P` at `pc`, or fault as `F` allows. -/
def Stable (I : Source σ ε π ι) (F : ε → Prop) (pc : π) (P : σ → Prop) : Prop :=
  ∀ s i, P s → I.enabled pc s i →
    (∀ e, I.handle i s = .error e → F e) ∧ ∀ s', I.handle i s = .ok s' → P s'

variable {I : Source σ ε π ι} {F : ε → Prop} {G : σ → Prop}

theorem Stable.taken {pc : π} {P : σ → Prop} (hP : Stable I F pc P) {s s' : σ} (hs : P s)
    (h : Relation.ReflTransGen (I.Taken pc) s s') : P s' := by
  induction h with
  | refl => exact hs
  | tail _ hstep ih =>
      obtain ⟨i, hi, hh⟩ := hstep
      exact (hP _ i ih hi).2 _ hh

namespace Safe

variable {Q : α → σ → Prop}

theorem ret {a : α} {s : σ} (hG : G s) (hQ : Q a s) : Safe I F G (.ret a) Q s := ⟨hG, hQ⟩

/-- The statement rule: a stable assertion that implies `G` and carries the statement. -/
theorem stmt {δ : Type} {P : σ → Prop} {pc : π} {act : σ → Except ε (δ × σ)}
    {k : δ → Prog σ ε π α} {s : σ} (hP : Stable I F pc P) (hs : P s) (hG : ∀ s', P s' → G s')
    (hF : ∀ s' e, P s' → act s' = .error e → F e)
    (hk : ∀ s' b s'', P s' → act s' = .ok (b, s'') → Safe I F G (k b) Q s'') :
    Safe I F G (.stmt pc act k) Q s := by
  intro s' hreach
  have hs' : P s' := hP.taken hs hreach
  exact ⟨hG s' hs', fun i e hi he => (hP s' i hs' hi).1 e he, fun e he => hF s' e hs' he,
    fun b s'' ha => hk s' b s'' hs' ha⟩

theorem bind {Q' : β → σ → Prop} {f : β → Prog σ ε π α} :
    ∀ {p : Prog σ ε π β} {s : σ}, Safe I F G p Q' s →
      (∀ b s', Q' b s' → Safe I F G (f b) Q s') → Safe I F G (p >>= f) Q s
  | .ret b, s, hp, hf => hf b s hp.2
  | .stmt _ _ _, _, hp, hf => fun s' hr =>
      ⟨(hp s' hr).1, (hp s' hr).2.1, (hp s' hr).2.2.1,
        fun b s'' ha => bind ((hp s' hr).2.2.2 b s'' ha) hf⟩

theorem good : ∀ {p : Prog σ ε π α} {s : σ}, Safe I F G p Q s → G s
  | .ret _, _, h => h.1
  | .stmt _ _ _, s, h => (h s .refl).1

/-- A statement that does not fault under the assertion. -/
theorem step {δ : Type} {P : σ → Prop} {pc : π} {act : σ → Except ε (δ × σ)}
    {k : δ → Prog σ ε π α} {s : σ} (hP : Stable I F pc P) (hs : P s) (hG : ∀ s', P s' → G s')
    (hk : ∀ s', P s' → ∃ b s'', act s' = .ok (b, s'') ∧ Safe I F G (k b) Q s'') :
    Safe I F G (.stmt pc act k) Q s := by
  refine stmt hP hs hG (fun s' e hs' he => ?_) (fun s' b s'' hs' ha => ?_)
  · obtain ⟨b, s'', hok, -⟩ := hk s' hs'
    rw [hok] at he
    cases he
  · obtain ⟨b', t, hok, hsafe⟩ := hk s' hs'
    rw [hok] at ha
    cases ha
    exact hsafe

/-- A stretch that no interrupt can enter is verified by its uninterrupted run. -/
theorem of_run {M : σ → Prop} (hM : ∀ s pc i, M s → ¬ I.enabled pc s i) (hG : ∀ s, M s → G s) :
    ∀ {p : Prog σ ε π α} {s : σ}, Keeps M p → M s →
      (∀ e, p.run s = .error e → F e) → (∀ a s', M s' → p.run s = .ok (a, s') → Q a s') →
      Safe I F G p Q s
  | .ret _, s, _, hs, _, hQ => ⟨hG s hs, hQ _ _ hs rfl⟩
  | .stmt pc act k, s, hk, hs, hF, hQ => by
      refine stmt (P := fun s' => s' = s) (fun s' i he hi => ?_) rfl (fun s' he => ?_)
        (fun s' e he ha => ?_) (fun s' b s'' he ha => ?_)
      · exact absurd hi (he ▸ hM s pc i hs)
      · exact he ▸ hG s hs
      · subst he
        exact hF e (Prog.run_stmt_error ha)
      · subst he
        obtain ⟨hs'', hk'⟩ := hk s' b s'' hs ha
        exact of_run hM hG hk' hs''
          (fun e he => hF e (by rw [Prog.run_stmt_ok ha]; exact he))
          (fun a t hm ht => hQ a t hm (by rw [Prog.run_stmt_ok ha]; exact ht))

end Safe

/-- `while (1) body`, an interrupt before any statement.  The loop is at its top when the program
left is a `ret`; an interrupt there is one at the point `top`. -/
inductive LoopStep (I : Source σ ε π ι) (top : π) (body : Prog σ ε π Unit) :
    Prog σ ε π Unit × σ → Prog σ ε π Unit × σ → Prop
  | again (s : σ) : LoopStep I top body (.ret (), s) (body, s)
  | stmt {δ : Type} {pc : π} {act : σ → Except ε (δ × σ)} {k : δ → Prog σ ε π Unit} {s s' : σ}
      {b : δ} (ha : act s = .ok (b, s')) : LoopStep I top body (.stmt pc act k, s) (k b, s')
  | intr {δ : Type} {pc : π} {act : σ → Except ε (δ × σ)} {k : δ → Prog σ ε π Unit} {s s' : σ}
      {i : ι} (hi : I.enabled pc s i) (hh : I.handle i s = .ok s') :
      LoopStep I top body (.stmt pc act k, s) (.stmt pc act k, s')
  | pause {s s' : σ} {i : ι} (hi : I.enabled top s i) (hh : I.handle i s = .ok s') :
      LoopStep I top body (.ret (), s) (.ret (), s')

/-- A fault met in a configuration of the loop, by the next statement or by a handler. -/
inductive LoopFault (I : Source σ ε π ι) (top : π) : Prog σ ε π Unit × σ → ε → Prop
  | stmt {δ : Type} {pc : π} {act : σ → Except ε (δ × σ)} {k : δ → Prog σ ε π Unit} {s : σ} {e : ε}
      (ha : act s = .error e) : LoopFault I top (.stmt pc act k, s) e
  | intr {δ : Type} {pc : π} {act : σ → Except ε (δ × σ)} {k : δ → Prog σ ε π Unit} {s : σ} {e : ε}
      {i : ι} (hi : I.enabled pc s i) (hh : I.handle i s = .error e) :
      LoopFault I top (.stmt pc act k, s) e
  | pause {s : σ} {e : ε} {i : ι} (hi : I.enabled top s i) (hh : I.handle i s = .error e) :
      LoopFault I top (.ret (), s) e

section Loop

variable {top : π} {body : Prog σ ε π Unit} {J : σ → Prop}

/-- The loop rule: if the body takes `J` to `J` under every interleaving, every configuration
reached is on its way from `J` to `J`. -/
theorem loop_safe (htop : Stable I F top J) (hG : ∀ s, J s → G s)
    (hbody : ∀ s, J s → Safe I F G body (fun _ => J) s) {s₀ : σ} (h₀ : J s₀)
    {c : Prog σ ε π Unit × σ}
    (hc : Relation.ReflTransGen (LoopStep I top body) (.ret (), s₀) c) :
    Safe I F G c.1 (fun _ => J) c.2 := by
  induction hc with
  | refl => exact ⟨hG s₀ h₀, h₀⟩
  | tail _ hstep ih =>
      cases hstep with
      | again s => exact hbody s ih.2
      | stmt ha => exact (ih _ .refl).2.2.2 _ _ ha
      | intr hi hh =>
          intro s' hs'
          exact ih s' (Relation.ReflTransGen.head ⟨_, hi, hh⟩ hs')
      | pause hi hh =>
          have hJ := (htop _ _ ih.2 hi).2 _ hh
          exact ⟨hG _ hJ, hJ⟩

theorem Safe.fault (htop : Stable I F top J) {c : Prog σ ε π Unit × σ} {e : ε}
    (h : Safe I F G c.1 (fun _ => J) c.2) (hf : LoopFault I top c e) : F e := by
  cases hf with
  | stmt ha => exact (h _ .refl).2.2.1 e ha
  | intr hi hh => exact (h _ .refl).2.1 _ e hi hh
  | pause hi hh => exact (htop _ _ h.2 hi).1 e hh

/-! ### Playing a given interleaving -/

/-- The body with the interrupts of a script: `none` is the next statement, `some i` the interrupt
`i`, if `can` lets it in.  The state in which the body returns. -/
def replay (I : Source σ ε π ι) (can : π → σ → ι → Bool) :
    List (Option ι) → Prog σ ε π Unit → σ → Option σ
  | [], .ret _, s => some s
  | none :: rest, .stmt _ act k, s =>
      match act s with
      | .ok (b, s') => replay I can rest (k b) s'
      | .error _ => none
  | some i :: rest, .stmt pc act k, s =>
      if can pc s i then
        match I.handle i s with
        | .ok s' => replay I can rest (.stmt pc act k) s'
        | .error _ => none
      else none
  | _, _, _ => none

theorem replay_reaches {can : π → σ → ι → Bool}
    (hcan : ∀ pc s i, can pc s i = true → I.enabled pc s i) :
    ∀ {script : List (Option ι)} {p : Prog σ ε π Unit} {s s' : σ},
      replay I can script p s = some s' →
      Relation.ReflTransGen (LoopStep I top body) (p, s) (.ret (), s')
  | [], .ret _, _, _, h => by
      cases h
      exact .refl
  | none :: rest, .stmt pc act k, s, s', h => by
      simp only [replay] at h
      cases ha : act s with
      | error e =>
          rw [ha] at h
          cases h
      | ok r =>
          rw [ha] at h
          exact .head (.stmt ha) (replay_reaches hcan h)
  | some i :: rest, .stmt pc act k, s, s', h => by
      simp only [replay] at h
      cases hi : can pc s i with
      | false =>
          rw [hi] at h
          cases h
      | true =>
          rw [hi, if_pos rfl] at h
          cases hh : I.handle i s with
          | error e =>
              rw [hh] at h
              cases h
          | ok t =>
              rw [hh] at h
              exact .head (.intr (hcan pc s i hi) hh) (replay_reaches hcan h)

end Loop

end Interleaved

end Interruptible
