/-
# `PicoOS.Lib.Fallible` — code that changes a state and may fail

Straight-line reasoning about `StateT σ (Except ε)`: `Returns` is the total
correctness of a call from one state, `Faults` says that it does not return.  Both
follow the code through `bind`.
-/
import Mathlib.Init

namespace Fallible

variable {σ ε β γ : Type} {p : StateT σ (Except ε) β} {f : β → StateT σ (Except ε) γ} {s s' : σ}
  {b : β}

theorem bind_ok (h : p s = .ok (b, s')) : (p >>= f) s = f b s' := by
  show (p s >>= fun r => f r.1 r.2) = f b s'
  rw [h]
  rfl

/-- A fault of the first ends the whole. -/
theorem bind_error {e : ε} (h : p s = .error e) : (p >>= f) s = .error e := by
  show (p s >>= fun r => f r.1 r.2) = .error e
  rw [h]
  rfl

/-- What has returned did so through a state in the middle. -/
theorem ok_of_bind {r : γ × σ} (h : (p >>= f) s = .ok r) :
    ∃ b s', p s = .ok (b, s') ∧ f b s' = .ok r := by
  cases hp : p s with
  | ok q => exact ⟨q.1, q.2, rfl, (bind_ok hp).symm.trans h⟩
  | error e =>
      rw [bind_error hp] at h
      cases h

/-- The same without a state. -/
theorem ok_bind_iff {x : Except ε β} {g : β → Except ε γ} {c : γ} :
    x >>= g = .ok c ↔ ∃ b, x = .ok b ∧ g b = .ok c := by
  constructor
  · intro h
    cases x with
    | ok b => exact ⟨b, rfl, h⟩
    | error e => cases h
  · rintro ⟨b, rfl, h⟩
    exact h

/-- Go on if the test holds, else stop with `e`. -/
def require (e : ε) (test : Bool) : StateT σ (Except ε) Unit := fun s =>
  if test then .ok ((), s) else .error e

theorem require_ok {e : ε} {test : Bool} (h : test = true) : require e test s = .ok ((), s) :=
  if_pos h

theorem require_error {e : ε} {test : Bool} (h : test = false) : require e test s = .error e := by
  rw [require, h]
  rfl

/-- The call returns, with a value and in a state as described. -/
def Returns (p : StateT σ (Except ε) β) (s : σ) (post : β → σ → Prop) : Prop :=
  ∃ b s', p s = .ok (b, s') ∧ post b s'

/-- The call does not return. -/
def Faults (p : StateT σ (Except ε) β) (s : σ) : Prop := ∃ e, p s = .error e

theorem Returns.of_ok {post : β → σ → Prop} (h : p s = .ok (b, s')) (hpost : post b s') :
    Returns p s post :=
  ⟨b, s', h, hpost⟩

theorem Returns.bind {mid : β → σ → Prop} {post : γ → σ → Prop} (hp : Returns p s mid)
    (hf : ∀ b s', mid b s' → Returns (f b) s' post) : Returns (p >>= f) s post := by
  obtain ⟨b, s', hrun, hmid⟩ := hp
  obtain ⟨c, s'', hrun', hpost⟩ := hf b s' hmid
  exact ⟨c, s'', (bind_ok hrun).trans hrun', hpost⟩

/-- A step whose outcome is known. -/
theorem Returns.step {post : γ → σ → Prop} (hp : p s = .ok (b, s')) (hf : Returns (f b) s' post) :
    Returns (p >>= f) s post := by
  obtain ⟨c, s'', hrun, hpost⟩ := hf
  exact ⟨c, s'', (bind_ok hp).trans hrun, hpost⟩

theorem Faults.bind (hp : Faults p s) : Faults (p >>= f) s := by
  obtain ⟨e, he⟩ := hp
  refine ⟨e, ?_⟩
  show (p s >>= fun r => f r.1 r.2) = .error e
  rw [he]
  rfl

theorem Faults.step (hp : p s = .ok (b, s')) (hf : Faults (f b) s') : Faults (p >>= f) s := by
  obtain ⟨e, he⟩ := hf
  exact ⟨e, (bind_ok hp).trans he⟩

/-- What faults after `p` makes the whole fault. -/
theorem Faults.after {mid : β → σ → Prop} (hp : Returns p s mid)
    (hf : ∀ b s', mid b s' → Faults (f b) s') : Faults (p >>= f) s := by
  obtain ⟨b, s', hrun, hmid⟩ := hp
  exact .step hrun (hf b s' hmid)

theorem Faults.not_ok (h : Faults p s) : p s ≠ .ok (b, s') := by
  obtain ⟨e, he⟩ := h
  rw [he]
  exact fun hne => nomatch hne

end Fallible
