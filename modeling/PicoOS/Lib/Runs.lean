/-
# `PicoOS.Lib.Runs` — labelled runs

A step relation `step s l t` with a label, and its finite runs.  Two rules cover
what is proved of runs: an invariant of the state (`Run.invariant`), and a
relation between two runs with the same labels (`Run.lockstep`).

Nothing here knows which step relation is meant.
-/
import Mathlib.Data.List.Basic

namespace Runs

variable {σ τ ℓ : Type}

/-- The run with the given labels, oldest first. -/
inductive Run (step : σ → ℓ → σ → Prop) : σ → List ℓ → σ → Prop
  | nil (s : σ) : Run step s [] s
  | cons {s t u : σ} {l : ℓ} {ls : List ℓ} (h : step s l t) (hs : Run step t ls u) :
      Run step s (l :: ls) u

namespace Run

variable {step : σ → ℓ → σ → Prop} {s t : σ} {ls : List ℓ}

/-- What holds at the start and is kept by every step holds at the end. -/
theorem invariant {I : σ → Prop} (hstep : ∀ s l t, I s → step s l t → I t)
    (h : Run step s ls t) : I s → I t := by
  induction h with
  | nil s => exact id
  | cons h _ ih => exact fun hs => ih (hstep _ _ _ hs h)

/-- One step more. -/
theorem snoc {l : ℓ} {u : σ} (h : Run step s ls t) (hl : step t l u) :
    Run step s (ls ++ [l]) u := by
  induction h with
  | nil s => exact .cons hl (.nil u)
  | cons h₁ _ ih => exact .cons h₁ (ih hl)

/-- A run computed step by step. -/
theorem of_foldlM {f : σ → ℓ → Option σ} (hf : ∀ {s l t}, f s l = some t → step s l t) :
    ∀ {ls : List ℓ} {s t : σ}, ls.foldlM f s = some t → Run step s ls t
  | [], _, _, h => by
      cases h
      exact .nil _
  | _ :: _, _, _, h => by
      rw [List.foldlM_cons] at h
      obtain ⟨m, hm, hrest⟩ := Option.bind_eq_some_iff.mp h
      exact .cons (hf hm) (of_foldlM hf hrest)

/-- Two runs with the same labels, all of them in `A`, stay related. -/
theorem lockstep {step' : τ → ℓ → τ → Prop} {R : σ → τ → Prop} {A : ℓ → Prop}
    (hstep : ∀ s s' t t' l, A l → R s s' → step s l t → step' s' l t' → R t t')
    (h : Run step s ls t) : (∀ l ∈ ls, A l) → ∀ {s' t' : τ}, R s s' → Run step' s' ls t' →
      R t t' := by
  induction h with
  | nil s =>
      intro _ s' t' hr h'
      cases h'
      exact hr
  | cons h _ ih =>
      intro hA s' t' hr h'
      cases h' with
      | cons h₁ hs =>
          have hr' := hstep _ _ _ _ _ (hA _ (List.mem_cons_self ..)) hr h h₁
          exact ih (fun l hl => hA l (List.mem_cons_of_mem _ hl)) hr' hs

end Run

end Runs
