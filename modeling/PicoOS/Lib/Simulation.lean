/-
# `PicoOS.Lib.Simulation` — one program at two levels

Two programs of `Lib.Interruptible` with the same program points, one over
abstract states `σ` and one over the states `τ` that implement them.  `R` says
which states belong together; `image` says which faults of the abstract program
the concrete one reports, and as what.  A fault without an image is one of the
abstraction (it has no meaning for what it leaves out): about a run that meets it
nothing is said, so it has to be excluded on the abstract level.

    Agrees    two results: related values, or a fault and its image
    Mirrors   two programs: the same points, statement by statement
    Matched   two interrupt sources: each interrupt of one has one of the other

`Mirrors` is kept by `bind`, gives agreement of the two runs (`Mirrors.run`), and
lasts through every interleaving: the two loops simulate each other
(`Paired.answer`, `Paired.follow`).

A handler of the concrete level may be given a bound on its loops; `cut` is the
fault of running into it.
-/
import PicoOS.Lib.Interruptible

namespace Interruptible

open Relation

section Results

variable {σ τ ε δ α γ : Type}

/-- A return is matched by a return with a related value, a fault by its image. -/
def Agrees (V : α → γ → Prop) (image : ε → Option δ) : Except ε α → Except δ γ → Prop
  | .ok a, y => ∃ c, y = .ok c ∧ V a c
  | .error e, y => ∀ d, image e = some d → y = .error d

/-- Equal values and related states. -/
def Same (R : σ → τ → Prop) (x : α × σ) (y : α × τ) : Prop := x.1 = y.1 ∧ R x.2 y.2

variable {R : σ → τ → Prop} {image : ε → Option δ}

theorem agrees_ok {a : α} {s : σ} {t : τ} (h : R s t) :
    Agrees (Same R) image (.ok (a, s)) (.ok (a, t)) :=
  ⟨(a, t), rfl, rfl, h⟩

/-- A fault of the abstraction says nothing. -/
theorem agrees_stray {V : α → γ → Prop} {e : ε} {y : Except δ γ} (h : image e = none) :
    Agrees V image (.error e) y := by
  intro d hd
  rw [h] at hd
  cases hd

theorem agrees_fault {V : α → γ → Prop} {e : ε} {d : δ} (h : image e = some d) :
    Agrees V image (.error e) (.error d : Except δ γ) := by
  intro d' hd'
  rw [h] at hd'
  cases hd'
  rfl

/-- A return of the second is one of the first, if that one cannot meet a fault without an
image. -/
theorem Agrees.returned {V : α → γ → Prop} {x : Except ε α} {y : Except δ γ} {c : γ}
    (h : Agrees V image x y) (hy : y = .ok c) (hsafe : ∀ e, x = .error e → image e ≠ none) :
    ∃ a, x = .ok a ∧ V a c := by
  cases x with
  | ok a =>
      obtain ⟨c', hc', hV⟩ := h
      cases hy.symm.trans hc'
      exact ⟨a, rfl, hV⟩
  | error e =>
      obtain ⟨d, hd⟩ := Option.ne_none_iff_exists'.mp (hsafe e rfl)
      cases hy.symm.trans (h d hd)

/-- The same of a fault. -/
theorem Agrees.faulted {V : α → γ → Prop} {x : Except ε α} {y : Except δ γ} {d : δ}
    (h : Agrees V image x y) (hy : y = .error d) (hsafe : ∀ e, x = .error e → image e ≠ none) :
    ∃ e, x = .error e ∧ image e = some d := by
  cases x with
  | ok a =>
      obtain ⟨c, hc, -⟩ := h
      cases hy.symm.trans hc
  | error e =>
      obtain ⟨d', hd⟩ := Option.ne_none_iff_exists'.mp (hsafe e rfl)
      cases hy.symm.trans (h d' hd)
      exact ⟨e, rfl, hd⟩

/-- The value thrown away, the states stay related. -/
theorem Agrees.states {x : Except ε (α × σ)} {y : Except δ (α × τ)}
    (h : Agrees (Same R) image x y) : Agrees R image (x.map (·.2)) (y.map (·.2)) := by
  cases x with
  | ok r =>
      obtain ⟨c, rfl, -, hR⟩ := h
      exact ⟨c.2, rfl, hR⟩
  | error e =>
      intro d hd
      rw [h d hd]
      rfl

end Results

section Programs

variable {σ τ ε δ π α β : Type} (R : σ → τ → Prop) (image : ε → Option δ)

/-- From related states the second statement does what the first does. -/
def Follows (act : σ → Except ε (α × σ)) (act' : τ → Except δ (α × τ)) : Prop :=
  ∀ s t, R s t → Agrees (Same R) image (act s) (act' t)

/-- The same points in the same order, each statement following its counterpart. -/
inductive Mirrors {α : Type} : Prog σ ε π α → Prog τ δ π α → Prop
  | ret (a : α) : Mirrors (.ret a) (.ret a)
  | stmt {β : Type} (pc : π) {act : σ → Except ε (β × σ)} {act' : τ → Except δ (β × τ)}
      {k : β → Prog σ ε π α} {k' : β → Prog τ δ π α} (h : Follows R image act act')
      (hk : ∀ b, Mirrors (k b) (k' b)) : Mirrors (.stmt pc act k) (.stmt pc act' k')

variable {R image}

theorem Mirrors.bind {p : Prog σ ε π α} {q : Prog τ δ π α} {f : α → Prog σ ε π β}
    {g : α → Prog τ δ π β} (h : Mirrors R image p q) (hf : ∀ a, Mirrors R image (f a) (g a)) :
    Mirrors R image (p >>= f) (q >>= g) := by
  induction h with
  | ret a => exact hf a
  | stmt pc h _ ih => exact .stmt pc h ih

/-- A first statement that agrees, and runs of the rests that do. -/
theorem Agrees.step {γ ζ : Type} {V : β → ζ → Prop} {pc pc' : π} {act : σ → Except ε (β × σ)}
    {act' : τ → Except δ (ζ × τ)} {k : β → Prog σ ε π α} {k' : ζ → Prog τ δ π γ} {s : σ} {t : τ}
    {W : α × σ → γ × τ → Prop}
    (h : Agrees (fun x y => V x.1 y.1 ∧ R x.2 y.2) image (act s) (act' t))
    (hk : ∀ b c s' t', act s = .ok (b, s') → V b c → R s' t' →
      Agrees W image ((k b).run s') ((k' c).run t')) :
    Agrees W image ((Prog.stmt pc act k).run s) ((Prog.stmt pc' act' k').run t) := by
  cases ha : act s with
  | ok r =>
      rw [ha] at h
      obtain ⟨⟨c, t'⟩, hb, hV, hR⟩ := h
      rw [Prog.run_stmt_ok ha, Prog.run_stmt_ok hb]
      exact hk _ _ _ _ ha hV hR
  | error e =>
      rw [ha] at h
      rw [Prog.run_stmt_error ha]
      exact fun d hd => Prog.run_stmt_error (h d hd)

/-- Without interrupts, the runs agree. -/
theorem Mirrors.run {p : Prog σ ε π α} {q : Prog τ δ π α} (h : Mirrors R image p q) :
    Follows R image p.run q.run := by
  induction h with
  | ret a => exact fun _ _ hR => agrees_ok hR
  | stmt pc h _ ih =>
      intro s t hR
      refine Agrees.step (h s t hR) fun b c s' t' _ hbc hR' => ?_
      rw [← hbc]
      exact ih b s' t' hR'

/-- Two runs that agree, each followed by another. -/
theorem Agrees.bind {γ : Type} {V : α → γ → Prop} {p : Prog σ ε π α} {q : Prog τ δ π γ}
    {f : α → Prog σ ε π β} {g : γ → Prog τ δ π β} {s : σ} {t : τ}
    (h : Agrees (fun x y => V x.1 y.1 ∧ R x.2 y.2) image (p.run s) (q.run t))
    (hf : ∀ a c s' t', p.run s = .ok (a, s') → V a c → R s' t' →
      Agrees (Same R) image ((f a).run s') ((g c).run t')) :
    Agrees (Same R) image ((p >>= f).run s) ((q >>= g).run t) := by
  cases hp : p.run s with
  | ok r =>
      rw [hp] at h
      obtain ⟨⟨c, t'⟩, hq, hV, hR⟩ := h
      rw [Prog.run_bind_ok hp, Prog.run_bind_ok hq]
      exact hf _ _ _ _ hp hV hR
  | error e =>
      rw [hp] at h
      rw [Prog.run_bind_error hp]
      exact fun d hd => Prog.run_bind_error (h d hd)

/-- The runs from `s` and from the states that belong to it agree, once the concrete program is given
enough rounds for its loops. -/
def Tracks (R : σ → τ → Prop) (image : ε → Option δ) (p : Prog σ ε π α) (q : Nat → Prog τ δ π α)
    (s : σ) : Prop :=
  ∃ n₀, ∀ n, n₀ ≤ n → ∀ t, R s t → Agrees (Same R) image (p.run s) ((q n).run t)

theorem Follows.tracks {p : Prog σ ε π α} {q : Prog τ δ π α} (h : Follows R image p.run q.run)
    (s : σ) : Tracks R image p (fun _ => q) s :=
  ⟨0, fun _ _ t hR => h s t hR⟩

theorem Mirrors.tracks {p : Prog σ ε π α} {q : Prog τ δ π α} (h : Mirrors R image p q) (s : σ) :
    Tracks R image p (fun _ => q) s :=
  h.run.tracks s

theorem Tracks.bind {p : Prog σ ε π α} {q : Nat → Prog τ δ π α} {f : α → Prog σ ε π β}
    {g : Nat → α → Prog τ δ π β} {s : σ} (h : Tracks R image p q s)
    (hf : ∀ a s', p.run s = .ok (a, s') → Tracks R image (f a) (fun n => g n a) s') :
    Tracks R image (p >>= f) (fun n => q n >>= g n) s := by
  obtain ⟨n₀, h⟩ := h
  cases hp : p.run s with
  | ok r =>
      obtain ⟨n₁, hf⟩ := hf r.1 r.2 hp
      refine ⟨max n₀ n₁, fun n hn t hR => ?_⟩
      refine Agrees.bind (h n (by omega) t hR) fun a c s' t' hp' hac hR' => ?_
      cases hp.symm.trans hp'
      rw [← hac]
      exact hf n (by omega) t' hR'
  | error e =>
      refine ⟨n₀, fun n hn t hR => ?_⟩
      refine Agrees.bind (h n hn t hR) fun a c s' t' hp' => ?_
      cases hp.symm.trans hp'

end Programs

/-! ## Rounds -/

section Rounds

variable {τ δ π α β : Type} {short : δ}

/-- The second program does what the first does, unless the first is cut short. -/
def Extends (short : δ) (p p' : Prog τ δ π α) : Prop :=
  ∀ t r, p.run t = r → r ≠ .error short → p'.run t = r

theorem Extends.refl (p : Prog τ δ π α) : Extends short p p := fun _ _ h _ => h

/-- The first is always cut short. -/
theorem Extends.of_short {p p' : Prog τ δ π α} (h : ∀ t, p.run t = .error short) :
    Extends short p p' := fun t _ hr hne => absurd (hr.symm.trans (h t)) hne

theorem Extends.bind {p p' : Prog τ δ π α} {f f' : α → Prog τ δ π β} (hp : Extends short p p')
    (hf : ∀ a, Extends short (f a) (f' a)) : Extends short (p >>= f) (p' >>= f') := by
  intro t r hr hne
  cases h : p.run t with
  | ok x =>
      rw [Prog.run_bind_ok h] at hr
      have hok : p'.run t = .ok x := hp t _ h (by intro hs; cases hs)
      rw [Prog.run_bind_ok hok]
      exact hf x.1 x.2 r hr hne
  | error e =>
      rw [Prog.run_bind_error h] at hr
      have he : p'.run t = .error e := hp t _ h fun hs =>
        hne (hr.symm.trans (congrArg Except.error (Except.error.inj hs)))
      exact (Prog.run_bind_error he).trans hr

end Rounds

/-! ## Interleavings -/

section Loops

variable {σ τ ε δ π ι κ : Type} {R : σ → τ → Prop} {image : ε → Option δ} {cut : δ → Prop}
  {I : Source σ ε π ι} {J : Source τ δ π κ} {top : π} {body : Prog σ ε π Unit}
  {body' : Prog τ δ π Unit}

/-- Each interrupt of one level has one of the other; a handler of the concrete level agrees with
its counterpart unless it is cut short. -/
structure Matched (R : σ → τ → Prop) (image : ε → Option δ) (cut : δ → Prop) (I : Source σ ε π ι)
    (J : Source τ δ π κ) : Prop where
  answer : ∀ {pc s t j}, R s t → J.enabled pc t j → ∃ i, I.enabled pc s i ∧
    ((∃ d, J.handle j t = .error d ∧ cut d) ∨ Agrees R image (I.handle i s) (J.handle j t))
  follow : ∀ {pc s t i}, R s t → I.enabled pc s i → ∃ j, J.enabled pc t j ∧
    Agrees R image (I.handle i s) (J.handle j t)

/-- Two configurations of the loop that belong together. -/
def Paired (R : σ → τ → Prop) (image : ε → Option δ) (c : Prog σ ε π Unit × σ)
    (c' : Prog τ δ π Unit × τ) : Prop :=
  Mirrors R image c.1 c'.1 ∧ R c.2 c'.2

section Paired

variable {c : Prog σ ε π Unit × σ} {c' : Prog τ δ π Unit × τ}

/-- A handler that returned has a counterpart that returned. -/
theorem Matched.returned (M : Matched R image cut I J) {pc : π} {s : σ} {t t' : τ} {j : κ}
    (hR : R s t) (hj : J.enabled pc t j) (hh : J.handle j t = .ok t')
    (hsafe : ∀ i e, I.enabled pc s i → I.handle i s = .error e → image e ≠ none) :
    ∃ i s', I.enabled pc s i ∧ I.handle i s = .ok s' ∧ R s' t' := by
  obtain ⟨i, hi, ⟨d, hd, -⟩ | hag⟩ := M.answer hR hj
  · cases hh.symm.trans hd
  · obtain ⟨s', hs, hR'⟩ := hag.returned hh fun e => hsafe i e hi
    exact ⟨i, s', hi, hs, hR'⟩

/-- A handler that faulted was cut short, or its counterpart faulted. -/
theorem Matched.faulted (M : Matched R image cut I J) {pc : π} {s : σ} {t : τ} {j : κ} {d : δ}
    (hR : R s t) (hj : J.enabled pc t j) (hh : J.handle j t = .error d)
    (hsafe : ∀ i e, I.enabled pc s i → I.handle i s = .error e → image e ≠ none) :
    cut d ∨ ∃ i e, I.enabled pc s i ∧ I.handle i s = .error e ∧ image e = some d := by
  obtain ⟨i, hi, ⟨d', hd, hcut⟩ | hag⟩ := M.answer hR hj
  · cases hh.symm.trans hd
    exact .inl hcut
  · obtain ⟨e, he, hd⟩ := hag.faulted hh fun e => hsafe i e hi
    exact .inr ⟨i, e, hi, he, hd⟩

/-- A step of the concrete loop is one of the abstract loop. -/
theorem Paired.answer (M : Matched R image cut I J) (hbody : Mirrors R image body body')
    (h : Paired R image c c') (hsafe : ∀ e, LoopFault I top c e → image e ≠ none)
    {d' : Prog τ δ π Unit × τ} (hstep : LoopStep J top body' c' d') :
    ∃ d, LoopStep I top body c d ∧ Paired R image d d' := by
  obtain ⟨p, s⟩ := c
  obtain ⟨hp, hR⟩ := h
  cases hstep with
  | again t =>
      cases hp
      exact ⟨_, .again s, hbody, hR⟩
  | stmt ha =>
      cases hp with
      | stmt pc hact hk =>
          obtain ⟨⟨b, s'⟩, hs, hb, hR'⟩ := (hact s _ hR).returned ha fun e he => hsafe e (.stmt he)
          cases hb
          exact ⟨_, .stmt hs, hk _, hR'⟩
  | intr hj hh =>
      cases hp with
      | stmt pc hact hk =>
          obtain ⟨i, s', hi, hh', hR'⟩ := M.returned hR hj hh fun _ e hi he => hsafe e (.intr hi he)
          exact ⟨_, .intr hi hh', .stmt _ hact hk, hR'⟩
  | pause hj hh =>
      cases hp
      obtain ⟨i, s', hi, hh', hR'⟩ := M.returned hR hj hh fun _ e hi he => hsafe e (.pause hi he)
      exact ⟨_, .pause hi hh', .ret (), hR'⟩

/-- A fault of the concrete loop is that of a handler cut short, or one of the abstract loop. -/
theorem Paired.faulted (M : Matched R image cut I J) (h : Paired R image c c')
    (hsafe : ∀ e, LoopFault I top c e → image e ≠ none) {d : δ} (hf : LoopFault J top c' d) :
    cut d ∨ ∃ e, LoopFault I top c e ∧ image e = some d := by
  obtain ⟨p, s⟩ := c
  obtain ⟨hp, hR⟩ := h
  cases hf with
  | stmt ha =>
      cases hp with
      | stmt pc hact hk =>
          obtain ⟨e, he, hd⟩ := (hact s _ hR).faulted ha fun e he => hsafe e (.stmt he)
          exact .inr ⟨e, .stmt he, hd⟩
  | intr hj hh =>
      cases hp with
      | stmt pc hact hk =>
          refine (M.faulted hR hj hh fun _ e hi he => hsafe e (.intr hi he)).imp_right ?_
          rintro ⟨i, e, hi, he, hd⟩
          exact ⟨e, .intr hi he, hd⟩
  | pause hj hh =>
      cases hp
      refine (M.faulted hR hj hh fun _ e hi he => hsafe e (.pause hi he)).imp_right ?_
      rintro ⟨i, e, hi, he, hd⟩
      exact ⟨e, .pause hi he, hd⟩

/-- A handler that returned on the abstract level returns on the concrete one. -/
theorem Matched.followed (M : Matched R image cut I J) {pc : π} {s s' : σ} {t : τ} {i : ι}
    (hR : R s t) (hi : I.enabled pc s i) (hh : I.handle i s = .ok s') :
    ∃ j t', J.enabled pc t j ∧ J.handle j t = .ok t' ∧ R s' t' := by
  obtain ⟨j, hj, hag⟩ := M.follow hR hi
  rw [hh] at hag
  obtain ⟨t', ht, hR'⟩ := hag
  exact ⟨j, t', hj, ht, hR'⟩

/-- A step of the abstract loop is one of the concrete loop. -/
theorem Paired.follow (M : Matched R image cut I J) (hbody : Mirrors R image body body')
    (h : Paired R image c c') {d : Prog σ ε π Unit × σ} (hstep : LoopStep I top body c d) :
    ∃ d', LoopStep J top body' c' d' ∧ Paired R image d d' := by
  obtain ⟨q, t⟩ := c'
  obtain ⟨hp, hR⟩ := h
  cases hstep with
  | again s =>
      cases hp
      exact ⟨_, .again t, hbody, hR⟩
  | stmt ha =>
      cases hp with
      | stmt pc hact hk =>
          have hag := hact _ t hR
          rw [ha] at hag
          obtain ⟨⟨b, t'⟩, ht, hb, hR'⟩ := hag
          cases hb
          exact ⟨_, .stmt ht, hk _, hR'⟩
  | intr hi hh =>
      cases hp with
      | stmt pc hact hk =>
          obtain ⟨j, t', hj, hh', hR'⟩ := M.followed hR hi hh
          exact ⟨_, .intr hj hh', .stmt _ hact hk, hR'⟩
  | pause hi hh =>
      cases hp
      obtain ⟨j, t', hj, hh', hR'⟩ := M.followed hR hi hh
      exact ⟨_, .pause hj hh', .ret (), hR'⟩

/-- Every configuration the concrete loop reaches belongs to one the abstract loop reaches, if the
abstract loop meets no fault without an image. -/
theorem Paired.refines (M : Matched R image cut I J) (hbody : Mirrors R image body body')
    (h : Paired R image c c')
    (hsafe : ∀ d, ReflTransGen (LoopStep I top body) c d → ∀ e, LoopFault I top d e → image e ≠ none)
    {d' : Prog τ δ π Unit × τ} (hrun : ReflTransGen (LoopStep J top body') c' d') :
    ∃ d, ReflTransGen (LoopStep I top body) c d ∧ Paired R image d d' := by
  induction hrun with
  | refl => exact ⟨c, .refl, h⟩
  | tail _ hstep ih =>
      obtain ⟨d, hd, hpair⟩ := ih
      obtain ⟨d₁, hstep₁, hpair₁⟩ := hpair.answer M hbody (hsafe d hd) hstep
      exact ⟨d₁, hd.tail hstep₁, hpair₁⟩

/-- And the other way round. -/
theorem Paired.realizes (M : Matched R image cut I J) (hbody : Mirrors R image body body')
    (h : Paired R image c c') {d : Prog σ ε π Unit × σ}
    (hrun : ReflTransGen (LoopStep I top body) c d) :
    ∃ d', ReflTransGen (LoopStep J top body') c' d' ∧ Paired R image d d' := by
  induction hrun with
  | refl => exact ⟨c', .refl, h⟩
  | tail _ hstep ih =>
      obtain ⟨d', hd, hpair⟩ := ih
      obtain ⟨d₁, hstep₁, hpair₁⟩ := hpair.follow M hbody hstep
      exact ⟨d₁, hd.tail hstep₁, hpair₁⟩

end Paired

end Loops

end Interruptible
