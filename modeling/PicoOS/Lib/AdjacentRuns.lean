/-
# `PicoOS.Lib.AdjacentRuns` — the first of each run of equal elements

A sequence is cut into maximal runs in which each element is equal, under `less`, to
the one before it.  `firsts` are the first elements of the runs, `repeats` are all
the others.

An algorithm that goes through the sequence once compares each element with the one
it has kept last (`keeps`, `drops`), not with the one before it.  That comes to the
same because being equal is transitive.
-/
import Mathlib.Data.List.Destutter
import Mathlib.Data.List.SplitBy
import PicoOS.Lib.NaturalSort

namespace NaturalSort

variable {α : Type} {less : α → α → Bool} {S : List α} {e y : α}

/-- The first element of each run. -/
def firsts (less : α → α → Bool) (xs : List α) : List α :=
  (xs.splitBy (equal less)).filterMap List.head?

/-- The elements that are not the first of their run. -/
def repeats (less : α → α → Bool) (xs : List α) : List α :=
  (xs.splitBy (equal less)).flatMap List.tail

/-- No element is lost, and none comes up twice. -/
theorem firsts_repeats_perm (less : α → α → Bool) (xs : List α) :
    (firsts less xs ++ repeats less xs).Perm xs := by
  have hgroups : ∀ gs : List (List α),
      (gs.filterMap List.head? ++ gs.flatMap List.tail).Perm gs.flatten := by
    intro gs
    induction gs with
    | nil => exact .refl []
    | cons g gs ih =>
        cases g with
        | nil => exact ih
        | cons x g =>
            show (x :: (gs.filterMap List.head? ++ (g ++ gs.flatMap List.tail))).Perm
              (x :: (g ++ gs.flatten))
            refine List.Perm.cons x ?_
            exact (List.perm_append_comm_assoc _ _ _).trans (ih.append_left g)
  have hall := hgroups (xs.splitBy (equal less))
  rwa [List.flatten_splitBy] at hall

/-! ## In one go -/

/-- What is kept of `ys`, `e` being kept. -/
def keeps (less : α → α → Bool) (e : α) (ys : List α) : List α :=
  ys.destutter' (fun x y => equal less x y = false) e

/-- What is not kept. -/
def drops (less : α → α → Bool) : α → List α → List α
  | _, [] => []
  | e, y :: ys => if equal less e y then y :: drops less e ys else drops less y ys

theorem keeps_equal {ys : List α} (h : equal less e y = true) :
    keeps less e (y :: ys) = keeps less e ys :=
  List.destutter'_cons_neg _ (by rw [h]; exact Bool.noConfusion)

theorem keeps_differs {ys : List α} (h : equal less e y = false) :
    keeps less e (y :: ys) = e :: keeps less y ys :=
  List.destutter'_cons_pos _ h

theorem drops_equal {ys : List α} (h : equal less e y = true) :
    drops less e (y :: ys) = y :: drops less e ys := by
  rw [drops, if_pos h]

theorem drops_differs {ys : List α} (h : equal less e y = false) :
    drops less e (y :: ys) = drops less y ys := by
  rw [drops, h, if_neg Bool.false_ne_true]

/-! ## The two come to the same -/

/-- What follows a run is not equal to any of it. -/
theorem StrictWeakOn.differs {a : α} (h : StrictWeakOn less S) (he : e ∈ S) (ha : a ∈ S)
    (hy : y ∈ S) (hea : equal less e a = true) (hey : equal less e y = false) :
    equal less a y = false := by
  cases hay : equal less a y with
  | false => rfl
  | true =>
      rw [h.equal_trans e he a ha y hy hea hay] at hey
      cases hey

/-- Elements that are all equal to the first of them are one run. -/
theorem splitBy_run {mid : List α} (h : StrictWeakOn less S) (hS : e :: mid ⊆ S)
    (hall : ∀ a ∈ e :: mid, equal less e a = true) :
    (e :: mid).splitBy (equal less) = [e :: mid] := by
  have heS : e ∈ S := hS (List.mem_cons_self ..)
  have hpair : (e :: mid).Pairwise fun a b => equal less a b = true :=
    List.pairwise_of_forall_mem_list fun a ha b hb =>
      h.equal_trans a (hS ha) e heS b (hS hb) (equal_symm (hall a ha)) (hall b hb)
  exact List.splitBy_of_isChain (List.cons_ne_nil e mid) hpair.isChain

/-- The run that `e` begins is `e` and `mid` so far. -/
theorem firsts_run (h : StrictWeakOn less S) : ∀ {rest mid : List α} {e : α},
    e :: mid ++ rest ⊆ S → (∀ a ∈ e :: mid, equal less e a = true) →
    firsts less (e :: mid ++ rest) = keeps less e rest ∧
      repeats less (e :: mid ++ rest) = mid ++ drops less e rest := by
  intro rest
  induction rest with
  | nil =>
      intro mid e hS hall
      rw [List.append_nil] at hS
      rw [List.append_nil, firsts, repeats, splitBy_run h hS hall]
      exact ⟨rfl, rfl⟩
  | cons y rest ih =>
      intro mid e hS hall
      have heS : e ∈ S := hS (List.mem_cons_self ..)
      have hyS : y ∈ S := hS (List.mem_append_right _ (List.mem_cons_self ..))
      have hmS : e :: mid ⊆ S := fun a ha => hS (List.mem_append_left _ ha)
      cases hey : equal less e y with
      | true =>
          -- `y` belongs to the run.
          have hone : e :: mid ++ y :: rest = e :: (mid ++ [y]) ++ rest := by simp
          have hall' : ∀ a ∈ e :: (mid ++ [y]), equal less e a = true := by
            intro a ha
            rw [← List.cons_append] at ha
            rcases List.mem_append.mp ha with ha | ha
            · exact hall a ha
            · rw [List.mem_singleton.mp ha, hey]
          obtain ⟨hfirsts, hrepeats⟩ := ih (hone ▸ hS) hall'
          rw [hone, hfirsts, hrepeats, keeps_equal hey, drops_equal hey, List.append_assoc,
            List.singleton_append]
          exact ⟨rfl, rfl⟩
      | false =>
          -- `y` begins a run of its own: it is not equal to the last element of this one.
          have hlast : ∀ a ∈ (e :: mid).getLast?, equal less a y = false := by
            intro a ha
            have ham := List.mem_of_mem_getLast? ha
            exact h.differs heS (hmS ham) hyS (hall a ham) hey
          have hcut : (e :: mid ++ y :: rest).splitBy (equal less) =
              (e :: mid) :: (y :: rest).splitBy (equal less) := by
            rw [List.splitBy_append_cons rest hlast, splitBy_run h hmS hall]
            rfl
          have hS' : y :: [] ++ rest ⊆ S := fun a ha => hS (List.mem_append_right _ ha)
          obtain ⟨hfirsts, hrepeats⟩ := ih hS'
            (fun a ha => by rw [List.mem_singleton.mp ha, h.equal_self hyS])
          rw [keeps_differs hey, drops_differs hey, ← hfirsts, firsts, repeats, hcut]
          exact ⟨rfl, congrArg (mid ++ ·) hrepeats⟩

theorem firsts_cons {ys : List α} (h : StrictWeakOn less (e :: ys)) :
    firsts less (e :: ys) = keeps less e ys ∧ repeats less (e :: ys) = drops less e ys := by
  have hS : e :: [] ++ ys ⊆ e :: ys := List.Subset.refl _
  refine firsts_run h hS fun a ha => ?_
  rw [List.mem_singleton.mp ha, h.equal_self (List.mem_cons_self ..)]

theorem keeps_increasing (h : StrictWeakOn less S) : ∀ {ys : List α} {e : α}, e :: ys ⊆ S →
    (e :: ys).Pairwise (InOrder less) →
    (keeps less e ys).Pairwise fun x y => less x y = true := by
  intro ys
  induction ys with
  | nil =>
      intro e _ _
      exact List.pairwise_singleton ..
  | cons y ys ih =>
      intro e hS hs
      obtain ⟨hbefore, hrest⟩ := List.pairwise_cons.mp hs
      have hS' : y :: ys ⊆ S := fun a ha => hS (List.mem_cons_of_mem _ ha)
      cases hey : equal less e y with
      | true =>
          rw [keeps_equal hey]
          have hsub : (e :: ys).Sublist (e :: y :: ys) := (List.sublist_cons_self y ys).cons_cons e
          exact ih (fun a ha => hS (hsub.subset ha)) (hs.sublist hsub)
      | false =>
          rw [keeps_differs hey]
          have hless : less e y = true := by
            rw [equal, show less y e = false from hbefore y (List.mem_cons_self ..)] at hey
            simpa using hey
          refine List.pairwise_cons.mpr ⟨fun z hz => ?_, ih hS' hrest⟩
          rcases List.mem_cons.mp ((List.destutter'_sublist _ _ y).subset hz) with rfl | hz
          · exact hless
          · exact h.less_of_less_of_inOrder (hS' (List.mem_cons_self ..))
              (hS (List.mem_cons_self ..)) (hS' (List.mem_cons_of_mem _ hz)) hless
              ((List.pairwise_cons.mp hrest).1 z hz)

/-- The first elements of the runs of a sorted sequence increase. -/
theorem firsts_increasing {xs : List α} (h : StrictWeakOn less xs)
    (hs : xs.Pairwise (InOrder less)) :
    (firsts less xs).Pairwise fun x y => less x y = true := by
  cases xs with
  | nil => exact .nil
  | cons e ys =>
      rw [(firsts_cons h).1]
      exact keeps_increasing h (List.Subset.refl _) hs

end NaturalSort
