/-
# `PicoOS.Lib.InsertionSort` — sorting by insertion

Elements inserted one after the other into a sorted sequence, each before the first
one it is less than, so after all those it is equal to.  By a strict weak order the
result is the stable arrangement of `PicoOS.Lib.NaturalSort`, whatever else may
compute that.
-/
import Mathlib.Data.List.Sort
import Mathlib.Data.List.TakeWhile
import PicoOS.Lib.NaturalSort

namespace NaturalSort

variable {α : Type} {less : α → α → Bool} {a : α} {xs ys : List α}

/-- `a` put before the first element that it is less than. -/
def insertion (less : α → α → Bool) (a : α) (ys : List α) : List α :=
  ys.orderedInsert (fun x y => less x y = true) a

/-- The elements of `xs` inserted one after the other. -/
def insertAll (less : α → α → Bool) (xs : List α) : List α :=
  xs.foldl (fun ys a => insertion less a ys) []

/-- Where `a` goes. -/
theorem insertion_eq (less : α → α → Bool) (a : α) (ys : List α) : insertion less a ys =
    (ys.takeWhile fun y => !less a y) ++ a :: ys.dropWhile fun y => !less a y := by
  have htest : (fun y => decide ¬less a y = true) = fun y => !less a y := by
    funext y
    cases less a y <;> rfl
  have hcut := List.orderedInsert_eq_take_drop (fun x y => less x y = true) a ys
  rwa [htest] at hcut

theorem insertion_perm (less : α → α → Bool) (a : α) (ys : List α) :
    (insertion less a ys).Perm (a :: ys) :=
  List.perm_orderedInsert _ a ys

theorem insertAll_concat (less : α → α → Bool) (xs : List α) (a : α) :
    insertAll less (xs ++ [a]) = insertion less a (insertAll less xs) :=
  List.foldl_concat ..

/-- In a sorted sequence `a` comes after what may stand before it, and is less than all that
follows. -/
theorem insertion_split (h : StrictWeakOn less (a :: ys)) (hs : ys.Pairwise (InOrder less)) :
    ∃ us vs, ys = us ++ vs ∧ insertion less a ys = us ++ a :: vs ∧
      (∀ u ∈ us, InOrder less u a) ∧ ∀ v ∈ vs, less a v = true := by
  have hcut : ys = (ys.takeWhile fun y => !less a y) ++ ys.dropWhile fun y => !less a y :=
    List.takeWhile_append_dropWhile.symm
  refine ⟨_, _, hcut, insertion_eq less a ys, fun u hu => ?_, fun v hv => ?_⟩
  · have hnot := List.mem_takeWhile_imp hu
    rwa [Bool.not_eq_true'] at hnot
  · have hmem : ∀ {x}, x ∈ (ys.dropWhile fun y => !less a y) → x ∈ a :: ys := fun hx =>
      List.mem_cons_of_mem _ ((List.dropWhile_sublist _).subset hx)
    cases hrest : ys.dropWhile fun y => !less a y with
    | nil =>
        rw [hrest] at hv
        cases hv
    | cons w ws =>
        have hw : less a w = true := by
          have hhead := List.head?_dropWhile_not (fun y => !less a y) ys
          rw [hrest] at hhead
          simpa using hhead
        rw [hrest] at hv hmem
        rcases List.mem_cons.mp hv with rfl | hv'
        · exact hw
        · have hsub : (w :: ws).Pairwise (InOrder less) := by
            rw [← hrest]
            exact hs.sublist (List.dropWhile_sublist _)
          exact h.less_of_less_of_inOrder (hmem (List.mem_cons_self ..)) (List.mem_cons_self ..)
            (hmem hv) hw ((List.pairwise_cons.mp hsub).1 v hv')

theorem sorted_insertion (h : StrictWeakOn less (a :: ys)) (hs : ys.Pairwise (InOrder less)) :
    (insertion less a ys).Pairwise (InOrder less) := by
  obtain ⟨us, vs, hys, hins, hbefore, hafter⟩ := insertion_split h hs
  rw [hys] at hs h
  obtain ⟨hus, hvs, hcross⟩ := List.pairwise_append.mp hs
  rw [hins]
  refine List.pairwise_append.mpr ⟨hus, List.pairwise_cons.mpr ⟨fun v hv => ?_, hvs⟩, ?_⟩
  · exact h.asymm (List.mem_cons_self ..)
      (List.mem_cons_of_mem _ (List.mem_append_right _ hv)) (hafter v hv)
  · intro u hu v hv
    rcases List.mem_cons.mp hv with rfl | hv
    · exact hbefore u hu
    · exact hcross u hu v hv

/-- Equal elements stand as if `a` had been put at the end. -/
theorem filter_insertion {c : α} (h : StrictWeakOn less (a :: ys)) (hc : c ∈ a :: ys)
    (hs : ys.Pairwise (InOrder less)) :
    (insertion less a ys).filter (equal less c) = (ys ++ [a]).filter (equal less c) := by
  obtain ⟨us, vs, hys, hins, -, hafter⟩ := insertion_split h hs
  rw [hins, hys, List.append_assoc]
  simp only [List.filter_append, List.filter_cons, List.filter_nil]
  cases hca : equal less c a with
  | false => simp
  | true =>
      -- What follows `a` is above it, so it is not equal to `c`.
      have hnone : vs.filter (equal less c) = [] := by
        refine List.filter_eq_nil_iff.mpr fun v hv => ?_
        have hvm : v ∈ a :: ys := by
          rw [hys]
          exact List.mem_cons_of_mem _ (List.mem_append_right _ hv)
        exact Bool.eq_false_iff.mp
          (h.differs_above hc (List.mem_cons_self ..) hvm hca (hafter v hv))
      rw [hnone]
      rfl

/-- Equal elements are selected alike. -/
theorem filter_equal {S : List α} {c d : α} (h : StrictWeakOn less S) (hc : c ∈ S) (hd : d ∈ S)
    (hxs : xs ⊆ S) (hcd : equal less c d = true) :
    xs.filter (equal less c) = xs.filter (equal less d) := by
  have hdc := equal_symm hcd
  refine List.filter_congr fun x hx => Bool.eq_iff_iff.mpr ⟨fun hcx => ?_, fun hdx => ?_⟩
  · exact h.equal_trans d hd c hc x (hxs hx) hdc hcx
  · exact h.equal_trans c hc d hd x (hxs hx) hcd hdx

/-- A rearrangement is stable for elements that are not in it, too. -/
theorem Rearranged.filter_eq {S : List α} {c : α} (h : StrictWeakOn less S) (hc : c ∈ S)
    (hxs : xs ⊆ S) (hr : Rearranged less xs ys) :
    ys.filter (equal less c) = xs.filter (equal less c) := by
  have hys : ys ⊆ S := fun y hy => hxs (hr.perm.mem_iff.mp hy)
  by_cases hsome : ∃ d ∈ xs, equal less c d = true
  · obtain ⟨d, hd, hcd⟩ := hsome
    rw [filter_equal h hc (hxs hd) hys hcd, filter_equal h hc (hxs hd) hxs hcd]
    exact hr.stable d hd
  · have hnone : ∀ x ∈ xs, ¬ equal less c x = true := fun x hx hcx => hsome ⟨x, hx, hcx⟩
    rw [List.filter_eq_nil_iff.mpr hnone,
      List.filter_eq_nil_iff.mpr fun y hy => hnone y (hr.perm.mem_iff.mp hy)]

theorem Arranged.insertion (h : StrictWeakOn less (xs ++ [a])) (hys : Arranged less xs ys) :
    Arranged less (xs ++ [a]) (insertion less a ys) := by
  have hperm : (a :: ys).Perm (xs ++ [a]) :=
    (hys.perm.cons a).trans (List.perm_append_singleton a xs).symm
  have hw : StrictWeakOn less (a :: ys) := h.mono hperm.subset
  refine ⟨⟨(insertion_perm less a ys).trans hperm, fun c hc => ?_⟩, sorted_insertion hw hys.sorted⟩
  rw [filter_insertion hw (hperm.mem_iff.mpr hc) hys.sorted, List.filter_append,
    List.filter_append]
  refine congrArg (· ++ [a].filter (equal less c)) ?_
  exact hys.toRearranged.filter_eq h hc (List.subset_append_left xs [a])

theorem arranged_insertAll (h : StrictWeakOn less xs) : Arranged less xs (insertAll less xs) := by
  induction xs using List.reverseRecOn with
  | nil => exact ⟨.refl [], .nil⟩
  | append_singleton xs a ih =>
      rw [insertAll_concat]
      exact (ih (h.mono (List.subset_append_left xs [a]))).insertion h

end NaturalSort
