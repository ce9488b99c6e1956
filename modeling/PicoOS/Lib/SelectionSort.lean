/-
# `PicoOS.Lib.SelectionSort` — sorting by selection

The first least element of a sequence, found in one pass that keeps the best so far.
Whatever stands before it is above it, so moving it to the front passes no equal
element: taking the first least again and again gives the stable arrangement of
`PicoOS.Lib.NaturalSort`.
-/
import PicoOS.Lib.InsertionSort

namespace NaturalSort

variable {α : Type} {less : α → α → Bool} {a x : α} {xs ys us vs : List α}

/-- A strict weak order, the other way round. -/
theorem StrictWeakOn.flip (h : StrictWeakOn less xs) : StrictWeakOn (flip less) xs where
  irrefl a ha := h.irrefl a ha
  trans a ha b hb c hc hab hbc := h.trans c hc b hb a ha hbc hab
  equal_trans a ha b hb c hc hab hbc := h.equal_trans c hc b hb a ha hbc hab

/-- What is kept of `xs`, `x` being kept at first, when only what is less replaces it. -/
def least (less : α → α → Bool) (x : α) (xs : List α) : α :=
  xs.foldl (fun m e => if less e m then e else m) x

theorem least_concat (less : α → α → Bool) (x : α) (xs : List α) (a : α) :
    least less x (xs ++ [a]) = if less a (least less x xs) then a else least less x xs :=
  List.foldl_concat ..

/-- `a` is the first least element of a sequence, `us` being before it and `vs` after it. -/
structure FirstLeast (less : α → α → Bool) (us : List α) (a : α) (vs : List α) : Prop where
  before : ∀ u ∈ us, less a u = true
  after : ∀ v ∈ vs, InOrder less a v

/-- What replaces the first least element is less than all that was looked at. -/
theorem FirstLeast.less_all {e : α} (h : FirstLeast less us a vs)
    (hw : StrictWeakOn less (us ++ a :: vs ++ [e])) (hl : less e a = true) :
    ∀ y ∈ us ++ a :: vs, less e y = true := by
  intro y hy
  have ha : a ∈ us ++ a :: vs ++ [e] := by simp
  have he : e ∈ us ++ a :: vs ++ [e] := by simp
  have hy' : y ∈ us ++ a :: vs ++ [e] := List.mem_append_left _ hy
  rcases List.mem_append.mp hy with hu | hv
  · exact hw.trans e he a ha y hy' hl (h.before y hu)
  · rcases List.mem_cons.mp hv with rfl | hv
    · exact hl
    · exact hw.less_of_less_of_inOrder ha he hy' hl (h.after y hv)

/-- One pass finds the first least element. -/
theorem least_first (hw : StrictWeakOn less (x :: xs)) :
    ∃ us vs, x :: xs = us ++ least less x xs :: vs ∧ FirstLeast less us (least less x xs) vs := by
  induction xs using List.reverseRecOn with
  | nil => exact ⟨[], [], rfl, fun _ hu => absurd hu List.not_mem_nil,
      fun _ hv => absurd hv List.not_mem_nil⟩
  | append_singleton xs e ih =>
      have hsub : x :: xs ⊆ x :: (xs ++ [e]) :=
        List.cons_subset_cons x (List.subset_append_left xs [e])
      obtain ⟨us, vs, hcut, hfirst⟩ := ih (hw.mono hsub)
      have hcut' : x :: (xs ++ [e]) = us ++ least less x xs :: vs ++ [e] := by
        rw [← List.cons_append, hcut]
      rw [least_concat]
      cases hl : less e (least less x xs) with
      | true =>
          rw [hcut'] at hw
          refine ⟨us ++ least less x xs :: vs, [], hcut', hfirst.less_all hw hl, ?_⟩
          intro v hv
          cases hv
      | false =>
          refine ⟨us, vs ++ [e], ?_, hfirst.before, ?_⟩
          · simpa using hcut'
          · intro v hv
            rcases List.mem_append.mp hv with hv | hv
            · exact hfirst.after v hv
            · obtain rfl := List.mem_singleton.mp hv
              exact hl

/-- Nothing equal to the first least element stands before it. -/
theorem FirstLeast.filter_eq {c : α} (h : FirstLeast less us a vs)
    (hw : StrictWeakOn less (us ++ a :: vs)) (hc : c ∈ us ++ a :: vs) :
    (a :: (us ++ vs)).filter (equal less c) = (us ++ a :: vs).filter (equal less c) := by
  simp only [List.filter_append, List.filter_cons]
  cases hca : equal less c a with
  | false => simp
  | true =>
      have ha : a ∈ us ++ a :: vs := by simp
      have hnone : us.filter (equal less c) = [] := by
        refine List.filter_eq_nil_iff.mpr fun u hu => Bool.eq_false_iff.mp ?_
        exact hw.differs_above hc ha (List.mem_append_left _ hu) hca (h.before u hu)
      rw [hnone]
      rfl

/-- The first least element, and then the others arranged. -/
theorem Arranged.select (hys : Arranged less (us ++ vs) ys) (hw : StrictWeakOn less (us ++ a :: vs))
    (h : FirstLeast less us a vs) : Arranged less (us ++ a :: vs) (a :: ys) := by
  have hperm : (a :: (us ++ vs)).Perm (us ++ a :: vs) := List.perm_middle.symm
  have hrest : us ++ vs ⊆ us ++ a :: vs := fun y hy =>
    hperm.subset (List.mem_cons_of_mem a hy)
  have ha : a ∈ us ++ a :: vs := by simp
  refine ⟨⟨(hys.perm.cons a).trans hperm, fun c hc => ?_⟩, List.pairwise_cons.mpr ⟨?_, hys.sorted⟩⟩
  · rw [← h.filter_eq hw hc, List.filter_cons, List.filter_cons,
      hys.toRearranged.filter_eq hw hc hrest]
  · intro y hy
    have hy' : y ∈ us ++ vs := hys.perm.mem_iff.mp hy
    rcases List.mem_append.mp hy' with hu | hv
    · exact hw.asymm ha (hrest hy') (h.before y hu)
    · exact h.after y hv

/-- Sorted by whichever algorithm, the first least element comes first. -/
theorem FirstLeast.insertAll (h : FirstLeast less us a vs) (hw : StrictWeakOn less (us ++ a :: vs)) :
    insertAll less (us ++ a :: vs) = a :: insertAll less (us ++ vs) := by
  have hrest : us ++ vs ⊆ us ++ a :: vs := fun y hy =>
    List.perm_middle.symm.subset (List.mem_cons_of_mem a hy)
  exact ((arranged_insertAll (hw.mono hrest)).select hw h).unique hw (arranged_insertAll hw)

end NaturalSort
