/-
# `PicoOS.Lists.Unique` — `list_unique`

`list_unique` goes through the list once and compares each element with the one it
kept last.  An element that is equal to it is unlinked and, if there is a second
list, put at the end of that one; the loop goes on from the element kept, whose
`next` the removal has just changed.

The second list may be absent, so it is an `Option`: `spilled` is what the two lists
then hold, and the other lists with them.
-/
import PicoOS.Lib.AdjacentRuns
import PicoOS.Lists.Sort

namespace PicoOS.Lists

open Fallible LinkedSeq NaturalSort

variable {α ι : Type} [DecidableEq α] [DecidableEq ι] {less : α → α → Bool} {H : Links α}
  {L : ι → Ends α} {xs : ι → List α} {i : ι} {dup : Option ι}

/-! ## The two lists -/

/-- The list `i` holds `kept`, and `removed` was put at the end of the list `dup`. -/
def spilled (xs : ι → List α) (i : ι) (dup : Option ι) (kept removed : List α) : ι → List α :=
  match dup with
  | none => Function.update xs i kept
  | some j => Function.update (Function.update xs i kept) j (xs j ++ removed)

/-- The cells of the two lists. -/
def touched (L : ι → Ends α) (xs : ι → List α) (i : ι) (dup : Option ι) : List α :=
  (L i).cells (xs i) ++ dup.elim [] fun j => (L j).cells (xs j)

omit [DecidableEq α] in
theorem spilled_self (hd : dup ≠ some i) (kept removed : List α) :
    spilled xs i dup kept removed i = kept := by
  cases dup with
  | none => exact Function.update_self ..
  | some j =>
      have hij : i ≠ j := fun he => hd (he ▸ rfl)
      exact (Function.update_of_ne hij _ _).trans (Function.update_self ..)

omit [DecidableEq α] in
/-- Nothing removed. -/
theorem spilled_nil (xs : ι → List α) (hd : dup ≠ some i) : spilled xs i dup (xs i) [] = xs := by
  cases dup with
  | none => exact Function.update_eq_self i xs
  | some j =>
      rw [spilled, Function.update_eq_self, List.append_nil, Function.update_eq_self]

omit [DecidableEq α] in
/-- One removal after another. -/
theorem spilled_spilled (hd : dup ≠ some i) (kept kept' removed removed' : List α) :
    spilled (spilled xs i dup kept removed) i dup kept' removed' =
      spilled xs i dup kept' (removed ++ removed') := by
  cases dup with
  | none => exact Function.update_idem ..
  | some j =>
      have hij : i ≠ j := fun he => hd (he ▸ rfl)
      funext k
      by_cases hk : k = j
      · subst hk
        simp [spilled]
      · by_cases hk' : k = i
        · subst hk'
          simp [spilled, hij]
        · simp [spilled, hk, hk']

/-! ## One element -/

omit [DecidableEq α] [DecidableEq ι] in
/-- `!less (a, b, aux) && !less (b, a, aux)`. -/
theorem calls_equal (less : α → α → Bool) (H : Links α) (a b : α) :
    (do if ← calls less (some a) (some b) then return false
        else return !(← calls less (some b) (some a)) : Code α Bool) H =
      .ok (equal less a b, H) := by
  rw [bind_ok (calls_ok less H a b), equal]
  cases less a b with
  | true => rfl
  | false =>
      rw [if_neg Bool.false_ne_true, bind_ok (calls_ok less H b a)]
      rfl

/-- The element `y` is taken out of its list and put at the end of the other, if there is one. -/
theorem removeDuplicate_leaves {y : α} {ys zs : List α} (h : Holds H L xs) (hd : dup ≠ some i)
    (hx : xs i = ys ++ y :: zs) :
    Leaves H L (removeDuplicate (dup.map L) (some y)) () (spilled xs i dup (ys ++ zs) [y])
      (touched L xs i dup) := by
  have hremove := listRemove_leaves h hx
  have hx' : xs i = ys ++ [y] ++ zs := by simpa using hx
  have hloose := (h.apart.cut hx').2
  cases dup with
  | none =>
      obtain ⟨H', hrun, hholds, hoff⟩ := hremove
      refine ⟨H', ?_, hholds, hoff.mono (List.subset_append_left _ _)⟩
      rw [removeDuplicate, bind_ok hrun]
      rfl
  | some j =>
      have hij : j ≠ i := fun he => hd (he ▸ rfl)
      have hsame : Function.update xs i (ys ++ zs) j = xs j := Function.update_of_ne hij _ _
      have hsub : y :: (L j).cells (xs j) ⊆ touched L xs i (some j) := by
        refine List.cons_subset.mpr ⟨List.mem_append_left _ ?_, List.subset_append_right _ _⟩
        rw [hx]
        exact List.mem_cons_of_mem _ (by simp)
      refine (hremove.mono (List.subset_append_left _ _)).seq (fun H' h' => ?_) hsub
      have hpush := listPushBack_leaves (i := j) h' fun k =>
        hloose.disjoint k (List.mem_singleton_self y)
      rw [hsame] at hpush
      exact hpush

omit [DecidableEq α] in
/-- The cells are still those of the two lists. -/
theorem touched_spilled {y : α} {ys zs : List α} (hd : dup ≠ some i)
    (hx : xs i = ys ++ y :: zs) :
    touched L (spilled xs i dup (ys ++ zs) [y]) i dup ⊆ touched L xs i dup := by
  have hsub : (ys ++ zs).Sublist (xs i) := by
    rw [hx]
    exact (List.sublist_cons_self y zs).append_left ys
  have hkept : (L i).cells (ys ++ zs) ⊆ (L i).cells (xs i) := (Ends.cells_sublist hsub).subset
  unfold touched
  rw [spilled_self hd]
  cases dup with
  | none => exact List.append_subset.mpr ⟨fun x hx => List.mem_append_left _ (hkept hx),
      List.nil_subset _⟩
  | some j =>
      refine List.append_subset.mpr ⟨fun x hx => List.mem_append_left _ (hkept hx), fun x hin => ?_⟩
      have hin' : x ∈ (L j).cells (xs j ++ [y] ++ []) := by
        simpa [spilled] using hin
      rcases List.mem_append.mp (((L j).cells_perm (xs j) [y] []).mem_iff.mp hin') with hin | hin
      · refine List.mem_append_left _ ?_
        rw [List.mem_singleton.mp hin, hx]
        exact List.mem_cons_of_mem _ (by simp)
      · rw [List.append_nil] at hin
        exact List.mem_append_right _ hin

/-! ## The loop -/

/-- The loop, at the element `e` kept last with `rest` to go. -/
theorem listUniqueLoop_leaves (less : α → α → Bool) (hd : dup ≠ some i) : ∀ {rest ds : List α}
    {e : α} {n : Nat} {H : Links α} {xs : ι → List α}, Holds H L xs → xs i = ds ++ e :: rest →
    rest.length < n →
    Leaves H L (listUniqueLoop less (some (L i)) (dup.map L) n (some e)) ()
      (spilled xs i dup (ds ++ keeps less e rest) (drops less e rest)) (touched L xs i dup) := by
  intro rest
  induction rest with
  | nil =>
      intro ds e n H xs h hx hn
      obtain ⟨n, rfl, -⟩ := another_round hn
      have hsame : spilled xs i dup (ds ++ keeps less e []) (drops less e []) = xs := by
        show spilled xs i dup (ds ++ [e]) [] = xs
        rw [← hx, spilled_nil xs hd]
      rw [hsame]
      refine .refl h ?_ _
      rw [listUniqueLoop, bind_ok (listNext_ok h hx), bind_ok (listEnd_ok H (L i)), Ends.at_nil,
        if_neg (not_not.mpr rfl)]
      rfl
  | cons y rest ih =>
      intro ds e n H xs h hx hn
      obtain ⟨n, rfl, hn'⟩ := another_round hn
      have hx' : xs i = (ds ++ [e]) ++ y :: rest := by simpa using hx
      have hround : listUniqueLoop less (some (L i)) (dup.map L) (n + 1) (some e) H =
          (if equal less e y then (do
            removeDuplicate (dup.map L) (some y)
            listUniqueLoop less (some (L i)) (dup.map L) n (some e))
          else listUniqueLoop less (some (L i)) (dup.map L) n (some y) : Code α Unit) H := by
        rw [listUniqueLoop, bind_ok (listNext_ok h hx), bind_ok (listEnd_ok H (L i)), Ends.at_cons,
          if_pos (h.ne_tail hx'), bind_ok (calls_equal less H e y)]
      refine .of_eq hround ?_
      cases hey : equal less e y with
      | true =>
          -- `y` goes; the loop is still at `e`.
          rw [if_pos rfl, keeps_equal hey, drops_equal hey]
          have hx₁ : spilled xs i dup (ds ++ [e] ++ rest) [y] i = ds ++ e :: rest := by
            rw [spilled_self hd, List.append_assoc, List.singleton_append]
          refine (removeDuplicate_leaves h hd hx').seq (fun H' h' => ?_) (touched_spilled hd hx')
          have hrest := ih h' hx₁ hn'
          rwa [spilled_spilled hd, List.singleton_append] at hrest
      | false =>
          rw [if_neg Bool.false_ne_true, keeps_differs hey, drops_differs hey]
          have hrest := ih h hx' hn'
          rwa [List.append_assoc, List.singleton_append] at hrest

/-! ## `list_unique` -/

theorem listUnique_leaves {n : Nat} (h : Holds H L xs) (hd : dup ≠ some i)
    (hw : StrictWeakOn less (xs i)) (hn : (xs i).length < n) :
    Leaves H L (listUnique less n (some (L i)) (dup.map L)) ()
      (spilled xs i dup (firsts less (xs i)) (repeats less (xs i))) (touched L xs i dup) := by
  refine .after (asserts_ok rfl) (.after (listEmpty_ok h i) ?_)
  cases hx : xs i with
  | nil =>
      have hsame : spilled xs i dup (firsts less []) (repeats less []) = xs := by
        have hnil := spilled_nil xs hd
        rwa [hx] at hnil
      rw [hsame]
      exact .refl h rfl _
  | cons e rest =>
      rw [hx] at hw hn
      have hbegin : listBegin (some (L i)) H = .ok (some e, H) := by
        rw [listBegin_ok h i, hx, Ends.at_cons]
      have hx' : xs i = [] ++ e :: rest := hx
      rw [decide_eq_false (List.cons_ne_nil e rest), if_neg Bool.false_ne_true,
        (firsts_cons hw).1, (firsts_cons hw).2]
      refine .after hbegin (listUniqueLoop_leaves less hd h hx' ?_)
      rw [List.length_cons] at hn
      omega

/-- `list_unique` by a LESS that is a strict weak order on the elements of the list returns; the list
then holds the first element of each maximal run of equal ones, and the others are at the end of
the list `duplicates`, or in no list if that is `NULL`.  Of a sorted list an increasing one is
left. -/
theorem list_unique_keeps_firsts {n : Nat} (h : Holds H L xs) (hw : StrictWeakOn less (xs i))
    (hn : (xs i).length < n) :
    (∀ j, j ≠ i → Leaves H L (listUnique less n (some (L i)) (some (L j))) ()
      (Function.update (Function.update xs i (firsts less (xs i))) j
        (xs j ++ repeats less (xs i)))
      ((L i).cells (xs i) ++ (L j).cells (xs j))) ∧
    Leaves H L (listUnique less n (some (L i)) none) () (Function.update xs i (firsts less (xs i)))
      ((L i).cells (xs i)) ∧
    (firsts less (xs i) ++ repeats less (xs i)).Perm (xs i) ∧
    ((xs i).Pairwise (InOrder less) →
      (firsts less (xs i)).Pairwise fun x y => less x y = true) := by
  refine ⟨fun j hj => ?_, ?_, firsts_repeats_perm less (xs i), firsts_increasing hw⟩
  · have hd : some j ≠ some i := fun he => hj (Option.some.inj he)
    exact listUnique_leaves h hd hw hn
  · have hd : (none : Option ι) ≠ some i := nofun
    have hleaves := listUnique_leaves h hd hw hn
    rw [touched, Option.elim_none, List.append_nil] at hleaves
    exact hleaves

/-- The elements 2, 3 and 4 between the ends 0 and 1, and an empty list with the ends 5 and 6. -/
theorem holds_two_lists :
    let H : Links Nat :=
      ⟨fun x => [some 2, none, some 3, some 4, some 1, some 6, none][x]?.getD none,
        fun x => [none, some 4, some 0, some 2, some 3, none, some 5][x]?.getD none⟩
    let L : Bool → Ends Nat := fun b => if b then ⟨0, 1⟩ else ⟨5, 6⟩
    Holds H L fun b => if b then [2, 3, 4] else [] := by
  intro H L
  have hdisjoint : [0, 2, 3, 4, 1].Disjoint [5, 6] := by simp
  refine ⟨⟨by decide, fun b c hbc => ?_⟩, fun b => ?_⟩
  · cases b <;> cases c
    · exact absurd rfl hbc
    · exact hdisjoint.symm
    · exact hdisjoint
    · exact absurd rfl hbc
  cases b with
  | true =>
      refine ⟨?_, ?_, rfl, rfl⟩
      · show [0, 2, 3, 4, 1].IsChain fun x y => H.next x = some y
        simp [H]
      · show [1, 4, 3, 2, 0].IsChain fun x y => H.prev x = some y
        simp [H]
  | false =>
      refine ⟨?_, ?_, rfl, rfl⟩
      · show [5, 6].IsChain fun x y => H.next x = some y
        simp [H]
      · show [6, 5].IsChain fun x y => H.prev x = some y
        simp [H]

/-- The elements 2, 3 and 4 with the keys 5, 5 and 1, between the ends 0 and 1, and an empty list
with the ends 5 and 6. -/
theorem list_unique_three_cells :
    let H : Links Nat :=
      ⟨fun x => [some 2, none, some 3, some 4, some 1, some 6, none][x]?.getD none,
        fun x => [none, some 4, some 0, some 2, some 3, none, some 5][x]?.getD none⟩
    let L : Bool → Ends Nat := fun b => if b then ⟨0, 1⟩ else ⟨5, 6⟩
    let key : Nat → Nat := fun x => [0, 0, 5, 5, 1][x]?.getD 0
    Leaves H L (listUnique (fun x y => decide (key x < key y)) 4 (some ⟨0, 1⟩) (some ⟨5, 6⟩)) ()
      (fun b => if b then [2, 4] else [3]) [0, 2, 3, 4, 1, 5, 6] := by
  intro H L key
  have hholds : Holds H L fun b => if b then [2, 3, 4] else [] := holds_two_lists
  have hweak : StrictWeakOn (fun x y => decide (key x < key y)) [2, 3, 4] :=
    ⟨by decide, by decide, by decide⟩
  have hleaves := (list_unique_keeps_firsts (i := true) (n := 4) hholds hweak (by decide)).1 false
    (by decide)
  have hend : (fun b => if b then [2, 4] else [3] : Bool → List Nat) =
      Function.update (Function.update (fun b => if b then [2, 3, 4] else []) true
        (firsts (fun x y => decide (key x < key y)) [2, 3, 4])) false
        ([] ++ repeats (fun x y => decide (key x < key y)) [2, 3, 4]) := by
    funext b
    cases b <;> rfl
  rw [hend]
  exact hleaves

end PicoOS.Lists
