/-
# `PicoOS.Lists.Selection` — `list_max` and `list_min`

Both keep the best element so far and go once through the list; they differ in how
they call LESS, so what holds of the one by LESS holds of the other by its converse.
A list from which the smallest element is taken again and again comes out as
`list_sort` would have left it.
-/
import PicoOS.Lib.SelectionSort
import PicoOS.Lists.Unique

namespace PicoOS.Lists

open Fallible LinkedSeq NaturalSort

variable {α ι : Type} [DecidableEq α] {less : α → α → Bool} {H : Links α} {L : ι → Ends α}
  {xs : ι → List α} {i j : ι}

/-! ## One pass -/

/-- The loop keeps the least of what it has seen, by the converse of the test that it makes. -/
theorem keepLoop_ok (h : Holds H L xs) : ∀ {zs ys : List α} {m : α} {n : Nat},
    xs i = ys ++ zs → zs.length < n →
      keepLoop less (some (L i)) n (some m) ((L i).at zs) H =
        .ok (some (least (flip less) m zs), H) := by
  intro zs
  induction zs with
  | nil =>
      intro ys m n hx hn
      obtain ⟨n, rfl, -⟩ := another_round hn
      rw [keepLoop, bind_ok (listEnd_ok H (L i)), Ends.at_nil, if_neg (not_not.mpr rfl)]
      rfl
  | cons z zs ih =>
      intro ys m n hx hn
      obtain ⟨n, rfl, hn'⟩ := another_round hn
      have hx' : xs i = (ys ++ [z]) ++ zs := by simpa using hx
      rw [keepLoop, bind_ok (listEnd_ok H (L i)), Ends.at_cons, if_pos (h.ne_tail hx),
        bind_ok (calls_ok less H m z), bind_ok (listNext_ok h hx)]
      cases hless : less m z with
      | true =>
          rw [if_pos rfl, ih hx' hn', least, least, List.foldl_cons, flip, if_pos hless]
      | false =>
          rw [if_neg Bool.false_ne_true, ih hx' hn', least, least, List.foldl_cons, flip,
            if_neg (Bool.eq_false_iff.mp hless)]

theorem keepBest_empty (h : Holds H L xs) (hx : xs i = []) (n : Nat) :
    keepBest less n (some (L i)) H = .ok (some (L i).tail, H) := by
  unfold keepBest
  rw [bind_ok (listBegin_ok h i), bind_ok (listEnd_ok H (L i)), hx, Ends.at_nil,
    if_neg (not_not.mpr rfl)]
  rfl

theorem keepBest_ok {y : α} {ys : List α} {n : Nat} (h : Holds H L xs) (hx : xs i = y :: ys)
    (hn : ys.length < n) :
    keepBest less n (some (L i)) H = .ok (some (least (flip less) y ys), H) := by
  have hx₀ : xs i = [] ++ y :: ys := hx
  have hx₁ : xs i = [y] ++ ys := hx
  unfold keepBest
  rw [bind_ok (listBegin_ok h i), bind_ok (listEnd_ok H (L i)), hx, Ends.at_cons,
    if_pos (h.ne_tail hx₀), bind_ok (listNext_ok h hx₀)]
  exact keepLoop_ok h hx₁ hn

/-! ## Taking the best again and again -/

/-- What `select` finds in `list` is put at the end of `out`, until `list` is empty. -/
def drain (select : ListPtr α → Code α (Ptr α)) (list out : ListPtr α) : Nat → Code α Unit
  | 0 => throw .rounds
  | n + 1 => do
      let empty ← listEmpty list
      if empty then return ()
      else
        let e ← select list
        let _ ← listRemove e
        listPushBack out e
        drain select list out n

/-- One round, at an element that was found. -/
theorem drain_round {select : ListPtr α → Code α (Ptr α)} {e : α} {n : Nat} (h : Holds H L xs)
    (hne : xs i ≠ []) (hs : select (some (L i)) H = .ok (some e, H)) :
    drain select (some (L i)) (some (L j)) (n + 1) H =
      (do removeDuplicate (some (L j)) (some e)
          drain select (some (L i)) (some (L j)) n : Code α Unit) H := by
  rw [drain, bind_ok (listEmpty_ok h i), decide_eq_false hne, if_neg Bool.false_ne_true, bind_ok hs]
  simp only [removeDuplicate, bind_assoc, ne_eq, reduceCtorEq, not_false_eq_true, if_true]

variable [DecidableEq ι]

theorem drain_leaves {m : Nat} (hij : some j ≠ some i) : ∀ {n : Nat} {H : Links α}
    {xs : ι → List α}, Holds H L xs → StrictWeakOn less (xs i) → (xs i).length ≤ m →
    (xs i).length < n →
    Leaves H L (drain (keepBest (flip less) m) (some (L i)) (some (L j)) n) ()
      (spilled xs i (some j) [] (insertAll less (xs i))) (touched L xs i (some j)) := by
  intro n
  induction n with
  | zero =>
      intro H xs _ _ _ hn
      exact absurd hn (Nat.not_lt_zero _)
  | succ n ih =>
      intro H xs h hw hm hn
      cases hx : xs i with
      | nil =>
          have hsame : spilled xs i (some j) [] (insertAll less []) = xs := by
            have hnil := spilled_nil xs hij
            rwa [hx] at hnil
          rw [hsame]
          refine .refl h ?_ _
          rw [drain, bind_ok (listEmpty_ok h i), hx]
          rfl
      | cons y ys =>
          rw [hx] at hw hm hn
          have hfound : keepBest (flip less) m (some (L i)) H = .ok (some (least less y ys), H) :=
            keepBest_ok h hx hm
          obtain ⟨us, vs, hcut, hfirst⟩ := least_first hw
          have hx' : xs i = us ++ least less y ys :: vs := hx.trans hcut
          have hne : xs i ≠ [] := hx ▸ List.cons_ne_nil y ys
          rw [hcut] at hw hm hn ⊢
          rw [List.length_append, List.length_cons] at hm hn
          refine .of_eq (drain_round h hne hfound) ?_
          refine (removeDuplicate_leaves h hij hx').seq (fun H' h' => ?_) (touched_spilled hij hx')
          -- The others are in the list still.
          have hkept : spilled xs i (some j) (us ++ vs) [least less y ys] i = us ++ vs :=
            spilled_self hij _ _
          have hrest : us ++ vs ⊆ us ++ least less y ys :: vs := fun z hz =>
            List.perm_middle.symm.subset (List.mem_cons_of_mem _ hz)
          have hagain := ih h' (by rw [hkept]; exact hw.mono hrest)
            (by rw [hkept, List.length_append]; omega) (by rw [hkept, List.length_append]; omega)
          rwa [hkept, spilled_spilled hij, List.singleton_append, ← hfirst.insertAll hw] at hagain

/-! ## `list_max` and `list_min` -/

/-- `select` goes by LESS on the elements `xs`: it returns the first least of them, or the tail if
there are none, and changes nothing; and to take what it finds and put it at the end of another
list, until none is left, is to sort. -/
structure Selects (less : α → α → Bool) (select : Nat → ListPtr α → Code α (Ptr α)) (xs : List α) :
    Prop where
  empty : ∀ (ι : Type) (H : Links α) (L : ι → Ends α) (ws : ι → List α) i n, Holds H L ws →
    ws i = xs → xs = [] → select n (some (L i)) H = .ok (some (L i).tail, H)
  first : ∀ (ι : Type) (H : Links α) (L : ι → Ends α) (ws : ι → List α) i n, Holds H L ws →
    ws i = xs → xs ≠ [] → xs.length ≤ n → ∃ us a vs, xs = us ++ a :: vs ∧
      (∀ u ∈ us, less a u = true) ∧ (∀ v ∈ vs, less v a = false) ∧
      select n (some (L i)) H = .ok (some a, H)
  sorts : ∀ (ι : Type) [DecidableEq ι] (H : Links α) (L : ι → Ends α) (ws : ι → List α) i j n,
    j ≠ i → Holds H L ws → ws i = xs → xs.length < n → ∃ ys,
      Leaves H L (drain (select n) (some (L i)) (some (L j)) n) ()
        (Function.update (Function.update ws i []) j (ws j ++ ys))
        ((L i).cells xs ++ (L j).cells (ws j)) ∧
      Leaves H L (listSort less n (some (L i))) () (Function.update ws i ys) ((L i).cells xs)

theorem keepBest_selects {xs : List α} (hw : StrictWeakOn less xs) :
    Selects less (keepBest (flip less)) xs where
  empty ι H L ws i n h hx hempty := keepBest_empty h (hx.trans hempty) n
  first ι H L ws i n h hx hne hn := by
    obtain ⟨y, ys, rfl⟩ := List.exists_cons_of_ne_nil hne
    obtain ⟨us, vs, hcut, hfirst⟩ := least_first hw
    exact ⟨us, least less y ys, vs, hcut, hfirst.before, hfirst.after, keepBest_ok h hx hn⟩
  sorts ι _ H L ws i j n hij h hx hn := by
    subst hx
    have hd : some j ≠ some i := fun he => hij (Option.some.inj he)
    obtain ⟨ys, harr, hsort⟩ := listSort_leaves h hw hn
    have hdrain := drain_leaves hd h hw hn.le hn
    rw [← harr.unique hw (arranged_insertAll hw)] at hsort
    exact ⟨_, hdrain, hsort⟩

/-- `list_min` goes by LESS, and `list_max` by its converse. -/
theorem list_min_max_select {xs : List α} (hw : StrictWeakOn less xs) :
    Selects less (listMin less) xs ∧ Selects (flip less) (listMax less) xs :=
  ⟨keepBest_selects hw, keepBest_selects hw.flip⟩

/-- The elements 2, 3 and 4 with the keys 5, 1 and 5: the largest is found, and the list is emptied
into another by `list_min`. -/
theorem list_min_max_select_three_cells :
    let H : Links Nat :=
      ⟨fun x => [some 2, none, some 3, some 4, some 1, some 6, none][x]?.getD none,
        fun x => [none, some 4, some 0, some 2, some 3, none, some 5][x]?.getD none⟩
    let L : Bool → Ends Nat := fun b => if b then ⟨0, 1⟩ else ⟨5, 6⟩
    let ws : Bool → List Nat := fun b => if b then [2, 3, 4] else []
    let key : Nat → Nat := fun x => [0, 0, 5, 1, 5][x]?.getD 0
    let less : Nat → Nat → Bool := fun x y => decide (key x < key y)
    (∃ us a vs, [2, 3, 4] = us ++ a :: vs ∧ (∀ u ∈ us, less u a = true) ∧
      (∀ v ∈ vs, less a v = false) ∧ listMax less 4 (some (L true)) H = .ok (some a, H)) ∧
    ∃ ys, Leaves H L (drain (listMin less 4) (some (L true)) (some (L false)) 4) ()
        (Function.update (Function.update ws true []) false ys) [0, 2, 3, 4, 1, 5, 6] ∧
      Leaves H L (listSort less 4 (some (L true))) () (Function.update ws true ys)
        [0, 2, 3, 4, 1] := by
  intro H L ws key less
  have hholds : Holds H L ws := holds_two_lists
  have hweak : StrictWeakOn less [2, 3, 4] := ⟨by decide, by decide, by decide⟩
  obtain ⟨hmin, hmax⟩ := list_min_max_select hweak
  refine ⟨hmax.first Bool H L ws true 4 hholds rfl (by decide) (by decide), ?_⟩
  exact hmin.sorts Bool H L ws true false 4 (by decide) hholds rfl (by decide)

end PicoOS.Lists
