/-
# `PicoOS.Lists.Ordered` — `list_insert_ordered`

`list_insert_ordered` walks to the first element that the new one is less than and
inserts it there, which on sequences is `insertion`.  A list built by it holds
`insertAll` of what was put in, and that is the arrangement which `list_sort`
computes: the two break every tie alike, though one asks `less (elem, e)` and the
other `!less (a1b0, a0)`.
-/
import PicoOS.Lib.InsertionSort
import PicoOS.Lists.Sort

namespace PicoOS.Lists

open Fallible LinkedSeq NaturalSort

variable {α ι : Type} [DecidableEq α] {less : α → α → Bool} {H : Links α} {L : ι → Ends α}
  {xs : ι → List α} {i : ι}

/-! ## One element -/

/-- The loop stops at the first element that `e` is less than. -/
theorem insertOrderedLoop_ok {e : α} (h : Holds H L xs) : ∀ {zs ys : List α} {n : Nat},
    xs i = ys ++ zs → zs.length < n →
      insertOrderedLoop less (some (L i)) (some e) n ((L i).at zs) H =
        .ok ((L i).at (zs.dropWhile fun z => !less e z), H) := by
  intro zs
  induction zs with
  | nil =>
      intro ys n hx hn
      obtain ⟨n, rfl, -⟩ := another_round hn
      rw [insertOrderedLoop, bind_ok (listEnd_ok H (L i)), Ends.at_nil, if_neg (not_not.mpr rfl)]
      rfl
  | cons z zs ih =>
      intro ys n hx hn
      obtain ⟨n, rfl, hn'⟩ := another_round hn
      rw [insertOrderedLoop, bind_ok (listEnd_ok H (L i)), Ends.at_cons, if_pos (h.ne_tail hx),
        bind_ok (calls_ok less H e z), List.dropWhile_cons]
      cases hless : less e z with
      | true => rfl
      | false =>
          have hx' : xs i = (ys ++ [z]) ++ zs := by simpa using hx
          rw [if_neg Bool.false_ne_true, bind_ok (listNext_ok h hx),
            ih hx' hn']
          rfl

theorem listInsertOrdered_leaves [DecidableEq ι] {e : α} {n : Nat} (less : α → α → Bool)
    (h : Holds H L xs) (he : ∀ k, e ∉ (L k).cells (xs k)) (hn : (xs i).length < n) :
    Leaves H L (listInsertOrdered less n (some (L i)) (some e)) ()
      (Function.update xs i (insertion less e (xs i))) (e :: (L i).cells (xs i)) := by
  have hx : xs i = [] ++ xs i := rfl
  have hcut : xs i = ((xs i).takeWhile fun y => !less e y) ++ (xs i).dropWhile fun y => !less e y :=
    List.takeWhile_append_dropWhile.symm
  rw [insertion_eq]
  refine .after (asserts_ok rfl) (.after (asserts_ok rfl) (.after (listBegin_ok h i) (.after
    (insertOrderedLoop_ok h hx hn) ?_)))
  exact listInsert_leaves h hcut he

/-! ## One after the other -/

/-- `list_insert_ordered` of the elements `es`, one after the other. -/
def insertOrderedAll (less : α → α → Bool) (n : Nat) (list : ListPtr α) : List α → Code α Unit
  | [] => return ()
  | e :: es => do
      listInsertOrdered less n list (some e)
      insertOrderedAll less n list es

omit [DecidableEq α] in
/-- The cells of a list into which `e` was inserted. -/
theorem cells_insertion (l : Ends α) (e : α) (ys : List α) :
    l.cells (insertion less e ys) ⊆ e :: l.cells ys := by
  have hperm : (l.cells (insertion less e ys)).Perm (l.cells (e :: ys)) :=
    ((insertion_perm less e ys).append_right [l.tail]).cons l.head
  exact (hperm.trans (List.Perm.swap e l.head (ys ++ [l.tail]))).subset

theorem insertOrderedAll_leaves [DecidableEq ι] {n : Nat} (less : α → α → Bool) :
    ∀ {es : List α} {H : Links α} {xs : ι → List α}, Holds H L xs → Loose L xs es →
    (xs i).length + es.length ≤ n →
    Leaves H L (insertOrderedAll less n (some (L i)) es) ()
      (Function.update xs i (es.foldl (fun ys e => insertion less e ys) (xs i)))
      (es ++ (L i).cells (xs i)) := by
  intro es
  induction es with
  | nil =>
      intro H xs h _ _
      rw [List.foldl_nil, Function.update_eq_self]
      exact .refl h rfl _
  | cons e es ih =>
      intro H xs h hl hn
      have he : ∀ k, e ∉ (L k).cells (xs k) := fun k =>
        hl.disjoint k (List.mem_cons_self ..)
      have hcells : (L i).cells (insertion less e (xs i)) ⊆ e :: (L i).cells (xs i) :=
        cells_insertion (L i) e (xs i)
      have hroom : (xs i).length < n := by
        rw [List.length_cons] at hn
        omega
      have hfirst := listInsertOrdered_leaves less h he hroom
      have hloose : Loose L (Function.update xs i (insertion less e (xs i))) es := by
        obtain ⟨hnotin, hnodup⟩ := List.nodup_cons.mp hl.nodup
        refine ⟨hnodup, fun k x hx hc => ?_⟩
        have hxk := hl.disjoint k (List.mem_cons_of_mem _ hx)
        rw [update_cells] at hc
        split_ifs at hc with hk
        · subst hk
          rcases List.mem_cons.mp (hcells hc) with rfl | hc
          · exact hnotin hx
          · exact hxk hc
        · exact hxk hc
      have hlen : (Function.update xs i (insertion less e (xs i)) i).length + es.length ≤ n := by
        rw [Function.update_self, (insertion_perm less e (xs i)).length_eq]
        simp only [List.length_cons] at hn ⊢
        omega
      have hsub : es ++ (L i).cells (insertion less e (xs i)) ⊆ e :: es ++ (L i).cells (xs i) := by
        refine List.append_subset.mpr ⟨fun x hx => ?_, fun x hx => ?_⟩
        · exact List.mem_cons_of_mem _ (List.mem_append_left _ hx)
        · rcases List.mem_cons.mp (hcells hx) with rfl | hx
          · exact List.mem_cons_self ..
          · exact List.mem_cons_of_mem _ (List.mem_append_right _ hx)
      refine (hfirst.mono ?_).seq (fun H' h' => ?_) hsub
      · exact List.cons_subset_cons _ (List.subset_append_right _ _)
      · have hrest := ih h' hloose hlen
        rwa [Function.update_idem, Function.update_self] at hrest

/-! ## Insertion sorts -/

/-- Inserting the elements of `xs` one after the other into an empty list, LESS being a strict weak
order on them: after every insertion the list is sorted, each element is put after all those that
it is equal to, and the sequence at the end is the one that `list_sort` makes of a list that holds
`xs`. -/
theorem insert_ordered_sorts {xs : List α} (hw : StrictWeakOn less xs) :
    (∀ ys zs, xs = ys ++ zs → (insertAll less ys).Pairwise (InOrder less) ∧
      ∀ (ι : Type) [DecidableEq ι] (H : Links α) (L : ι → Ends α) (ws : ι → List α) i n,
        Holds H L ws → ws i = [] → Loose L ws xs → xs.length ≤ n →
        Leaves H L (insertOrderedAll less n (some (L i)) ys) ()
          (Function.update ws i (insertAll less ys)) (ys ++ (L i).cells [])) ∧
    (∀ ys e zs, xs = ys ++ e :: zs → ∃ us vs, insertAll less ys = us ++ vs ∧
      insertAll less (ys ++ [e]) = us ++ e :: vs ∧ ∀ v ∈ vs, equal less e v = false) ∧
    ∀ (ι : Type) [DecidableEq ι] (H : Links α) (L : ι → Ends α) (ws : ι → List α) i n,
      Holds H L ws → ws i = xs → xs.length < n →
      Leaves H L (listSort less n (some (L i))) () (Function.update ws i (insertAll less xs))
        ((L i).cells xs) := by
  refine ⟨fun ys zs hx => ⟨?_, fun ι _ H L ws i n h hempty hl hn => ?_⟩, ?_, ?_⟩
  · have hsub : ys ⊆ xs := hx ▸ List.subset_append_left ys zs
    exact (arranged_insertAll (hw.mono hsub)).sorted
  · have hys : Loose L ws ys := by
      rw [hx] at hl
      exact ⟨(List.nodup_append.mp hl.nodup).1,
        fun k x hin => hl.disjoint k (List.mem_append_left _ hin)⟩
    have hlen : (ws i).length + ys.length ≤ n := by
      rw [hx, List.length_append] at hn
      rw [hempty, List.length_nil]
      omega
    have hleaves := insertOrderedAll_leaves less h hys hlen
    rwa [hempty] at hleaves
  · intro ys e zs hx
    have harr : Arranged less ys (insertAll less ys) :=
      arranged_insertAll (hw.mono (hx ▸ List.subset_append_left ys (e :: zs)))
    have hsub : e :: insertAll less ys ⊆ xs := by
      refine List.cons_subset.mpr ⟨?_, fun y hy => ?_⟩
      · rw [hx]
        exact List.mem_append_right _ (List.mem_cons_self ..)
      · rw [hx]
        exact List.mem_append_left _ (harr.perm.mem_iff.mp hy)
    obtain ⟨us, vs, hcut, hins, -, hafter⟩ := insertion_split (hw.mono hsub) harr.sorted
    refine ⟨us, vs, hcut, (insertAll_concat less ys e).trans hins, fun v hv => ?_⟩
    rw [equal, hafter v hv]
    rfl
  · intro ι _ H L ws i n h hx hn
    subst hx
    obtain ⟨ys, harr, hleaves⟩ := listSort_leaves h hw hn
    rwa [harr.unique hw (arranged_insertAll hw)]

/-- The elements 2, 3 and 4 with the keys 5, 1 and 5 are inserted between the ends 0 and 1. -/
theorem insert_ordered_three_cells :
    let H : Links Nat := ⟨fun x => [some 1, none][x]?.getD none,
      fun x => [none, some 0][x]?.getD none⟩
    let L : Unit → Ends Nat := fun _ => ⟨0, 1⟩
    let key : Nat → Nat := fun x => [0, 0, 5, 1, 5][x]?.getD 0
    Leaves H L (insertOrderedAll (fun x y => decide (key x < key y)) 3 (some ⟨0, 1⟩) [2, 3, 4]) ()
      (fun _ => [3, 2, 4]) [2, 3, 4, 0, 1] := by
  intro H L key
  have hholds : Holds H L fun _ => [] := by
    refine .single ?_ ⟨?_, ?_, rfl, rfl⟩
    · show [0, 1].Nodup
      decide
    · show [0, 1].IsChain fun x y => H.next x = some y
      simp [H]
    · show [1, 0].IsChain fun x y => H.prev x = some y
      simp [H]
  have hloose : Loose L (fun _ => []) [2, 3, 4] := by
    refine ⟨by decide, fun i => ?_⟩
    show List.Disjoint [2, 3, 4] [0, 1]
    simp
  have hweak : StrictWeakOn (fun x y => decide (key x < key y)) [2, 3, 4] :=
    ⟨by decide, by decide, by decide⟩
  have hleaves := ((insert_ordered_sorts hweak).1 [2, 3, 4] [] rfl).2 Unit H L (fun _ => []) () 3
    hholds rfl hloose (by decide)
  have hend : (fun _ => [3, 2, 4] : Unit → List Nat) = Function.update (fun _ => []) ()
      (insertAll (fun x y => decide (key x < key y)) [2, 3, 4]) := by
    funext i
    rfl
  rw [hend]
  exact hleaves

end PicoOS.Lists
