/-
# `PicoOS.Lists.Sort` — `list_sort`

`list_sort` is a natural merge sort in place.  Each of its functions is specified
by what it does to the sequence of the list: `is_sorted` and `find_end_of_run`
read it, `inplace_merge` turns two neighbouring runs into their merge, and the
inner loop of `list_sort` is one `Passed`.

While two runs are merged, the list is what is done, the rest of the first run,
the rest of the second and what follows; the three pointers stand where these
meet.  The outer loop ends because a pass that leaves more than one run leaves
fewer descents.
-/
import PicoOS.Lib.NaturalSort
import PicoOS.Lists.Specs

namespace PicoOS.Lists

open Fallible LinkedSeq NaturalSort

variable {α ι : Type} {less : α → α → Bool} {H : Links α} {L : ι → Ends α} {xs : ι → List α} {i : ι}

/-! ## Looking for runs -/

theorem calls_ok (less : α → α → Bool) (H : Links α) (a b : α) :
    calls less (some a) (some b) H = .ok (less a b, H) := rfl

/-- The element before one that follows `a`. -/
theorem listPrev_next {us zs : List α} {a b : α} (h : Holds H L xs)
    (hx : xs i = us ++ a :: b :: zs) : listPrev (some b) H = .ok (some a, H) := by
  have hx' : xs i = (us ++ [a]) ++ b :: zs := by rwa [List.append_assoc, List.singleton_append]
  have hprev := listPrev_ok h hx'
  rwa [Ends.at_cons, Ends.upTo_concat] at hprev

section Runs

variable [DecidableEq α]

theorem isSortedLoop_ok (h : Holds H L xs) : ∀ {ms us vs : List α} {a : α} {n : Nat},
    xs i = us ++ (a :: ms ++ vs) → (a :: ms).IsChain (InOrder less) → ms.length < n →
      isSortedLoop less n (some a) ((L i).at vs) H = .ok (true, H) := by
  intro ms
  induction ms with
  | nil =>
      intro us vs a n hx _ hn
      obtain ⟨n, rfl, -⟩ := another_round hn
      have hnext : listNext (some a) H = .ok ((L i).at vs, H) := listNext_ok h hx
      rw [isSortedLoop, bind_ok hnext, if_neg (fun hne => hne rfl)]
      rfl
  | cons b ms ih =>
      intro us vs a n hx hc hn
      obtain ⟨n, rfl, hn'⟩ := another_round hn
      obtain ⟨hab, hc'⟩ := List.isChain_cons_cons.mp hc
      have hx' : xs i = (us ++ [a]) ++ (b :: ms ++ vs) := by simpa using hx
      have hnext : listNext (some a) H = .ok (some b, H) := listNext_ok h hx
      rw [isSortedLoop, bind_ok hnext, if_pos (h.at_ne hx'), bind_ok (listPrev_next h hx),
        bind_ok (calls_ok less H b a),
        show less b a = false from hab, if_neg Bool.false_ne_true]
      exact ih hx' hc' hn'

/-- `is_sorted` of a run. -/
theorem isSorted_ok {us ms vs : List α} {n : Nat} (h : Holds H L xs)
    (hx : xs i = us ++ (ms ++ vs)) (hc : ms.IsChain (InOrder less)) (hn : ms.length ≤ n) :
    isSorted less n ((L i).at (ms ++ vs)) ((L i).at vs) H = .ok (true, H) := by
  cases ms with
  | nil =>
      rw [isSorted, List.nil_append, if_neg (fun hne => hne rfl)]
      rfl
  | cons a ms =>
      rw [isSorted, List.cons_append, Ends.at_cons, if_pos (h.at_ne hx)]
      exact isSortedLoop_ok h hx hc hn

theorem findEndOfRunLoop_ok (h : Holds H L xs) : ∀ {todo us : List α} {a : α} {n : Nat},
    xs i = us ++ a :: todo → todo.length < n →
    ∃ ms rest, todo = ms ++ rest ∧ (a :: ms).IsChain (InOrder less) ∧
      Breaks less (a :: ms) rest ∧
      findEndOfRunLoop less n (some a) (some (L i).tail) H = .ok ((L i).at rest, H) := by
  intro todo
  induction todo with
  | nil =>
      intro us a n hx hn
      obtain ⟨n, rfl, -⟩ := another_round hn
      refine ⟨[], [], rfl, .singleton a, fun z _ c hc => absurd hc (Option.not_mem_none c), ?_⟩
      have hnext : listNext (some a) H = .ok (some (L i).tail, H) := listNext_ok h hx
      rw [findEndOfRunLoop, bind_ok hnext, if_pos rfl]
      rfl
  | cons b todo ih =>
      intro us a n hx hn
      obtain ⟨n, rfl, hn'⟩ := another_round hn
      have hx' : xs i = (us ++ [a]) ++ b :: todo := by
        rwa [List.append_assoc, List.singleton_append]
      have hstep : findEndOfRunLoop less (n + 1) (some a) (some (L i).tail) H =
          (if less b a then return some b
            else findEndOfRunLoop less n (some b) (some (L i).tail) : Code α (Ptr α)) H := by
        rw [findEndOfRunLoop, bind_ok (listNext_ok h hx), Ends.at_cons, if_neg (h.ne_tail hx'),
          bind_ok (listPrev_next h hx), bind_ok (calls_ok less H b a)]
      cases hl : less b a with
      | true =>
          refine ⟨[], b :: todo, rfl, .singleton a, ?_, ?_⟩
          · intro z hz c hc
            cases hz
            cases hc
            exact hl
          · rw [hstep, hl, if_pos rfl]
            rfl
      | false =>
          obtain ⟨ms, rest, htodo, hc, hbreak, hrun⟩ := ih hx' hn'
          refine ⟨b :: ms, rest, ?_, List.isChain_cons_cons.mpr ⟨hl, hc⟩, ?_, ?_⟩
          · rw [htodo, List.cons_append]
          · intro z hz
            exact hbreak z (by rwa [List.getLast?_cons_cons] at hz)
          · rw [hstep, hl, if_neg Bool.false_ne_true]
            exact hrun

/-- `find_end_of_run` cuts a run off the rest of the list. -/
theorem findEndOfRun_ok (less : α → α → Bool) {todo us : List α} {n : Nat} (h : Holds H L xs)
    (hx : xs i = us ++ todo) (ht : todo ≠ []) (hn : todo.length ≤ n) :
    ∃ A rest, todo = A ++ rest ∧ A ≠ [] ∧ A.IsChain (InOrder less) ∧ Breaks less A rest ∧
      findEndOfRun less n ((L i).at todo) (some (L i).tail) H = .ok ((L i).at rest, H) := by
  cases todo with
  | nil => exact absurd rfl ht
  | cons a todo =>
      obtain ⟨ms, rest, htodo, hc, hbreak, hrun⟩ := findEndOfRunLoop_ok h hx hn
      have hne : (some a != some (L i).tail) = true := bne_iff_ne.mpr (h.ne_tail hx)
      refine ⟨a :: ms, rest, ?_, List.cons_ne_nil a ms, hc, hbreak, ?_⟩
      · rw [htodo, List.cons_append]
      · unfold findEndOfRun
        rw [Ends.at_cons, bind_ok (asserts_ok rfl), bind_ok (asserts_ok rfl),
          bind_ok (asserts_ok hne)]
        exact hrun

end Runs

/-! ## Merging two runs -/

section Merging

/-- The cells of a list and of a rearrangement of it are the same. -/
theorem cells_update [DecidableEq ι] {ys : List α} (hp : ys.Perm (xs i)) :
    (L i).cells (Function.update xs i ys i) ⊆ (L i).cells (xs i) := by
  rw [Function.update_self]
  exact Ends.cells_subset_of_perm hp

variable [DecidableEq α]

/-- A round in which the first run keeps its place. -/
theorem inplaceMergeLoop_left {ds A B rest : List α} {a b : α} (h : Holds H L xs)
    (hx : xs i = ds ++ (a :: A ++ (b :: B ++ rest))) (hl : less b a = false) (n : Nat) :
    inplaceMergeLoop less (n + 1) (some a) (some b) ((L i).at rest) H =
      inplaceMergeLoop less n ((L i).at (A ++ (b :: B ++ rest))) (some b) ((L i).at rest) H := by
  have hx' : xs i = (ds ++ (a :: A)) ++ (b :: B ++ rest) := by rwa [List.append_assoc]
  have hnext : listNext (some a) H = .ok ((L i).at (A ++ (b :: B ++ rest)), H) := listNext_ok h hx
  rw [inplaceMergeLoop, if_pos ⟨h.at_ne hx, h.at_ne hx'⟩, bind_ok (calls_ok less H b a), hl,
    if_neg Bool.false_ne_true, bind_ok hnext]

/-- A round in which the second run gives its first element. -/
theorem inplaceMergeLoop_right {ds A B rest : List α} {a b : α} (h : Holds H L xs)
    (hx : xs i = ds ++ (a :: A ++ (b :: B ++ rest))) (hl : less b a = true) (n : Nat) :
    inplaceMergeLoop less (n + 1) (some a) (some b) ((L i).at rest) H =
      (do
        listSplice (some a) (some b) ((L i).at (B ++ rest))
        inplaceMergeLoop less n (some a) ((L i).at (B ++ rest)) ((L i).at rest)) H := by
  have hx' : xs i = (ds ++ (a :: A)) ++ (b :: B ++ rest) := by rwa [List.append_assoc]
  have hnext : listNext (some b) H = .ok ((L i).at (B ++ rest), H) := listNext_ok h hx'
  have hx'' : xs i = (ds ++ (a :: A) ++ [b]) ++ (B ++ rest) := by
    rwa [List.append_assoc _ [b], List.singleton_append]
  have hprev := listPrev_ok h hx''
  rw [Ends.upTo_concat] at hprev
  rw [inplaceMergeLoop, if_pos ⟨h.at_ne hx, h.at_ne hx'⟩, bind_ok (calls_ok less H b a), hl,
    if_pos rfl, bind_ok hnext, bind_ok hprev]

variable [DecidableEq ι]

/-- The first of the second run goes from after the rest of the first run to before it. -/
theorem mergeSplice_leaves {ds A B rest : List α} {a b : α} (h : Holds H L xs)
    (hx : xs i = ds ++ (a :: A ++ (b :: B ++ rest))) :
    Leaves H L (listSplice (some a) (some b) ((L i).at (B ++ rest))) ()
        (Function.update xs i (ds ++ [b] ++ (a :: A ++ (B ++ rest)))) ((L i).cells (xs i)) ∧
      (ds ++ [b] ++ (a :: A ++ (B ++ rest))).Perm (xs i) := by
  have hcut : xs i = (ds ++ (a :: A)) ++ [b] ++ (B ++ rest) := by
    rw [hx]
    simp
  have hplace : Function.update xs i (ds ++ (a :: A) ++ (B ++ rest)) i =
      ds ++ (a :: A ++ (B ++ rest)) := by
    rw [Function.update_self, List.append_assoc]
  have hsplice := listSplice_leaves h hcut hplace
  rw [Function.update_idem] at hsplice
  refine ⟨hsplice.mono (List.append_subset.mpr ⟨List.Subset.refl _, List.Subset.refl _⟩), ?_⟩
  rw [hcut, List.append_assoc, List.append_assoc, List.append_assoc]
  exact (List.perm_append_comm_assoc [b] (a :: A) (B ++ rest)).append_left ds

/-- The loop of `inplace_merge`, `ds` being done. -/
theorem inplaceMergeLoop_leaves : ∀ {n : Nat} {ds A B rest : List α} {H : Links α}
    {xs : ι → List α}, Holds H L xs → xs i = ds ++ (A ++ (B ++ rest)) → A.length + B.length < n →
    Leaves H L
      (inplaceMergeLoop less n ((L i).at (A ++ (B ++ rest))) ((L i).at (B ++ rest)) ((L i).at rest))
      () (Function.update xs i (ds ++ (merged less A B ++ rest))) ((L i).cells (xs i)) := by
  intro n
  induction n with
  | zero => exact fun _ _ hn => absurd hn (Nat.not_lt_zero _)
  | succ n ih =>
      intro ds A B rest H xs h hx hn
      cases A with
      | nil =>
          rw [merged_nil_left, ← List.nil_append (B ++ rest), ← hx, Function.update_eq_self]
          refine .refl h ?_ _
          rw [inplaceMergeLoop, if_neg (fun hne => hne.1 rfl)]
          rfl
      | cons a A =>
          cases B with
          | nil =>
              have hx' : ds ++ (a :: A ++ rest) = xs i := hx.symm
              rw [merged_nil_right, hx', Function.update_eq_self]
              refine .refl h ?_ _
              rw [inplaceMergeLoop, if_neg (fun hne => hne.2 rfl)]
              rfl
          | cons b B =>
              cases hl : less b a with
              | false =>
                  have hx' : xs i = (ds ++ [a]) ++ (A ++ (b :: B ++ rest)) := by
                    rwa [List.append_assoc, List.singleton_append]
                  have hn' : A.length + (b :: B).length < n := by
                    rw [List.length_cons] at hn
                    omega
                  have hrest := ih h hx' hn'
                  rw [List.append_assoc, List.singleton_append, ← List.cons_append,
                    ← merged_left hl] at hrest
                  exact .of_eq (inplaceMergeLoop_left h hx hl n) hrest
              | true =>
                  have hn' : (a :: A).length + B.length < n := by
                    simp only [List.length_cons] at hn ⊢
                    omega
                  obtain ⟨hsplice, hperm⟩ := mergeSplice_leaves h hx
                  have hx' : Function.update xs i (ds ++ [b] ++ (a :: A ++ (B ++ rest))) i =
                      ds ++ [b] ++ (a :: A ++ (B ++ rest)) := Function.update_self ..
                  refine .of_eq (inplaceMergeLoop_right h hx hl n)
                    (hsplice.seq (fun H' h' => ?_) (cells_update hperm))
                  have hrest := ih h' hx' hn'
                  rwa [Function.update_idem, List.append_assoc, List.singleton_append,
                    ← List.cons_append, ← merged_right hl] at hrest

/-- `inplace_merge` of two neighbouring runs. -/
theorem inplaceMerge_leaves {n : Nat} {ds A B rest : List α} (h : Holds H L xs)
    (hx : xs i = ds ++ (A ++ (B ++ rest))) (hA : A.IsChain (InOrder less))
    (hB : B.IsChain (InOrder less)) (hn : A.length + B.length < n) :
    Leaves H L
      (inplaceMerge less n ((L i).at (A ++ (B ++ rest))) ((L i).at (B ++ rest)) ((L i).at rest))
      () (Function.update xs i (ds ++ (merged less A B ++ rest))) ((L i).cells (xs i)) := by
  have hsome : ∀ zs, ((L i).at zs).isSome = true := by
    intro zs
    obtain ⟨q, hq⟩ := (L i).at_some zs
    rw [hq]
    rfl
  have hx' : xs i = (ds ++ A) ++ (B ++ rest) := by rwa [List.append_assoc]
  refine .after (asserts_ok (hsome _)) (.after (asserts_ok (hsome _))
    (.after (asserts_ok (hsome _)) ?_))
  refine .after (isSorted_ok h hx hA (by omega)) (.after (asserts_ok rfl) ?_)
  refine .after (isSorted_ok h hx' hB (by omega)) (.after (asserts_ok rfl) ?_)
  exact inplaceMergeLoop_leaves h hx hn

end Merging

/-! ## A pass -/

section Passes

variable [DecidableEq α] [DecidableEq ι]

omit [DecidableEq ι] in
/-- A round of the inner loop that finds two runs. -/
theorem sortPass_pair {l : Ends α} {a b : α} {b1 : Ptr α} {m : Nat} (ha : some a ≠ some l.tail)
    (hb : some b ≠ some l.tail) (hfind : findEndOfRun less m (some a) (some l.tail) H =
      .ok (some b, H)) (hfind' : findEndOfRun less m (some b) (some l.tail) H = .ok (b1, H))
    (n cnt : Nat) : sortPass less (some l) m (n + 1) (some a) cnt H = (do
      inplaceMerge less m (some a) (some b) b1
      sortPass less (some l) m n b1 (cnt + 1)) H := by
  rw [sortPass, bind_ok (listEnd_ok H l), if_pos ha, bind_ok (listEnd_ok H l), bind_ok hfind,
    bind_ok (listEnd_ok H l), if_neg hb, bind_ok (listEnd_ok H l), bind_ok hfind']

/-- A round of the inner loop: either one run is left, or the next two are merged. -/
theorem sortPass_round {ds todo : List α} {a : α} {m : Nat} (h : Holds H L xs)
    (hx : xs i = ds ++ a :: todo) (hm : (a :: todo).length < m) (n cnt : Nat) :
    ((a :: todo).IsChain (InOrder less) ∧
      sortPass less (some (L i)) m (n + 1) (some a) cnt H = .ok (cnt + 1, H)) ∨
    ∃ A B rest H', a :: todo = A ++ (B ++ rest) ∧ A ≠ [] ∧ B ≠ [] ∧ A.IsChain (InOrder less) ∧
      B.IsChain (InOrder less) ∧ Breaks less A B ∧ Breaks less B rest ∧
      sortPass less (some (L i)) m (n + 1) (some a) cnt H =
        sortPass less (some (L i)) m n ((L i).at rest) (cnt + 1) H' ∧
      Holds H' L (Function.update xs i (ds ++ (merged less A B ++ rest))) ∧
      H.SameOff H' ((L i).cells (xs i)) := by
  obtain ⟨A, rest, htodo, hA, hcA, hAbreak, hfind⟩ :=
    findEndOfRun_ok less h hx (List.cons_ne_nil a todo) hm.le
  have hne : some a ≠ some (L i).tail := h.ne_tail hx
  rw [Ends.at_cons] at hfind
  cases rest with
  | nil =>
      -- The last run has no neighbour.
      obtain rfl : a :: todo = A := by rwa [List.append_nil] at htodo
      refine .inl ⟨hcA, ?_⟩
      rw [sortPass, bind_ok (listEnd_ok H (L i)), if_pos hne, bind_ok (listEnd_ok H (L i)),
        bind_ok hfind, bind_ok (listEnd_ok H (L i)), Ends.at_nil, if_pos rfl]
      rfl
  | cons b rest =>
      have hlen := congrArg List.length htodo
      rw [List.length_append] at hlen
      have hx' : xs i = (ds ++ A) ++ b :: rest := by rw [hx, htodo, List.append_assoc]
      obtain ⟨B, rest', hrest, hB, hcB, hBbreak, hfind'⟩ :=
        findEndOfRun_ok less (n := m) h hx' (List.cons_ne_nil b rest) (by omega)
      rw [Ends.at_cons] at hfind'
      have hAB : Breaks less A B := by
        intro z hz c hc
        refine hAbreak z hz c ?_
        rwa [hrest, List.head?_append_of_ne_nil _ hB]
      have hlen' := congrArg List.length hrest
      rw [List.length_append] at hlen'
      have hmerge := inplaceMerge_leaves (n := m) h (hrest ▸ htodo ▸ hx) hcA hcB (by omega)
      rw [← hrest, ← htodo, Ends.at_cons, Ends.at_cons] at hmerge
      obtain ⟨H₁, hrun, hholds, hoff⟩ := hmerge
      refine .inr ⟨A, B, rest', H₁, hrest ▸ htodo, hA, hB, hcA, hcB, hAB, hBbreak, ?_, hholds, hoff⟩
      rw [sortPass_pair hne (h.ne_tail hx') hfind hfind', bind_ok hrun]

/-- The inner loop of `list_sort` from where `todo` begins, `ds` being done. -/
theorem sortPass_leaves {m : Nat} : ∀ {n cnt : Nat} {ds todo : List α} {H : Links α}
    {xs : ι → List α}, Holds H L xs → xs i = ds ++ todo → todo.length < n → todo.length < m →
    ∃ out k, Passed less todo out k ∧
      Leaves H L (sortPass less (some (L i)) m n ((L i).at todo) cnt) (cnt + k)
        (Function.update xs i (ds ++ out)) ((L i).cells (xs i)) := by
  intro n
  induction n with
  | zero => exact fun _ _ hn _ => absurd hn (Nat.not_lt_zero _)
  | succ n ih =>
      intro cnt ds todo H xs h hx hn hm
      cases todo with
      | nil =>
          refine ⟨[], 0, .done, ?_⟩
          rw [← hx, Function.update_eq_self]
          refine .refl h ?_ _
          rw [sortPass, bind_ok (listEnd_ok H (L i)), Ends.at_nil, if_neg (fun hne => hne rfl)]
          rfl
      | cons a todo =>
          rcases sortPass_round h hx hm n cnt with ⟨hc, hrun⟩ |
            ⟨A, B, rest, H₁, htodo, hA, hB, hcA, hcB, hAB, hBrest, hround, hholds₁, hoff₁⟩
          · refine ⟨a :: todo, 1, .last (List.cons_ne_nil a todo) hc, ?_⟩
            rw [← hx, Function.update_eq_self]
            exact .refl h hrun _
          · have hlen := congrArg List.length htodo
            rw [List.length_append, List.length_append] at hlen
            have hpos := List.length_pos_iff.mpr hA
            have hx₁ : Function.update xs i (ds ++ (merged less A B ++ rest)) i =
                (ds ++ merged less A B) ++ rest := by
              rw [Function.update_self, List.append_assoc]
            obtain ⟨out, k, hpass, H₂, hrun₂, hholds₂, hoff₂⟩ :=
              ih hholds₁ hx₁ (by omega) (by omega)
            refine ⟨merged less A B ++ out, k + 1, ?_, H₂, ?_, ?_, ?_⟩
            · rw [htodo]
              exact .pair hA hB hcA hcB hAB hBrest hpass
            · rw [Ends.at_cons, hround, hrun₂, Nat.add_assoc, Nat.add_comm 1]
            · rwa [Function.update_idem, List.append_assoc] at hholds₂
            · refine hoff₁.trans (hoff₂.mono (cells_update ?_))
              rw [hx, htodo, ← List.append_assoc A]
              exact ((merged_perm A B).append_right rest).append_left ds

/-- A whole pass. -/
theorem sortPass_whole (less : α → α → Bool) {m : Nat} (h : Holds H L xs) (hm : (xs i).length < m) :
    ∃ out k, Passed less (xs i) out k ∧
      Leaves H L (sortPass less (some (L i)) m m ((L i).at (xs i)) 0) k (Function.update xs i out)
        ((L i).cells (xs i)) := by
  have hx : xs i = [] ++ xs i := rfl
  obtain ⟨out, k, hpass, hleaves⟩ := sortPass_leaves h hx hm hm
  refine ⟨out, k, hpass, ?_⟩
  rwa [Nat.zero_add] at hleaves

/-- The outer loop of `list_sort`. -/
theorem sortLoop_leaves {m : Nat} : ∀ {n : Nat} {H : Links α} {xs : ι → List α}, Holds H L xs →
    StrictWeakOn less (xs i) → (xs i).length < m → descents less (xs i) < n →
    ∃ ys, Rearranged less (xs i) ys ∧ ys.IsChain (InOrder less) ∧
      Leaves H L (sortLoop less (some (L i)) m n) () (Function.update xs i ys)
        ((L i).cells (xs i)) := by
  intro n
  induction n with
  | zero => exact fun _ _ _ hn => absurd hn (Nat.not_lt_zero _)
  | succ n ih =>
      intro H xs h hw hm hn
      obtain ⟨out, k, hpass, H₁, hrun₁, hholds₁, hoff₁⟩ := sortPass_whole less h hm
      have hout : out.Perm (xs i) := hpass.perm
      have hround : sortLoop less (some (L i)) m (n + 1) H =
          (if 1 < k then sortLoop less (some (L i)) m n else return () : Code α Unit) H₁ := by
        rw [sortLoop, bind_ok (listBegin_ok h i), bind_ok hrun₁]
      by_cases hk : 1 < k
      · -- More than one run is left, but fewer than before.
        have hfewer := (hpass.lt_runs).2 hk
        have hleft := hpass.runs_le hw
        have hx₁ : Function.update xs i out i = out := Function.update_self ..
        obtain ⟨ys, hys, hc, hrest⟩ := ih hholds₁ (hx₁.symm ▸ hw.mono hout.subset)
          (hx₁.symm ▸ hout.length_eq ▸ hm) (by rw [hx₁]; omega)
        rw [hx₁] at hys
        obtain ⟨H₂, hrun₂, hholds₂, hoff₂⟩ := hrest
        refine ⟨ys, (hpass.rearranged hw).trans hys, hc, H₂, ?_, ?_, ?_⟩
        · rw [hround, if_pos hk, hrun₂]
        · rwa [Function.update_idem] at hholds₂
        · exact hoff₁.trans (hoff₂.mono (cells_update hout))
      · refine ⟨out, hpass.rearranged hw, hpass.chain hw (Nat.not_lt.mp hk), H₁, ?_, hholds₁, hoff₁⟩
        rw [hround, if_neg hk]
        rfl

end Passes

/-! ## `list_sort` -/

theorem listSort_leaves [DecidableEq α] [DecidableEq ι] {n : Nat} (h : Holds H L xs)
    (hw : StrictWeakOn less (xs i)) (hn : (xs i).length < n) :
    ∃ ys, Arranged less (xs i) ys ∧
      Leaves H L (listSort less n (some (L i))) () (Function.update xs i ys)
        ((L i).cells (xs i)) := by
  have hn' : descents less (xs i) < n := (descents_le_length (xs i)).trans_lt hn
  obtain ⟨ys, hys, hc, H', hrun, hholds, hoff⟩ := sortLoop_leaves h hw hn hn'
  refine ⟨ys, ⟨hys, (hw.mono hys.perm.subset).pairwise hc⟩, H', ?_, hholds, hoff⟩
  -- The `ASSERT` after the loop.
  have hx : Function.update xs i ys i = [] ++ (ys ++ []) := by
    rw [Function.update_self, List.append_nil, List.nil_append]
  have hlen : ys.length ≤ n := hys.perm.length_eq ▸ hn.le
  have hsorted := isSorted_ok hholds hx hc hlen
  have hbegin := listBegin_ok hholds i
  rw [Function.update_self] at hbegin
  rw [List.append_nil, Ends.at_nil] at hsorted
  unfold listSort
  rw [bind_ok (asserts_ok rfl), bind_ok hrun, bind_ok hbegin, bind_ok (listEnd_ok H' (L i)),
    bind_ok hsorted]
  exact asserts_ok rfl

/-- `list_sort` by a LESS that is a strict weak order on the elements of the list returns, with no
failed `ASSERT`; the list then holds the one stable arrangement of its elements. -/
theorem list_sort_stable [DecidableEq α] [DecidableEq ι] {n : Nat} (h : Holds H L xs)
    (hw : StrictWeakOn less (xs i)) (hn : (xs i).length < n) :
    ∃ ys, Leaves H L (listSort less n (some (L i))) () (Function.update xs i ys)
        ((L i).cells (xs i)) ∧
      Arranged less (xs i) ys ∧ ∀ zs, Arranged less (xs i) zs → zs = ys := by
  obtain ⟨ys, harr, hleaves⟩ := listSort_leaves h hw hn
  exact ⟨ys, hleaves, harr, fun zs hzs => harr.unique hw hzs⟩

/-- The elements 2, 3 and 4 with the keys 5, 1 and 5. -/
theorem list_sort_stable_three_cells :
    let H : Links Nat := ⟨fun x => [some 2, none, some 3, some 4, some 1][x]?.getD none,
      fun x => [none, some 4, some 0, some 2, some 3][x]?.getD none⟩
    let L : Unit → Ends Nat := fun _ => ⟨0, 1⟩
    let key : Nat → Nat := fun x => [0, 0, 5, 1, 5][x]?.getD 0
    Leaves H L (listSort (fun x y => decide (key x < key y)) 4 (some ⟨0, 1⟩)) () (fun _ => [3, 2, 4])
      [0, 2, 3, 4, 1] := by
  intro H L key
  have hholds : Holds H L fun _ => [2, 3, 4] := by
    refine .single ?_ ⟨?_, ?_, rfl, rfl⟩
    · show [0, 2, 3, 4, 1].Nodup
      decide
    · show [0, 2, 3, 4, 1].IsChain fun x y => H.next x = some y
      simp [H]
    · show [1, 4, 3, 2, 0].IsChain fun x y => H.prev x = some y
      simp [H]
  have hweak : StrictWeakOn (fun x y => decide (key x < key y)) [2, 3, 4] :=
    ⟨by decide, by decide, by decide⟩
  obtain ⟨ys, hleaves, -, hunique⟩ :=
    list_sort_stable (i := ()) (n := 4) hholds hweak (by decide)
  have hys : [3, 2, 4] = ys :=
    hunique _ ⟨⟨by decide, by decide⟩, by simp [InOrder, key]⟩
  have hend : (fun _ => [3, 2, 4] : Unit → List Nat) =
      Function.update (fun _ => [2, 3, 4]) () [3, 2, 4] := by
    funext i
    rfl
  rw [hend, hys]
  exact hleaves

end PicoOS.Lists
