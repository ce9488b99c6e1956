/-
# `PicoOS.Lib.NaturalSort` — natural merge sort on sequences

Sorting by a test `less` that is a strict weak order on the elements at hand, and
only on those.  `Arranged` is the specification: a permutation, in nondecreasing
order, in which equal elements keep their order.  It has one solution.

`Passed` is one pass of a natural merge sort, as a relation: the sequence is cut
into maximal runs, and each two neighbouring runs are merged.  A pass rearranges
without moving equal elements past each other, and when it leaves more than one
run it leaves fewer than there were.
-/
import Mathlib.Data.List.Chain

namespace NaturalSort

variable {α : Type} {less : α → α → Bool}

/-! ## Order -/

/-- `a` may stand before `b`. -/
def InOrder (less : α → α → Bool) (a b : α) : Prop := less b a = false

/-- Neither is less than the other. -/
def equal (less : α → α → Bool) (a b : α) : Bool := !less a b && !less b a

theorem equal_symm {a b : α} (h : equal less a b = true) : equal less b a = true :=
  (Bool.and_comm ..).trans h

/-- `less` is a strict weak order on the elements of `xs`. -/
structure StrictWeakOn (less : α → α → Bool) (xs : List α) : Prop where
  irrefl : ∀ a ∈ xs, less a a = false
  trans : ∀ a ∈ xs, ∀ b ∈ xs, ∀ c ∈ xs, less a b = true → less b c = true → less a c = true
  equal_trans : ∀ a ∈ xs, ∀ b ∈ xs, ∀ c ∈ xs,
    equal less a b = true → equal less b c = true → equal less a c = true

/-- `ys` has the elements of `xs`, equal ones in the same order. -/
structure Rearranged (less : α → α → Bool) (xs ys : List α) : Prop where
  perm : ys.Perm xs
  stable : ∀ a ∈ xs, ys.filter (equal less a) = xs.filter (equal less a)

/-- `ys` is the sequence `xs`, sorted. -/
structure Arranged (less : α → α → Bool) (xs ys : List α) : Prop
    extends Rearranged less xs ys where
  sorted : ys.Pairwise (InOrder less)

namespace StrictWeakOn

variable {xs : List α} {a b c : α}

theorem mono {ys : List α} (h : StrictWeakOn less xs) (hs : ys ⊆ xs) : StrictWeakOn less ys where
  irrefl a ha := h.irrefl a (hs ha)
  trans a ha b hb c hc := h.trans a (hs ha) b (hs hb) c (hs hc)
  equal_trans a ha b hb c hc := h.equal_trans a (hs ha) b (hs hb) c (hs hc)

theorem equal_self (h : StrictWeakOn less xs) (ha : a ∈ xs) : equal less a a = true := by
  rw [equal, h.irrefl a ha]
  rfl

/-- What is above `b` is not equal to anything that `b` is equal to. -/
theorem differs_above (h : StrictWeakOn less xs) (ha : a ∈ xs) (hb : b ∈ xs) (hc : c ∈ xs)
    (hab : equal less a b = true) (hl : less b c = true) : equal less a c = false := by
  cases hac : equal less a c with
  | false => rfl
  | true =>
      have hbc := h.equal_trans b hb a ha c hc (equal_symm hab) hac
      rw [equal, hl] at hbc
      cases hbc

theorem asymm (h : StrictWeakOn less xs) (ha : a ∈ xs) (hb : b ∈ xs) (hl : less a b = true) :
    less b a = false := by
  cases hba : less b a with
  | false => rfl
  | true =>
      have haa := h.trans a ha b hb a ha hl hba
      rw [h.irrefl a ha] at haa
      cases haa

/-- What is below `a` is below what may stand after `a`. -/
theorem less_of_less_of_inOrder (h : StrictWeakOn less xs) (ha : a ∈ xs) (hb : b ∈ xs)
    (hc : c ∈ xs) (hl : less b a = true) (ho : InOrder less a c) : less b c = true := by
  cases hac : less a c with
  | true => exact h.trans b hb a ha c hc hl hac
  | false =>
      have heq : equal less a c = true := by
        rw [equal, hac, ho]
        rfl
      -- Were `b` and `c` equal, `a` and `b` would be too; were `c` below `b`, it would be below `a`.
      cases hbc : less b c with
      | true => rfl
      | false =>
          cases hcb : less c b with
          | true =>
              have hca := h.trans c hc b hb a ha hcb hl
              rw [show less c a = false from ho] at hca
              cases hca
          | false =>
              have hcb' : equal less c b = true := by
                rw [equal, hcb, hbc]
                rfl
              have hab := h.equal_trans a ha c hc b hb heq hcb'
              rw [equal, hl, Bool.not_true, Bool.and_false] at hab
              cases hab

theorem inOrder_trans (h : StrictWeakOn less xs) (ha : a ∈ xs) (hb : b ∈ xs) (hc : c ∈ xs)
    (hab : InOrder less a b) (hbc : InOrder less b c) : InOrder less a c := by
  cases hca : less c a with
  | false => exact hca
  | true =>
      have hcb := h.less_of_less_of_inOrder ha hc hb hca hab
      rw [show less c b = false from hbc] at hcb
      cases hcb

/-- On these elements it is enough to compare neighbours. -/
theorem pairwise {ys : List α} (h : StrictWeakOn less ys) (hc : ys.IsChain (InOrder less)) :
    ys.Pairwise (InOrder less) := by
  induction ys with
  | nil => exact .nil
  | cons a ys ih =>
      have hp := ih (h.mono (List.subset_cons_self a ys)) hc.tail
      refine List.pairwise_cons.mpr ⟨fun c hcm => ?_, hp⟩
      cases ys with
      | nil => cases hcm
      | cons b ys =>
          have hab : InOrder less a b := (List.isChain_cons_cons.mp hc).1
          rcases List.mem_cons.mp hcm with rfl | hcm
          · exact hab
          · exact h.inOrder_trans (List.mem_cons_self ..)
              (List.mem_cons_of_mem _ (List.mem_cons_self ..))
              (List.mem_cons_of_mem _ (List.mem_cons_of_mem _ hcm)) hab
              ((List.pairwise_cons.mp hp).1 c hcm)

end StrictWeakOn

/-! ## Rearrangements -/

section Rearranging

variable {xs ys zs : List α}

theorem Rearranged.refl (xs : List α) : Rearranged less xs xs := ⟨.refl _, fun _ _ => rfl⟩

theorem Rearranged.trans (h₁ : Rearranged less xs ys) (h₂ : Rearranged less ys zs) :
    Rearranged less xs zs :=
  ⟨h₂.perm.trans h₁.perm, fun a ha => (h₂.stable a (h₁.perm.mem_iff.mpr ha)).trans (h₁.stable a ha)⟩

/-- Two sorted sequences with the same elements, equal ones in the same order, are the same. -/
theorem sorted_unique (h : StrictWeakOn less ys) (hp : zs.Perm ys)
    (hs : ∀ a ∈ ys, zs.filter (equal less a) = ys.filter (equal less a))
    (hy : ys.Pairwise (InOrder less)) (hz : zs.Pairwise (InOrder less)) : zs = ys := by
  induction ys generalizing zs with
  | nil => exact List.perm_nil.mp hp
  | cons y ys ih =>
      cases zs with
      | nil => exact (List.nil_perm.mp hp).symm
      | cons z zs =>
          have hym : y ∈ y :: ys := List.mem_cons_self ..
          have hyy := h.equal_self hym
          -- Each of the two first elements may stand before the other.
          have hzy : InOrder less z y := by
            rcases List.mem_cons.mp (hp.mem_iff.mpr hym) with rfl | hin
            · exact h.irrefl y hym
            · exact (List.pairwise_cons.mp hz).1 y hin
          have hyz : InOrder less y z := by
            rcases List.mem_cons.mp (hp.mem_iff.mp (List.mem_cons_self ..)) with rfl | hin
            · exact h.irrefl z hym
            · exact (List.pairwise_cons.mp hy).1 z hin
          have hyz' : equal less y z = true := by
            rw [equal, hzy, hyz]
            rfl
          have hhead := hs y hym
          rw [List.filter_cons_of_pos hyz', List.filter_cons_of_pos hyy, List.cons.injEq] at hhead
          obtain ⟨rfl, -⟩ := hhead
          have htail : zs = ys := by
            refine ih (h.mono (List.subset_cons_self _ _)) hp.cons_inv (fun a ha => ?_)
              (List.pairwise_cons.mp hy).2 (List.pairwise_cons.mp hz).2
            have hcons := hs a (List.mem_cons_of_mem _ ha)
            cases haz : equal less a z with
            | true =>
                rw [List.filter_cons_of_pos haz, List.filter_cons_of_pos haz] at hcons
                exact List.tail_eq_of_cons_eq hcons
            | false =>
                rwa [List.filter_cons_of_neg (Bool.eq_false_iff.mp haz),
                  List.filter_cons_of_neg (Bool.eq_false_iff.mp haz)] at hcons
          rw [htail]

theorem Arranged.unique (h : StrictWeakOn less xs) (hy : Arranged less xs ys)
    (hz : Arranged less xs zs) : zs = ys := by
  refine sorted_unique (h.mono hy.perm.subset) (hz.perm.trans hy.perm.symm) (fun a ha => ?_)
    hy.sorted hz.sorted
  have hin : a ∈ xs := hy.perm.mem_iff.mp ha
  exact (hz.stable a hin).trans (hy.stable a hin).symm

end Rearranging

/-! ## Merging -/

/-- The merge of two runs: the second gives only what is less than what the first has. -/
def merged (less : α → α → Bool) (A B : List α) : List α := A.merge B fun a b => !less b a

section Merging

variable {A B S : List α} {a b : α}

theorem merged_nil_left (B : List α) : merged less [] B = B := List.nil_merge B

theorem merged_nil_right (A : List α) : merged less A [] = A := List.merge_right A

theorem merged_left (h : less b a = false) :
    merged less (a :: A) (b :: B) = a :: merged less A (b :: B) :=
  List.cons_merge_cons_pos _ A B (by rw [h]; rfl)

theorem merged_right (h : less b a = true) :
    merged less (a :: A) (b :: B) = b :: merged less (a :: A) B :=
  List.cons_merge_cons_neg _ A B (by rw [h]; exact Bool.false_ne_true)

theorem merged_perm (A B : List α) : (merged less A B).Perm (A ++ B) := List.merge_perm_append _

theorem head_merged {y : α} (h : y ∈ (merged less A B).head?) : y ∈ A.head? ∨ y ∈ B.head? := by
  cases A with
  | nil =>
      rw [merged_nil_left] at h
      exact .inr h
  | cons a A =>
      cases B with
      | nil =>
          rw [merged_nil_right] at h
          exact .inl h
      | cons b B =>
          cases hl : less b a with
          | false =>
              rw [merged_left hl] at h
              exact .inl h
          | true =>
              rw [merged_right hl] at h
              exact .inr h

/-- The merge of two runs is a run. -/
theorem chain_merged (h : StrictWeakOn less S) : ∀ {A B : List α}, A ⊆ S → B ⊆ S →
    A.IsChain (InOrder less) → B.IsChain (InOrder less) →
    (merged less A B).IsChain (InOrder less)
  | [], B, _, _, _, hB => by rwa [merged_nil_left]
  | a :: A, [], _, _, hA, _ => by rwa [merged_nil_right]
  | a :: A, b :: B, hAS, hBS, hA, hB => by
      obtain ⟨haA, hA'⟩ := List.isChain_cons.mp hA
      obtain ⟨hbB, hB'⟩ := List.isChain_cons.mp hB
      cases hl : less b a with
      | false =>
          rw [merged_left hl]
          refine List.isChain_cons.mpr ⟨fun y hy => ?_,
            chain_merged h (List.cons_subset.mp hAS).2 hBS hA' hB⟩
          rcases head_merged hy with hy | hy
          · exact haA y hy
          · cases hy
            exact hl
      | true =>
          rw [merged_right hl]
          refine List.isChain_cons.mpr ⟨fun y hy => ?_,
            chain_merged h hAS (List.cons_subset.mp hBS).2 hA hB'⟩
          rcases head_merged hy with hy | hy
          · cases hy
            exact h.asymm (hBS (List.mem_cons_self ..)) (hAS (List.mem_cons_self ..)) hl
          · exact hbB y hy
  termination_by A B => A.length + B.length

/-- What is less than the first of a run is equal to none of it. -/
theorem filter_run (h : StrictWeakOn less S) {c : α} (hc : c ∈ S) (hb : b ∈ S) (hA : a :: A ⊆ S)
    (hs : (a :: A).Pairwise (InOrder less)) (hl : less b a = true)
    (hcb : equal less c b = true) : (a :: A).filter (equal less c) = [] := by
  refine List.filter_eq_nil_iff.mpr fun x hx => ?_
  have hax : InOrder less a x := by
    rcases List.mem_cons.mp hx with rfl | hx
    · exact h.irrefl x (hA (List.mem_cons_self ..))
    · exact (List.pairwise_cons.mp hs).1 x hx
  have hbx := h.less_of_less_of_inOrder (hA (List.mem_cons_self ..)) hb (hA hx) hl hax
  exact Bool.eq_false_iff.mp (h.differs_above hc hb (hA hx) hcb hbx)

/-- A merge does not move equal elements past each other. -/
theorem filter_merged (h : StrictWeakOn less S) {c : α} (hc : c ∈ S) : ∀ {A B : List α}, A ⊆ S →
    B ⊆ S → A.Pairwise (InOrder less) →
    (merged less A B).filter (equal less c) = (A ++ B).filter (equal less c)
  | [], B, _, _, _ => by rw [merged_nil_left, List.nil_append]
  | a :: A, [], _, _, _ => by rw [merged_nil_right, List.append_nil]
  | a :: A, b :: B, hAS, hBS, hA => by
      cases hl : less b a with
      | false =>
          have ih := filter_merged h hc (List.cons_subset.mp hAS).2 hBS (List.pairwise_cons.mp hA).2
          rw [merged_left hl, List.filter_cons, ih, List.cons_append, List.filter_cons]
      | true =>
          have ih := filter_merged h hc hAS (List.cons_subset.mp hBS).2 hA
          rw [merged_right hl, List.filter_append]
          cases hcb : equal less c b with
          | false =>
              rw [List.filter_cons_of_neg (Bool.eq_false_iff.mp hcb),
                List.filter_cons_of_neg (Bool.eq_false_iff.mp hcb), ih, List.filter_append]
          | true =>
              have hnone := filter_run h hc (hBS (List.mem_cons_self ..)) hAS hA hl hcb
              rw [List.filter_cons_of_pos hcb, List.filter_cons_of_pos hcb, ih, List.filter_append,
                hnone, List.nil_append, List.nil_append]
  termination_by A B => A.length + B.length

end Merging

/-! ## Descents -/

/-- The number of places at which a run ends before the sequence does. -/
def descents (less : α → α → Bool) : List α → Nat
  | a :: b :: l => (if less b a then 1 else 0) + descents less (b :: l)
  | _ => 0

/-- A run that ends in `A` does not go on in `B`. -/
def Breaks (less : α → α → Bool) (A B : List α) : Prop :=
  ∀ z ∈ A.getLast?, ∀ c ∈ B.head?, less c z = true

theorem descents_eq_zero {l : List α} (h : l.IsChain (InOrder less)) : descents less l = 0 := by
  induction l with
  | nil => rfl
  | cons a l ih =>
      cases l with
      | nil => rfl
      | cons b l =>
          obtain ⟨hab, hl⟩ := List.isChain_cons_cons.mp h
          rw [descents, show less b a = false from hab, ih hl]
          rfl

theorem chain_of_descents {l : List α} (h : descents less l = 0) : l.IsChain (InOrder less) := by
  induction l with
  | nil => exact .nil
  | cons a l ih =>
      cases l with
      | nil => exact .singleton a
      | cons b l =>
          rw [descents, Nat.add_eq_zero_iff] at h
          refine List.isChain_cons_cons.mpr ⟨?_, ih h.2⟩
          cases hba : less b a with
          | false => exact hba
          | true =>
              rw [hba] at h
              cases h.1

theorem descents_le_length (l : List α) : descents less l ≤ l.length := by
  induction l with
  | nil => exact Nat.zero_le _
  | cons a l ih =>
      cases l with
      | nil => exact Nat.zero_le _
      | cons b l =>
          rw [descents, List.length_cons]
          split <;> omega

theorem descents_append_le (A B : List α) :
    descents less (A ++ B) ≤ descents less A + 1 + descents less B := by
  induction A with
  | nil =>
      rw [List.nil_append]
      omega
  | cons a A ih =>
      cases A with
      | nil =>
          cases B with
          | nil => exact Nat.zero_le _
          | cons b B =>
              simp only [List.cons_append, List.nil_append, descents]
              split <;> omega
      | cons a' A =>
          simp only [List.cons_append, descents] at ih ⊢
          omega

theorem descents_append_ge {A B : List α} (hA : A ≠ []) (hB : B ≠ []) (h : Breaks less A B) :
    descents less A + 1 + descents less B ≤ descents less (A ++ B) := by
  induction A with
  | nil => exact absurd rfl hA
  | cons a A ih =>
      cases A with
      | nil =>
          cases B with
          | nil => exact absurd rfl hB
          | cons b B =>
              have hba : less b a = true := h a rfl b rfl
              simp [descents, hba]
      | cons a' A =>
          have ih := ih (List.cons_ne_nil _ _) fun z hz => h z (by rwa [List.getLast?_cons_cons])
          simp only [List.cons_append, descents] at ih ⊢
          omega

/-! ## Passes -/

/-- One pass: `xs` becomes `ys`, which `n` runs make up. -/
inductive Passed (less : α → α → Bool) : List α → List α → Nat → Prop where
  | done : Passed less [] [] 0
  /-- A run that is left over. -/
  | last {A : List α} : A ≠ [] → A.IsChain (InOrder less) → Passed less A A 1
  /-- Two runs, merged. -/
  | pair {A B rest out : List α} {n : Nat} : A ≠ [] → B ≠ [] → A.IsChain (InOrder less) →
      B.IsChain (InOrder less) → Breaks less A B → Breaks less B rest → Passed less rest out n →
      Passed less (A ++ (B ++ rest)) (merged less A B ++ out) (n + 1)

namespace Passed

variable {xs ys : List α} {n : Nat}

theorem perm (h : Passed less xs ys n) : ys.Perm xs := by
  induction h with
  | done => exact .nil
  | last => exact .refl _
  | @pair A B rest out n _ _ _ _ _ _ _ ih =>
      rw [← List.append_assoc]
      exact (merged_perm A B).append ih

theorem stable {S : List α} {c : α} (h : Passed less xs ys n) (hw : StrictWeakOn less S)
    (hc : c ∈ S) (hs : xs ⊆ S) : ys.filter (equal less c) = xs.filter (equal less c) := by
  induction h with
  | done => rfl
  | last => rfl
  | @pair A B rest out n _ _ hA hB _ _ _ ih =>
      obtain ⟨hAS, hBS, hrest⟩ : A ⊆ S ∧ B ⊆ S ∧ rest ⊆ S := by
        simpa only [List.append_subset] using hs
      have hsorted := (hw.mono hAS).pairwise hA
      rw [List.filter_append, filter_merged hw hc hAS hBS hsorted, ih hrest, ← List.filter_append,
        List.append_assoc]

theorem rearranged (h : Passed less xs ys n) (hw : StrictWeakOn less xs) :
    Rearranged less xs ys :=
  ⟨h.perm, fun _ ha => h.stable hw ha (List.Subset.refl xs)⟩

/-- The pass leaves at most `n` runs. -/
theorem runs_le (h : Passed less xs ys n) (hw : StrictWeakOn less xs) :
    descents less ys ≤ n - 1 := by
  induction h with
  | done => exact Nat.zero_le _
  | last _ hA => exact (descents_eq_zero hA).le
  | @pair A B rest out n _ _ hA hB _ _ hpass ih =>
      obtain ⟨hAS, hBS, hrest⟩ : A ⊆ A ++ (B ++ rest) ∧ B ⊆ A ++ (B ++ rest) ∧
          rest ⊆ A ++ (B ++ rest) := by
        simpa only [List.append_subset] using List.Subset.refl (A ++ (B ++ rest))
      have hmerged := descents_eq_zero (chain_merged hw hAS hBS hA hB)
      have hle : descents less (merged less A B ++ out) ≤ _ := descents_append_le _ out
      have ih := ih (hw.mono hrest)
      cases hpass with
      | done =>
          rw [List.append_nil, hmerged]
      | last => omega
      | pair => omega

theorem count_nil (h : Passed less xs ys n) (hx : xs = []) : n = 0 := by
  cases h with
  | done => rfl
  | last hA => exact absurd hx hA
  | pair hA => exact absurd (List.append_eq_nil_iff.mp hx).1 hA

/-- If it leaves more than one, there were more. -/
theorem lt_runs (h : Passed less xs ys n) : n ≤ descents less xs + 1 ∧
    (1 < n → n ≤ descents less xs) := by
  induction h with
  | done => exact ⟨Nat.zero_le _, fun hn => absurd hn (Nat.not_lt_zero _)⟩
  | last _ hA =>
      rw [descents_eq_zero hA]
      exact ⟨Nat.le_refl _, fun hn => absurd hn (Nat.lt_irrefl _)⟩
  | @pair A B rest out n hA hB hcA hcB hAB hBrest hpass ih =>
      have hAB' : Breaks less A (B ++ rest) := by
        intro z hz c hc
        rw [List.head?_append_of_ne_nil _ hB] at hc
        exact hAB z hz c hc
      have hfirst := descents_append_ge hA (List.append_ne_nil_of_left_ne_nil hB rest) hAB'
      by_cases hrest : rest = []
      · have hn := hpass.count_nil hrest
        omega
      · have hsecond := descents_append_ge hB hrest hBrest
        omega

/-- A pass that leaves at most one run leaves a sorted sequence. -/
theorem chain (h : Passed less xs ys n) (hw : StrictWeakOn less xs) (hn : n ≤ 1) :
    ys.IsChain (InOrder less) := by
  have hle := h.runs_le hw
  exact chain_of_descents (by omega)

end Passed

end NaturalSort
