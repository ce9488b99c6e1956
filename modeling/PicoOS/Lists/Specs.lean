/-
# `PicoOS.Lists.Specs` — the lists are sequences

What each function of `list.c` does to the sequences that the lists of a heap
hold.  `Leaves` is the form of every specification: the call returns, with this
value; the heap then holds these sequences; and no link outside the cells of the
lists concerned has changed.

An insertion is `enclose` of one cell, a removal is `bypass` of one, and a splice
is a `bypass` followed by an `enclose`, so the sequences come out of
`Holds.bypass` and `Holds.enclose`.  What is left to show here is that the code
finds the right neighbours, through links it is in the middle of changing.
-/
import PicoOS.Lib.Fallible
import PicoOS.Lists.Code

namespace PicoOS.Lists

open Fallible LinkedSeq

variable {α ι β γ : Type}

/-! ## Running code -/

theorem asserts_ok {f c : String} {test : Links α → Bool} {H : Links α} (h : test H = true) :
    asserts f c test H = .ok ((), H) :=
  if_pos h

theorem next_ok {a : α} {v : Ptr α} {H : Links α} (h : H.next a = v) :
    next (some a) H = .ok (v, H) := by
  rw [← h]
  rfl

theorem prev_ok {a : α} {v : Ptr α} {H : Links α} (h : H.prev a = v) :
    prev (some a) H = .ok (v, H) := by
  rw [← h]
  rfl

/-- A loop that has more than `k` rounds left takes one, and has `k` left. -/
theorem another_round {k n : Nat} (h : k < n) : ∃ m, n = m + 1 ∧ k ≤ m :=
  ⟨n - 1, by omega, by omega⟩

/-- The call returns `r` and leaves the sequences `ys`; outside the cells `touched` no link has
changed. -/
def Leaves (H : Links α) (L : ι → Ends α) (p : Code α β) (r : β) (ys : ι → List α)
    (touched : List α) : Prop :=
  ∃ H', p H = .ok (r, H') ∧ Holds H' L ys ∧ H.SameOff H' touched

section Leaves

variable {H : Links α} {L : ι → Ends α} {p : Code α β} {f : β → Code α γ} {b : β} {r : γ}
  {vs ws : ι → List α} {cs cs' : List α}

/-- Code that only reads, and what comes after it. -/
theorem Leaves.after (hp : p H = .ok (b, H)) (h : Leaves H L (f b) r vs cs) :
    Leaves H L (p >>= f) r vs cs := by
  obtain ⟨H', hrun, hrest⟩ := h
  exact ⟨H', (bind_ok hp).trans hrun, hrest⟩

/-- Two changes, one after the other. -/
theorem Leaves.seq (hp : Leaves H L p b vs cs)
    (hf : ∀ H', Holds H' L vs → Leaves H' L (f b) r ws cs') (hsub : cs' ⊆ cs) :
    Leaves H L (p >>= f) r ws cs := by
  obtain ⟨H₁, hrun₁, hholds₁, hoff₁⟩ := hp
  obtain ⟨H₂, hrun₂, hholds₂, hoff₂⟩ := hf H₁ hholds₁
  exact ⟨H₂, (bind_ok hrun₁).trans hrun₂, hholds₂, hoff₁.trans (hoff₂.mono hsub)⟩

theorem Leaves.returns (h : Leaves H L p b vs cs) {c : γ} :
    Leaves H L (do let _ ← p; return c : Code α γ) c vs cs := by
  obtain ⟨H', hrun, hrest⟩ := h
  exact ⟨H', bind_ok hrun, hrest⟩

theorem Leaves.mono (h : Leaves H L p b vs cs) (hsub : cs ⊆ cs') : Leaves H L p b vs cs' := by
  obtain ⟨H', hrun, hholds, hoff⟩ := h
  exact ⟨H', hrun, hholds, hoff.mono hsub⟩

theorem Leaves.of_eq {q : Code α β} (he : p H = q H) (h : Leaves H L q b vs cs) :
    Leaves H L p b vs cs := by
  obtain ⟨H', hrun, hrest⟩ := h
  exact ⟨H', he.trans hrun, hrest⟩

/-- Code that does nothing. -/
theorem Leaves.refl (h : Holds H L vs) (hp : p H = .ok (b, H)) (cs : List α) :
    Leaves H L p b vs cs :=
  ⟨H, hp, h, fun _ _ => ⟨rfl, rfl⟩⟩

end Leaves

/-! ## Where a cell is -/

section Reading

variable {H : Links α} {L : ι → Ends α} {xs : ι → List α} {i : ι} {ys zs : List α} {p q : α}

/-- A cell with a cell before it is not a head. -/
theorem follows_ok (h : H.prev q = some p) :
    (isInterior H (some q) || isTail H (some q)) = true := by
  cases hn : H.next q <;> simp [isInterior, isTail, h, hn]

/-- A cell with a cell after it is not a tail. -/
theorem precedes_ok (h : H.next p = some q) :
    (isHead H (some p) || isInterior H (some p)) = true := by
  cases hn : H.prev p <;> simp [isInterior, isHead, h, hn]

/-- The neighbours of an element. -/
theorem neighbours {e : α} (h : Holds H L xs) (hx : xs i = ys ++ e :: zs) :
    H.prev e = (L i).upTo ys ∧ H.next e = (L i).at zs := by
  obtain ⟨p, hp⟩ := (L i).upTo_some ys
  obtain ⟨q, hq⟩ := (L i).at_some zs
  have hbefore := h.joined hx hp (Ends.at_cons ..)
  have hx' : xs i = (ys ++ [e]) ++ zs := by simpa using hx
  have hafter := h.joined hx' (Ends.upTo_concat ..) hq
  exact ⟨hbefore.2.trans hp.symm, hafter.1.trans hq.symm⟩

theorem interior_ok {e : α} (h : Holds H L xs) (he : e ∈ xs i) : isInterior H (some e) = true := by
  obtain ⟨ys, zs, hx⟩ := List.append_of_mem he
  obtain ⟨hprev, hnext⟩ := neighbours h hx
  obtain ⟨p, hp⟩ := (L i).upTo_some ys
  obtain ⟨q, hq⟩ := (L i).at_some zs
  simp [isInterior, hprev, hnext, hp, hq]

theorem listBegin_ok (h : Holds H L xs) (i : ι) :
    listBegin (some (L i)) H = .ok ((L i).at (xs i), H) := by
  obtain ⟨q, hq⟩ := (L i).at_some (xs i)
  have hx : xs i = [] ++ xs i := rfl
  have hjoin := h.joined hx (Ends.upTo_nil ..) hq
  show Except.ok (H.next (L i).head, H) = _
  rw [hjoin.1, hq]

theorem listEnd_ok (H : Links α) (l : Ends α) : listEnd (some l) H = .ok (some l.tail, H) := rfl

/-- `list_next` of the first of the rest of a list. -/
theorem listNext_ok {e : α} (h : Holds H L xs) (hx : xs i = ys ++ e :: zs) :
    listNext (some e) H = .ok ((L i).at zs, H) := by
  obtain ⟨-, hnext⟩ := neighbours h hx
  obtain ⟨q, hq⟩ := (L i).at_some zs
  unfold listNext
  rw [bind_ok (asserts_ok (precedes_ok (hnext.trans hq)))]
  exact next_ok hnext

/-- `list_prev` of the cell at which the rest of a list begins. -/
theorem listPrev_ok (h : Holds H L xs) (hx : xs i = ys ++ zs) :
    listPrev ((L i).at zs) H = .ok ((L i).upTo ys, H) := by
  obtain ⟨p, hp⟩ := (L i).upTo_some ys
  obtain ⟨q, hq⟩ := (L i).at_some zs
  have hjoin := h.joined hx hp hq
  unfold listPrev
  rw [hq, bind_ok (asserts_ok (follows_ok hjoin.2))]
  exact prev_ok (hjoin.2.trans hp.symm)

/-- The cell at which the rest of a list begins is not a head. -/
theorem before_ok (h : Holds H L xs) (hx : xs i = ys ++ zs) :
    (isInterior H ((L i).at zs) || isTail H ((L i).at zs)) = true := by
  obtain ⟨p, hp⟩ := (L i).upTo_some ys
  obtain ⟨q, hq⟩ := (L i).at_some zs
  rw [hq]
  exact follows_ok (h.joined hx hp hq).2

/-- The same of a cell that stays in its list when a range is taken out. -/
theorem before_cut_ok [DecidableEq ι] {j : ι} {us ms vs : List α} (h : Holds H L xs)
    (hx : xs j = us ++ ms ++ vs) (hx' : Function.update xs j (us ++ vs) i = ys ++ zs) :
    (isInterior H ((L i).at zs) || isTail H ((L i).at zs)) = true := by
  by_cases hij : i = j
  · subst hij
    rw [Function.update_self] at hx'
    cases zs with
    | nil =>
        have hall : xs i = xs i ++ [] := (List.append_nil _).symm
        exact before_ok h hall
    | cons z zs =>
        have hmem : z ∈ xs i := by
          have hz : z ∈ us ++ vs := hx' ▸ List.mem_append_right _ (List.mem_cons_self ..)
          rw [hx]
          rcases List.mem_append.mp hz with hz | hz
          · exact List.mem_append_left _ (List.mem_append_left _ hz)
          · exact List.mem_append_right _ hz
        rw [Ends.at_cons, interior_ok h hmem]
        rfl
  · rw [Function.update_of_ne hij] at hx'
    exact before_ok h hx'

end Reading

/-! ## Looking at a list -/

section Queries

variable [DecidableEq α] {H : Links α} {L : ι → Ends α} {xs : ι → List α} {i : ι}

theorem listEmpty_ok (h : Holds H L xs) (i : ι) :
    listEmpty (some (L i)) H = .ok (decide (xs i = []), H) := by
  have hiff : ((L i).at (xs i) == some (L i).tail) = decide (xs i = []) := by
    rw [Bool.eq_iff_iff, beq_iff_eq, decide_eq_true_eq]
    have hn : ((L i).cells ([] ++ xs i)).Nodup := h.apart.nodup i
    exact Ends.at_eq_tail hn
  unfold listEmpty
  rw [bind_ok (listBegin_ok h i), bind_ok (listEnd_ok H (L i)), hiff]
  rfl

theorem listSizeLoop_ok (h : Holds H L xs) : ∀ {zs ys : List α} {n cnt : Nat},
    xs i = ys ++ zs → zs.length < n →
      listSizeLoop (some (L i)) n ((L i).at zs) cnt H = .ok (cnt + zs.length, H)
  | _, _, 0, _, _, hn => absurd hn (Nat.not_lt_zero _)
  | [], ys, n + 1, cnt, _, _ => by
      unfold listSizeLoop
      rw [bind_ok (listEnd_ok H (L i)), Ends.at_nil, if_neg (not_not.mpr rfl)]
      rfl
  | z :: zs, ys, n + 1, cnt, hx, hn => by
      have hne : (L i).at (z :: zs) ≠ some (L i).tail := fun he =>
        absurd ((Ends.at_eq_tail (hx ▸ h.apart.nodup i)).mp he) (List.cons_ne_nil z zs)
      have hx' : xs i = (ys ++ [z]) ++ zs := by simpa using hx
      unfold listSizeLoop
      rw [bind_ok (listEnd_ok H (L i)), if_pos hne, Ends.at_cons, bind_ok (listNext_ok h hx),
        listSizeLoop_ok h hx' (Nat.lt_of_succ_lt_succ hn), List.length_cons, Nat.add_assoc,
        Nat.add_comm 1]

theorem listSize_leaves (h : Holds H L xs) {n : Nat} (hn : (xs i).length < n) :
    Leaves H L (listSize n (some (L i))) (xs i).length xs [] := by
  have hx : xs i = [] ++ xs i := rfl
  have hrun : listSizeLoop (some (L i)) n ((L i).at (xs i)) 0 H = .ok (0 + (xs i).length, H) :=
    listSizeLoop_ok h hx hn
  rw [Nat.zero_add] at hrun
  exact .after (listBegin_ok h i) (.refl h hrun [])

end Queries

/-! ## Insertion and removal -/

section Changes

variable [DecidableEq α] [DecidableEq ι] {H : Links α} {L : ι → Ends α} {xs : ι → List α} {i j : ι}
  {ys zs : List α} {e : α}

theorem listInit_leaves (ha : Apart L (Function.update xs i []))
    (ht : ∀ k, k ≠ i → Threaded H (L k) (xs k)) :
    Leaves H L (listInit (some (L i))) () (Function.update xs i []) ((L i).cells []) :=
  ⟨H.reset (L i), rfl, Holds.reset ha ht, sameOff_reset H (L i)⟩

omit [DecidableEq ι] in
/-- `list_insert` looks at nothing but the two neighbours. -/
theorem listInsert_ok {p q : α} (hprev : H.prev q = some p) (hqe : q ≠ e) :
    listInsert (some q) (some e) H = .ok ((), H.enclose p q e e) := by
  -- `before->prev` is read again once `elem->prev` is written.
  have hprev' : ((H.setPrev e (some p)).setNext e (some q)).prev q = some p :=
    (Function.update_of_ne hqe _ _).trans hprev
  unfold listInsert
  rw [bind_ok (asserts_ok (follows_ok hprev)), bind_ok (asserts_ok rfl), bind_ok (prev_ok hprev),
    bind_ok rfl, bind_ok rfl, bind_ok (prev_ok hprev'), bind_ok rfl]
  rfl

/-- `e` is put where the rest `zs` of the list begins. -/
theorem listInsert_leaves (h : Holds H L xs) (hx : xs i = ys ++ zs)
    (he : ∀ k, e ∉ (L k).cells (xs k)) :
    Leaves H L (listInsert ((L i).at zs) (some e)) () (Function.update xs i (ys ++ e :: zs))
      (e :: (L i).cells (xs i)) := by
  obtain ⟨p, hp⟩ := (L i).upTo_some ys
  obtain ⟨q, hq⟩ := (L i).at_some zs
  have hprev := (h.joined hx hp hq).2
  have hqi : q ∈ (L i).cells (xs i) := hx ▸ (L i).at_mem hq ys
  have hpi : p ∈ (L i).cells (xs i) := hx ▸ (L i).upTo_mem hp zs
  have hqe : q ≠ e := by
    rintro rfl
    exact he i hqi
  refine ⟨H.enclose p q e e, hq ▸ listInsert_ok hprev hqe, ?_, ?_⟩
  · have hl : Loose L xs [e] :=
      ⟨List.nodup_singleton e, fun k x hx hin => he k (List.mem_singleton.mp hx ▸ hin)⟩
    have hholds := h.enclose hx (.singleton e) hl hp hq rfl rfl
    rwa [List.append_assoc, List.singleton_append] at hholds
  · exact sameOff_enclose (List.mem_cons_of_mem _ hpi) (List.mem_cons_of_mem _ hqi)
      (List.mem_cons_self ..) (List.mem_cons_self ..)

theorem listRemove_leaves (h : Holds H L xs) (hx : xs i = ys ++ e :: zs) :
    Leaves H L (listRemove (some e)) ((L i).at zs) (Function.update xs i (ys ++ zs))
      ((L i).cells (xs i)) := by
  obtain ⟨p, hp⟩ := (L i).upTo_some ys
  obtain ⟨q, hq⟩ := (L i).at_some zs
  obtain ⟨hprev, hnext⟩ := neighbours h hx
  rw [hp] at hprev
  rw [hq] at hnext
  have hx' : xs i = ys ++ [e] ++ zs := by simpa using hx
  obtain ⟨hholds, -, hloose⟩ := h.bypass hx' hp hq
  have hmem : ∀ {x}, x ∈ (L i).cells (ys ++ zs) → x ≠ e := by
    rintro x hin rfl
    have hd := hloose.disjoint i
    rw [Function.update_self] at hd
    exact hd (List.mem_singleton_self x) hin
  have hep : e ≠ p := (hmem ((L i).upTo_mem hp zs)).symm
  -- `elem->next` is read again once `elem->prev->next` is written.
  have hnext' : (H.setNext p (some q)).next e = some q :=
    (Function.update_of_ne hep _ _).trans hnext
  have hrun : listRemove (some e) H = .ok (some q, H.bypass p q) := by
    have hin : isInterior H (some e) = true := by simp [isInterior, hprev, hnext]
    unfold listRemove
    rw [bind_ok (asserts_ok hin), bind_ok (prev_ok hprev), bind_ok (next_ok hnext), bind_ok rfl,
      bind_ok (next_ok hnext'),
      bind_ok (prev_ok (show (H.setNext p (some q)).prev e = _ from hprev)), bind_ok rfl]
    exact next_ok hnext'
  have hsub : ∀ {x}, x ∈ (L i).cells (ys ++ zs) → x ∈ (L i).cells (xs i) := by
    intro x hin
    rw [hx']
    exact ((L i).cells_perm ys [e] zs).mem_iff.mpr (List.mem_append_right _ hin)
  exact ⟨H.bypass p q, hq ▸ hrun, hholds,
    sameOff_bypass (hsub ((L i).upTo_mem hp zs)) (hsub ((L i).at_mem hq ys))⟩

omit [DecidableEq α] [DecidableEq ι] in
/-- The range from `a` to `b` and its neighbours. -/
theorem range_neighbours {us ms vs : List α} {a b p q : α} (h : Holds H L xs)
    (hx : xs j = us ++ ms ++ vs) (ha : ms.head? = some a) (hb : ms.getLast? = some b)
    (hp : (L j).upTo us = some p) (hq : (L j).at vs = some q) :
    H.prev a = some p ∧ H.next b = some q ∧ listPrev (some q) H = .ok (some b, H) := by
  obtain ⟨ms₁, hms₁⟩ := List.head?_eq_some_iff.mp ha
  obtain ⟨ms₂, hms₂⟩ := List.getLast?_eq_some_iff.mp hb
  have hxa : xs j = us ++ a :: (ms₁ ++ vs) := by rw [hx, hms₁, List.append_assoc, List.cons_append]
  have hxb : xs j = (us ++ ms₂) ++ b :: vs := by
    rw [hx, hms₂, ← List.append_assoc, List.append_assoc (us ++ ms₂), List.singleton_append]
  have hlast : (L j).upTo (us ++ ms) = some b := by
    rw [hms₂, ← List.append_assoc]
    exact Ends.upTo_concat ..
  refine ⟨(neighbours h hxa).1.trans hp, (neighbours h hxb).2.trans hq, ?_⟩
  rw [← hq, ← hlast]
  exact listPrev_ok h hx

/-- `list_splice` of the range from `a` to `b`, which lies between `p'` and `q'`, to between `p` and
`q`: the neighbours are read again after every write. -/
theorem listSplice_run {a b p q p' q' : α}
    (hbefore : (isInterior H (some q) || isTail H (some q)) = true)
    (hlast : listPrev (some q') H = .ok (some b, H)) (ha : isInterior H (some a) = true)
    (hb : isInterior H (some b) = true) (hprev : H.prev a = some p') (hnext : H.next b = some q')
    (hprev₁ : (H.bypass p' q').prev q = some p) (haq : a ≠ q') (hbp : b ≠ p') (hqa : q ≠ a) :
    listSplice (some q) (some a) (some q') H = .ok ((), (H.bypass p' q').enclose p q a b) := by
  have hne : ¬ (some a : Ptr α) = some q' := fun he => haq (Option.some.inj he)
  have hnext' : (H.setNext p' (some q')).next b = some q' :=
    (Function.update_of_ne hbp _ _).trans hnext
  have hprev' : (H.setNext p' (some q')).prev a = some p' := hprev
  have hprev₂ : (((H.bypass p' q').setPrev a (some p)).setNext b (some q)).prev q = some p :=
    (Function.update_of_ne hqa _ _).trans hprev₁
  unfold listSplice
  rw [bind_ok (asserts_ok hbefore), if_neg hne, bind_ok hlast, bind_ok (asserts_ok ha),
    bind_ok (asserts_ok hb), bind_ok (prev_ok hprev), bind_ok (next_ok hnext), bind_ok rfl,
    bind_ok (next_ok hnext'), bind_ok (prev_ok hprev'), bind_ok rfl]
  refine (bind_ok (prev_ok hprev₁)).trans ?_
  rw [bind_ok rfl, bind_ok rfl, bind_ok (prev_ok hprev₂), bind_ok rfl]
  rfl

/-- `list_splice` of a range with something in it. -/
theorem listSplice_move {us ms vs : List α} {a b : α} (h : Holds H L xs)
    (hx : xs j = us ++ ms ++ vs) (hx' : Function.update xs j (us ++ vs) i = ys ++ zs)
    (ha : ms.head? = some a) (hb : ms.getLast? = some b) :
    Leaves H L (listSplice ((L i).at zs) (some a) ((L j).at vs)) ()
      (Function.update (Function.update xs j (us ++ vs)) i (ys ++ ms ++ zs))
      ((L i).cells (xs i) ++ (L j).cells (xs j)) := by
  have hbefore := before_cut_ok h hx hx'
  have ham : a ∈ ms := List.mem_of_mem_head? ha
  have hbm : b ∈ ms := List.mem_of_mem_getLast? hb
  have hmem : ∀ {x}, x ∈ ms → x ∈ xs j := fun hin =>
    hx ▸ List.mem_append_left _ (List.mem_append_right _ hin)
  -- The neighbours of the range, and those of the place it is moved to.
  obtain ⟨p', hp'⟩ := (L j).upTo_some us
  obtain ⟨q', hq'⟩ := (L j).at_some vs
  obtain ⟨p, hp⟩ := (L i).upTo_some ys
  obtain ⟨q, hq⟩ := (L i).at_some zs
  obtain ⟨hprev, hnext, hlast⟩ := range_neighbours h hx ha hb hp' hq'
  obtain ⟨hcut, hchain, hloose⟩ := h.bypass hx hp' hq'
  have hpj : p' ∈ (L j).cells (Function.update xs j (us ++ vs) j) := by
    rw [Function.update_self]
    exact (L j).upTo_mem hp' vs
  have hqj : q' ∈ (L j).cells (Function.update xs j (us ++ vs) j) := by
    rw [Function.update_self]
    exact (L j).at_mem hq' us
  have hpi : p ∈ (L i).cells (Function.update xs j (us ++ vs) i) := hx' ▸ (L i).upTo_mem hp zs
  have hqi : q ∈ (L i).cells (Function.update xs j (us ++ vs) i) := hx' ▸ (L i).at_mem hq ys
  have haq' : a ≠ q' := fun he => hloose.disjoint _ ham (he ▸ hqj)
  have hbp' : b ≠ p' := fun he => hloose.disjoint _ hbm (he ▸ hpj)
  have hqa : q ≠ a := fun he => hloose.disjoint _ ham (he ▸ hqi)
  have hrun := listSplice_run (hq ▸ hbefore) hlast (interior_ok h (hmem ham))
    (interior_ok h (hmem hbm)) hprev hnext (hcut.joined hx' hp hq).2 haq' hbp' hqa
  -- All cells that are written are in one of the two lists.
  have hcells : ∀ k, (L k).cells (Function.update xs j (us ++ vs) k) ⊆ (L k).cells (xs k) :=
    update_cells_subset (hx ▸ (List.sublist_append_left us ms).append_right vs)
  have hin : ∀ {x}, x ∈ ms → x ∈ (L i).cells (xs i) ++ (L j).cells (xs j) := fun hx =>
    List.mem_append_right _ (List.mem_cons_of_mem _ (List.mem_append_left _ (hmem hx)))
  refine ⟨(H.bypass p' q').enclose p q a b, ?_, hcut.enclose hx' hchain hloose hp hq ha hb, ?_⟩
  · rw [hq, hq']
    exact hrun
  · have hi := fun x hx => List.mem_append_left ((L j).cells (xs j)) (hcells i (a := x) hx)
    have hj := fun x hx => List.mem_append_right ((L i).cells (xs i)) (hcells j (a := x) hx)
    exact (sameOff_bypass (hj _ hpj) (hj _ hqj)).trans
      (sameOff_enclose (hi _ hpi) (hi _ hqi) (hin ham) (hin hbm))

/-- The range `ms` of the list `j` is moved to where the rest `zs` of the list `i` begins, the
list `i` being looked at without the range. -/
theorem listSplice_leaves {us ms vs : List α} (h : Holds H L xs) (hx : xs j = us ++ ms ++ vs)
    (hx' : Function.update xs j (us ++ vs) i = ys ++ zs) :
    Leaves H L (listSplice ((L i).at zs) ((L j).at (ms ++ vs)) ((L j).at vs)) ()
      (Function.update (Function.update xs j (us ++ vs)) i (ys ++ ms ++ zs))
      ((L i).cells (xs i) ++ (L j).cells (xs j)) := by
  cases ms with
  | nil =>
      have hbefore := before_cut_ok h hx hx'
      have hsame : Function.update xs j (us ++ vs) = xs := by
        rw [List.append_nil] at hx
        rw [← hx]
        exact Function.update_eq_self j xs
      rw [hsame] at hx' ⊢
      rw [List.append_nil, ← hx', Function.update_eq_self]
      refine .refl h ?_ _
      unfold listSplice
      rw [bind_ok (asserts_ok hbefore), List.nil_append, if_pos rfl]
      rfl
  | cons a ms =>
      obtain ⟨b, hb⟩ : ∃ b, (a :: ms).getLast? = some b := ⟨_, List.getLast?_cons⟩
      exact listSplice_move h hx hx' rfl hb

theorem listPushFront_leaves (h : Holds H L xs) (he : ∀ k, e ∉ (L k).cells (xs k)) :
    Leaves H L (listPushFront (some (L i)) (some e)) () (Function.update xs i (e :: xs i))
      (e :: (L i).cells (xs i)) := by
  have hx : xs i = [] ++ xs i := rfl
  exact .after (listBegin_ok h i) (listInsert_leaves h hx he)

theorem listPushBack_leaves (h : Holds H L xs) (he : ∀ k, e ∉ (L k).cells (xs k)) :
    Leaves H L (listPushBack (some (L i)) (some e)) () (Function.update xs i (xs i ++ [e]))
      (e :: (L i).cells (xs i)) := by
  have hx : xs i = xs i ++ [] := (List.append_nil _).symm
  exact .after (listEnd_ok H (L i)) (listInsert_leaves h hx he)

theorem listPopFront_leaves (h : Holds H L xs) (hx : xs i = e :: zs) :
    Leaves H L (listPopFront (some (L i))) (some e) (Function.update xs i zs)
      ((L i).cells (xs i)) := by
  have hempty : decide (xs i = []) = false := by rw [hx]; rfl
  have hfront : listFront (some (L i)) H = .ok (some e, H) := by
    have hx' : xs i = [] ++ xs i := rfl
    have hjoin := h.joined hx' (Ends.upTo_nil ..) (hx ▸ Ends.at_cons ..)
    unfold listFront
    rw [bind_ok (listEmpty_ok h i), hempty, bind_ok (asserts_ok rfl), bind_ok rfl]
    exact next_ok hjoin.1
  have hx' : xs i = [] ++ e :: zs := hx
  exact .after hfront (listRemove_leaves h hx').returns

theorem listPopBack_leaves (h : Holds H L xs) (hx : xs i = ys ++ [e]) :
    Leaves H L (listPopBack (some (L i))) (some e) (Function.update xs i ys)
      ((L i).cells (xs i)) := by
  have hempty : decide (xs i = []) = false := by simp [hx]
  have hback : listBack (some (L i)) H = .ok (some e, H) := by
    have hx' : xs i = (ys ++ [e]) ++ [] := by simpa using hx
    have hjoin := h.joined hx' (Ends.upTo_concat ..) (Ends.at_nil _)
    unfold listBack
    rw [bind_ok (listEmpty_ok h i), hempty, bind_ok (asserts_ok rfl), bind_ok rfl]
    exact prev_ok hjoin.2
  have hremove := listRemove_leaves h hx
  rw [List.append_nil] at hremove
  exact .after hback hremove.returns

end Changes

/-! ## The lists are sequences -/

/-- In a heap with any number of lists, every function of `list.c` does to the sequences what its
name says, and touches no other list; no `ASSERT` fails. -/
theorem lists_are_sequences [DecidableEq α] [DecidableEq ι] (L : ι → Ends α) :
    (∀ H xs i, Apart L (Function.update xs i []) → (∀ k, k ≠ i → Threaded H (L k) (xs k)) →
      Leaves H L (listInit (some (L i))) () (Function.update xs i []) ((L i).cells [])) ∧
    ∀ H xs i, Holds H L xs →
      (∀ ys zs e, xs i = ys ++ zs → (∀ k, e ∉ (L k).cells (xs k)) →
        Leaves H L (listInsert ((L i).at zs) (some e)) () (Function.update xs i (ys ++ e :: zs))
          (e :: (L i).cells (xs i))) ∧
      (∀ e, (∀ k, e ∉ (L k).cells (xs k)) →
        Leaves H L (listPushFront (some (L i)) (some e)) () (Function.update xs i (e :: xs i))
          (e :: (L i).cells (xs i)) ∧
        Leaves H L (listPushBack (some (L i)) (some e)) () (Function.update xs i (xs i ++ [e]))
          (e :: (L i).cells (xs i))) ∧
      (∀ ys e zs, xs i = ys ++ e :: zs →
        Leaves H L (listRemove (some e)) ((L i).at zs) (Function.update xs i (ys ++ zs))
          ((L i).cells (xs i))) ∧
      (∀ e zs, xs i = e :: zs →
        Leaves H L (listPopFront (some (L i))) (some e) (Function.update xs i zs)
          ((L i).cells (xs i))) ∧
      (∀ ys e, xs i = ys ++ [e] →
        Leaves H L (listPopBack (some (L i))) (some e) (Function.update xs i ys)
          ((L i).cells (xs i))) ∧
      (∀ j us ms vs ys zs, xs j = us ++ ms ++ vs →
        Function.update xs j (us ++ vs) i = ys ++ zs →
        Leaves H L (listSplice ((L i).at zs) ((L j).at (ms ++ vs)) ((L j).at vs)) ()
          (Function.update (Function.update xs j (us ++ vs)) i (ys ++ ms ++ zs))
          ((L i).cells (xs i) ++ (L j).cells (xs j))) ∧
      (∀ n, (xs i).length < n → Leaves H L (listSize n (some (L i))) (xs i).length xs []) ∧
      Leaves H L (listEmpty (some (L i))) (decide (xs i = [])) xs [] := by
  refine ⟨fun H xs i ha ht => listInit_leaves ha ht, fun H xs i h => ⟨?_, ?_, ?_, ?_, ?_, ?_, ?_, ?_⟩⟩
  · exact fun ys zs e hx he => listInsert_leaves h hx he
  · exact fun e he => ⟨listPushFront_leaves h he, listPushBack_leaves h he⟩
  · exact fun ys e zs hx => listRemove_leaves h hx
  · exact fun e zs hx => listPopFront_leaves h hx
  · exact fun ys e hx => listPopBack_leaves h hx
  · exact fun j us ms vs ys zs hx hx' => listSplice_leaves h hx hx'
  · exact fun n hn => listSize_leaves h hn
  · exact .refl h (listEmpty_ok h i) []

/-- The ends 0 and 1 with the elements 2 and 3 between them: 3 is moved in front of 2. -/
theorem lists_are_sequences_two_cells :
    let H : Links Nat := ⟨fun x => [some 2, none, some 3, some 1][x]?.getD none,
      fun x => [none, some 3, some 0, some 2][x]?.getD none⟩
    let L : Unit → Ends Nat := fun _ => ⟨0, 1⟩
    Leaves H L (listSplice (some 2) (some 3) (some 1)) () (fun _ => [3, 2])
      [0, 2, 3, 1, 0, 2, 3, 1] := by
  intro H L
  have hholds : Holds H L fun _ => [2, 3] := by
    refine .single ?_ ⟨?_, ?_, rfl, rfl⟩
    · show [0, 2, 3, 1].Nodup
      decide
    · show [0, 2, 3, 1].IsChain fun x y => H.next x = some y
      simp [H]
    · show [1, 3, 2, 0].IsChain fun x y => H.prev x = some y
      simp [H]
  obtain ⟨-, -, -, -, -, hsplice, -⟩ := (lists_are_sequences L).2 H _ () hholds
  have h := hsplice () [2] [3] [] [] [2] rfl rfl
  have hend : (fun _ => [3, 2] : Unit → List Nat) =
      Function.update (Function.update (fun _ => [2, 3]) () ([2] ++ [])) () ([] ++ [3] ++ [2]) := by
    funext i
    rfl
  rw [hend]
  exact h

end PicoOS.Lists
