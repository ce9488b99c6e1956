/-
# `PicoOS.Lists.Reverse` — `list_reverse`

The loop of `list_reverse` exchanges the two links of every element, and goes on
through `e->prev` because that is where `e->next` has just been put.  While it runs
the list is well formed in neither direction; what holds is that the elements
passed are flipped and the others are not.

The two `swap`s after the loop repair the ends.  Together with the loop they amount
to taking all elements out of the list, flipping them, and putting them back, which
is `Holds.reverse`.
-/
import PicoOS.Lists.Specs

namespace PicoOS.Lists

open Fallible LinkedSeq

variable {α ι : Type} [DecidableEq α] {H : Links α} {L : ι → Ends α} {xs : ι → List α} {i : ι}

/-! ## The loop -/

/-- `swap (&e->prev, &e->next)`. -/
theorem swap_links (H : Links α) (e : α) :
    swap (.prev e) (.next e) H = .ok ((), (H.setPrev e (H.next e)).setNext e (H.prev e)) := rfl

/-- One round: the links of `e` are exchanged, and `e->prev` is what `e->next` was. -/
theorem listReverseLoop_round {l : Ends α} {e : α} {cs : List α} {n : Nat} (he : e ∉ cs)
    (hne : some e ≠ some l.tail) :
    listReverseLoop (some l) (n + 1) (some e) (H.flip cs) =
      listReverseLoop (some l) n (H.next e) (H.flip (cs ++ [e])) := by
  have hoff := sameOff_flip H cs e he
  have hswap : swap (.prev e) (.next e) (H.flip cs) = .ok ((), H.flip (cs ++ [e])) := by
    rw [swap_links, hoff.1, hoff.2, flip_concat]
  have hnext : prev (some e) (H.flip (cs ++ [e])) = .ok (H.next e, H.flip (cs ++ [e])) :=
    prev_ok (flip_prev (List.mem_append_right _ (List.mem_singleton_self e)))
  rw [listReverseLoop, bind_ok (listEnd_ok _ l), if_pos hne]
  rw [bind_ok rfl, bind_ok rfl, bind_ok hswap, bind_ok hnext]

/-- The loop flips the rest `zs` of the list, `ys` being flipped already. -/
theorem listReverseLoop_ok (h : Holds H L xs) : ∀ {zs ys : List α} {n : Nat},
    xs i = ys ++ zs → zs.length < n →
      listReverseLoop (some (L i)) n ((L i).at zs) (H.flip ys) = .ok ((), H.flip (xs i)) := by
  intro zs
  induction zs with
  | nil =>
      intro ys n hx hn
      obtain ⟨n, rfl, -⟩ := another_round hn
      rw [List.append_nil] at hx
      rw [listReverseLoop, bind_ok (listEnd_ok _ (L i)), Ends.at_nil, if_neg (not_not.mpr rfl), hx]
      rfl
  | cons e zs ih =>
      intro ys n hx hn
      obtain ⟨n, rfl, hn'⟩ := another_round hn
      have hx' : xs i = (ys ++ [e]) ++ zs := by simpa using hx
      have he : e ∉ ys := by
        have hnodup := h.apart.nodup i
        rw [hx, (L i).cells_append, List.nodup_append] at hnodup
        exact fun hin => hnodup.2.2 e (List.mem_cons_of_mem _ hin) e (List.mem_cons_self ..) rfl
      rw [Ends.at_cons, listReverseLoop_round he (h.ne_tail hx), (neighbours h hx).2]
      exact ih hx' hn'

/-! ## The ends -/

section Ends

variable {l : Ends α} {a b : α} {cs : List α}

/-- The links after the two `swap`s, in the order in which they are written. -/
theorem flip_ends (hhead : l.head ∉ cs) (htail : l.tail ∉ cs) (ha : a ∈ cs) (hb : b ∈ cs) :
    ((((H.flip cs).setNext l.head (some b)).setPrev l.tail (some a)).setPrev b
        (some l.head)).setNext a (some l.tail) =
      ((H.bypass l.head l.tail).flip cs).enclose l.head l.tail b a := by
  have hne : ∀ {x y}, x ∈ cs → y ∉ cs → x ≠ y := fun hx hy he => hy (he ▸ hx)
  refine Links.ext (funext fun x => ?_) (funext fun x => ?_)
  · rw [enclose_next]
    show Function.update (Function.update (H.flip cs).next l.head (some b)) a (some l.tail) x = _
    rw [Function.update_apply, Function.update_apply]
    by_cases hxh : x = l.head
    · rw [if_neg (hxh ▸ (hne ha hhead).symm), if_pos hxh, if_pos hxh]
    · rw [if_neg hxh, if_neg hxh]
      refine congrArg (ite (x = a) (some l.tail)) ?_
      by_cases hx : x ∈ cs
      · rw [flip_next hx, flip_next hx, bypass_prev, if_neg (hne hx htail)]
      · rw [(sameOff_flip _ cs x hx).1, (sameOff_flip _ cs x hx).1, bypass_next, if_neg hxh]
  · rw [enclose_prev]
    show Function.update (Function.update (H.flip cs).prev l.tail (some a)) b (some l.head) x = _
    rw [Function.update_apply, Function.update_apply]
    by_cases hxt : x = l.tail
    · rw [if_neg (hxt ▸ (hne hb htail).symm), if_pos hxt, if_pos hxt]
    · rw [if_neg hxt, if_neg hxt]
      refine congrArg (ite (x = b) (some l.head)) ?_
      by_cases hx : x ∈ cs
      · rw [flip_prev hx, flip_prev hx, bypass_next, if_neg (hne hx hhead)]
      · rw [(sameOff_flip _ cs x hx).2, (sameOff_flip _ cs x hx).2, bypass_prev, if_neg hxt]

/-- The two `swap`s after the loop, `a` and `b` being the first and the last element.  In a list of
one element both work on the same cell. -/
theorem swap_ends (hhead : l.head ∉ cs) (htail : l.tail ∉ cs) (ha : a ∈ cs) (hb : b ∈ cs)
    (hfirst : H.Joined l.head a) (hlast : H.Joined b l.tail) :
    (do swap (.next l.head) (.prev l.tail)
        let first ← next (some l.head)
        let last ← prev (some l.tail)
        swap (← fieldPrev first) (← fieldNext last) : Code α Unit) (H.flip cs) =
      .ok ((), ((H.bypass l.head l.tail).flip cs).enclose l.head l.tail b a) := by
  let H₁ := ((H.flip cs).setNext l.head (some b)).setPrev l.tail (some a)
  have hswap₁ : swap (.next l.head) (.prev l.tail) (H.flip cs) = .ok ((), H₁) := by
    have hnext : (H.flip cs).next l.head = some a := (sameOff_flip H cs _ hhead).1.trans hfirst.1
    have hprev : (H.flip cs).prev l.tail = some b := (sameOff_flip H cs _ htail).2.trans hlast.2
    show Except.ok ((), ((H.flip cs).setNext l.head ((H.flip cs).prev l.tail)).setPrev l.tail
      ((H.flip cs).next l.head)) = _
    rw [hnext, hprev]
  have hbt : b ≠ l.tail := fun he => htail (he ▸ hb)
  have hah : a ≠ l.head := fun he => hhead (he ▸ ha)
  have hswap₂ : swap (.prev b) (.next a) H₁ =
      .ok ((), (H₁.setPrev b (some l.head)).setNext a (some l.tail)) := by
    have hprev : H₁.prev b = some l.tail :=
      (Function.update_of_ne hbt _ _).trans ((flip_prev hb).trans hlast.1)
    have hnext : H₁.next a = some l.head :=
      (Function.update_of_ne hah _ _).trans ((flip_next ha).trans hfirst.2)
    show Except.ok ((), (H₁.setPrev b (H₁.next a)).setNext a (H₁.prev b)) = _
    rw [hprev, hnext]
  have hread₁ : next (some l.head) H₁ = .ok (some b, H₁) := next_ok (Function.update_self ..)
  have hread₂ : prev (some l.tail) H₁ = .ok (some a, H₁) := prev_ok (Function.update_self ..)
  rw [bind_ok hswap₁, bind_ok hread₁, bind_ok hread₂, bind_ok rfl, bind_ok rfl, hswap₂]
  exact congrArg (fun H' => Except.ok ((), H')) (flip_ends hhead htail ha hb)

end Ends

/-! ## `list_reverse` -/

theorem listReverse_leaves [DecidableEq ι] {n : Nat} (h : Holds H L xs) (hn : (xs i).length < n) :
    Leaves H L (listReverse n (some (L i))) () (Function.update xs i (xs i).reverse)
      ((L i).cells (xs i)) := by
  by_cases hempty : xs i = []
  · -- Nothing is done to an empty list.
    have hsame : Function.update xs i (xs i).reverse = xs := by
      rw [hempty, List.reverse_nil, ← hempty, Function.update_eq_self]
    rw [hsame]
    refine .after (listEmpty_ok h i) (.refl h ?_ _)
    rw [decide_eq_true hempty, if_pos rfl]
    rfl
  · obtain ⟨a, ha⟩ : ∃ a, (xs i).head? = some a := ⟨_, List.head?_eq_some_head hempty⟩
    obtain ⟨b, hb⟩ : ∃ b, (xs i).getLast? = some b := ⟨_, List.getLast?_eq_some_getLast hempty⟩
    have ham := List.mem_of_mem_head? ha
    have hbm := List.mem_of_mem_getLast? hb
    have hx : xs i = [] ++ xs i := rfl
    have hx' : xs i = xs i ++ [] := (List.append_nil _).symm
    have hat : (L i).at (xs i) = some a := by
      rw [Ends.at, List.head?_append_of_ne_nil _ hempty, ha]
    have hup : (L i).upTo (xs i) = some b := by
      rw [Ends.upTo, List.getLast?_cons_of_ne_nil hempty, hb]
    obtain ⟨hhead, htail⟩ := Ends.notMem (h.apart.nodup i)
    have hloop : listReverseLoop (some (L i)) n ((L i).at (xs i)) H = .ok ((), H.flip (xs i)) :=
      listReverseLoop_ok h hx hn
    have hswaps := swap_ends hhead htail ham hbm (h.joined hx (Ends.upTo_nil _) hat)
      (h.joined hx' hup (Ends.at_nil _))
    refine ⟨_, ?_, h.reverse ha hb, ?_⟩
    · unfold listReverse
      rw [bind_ok (listEmpty_ok h i), decide_eq_false hempty, if_neg Bool.false_ne_true,
        bind_ok (listBegin_ok h i), bind_ok hloop, bind_ok rfl]
      exact hswaps
    · have hin : ∀ {x}, x ∈ xs i → x ∈ (L i).cells (xs i) := fun hx =>
        List.mem_cons_of_mem _ (List.mem_append_left _ hx)
      have hheadin : (L i).head ∈ (L i).cells (xs i) := List.mem_cons_self ..
      have htailin : (L i).tail ∈ (L i).cells (xs i) :=
        List.mem_cons_of_mem _ (List.mem_append_right _ (List.mem_singleton_self _))
      refine (sameOff_bypass hheadin htailin).trans (.trans ?_
        (sameOff_enclose hheadin htailin (hin hbm) (hin ham)))
      exact (sameOff_flip _ (xs i)).mono fun x hx => hin hx

/-- `list_reverse` of a list of any length returns and leaves the list reversed, with no other link
changed; a second one restores every link. -/
theorem list_reverse_reverses [DecidableEq ι] {n : Nat} (h : Holds H L xs)
    (hn : (xs i).length < n) :
    Leaves H L (listReverse n (some (L i))) () (Function.update xs i (xs i).reverse)
        ((L i).cells (xs i)) ∧
      (do listReverse n (some (L i)); listReverse n (some (L i)) : Code α Unit) H =
        .ok ((), H) := by
  have hfirst := listReverse_leaves h hn
  refine ⟨hfirst, ?_⟩
  have htwice : Leaves H L (do listReverse n (some (L i)); listReverse n (some (L i))) () xs
      ((L i).cells (xs i)) := by
    have hsub : (L i).cells (xs i).reverse ⊆ (L i).cells (xs i) :=
      Ends.cells_subset_of_perm (List.reverse_perm _)
    refine hfirst.seq (fun H' h' => ?_) hsub
    have hlen : (Function.update xs i (xs i).reverse i).length < n := by
      rw [Function.update_self, List.length_reverse]
      exact hn
    have hsecond := listReverse_leaves h' hlen
    rwa [Function.update_self, List.reverse_reverse, Function.update_idem,
      Function.update_eq_self] at hsecond
  obtain ⟨H₂, hrun, hholds, hoff⟩ := htwice
  rw [hrun, h.eq_of_sameOff hholds hoff]

/-- The elements 2, 3 and 4 between the ends 0 and 1. -/
theorem list_reverse_three_cells :
    let H : Links Nat := ⟨fun x => [some 2, none, some 3, some 4, some 1][x]?.getD none,
      fun x => [none, some 4, some 0, some 2, some 3][x]?.getD none⟩
    let L : Unit → Ends Nat := fun _ => ⟨0, 1⟩
    Leaves H L (listReverse 4 (some ⟨0, 1⟩)) () (fun _ => [4, 3, 2]) [0, 2, 3, 4, 1] := by
  intro H L
  have hholds : Holds H L fun _ => [2, 3, 4] := by
    refine .single ?_ ⟨?_, ?_, rfl, rfl⟩
    · show [0, 2, 3, 4, 1].Nodup
      decide
    · show [0, 2, 3, 4, 1].IsChain fun x y => H.next x = some y
      simp [H]
    · show [1, 4, 3, 2, 0].IsChain fun x y => H.prev x = some y
      simp [H]
  have hend : (fun _ => [4, 3, 2] : Unit → List Nat) =
      Function.update (fun _ => [2, 3, 4]) () [2, 3, 4].reverse := by
    funext i
    rfl
  rw [hend]
  exact (list_reverse_reverses (i := ()) (n := 4) hholds (by decide)).1

end PicoOS.Lists
