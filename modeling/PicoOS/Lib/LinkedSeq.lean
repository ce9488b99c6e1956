/-
# `PicoOS.Lib.LinkedSeq` — doubly linked lists as sequences

A heap of doubly linked cells is two maps, `next` and `prev`, over the addresses
of the cells.  A list is told by the addresses of its two ends; what lies between
them is a sequence, and `Threaded` says that the two maps follow it in both
directions.  `Holds` says it of a whole family of lists that share no cell.

Three operations on the maps are enough for every list function: `bypass` takes a
range of cells out of a list, `enclose` puts one in, and `flip` turns one round
while it is out.  `Holds.bypass`, `Holds.enclose` and `Holds.flip` say what they do
to the sequences, and that nothing else changes.
-/
import Mathlib.Data.List.Chain
import Mathlib.Data.List.Nodup
import Mathlib.Logic.Function.Basic

namespace LinkedSeq

variable {α ι : Type}

/-- The links of the cells; `none` is the null pointer. -/
@[ext]
structure Links (α : Type) where
  next : α → Option α
  prev : α → Option α

/-- The two end cells of a list. -/
structure Ends (α : Type) where
  head : α
  tail : α
  deriving DecidableEq

/-- All cells of the list that holds `xs`. -/
def Ends.cells (l : Ends α) (xs : List α) : List α := l.head :: (xs ++ [l.tail])

/-- The cell at which the rest `zs` of the list begins: its first cell, or the tail. -/
def Ends.at (l : Ends α) (zs : List α) : Option α := (zs ++ [l.tail]).head?

/-- The last cell before the rest of the list, `ys` being before it: the last of `ys`, or the
head. -/
def Ends.upTo (l : Ends α) (ys : List α) : Option α := (l.head :: ys).getLast?

/-- `y` follows `x`. -/
def Links.Joined (H : Links α) (x y : α) : Prop := H.next x = some y ∧ H.prev y = some x

/-- The links follow the sequence in both directions. -/
structure Threaded (H : Links α) (l : Ends α) (xs : List α) : Prop where
  forward : (l.cells xs).IsChain fun x y => H.next x = some y
  backward : (l.cells xs).reverse.IsChain fun x y => H.prev x = some y
  first : H.prev l.head = none
  last : H.next l.tail = none

/-- No cell is in a list twice, or in two lists. -/
structure Apart (L : ι → Ends α) (xs : ι → List α) : Prop where
  nodup : ∀ i, ((L i).cells (xs i)).Nodup
  disjoint : ∀ i j, i ≠ j → ((L i).cells (xs i)).Disjoint ((L j).cells (xs j))

/-- The heap holds the lists `xs`. -/
structure Holds (H : Links α) (L : ι → Ends α) (xs : ι → List α) : Prop where
  apart : Apart L xs
  threaded : ∀ i, Threaded H (L i) (xs i)

/-- A heap with one list. -/
theorem Holds.single {H : Links α} {l : Ends α} {xs : List α} (hn : (l.cells xs).Nodup)
    (ht : Threaded H l xs) : Holds H (fun _ : Unit => l) fun _ => xs :=
  ⟨⟨fun _ => hn, fun _ _ hij => absurd rfl hij⟩, fun _ => ht⟩

/-- `H'` has the links of `H` outside the cells `l`. -/
def Links.SameOff (H H' : Links α) (l : List α) : Prop :=
  ∀ x, x ∉ l → H'.next x = H.next x ∧ H'.prev x = H.prev x

theorem Links.SameOff.trans {H H' H'' : Links α} {l : List α} (h₁ : H.SameOff H' l)
    (h₂ : H'.SameOff H'' l) : H.SameOff H'' l := fun x hx =>
  ⟨(h₂ x hx).1.trans (h₁ x hx).1, (h₂ x hx).2.trans (h₁ x hx).2⟩

theorem Links.SameOff.mono {H H' : Links α} {l l' : List α} (h : H.SameOff H' l) (hl : l ⊆ l') :
    H.SameOff H' l' := fun x hx => h x fun hin => hx (hl hin)

/-! ## Paths -/

theorem chain_and {R S : α → α → Prop} {l : List α} :
    (l.IsChain fun x y => R x y ∧ S x y) ↔ l.IsChain R ∧ l.IsChain S := by
  simp only [List.isChain_iff_forall_rel_of_append_cons_cons]
  constructor
  · intro h
    exact ⟨fun a b l₁ l₂ he => (h he).1, fun a b l₁ l₂ he => (h he).2⟩
  · rintro ⟨hR, hS⟩ a b l₁ l₂ he
    exact ⟨hR he, hS he⟩

theorem threaded_iff {H : Links α} {l : Ends α} {xs : List α} :
    Threaded H l xs ↔ (l.cells xs).IsChain H.Joined ∧ H.prev l.head = none ∧
      H.next l.tail = none := by
  have hboth : (l.cells xs).IsChain H.Joined ↔
      ((l.cells xs).IsChain fun x y => H.next x = some y) ∧
        (l.cells xs).reverse.IsChain fun x y => H.prev x = some y := by
    rw [List.isChain_reverse]
    exact chain_and
  rw [hboth]
  constructor
  · intro h
    exact ⟨⟨h.forward, h.backward⟩, h.first, h.last⟩
  · rintro ⟨⟨hf, hb⟩, hfirst, hlast⟩
    exact ⟨hf, hb, hfirst, hlast⟩

/-- A path is kept if the links inside it are. -/
theorem chain_frame {H H' : Links α} : ∀ {l : List α}, l.IsChain H.Joined →
    (∀ x ∈ l.dropLast, H'.next x = H.next x) → (∀ x ∈ l.tail, H'.prev x = H.prev x) →
    l.IsChain H'.Joined
  | [], _, _, _ => .nil
  | [x], _, _, _ => .singleton x
  | x :: y :: l, h, hn, hp => by
      rw [List.isChain_cons_cons] at h ⊢
      have hjoin : H'.Joined x y :=
        ⟨(hn x (List.mem_cons_self ..)).trans h.1.1, (hp y (List.mem_cons_self ..)).trans h.1.2⟩
      refine ⟨hjoin, chain_frame h.2 (fun z hz => hn z ?_) fun z hz => hp z ?_⟩
      · exact List.mem_cons_of_mem _ hz
      · exact List.mem_cons_of_mem _ hz

/-- Two heaps in which a path is the same agree inside it. -/
theorem chain_links {H H' : Links α} : ∀ {l : List α}, l.IsChain H.Joined →
    l.IsChain H'.Joined →
    (∀ x ∈ l.dropLast, H'.next x = H.next x) ∧ ∀ x ∈ l.tail, H'.prev x = H.prev x
  | [], _, _ => ⟨fun _ hx => (nomatch hx), fun _ hx => (nomatch hx)⟩
  | [_], _, _ => ⟨fun _ hx => (nomatch hx), fun _ hx => (nomatch hx)⟩
  | x :: y :: l, h, h' => by
      rw [List.isChain_cons_cons] at h h'
      obtain ⟨hnext, hprev⟩ := chain_links h.2 h'.2
      refine ⟨fun z hz => ?_, fun z hz => ?_⟩
      · rcases List.mem_cons.mp hz with rfl | hz
        · exact h'.1.1.trans h.1.1.symm
        · exact hnext z hz
      · rcases List.mem_cons.mp hz with rfl | hz
        · exact h'.1.2.trans h.1.2.symm
        · exact hprev z hz

/-! ## Taking a range out and putting one in -/

/-- The cells of a path with a range in it, apart. -/
theorem nodup_range {p q : α} {l₁ l₂ ms : List α} (h : (l₁ ++ p :: (ms ++ q :: l₂)).Nodup) :
    (p ∉ l₁ ∧ p ∉ ms ∧ p ≠ q ∧ p ∉ l₂) ∧ (q ∉ l₁ ∧ q ∉ ms ∧ q ∉ l₂) ∧
      ms.Nodup ∧ ms.Disjoint l₁ ∧ ms.Disjoint l₂ := by
  simp only [List.nodup_append, List.nodup_cons, List.mem_append, List.mem_cons, not_or] at h
  obtain ⟨-, ⟨⟨hpm, hpq, hpl⟩, hms, ⟨hql, -⟩, hmq⟩, hl⟩ := h
  refine ⟨⟨fun hp => hl p hp p (.inl rfl) rfl, hpm, hpq, hpl⟩,
    ⟨fun hq => hl q hq q (.inr (.inr (.inl rfl))) rfl, fun hq => hmq q hq q (.inl rfl) rfl, hql⟩,
    hms, ?_, ?_⟩
  · exact fun x hx hx' => hl x hx' x (.inr (.inl hx)) rfl
  · exact fun x hx hx' => hmq x hx x (.inr hx') rfl

theorem head_notMem_tail {a : α} {l : List α} (h : l.Nodup) (ha : l.head? = some a) :
    a ∉ l.tail := by
  cases l with
  | nil => cases ha
  | cons x l =>
      cases ha
      exact (List.nodup_cons.mp h).1

theorem last_notMem_dropLast {b : α} {l : List α} (h : l.Nodup) (hb : l.getLast? = some b) :
    b ∉ l.dropLast := by
  obtain ⟨l, rfl⟩ := List.getLast?_eq_some_iff.mp hb
  rw [List.dropLast_concat]
  exact fun hm => (List.nodup_append.mp h).2.2 b hm b (List.mem_singleton_self b) rfl

section Writes

variable [DecidableEq α]

/-- `a->next = v`. -/
def Links.setNext (H : Links α) (a : α) (v : Option α) : Links α :=
  { H with next := Function.update H.next a v }

/-- `a->prev = v`. -/
def Links.setPrev (H : Links α) (a : α) (v : Option α) : Links α :=
  { H with prev := Function.update H.prev a v }

/-- `p` and `q` joined to each other. -/
def Links.bypass (H : Links α) (p q : α) : Links α := (H.setNext p (some q)).setPrev q (some p)

/-- The range from `a` to `b` put between `p` and `q`. -/
def Links.enclose (H : Links α) (p q a b : α) : Links α :=
  (((H.setPrev a (some p)).setNext b (some q)).setNext p (some a)).setPrev q (some b)

/-- The two ends joined to each other, with nothing outside them. -/
def Links.reset (H : Links α) (l : Ends α) : Links α :=
  (((H.setPrev l.head none).setNext l.head (some l.tail)).setPrev l.tail (some l.head)).setNext
    l.tail none

variable {H : Links α} {p q a b : α} {l₁ l₂ ms : List α}

theorem bypass_next (x : α) :
    (H.bypass p q).next x = if x = p then some q else H.next x :=
  Function.update_apply ..

theorem bypass_prev (x : α) :
    (H.bypass p q).prev x = if x = q then some p else H.prev x :=
  Function.update_apply ..

theorem enclose_next (x : α) : (H.enclose p q a b).next x =
    if x = p then some a else if x = b then some q else H.next x := by
  show Function.update (Function.update H.next b (some q)) p (some a) x = _
  rw [Function.update_apply, Function.update_apply]

theorem enclose_prev (x : α) : (H.enclose p q a b).prev x =
    if x = q then some b else if x = a then some p else H.prev x := by
  show Function.update (Function.update H.prev a (some p)) q (some b) x = _
  rw [Function.update_apply, Function.update_apply]

/-- A path that does not meet the cells written is kept. -/
theorem chain_bypass_off {l : List α} (h : l.IsChain H.Joined) (hp : p ∉ l.dropLast)
    (hq : q ∉ l.tail) : l.IsChain (H.bypass p q).Joined := by
  refine chain_frame h (fun x hx => ?_) fun x hx => ?_
  · rw [bypass_next, if_neg]
    rintro rfl
    exact hp hx
  · rw [bypass_prev, if_neg]
    rintro rfl
    exact hq hx

theorem chain_enclose_off {l : List α} (h : l.IsChain H.Joined) (hp : p ∉ l.dropLast)
    (hb : b ∉ l.dropLast) (hq : q ∉ l.tail) (ha : a ∉ l.tail) :
    l.IsChain (H.enclose p q a b).Joined := by
  refine chain_frame h (fun x hx => ?_) fun x hx => ?_
  · rw [enclose_next, if_neg, if_neg]
    · rintro rfl
      exact hb hx
    · rintro rfl
      exact hp hx
  · rw [enclose_prev, if_neg, if_neg]
    · rintro rfl
      exact ha hx
    · rintro rfl
      exact hq hx

theorem chain_bypass (h : (l₁ ++ p :: (ms ++ q :: l₂)).IsChain H.Joined)
    (hn : (l₁ ++ p :: (ms ++ q :: l₂)).Nodup) :
    (l₁ ++ p :: q :: l₂).IsChain (H.bypass p q).Joined ∧ ms.IsChain (H.bypass p q).Joined := by
  obtain ⟨⟨hp₁, hpm, hpq, hp₂⟩, ⟨hq₁, hqm, hq₂⟩, -⟩ := nodup_range hn
  have hsplit := List.isChain_split.mp h
  have hright : (q :: l₂).IsChain H.Joined := (hsplit.2.tail).right_of_append
  have hmid : ms.IsChain H.Joined := (hsplit.2.tail).left_of_append
  refine ⟨?_, ?_⟩
  · rw [List.isChain_append_cons_cons]
    refine ⟨chain_bypass_off hsplit.1 ?_ ?_, ⟨?_, ?_⟩, chain_bypass_off hright ?_ hq₂⟩
    · rwa [List.dropLast_concat]
    · intro hq
      rcases List.mem_append.mp (List.mem_of_mem_tail hq) with hq | hq
      · exact hq₁ hq
      · exact hpq (List.mem_singleton.mp hq).symm
    · rw [bypass_next, if_pos rfl]
    · rw [bypass_prev, if_pos rfl]
    · intro hp
      rcases List.mem_cons.mp (List.dropLast_subset _ hp) with hp | hp
      · exact hpq hp
      · exact hp₂ hp
  · exact chain_bypass_off hmid (fun hp => hpm (List.dropLast_subset _ hp))
      fun hq => hqm (List.mem_of_mem_tail hq)

theorem chain_enclose (h : (l₁ ++ p :: q :: l₂).IsChain H.Joined) (hm : ms.IsChain H.Joined)
    (hn : (l₁ ++ p :: (ms ++ q :: l₂)).Nodup) (ha : ms.head? = some a)
    (hb : ms.getLast? = some b) :
    (l₁ ++ p :: (ms ++ q :: l₂)).IsChain (H.enclose p q a b).Joined := by
  obtain ⟨⟨hp₁, hpm, hpq, hp₂⟩, ⟨hq₁, hqm, hq₂⟩, hms, hd₁, hd₂⟩ := nodup_range hn
  rw [List.isChain_append_cons_cons] at h
  have ham : a ∈ ms := List.mem_of_mem_head? ha
  have hbm : b ∈ ms := List.mem_of_mem_getLast? hb
  have hleft : (l₁ ++ [p]).IsChain (H.enclose p q a b).Joined := by
    refine chain_enclose_off h.1 ?_ ?_ (fun hq => ?_) fun ha => ?_
    · rwa [List.dropLast_concat]
    · rw [List.dropLast_concat]
      exact hd₁ hbm
    · rcases List.mem_append.mp (List.mem_of_mem_tail hq) with hq | hq
      · exact hq₁ hq
      · exact hpq (List.mem_singleton.mp hq).symm
    · rcases List.mem_append.mp (List.mem_of_mem_tail ha) with ha | ha
      · exact hd₁ ham ha
      · exact hpm (List.mem_singleton.mp ha ▸ ham)
  have hright : (q :: l₂).IsChain (H.enclose p q a b).Joined := by
    refine chain_enclose_off h.2.2 (fun hp => ?_) (fun hb => ?_) hq₂ (hd₂ ham)
    · rcases List.mem_cons.mp (List.dropLast_subset _ hp) with hp | hp
      · exact hpq hp
      · exact hp₂ hp
    · rcases List.mem_cons.mp (List.dropLast_subset _ hb) with hb | hb
      · rw [hb] at hbm
        exact hqm hbm
      · exact hd₂ hbm hb
  have hmid : ms.IsChain (H.enclose p q a b).Joined :=
    chain_enclose_off hm (fun hp => hpm (List.dropLast_subset _ hp)) (last_notMem_dropLast hms hb)
      (fun hq => hqm (List.mem_of_mem_tail hq)) (head_notMem_tail hms ha)
  have hqa : a ≠ q := fun he => hqm (he ▸ ham)
  have hpb : b ≠ p := fun he => hpm (he ▸ hbm)
  have hend : (ms ++ q :: l₂).IsChain (H.enclose p q a b).Joined := by
    refine hmid.append hright fun x hx y hy => ?_
    cases hb.symm.trans hx
    cases hy
    exact ⟨by rw [enclose_next, if_neg hpb, if_pos rfl], by rw [enclose_prev, if_pos rfl]⟩
  rw [List.append_cons]
  refine hleft.append hend fun x hx y hy => ?_
  rw [List.getLast?_concat] at hx
  rw [List.head?_append, ha] at hy
  cases hx
  cases hy
  exact ⟨by rw [enclose_next, if_pos rfl], by rw [enclose_prev, if_neg hqa, if_pos rfl]⟩

theorem sameOff_bypass {l : List α} (hp : p ∈ l) (hq : q ∈ l) : H.SameOff (H.bypass p q) l := by
  intro x hx
  rw [bypass_next, bypass_prev, if_neg, if_neg]
  · exact ⟨rfl, rfl⟩
  · rintro rfl
    exact hx hq
  · rintro rfl
    exact hx hp

theorem sameOff_enclose {l : List α} (hp : p ∈ l) (hq : q ∈ l) (ha : a ∈ l) (hb : b ∈ l) :
    H.SameOff (H.enclose p q a b) l := by
  intro x hx
  rw [enclose_next, enclose_prev, if_neg, if_neg, if_neg, if_neg]
  · exact ⟨rfl, rfl⟩
  all_goals
    rintro rfl
    contradiction

theorem sameOff_reset (H : Links α) (l : Ends α) : H.SameOff (H.reset l) (l.cells []) := by
  intro x hx
  have hhead : x ≠ l.head := fun he => hx (he ▸ List.mem_cons_self ..)
  have htail : x ≠ l.tail := fun he =>
    hx (he ▸ List.mem_cons_of_mem _ (List.mem_singleton_self _))
  simp [Links.reset, Links.setNext, Links.setPrev, hhead, htail]

/-- The two links of every cell of `cs` exchanged. -/
def Links.flip (H : Links α) (cs : List α) : Links α where
  next x := if x ∈ cs then H.prev x else H.next x
  prev x := if x ∈ cs then H.next x else H.prev x

theorem flip_next {cs : List α} {x : α} (hx : x ∈ cs) : (H.flip cs).next x = H.prev x := if_pos hx

theorem flip_prev {cs : List α} {x : α} (hx : x ∈ cs) : (H.flip cs).prev x = H.next x := if_pos hx

theorem sameOff_flip (H : Links α) (cs : List α) : H.SameOff (H.flip cs) cs :=
  fun _ hx => ⟨if_neg hx, if_neg hx⟩

/-- One cell more. -/
theorem flip_concat (H : Links α) (cs : List α) (e : α) :
    ((H.flip cs).setPrev e (H.next e)).setNext e (H.prev e) = H.flip (cs ++ [e]) := by
  refine Links.ext ?_ ?_
  · funext x
    by_cases hx : x = e <;> simp [Links.setNext, Links.setPrev, Links.flip, hx]
  · funext x
    by_cases hx : x = e <;> simp [Links.setNext, Links.setPrev, Links.flip, hx]

/-- A path read backwards. -/
theorem chain_flip (h : ms.IsChain H.Joined) : ms.reverse.IsChain (H.flip ms).Joined := by
  rw [List.isChain_reverse]
  have hin : ms.IsChain fun x y => H.Joined x y ∧ x ∈ ms ∧ y ∈ ms :=
    List.isChain_iff_forall_rel_of_append_cons_cons.mpr fun {a b l₁ l₂} he =>
      ⟨List.isChain_iff_forall_rel_of_append_cons_cons.mp h he, by simp [he], by simp [he]⟩
  refine hin.imp fun x y ⟨⟨hnext, hprev⟩, hx, hy⟩ => ⟨?_, ?_⟩
  · rw [flip_next hy, hprev]
  · rw [flip_prev hx, hnext]

end Writes

/-! ## Families of lists -/

/-- The cells of a range that is in no list. -/
structure Loose (L : ι → Ends α) (xs : ι → List α) (ms : List α) : Prop where
  nodup : ms.Nodup
  disjoint : ∀ i, ms.Disjoint ((L i).cells (xs i))

section Ends

variable {l : Ends α} {ys zs : List α} {p q : α}

theorem Ends.at_some (l : Ends α) (zs : List α) : ∃ q, l.at zs = some q := by
  cases zs with
  | nil => exact ⟨l.tail, rfl⟩
  | cons z zs => exact ⟨z, rfl⟩

theorem Ends.upTo_some (l : Ends α) (ys : List α) : ∃ p, l.upTo ys = some p := by
  cases h : l.upTo ys with
  | none => exact absurd h (by simp [Ends.upTo])
  | some p => exact ⟨p, rfl⟩

@[simp]
theorem Ends.at_cons (l : Ends α) (z : α) (zs : List α) : l.at (z :: zs) = some z := rfl

@[simp]
theorem Ends.at_nil (l : Ends α) : l.at [] = some l.tail := rfl

@[simp]
theorem Ends.upTo_nil (l : Ends α) : l.upTo [] = some l.head := rfl

@[simp]
theorem Ends.upTo_concat (l : Ends α) (ys : List α) (y : α) : l.upTo (ys ++ [y]) = some y := by
  rw [Ends.upTo, ← List.cons_append, List.getLast?_concat]

/-- The cells of a list, cut in two. -/
theorem Ends.cells_append (l : Ends α) (ys zs : List α) :
    l.cells (ys ++ zs) = (l.head :: ys) ++ (zs ++ [l.tail]) := by
  rw [Ends.cells, List.append_assoc, List.cons_append]

/-- The cells of a list, cut at a range. -/
theorem Ends.cells_split (hp : l.upTo ys = some p) (hq : l.at zs = some q) :
    ∃ l₁ l₂, l.head :: ys = l₁ ++ [p] ∧ zs ++ [l.tail] = q :: l₂ ∧
      ∀ ms, l.cells (ys ++ ms ++ zs) = l₁ ++ p :: (ms ++ q :: l₂) := by
  obtain ⟨l₁, h₁⟩ := List.getLast?_eq_some_iff.mp hp
  obtain ⟨l₂, h₂⟩ := List.head?_eq_some_iff.mp hq
  refine ⟨l₁, l₂, h₁, h₂, fun ms => ?_⟩
  calc l.cells (ys ++ ms ++ zs)
      = (l.head :: ys) ++ (ms ++ (zs ++ [l.tail])) := by
        rw [List.append_assoc, l.cells_append, List.append_assoc]
    _ = l₁ ++ p :: (ms ++ q :: l₂) := by rw [h₁, h₂, List.append_cons l₁ p (ms ++ q :: l₂)]

theorem Ends.upTo_mem (hp : l.upTo ys = some p) (zs : List α) : p ∈ l.cells (ys ++ zs) := by
  have hmem : p ∈ l.head :: ys := List.mem_of_mem_getLast? hp
  rw [l.cells_append]
  exact List.mem_append_left _ hmem

theorem Ends.at_mem (hq : l.at zs = some q) (ys : List α) : q ∈ l.cells (ys ++ zs) := by
  have hmem : q ∈ zs ++ [l.tail] := List.mem_of_mem_head? hq
  rw [l.cells_append]
  exact List.mem_append_right _ hmem

theorem Ends.cells_sublist {xs xs' : List α} (h : xs'.Sublist xs) :
    (l.cells xs').Sublist (l.cells xs) :=
  (h.append_right _).cons_cons _

theorem Ends.cells_subset_of_perm {xs xs' : List α} (h : xs'.Perm xs) :
    l.cells xs' ⊆ l.cells xs :=
  ((h.append_right [l.tail]).cons l.head).subset

theorem Ends.cells_perm (ys ms zs : List α) :
    (l.cells (ys ++ ms ++ zs)).Perm (ms ++ l.cells (ys ++ zs)) := by
  rw [List.append_assoc, l.cells_append, l.cells_append, List.append_assoc]
  exact List.perm_append_comm_assoc (l.head :: ys) ms (zs ++ [l.tail])

/-- A list that has no cell among those written. -/
theorem Threaded.sameOff {H H' : Links α} {vs cs : List α} (h : Threaded H l vs)
    (hs : H.SameOff H' cs) (hd : ∀ x ∈ l.cells vs, x ∉ cs) : Threaded H' l vs := by
  obtain ⟨hchain, hfirst, hlast⟩ := threaded_iff.mp h
  have hhead : l.head ∈ l.cells vs := List.mem_cons_self ..
  have htail : l.tail ∈ l.cells vs :=
    List.mem_cons_of_mem _ (List.mem_append_right _ (List.mem_singleton_self _))
  refine threaded_iff.mpr ⟨chain_frame hchain (fun x hx => ?_) (fun x hx => ?_), ?_, ?_⟩
  · exact (hs x (hd x (List.dropLast_subset _ hx))).1
  · exact (hs x (hd x (List.mem_of_mem_tail hx))).2
  · exact (hs _ (hd _ hhead)).2.trans hfirst
  · exact (hs _ (hd _ htail)).1.trans hlast

/-- The ends of a list are none of its elements. -/
theorem Ends.notMem {vs : List α} (h : (l.cells vs).Nodup) : l.head ∉ vs ∧ l.tail ∉ vs := by
  obtain ⟨hhead, htail⟩ := List.nodup_cons.mp h
  refine ⟨fun hin => hhead (List.mem_append_left _ hin), fun hin => ?_⟩
  exact (List.nodup_append.mp htail).2.2 _ hin _ (List.mem_singleton_self _) rfl

/-- The links of a list are told by its sequence. -/
theorem Threaded.links {H H' : Links α} {vs : List α} {x : α} (h : Threaded H l vs)
    (h' : Threaded H' l vs) (hx : x ∈ l.cells vs) :
    H'.next x = H.next x ∧ H'.prev x = H.prev x := by
  obtain ⟨hchain, hfirst, hlast⟩ := threaded_iff.mp h
  obtain ⟨hchain', hfirst', hlast'⟩ := threaded_iff.mp h'
  obtain ⟨hnext, hprev⟩ := chain_links hchain hchain'
  have hdrop : (l.cells vs).dropLast = l.head :: vs := by
    rw [Ends.cells, ← List.cons_append, List.dropLast_concat]
  constructor
  · rw [Ends.cells, ← List.cons_append] at hx
    rcases List.mem_append.mp hx with hx | hx
    · exact hnext x (hdrop ▸ hx)
    · rw [List.mem_singleton.mp hx, hlast, hlast']
  · rcases List.mem_cons.mp hx with rfl | hx
    · rw [hfirst, hfirst']
    · exact hprev x hx

/-- The ends of a list are not inside it. -/
theorem ends_ne (hn : (l.cells (ys ++ zs)).Nodup) (hp : l.upTo ys = some p)
    (hq : l.at zs = some q) : l.head ≠ q ∧ l.tail ≠ p := by
  rw [l.cells_append] at hn
  have hsep := (List.nodup_append.mp hn).2.2
  refine ⟨fun he => ?_, fun he => ?_⟩
  · exact hsep l.head (List.mem_cons_self ..) q (List.mem_of_mem_head? hq) he
  · exact hsep p (List.mem_of_mem_getLast? hp) l.tail
      (List.mem_append_right _ (List.mem_singleton_self _)) he.symm

/-- Two places of a list are the same only if nothing lies between them. -/
theorem Ends.at_append_eq {ms : List α} (h : (l.cells (ys ++ (ms ++ zs))).Nodup) :
    l.at (ms ++ zs) = l.at zs ↔ ms = [] := by
  constructor
  · intro hat
    cases ms with
    | nil => rfl
    | cons m ms =>
        have hm : m ∈ zs ++ [l.tail] := List.mem_of_mem_head? hat.symm
        rw [l.cells_append, List.nodup_append, List.append_assoc, List.cons_append] at h
        exact absurd (List.mem_append_right ms hm) (List.nodup_cons.mp h.2.1).1
  · rintro rfl
    rfl

theorem Ends.at_eq_tail (h : (l.cells (ys ++ zs)).Nodup) :
    l.at zs = some l.tail ↔ zs = [] := by
  have h' : (l.cells (ys ++ (zs ++ []))).Nodup := by rwa [List.append_nil]
  have hiff := Ends.at_append_eq h'
  rwa [List.append_nil, Ends.at_nil] at hiff

end Ends

section Families

variable [DecidableEq ι] {L : ι → Ends α} {xs : ι → List α} {i j : ι} {ys ms zs : List α}

omit [DecidableEq ι] in
theorem Apart.sublist (h : Apart L xs) {xs' : ι → List α} (hs : ∀ i, (xs' i).Sublist (xs i)) :
    Apart L xs' where
  nodup i := (h.nodup i).sublist (Ends.cells_sublist (hs i))
  disjoint i j hij _ hx hx' := h.disjoint i j hij ((Ends.cells_sublist (hs i)).subset hx)
    ((Ends.cells_sublist (hs j)).subset hx')

/-- The cells of one list of a family, after an update of the other. -/
theorem update_cells (k : ι) (vs : List α) : (L k).cells (Function.update xs j vs k) =
    if k = j then (L k).cells vs else (L k).cells (xs k) := by
  rw [Function.update_apply]
  split_ifs <;> rfl

/-- A list that is cut takes in no new cell. -/
theorem update_cells_subset (hs : zs.Sublist (xs j)) (k : ι) :
    (L k).cells (Function.update xs j zs k) ⊆ (L k).cells (xs k) := by
  rw [update_cells]
  split_ifs with hk
  · rw [hk]
    exact (Ends.cells_sublist hs).subset
  · exact List.Subset.refl _

/-- A range taken out of a list. -/
theorem Apart.cut (h : Apart L xs) (hx : xs j = ys ++ ms ++ zs) :
    Apart L (Function.update xs j (ys ++ zs)) ∧ Loose L (Function.update xs j (ys ++ zs)) ms := by
  have hperm := (L j).cells_perm ys ms zs
  have hnodup : (ms ++ (L j).cells (ys ++ zs)).Nodup := hperm.nodup_iff.mp (hx ▸ h.nodup j)
  refine ⟨h.sublist fun k => ?_, (List.nodup_append.mp hnodup).1, fun k x hm hc => ?_⟩
  · rw [Function.update_apply]
    split_ifs with hk
    · rw [hk, hx]
      exact (List.sublist_append_left ys ms).append_right zs
    · exact List.Sublist.refl _
  · rw [update_cells] at hc
    split_ifs at hc with hk
    · rw [hk] at hc
      exact (List.nodup_append.mp hnodup).2.2 x hm x hc rfl
    · have hin : x ∈ (L j).cells (xs j) := by
        rw [hx]
        exact hperm.mem_iff.mpr (List.mem_append_left _ hm)
      exact h.disjoint k j hk hc hin

/-- A range put into a list. -/
theorem Apart.paste (h : Apart L xs) (hx : xs i = ys ++ zs) (hm : Loose L xs ms) :
    Apart L (Function.update xs i (ys ++ ms ++ zs)) := by
  have hperm := (L i).cells_perm ys ms zs
  have hcells : ∀ {x}, x ∈ (L i).cells (ys ++ ms ++ zs) → x ∈ ms ∨ x ∈ (L i).cells (xs i) := by
    intro x hin
    rw [hx]
    exact List.mem_append.mp (hperm.mem_iff.mp hin)
  have hout : ∀ {x k}, x ∈ (L i).cells (ys ++ ms ++ zs) → k ≠ i → x ∉ (L k).cells (xs k) := by
    intro x k hin hk hin'
    rcases hcells hin with hms | hin
    · exact hm.disjoint k hms hin'
    · exact h.disjoint k i hk hin' hin
  refine ⟨fun k => ?_, fun k k' hkk x hc hc' => ?_⟩
  · rw [update_cells]
    split_ifs with hk
    · rw [hk, hperm.nodup_iff, List.nodup_append]
      refine ⟨hm.nodup, hx ▸ h.nodup i, fun x hms y hc => ?_⟩
      rintro rfl
      exact hm.disjoint i hms (hx.symm ▸ hc)
    · exact h.nodup k
  · rw [update_cells] at hc hc'
    split_ifs at hc hc' with hk hk' hk'
    · exact hkk (hk.trans hk'.symm)
    · exact hout (hk ▸ hc) hk' hc'
    · exact hout (hk' ▸ hc') hk hc
    · exact h.disjoint k k' hkk hc hc'

end Families

/-! ## What the two operations do to a family -/

section Operations

variable [DecidableEq α] [DecidableEq ι] {H : Links α} {L : ι → Ends α} {xs : ι → List α}
  {i j : ι} {ys ms zs : List α} {p q a b : α}

omit [DecidableEq α] [DecidableEq ι] in
/-- Where a list is cut, the two sides are joined. -/
theorem Holds.joined (h : Holds H L xs) (hx : xs i = ys ++ zs) (hp : (L i).upTo ys = some p)
    (hq : (L i).at zs = some q) : H.Joined p q := by
  obtain ⟨l₁, l₂, -, -, hcells⟩ := Ends.cells_split hp hq
  have hchain := (threaded_iff.mp (h.threaded i)).1
  have hcut : (L i).cells (ys ++ zs) = l₁ ++ p :: q :: l₂ := by
    simpa using hcells []
  rw [hx, hcut, List.isChain_append_cons_cons] at hchain
  exact hchain.2.1

omit [DecidableEq α] [DecidableEq ι] in
/-- An element is not a place further on. -/
theorem Holds.at_ne {m : α} (h : Holds H L xs) (hx : xs i = ys ++ (m :: ms ++ zs)) :
    some m ≠ (L i).at zs := by
  intro he
  have hn := h.apart.nodup i
  rw [hx] at hn
  exact List.cons_ne_nil m ms ((Ends.at_append_eq hn).mp he)

omit [DecidableEq α] [DecidableEq ι] in
theorem Holds.ne_tail {m : α} (h : Holds H L xs) (hx : xs i = ys ++ m :: zs) :
    some m ≠ some (L i).tail := by
  have hx' : xs i = ys ++ (m :: zs ++ []) := by rwa [List.append_nil]
  exact h.at_ne hx'

/-- The list `i` is made empty, whatever its ends held. -/
theorem Holds.reset (ha : Apart L (Function.update xs i []))
    (ht : ∀ k, k ≠ i → Threaded H (L k) (xs k)) :
    Holds (H.reset (L i)) L (Function.update xs i []) := by
  have hne : (L i).head ≠ (L i).tail := by
    have hn := ha.nodup i
    rw [Function.update_self] at hn
    exact fun he => (List.nodup_cons.mp hn).1 (he ▸ List.mem_singleton_self _)
  refine ⟨ha, fun k => ?_⟩
  by_cases hk : k = i
  · subst hk
    rw [Function.update_self]
    refine threaded_iff.mpr ⟨?_, ?_, ?_⟩
    · refine List.isChain_pair.mpr ⟨?_, ?_⟩
      · simp [Links.reset, Links.setNext, Links.setPrev, hne]
      · simp [Links.reset, Links.setNext, Links.setPrev]
    · simp [Links.reset, Links.setNext, Links.setPrev, hne]
    · simp [Links.reset, Links.setNext, Links.setPrev]
  · rw [Function.update_of_ne hk]
    refine (ht k hk).sameOff (sameOff_reset _ _) fun x hin hin' => ?_
    have hd := ha.disjoint k i hk
    rw [Function.update_of_ne hk, Function.update_self] at hd
    exact hd hin hin'

/-- The range `ms` is taken out of the list `j`. -/
theorem Holds.bypass (h : Holds H L xs) (hx : xs j = ys ++ ms ++ zs)
    (hp : (L j).upTo ys = some p) (hq : (L j).at zs = some q) :
    Holds (H.bypass p q) L (Function.update xs j (ys ++ zs)) ∧
      ms.IsChain (H.bypass p q).Joined ∧ Loose L (Function.update xs j (ys ++ zs)) ms := by
  obtain ⟨hapart, hloose⟩ := h.apart.cut hx
  obtain ⟨l₁, l₂, -, -, hcells⟩ := Ends.cells_split hp hq
  obtain ⟨hchain, hfirst, hlast⟩ := threaded_iff.mp (h.threaded j)
  have hnodup := h.apart.nodup j
  rw [hx] at hchain hnodup
  rw [hcells] at hchain hnodup
  obtain ⟨hout, hin⟩ := chain_bypass hchain hnodup
  have hcut : (L j).cells (ys ++ zs) = l₁ ++ p :: q :: l₂ := by
    simpa using hcells []
  have hn : ((L j).cells (ys ++ zs)).Nodup := by
    have := hapart.nodup j
    rwa [Function.update_self] at this
  obtain ⟨hhead, htail⟩ := ends_ne hn hp hq
  refine ⟨⟨hapart, fun k => ?_⟩, hin, hloose⟩
  by_cases hk : k = j
  · subst hk
    rw [Function.update_self]
    refine threaded_iff.mpr ⟨hcut ▸ hout, ?_, ?_⟩
    · rw [bypass_prev, if_neg hhead]
      exact hfirst
    · rw [bypass_next, if_neg htail]
      exact hlast
  · rw [Function.update_of_ne hk]
    refine (h.threaded k).sameOff (sameOff_bypass ((L j).upTo_mem hp zs) ((L j).at_mem hq ys)) ?_
    intro x hin hin'
    have hd := hapart.disjoint k j hk
    rw [Function.update_of_ne hk, Function.update_self] at hd
    exact hd hin hin'

/-- The range `ms`, in no list so far, is put into the list `i`. -/
theorem Holds.enclose (h : Holds H L xs) (hx : xs i = ys ++ zs) (hm : ms.IsChain H.Joined)
    (hl : Loose L xs ms) (hp : (L i).upTo ys = some p) (hq : (L i).at zs = some q)
    (ha : ms.head? = some a) (hb : ms.getLast? = some b) :
    Holds (H.enclose p q a b) L (Function.update xs i (ys ++ ms ++ zs)) := by
  have hapart := h.apart.paste hx hl
  obtain ⟨l₁, l₂, -, -, hcells⟩ := Ends.cells_split hp hq
  obtain ⟨hchain, hfirst, hlast⟩ := threaded_iff.mp (h.threaded i)
  have hcut : (L i).cells (ys ++ zs) = l₁ ++ p :: q :: l₂ := by
    simpa using hcells []
  have hn : ((L i).cells (ys ++ ms ++ zs)).Nodup := by
    have := hapart.nodup i
    rwa [Function.update_self] at this
  have hnodup := h.apart.nodup i
  rw [hx] at hchain hnodup
  obtain ⟨hhead, htail⟩ := ends_ne hnodup hp hq
  have hout : ((L i).cells (ys ++ ms ++ zs)).IsChain (H.enclose p q a b).Joined := by
    rw [hcells]
    rw [hcells] at hn
    exact chain_enclose (hcut ▸ hchain) hm hn ha hb
  have hmem : ∀ {x}, x ∈ ms → x ∈ (L i).cells (ys ++ ms ++ zs) := fun hx =>
    ((L i).cells_perm ys ms zs).mem_iff.mpr (List.mem_append_left _ hx)
  have ham := List.mem_of_mem_head? ha
  have hbm := List.mem_of_mem_getLast? hb
  refine ⟨hapart, fun k => ?_⟩
  by_cases hk : k = i
  · subst hk
    rw [Function.update_self]
    have hmh : (L k).head ≠ a := by
      rintro rfl
      exact hl.disjoint k ham (List.mem_cons_self ..)
    have hmt : (L k).tail ≠ b := by
      rintro rfl
      exact hl.disjoint k hbm
        (List.mem_cons_of_mem _ (List.mem_append_right _ (List.mem_singleton_self _)))
    refine threaded_iff.mpr ⟨hout, ?_, ?_⟩
    · rw [enclose_prev, if_neg hhead, if_neg hmh]
      exact hfirst
    · rw [enclose_next, if_neg htail, if_neg hmt]
      exact hlast
  · rw [Function.update_of_ne hk]
    have hpi : p ∈ (L i).cells (ys ++ ms ++ zs) := by
      rw [List.append_assoc]
      exact (L i).upTo_mem hp _
    refine (h.threaded k).sameOff (sameOff_enclose hpi ((L i).at_mem hq _) (hmem ham) (hmem hbm)) ?_
    intro x hin hin'
    have hd := hapart.disjoint k i hk
    rw [Function.update_of_ne hk, Function.update_self] at hd
    exact hd hin hin'

omit [DecidableEq α] [DecidableEq ι] in
/-- A heap that differs in the cells of one list only, and holds the same sequence there, is the
same. -/
theorem Holds.eq_of_sameOff {H' : Links α} (h : Holds H L xs) (h' : Holds H' L xs)
    (hoff : H.SameOff H' ((L i).cells (xs i))) : H' = H := by
  have hlinks : ∀ x, H'.next x = H.next x ∧ H'.prev x = H.prev x := by
    intro x
    by_cases hx : x ∈ (L i).cells (xs i)
    · exact (h.threaded i).links (h'.threaded i) hx
    · exact hoff x hx
  exact Links.ext (funext fun x => (hlinks x).1) (funext fun x => (hlinks x).2)

omit [DecidableEq ι] in
/-- What is in no list may be turned round. -/
theorem Holds.flip (h : Holds H L xs) (hl : Loose L xs ms) : Holds (H.flip ms) L xs :=
  ⟨h.apart, fun k =>
    (h.threaded k).sameOff (sameOff_flip H ms) fun _ hx hm => hl.disjoint k hm hx⟩

/-- All elements of the list `i` taken out, turned round and put back. -/
theorem Holds.reverse (h : Holds H L xs) (ha : (xs i).head? = some a)
    (hb : (xs i).getLast? = some b) :
    Holds (((H.bypass (L i).head (L i).tail).flip (xs i)).enclose (L i).head (L i).tail b a) L
      (Function.update xs i (xs i).reverse) := by
  have hx : xs i = [] ++ xs i ++ [] := (List.append_nil _).symm
  obtain ⟨hout, hchain, hloose⟩ := h.bypass hx (Ends.upTo_nil _) (Ends.at_nil _)
  have hloose' : Loose L (Function.update xs i ([] ++ [])) (xs i).reverse :=
    ⟨List.nodup_reverse.mpr hloose.nodup,
      fun k x hm => hloose.disjoint k (List.mem_reverse.mp hm)⟩
  have hempty : Function.update xs i ([] ++ []) i = [] ++ [] := Function.update_self ..
  have hin := (hout.flip hloose).enclose hempty (chain_flip hchain) hloose' (Ends.upTo_nil _)
    (Ends.at_nil _) (List.head?_reverse.trans hb) (List.getLast?_reverse.trans ha)
  rwa [Function.update_idem, List.nil_append, List.append_nil] at hin

end Operations

end LinkedSeq
