/-
# `PicoOS.Lists.Interrupted` — an interrupt in the middle of `list_remove`

`Lists.Code` takes a call of `list.c` as one step.  `thread_exit` removes the
current thread from `all_list` with interrupts enabled, and the callback of an
alarm appends to `all_list`.  Here `list_remove` is taken apart into its accesses
to memory, before each of which any number of handlers may append fresh elements
to any list.

The `list_pop_front` of `ready_list` in `schedule` runs with interrupts enabled as
well, on behalf of `thread_exit`.  But the current thread is `THREAD_DYING` there:
a handler that calls `thread_current` PANICs and does not return, so that no such
removal goes on after an append.

What comes of it depends on two things: whether the element was the last one when
its `next` was read, and what was appended afterwards, before the link to it was
overwritten.  If it was not the last one the interrupts do no harm.  If it was,
the elements appended in between are not in the list any more.  As the source is
written `elem->next` is read a second time; if the first of those elements was
there by then, the two directions of the list disagree from then on (`Torn`).  As
it was compiled (`build/main.dis`) the value first read is used again, and the list
stays sound.

The proof is an outline of `list_remove` for the interleaved reading: at every
point the links are those of a sound heap, with every element in its list, but for
the writes done so far.  An append only writes at the end of a list, behind the
element that is removed, and commutes with them.
-/
import PicoOS.Lib.Interruptible
import PicoOS.Lists.Specs

namespace PicoOS.Lists

open Fallible Interruptible LinkedSeq Relation

/-! ## The accesses -/

/-- The accesses of `list_remove` to memory. -/
inductive Access where
  | isInterior
  | loadPrev
  | loadNext
  | storeNext
  | reloadNext
  | reloadPrev
  | storePrev
  | result
  deriving DecidableEq, Repr

/-- What the time of an append is told by: up to the first read of `elem->next`; up to the second
one; up to the last write; after it. -/
inductive Window where
  | before
  | between
  | closing
  | after
  deriving DecidableEq, Repr

/-- An interrupt before the access is one in the window. -/
def Access.window : Access → Window
  | .isInterior | .loadPrev | .loadNext => .before
  | .storeNext | .reloadNext => .between
  | .reloadPrev | .storePrev => .closing
  | .result => .after

section Code

variable {α ι β : Type} [DecidableEq α]

/-- A ghost: what has been appended to each list, window by window. -/
abbrev Appended (ι α : Type) := Window → ι → List α

/-- A program over the links in which interrupts may append. -/
abbrev Steps (α ι β : Type) := Prog (Links α × Appended ι α) Fault Access β

/-- An access. -/
def access (pc : Access) (p : Code α β) : Steps α ι β :=
  .stmt pc (fun s => (p s.1).map fun r => (r.1, (r.2, s.2))) .ret

/-- `list_remove (elem)`, access by access; `again` says whether `elem->next` is read again for the
second assignment. -/
def listRemoveSteps (again : Bool) (elem : Ptr α) : Steps α ι (Ptr α) := do
  access .isInterior (asserts "list_remove" "is_interior (elem)" fun H => isInterior H elem)
  let p ← access .loadPrev (prev elem)
  let n ← access .loadNext (next elem)
  access .storeNext (setNext p n)
  let n ← if again then access .reloadNext (next elem) else pure n
  let p ← access .reloadPrev (prev elem)
  access .storePrev (setPrev n p)
  access .result (next elem)

/-- Without interrupts, the program does what the call does. -/
def Plain (P : Steps α ι β) (p : Code α β) : Prop :=
  ∀ H G, P.run (H, G) = (p H).map fun r => (r.1, (r.2, G))

omit [DecidableEq α] in
theorem plain_access (pc : Access) (p : Code α β) : Plain (ι := ι) (access pc p) p := by
  intro H G
  cases hp : p H with
  | ok r => exact Prog.run_stmt_ok (by simp only [hp]; rfl)
  | error e => exact Prog.run_stmt_error (by simp only [hp]; rfl)

omit [DecidableEq α] in
theorem Plain.bind {γ : Type} {P : Steps α ι β} {p : Code α β} {K : β → Steps α ι γ}
    {k : β → Code α γ} (hP : Plain P p) (hK : ∀ b, Plain (K b) (k b)) :
    Plain (P >>= K) (p >>= k) := by
  intro H G
  have hrun := hP H G
  cases hp : p H with
  | ok r =>
      rw [hp] at hrun
      rw [Prog.run_bind_ok hrun, bind_ok hp]
      exact hK r.1 r.2 G
  | error e =>
      rw [hp] at hrun
      rw [Prog.run_bind_error hrun, bind_error hp]
      rfl

theorem plain_listRemove (elem : Ptr α) :
    Plain (ι := ι) (listRemoveSteps true elem) (listRemove elem) := by
  refine (plain_access _ _).bind fun _ => (plain_access _ _).bind fun p => ?_
  refine (plain_access _ _).bind fun n => (plain_access _ _).bind fun _ => ?_
  refine (plain_access _ _).bind fun n => (plain_access _ _).bind fun p => ?_
  exact (plain_access _ _).bind fun _ => plain_access _ _

end Code

/-! ## Appending -/

section Appending

variable {α ι : Type} [DecidableEq α] [DecidableEq ι]

/-- One element more. -/
def Appended.add (G : Appended ι α) (w : Window) (j : ι) (c : α) : Appended ι α := fun w' k =>
  if w' = w ∧ k = j then G w' k ++ [c] else G w' k

/-- The sequences, with what has been appended to them. -/
def arrived (xs : ι → List α) (G : Appended ι α) (k : ι) : List α :=
  xs k ++ G .before k ++ G .between k ++ G .closing k ++ G .after k

/-- The interrupts: `list_push_back` of a fresh element to any list. -/
def appends (L : ι → Ends α) (xs : ι → List α) :
    Source (Links α × Appended ι α) Fault Access (Window × ι × α) where
  enabled pc s i := i.1 = pc.window ∧ ∀ k, i.2.2 ∉ (L k).cells (arrived xs s.2 k)
  handle i s := (listPushBack (some (L i.2.1)) (some i.2.2) s.1).map fun r =>
    (r.2, s.2.add i.1 i.2.1 i.2.2)

variable {L : ι → Ends α} {xs : ι → List α} {H H₀ : Links α} {G : Appended ι α} {w : Window} {i j : ι}
  {ys zs : List α} {c e p q : α}

omit [DecidableEq ι] in
/-- An append writes behind the last cell. -/
theorem listPushBack_run {l : Ends α} (hq : H.prev l.tail = some q) (hc : l.tail ≠ c) :
    listPushBack (some l) (some c) H = .ok ((), H.enclose q l.tail c c) := by
  have hprev : ((H.setPrev c (some q)).setNext c (some l.tail)).prev l.tail = some q :=
    (Function.update_of_ne hc _ _).trans hq
  refine (bind_ok (listEnd_ok H l)).trans ?_
  unfold listInsert
  rw [bind_ok (asserts_ok (follows_ok hq)), bind_ok (asserts_ok rfl), bind_ok (prev_ok hq),
    bind_ok rfl, bind_ok rfl, bind_ok (prev_ok hprev), bind_ok rfl]
  rfl

omit [DecidableEq α] [DecidableEq ι] in
/-- The last cell of a list, before its tail. -/
theorem last_prev (h : Holds H L xs) (hq : (L j).upTo (xs j) = some q) :
    H.prev (L j).tail = some q := by
  have hx : xs j = xs j ++ [] := (List.append_nil _).symm
  exact (h.joined hx hq (Ends.at_nil _)).2

omit [DecidableEq α] [DecidableEq ι] in
theorem tail_mem (l : Ends α) (vs : List α) : l.tail ∈ l.cells vs :=
  List.mem_cons_of_mem _ (List.mem_append_right _ (List.mem_singleton_self _))

/-- The heap after an append. -/
theorem holds_append (h : Holds H L xs) (hq : (L j).upTo (xs j) = some q)
    (hc : ∀ k, c ∉ (L k).cells (xs k)) :
    Holds (H.enclose q (L j).tail c c) L (Function.update xs j (xs j ++ [c])) := by
  obtain ⟨H', hrun, hholds, -⟩ := listPushBack_leaves (i := j) h hc
  have hne : (L j).tail ≠ c := fun he => hc j (he ▸ tail_mem (L j) (xs j))
  cases (listPushBack_run (last_prev h hq) hne).symm.trans hrun
  exact hholds

/-- The later windows have not begun. -/
def Window.rank : Window → Nat
  | .before => 0
  | .between => 1
  | .closing => 2
  | .after => 3

/-- Nothing was appended after the window. -/
def Appended.Upto (G : Appended ι α) (w : Window) : Prop :=
  ∀ w', w.rank < w'.rank → ∀ k, G w' k = []

omit [DecidableEq α] in
theorem Appended.Upto.add (h : G.Upto w) (j : ι) (c : α) : (G.add w j c).Upto w := by
  intro w' hw k
  have hne : w' ≠ w := by
    rintro rfl
    exact absurd hw (Nat.lt_irrefl _)
  simp only [Appended.add, hne, false_and, if_false]
  exact h w' hw k

omit [DecidableEq α] [DecidableEq ι] in
theorem Appended.Upto.mono {w' : Window} (h : G.Upto w) (hw : w.rank ≤ w'.rank) : G.Upto w' :=
  fun v hv => h v (Nat.lt_of_le_of_lt hw hv)

omit [DecidableEq α] in
/-- Another window is as it was. -/
theorem Appended.add_of_ne {w' : Window} (hne : w' ≠ w) (j : ι) (c : α) (k : ι) :
    G.add w j c w' k = G w' k := by
  simp only [Appended.add, hne, false_and, if_false]

omit [DecidableEq α] in
theorem arrived_add (h : G.Upto w) (j : ι) (c : α) :
    arrived xs (G.add w j c) = Function.update (arrived xs G) j (arrived xs G j ++ [c]) := by
  funext k
  by_cases hk : k = j
  · subst hk
    rw [Function.update_self]
    cases w with
    | before =>
        simp [arrived, Appended.add, h .between (by decide), h .closing (by decide),
          h .after (by decide)]
    | between => simp [arrived, Appended.add, h .closing (by decide), h .after (by decide)]
    | closing => simp [arrived, Appended.add, h .after (by decide)]
    | after => simp [arrived, Appended.add]
  · rw [Function.update_of_ne hk]
    simp [arrived, Appended.add, hk]

/-! ## Assertions that appends keep -/

/-- What an assertion about a stretch of `list_remove` rests on: the links are those of a sound heap
with the sequences `seq`, but for the writes `write`. -/
structure Outline (L : ι → Ends α) (xs : ι → List α) (write : Links α → Links α)
    (seq : Appended ι α → ι → List α) (w : Window) (X : Appended ι α → Prop) : Prop where
  seqAdd : ∀ {G j c}, G.Upto w → seq (G.add w j c) = Function.update (seq G) j (seq G j ++ [c])
  fresh : ∀ {G c}, X G → (∀ k, c ∉ (L k).cells (arrived xs G k)) → ∀ k, c ∉ (L k).cells (seq G k)
  tail : ∀ {H G j}, Holds H L (seq G) → X G → (write H).prev (L j).tail = H.prev (L j).tail
  enclose : ∀ {H G j c q}, Holds H L (seq G) → X G → (L j).upTo (seq G j) = some q →
    (∀ k, c ∉ (L k).cells (seq G k)) →
    (write H).enclose q (L j).tail c c = write (H.enclose q (L j).tail c c)
  known : ∀ {G j c}, X G → X (G.add w j c)

/-- The assertion itself. -/
structure Over (L : ι → Ends α) (write : Links α → Links α) (seq : Appended ι α → ι → List α)
    (w : Window) (X : Appended ι α → Prop) (s : Links α × Appended ι α) : Prop where
  links : ∃ H₀, s.1 = write H₀ ∧ Holds H₀ L (seq s.2)
  upto : s.2.Upto w
  known : X s.2

variable {write : Links α → Links α} {seq : Appended ι α → ι → List α} {X : Appended ι α → Prop}
  {pc : Access}

theorem Outline.stable (O : Outline L xs write seq w X) (hpc : pc.window = w) :
    Stable (appends L xs) (fun _ => False) pc (Over L write seq w X) := by
  rintro ⟨H, G⟩ ⟨v, j, c⟩ ⟨⟨H₀, hlinks, hholds⟩, hupto, hX⟩ ⟨hv, hc⟩
  obtain rfl : v = w := hv.trans hpc
  have hseq := O.fresh hX hc
  obtain ⟨q, hq⟩ := (L j).upTo_some (seq G j)
  have hne : (L j).tail ≠ c := fun he => hseq j (he ▸ tail_mem (L j) (seq G j))
  have hrun : listPushBack (some (L j)) (some c) H =
      .ok ((), write (H₀.enclose q (L j).tail c c)) := by
    have hprev : H.prev (L j).tail = some q :=
      (congrArg (fun H => Links.prev H (L j).tail) hlinks).trans
        ((O.tail hholds hX).trans (last_prev hholds hq))
    rw [listPushBack_run hprev hne, ← O.enclose hholds hX hq hseq, ← hlinks]
  have hhandle : (appends L xs).handle (v, j, c) (H, G) =
      .ok (write (H₀.enclose q (L j).tail c c), G.add v j c) := by
    simp only [appends, hrun]
    rfl
  refine ⟨fun e he => ?_, fun s' hs' => ?_⟩
  · cases hhandle.symm.trans he
  · cases hhandle.symm.trans hs'
    refine ⟨⟨_, rfl, ?_⟩, hupto.add j c, O.known hX⟩
    rw [O.seqAdd hupto]
    exact holds_append hholds hq hseq

/-! ### The stretches of `list_remove` -/

omit [DecidableEq ι] in
theorem setNext_enclose {t : α} {n : Option α} (hpq : p ≠ q) (hpc : p ≠ c) :
    (H.setNext p n).enclose q t c c = (H.enclose q t c c).setNext p n := by
  refine Links.ext (funext fun x => ?_) rfl
  simp only [Links.enclose, Links.setNext, Links.setPrev, Function.update_apply]
  split_ifs with hq hc hp
  all_goals simp_all

omit [DecidableEq ι] in
theorem setPrev_enclose {a t : α} {v : Option α} (hat : a ≠ t) (hac : a ≠ c) :
    (H.setPrev a v).enclose q t c c = (H.enclose q t c c).setPrev a v := by
  refine Links.ext rfl (funext fun x => ?_)
  simp only [Links.enclose, Links.setNext, Links.setPrev, Function.update_apply]
  split_ifs with ht hc ha
  all_goals simp_all

omit [DecidableEq α] [DecidableEq ι] in
/-- The cell before an element is the last one of no list. -/
theorem before_ne_last {xs : ι → List α} (h : Holds H L xs) (hx : xs i = ys ++ e :: zs)
    (hp : (L i).upTo ys = some p) (hq : (L j).upTo (xs j) = some q) : p ≠ q := by
  rintro rfl
  have hpi : p ∈ (L i).cells (xs i) := hx ▸ (L i).upTo_mem hp _
  by_cases hij : j = i
  · subst hij
    have hx' : xs j = xs j ++ [] := (List.append_nil _).symm
    have hnext := (h.joined hx hp (Ends.at_cons ..)).1
    have hlast := (h.joined hx' hq (Ends.at_nil _)).1
    exact h.ne_tail hx (hnext.symm.trans hlast)
  · have hpj : p ∈ (L j).cells (xs j) := by
      have hmem := (L j).upTo_mem hq []
      rwa [List.append_nil] at hmem
    exact h.apart.disjoint j i hij hpj hpi

omit [DecidableEq α] [DecidableEq ι] in
/-- An element is the tail of no list. -/
theorem elem_ne_tail {xs : ι → List α} {a : α} (h : Holds H L xs) (ha : a ∈ xs i) (j : ι) :
    a ≠ (L j).tail := by
  rintro rfl
  have hi : (L j).tail ∈ (L i).cells (xs i) :=
    List.mem_cons_of_mem _ (List.mem_append_left _ ha)
  by_cases hij : j = i
  · subst hij
    exact (Ends.notMem (h.apart.nodup j)).2 ha
  · exact h.apart.disjoint j i hij (tail_mem _ _) hi

/-- Nothing is written yet. -/
theorem outline_whole (w : Window) (hX : ∀ {G j c}, X G → X (G.add w j c)) :
    Outline L xs id (arrived xs) w X where
  seqAdd hG := arrived_add hG _ _
  fresh _ hc := hc
  tail _ _ := rfl
  enclose _ _ _ _ := rfl
  known := hX

/-- The link to the element is overwritten, that from the element not yet. -/
theorem outline_cut (hx : xs i = ys ++ e :: zs) (hp : (L i).upTo ys = some p) (n : Option α)
    (w : Window) (hX : ∀ {G j c}, X G → X (G.add w j c)) :
    Outline L xs (·.setNext p n) (arrived xs) w X where
  seqAdd hG := arrived_add hG _ _
  fresh _ hc := hc
  tail _ _ := rfl
  enclose := by
    intro H G j c q h _ hq hc
    have hxG : arrived xs G i =
        ys ++ e :: (zs ++ G .before i ++ G .between i ++ G .closing i ++ G .after i) := by
      simp [arrived, hx]
    refine setNext_enclose (before_ne_last h hxG hp hq) ?_
    rintro rfl
    exact hc i (hxG ▸ (L i).upTo_mem hp _)
  known := hX

/-- The two directions of the list disagree. -/
theorem outline_torn (hx : xs i = ys ++ e :: zs) (hp : (L i).upTo ys = some p) {a : α}
    (ha : ∀ {G}, X G → a ∈ G .between i) (n : Option α)
    (hX : ∀ {G j c}, X G → X (G.add .after j c)) :
    Outline L xs (fun H => (H.setNext p n).setPrev a (some p)) (arrived xs) .after X where
  seqAdd hG := arrived_add hG _ _
  fresh _ hc := hc
  tail := by
    intro H G j h hG
    have hmem : a ∈ arrived xs G i := by simp [arrived, ha hG]
    exact Function.update_of_ne (elem_ne_tail h hmem j).symm _ _
  enclose := by
    intro H G j c q h hG hq hc
    have hmem : a ∈ arrived xs G i := by simp [arrived, ha hG]
    have hac : a ≠ c := by
      rintro rfl
      exact hc i (List.mem_cons_of_mem _ (List.mem_append_left _ hmem))
    rw [setPrev_enclose (elem_ne_tail h hmem j) hac]
    exact congrArg (Links.setPrev · a (some p))
      ((outline_cut hx hp n .after hX).enclose h hG hq hc)
  known := hX

/-- The element is out, and what is left of the list is sound. -/
theorem outline_left {front : List α} (hfront : ∀ {G}, X G → front ⊆ arrived xs G i)
    (hX : ∀ {G j c}, X G → X (G.add .after j c)) :
    Outline L xs id (fun G => Function.update (arrived xs G) i (front ++ G .after i)) .after X where
  seqAdd := by
    intro G j c hG
    rw [arrived_add hG]
    by_cases hji : j = i
    · subst hji
      simp [Appended.add]
    · have hkeep : G.add .after j c .after i = G .after i := by
        simp [Appended.add, Ne.symm hji]
      rw [hkeep, Function.update_of_ne hji, Function.update_comm hji]
  fresh := by
    intro G c hG hc k
    rw [update_cells]
    split_ifs with hk
    · subst hk
      intro hmem
      refine hc k ?_
      have hafter : G .after k ⊆ arrived xs G k := List.subset_append_right _ _
      have hsub : front ++ G .after k ⊆ arrived xs G k :=
        List.append_subset.mpr ⟨hfront hG, hafter⟩
      rcases List.mem_cons.mp hmem with rfl | hmem
      · exact List.mem_cons_self ..
      · rcases List.mem_append.mp hmem with hmem | hmem
        · exact List.mem_cons_of_mem _ (List.mem_append_left _ (hsub hmem))
        · exact List.mem_cons_of_mem _ (List.mem_append_right _ hmem)
    · exact hc k
  tail _ _ := rfl
  enclose _ _ _ _ := rfl
  known := hX

/-- An access under an assertion that appends keep. -/
theorem safe_access {β γ : Type} {p : Code α β} {K : β → Steps α ι γ}
    {Q : γ → Links α × Appended ι α → Prop} {P : Links α × Appended ι α → Prop}
    {s : Links α × Appended ι α} (hP : Stable (appends L xs) (fun _ => False) pc P) (hs : P s)
    (hk : ∀ H G, P (H, G) → ∃ b H', p H = .ok (b, H') ∧
      Safe (appends L xs) (fun _ => False) (fun _ => True) (K b) Q (H', G)) :
    Safe (appends L xs) (fun _ => False) (fun _ => True) (access pc p >>= K) Q s := by
  refine Safe.step hP hs (fun _ _ => trivial) ?_
  rintro ⟨H, G⟩ hHG
  obtain ⟨b, H', hrun, hrest⟩ := hk H G hHG
  refine ⟨b, (H', G), ?_, hrest⟩
  simp only [hrun]
  rfl

/-! ## What comes of it -/

/-- A list whose two directions disagree: forwards it holds `seen`, backwards `lost` as well. -/
structure Torn (H : Links α) (l : Ends α) (seen lost : List α) : Prop where
  forward : (l.cells seen).IsChain fun x y => H.next x = some y
  backward : (l.cells (seen ++ lost)).reverse.IsChain fun x y => H.prev x = some y
  first : H.prev l.head = none
  last : H.next l.tail = none

/-- The outcome of `list_remove` of the element between `ys` and `zs`. -/
inductive Outcome (L : ι → Ends α) (xs : ι → List α) (i : ι) (ys zs : List α) (again : Bool)
    (H : Links α) (G : Appended ι α) : Prop
  /-- The interrupts have done no harm. -/
  | whole (hside : zs ++ G .before i ≠ [] ∨ G .between i ++ G .closing i = [])
      (h : Holds H L (Function.update (arrived xs G) i
        (ys ++ zs ++ G .before i ++ G .between i ++ G .closing i ++ G .after i)))
  /-- What was appended in the meantime is in no list. -/
  | lost (hlast : zs ++ G .before i = []) (hgone : G .between i ++ G .closing i ≠ [])
      (hsound : again = false ∨ G .between i = [])
      (h : Holds H L (Function.update (arrived xs G) i (ys ++ G .after i)))
  /-- What was appended then or later is not seen from the front. -/
  | torn (hlast : zs ++ G .before i = []) (hgone : G .between i ≠ []) (hagain : again = true)
      (apart : Apart L (Function.update (arrived xs G) i
        (ys ++ (G .between i ++ G .closing i ++ G .after i))))
      (h : Torn H (L i) ys (G .between i ++ G .closing i ++ G .after i))
      (others : ∀ k, k ≠ i → Threaded H (L k) (arrived xs G k))

section Stretches

variable {again : Bool} {s : Links α × Appended ι α}

/-- The last access, and the outcome read off where it stands. -/
theorem safe_result (O : Outline L xs write seq .after X) (hs : Over L write seq .after X s)
    (hQ : ∀ H G, Over L write seq .after X (H, G) → Outcome L xs i ys zs again H G) :
    Safe (appends L xs) (fun _ => False) (fun _ => True) (access .result (next (some e)))
      (fun _ s => Outcome L xs i ys zs again s.1 s.2) s := by
  show Safe _ _ _ (access .result (next (some e)) >>= Prog.ret) _ _
  refine safe_access (O.stable rfl) hs fun H G hHG => ?_
  exact ⟨H.next e, H, rfl, Safe.ret trivial (hQ H G hHG)⟩

omit [DecidableEq α] [DecidableEq ι] in
theorem arrived_split (hx : xs i = ys ++ e :: zs) (G : Appended ι α) : arrived xs G i =
    ys ++ e :: (zs ++ G .before i ++ G .between i ++ G .closing i ++ G .after i) := by
  simp [arrived, hx]

/-- The second write takes the element out of a sound heap; the range from the element to `q` goes
with it. -/
theorem outcome_left (ms front : List α) (hx : xs i = ys ++ e :: zs)
    (hp : (L i).upTo ys = some p) {n' : α} (hn' : (L i).at front = some n')
    (hholds : Holds H₀ L (arrived xs G)) (hupto : G.Upto .closing)
    (hcut : zs ++ G .before i ++ G .between i ++ G .closing i = ms ++ front)
    (hQ : ∀ H G', G' .before i = G .before i → G' .between i = G .between i →
      G' .closing i = G .closing i →
      Holds H L (Function.update (arrived xs G') i (ys ++ front ++ G' .after i)) →
      Outcome L xs i ys zs again H G') :
    Safe (appends L xs) (fun _ => False) (fun _ => True) (access .result (next (some e)))
      (fun _ s => Outcome L xs i ys zs again s.1 s.2)
      ((H₀.setNext p (some n')).setPrev n' (some p), G) := by
  have hafter : G .after i = [] := hupto .after (by decide) i
  have hsplit : arrived xs G i = ys ++ (e :: ms) ++ front := by
    rw [arrived_split hx, hafter, List.append_nil, hcut]
    simp
  obtain ⟨hout, -, -⟩ := hholds.bypass hsplit hp hn'
  have hO : Outline L xs id
      (fun G => Function.update (arrived xs G) i (ys ++ front ++ G .after i)) .after
      (fun G' => ∀ w, w ≠ Window.after → G' w i = G w i) := by
    refine outline_left (fun {G'} hG => ?_) fun {G' j c} hG w hw => ?_
    · rw [arrived_split hx, hG .before (by decide), hG .between (by decide),
        hG .closing (by decide), hcut]
      intro x hmem
      simp only [List.mem_append, List.mem_cons] at hmem ⊢
      tauto
    · rw [Appended.add_of_ne hw]
      exact hG w hw
  refine safe_result hO ⟨⟨_, rfl, ?_⟩, hupto.mono (by decide), fun _ _ => rfl⟩ ?_
  · show Holds (H₀.bypass p n') L (Function.update (arrived xs G) i (ys ++ front ++ G .after i))
    rw [hafter, List.append_nil]
    exact hout
  · rintro H G' ⟨⟨H₁, hH₁, hholds₁⟩, -, hG⟩
    obtain rfl : H = H₁ := hH₁
    exact hQ H G' (hG .before (by decide)) (hG .between (by decide)) (hG .closing (by decide))
      hholds₁

omit [DecidableEq ι] in
/-- The first write skips the element and everything behind it, the second one only the element. -/
theorem torn_of_writes {xs : ι → List α} {a : α} {rest : List α} (h : Holds H₀ L xs)
    (hx : xs i = ys ++ e :: a :: rest) (hp : (L i).upTo ys = some p) :
    Torn ((H₀.setNext p (some (L i).tail)).setPrev a (some p)) (L i) ys (a :: rest) ∧
      ∀ k, k ≠ i → Threaded ((H₀.setNext p (some (L i).tail)).setPrev a (some p)) (L k) (xs k) := by
  let H' : Links α := (H₀.setNext p (some (L i).tail)).setPrev a (some p)
  obtain ⟨l₁, hhead⟩ := List.getLast?_eq_some_iff.mp hp
  have hcells : (L i).cells (xs i) = l₁ ++ p :: e :: a :: (rest ++ [(L i).tail]) := by
    rw [hx, Ends.cells_append, hhead]
    simp
  obtain ⟨hchain, hfirst, hlast⟩ := threaded_iff.mp (h.threaded i)
  have hnodup := h.apart.nodup i
  rw [hcells] at hchain hnodup
  have hp₁ : p ∉ l₁ := fun hmem =>
    (List.nodup_append.mp hnodup).2.2 p hmem p (List.mem_cons_self ..) rfl
  have hright := (List.nodup_append.mp hnodup).2.1
  have hpr : p ∉ a :: (rest ++ [(L i).tail]) := fun hmem =>
    (List.nodup_cons.mp hright).1 (List.mem_cons_of_mem _ hmem)
  have har := (List.nodup_cons.mp (List.nodup_cons.mp (List.nodup_cons.mp hright).2).2).1
  have ha₁ : a ∉ l₁ ++ [p] := by
    intro hmem
    rcases List.mem_append.mp hmem with hmem | hmem
    · exact (List.nodup_append.mp hnodup).2.2 a hmem a (by simp) rfl
    · exact hpr (List.mem_singleton.mp hmem ▸ List.mem_cons_self ..)
  have hnext : ∀ {x}, x ≠ p → H'.next x = H₀.next x := fun hx => Function.update_of_ne hx _ _
  have hprev : ∀ {x}, x ≠ a → H'.prev x = H₀.prev x := fun hx => Function.update_of_ne hx _ _
  -- The two sides of the cut are as they were.
  have hsplit := List.isChain_split.mp hchain
  have hleft : (l₁ ++ [p]).IsChain H'.Joined := by
    refine chain_frame hsplit.1 (fun x hin => hnext ?_) fun x hin => hprev ?_
    · rw [List.dropLast_concat] at hin
      rintro rfl
      exact hp₁ hin
    · rintro rfl
      exact ha₁ (List.mem_of_mem_tail hin)
  have hend : (a :: (rest ++ [(L i).tail])).IsChain H'.Joined := by
    refine chain_frame hsplit.2.tail.tail (fun x hin => hnext ?_) fun x hin => hprev ?_
    · rintro rfl
      exact hpr (List.dropLast_subset _ hin)
    · rintro rfl
      exact har hin
  have hai : a ∈ xs i := by simp [hx]
  have htail : (L i).tail ≠ p := by
    rintro he
    exact hpr (he ▸ List.mem_cons_of_mem _ (List.mem_append_right _ (List.mem_singleton_self _)))
  refine ⟨⟨?_, ?_, ?_, ?_⟩, fun k hk => ?_⟩
  · have hys : (L i).cells ys = l₁ ++ p :: [(L i).tail] := by
      have happ := Ends.cells_append (L i) ys []
      rw [List.append_nil] at happ
      rw [happ, hhead]
      simp
    rw [hys, List.isChain_append_cons_cons]
    exact ⟨hleft.imp fun _ _ hj => hj.1, Function.update_self .., .singleton _⟩
  · have hback : (L i).cells (ys ++ a :: rest) = l₁ ++ p :: a :: (rest ++ [(L i).tail]) := by
      rw [Ends.cells_append, hhead]
      simp
    rw [hback, List.isChain_reverse, List.isChain_append_cons_cons]
    exact ⟨hleft.imp fun _ _ hj => hj.2, Function.update_self .., hend.imp fun _ _ hj => hj.2⟩
  · refine (hprev fun he => ?_).trans hfirst
    exact (Ends.notMem (h.apart.nodup i)).1 (he ▸ hai)
  · exact (hnext htail).trans hlast
  · have hoff : H₀.SameOff H' ((L i).cells (xs i)) := by
      intro x hmem
      refine ⟨hnext ?_, hprev ?_⟩
      · rintro rfl
        exact hmem (hx ▸ (L i).upTo_mem hp _)
      · rintro rfl
        exact hmem (List.mem_cons_of_mem _ (List.mem_append_left _ hai))
    exact (h.threaded k).sameOff hoff fun x hx hx' => h.apart.disjoint k i hk hx hx'

/-- The rest of `list_remove`, once the link to the element is overwritten. -/
theorem safe_closing (hx : xs i = ys ++ e :: zs) (hp : (L i).upTo ys = some p) {n n' : Ptr α}
    (hs : Over L (·.setNext p n) (arrived xs) .closing (fun G =>
      n = (L i).at (zs ++ G .before i) ∧
        n' = if again then (L i).at (zs ++ G .before i ++ G .between i) else n) s) :
    Safe (appends L xs) (fun _ => False) (fun _ => True)
      (do
        let p ← access .reloadPrev (prev (some e))
        access .storePrev (setPrev n' p)
        access .result (next (some e)))
      (fun _ s => Outcome L xs i ys zs again s.1 s.2) s := by
  have hO : Outline L xs (·.setNext p n) (arrived xs) .closing (fun G =>
      n = (L i).at (zs ++ G .before i) ∧
        n' = if again then (L i).at (zs ++ G .before i ++ G .between i) else n) := by
    refine outline_cut hx hp n .closing fun {G j c} hG => ?_
    rw [Appended.add_of_ne (by decide), Appended.add_of_ne (by decide)]
    exact hG
  refine safe_access (hO.stable rfl) hs fun H G hHG => ?_
  have hprev : prev (some e) H = .ok (some p, H) := by
    obtain ⟨H₀, rfl, hholds⟩ := hHG.links
    exact prev_ok ((neighbours hholds (arrived_split hx G)).1.trans hp)
  refine ⟨some p, H, hprev, ?_⟩
  refine safe_access (hO.stable rfl) hHG fun H G hHG => ?_
  obtain ⟨⟨H₀, rfl, hholds⟩, hupto, hn, hn'⟩ := hHG
  dsimp only at hholds hupto hn hn'
  have hafter : G .after i = [] := hupto .after (by decide) i
  cases hA : zs ++ G .before i with
  | cons a A =>
      -- Something follows the element: both values read are its address.
      rw [hA, Ends.at_cons] at hn
      have hvalue : n' = some a := by
        rw [hn', hA, hn]
        split_ifs <;> rfl
      subst hn hvalue
      have hfront : (L i).at (zs ++ G .before i ++ G .between i ++ G .closing i) = some a := by
        rw [hA]
        rfl
      refine ⟨(), _, rfl, outcome_left [] _ hx hp hfront hholds hupto rfl ?_⟩
      intro H' G' hbefore hbetween hclosing hholds'
      rw [← hbefore, ← hbetween, ← hclosing] at hholds'
      refine .whole (.inl ?_) (by simpa using hholds')
      rw [hbefore, hA]
      exact List.cons_ne_nil a A
  | nil =>
      rw [hA, Ends.at_nil] at hn
      subst hn
      by_cases htorn : again = true ∧ G .between i ≠ []
      · obtain ⟨b, B, hB⟩ := List.exists_cons_of_ne_nil htorn.2
        have hvalue : n' = some b := by
          rw [hn', if_pos htorn.1, hA, hB]
          rfl
        subst hvalue
        have hO' : Outline L xs (fun H => (H.setNext p (some (L i).tail)).setPrev b (some p))
            (arrived xs) .after (fun G' => G' .before i = G .before i ∧
              G' .between i = G .between i ∧ G' .closing i = G .closing i) := by
          refine outline_torn hx hp (fun {G'} hG => ?_) _ fun {G' j c} hG => ?_
          · rw [hG.2.1, hB]
            exact List.mem_cons_self ..
          · rw [Appended.add_of_ne (by decide), Appended.add_of_ne (by decide),
              Appended.add_of_ne (by decide)]
            exact hG
        refine ⟨(), _, rfl, safe_result hO'
          ⟨⟨H₀, rfl, hholds⟩, hupto.mono (by decide), rfl, rfl, rfl⟩ ?_⟩
        rintro H' G' ⟨⟨H₁, rfl, hholds₁⟩, -, hbefore, hbetween, hclosing⟩
        dsimp only at hholds₁ hbefore hbetween hclosing
        have hrest : arrived xs G' i =
            ys ++ e :: b :: (B ++ G' .closing i ++ G' .after i) := by
          rw [arrived_split hx, hbefore, hA, hbetween, hB]
          rfl
        obtain ⟨htwo, hothers⟩ := torn_of_writes hholds₁ hrest hp
        have hlost : b :: (B ++ G' .closing i ++ G' .after i) =
            G' .between i ++ G' .closing i ++ G' .after i := by
          rw [hbetween, hB]
          rfl
        rw [hlost] at htwo
        refine .torn (by rw [hbefore, hA]) (hbetween ▸ htorn.2) htorn.1 ?_ htwo hothers
        refine hholds₁.apart.sublist fun k => ?_
        by_cases hk : k = i
        · subst hk
          rw [Function.update_self, hrest, hlost]
          exact (List.sublist_cons_self _ _).append_left ys
        · rw [Function.update_of_ne hk]
      · have hvalue : n' = some (L i).tail := by
          rw [hn', hA]
          split_ifs with hagain
          · have hnone : G .between i = [] := by
              by_contra hne
              exact htorn ⟨hagain, hne⟩
            rw [hnone]
            rfl
          · rfl
        subst hvalue
        refine ⟨(), _, rfl, outcome_left (G .between i ++ G .closing i) [] hx hp (Ends.at_nil _)
          hholds hupto (by simp [hA]) ?_⟩
        intro H' G' hbefore hbetween hclosing hholds'
        rw [List.append_nil] at hholds'
        by_cases hgone : G' .between i ++ G' .closing i = []
        · refine .whole (.inr hgone) ?_
          have hall : ys ++ zs ++ G' .before i ++ G' .between i ++ G' .closing i = ys := by
            rw [List.append_assoc _ (G' .between i), hgone, hbefore, List.append_nil,
              List.append_assoc, hA, List.append_nil]
          rw [hall]
          exact hholds'
        · refine .lost (by rw [hbefore, hA]) hgone ?_ hholds'
          by_contra hsound
          rw [not_or, hbetween] at hsound
          exact htorn ⟨by simpa using hsound.1, hsound.2⟩

end Stretches

/-- `list_remove` with any number of appends, to any lists, before each of its accesses.  No `ASSERT`
fails.  If the element was not the last of its list when its `next` was read, or if nothing was
appended to that list between then and the last write, the lists are what an uninterrupted call and
the appends make of them.  Otherwise what was appended to that list in the meantime is lost: the list
is sound without it, but for one case: if `elem->next` is read again, and the first of these elements
was there by then, the list is torn. -/
theorem remove_interrupted (h : Holds H L xs) (hx : xs i = ys ++ e :: zs) (again : Bool) :
    Safe (appends L xs) (fun _ => False) (fun _ => True) (listRemoveSteps again (some e))
      (fun _ s => Outcome L xs i ys zs again s.1 s.2) (H, fun _ _ => []) := by
  obtain ⟨p, hp⟩ := (L i).upTo_some ys
  have hO : Outline L xs id (arrived xs) .before (fun _ => True) :=
    outline_whole .before fun _ => trivial
  have hstart : Over L id (arrived xs) .before (fun _ => True) (H, fun _ _ => []) := by
    have hxs : arrived xs (fun _ _ => []) = xs := by
      funext k
      simp [arrived]
    exact ⟨⟨H, rfl, hxs.symm ▸ h⟩, fun _ _ _ => rfl, trivial⟩
  refine safe_access (hO.stable rfl) hstart fun H G hHG => ?_
  obtain ⟨⟨H₀, rfl, hholds⟩, -, -⟩ := id hHG
  have he : e ∈ arrived xs G i := by simp [arrived_split hx]
  refine ⟨(), _, asserts_ok (interior_ok hholds he), ?_⟩
  refine safe_access (hO.stable rfl) hHG fun H G hHG => ?_
  obtain ⟨⟨H₀, rfl, hholds⟩, -, -⟩ := id hHG
  refine ⟨some p, _, prev_ok ((neighbours hholds (arrived_split hx G)).1.trans hp), ?_⟩
  refine safe_access (hO.stable rfl) hHG fun H G hHG => ?_
  -- From here on the value of `elem->next` is fixed.
  obtain ⟨⟨H₀, rfl, hholds⟩, hupto, -⟩ := hHG
  dsimp only at hholds hupto
  have hn := (neighbours hholds (arrived_split hx G)).2
  rw [hupto .between (by decide), hupto .closing (by decide), hupto .after (by decide),
    List.append_nil, List.append_nil, List.append_nil] at hn
  refine ⟨_, _, next_ok hn, ?_⟩
  generalize hvalue : (L i).at (zs ++ G .before i) = n
  have hkeep : ∀ {G : Appended ι α} {j c}, n = (L i).at (zs ++ G .before i) →
      n = (L i).at (zs ++ G.add .between j c .before i) := by
    intro G j c hG
    rwa [Appended.add_of_ne (by decide)]
  have hO₁ : Outline L xs id (arrived xs) .between (fun G => n = (L i).at (zs ++ G .before i)) :=
    outline_whole .between hkeep
  refine safe_access (hO₁.stable rfl) ⟨⟨H, rfl, hholds⟩, hupto.mono (by decide), hvalue.symm⟩
    fun H G hHG => ?_
  obtain ⟨⟨H₀, rfl, hholds⟩, hupto, hn⟩ := hHG
  dsimp only at hholds hupto hn
  refine ⟨(), H.setNext p n, rfl, ?_⟩
  have hO₂ : Outline L xs (·.setNext p n) (arrived xs) .between
      (fun G => n = (L i).at (zs ++ G .before i)) := outline_cut hx hp n .between hkeep
  have hcut : Over L (·.setNext p n) (arrived xs) .between (fun G => n = (L i).at (zs ++ G .before i))
      (H.setNext p n, G) := ⟨⟨H, rfl, hholds⟩, hupto, hn⟩
  cases again with
  | false =>
      exact safe_closing hx hp ⟨hcut.links, hupto.mono (by decide), hn, rfl⟩
  | true =>
      refine safe_access (hO₂.stable rfl) hcut fun H G hHG => ?_
      obtain ⟨⟨H₀, rfl, hholds⟩, hupto, hn⟩ := hHG
      dsimp only at hholds hupto hn
      have hep : e ≠ p := by
        rintro rfl
        have hnodup := hholds.apart.nodup i
        rw [arrived_split hx, Ends.cells_append] at hnodup
        have hmem : e ∈ (L i).head :: ys := List.mem_of_mem_getLast? hp
        exact (List.nodup_append.mp hnodup).2.2 e hmem e (List.mem_cons_self ..) rfl
      have hagain : (H₀.setNext p n).next e = (L i).at (zs ++ G .before i ++ G .between i) := by
        refine (Function.update_of_ne hep _ _).trans ?_
        have hnext := (neighbours hholds (arrived_split hx G)).2
        rwa [hupto .closing (by decide), hupto .after (by decide), List.append_nil,
          List.append_nil] at hnext
      refine ⟨_, _, next_ok hagain, ?_⟩
      exact safe_closing hx hp ⟨⟨H₀, rfl, hholds⟩, hupto.mono (by decide), hn, rfl⟩

/-- The ends 0 and 1 with the elements 2 and 3 between them, the last of which is removed. -/
theorem remove_interrupted_last :
    let H : Links Nat := ⟨fun x => [some 2, none, some 3, some 1][x]?.getD none,
      fun x => [none, some 3, some 0, some 2][x]?.getD none⟩
    Safe (appends (fun _ : Unit => ⟨0, 1⟩) fun _ => [2, 3]) (fun _ => False) (fun _ => True)
      (listRemoveSteps true (some 3))
      (fun _ s => Outcome (fun _ : Unit => ⟨0, 1⟩) (fun _ => [2, 3]) () [2] [] true s.1 s.2)
      (H, fun _ _ => []) := by
  intro H
  have hholds : Holds H (fun _ : Unit => ⟨0, 1⟩) fun _ => [2, 3] := by
    refine .single (by decide) ⟨?_, ?_, rfl, rfl⟩
    · show [0, 2, 3, 1].IsChain fun x y => H.next x = some y
      simp [H]
    · show [1, 3, 2, 0].IsChain fun x y => H.prev x = some y
      simp [H]
  exact remove_interrupted hholds rfl true

end Appending

end PicoOS.Lists
