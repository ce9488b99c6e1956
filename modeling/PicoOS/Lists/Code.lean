/-
# `PicoOS.Lists.Code` — `list.c`

The intrusive doubly linked lists of `misc/list.c`, function by function.  A
`struct list_elem *` is an address or `NULL`, a `struct list *` is a pair of
addresses, those of its `head` and its `tail`, or `NULL`.  The memory is the two
fields of all `struct list_elem`s; reading or writing through `NULL` faults, and
so does a failed `ASSERT`.

A loop of the source is a recursion on a number of rounds that it may take; when
they are used up the model stops with `rounds`.  LESS is a function of two
elements, never `NULL`; the auxiliary data it is given are part of it.
-/
import PicoOS.Lib.LinkedSeq

namespace PicoOS.Lists

open LinkedSeq

variable {α : Type}

/-! ## Memory -/

/-- Why a call does not return. -/
inductive Fault where
  | assert (function condition : String)
  /-- An access through `NULL`. -/
  | null
  /-- The loop goes on after the rounds it was given. -/
  | rounds
  deriving DecidableEq, Repr

/-- Code that reads and writes links. -/
abbrev Code (α β : Type) := StateT (Links α) (Except Fault) β

/-- `struct list_elem *`. -/
abbrev Ptr (α : Type) := Option α

/-- `struct list *`. -/
abbrev ListPtr (α : Type) := Option (Ends α)

/-- `ASSERT (condition)`. -/
def asserts (function condition : String) (test : Links α → Bool) : Code α Unit := fun H =>
  if test H then .ok ((), H) else .error (.assert function condition)

/-- `elem->next`. -/
def next (elem : Ptr α) : Code α (Ptr α) := fun H =>
  match elem with
  | some a => .ok (H.next a, H)
  | none => .error .null

/-- `elem->prev`. -/
def prev (elem : Ptr α) : Code α (Ptr α) := fun H =>
  match elem with
  | some a => .ok (H.prev a, H)
  | none => .error .null

section Stores

variable [DecidableEq α]

/-- `elem->next = value`. -/
def setNext (elem value : Ptr α) : Code α Unit := fun H =>
  match elem with
  | some a => .ok ((), H.setNext a value)
  | none => .error .null

/-- `elem->prev = value`. -/
def setPrev (elem value : Ptr α) : Code α Unit := fun H =>
  match elem with
  | some a => .ok ((), H.setPrev a value)
  | none => .error .null

end Stores

/-! ## Ends and interior -/

/-- `is_head (elem)`. -/
def isHead (H : Links α) : Ptr α → Bool
  | some a => (H.prev a).isNone && (H.next a).isSome
  | none => false

/-- `is_interior (elem)`. -/
def isInterior (H : Links α) : Ptr α → Bool
  | some a => (H.prev a).isSome && (H.next a).isSome
  | none => false

/-- `is_tail (elem)`. -/
def isTail (H : Links α) : Ptr α → Bool
  | some a => (H.prev a).isSome && (H.next a).isNone
  | none => false

/-! ## Walking -/

/-- The list a `struct list *` points to. -/
def deref (list : ListPtr α) : Code α (Ends α) := fun H =>
  match list with
  | some l => .ok (l, H)
  | none => .error .null

/-- `list_begin (list)`. -/
def listBegin (list : ListPtr α) : Code α (Ptr α) := do
  asserts "list_begin" "list != NULL" fun _ => list.isSome
  let l ← deref list
  next (some l.head)

/-- `list_next (elem)`. -/
def listNext (elem : Ptr α) : Code α (Ptr α) := do
  asserts "list_next" "is_head (elem) || is_interior (elem)" fun H =>
    isHead H elem || isInterior H elem
  next elem

/-- `list_end (list)`. -/
def listEnd (list : ListPtr α) : Code α (Ptr α) := do
  asserts "list_end" "list != NULL" fun _ => list.isSome
  let l ← deref list
  return some l.tail

/-- `list_prev (elem)`. -/
def listPrev (elem : Ptr α) : Code α (Ptr α) := do
  asserts "list_prev" "is_interior (elem) || is_tail (elem)" fun H =>
    isInterior H elem || isTail H elem
  prev elem

/-- `list_empty (list)`. -/
def listEmpty [DecidableEq α] (list : ListPtr α) : Code α Bool := do
  let first ← listBegin list
  let last ← listEnd list
  return first == last

/-- `list_front (list)`. -/
def listFront [DecidableEq α] (list : ListPtr α) : Code α (Ptr α) := do
  let empty ← listEmpty list
  asserts "list_front" "!list_empty (list)" fun _ => !empty
  let l ← deref list
  next (some l.head)

/-- `list_back (list)`. -/
def listBack [DecidableEq α] (list : ListPtr α) : Code α (Ptr α) := do
  let empty ← listEmpty list
  asserts "list_back" "!list_empty (list)" fun _ => !empty
  let l ← deref list
  prev (some l.tail)

/-- The loop of `list_size`, `cnt` elements counted and `e` the next one.  There are fewer elements
than addresses, so the `size_t` does not wrap. -/
def listSizeLoop [DecidableEq α] (list : ListPtr α) : Nat → Ptr α → Nat → Code α Nat
  | 0, _, _ => throw .rounds
  | n + 1, e, cnt => do
      let last ← listEnd list
      if e ≠ last then
        let e ← listNext e
        listSizeLoop list n e (cnt + 1)
      else return cnt

/-- `list_size (list)`, in at most `n` rounds. -/
def listSize [DecidableEq α] (n : Nat) (list : ListPtr α) : Code α Nat := do
  let e ← listBegin list
  listSizeLoop list n e 0

/-! ## Changing a list -/

section Changes

variable [DecidableEq α]

/-- `list_init (list)`. -/
def listInit (list : ListPtr α) : Code α Unit := do
  asserts "list_init" "list != NULL" fun _ => list.isSome
  let l ← deref list
  setPrev (some l.head) none
  setNext (some l.head) (some l.tail)
  setPrev (some l.tail) (some l.head)
  setNext (some l.tail) none

/-- `list_insert (before, elem)`. -/
def listInsert (before elem : Ptr α) : Code α Unit := do
  asserts "list_insert" "is_interior (before) || is_tail (before)" fun H =>
    isInterior H before || isTail H before
  asserts "list_insert" "elem != NULL" fun _ => elem.isSome
  setPrev elem (← prev before)
  setNext elem before
  setNext (← prev before) elem
  setPrev before elem

/-- `list_splice (before, first, last)`. -/
def listSplice (before first last : Ptr α) : Code α Unit := do
  asserts "list_splice" "is_interior (before) || is_tail (before)" fun H =>
    isInterior H before || isTail H before
  if first = last then return ()
  else
    let last ← listPrev last
    asserts "list_splice" "is_interior (first)" fun H => isInterior H first
    asserts "list_splice" "is_interior (last)" fun H => isInterior H last
    setNext (← prev first) (← next last)
    setPrev (← next last) (← prev first)
    setPrev first (← prev before)
    setNext last before
    setNext (← prev before) first
    setPrev before last

/-- `list_push_front (list, elem)`. -/
def listPushFront (list : ListPtr α) (elem : Ptr α) : Code α Unit := do
  listInsert (← listBegin list) elem

/-- `list_push_back (list, elem)`. -/
def listPushBack (list : ListPtr α) (elem : Ptr α) : Code α Unit := do
  listInsert (← listEnd list) elem

/-- `list_remove (elem)`. -/
def listRemove (elem : Ptr α) : Code α (Ptr α) := do
  asserts "list_remove" "is_interior (elem)" fun H => isInterior H elem
  setNext (← prev elem) (← next elem)
  setPrev (← next elem) (← prev elem)
  next elem

/-- `list_pop_front (list)`. -/
def listPopFront (list : ListPtr α) : Code α (Ptr α) := do
  let front ← listFront list
  let _ ← listRemove front
  return front

/-- `list_pop_back (list)`. -/
def listPopBack (list : ListPtr α) : Code α (Ptr α) := do
  let back ← listBack list
  let _ ← listRemove back
  return back

end Changes

/-! ## By LESS -/

section Sorting

variable [DecidableEq α] (less : α → α → Bool)

/-- `less (a, b, aux)`; LESS looks into its arguments. -/
def calls (a b : Ptr α) : Code α Bool := fun H =>
  match a, b with
  | some a, some b => .ok (less a b, H)
  | _, _ => .error .null

/-- The loop of `is_sorted`. -/
def isSortedLoop : Nat → Ptr α → Ptr α → Code α Bool
  | 0, _, _ => throw .rounds
  | n + 1, a, b => do
      let a ← listNext a
      if a ≠ b then
        if ← calls less a (← listPrev a) then return false
        else isSortedLoop n a b
      else return true

/-- `is_sorted (a, b, less, aux)`. -/
def isSorted (n : Nat) (a b : Ptr α) : Code α Bool := do
  if a ≠ b then isSortedLoop less n a b else return true

/-- The loop of `find_end_of_run`. -/
def findEndOfRunLoop : Nat → Ptr α → Ptr α → Code α (Ptr α)
  | 0, _, _ => throw .rounds
  | n + 1, a, b => do
      let a ← listNext a
      if a = b then return a
      else if ← calls less a (← listPrev a) then return a
      else findEndOfRunLoop n a b

/-- `find_end_of_run (a, b, less, aux)`. -/
def findEndOfRun (n : Nat) (a b : Ptr α) : Code α (Ptr α) := do
  asserts "find_end_of_run" "a != NULL" fun _ => a.isSome
  asserts "find_end_of_run" "b != NULL" fun _ => b.isSome
  asserts "find_end_of_run" "a != b" fun _ => a != b
  findEndOfRunLoop less n a b

/-- The loop of `inplace_merge`. -/
def inplaceMergeLoop : Nat → Ptr α → Ptr α → Ptr α → Code α Unit
  | 0, _, _, _ => throw .rounds
  | n + 1, a0, a1b0, b1 => do
      if a0 ≠ a1b0 ∧ a1b0 ≠ b1 then
        if ← calls less a1b0 a0 then
          let a1b0 ← listNext a1b0
          listSplice a0 (← listPrev a1b0) a1b0
          inplaceMergeLoop n a0 a1b0 b1
        else
          let a0 ← listNext a0
          inplaceMergeLoop n a0 a1b0 b1
      else return ()

/-- `inplace_merge (a0, a1b0, b1, less, aux)`. -/
def inplaceMerge (n : Nat) (a0 a1b0 b1 : Ptr α) : Code α Unit := do
  asserts "inplace_merge" "a0 != NULL" fun _ => a0.isSome
  asserts "inplace_merge" "a1b0 != NULL" fun _ => a1b0.isSome
  asserts "inplace_merge" "b1 != NULL" fun _ => b1.isSome
  let sorted ← isSorted less n a0 a1b0
  asserts "inplace_merge" "is_sorted (a0, a1b0, less, aux)" fun _ => sorted
  let sorted ← isSorted less n a1b0 b1
  asserts "inplace_merge" "is_sorted (a1b0, b1, less, aux)" fun _ => sorted
  inplaceMergeLoop less n a0 a1b0 b1

/-- The inner loop of `list_sort`, one pass over the list from `a0` on; `outputRunCnt` runs are
done.  `n` rounds for it and for each of the loops in it. -/
def sortPass (list : ListPtr α) (m : Nat) : Nat → Ptr α → Nat → Code α Nat
  | 0, _, _ => throw .rounds
  | n + 1, a0, outputRunCnt => do
      if a0 ≠ (← listEnd list) then
        let outputRunCnt := outputRunCnt + 1
        let a1b0 ← findEndOfRun less m a0 (← listEnd list)
        if a1b0 = (← listEnd list) then return outputRunCnt
        else
          let b1 ← findEndOfRun less m a1b0 (← listEnd list)
          inplaceMerge less m a0 a1b0 b1
          sortPass list m n b1 outputRunCnt
      else return outputRunCnt

/-- The outer loop of `list_sort`. -/
def sortLoop (list : ListPtr α) (m : Nat) : Nat → Code α Unit
  | 0 => throw .rounds
  | n + 1 => do
      let a0 ← listBegin list
      let outputRunCnt ← sortPass less list m m a0 0
      if 1 < outputRunCnt then sortLoop list m n else return ()

/-- `list_sort (list, less, aux)`, every loop in at most `n` rounds. -/
def listSort (n : Nat) (list : ListPtr α) : Code α Unit := do
  asserts "list_sort" "list != NULL" fun _ => list.isSome
  sortLoop less list n n
  let sorted ← isSorted less n (← listBegin list) (← listEnd list)
  asserts "list_sort" "is_sorted (list_begin (list), list_end (list), less, aux)" fun _ => sorted

/-- The loop of `list_insert_ordered`: where `elem` is to go. -/
def insertOrderedLoop (list : ListPtr α) (elem : Ptr α) : Nat → Ptr α → Code α (Ptr α)
  | 0, _ => throw .rounds
  | n + 1, e => do
      if e ≠ (← listEnd list) then
        if ← calls less elem e then return e
        else
          let e ← listNext e
          insertOrderedLoop list elem n e
      else return e

/-- `list_insert_ordered (list, elem, less, aux)`. -/
def listInsertOrdered (n : Nat) (list : ListPtr α) (elem : Ptr α) : Code α Unit := do
  asserts "list_insert_ordered" "list != NULL" fun _ => list.isSome
  asserts "list_insert_ordered" "elem != NULL" fun _ => elem.isSome
  let e ← listBegin list
  let e ← insertOrderedLoop less list elem n e
  listInsert e elem

/-- The body of the `if` in `list_unique`. -/
def removeDuplicate (duplicates : ListPtr α) (next : Ptr α) : Code α Unit := do
  let _ ← listRemove next
  if duplicates ≠ none then listPushBack duplicates next else return ()

/-- The loop of `list_unique`, `elem` being the element kept last. -/
def listUniqueLoop (list duplicates : ListPtr α) : Nat → Ptr α → Code α Unit
  | 0, _ => throw .rounds
  | n + 1, elem => do
      let next ← listNext elem
      if next ≠ (← listEnd list) then
        -- `!less (elem, next, aux) && !less (next, elem, aux)`.
        let same ← (do
          if ← calls less elem next then return false
          else return !(← calls less next elem))
        if same then
          removeDuplicate duplicates next
          listUniqueLoop list duplicates n elem
        else listUniqueLoop list duplicates n next
      else return ()

/-- `list_unique (list, duplicates, less, aux)`. -/
def listUnique (n : Nat) (list duplicates : ListPtr α) : Code α Unit := do
  asserts "list_unique" "list != NULL" fun _ => list.isSome
  let empty ← listEmpty list
  if empty then return ()
  else
    let elem ← listBegin list
    listUniqueLoop less list duplicates n elem

/-- The loop of `list_max` and `list_min`: `e` is kept instead of `kept` if `less (kept, e)`. -/
def keepLoop (list : ListPtr α) : Nat → Ptr α → Ptr α → Code α (Ptr α)
  | 0, _, _ => throw .rounds
  | n + 1, kept, e => do
      if e ≠ (← listEnd list) then
        let better ← calls less kept e
        let next ← listNext e
        if better then keepLoop list n e next else keepLoop list n kept next
      else return kept

/-- The body of `list_max` and `list_min`. -/
def keepBest (n : Nat) (list : ListPtr α) : Code α (Ptr α) := do
  let first ← listBegin list
  if first ≠ (← listEnd list) then
    let e ← listNext first
    keepLoop less list n first e
  else return first

/-- `list_max (list, less, aux)`, which tests `less (max, e, aux)`. -/
def listMax (n : Nat) (list : ListPtr α) : Code α (Ptr α) := keepBest less n list

/-- `list_min (list, less, aux)`, which tests `less (e, min, aux)`. -/
def listMin (n : Nat) (list : ListPtr α) : Code α (Ptr α) := keepBest (flip less) n list

end Sorting

/-! ## Reversing -/

section Reversing

/-- A `struct list_elem **`: the address of one of the two links of a cell. -/
inductive Field (α : Type) where
  | next (elem : α)
  | prev (elem : α)

/-- `&elem->next`. -/
def fieldNext : Ptr α → Code α (Field α)
  | some a => return .next a
  | none => throw .null

/-- `&elem->prev`. -/
def fieldPrev : Ptr α → Code α (Field α)
  | some a => return .prev a
  | none => throw .null

/-- The link at `a`. -/
def Field.load : Field α → Code α (Ptr α)
  | .next elem => Lists.next (some elem)
  | .prev elem => Lists.prev (some elem)

variable [DecidableEq α]

/-- The link at `a` becomes `value`. -/
def Field.store : Field α → Ptr α → Code α Unit
  | .next elem, value => setNext (some elem) value
  | .prev elem, value => setPrev (some elem) value

/-- `swap (a, b)`. -/
def swap (a b : Field α) : Code α Unit := do
  let t ← a.load
  a.store (← b.load)
  b.store t

/-- The loop of `list_reverse`. -/
def listReverseLoop (list : ListPtr α) : Nat → Ptr α → Code α Unit
  | 0, _ => throw .rounds
  | n + 1, e => do
      if e ≠ (← listEnd list) then
        swap (← fieldPrev e) (← fieldNext e)
        let e ← prev e
        listReverseLoop list n e
      else return ()

/-- `list_reverse (list)`, in at most `n` rounds. -/
def listReverse (n : Nat) (list : ListPtr α) : Code α Unit := do
  let empty ← listEmpty list
  if empty then return ()
  else
    let e ← listBegin list
    listReverseLoop list n e
    let l ← deref list
    swap (.next l.head) (.prev l.tail)
    let first ← next (some l.head)
    let last ← prev (some l.tail)
    swap (← fieldPrev first) (← fieldNext last)

end Reversing

end PicoOS.Lists
