/-
# `PicoOS.Blocks.Code` — the stores of `thread_create`, byte by byte

`thread_create` up to its call of `thread_unblock`, over a memory of bytes.  A
`struct thread` is a block of `sizeof (struct thread)` bytes, a pointer is a
`UInt32`, and a field is an offset; nothing keeps a store from going elsewhere.

The layout is that of the compiled program that stands beside the source
(`build/main.dis`): 152 bytes, of which the one-byte `status` is the fifth.
-/
import PicoOS.Lib.ByteMem
import PicoOS.Lib.Fallible

namespace PicoOS.Blocks

open ByteMem

/-- A failed `ASSERT`. -/
inductive Fault where
  | assert (function condition : String)
  deriving DecidableEq, Repr

/-- The bytes, and the static variable of `allocate_tid`. -/
structure Memory where
  bytes : Bytes
  nextTid : UInt32

/-- Code that reads and writes them. -/
abbrev Code (β : Type) := StateT Memory (Except Fault) β

abbrev asserts (function condition : String) (test : Bool) : Code Unit :=
  Fallible.require (.assert function condition) test

/-- The bytes `bs` are stored at `a`. -/
def store (a : UInt32) (bs : List UInt8) : Code Unit := fun m =>
  .ok ((), { m with bytes := write m.bytes a bs })

/-- The word at `a`. -/
def load (a : UInt32) : Code UInt32 := fun m => .ok (readWord m.bytes a, m)

/-! ## Layout -/

/-- `sizeof (struct thread)`. -/
def sizeofThread : Nat := 152

/-- `PGSIZE`. -/
def pgsize : UInt32 := 4096

/-- `THREAD_MAGIC`. -/
def threadMagic : UInt32 := 0xcd6abf4b

/-- `sizeof (struct kernel_thread_frame)`. -/
def sizeofFrame : UInt32 := 12

/-- `&t->allelem`. -/
def allelem (t : UInt32) : UInt32 := t + 36

/-! ## `list.c` -/

/-- `elem->prev`. -/
def prev (elem : UInt32) : Code UInt32 := load elem

/-- `elem->next`. -/
def next (elem : UInt32) : Code UInt32 := load (elem + 4)

/-- `is_interior (elem)`. -/
def isInterior (elem : UInt32) : Code Bool := do
  let p ← prev elem
  let n ← next elem
  return elem ≠ 0 && p ≠ 0 && n ≠ 0

/-- `is_tail (elem)`. -/
def isTail (elem : UInt32) : Code Bool := do
  let p ← prev elem
  let n ← next elem
  return elem ≠ 0 && p ≠ 0 && n = 0

/-- `list_insert (before, elem)`. -/
def listInsert (before elem : UInt32) : Code Unit := do
  let interior ← isInterior before
  let tail ← isTail before
  asserts "list_insert" "is_interior (before) || is_tail (before)" (interior || tail)
  asserts "list_insert" "elem != NULL" (elem ≠ 0)
  store elem (wordBytes (← prev before))
  store (elem + 4) (wordBytes before)
  store ((← prev before) + 4) (wordBytes elem)
  store before (wordBytes elem)

/-- `list_push_back (list, elem)`; the tail of a `struct list` follows its head. -/
def listPushBack (list elem : UInt32) : Code Unit := listInsert (list + 8) elem

/-! ## `thread.c` -/

/-- `is_thread (t)`. -/
def isThread (t : UInt32) : Code Bool := do
  return t ≠ 0 && (← load (t + 148)) = threadMagic

/-- `allocate_tid ()`. -/
def allocateTid : Code UInt32 := fun m => .ok (m.nextTid, { m with nextTid := m.nextTid + 1 })

/-- `strlcpy (dst, src, size)`: at most `size - 1` characters, and a zero. -/
def strlcpy (dst : UInt32) (src : List UInt8) (size : Nat) : Code Unit :=
  store dst ((src.takeWhile (· ≠ 0)).take (size - 1) ++ [0])

/-- `init_thread (t, name)`; `all_list` is at `allList`. -/
def initThread (allList t : UInt32) (name : Option (List UInt8)) : Code Unit := do
  asserts "init_thread" "t != NULL" (t ≠ 0)
  asserts "init_thread" "name != NULL" name.isSome
  store t (List.replicate sizeofThread 0)
  store (t + 4) [2]
  strlcpy (t + 5) (name.getD []) 16
  store (t + 24) (wordBytes (t + pgsize))
  store (t + 148) (wordBytes threadMagic)
  store (t + 144) (wordBytes 9999999)
  listPushBack allList (allelem t)

/-- `alloc_frame (t, size)`. -/
def allocFrame (t size : UInt32) : Code UInt32 := do
  let valid ← isThread t
  asserts "alloc_frame" "is_thread (t)" valid
  asserts "alloc_frame" "size % sizeof (uint32_t) == 0" (size % 4 = 0)
  let stack ← load (t + 24)
  store (t + 24) (wordBytes (stack - size))
  return stack - size

/-- `thread_create (name, function, aux, duration)` from where `calloc` has returned `t` to its
call of `thread_unblock`. -/
def threadCreateStores (allList t : UInt32) (name : Option (List UInt8))
    (function aux duration : UInt32) : Code Unit := do
  initThread allList t name
  let tid ← allocateTid
  store t (wordBytes tid)
  store (t + 144) (wordBytes duration)
  let kf ← allocFrame t sizeofFrame
  store kf (wordBytes 0)
  store (kf + 4) (wordBytes function)
  store (kf + 8) (wordBytes aux)

end PicoOS.Blocks
