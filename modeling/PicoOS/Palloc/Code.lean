/-
# `PicoOS.Palloc.Code` — `palloc.c`

The page allocator's initialisation and the bitmaps it rests on.  `size_t`,
`uintptr_t` and pointers are `UInt32`, so every sum and product wraps as it does
in C; a difference of pointers is an `Int32`.

The two `asm` statements are read literally: each is one instruction on `R0` and
`R1`.  Their operand is in a register of the compiler's choice and the memory
operand is not named by the instruction, so they write nothing.

What the addresses stand for is left out: a store to an address at which there is
no memory is a store.
-/
import Mathlib.Algebra.Group.Nat.Defs
import Mathlib.Logic.Function.Basic
import PicoOS.Lib.Fallible

namespace PicoOS.Palloc

/-! ## The machine -/

/-- Why a call does not return. -/
inductive Fault where
  | assert (function condition : String)
  | panic (message : String)
  deriving DecidableEq, Repr

/-- `struct pool`. -/
structure Pool where
  usedMap : UInt32
  base : UInt32
  deriving DecidableEq, Repr

/-- The two pools. -/
inductive PoolName where
  | kernelPool
  | userPool
  deriving DecidableEq, Repr

/-- The words of the memory by their addresses, the two registers, and the pools. -/
structure Machine where
  words : UInt32 → UInt32
  r0 : UInt32
  r1 : UInt32
  pools : PoolName → Pool

/-- Code that runs on it. -/
abbrev Code (β : Type) := StateT Machine (Except Fault) β

/-- `ASSERT (condition)`. -/
abbrev asserts (function condition : String) (test : Bool) : Code Unit :=
  Fallible.require (.assert function condition) test

/-- The word at `a`. -/
def load (a : UInt32) : Code UInt32 := fun m => .ok (m.words a, m)

/-- The word at `a` becomes `v`. -/
def store (a v : UInt32) : Code Unit := fun m =>
  .ok ((), { m with words := Function.update m.words a v })

/-! ## Macros -/

/-- `PGSIZE`. -/
def pgsize : UInt32 := (1 : UInt32) <<< 12

/-- `PHYS_BASE`. -/
def physBase : UInt32 := 0x40000000

/-- `DIV_ROUND_UP (x, step)`. -/
def divRoundUp (x step : UInt32) : UInt32 := (x + step - 1) / step

/-- `sizeof (elem_type)`. -/
def sizeofElem : UInt32 := 4

/-- `ELEM_BITS`. -/
def elemBits : UInt32 := sizeofElem * 8

/-- `sizeof (struct bitmap)`. -/
def sizeofBitmap : UInt32 := 8

/-- `ptov (paddr)`. -/
def ptov (paddr : UInt32) : Code UInt32 := do
  asserts "ptov" "(void *) paddr < PHYS_BASE" (paddr < physBase)
  return paddr + physBase

/-! ## Bitmaps -/

/-- `elem_idx (bit_idx)`. -/
def elemIdx (bitIdx : UInt32) : UInt32 := bitIdx / elemBits

/-- `bit_mask (bit_idx)`. -/
def bitMask (bitIdx : UInt32) : UInt32 := (1 : UInt32) <<< (bitIdx % elemBits)

/-- `elem_cnt (bit_cnt)`. -/
def elemCnt (bitCnt : UInt32) : UInt32 := divRoundUp bitCnt elemBits

/-- `byte_cnt (bit_cnt)`. -/
def byteCnt (bitCnt : UInt32) : UInt32 := sizeofElem * elemCnt bitCnt

/-- `bitmap_buf_size (bit_cnt)`. -/
def bitmapBufSize (bitCnt : UInt32) : UInt32 := sizeofBitmap + byteCnt bitCnt

/-- `b->bit_cnt`, which is also `bitmap_size (b)`. -/
def bitmapSize (b : UInt32) : Code UInt32 := load b

/-- `asm ("ORR R0, R0, R1" : "=m" (b->bits[idx]) : "r" (mask) : "cc")`. -/
def asmOrr (_b _idx _mask : UInt32) : Code Unit := fun m => .ok ((), { m with r0 := m.r0 ||| m.r1 })

/-- `asm ("AND R0, R0, R1" : "=m" (b->bits[idx]) : "r" (~mask) : "cc")`. -/
def asmAnd (_b _idx _mask : UInt32) : Code Unit := fun m => .ok ((), { m with r0 := m.r0 &&& m.r1 })

/-- `bitmap_mark (b, bit_idx)`. -/
def bitmapMark (b bitIdx : UInt32) : Code Unit := asmOrr b (elemIdx bitIdx) (bitMask bitIdx)

/-- `bitmap_reset (b, bit_idx)`. -/
def bitmapReset (b bitIdx : UInt32) : Code Unit := asmAnd b (elemIdx bitIdx) (~~~bitMask bitIdx)

/-- `bitmap_set (b, idx, value)`. -/
def bitmapSet (b idx : UInt32) (value : Bool) : Code Unit := do
  asserts "bitmap_set" "b != NULL" (b ≠ 0)
  asserts "bitmap_set" "idx < b->bit_cnt" (idx < (← load b))
  if value then bitmapMark b idx else bitmapReset b idx

/-- The loop of `bitmap_set_multiple`, at `i` and with so many rounds to go. -/
def bitmapSetLoop (b start : UInt32) (value : Bool) : Nat → UInt32 → Code Unit
  | 0, _ => return ()
  | n + 1, i => do
      bitmapSet b (start + i) value
      bitmapSetLoop b start value n (i + 1)

/-- `bitmap_set_multiple (b, start, cnt, value)`. -/
def bitmapSetMultiple (b start cnt : UInt32) (value : Bool) : Code Unit := do
  asserts "bitmap_set_multiple" "b != NULL" (b ≠ 0)
  asserts "bitmap_set_multiple" "start <= b->bit_cnt" (start ≤ (← load b))
  asserts "bitmap_set_multiple" "start + cnt <= b->bit_cnt" (start + cnt ≤ (← load b))
  bitmapSetLoop b start value cnt.toNat 0

/-- `bitmap_set_all (b, value)`. -/
def bitmapSetAll (b : UInt32) (value : Bool) : Code Unit := do
  asserts "bitmap_set_all" "b != NULL" (b ≠ 0)
  bitmapSetMultiple b 0 (← bitmapSize b) value

/-- `bitmap_create_in_buf (bit_cnt, block, block_size)`. -/
def bitmapCreateInBuf (bitCnt block blockSize : UInt32) : Code UInt32 := do
  asserts "bitmap_create_in_buf" "block_size >= bitmap_buf_size (bit_cnt)"
    (bitmapBufSize bitCnt ≤ blockSize)
  store block bitCnt
  store (block + 4) (block + sizeofBitmap)
  bitmapSetAll block false
  return block

/-! ## Pools -/

/-- The number of pages that `init_pool` sets aside for the bitmap. -/
def bmPages (pageCnt : UInt32) : UInt32 := divRoundUp (bitmapBufSize pageCnt) pgsize

/-- `init_pool (p, base, page_cnt, name)`. -/
def initPool (p : PoolName) (base pageCnt : UInt32) (name : String) : Code Unit := do
  if bmPages pageCnt > pageCnt then
    throw (.panic ("Not enough memory in " ++ name ++ " for bitmap."))
  else
    let usedMap ← bitmapCreateInBuf (pageCnt - bmPages pageCnt) base (bmPages pageCnt * pgsize)
    modify fun m => { m with
      pools := Function.update m.pools p ⟨usedMap, base + bmPages pageCnt * pgsize⟩ }

/-- The local variables of `palloc_init`. -/
structure Carving where
  freeStart : UInt32
  freeEnd : UInt32
  freePages : UInt32
  userPages : UInt32
  kernelPages : UInt32
  deriving DecidableEq, Repr

/-- `(free_end - free_start) / PGSIZE`: the difference of two pointers and the `int` it is divided
by are signed. -/
def pagesBetween (freeStart freeEnd : UInt32) : UInt32 :=
  ((freeEnd - freeStart).toInt32 / pgsize.toInt32).toUInt32

/-- `palloc_init (user_page_limit)`; it returns its local variables, so that they can be spoken
of. -/
def pallocInit (userPageLimit : UInt32) : Code Carving := do
  let freeStart ← ptov (1024 * 1024)
  let freeEnd ← ptov (40 * pgsize)
  let freePages := pagesBetween freeStart freeEnd
  let half := freePages / 2
  let userPages := if half > userPageLimit then userPageLimit else half
  let kernelPages := freePages - userPages
  initPool .kernelPool freeStart kernelPages "kernel pool"
  initPool .userPool (freeStart + kernelPages * pgsize) userPages "user pool"
  return ⟨freeStart, freeEnd, freePages, userPages, kernelPages⟩

end PicoOS.Palloc
