/-
# `PicoOS.Palloc.InitPool` — the bitmap in front of a pool

`init_pool` sizes the bitmap for all pages of the pool, rounds up to whole pages and
then creates it for the pages that are left.  For every pool that the address space
can hold, none of the roundings wraps, the bitmap fits, and the two parts are the
pool.

A range of pages may run over the end of the address space: `pagesFrom` tells it by
the distance from its start, so that nothing has to be assumed about the base.
-/
import Mathlib.Data.Set.BooleanAlgebra
import Mathlib.Order.CompletePartialOrder
import PicoOS.Palloc.Bitmaps

namespace PicoOS.Palloc

open Fallible

/-! ## Sizes -/

theorem pgsize_toNat : pgsize.toNat = 4096 := rfl

theorem divRoundUp_toNat {x step : UInt32} (h0 : 0 < step.toNat)
    (h : x.toNat + step.toNat ≤ 2 ^ 32) :
    (divRoundUp x step).toNat = (x.toNat + step.toNat - 1) / step.toNat := by
  have hone : (1 : UInt32).toNat = 1 := rfl
  have hnum : (x + step - 1).toNat = x.toNat + step.toNat - 1 := by
    rw [UInt32.toNat_sub, UInt32.toNat_add, hone]
    omega
  rw [divRoundUp, UInt32.toNat_div, hnum]

theorem elemCnt_toNat {n : UInt32} (hn : n.toNat ≤ 2 ^ 32 - 32) :
    (elemCnt n).toNat = (n.toNat + 31) / 32 := by
  have hbits : elemBits.toNat = 32 := rfl
  rw [elemCnt, divRoundUp_toNat (by omega) (by omega), hbits]
  rfl

theorem byteCnt_toNat {n : UInt32} (hn : n.toNat ≤ 2 ^ 32 - 32) :
    (byteCnt n).toNat = 4 * ((n.toNat + 31) / 32) := by
  have hword : sizeofElem.toNat = 4 := rfl
  rw [byteCnt, UInt32.toNat_mul, elemCnt_toNat hn, hword]
  omega

theorem bitmapBufSize_toNat {n : UInt32} (hn : n.toNat ≤ 2 ^ 32 - 32) :
    (bitmapBufSize n).toNat = 8 + 4 * ((n.toNat + 31) / 32) := by
  have hsize : sizeofBitmap.toNat = 8 := rfl
  rw [bitmapBufSize, UInt32.toNat_add, byteCnt_toNat hn, hsize]
  omega

theorem bmPages_toNat {n : UInt32} (hn : n.toNat ≤ 2 ^ 32 - 32) :
    (bmPages n).toNat = (8 + 4 * ((n.toNat + 31) / 32) + 4095) / 4096 := by
  have hbuf := bitmapBufSize_toNat hn
  have hpg := pgsize_toNat
  rw [bmPages, divRoundUp_toNat (by omega) (by omega), hbuf, hpg]
  rfl

theorem block_toNat {n : UInt32} (hn : n.toNat ≤ 2 ^ 32 - 32) :
    (bmPages n * pgsize).toNat = (bmPages n).toNat * 4096 := by
  have hbm := bmPages_toNat hn
  rw [UInt32.toNat_mul, pgsize_toNat, Nat.mod_eq_of_lt]
  omega

/-- A pool of at least one page has room for its bitmap. -/
theorem bmPages_le {n : UInt32} (h0 : 0 < n.toNat) (hn : n.toNat ≤ 2 ^ 32 - 32) :
    bmPages n ≤ n := by
  rw [UInt32.le_iff_toNat_le, bmPages_toNat hn]
  omega

/-- The bitmap of the pages that are left fits into the pages set aside. -/
theorem bitmap_fits {n : UInt32} (h0 : 0 < n.toNat) (hn : n.toNat ≤ 2 ^ 32 - 32) :
    bitmapBufSize (n - bmPages n) ≤ bmPages n * pgsize := by
  have hbm := bmPages_toNat hn
  have hle := UInt32.le_iff_toNat_le.mp (bmPages_le h0 hn)
  have hsub : (n - bmPages n).toNat = n.toNat - (bmPages n).toNat :=
    UInt32.toNat_sub_of_le _ _ (bmPages_le h0 hn)
  have hfewer : ((n - bmPages n).toNat + 31) / 32 ≤ (n.toNat + 31) / 32 :=
    Nat.div_le_div_right (by omega)
  rw [UInt32.le_iff_toNat_le, bitmapBufSize_toNat (by omega), block_toNat hn]
  omega

/-- So does the word of each of its bits. -/
theorem word_fits {n i : UInt32} (h0 : 0 < n.toNat) (hn : n.toNat ≤ 2 ^ 32 - 32)
    (hi : i < n - bmPages n) : 8 + 4 * (elemIdx i).toNat + 4 ≤ (bmPages n).toNat * 4096 := by
  have hbm := bmPages_toNat hn
  have hidx : (elemIdx i).toNat = i.toNat / 32 := UInt32.toNat_div ..
  rw [UInt32.lt_iff_toNat_lt, UInt32.toNat_sub_of_le _ _ (bmPages_le h0 hn)] at hi
  omega

/-! ## Pools -/

section Pools

variable {m : Machine} {p : PoolName} {base pageCnt : UInt32}

theorem initPool_returns (hb : base ≠ 0) (h0 : 0 < pageCnt.toNat)
    (hn : pageCnt.toNat ≤ 2 ^ 32 - 32) (name : String) :
    Returns (initPool p base pageCnt name) m fun _ m' =>
      m'.pools = Function.update m.pools p ⟨base, base + bmPages pageCnt * pgsize⟩ ∧
        m'.words = headed m.words base (pageCnt - bmPages pageCnt) := by
  have hle : ¬ bmPages pageCnt > pageCnt := UInt32.not_lt.mpr (bmPages_le h0 hn)
  unfold initPool
  rw [if_neg hle]
  refine (bitmapCreateInBuf_returns hb (bitmap_fits h0 hn)).bind fun r m' h => ?_
  refine .of_ok rfl ⟨?_, h.2.2⟩
  show Function.update m'.pools p _ = _
  rw [h.1, h.2.1]

theorem initPool_faults (h0 : 0 < pageCnt.toNat) (hn : pageCnt.toNat ≤ 2 ^ 32 - 32)
    (name : String) : Faults (initPool p 0 pageCnt name) m := by
  have hle : ¬ bmPages pageCnt > pageCnt := UInt32.not_lt.mpr (bmPages_le h0 hn)
  unfold initPool
  rw [if_neg hle]
  exact (bitmapCreateInBuf_faults (bitmap_fits h0 hn)).bind

/-- If it does not PANIC, there is at least one page. -/
theorem pos_of_not_panic (name : String)
    (h : ∀ message, initPool p base pageCnt name m ≠ .error (.panic message)) :
    0 < pageCnt.toNat := by
  rcases Nat.eq_zero_or_pos pageCnt.toNat with h0 | hpos
  · have hzero : pageCnt = 0 := UInt32.toNat_inj.mp h0
    subst hzero
    exact absurd rfl (h ("Not enough memory in " ++ name ++ " for bitmap."))
  · exact hpos

end Pools

/-! ## Room for the bitmap -/

/-- Nothing wraps in `bitmap_buf_size (n)`. -/
structure SizeExact (n : UInt32) : Prop where
  round : (n + elemBits).toNat = n.toNat + elemBits.toNat
  elems : (elemCnt n).toNat = (n.toNat + elemBits.toNat - 1) / elemBits.toNat
  bytes : (byteCnt n).toNat = sizeofElem.toNat * (elemCnt n).toNat
  buffer : (bitmapBufSize n).toNat = sizeofBitmap.toNat + (byteCnt n).toNat

/-- The addresses of the `n` pages from `a` on. -/
def pagesFrom (a n : UInt32) : Set UInt32 := {x | (x - a).toNat < n.toNat * pgsize.toNat}

/-- The pool of `pageCnt` pages at `base` is its bitmap followed by its data pages. -/
structure BitmapInFront (base pageCnt : UInt32) : Prop where
  size : SizeExact pageCnt
  size_rest : SizeExact (pageCnt - bmPages pageCnt)
  round : (bitmapBufSize pageCnt + pgsize).toNat = (bitmapBufSize pageCnt).toNat + pgsize.toNat
  pages : (bmPages pageCnt).toNat =
    ((bitmapBufSize pageCnt).toNat + pgsize.toNat - 1) / pgsize.toNat
  block : (bmPages pageCnt * pgsize).toNat = (bmPages pageCnt).toNat * pgsize.toNat
  whole : (bmPages pageCnt).toNat + (pageCnt - bmPages pageCnt).toNat = pageCnt.toNat
  /-- The `ASSERT` of `bitmap_create_in_buf`. -/
  fits : bitmapBufSize (pageCnt - bmPages pageCnt) ≤ bmPages pageCnt * pgsize
  /-- The word of every bit ends within the bitmap's pages. -/
  words : ∀ i < pageCnt - bmPages pageCnt, sizeofBitmap.toNat +
    sizeofElem.toNat * (elemIdx i).toNat + sizeofElem.toNat ≤ (bmPages pageCnt * pgsize).toNat
  /-- No byte of it is in a data page. -/
  marks : ∀ i < pageCnt - bmPages pageCnt, ∀ k < sizeofElem,
    base + (sizeofBitmap + sizeofElem * elemIdx i + k) ∉
      pagesFrom (base + bmPages pageCnt * pgsize) (pageCnt - bmPages pageCnt)
  tile : pagesFrom base (bmPages pageCnt) ∪
    pagesFrom (base + bmPages pageCnt * pgsize) (pageCnt - bmPages pageCnt) =
    pagesFrom base pageCnt
  apart : Disjoint (pagesFrom base (bmPages pageCnt))
    (pagesFrom (base + bmPages pageCnt * pgsize) (pageCnt - bmPages pageCnt))

theorem sizeExact {n : UInt32} (hn : n.toNat ≤ 2 ^ 20) : SizeExact n := by
  have hbits : elemBits.toNat = 32 := rfl
  have helems := elemCnt_toNat (n := n) (by omega)
  have hbytes := byteCnt_toNat (n := n) (by omega)
  refine ⟨?_, ?_, ?_, ?_⟩
  · rw [UInt32.toNat_add]
    omega
  · rw [helems, hbits]
    rfl
  · rw [hbytes, helems]
    rfl
  · rw [bitmapBufSize_toNat (by omega), hbytes]
    rfl

/-- The distance from a later start. -/
theorem toNat_sub_add (x a c : UInt32) : (x - (a + c)).toNat =
    if c.toNat ≤ (x - a).toNat then (x - a).toNat - c.toNat
    else 2 ^ 32 + (x - a).toNat - c.toNat := by
  have hx := x.toNat_lt
  have ha := a.toNat_lt
  have hc := c.toNat_lt
  rw [UInt32.toNat_sub, UInt32.toNat_sub, UInt32.toNat_add]
  split <;> omega

/-- A range of pages, cut in two. -/
theorem pagesFrom_cut (a : UInt32) {n k r : UInt32} (hsize : n.toNat * pgsize.toNat ≤ 2 ^ 32)
    (hsum : k.toNat + r.toNat = n.toNat) (hk : (k * pgsize).toNat = k.toNat * pgsize.toNat) :
    pagesFrom a k ∪ pagesFrom (a + k * pgsize) r = pagesFrom a n ∧
      Disjoint (pagesFrom a k) (pagesFrom (a + k * pgsize) r) := by
  have hpg := pgsize_toNat
  have hiff : ∀ x, x ∈ pagesFrom (a + k * pgsize) r ↔
      k.toNat * 4096 ≤ (x - a).toNat ∧ (x - a).toNat < n.toNat * 4096 := by
    intro x
    show (x - (a + k * pgsize)).toNat < r.toNat * pgsize.toNat ↔ _
    rw [toNat_sub_add, hk, hpg]
    rw [hpg] at hsize
    split <;> omega
  refine ⟨Set.ext fun x => ?_, Set.disjoint_left.mpr fun x hx hx' => ?_⟩
  · rw [Set.mem_union, hiff]
    show (x - a).toNat < k.toNat * pgsize.toNat ∨ _ ↔ (x - a).toNat < n.toNat * pgsize.toNat
    rw [hpg]
    omega
  · have hlt : (x - a).toNat < k.toNat * pgsize.toNat := hx
    rw [hpg] at hlt
    have hge := ((hiff x).mp hx').1
    omega

/-- Every byte of the word of a bit is in the pages set aside. -/
theorem word_mem {base n i k : UInt32} (h0 : 0 < n.toNat) (hn : n.toNat ≤ 2 ^ 32 - 32)
    (hi : i < n - bmPages n) (hk : k < sizeofElem) :
    base + (sizeofBitmap + sizeofElem * elemIdx i + k) ∈ pagesFrom base (bmPages n) := by
  have hword := word_fits h0 hn hi
  have hbm := bmPages_toNat hn
  have hk' : k.toNat < 4 := UInt32.lt_iff_toNat_lt.mp hk
  show (base + _ - base).toNat < (bmPages n).toNat * pgsize.toNat
  rw [UInt32.add_comm, UInt32.add_sub_cancel, pgsize_toNat, UInt32.toNat_add, UInt32.toNat_add,
    UInt32.toNat_mul]
  show ((8 + 4 * (elemIdx i).toNat % 2 ^ 32) % 2 ^ 32 + k.toNat) % 2 ^ 32 < _
  omega

/-- For every number of pages up to 2^32 bytes for which `init_pool` does not PANIC, and every base,
the bitmap fits in front of the pool. -/
theorem bitmap_in_front {m : Machine} {p : PoolName} {base pageCnt : UInt32} {name : String}
    (hcnt : pageCnt.toNat * pgsize.toNat ≤ 2 ^ 32)
    (hpanic : ∀ message, initPool p base pageCnt name m ≠ .error (.panic message)) :
    BitmapInFront base pageCnt ∧ (base ≠ 0 → Returns (initPool p base pageCnt name) m fun _ m' =>
      m'.pools p = ⟨base, base + bmPages pageCnt * pgsize⟩ ∧
        m'.words = headed m.words base (pageCnt - bmPages pageCnt)) := by
  have hpos := pos_of_not_panic name hpanic
  have hpg := pgsize_toNat
  have hn : pageCnt.toNat ≤ 2 ^ 20 := by
    rw [hpg] at hcnt
    omega
  have hn' : pageCnt.toNat ≤ 2 ^ 32 - 32 := by omega
  have hbuf := bitmapBufSize_toNat hn'
  have hblock := block_toNat hn'
  have hle := bmPages_le hpos hn'
  have hrest : (pageCnt - bmPages pageCnt).toNat = pageCnt.toNat - (bmPages pageCnt).toNat :=
    UInt32.toNat_sub_of_le _ _ hle
  have hwhole : (bmPages pageCnt).toNat + (pageCnt - bmPages pageCnt).toNat = pageCnt.toNat := by
    rw [UInt32.le_iff_toNat_le] at hle
    omega
  obtain ⟨htile, hapart⟩ := pagesFrom_cut base hcnt hwhole hblock
  refine ⟨⟨sizeExact hn, sizeExact (by omega), ?_, ?_, hblock, hwhole, bitmap_fits hpos hn', ?_,
    ?_, htile, hapart⟩, fun hb => ?_⟩
  · rw [UInt32.toNat_add, hpg]
    omega
  · rw [bmPages_toNat hn', hbuf, hpg]
    rfl
  · intro i hi
    rw [hblock]
    exact word_fits hpos hn' hi
  · intro i hi k hk
    exact Set.disjoint_left.mp hapart (word_mem hpos hn' hi hk)
  · obtain ⟨r, m', hrun, hpools, hwords⟩ := initPool_returns hb hpos hn' name
    refine ⟨r, m', hrun, ?_, hwords⟩
    rw [hpools, Function.update_self]

/-- A pool of 20 pages at 0x20010000: one page for the bitmap, 19 for the data. -/
theorem bitmap_in_front_twenty_pages :
    BitmapInFront 0x20010000 20 ∧ bmPages 20 = 1 := by
  let m : Machine := ⟨fun _ => 0, 0, 0, fun _ => ⟨0, 0⟩⟩
  have hbase : (0x20010000 : UInt32) ≠ 0 := by decide
  have hpos : 0 < (20 : UInt32).toNat := by decide
  have hle : (20 : UInt32).toNat ≤ 2 ^ 32 - 32 := by decide
  obtain ⟨r, m', hrun, -⟩ :=
    initPool_returns (m := m) (p := .kernelPool) hbase hpos hle "kernel pool"
  have hpanic : ∀ message,
      initPool .kernelPool 0x20010000 20 "kernel pool" m ≠ .error (.panic message) := by
    intro message he
    rw [hrun] at he
    cases he
  exact ⟨(bitmap_in_front (by decide) hpanic).1, by decide⟩

end PicoOS.Palloc
