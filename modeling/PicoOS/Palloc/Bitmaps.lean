/-
# `PicoOS.Palloc.Bitmaps` — the bitmaps write nothing

`bitmap_mark` and `bitmap_reset` each consist of one instruction, on `R0` and `R1`.
Neither is where the compiler keeps `b->bits[idx]`, so no function of the bitmaps
changes a word of the memory, apart from the header that `bitmap_create_in_buf`
stores.  A range of bits has the value asked for after `bitmap_set_multiple` if and
only if it had it before.
-/
import PicoOS.Lib.Fallible
import PicoOS.Palloc.Code

namespace PicoOS.Palloc

open Fallible

/-! ## What is written -/

section Bitmaps

variable {m : Machine} {b : UInt32}

/-- The words once the header of a bitmap is written at `block`. -/
def headed (words : UInt32 → UInt32) (block bitCnt : UInt32) : UInt32 → UInt32 :=
  Function.update (Function.update words block bitCnt) (block + 4) (block + sizeofBitmap)

/-- Only registers have changed. -/
def OnlyRegisters (m m' : Machine) : Prop := m'.words = m.words ∧ m'.pools = m.pools

theorem bitmapSet_returns {idx : UInt32} (hb : b ≠ 0) (hidx : idx < m.words b) (value : Bool) :
    Returns (bitmapSet b idx value) m fun _ m' => OnlyRegisters m m' := by
  refine .step (require_ok (decide_eq_true hb)) (.step rfl (.step (require_ok
    (decide_eq_true hidx)) ?_))
  cases value with
  | true => exact .of_ok rfl ⟨rfl, rfl⟩
  | false => exact .of_ok rfl ⟨rfl, rfl⟩

/-- The loop, with `n` rounds to go. -/
theorem bitmapSetLoop_returns {start : UInt32} (hb : b ≠ 0) (value : Bool) : ∀ {n : Nat}
    {i : UInt32} {m : Machine}, start.toNat + i.toNat + n ≤ (m.words b).toNat →
    Returns (bitmapSetLoop b start value n i) m fun _ m' => OnlyRegisters m m' := by
  intro n
  induction n with
  | zero => exact fun _ => .of_ok rfl ⟨rfl, rfl⟩
  | succ n ih =>
      intro i m hn
      have hlt := (m.words b).toNat_lt
      have hidx : start + i < m.words b := by
        rw [UInt32.lt_iff_toNat_lt, UInt32.toNat_add]
        omega
      refine (bitmapSet_returns hb hidx value).bind fun _ m₁ h₁ => ?_
      have hn' : start.toNat + (i + 1).toNat + n ≤ (m₁.words b).toNat := by
        rw [h₁.1, UInt32.toNat_add]
        show _ + (i.toNat + 1) % _ + n ≤ _
        omega
      obtain ⟨r, m₂, hrun, h₂⟩ := ih hn'
      exact ⟨r, m₂, hrun, h₂.1.trans h₁.1, h₂.2.trans h₁.2⟩

theorem bitmapSetMultiple_returns {start cnt : UInt32} (hb : b ≠ 0) (value : Bool)
    (hle : start.toNat + cnt.toNat ≤ (m.words b).toNat) :
    Returns (bitmapSetMultiple b start cnt value) m fun _ m' => OnlyRegisters m m' := by
  have hlt := (m.words b).toNat_lt
  have hstart : start ≤ m.words b := by
    rw [UInt32.le_iff_toNat_le]
    omega
  have hend : start + cnt ≤ m.words b := by
    rw [UInt32.le_iff_toNat_le, UInt32.toNat_add]
    omega
  refine .step (require_ok (decide_eq_true hb)) (.step rfl (.step (require_ok
    (decide_eq_true hstart)) (.step rfl (.step (require_ok (decide_eq_true hend)) ?_))))
  exact bitmapSetLoop_returns hb value hle

theorem bitmapSetAll_returns (hb : b ≠ 0) (value : Bool) :
    Returns (bitmapSetAll b value) m fun _ m' => OnlyRegisters m m' := by
  refine .step (require_ok (decide_eq_true hb)) (.step rfl ?_)
  exact bitmapSetMultiple_returns hb value (Nat.le_of_eq (Nat.zero_add _))

/-- `bitmap_create_in_buf` in a block that is large enough and not at 0 writes the header of the
bitmap, and nothing else. -/
theorem bitmapCreateInBuf_returns {bitCnt block blockSize : UInt32} (hb : block ≠ 0)
    (hsize : bitmapBufSize bitCnt ≤ blockSize) :
    Returns (bitmapCreateInBuf bitCnt block blockSize) m fun r m' =>
      r = block ∧ m'.pools = m.pools ∧ m'.words = headed m.words block bitCnt := by
  refine .step (require_ok (decide_eq_true hsize)) (.step rfl (.step rfl ?_))
  exact (bitmapSetAll_returns hb false).bind fun _ m' h => .of_ok rfl ⟨rfl, h.2, h.1⟩

/-- At 0 it stops, once the header is written. -/
theorem bitmapCreateInBuf_faults {bitCnt blockSize : UInt32}
    (hsize : bitmapBufSize bitCnt ≤ blockSize) :
    Faults (bitmapCreateInBuf bitCnt 0 blockSize) m := by
  refine .step (require_ok (decide_eq_true hsize)) (.step rfl (.step rfl ?_))
  exact .bind (.bind ⟨_, rfl⟩)

end Bitmaps

/-! ## The bits -/

/-- `(bits[i / 32] >> (i % 32)) & 1`. -/
def bitOf (words : UInt32 → UInt32) (bits i : UInt32) : Bool :=
  (words (bits + sizeofElem * elemIdx i) >>> (i % elemBits)) &&& 1 = 1

/-- The bit `i` of the bitmap `b`. -/
def bitAt (m : Machine) (b i : UInt32) : Bool := bitOf m.words (m.words (b + 4)) i

/-- `bitmap_set_multiple (b, start, cnt, value)` gives the bits of the range the value, and leaves the
others as they are. -/
def SetsRange (b start cnt : UInt32) (value : Bool) (m : Machine) : Prop :=
  Returns (bitmapSetMultiple b start cnt value) m fun _ m' => ∀ i < m.words b,
    bitAt m' b i =
      if start ≤ i ∧ i.toNat < start.toNat + cnt.toNat then value else bitAt m b i

/-- After `bitmap_create_in_buf (bit_cnt, block, block_size)` every bit is 0. -/
def CreatesCleared (bitCnt block blockSize : UInt32) (m : Machine) : Prop :=
  Returns (bitmapCreateInBuf bitCnt block blockSize) m fun b m' => ∀ i < bitCnt,
    bitAt m' b i = false

section Bits

variable {m : Machine} {b : UInt32}

theorem bitAt_congr {m' : Machine} (h : m'.words = m.words) (i : UInt32) :
    bitAt m' b i = bitAt m b i := by
  unfold bitAt
  rw [h]

theorem setsRange_iff {start cnt : UInt32} {value : Bool} (hb : b ≠ 0)
    (hle : start.toNat + cnt.toNat ≤ (m.words b).toNat) :
    SetsRange b start cnt value m ↔
      ∀ i, start ≤ i → i.toNat < start.toNat + cnt.toNat → bitAt m b i = value := by
  obtain ⟨r, m₁, hrun, hwords, -⟩ := bitmapSetMultiple_returns hb value hle
  constructor
  · rintro ⟨r', m', hrun', hbits⟩ i hstart hend
    cases hrun.symm.trans hrun'
    have hi : i < m.words b := by
      rw [UInt32.lt_iff_toNat_lt]
      omega
    have hbit := hbits i hi
    rwa [if_pos ⟨hstart, hend⟩, bitAt_congr hwords] at hbit
  · intro hvalue
    refine ⟨r, m₁, hrun, fun i _ => ?_⟩
    rw [bitAt_congr hwords]
    split
    next hi => exact hvalue i hi.1 hi.2
    next => rfl

/-- The words of the bits come after the header. -/
theorem headed_bits (words : UInt32 → UInt32) (block bitCnt i : UInt32) :
    headed words block bitCnt (block + sizeofBitmap + sizeofElem * elemIdx i) =
      words (block + sizeofBitmap + sizeofElem * elemIdx i) := by
  have hidx : (elemIdx i).toNat = i.toNat / 32 := UInt32.toNat_div ..
  have hlt := i.toNat_lt
  have hoff : (sizeofElem * elemIdx i).toNat = 4 * (i.toNat / 32) := by
    rw [UInt32.toNat_mul, hidx]
    exact Nat.mod_eq_of_lt (show 4 * (i.toNat / 32) < 2 ^ 32 by omega)
  have haddr : (block + sizeofBitmap + sizeofElem * elemIdx i).toNat =
      ((block.toNat + 8) % 2 ^ 32 + 4 * (i.toNat / 32)) % 2 ^ 32 := by
    rw [UInt32.toNat_add, UInt32.toNat_add, hoff]
    rfl
  have hblock := block.toNat_lt
  have hfirst : block + sizeofBitmap + sizeofElem * elemIdx i ≠ block := by
    intro he
    rw [← UInt32.toNat_inj, haddr] at he
    omega
  have hsecond : block + sizeofBitmap + sizeofElem * elemIdx i ≠ block + 4 := by
    intro he
    rw [← UInt32.toNat_inj, haddr, UInt32.toNat_add] at he
    have hfour : (4 : UInt32).toNat = 4 := rfl
    omega
  rw [headed, Function.update_of_ne hsecond, Function.update_of_ne hfirst]

theorem createsCleared_iff {bitCnt block blockSize : UInt32} (hb : block ≠ 0)
    (hsize : bitmapBufSize bitCnt ≤ blockSize) :
    CreatesCleared bitCnt block blockSize m ↔
      ∀ i < bitCnt, bitOf m.words (block + sizeofBitmap) i = false := by
  obtain ⟨r, m₁, hrun, rfl, -, hwords⟩ := bitmapCreateInBuf_returns (m := m) hb hsize
  have hbits : ∀ i, bitAt m₁ r i = bitOf m.words (r + sizeofBitmap) i := by
    intro i
    have hptr : m₁.words (r + 4) = r + sizeofBitmap := by
      rw [hwords]
      exact Function.update_self ..
    rw [bitAt, hptr, bitOf, bitOf, hwords, headed_bits]
  constructor
  · rintro ⟨r', m', hrun', hclear⟩ i hi
    cases hrun.symm.trans hrun'
    exact (hbits i).symm.trans (hclear i hi)
  · intro hclear
    exact ⟨r, m₁, hrun, fun i hi => (hbits i).trans (hclear i hi)⟩

end Bits

/-! ## Setting a range -/

/-- `bitmap_set_multiple` sets a range if and only if all its bits have the value already, and
`bitmap_create_in_buf` clears a bitmap if and only if the buffer holds zeros. -/
theorem range_set_iff (m : Machine) :
    (∀ (b start cnt : UInt32) (value : Bool), b ≠ 0 →
      start.toNat + cnt.toNat ≤ (m.words b).toNat →
      (SetsRange b start cnt value m ↔
        ∀ i, start ≤ i → i.toNat < start.toNat + cnt.toNat → bitAt m b i = value)) ∧
    ∀ bitCnt block blockSize : UInt32, block ≠ 0 → bitmapBufSize bitCnt ≤ blockSize →
      (CreatesCleared bitCnt block blockSize m ↔
        ∀ i < bitCnt, bitOf m.words (block + sizeofBitmap) i = false) :=
  ⟨fun _ _ _ _ hb hle => setsRange_iff hb hle, fun _ _ _ hb hsize => createsCleared_iff hb hsize⟩

/-- A bitmap of 32 bits at 0x20000000, in the word `w`. -/
def oneWord (w : UInt32) : Machine where
  words a := if a = 0x20000000 then 32 else if a = 0x20000004 then 0x20000008
    else if a = 0x20000008 then w else 0
  r0 := 0
  r1 := 0
  pools := fun _ => ⟨0, 0⟩

/-- The bit 0 is set where it is set already. -/
theorem range_set_again : SetsRange 0x20000000 0 1 true (oneWord 1) := by
  refine ((range_set_iff (oneWord 1)).1 _ _ _ _ (by decide) (by decide)).mpr fun i _ hi => ?_
  have hzero : i = 0 := by
    rw [← UInt32.toNat_inj]
    exact Nat.lt_one_iff.mp hi
  rw [hzero]
  decide

/-- It is not set where it is not, and a buffer of ones is not cleared. -/
theorem range_not_set : ¬ SetsRange 0x20000000 0 1 true (oneWord 0) ∧
    ¬ CreatesCleared 32 0x20000000 4096 (oneWord 0xffffffff) := by
  refine ⟨fun h => ?_, fun h => ?_⟩
  · have hbit := (setsRange_iff (by decide) (by decide)).mp h 0 (by decide) (by decide)
    exact absurd hbit (by decide)
  · have hbit := (createsCleared_iff (by decide) (by decide)).mp h 0 (by decide)
    exact absurd hbit (by decide)

end PicoOS.Palloc
