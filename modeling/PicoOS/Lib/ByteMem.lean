/-
# `PicoOS.Lib.ByteMem` — a 32-bit memory of bytes

A memory is a map from addresses to bytes, a write is a list of bytes at an
address, and a word is four bytes, the lowest first.  Addresses go round: `Within`
asks for the distance from the start, so that a range at the end of the memory
needs no case of its own.  For a range that does not go round it is the interval.
-/
import Mathlib.Algebra.Group.Nat.Defs
import Mathlib.Data.List.GetD

namespace ByteMem

/-- The bytes of a memory, by their addresses. -/
abbrev Bytes := UInt32 → UInt8

/-- `x` is one of the `n` addresses from `a` on. -/
def Within (a : UInt32) (n : Nat) (x : UInt32) : Prop := (x - a).toNat < n

instance (a : UInt32) (n : Nat) (x : UInt32) : Decidable (Within a n x) :=
  inferInstanceAs (Decidable (_ < _))

/-- The bytes `bs` at `a`. -/
def write (m : Bytes) (a : UInt32) (bs : List UInt8) : Bytes := fun x =>
  bs.getD (x - a).toNat (m x)

/-- The four bytes of a word. -/
def wordBytes (v : UInt32) : List UInt8 :=
  [.ofNat v.toNat, .ofNat (v.toNat / 2 ^ 8), .ofNat (v.toNat / 2 ^ 16), .ofNat (v.toNat / 2 ^ 24)]

/-- The word at `a`. -/
def readWord (m : Bytes) (a : UInt32) : UInt32 :=
  .ofNat ((m a).toNat + 2 ^ 8 * (m (a + 1)).toNat + 2 ^ 16 * (m (a + 2)).toNat +
    2 ^ 24 * (m (a + 3)).toNat)

/-! ## Ranges -/

section Ranges

variable {a t d x : UInt32} {n : Nat}

/-- A range inside a larger one, by its offset. -/
theorem within_offset (hd : d.toNat + n ≤ 2 ^ 32) :
    Within (t + d) n x ↔ d.toNat ≤ (x - t).toNat ∧ (x - t).toNat < d.toNat + n := by
  have hx := x.toNat_lt
  have ht := t.toNat_lt
  rw [Within, UInt32.toNat_sub, UInt32.toNat_add, UInt32.toNat_sub]
  omega

theorem Within.of_offset {k : Nat} (hd : d.toNat + n ≤ k) (hk : k ≤ 2 ^ 32)
    (h : Within (t + d) n x) : Within t k x := by
  have hoff := (within_offset (Nat.le_trans hd hk)).mp h
  rw [Within]
  omega

/-- Two ranges, one after the other. -/
theorem Within.not_above {b : UInt32} {k : Nat} (h : a.toNat + n ≤ b.toNat)
    (hb : b.toNat + k ≤ 2 ^ 32) (ha : Within a n x) : ¬ Within b k x := by
  have hx := x.toNat_lt
  have hb' := b.toNat_lt
  rw [Within, UInt32.toNat_sub] at *
  omega

/-- In a range that does not go round, only the first address can be 0. -/
theorem offset_ne_zero (h : t.toNat + n ≤ 2 ^ 32) (hd : d.toNat < n) (h0 : 0 < d.toNat) :
    t + d ≠ 0 := by
  intro he
  have hnat := congrArg UInt32.toNat he
  have hzero : (0 : UInt32).toNat = 0 := rfl
  rw [UInt32.toNat_add] at hnat
  omega

/-- The bytes of a word lie within it. -/
theorem within_word (a : UInt32) : Within a 4 a ∧ Within a 4 (a + 1) ∧ Within a 4 (a + 2) ∧
    Within a 4 (a + 3) := by
  have ha := a.toNat_lt
  have h1 : (1 : UInt32).toNat = 1 := rfl
  have h2 : (2 : UInt32).toNat = 2 := rfl
  have h3 : (3 : UInt32).toNat = 3 := rfl
  simp only [Within, UInt32.toNat_sub, UInt32.toNat_add]
  omega

end Ranges

/-! ## Reading what was written -/

section Writes

variable {m : Bytes} {a b x : UInt32} {bs : List UInt8} {v : UInt32}

theorem write_off (h : ¬ Within a bs.length x) : write m a bs x = m x := by
  rw [write, List.getD, List.getElem?_eq_none (Nat.le_of_not_lt h)]
  rfl

theorem write_on (h : Within a bs.length x) (b : UInt8) :
    write m a bs x = bs.getD (x - a).toNat b := by
  rw [write, List.getD, List.getD, List.getElem?_eq_getElem h]
  rfl

theorem write_at {k : UInt32} {n : Nat} {c : UInt8} (hk : k.toNat = n) (hc : bs[n]? = some c) :
    write m a bs (a + k) = c := by
  have hn : (a + k - a).toNat = n := by
    have hlt := k.toNat_lt
    have hlt' := a.toNat_lt
    rw [UInt32.toNat_sub, UInt32.toNat_add]
    omega
  rw [write, List.getD, hn, hc]
  rfl

/-- Two writes in a row. -/
theorem write_append {d : UInt32} {cs : List UInt8} (hd : d.toNat = bs.length)
    (h : d.toNat + cs.length ≤ 2 ^ 32) :
    write (write m a bs) (a + d) cs = write m a (bs ++ cs) := by
  funext x
  have hlen : (bs ++ cs).length = d.toNat + cs.length := by rw [List.length_append, hd]
  by_cases hin : Within (a + d) cs.length x
  · obtain ⟨hle, hlt⟩ := (within_offset h).mp hin
    have hin' : Within a (bs ++ cs).length x := by rwa [Within, hlen]
    have hsub : (x - (a + d)).toNat = (x - a).toNat - bs.length := by
      have hx := x.toNat_lt
      have ha := a.toNat_lt
      rw [UInt32.toNat_sub, UInt32.toNat_add, UInt32.toNat_sub] at *
      omega
    rw [write_on hin 0, write_on hin' 0, List.getD_append_right _ _ _ _ (hd ▸ hle), hsub]
  · rw [write_off hin]
    by_cases hin' : Within a bs.length x
    · have hin'' : Within a (bs ++ cs).length x := by
        rw [Within] at hin' ⊢
        omega
      rw [write_on hin' 0, write_on hin'' 0, List.getD_append _ _ _ _ hin']
    · have hout : ¬ Within a (bs ++ cs).length x := by
        rw [within_offset h] at hin
        rw [Within] at hin' ⊢
        omega
      rw [write_off hin', write_off hout]

theorem write_congr {m' : Bytes} (h : m' x = m x) : write m' a bs x = write m a bs x := by
  rw [write, write, h]

theorem readWord_congr {m' : Bytes} (h : ∀ x, Within a 4 x → m' x = m x) :
    readWord m' a = readWord m a := by
  obtain ⟨h0, h1, h2, h3⟩ := within_word a
  simp only [readWord]
  rw [h _ h0, h _ h1, h _ h2, h _ h3]

theorem readWord_off (h : ∀ x, Within b 4 x → ¬ Within a bs.length x) :
    readWord (write m a bs) b = readWord m b :=
  readWord_congr fun x hx => write_off (h x hx)

theorem readWord_write (m : Bytes) (a v : UInt32) : readWord (write m a (wordBytes v)) a = v := by
  have h0 : write m a (wordBytes v) (a + 0) = .ofNat v.toNat := write_at (n := 0) rfl rfl
  rw [UInt32.add_zero] at h0
  have h1 : write m a (wordBytes v) (a + 1) = .ofNat (v.toNat / 2 ^ 8) := write_at (n := 1) rfl rfl
  have h2 : write m a (wordBytes v) (a + 2) = .ofNat (v.toNat / 2 ^ 16) := write_at (n := 2) rfl rfl
  have h3 : write m a (wordBytes v) (a + 3) = .ofNat (v.toNat / 2 ^ 24) := write_at (n := 3) rfl rfl
  have hv := v.toNat_lt
  rw [readWord, h0, h1, h2, h3, ← UInt32.toNat_inj]
  simp only [UInt32.toNat_ofNat', UInt8.toNat_ofNat']
  omega

end Writes

end ByteMem
