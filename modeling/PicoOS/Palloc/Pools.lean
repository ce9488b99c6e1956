/-
# `PicoOS.Palloc.Pools` — what `palloc_init` carves

The end of free memory that `palloc_init` is configured with lies below its start,
so the signed number of pages between them is -216 and the unsigned one is
2^32 - 216.  Everything downstream is computed from that.

The one thing that can stop `palloc_init` is an accident: the user pool begins
`user_pages` pages below the end, modulo 2^32, and for some limits that is the
address 0, which `bitmap_set_all` refuses.
-/
import Mathlib.Order.Interval.Set.Basic
import PicoOS.Palloc.InitPool

namespace PicoOS.Palloc

open Fallible

/-! ## `palloc_init` -/

/-- The addresses of a pool: its bitmap pages and its data pages. -/
def poolRange (p : Pool) (pages : UInt32) : Set Nat :=
  Set.Ico p.usedMap.toNat (p.usedMap.toNat + pages.toNat * pgsize.toNat)

/-- The pools are as they should be: no count has wrapped, all of free memory is given out, the
user pool keeps to its limit, and the pools lie apart in free memory. -/
structure ValidPools (userPageLimit : UInt32) (c : Carving) (m : Machine) : Prop where
  free_exact : (c.freePages.toNat : Int) =
    ((c.freeEnd.toNat : Int) - c.freeStart.toNat).tdiv pgsize.toNat
  kernel_exact : (c.kernelPages.toNat : Int) = c.freePages.toNat - c.userPages.toNat
  whole : c.kernelPages.toNat + c.userPages.toNat =
    (c.freeEnd.toNat - c.freeStart.toNat) / pgsize.toNat
  limited : c.userPages ≤ userPageLimit
  apart : Disjoint (poolRange (m.pools .kernelPool) c.kernelPages)
    (poolRange (m.pools .userPool) c.userPages)
  kernel_inside : poolRange (m.pools .kernelPool) c.kernelPages ⊆
    Set.Ico c.freeStart.toNat c.freeEnd.toNat
  user_inside : poolRange (m.pools .userPool) c.userPages ⊆
    Set.Ico c.freeStart.toNat c.freeEnd.toNat

/-- If `palloc_init` returns, the pools are valid. -/
def CarvesValidPools (userPageLimit : UInt32) : Prop :=
  ∀ m c m', pallocInit userPageLimit m = .ok (c, m') → ValidPools userPageLimit c m'

section Init

variable {limit : UInt32} {m : Machine}

/-- `user_pages`. -/
def userPages (limit : UInt32) : UInt32 := if 2147483540 > limit then limit else 2147483540

/-- The local variables, worked out. -/
def carving (limit : UInt32) : Carving :=
  ⟨0x40100000, 0x40028000, 4294967080, userPages limit, 4294967080 - userPages limit⟩

/-- Where the user pool begins. -/
def userStart (limit : UInt32) : UInt32 := 0x40100000 + (4294967080 - userPages limit) * pgsize

theorem pallocInit_eq (limit : UInt32) (m : Machine) : pallocInit limit m = (do
    initPool .kernelPool 0x40100000 (4294967080 - userPages limit) "kernel pool"
    initPool .userPool (userStart limit) (userPages limit) "user pool"
    return carving limit) m := by
  have hstart : ptov (1024 * 1024) m = .ok (0x40100000, m) := rfl
  have hend : ptov (40 * pgsize) m = .ok (0x40028000, m) := rfl
  have hfree : pagesBetween 0x40100000 0x40028000 = 4294967080 := by decide
  have hhalf : (4294967080 / 2 : UInt32) = 2147483540 := by decide
  unfold pallocInit
  rw [bind_ok hstart, bind_ok hend, hfree, hhalf]
  rfl

theorem userPages_toNat (limit : UInt32) :
    (userPages limit).toNat = min limit.toNat 2147483540 := by
  have hhalf : (2147483540 : UInt32).toNat = 2147483540 := rfl
  unfold userPages
  split_ifs with h
  · rw [gt_iff_lt, UInt32.lt_iff_toNat_lt] at h
    omega
  · rw [gt_iff_lt, UInt32.lt_iff_toNat_lt] at h
    omega

theorem kernelPages_toNat (limit : UInt32) :
    (4294967080 - userPages limit).toNat = 4294967080 - (userPages limit).toNat := by
  have hfree : (4294967080 : UInt32).toNat = 4294967080 := rfl
  have huser := userPages_toNat limit
  rw [UInt32.toNat_sub, hfree]
  omega

/-- The user pool begins at 0 for one limit in 2^20. -/
theorem userStart_eq_zero : userStart limit = 0 ↔
    limit.toNat ≤ 2147483540 ∧ limit.toNat % 2 ^ 20 = 262184 := by
  have hbase : (0x40100000 : UInt32).toNat = 1074790400 := rfl
  have huser := userPages_toNat limit
  rw [← UInt32.toNat_inj, userStart, UInt32.toNat_add, UInt32.toNat_mul, kernelPages_toNat,
    pgsize_toNat, hbase]
  show _ = 0 ↔ _
  omega

theorem pallocInit_returns (h0 : 1 ≤ limit) (hs : userStart limit ≠ 0) :
    Returns (pallocInit limit) m fun c _ => c = carving limit := by
  have hlimit : 1 ≤ limit.toNat := UInt32.le_iff_toNat_le.mp h0
  have huser := userPages_toNat limit
  have hkernel := kernelPages_toNat limit
  have hbase : (0x40100000 : UInt32) ≠ 0 := by decide
  have hinit : Returns (do
      initPool .kernelPool 0x40100000 (4294967080 - userPages limit) "kernel pool"
      initPool .userPool (userStart limit) (userPages limit) "user pool"
      return carving limit : Code Carving) m fun c _ => c = carving limit := by
    refine (initPool_returns hbase (by omega) (by omega) _).bind fun _ m₁ _ => ?_
    exact (initPool_returns hs (by omega) (by omega) _).bind fun _ m₂ _ => .of_ok rfl rfl
  obtain ⟨c, m', hrun, hc⟩ := hinit
  exact ⟨c, m', (pallocInit_eq limit m).trans hrun, hc⟩

theorem pallocInit_faults (h0 : 1 ≤ limit) (hs : userStart limit = 0) :
    Faults (pallocInit limit) m := by
  have hlimit : 1 ≤ limit.toNat := UInt32.le_iff_toNat_le.mp h0
  have huser := userPages_toNat limit
  have hkernel := kernelPages_toNat limit
  have hbase : (0x40100000 : UInt32) ≠ 0 := by decide
  have hinit : Faults (do
      initPool .kernelPool 0x40100000 (4294967080 - userPages limit) "kernel pool"
      initPool .userPool (userStart limit) (userPages limit) "user pool"
      return carving limit : Code Carving) m := by
    refine .after (initPool_returns hbase (by omega) (by omega) _) fun _ m₁ _ => ?_
    rw [hs]
    exact (initPool_faults (by omega) (by omega) _).bind
  obtain ⟨e, he⟩ := hinit
  exact ⟨e, (pallocInit_eq limit m).trans he⟩

/-- There is no page between the start and the end. -/
theorem carving_invalid (limit : UInt32) (m : Machine) : ¬ ValidPools limit (carving limit) m := by
  intro h
  have hwhole : (4294967080 - userPages limit).toNat + (userPages limit).toNat =
      ((0x40028000 : UInt32).toNat - (0x40100000 : UInt32).toNat) / pgsize.toNat := h.whole
  have hnone : ((0x40028000 : UInt32).toNat - (0x40100000 : UInt32).toNat) / pgsize.toNat = 0 := by
    decide
  have huser := userPages_toNat limit
  have hkernel := kernelPages_toNat limit
  omega

end Init

/-- `palloc_init` meets its contract only when it stops: it carves no valid pools for any limit,
and the limits for which it returns nothing are those that put the user pool at 0. -/
theorem pools_valid_iff {limit : UInt32} (h0 : 1 ≤ limit) : CarvesValidPools limit ↔
    limit.toNat ≤ 2147483540 ∧ limit.toNat % 2 ^ 20 = 262184 := by
  rw [← userStart_eq_zero]
  constructor
  · intro h
    by_contra hs
    have hpool : Pool := ⟨0, 0⟩
    obtain ⟨c, m', hrun, rfl⟩ := pallocInit_returns (m := ⟨fun _ => 0, 0, 0, fun _ => hpool⟩) h0 hs
    exact carving_invalid limit m' (h _ _ _ hrun)
  · intro hs m c m' hrun
    exact absurd hrun (pallocInit_faults h0 hs).not_ok

/-- With the limit 262184 the user pool would begin at 0. -/
theorem pools_valid_at_null : CarvesValidPools 262184 :=
  (pools_valid_iff (by decide)).mpr ⟨by decide, by decide⟩

/-- `palloc_init (20)`, the call that `main` does not make. -/
theorem twenty_pages_invalid : ¬ CarvesValidPools 20 := by
  intro h
  have hs : userStart 20 ≠ 0 := fun he => absurd (userStart_eq_zero.mp he).2 (by decide)
  have hpool : Pool := ⟨0, 0⟩
  obtain ⟨c, m', hrun, rfl⟩ :=
    pallocInit_returns (m := ⟨fun _ => 0, 0, 0, fun _ => hpool⟩) (by decide) hs
  exact carving_invalid 20 m' (h _ _ _ hrun)

end PicoOS.Palloc
