/-
# `PicoOS.Blocks.Frame` — where `thread_create` writes

The stack of a new thread is set up for a page, but the block that `calloc`
returns has only the 152 bytes of the `struct thread`: the frame of
`kernel_thread` goes to the bytes 4084 to 4095 after its start, into whatever lies
there.

`Laid` is the memory as `thread_create` finds it, with the blocks of the live
threads apart from the new one.  The fields of the new thread and the links of
`all_list` are followed through the stores; outside the new block what is left of
them is `relinked`, and the frame over it.
-/
import PicoOS.Lib.Fallible
import PicoOS.Blocks.Code

namespace PicoOS.Blocks

open Fallible ByteMem

/-! ## Fields of a block -/

section Fields

variable {m : Bytes} {t d e x : UInt32} {bs : List UInt8}

/-- A store to a field is not seen outside the block. -/
theorem field_off (hd : d.toNat + bs.length ≤ sizeofThread) (hx : ¬ Within t sizeofThread x) :
    write m (t + d) bs x = m x :=
  write_off fun h => hx (h.of_offset hd (by decide))

/-- Nor in another field. -/
theorem field_other (hd : d.toNat + bs.length ≤ sizeofThread) (he : e.toNat + 4 ≤ sizeofThread)
    (hde : d.toNat + bs.length ≤ e.toNat ∨ e.toNat + 4 ≤ d.toNat) :
    readWord (write m (t + d) bs) (t + e) = readWord m (t + e) := by
  have hsize : sizeofThread = 152 := rfl
  refine readWord_off fun x hx hx' => ?_
  have hoff := (within_offset (by omega)).mp hx
  have hoff' := (within_offset (by omega)).mp hx'
  omega

/-- The same of words. -/
theorem word_off {v : UInt32} (hd : d.toNat + 4 ≤ sizeofThread) (hx : ¬ Within t sizeofThread x) :
    write m (t + d) (wordBytes v) x = m x :=
  field_off hd hx

theorem word_other {v : UInt32} (hd : d.toNat + 4 ≤ sizeofThread) (he : e.toNat + 4 ≤ sizeofThread)
    (hde : d.toNat + 4 ≤ e.toNat ∨ e.toNat + 4 ≤ d.toNat) :
    readWord (write m (t + d) (wordBytes v)) (t + e) = readWord m (t + e) :=
  field_other hd he hde

end Fields

/-! ## The memory that `thread_create` finds -/

/-- `all_list.tail.prev->next`, the link of another thread that `list_push_back` rewrites. -/
def lastLink (allList : UInt32) (m : Memory) : UInt32 := readWord m.bytes (allList + 8) + 4

/-- The blocks of the live threads and the new one are apart; `all_list` is in none of them, it
has a last cell, and the new block is not yet on it. -/
structure Laid (allList t : UInt32) (live : List UInt32) (m : Memory) : Prop where
  allocated : t ≠ 0
  block : t.toNat + sizeofThread ≤ 2 ^ 32
  lists : allList.toNat + 16 ≤ 2 ^ 32
  fresh : ∀ b ∈ live, ∀ x, Within b sizeofThread x → ¬ Within t sizeofThread x
  apart : live.Pairwise fun b b' => ∀ x, Within b sizeofThread x → ¬ Within b' sizeofThread x
  globals : ∀ x, Within allList 16 x →
    ¬ Within t sizeofThread x ∧ ∀ b ∈ live, ¬ Within b sizeofThread x
  last : readWord m.bytes (allList + 8) ≠ 0
  link : ∀ x, Within (lastLink allList m) 4 x → ¬ Within t sizeofThread x

/-- The memory with the new element linked from the last one. -/
def relinked (allList t : UInt32) (m : Memory) : Bytes :=
  write m.bytes (lastLink allList m) (wordBytes (allelem t))

/-- Where the frame of `kernel_thread` goes. -/
def frameStart (t : UInt32) : UInt32 := t + pgsize - sizeofFrame

/-- The frame of `kernel_thread`: `eip`, `function` and `aux`. -/
def frameBytes (function aux : UInt32) : List UInt8 :=
  wordBytes 0 ++ (wordBytes function ++ wordBytes aux)

/-- The live threads are as they were, but for the link that `list_push_back` rewrites. -/
def Untouched (allList t : UInt32) (live : List UInt32) (m m' : Memory) : Prop :=
  ∀ b ∈ live, ∀ x, Within b sizeofThread x → m'.bytes x = relinked allList t m x

/-- The frame lies in the block of its thread. -/
def FrameInside (t : UInt32) : Prop :=
  ∀ x, Within (frameStart t) sizeofFrame.toNat x → Within t sizeofThread x

/-- Every byte of a live thread that the frame falls on is already the byte it puts there. -/
def Unhit (allList t : UInt32) (live : List UInt32) (function aux : UInt32) (m : Memory) : Prop :=
  ∀ b ∈ live, ∀ x, Within b sizeofThread x → Within (frameStart t) sizeofFrame.toNat x →
    relinked allList t m x = (frameBytes function aux).getD (x - frameStart t).toNat 0

/-! ## Following the stores -/

section Stores

variable {allList t : UInt32} {live : List UInt32} {m : Memory}

/-- What the stores to the fields leave outside the block. -/
def KeepsOutside (t : UInt32) (m m' : Memory) : Prop :=
  ∀ x, ¬ Within t sizeofThread x → m'.bytes x = m.bytes x

/-- The bytes after `list_push_back` to `all_list`, `last` being its last cell. -/
def pushed (allList t last : UInt32) (m : Bytes) : Bytes :=
  write (write (write (write m (t + 36) (wordBytes last)) (t + 40) (wordBytes (allList + 8)))
    (last + 4) (wordBytes (t + 36))) (allList + 8) (wordBytes (t + 36))

/-- The tail of `all_list` is not in the new block. -/
theorem tail_outside (h : Laid allList t live m) {x : UInt32} (hx : Within (allList + 8) 4 x) :
    ¬ Within t sizeofThread x :=
  (h.globals x (hx.of_offset (by decide) (by decide))).1

theorem listPushBack_ok (h : Laid allList t live m) {m₁ : Memory} (hk : KeepsOutside t m m₁) :
    listPushBack allList (allelem t) m₁ = .ok ((), { m₁ with
      bytes := pushed allList t (readWord m.bytes (allList + 8)) m₁.bytes }) := by
  have hlast : readWord m₁.bytes (allList + 8) = readWord m.bytes (allList + 8) :=
    readWord_congr fun x hx => hk x (tail_outside h hx)
  -- `before->prev` is read again once the links of the new element are written.
  have hlast' : readWord (write (write m₁.bytes (t + 36) (wordBytes (readWord m.bytes (allList + 8))))
      (t + 40) (wordBytes (allList + 8))) (allList + 8) = readWord m.bytes (allList + 8) := by
    rw [← hlast]
    refine readWord_congr fun x hx => ?_
    have hout := tail_outside h hx
    rw [word_off (by decide) hout, word_off (by decide) hout]
  have htail : allList + 8 ≠ 0 := offset_ne_zero h.lists (by decide) (by decide)
  have helem : allelem t ≠ 0 := offset_ne_zero h.block (by decide) (by decide)
  have hassert : ((allList + 8 ≠ 0 && readWord m₁.bytes (allList + 8) ≠ 0 &&
      readWord m₁.bytes (allList + 8 + 4) ≠ 0 : Bool) || (allList + 8 ≠ 0 &&
      readWord m₁.bytes (allList + 8) ≠ 0 && readWord m₁.bytes (allList + 8 + 4) = 0 : Bool)) =
      true := by
    rw [hlast]
    by_cases hn : readWord m₁.bytes (allList + 8 + 4) = 0 <;> simp [htail, h.last, hn]
  have hnext : allelem t + 4 = t + 40 := UInt32.add_assoc t 36 4
  have hprev : prev (allList + 8) m₁ = .ok (readWord m.bytes (allList + 8), m₁) := by
    rw [← hlast]
    rfl
  have hprev' : prev (allList + 8) { m₁ with
      bytes := write (write m₁.bytes (t + 36) (wordBytes (readWord m.bytes (allList + 8)))) (t + 40)
        (wordBytes (allList + 8)) } = .ok (readWord m.bytes (allList + 8), _) :=
    congrArg (fun v => Except.ok (v, _)) hlast'
  unfold listPushBack listInsert
  rw [bind_ok rfl, bind_ok rfl, bind_ok (require_ok hassert),
    bind_ok (require_ok (decide_eq_true helem)), bind_ok hprev, hnext, bind_ok rfl, bind_ok rfl]
  exact (bind_ok hprev').trans rfl

theorem pushed_outside {m₁ : Memory} (hk : KeepsOutside t m m₁)
    {x : UInt32} (hx : ¬ Within t sizeofThread x) (hx' : ¬ Within allList 16 x) :
    pushed allList t (readWord m.bytes (allList + 8)) m₁.bytes x = relinked allList t m x := by
  have htail : ¬ Within (allList + 8) 4 x := fun hin => hx' (hin.of_offset (by decide) (by decide))
  unfold pushed
  rw [write_off htail]
  refine write_congr ?_
  rw [word_off (by decide) hx, word_off (by decide) hx]
  exact hk x hx

/-- `list_push_back` writes no field of the new thread but `allelem`. -/
theorem pushed_field (h : Laid allList t live m) {m₁ : Bytes} {e : UInt32}
    (he : e.toNat + 4 ≤ sizeofThread) (hne : 44 ≤ e.toNat ∨ e.toNat + 4 ≤ 36) :
    readWord (pushed allList t (readWord m.bytes (allList + 8)) m₁) (t + e) =
      readWord m₁ (t + e) := by
  have hin : ∀ {x}, Within (t + e) 4 x → Within t sizeofThread x := fun hx =>
    hx.of_offset he (by decide)
  have h36 : (36 : UInt32).toNat = 36 := rfl
  have h40 : (40 : UInt32).toNat = 40 := rfl
  unfold pushed
  rw [readWord_off fun x hx hx' => tail_outside h hx' (hin hx),
    readWord_off fun x hx hx' => h.link x hx' (hin hx),
    word_other (by decide) he (by omega), word_other (by decide) he (by omega)]

/-- What `init_thread` leaves. -/
structure Initialised (allList t : UInt32) (m m' : Memory) : Prop where
  magic : readWord m'.bytes (t + 148) = threadMagic
  stack : readWord m'.bytes (t + 24) = t + pgsize
  outside : ∀ x, ¬ Within t sizeofThread x → ¬ Within allList 16 x →
    m'.bytes x = relinked allList t m x

/-- The bytes after the stores of `init_thread` to the fields of the new thread. -/
def fielded (t : UInt32) (name : List UInt8) (m : Bytes) : Bytes :=
  write (write (write (write (write (write m t (List.replicate sizeofThread 0)) (t + 4) [2]) (t + 5)
    ((name.takeWhile (· ≠ 0)).take 15 ++ [0])) (t + 24) (wordBytes (t + pgsize))) (t + 148)
    (wordBytes threadMagic)) (t + 144) (wordBytes 9999999)

theorem fielded_outside (name : List UInt8) (m : Bytes) {x : UInt32}
    (hx : ¬ Within t sizeofThread x) : fielded t name m x = m x := by
  have hname : (5 : UInt32).toNat + ((name.takeWhile (· ≠ 0)).take 15 ++ [0]).length ≤
      sizeofThread := by
    have hlen := List.length_take_le 15 (name.takeWhile (· ≠ 0))
    have h5 : (5 : UInt32).toNat = 5 := rfl
    have hsize : sizeofThread = 152 := rfl
    rw [List.length_append, List.length_singleton]
    omega
  have hzero : ¬ Within t (List.replicate sizeofThread (0 : UInt8)).length x := by
    rwa [List.length_replicate]
  unfold fielded
  rw [word_off (by decide) hx, word_off (by decide) hx, word_off (by decide) hx, field_off hname hx,
    field_off (by decide) hx, write_off hzero]

theorem fielded_magic (name : List UInt8) (m : Bytes) :
    readWord (fielded t name m) (t + 148) = threadMagic := by
  unfold fielded
  rw [word_other (by decide) (by decide) (by decide), readWord_write]

theorem fielded_stack (name : List UInt8) (m : Bytes) :
    readWord (fielded t name m) (t + 24) = t + pgsize := by
  unfold fielded
  rw [word_other (by decide) (by decide) (by decide), word_other (by decide) (by decide) (by decide),
    readWord_write]

theorem initThread_returns (h : Laid allList t live m) (name : List UInt8) :
    Returns (initThread allList t (some name)) m fun _ m' => Initialised allList t m m' := by
  have hk : KeepsOutside t m { m with bytes := fielded t name m.bytes } := fun x hx =>
    fielded_outside name m.bytes hx
  refine .step (require_ok (decide_eq_true h.allocated)) (.step (require_ok rfl) (.step rfl
    (.step rfl (.step rfl (.step rfl (.step rfl (.step rfl ?_)))))))
  refine .of_ok (listPushBack_ok h hk) ⟨?_, ?_, fun x hx hx' => pushed_outside hk hx hx'⟩
  · exact (pushed_field h (by decide) (.inl (by decide))).trans (fielded_magic name m.bytes)
  · exact (pushed_field h (by decide) (.inr (by decide))).trans (fielded_stack name m.bytes)

/-- `alloc_frame` of a thread that `init_thread` has set up. -/
theorem allocFrame_ok (ht : t ≠ 0) (hm : readWord m.bytes (t + 148) = threadMagic)
    (hs : readWord m.bytes (t + 24) = t + pgsize) : allocFrame t sizeofFrame m =
      .ok (frameStart t, { m with bytes := write m.bytes (t + 24) (wordBytes (frameStart t)) }) := by
  have hthread : isThread t m = .ok (true, m) := by
    show Except.ok ((t ≠ 0 && readWord m.bytes (t + 148) = threadMagic : Bool), m) = _
    rw [hm, decide_eq_true ht]
    rfl
  have hload : load (t + 24) m = .ok (t + pgsize, m) := by
    rw [← hs]
    rfl
  unfold allocFrame
  rw [bind_ok hthread, bind_ok (require_ok rfl), bind_ok (require_ok (by decide)),
    bind_ok hload]
  rfl

/-- The three words of the frame. -/
theorem frame_eq (m : Bytes) (a function aux : UInt32) :
    write (write (write m a (wordBytes 0)) (a + 4) (wordBytes function)) (a + 8) (wordBytes aux) =
      write m a (frameBytes function aux) := by
  have h4 : (4 : UInt32).toNat + 4 ≤ 2 ^ 32 := by decide
  have h8 : (8 : UInt32).toNat + 4 ≤ 2 ^ 32 := by decide
  rw [write_append rfl h4, write_append rfl h8, List.append_assoc]
  rfl

/-- The memory when `thread_create` calls `thread_unblock`, outside the new thread and the list. -/
theorem threadCreateStores_returns (h : Laid allList t live m) (name : List UInt8)
    (function aux duration : UInt32) :
    Returns (threadCreateStores allList t (some name) function aux duration) m fun _ m' =>
      ∀ x, ¬ Within t sizeofThread x → ¬ Within allList 16 x →
        m'.bytes x = write (relinked allList t m) (frameStart t) (frameBytes function aux) x := by
  refine (initThread_returns h name).bind fun _ m₁ hi => ?_
  refine .step rfl (.step rfl (.step rfl ?_))
  have hstart : ∀ (b : Bytes) (v : UInt32), write b t (wordBytes v) = write b (t + 0) (wordBytes v) :=
    fun b v => by rw [UInt32.add_zero]
  have hm : readWord (write (write m₁.bytes t (wordBytes m₁.nextTid)) (t + 144)
      (wordBytes duration)) (t + 148) = threadMagic := by
    rw [word_other (by decide) (by decide) (by decide), hstart,
      word_other (by decide) (by decide) (by decide), hi.magic]
  have hs : readWord (write (write m₁.bytes t (wordBytes m₁.nextTid)) (t + 144)
      (wordBytes duration)) (t + 24) = t + pgsize := by
    rw [word_other (by decide) (by decide) (by decide), hstart,
      word_other (by decide) (by decide) (by decide), hi.stack]
  have hout : ∀ x, ¬ Within t sizeofThread x → ¬ Within allList 16 x →
      write (write (write m₁.bytes t (wordBytes m₁.nextTid)) (t + 144) (wordBytes duration))
        (t + 24) (wordBytes (frameStart t)) x = relinked allList t m x := by
    intro x hx hx'
    rw [word_off (by decide) hx, word_off (by decide) hx, hstart, word_off (by decide) hx]
    exact hi.outside x hx hx'
  refine .step (allocFrame_ok h.allocated hm hs) (.step rfl (.step rfl
    (.of_ok rfl fun x hx hx' => ?_)))
  exact (congrFun (frame_eq _ _ _ _) x).trans (write_congr (hout x hx hx'))

end Stores

/-! ## Where the frame falls -/

section Frame

variable {allList t : UInt32} {live : List UInt32} {m : Memory}

theorem not_frameInside (t : UInt32) : ¬ FrameInside t := by
  intro h
  have hself : Within (frameStart t) sizeofFrame.toNat (frameStart t) := by
    rw [Within, UInt32.sub_self]
    decide
  have hin := h _ hself
  have hsize : sizeofThread = 152 := rfl
  have hpage : pgsize.toNat = 4096 := rfl
  have hframe : sizeofFrame.toNat = 12 := rfl
  have ht := t.toNat_lt
  rw [Within, frameStart, UInt32.toNat_sub, UInt32.toNat_sub, UInt32.toNat_add] at hin
  omega

/-- With `name` NULL `init_thread` stops before its first store. -/
theorem threadCreateStores_faults (ht : t ≠ 0) (function aux duration : UInt32) :
    Faults (threadCreateStores allList t none function aux duration) m := by
  have hname : Faults (asserts "init_thread" "name != NULL" false) m := ⟨_, rfl⟩
  exact (Faults.step (require_ok (decide_eq_true ht)) hname.bind).bind

/-- The frame is never in the block of its thread.  The live threads come to no harm exactly if
every byte of theirs that it falls on has the right value already. -/
theorem frame_harmless_iff (h : Laid allList t live m) (name : Option (List UInt8))
    (function aux duration : UInt32) : ¬ FrameInside t ∧
      ((∀ m', threadCreateStores allList t name function aux duration m = .ok ((), m') →
          Untouched allList t live m m') ↔
        name = none ∨ Unhit allList t live function aux m) := by
  refine ⟨not_frameInside t, ?_⟩
  cases name with
  | none =>
      refine ⟨fun _ => .inl rfl, fun _ m' hrun => ?_⟩
      exact absurd hrun (threadCreateStores_faults h.allocated function aux duration).not_ok
  | some name =>
      obtain ⟨r, m₁, hrun₁, hout⟩ := threadCreateStores_returns h name function aux duration
      have hbyte : ∀ b ∈ live, ∀ x, Within b sizeofThread x → m₁.bytes x =
          write (relinked allList t m) (frameStart t) (frameBytes function aux) x := by
        intro b hb x hx
        exact hout x (h.fresh b hb x hx) fun hx' => (h.globals x hx').2 b hb hx
      constructor
      · intro huntouched
        refine .inr fun b hb x hx hframe => ?_
        rw [← huntouched m₁ hrun₁ b hb x hx, hbyte b hb x hx]
        exact write_on hframe 0
      · rintro (hnone | hunhit) m' hrun b hb x hx
        · exact nomatch hnone
        · obtain rfl : m₁ = m' := by
            rw [hrun₁] at hrun
            exact (Prod.mk.inj (Except.ok.inj hrun)).2
          rw [hbyte b hb x hx]
          by_cases hframe : Within (frameStart t) sizeofFrame.toNat x
          · rw [hunhit b hb x hx hframe]
            exact write_on hframe 0
          · exact write_off hframe

end Frame

/-- `all_list`, at the address it has in the build, with the one thread `b` on it. -/
def oneThread (b : UInt32) : Memory where
  bytes := write (write (fun _ => 0) 0x20000e5c (wordBytes (b + 36))) (b + 36)
    (wordBytes 0x20000e54 ++ wordBytes 0x20000e5c)
  nextTid := 3

theorem oneThread_laid {b t : UInt32} (hb : 0x20000e64 ≤ b.toNat) (ht : 0x20000e64 ≤ t.toNat)
    (hb' : b.toNat + sizeofThread ≤ 2 ^ 32) (ht' : t.toNat + sizeofThread ≤ 2 ^ 32)
    (hbt : t.toNat + sizeofThread ≤ b.toNat ∨ b.toNat + sizeofThread ≤ t.toNat) :
    Laid 0x20000e54 t [b] (oneThread b) := by
  have hsize : sizeofThread = 152 := rfl
  have hoff : (b + 36).toNat = b.toNat + 36 := by
    have h36 : (36 : UInt32).toNat = 36 := rfl
    rw [UInt32.toNat_add]
    omega
  have hlast : readWord (oneThread b).bytes (0x20000e54 + 8) = b + 36 := by
    have hbelow : (0x20000e5c : UInt32).toNat + 4 ≤ (b + 36).toNat := by
      have he5c : (0x20000e5c : UInt32).toNat = 0x20000e5c := rfl
      omega
    have hlinks : (b + 36).toNat + 8 ≤ 2 ^ 32 := by omega
    refine (readWord_off fun x hx => ?_).trans (readWord_write _ _ _)
    exact hx.not_above hbelow hlinks
  have hapart : ∀ x, Within b sizeofThread x → ¬ Within t sizeofThread x := by
    intro x hx hx'
    rcases hbt with hbt | hbt
    · exact hx'.not_above hbt hb' hx
    · exact hx.not_above hbt ht' hx'
  refine ⟨?_, ht', by decide, ?_, List.pairwise_singleton _ _, fun x hx => ⟨?_, ?_⟩, ?_, ?_⟩
  · rintro rfl
    exact absurd ht (by decide)
  · intro b' hmem
    rw [List.mem_singleton.mp hmem]
    exact hapart
  · exact hx.not_above ht ht'
  · intro b' hmem
    rw [List.mem_singleton.mp hmem]
    exact hx.not_above hb hb'
  · rw [hlast]
    exact offset_ne_zero hb' (by decide) (by decide)
  · intro x hx
    rw [lastLink, hlast, UInt32.add_assoc] at hx
    exact hapart x (hx.of_offset (by decide) (by decide))

/-- A live thread in the next block is out of the way of the frame. -/
theorem frame_harmless_next_block :
    Laid 0x20000e54 0x20010000 [0x200100a0] (oneThread 0x200100a0) ∧
      ∀ m', threadCreateStores 0x20000e54 0x20010000 (some [0x42]) 0x10000b55 0 10
          (oneThread 0x200100a0) = .ok ((), m') →
        Untouched 0x20000e54 0x20010000 [0x200100a0] (oneThread 0x200100a0) m' := by
  have hlaid : Laid 0x20000e54 0x20010000 [0x200100a0] (oneThread 0x200100a0) :=
    oneThread_laid (by decide) (by decide) (by decide) (by decide) (.inl (by decide))
  have hiff := (frame_harmless_iff hlaid (some [0x42]) 0x10000b55 0 10).2
  refine ⟨hlaid, hiff.mpr (.inr fun b hb x hx hx' => ?_)⟩
  rw [List.mem_singleton.mp hb] at hx
  exact absurd hx' (hx.not_above (by decide) (by decide))

/-- Blocks are 160 bytes apart.  A thread that gets the block 25 places below that of a live one
writes its frame over the saved registers of that thread. -/
theorem frame_hits_live_thread :
    Laid 0x20000e54 0x20010000 [0x20010fa0] (oneThread 0x20010fa0) ∧
      ∃ m', threadCreateStores 0x20000e54 0x20010000 (some [0x42]) 0x10000b55 0 10
          (oneThread 0x20010fa0) = .ok ((), m') ∧
        ¬ Untouched 0x20000e54 0x20010000 [0x20010fa0] (oneThread 0x20010fa0) m' := by
  have hlaid : Laid 0x20000e54 0x20010000 [0x20010fa0] (oneThread 0x20010fa0) :=
    oneThread_laid (by decide) (by decide) (by decide) (by decide) (.inl (by decide))
  obtain ⟨r, m', hrun, hout⟩ := threadCreateStores_returns hlaid [0x42] 0x10000b55 0 10
  refine ⟨hlaid, m', hrun, fun huntouched => ?_⟩
  have hbyte := hout 0x20010ff8 (by decide) (by decide)
  rw [huntouched _ (List.mem_singleton_self _) 0x20010ff8 (by decide)] at hbyte
  exact absurd hbyte (by decide)

end PicoOS.Blocks
