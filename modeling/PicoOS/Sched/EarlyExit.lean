/-
# `PicoOS.Sched.EarlyExit` — whether a thread exits before its time

`after_interrupt` decides on one thread (`thread_current ()->duration_ticks <= 0`)
and `thread_exit` acts on whatever thread is current by then.  For a worker that
is the same thread.  The idle thread has no more ticks once it has run for 999
of them; from then on it takes that branch in every round, and a thread that an
alarm creates there exits without a single tick (`new_thread_exits`).

This is the only way to exit early: if no callback creates a thread there while
the idle thread is current and out of ticks, every thread that exited was
charged all the ticks it was created with (`no_early_exit`).  The invariant is
an account of each registered thread: what it has left and what it was charged
add up to what it was created with (`Accounts`).
-/
import PicoOS.Sched.LostThreads

namespace PicoOS

open Interruptible Relation

/-! ## The property -/

/-- The entry is a tick charged to the thread `tid`. -/
def Obs.charges (tid : Nat) : Obs → Bool
  | .charged _ t => t = tid
  | _ => false

/-- The ticks charged to the thread `tid`. -/
def State.charges (s : State) (tid : Nat) : Nat := s.trace.countP (Obs.charges tid)

/-- Every thread that exited was created, and was charged all the ticks it was created with. -/
def PaidInFull (s : State) : Prop :=
  ∀ a tid, .exited a tid ∈ s.trace → (∃ d, .created a tid d ∈ s.trace) ∧
    ∀ d : Int, .created a tid d ∈ s.trace → d ≤ s.charges tid

/-- The callback creates a thread of a positive duration, or the interrupt is the timer's. -/
def Intr.positive : Intr → Prop
  | .create _ _ duration => 0 < duration.toInt
  | .timer => True

/-- The callback creates a thread while the idle thread is current and about to call `thread_exit`
because it is out of ticks. -/
def ExitsEarly (pc : Point) (s : State) (i : Intr) : Prop :=
  pc ∈ exitPoints ∧ s.idleThread = some s.threadRunningVar ∧
    s.durationOf s.threadRunningVar ≤ 0 ∧ i.creates

/-! ## The ledger -/

theorem State.charges_ledger (s : State) (tid : Nat) :
    s.charges tid = s.ledger.countP (Obs.charges tid) := by
  rw [State.charges, State.ledger, List.countP_filter]
  refine List.countP_congr fun o _ => ?_
  cases o with
  | charged a t => simp [Obs.vital]
  | _ => simp [Obs.charges]

theorem PaidInFull.of_ledger {s t : State} (hl : t.ledger = s.ledger) (h : PaidInFull s) :
    PaidInFull t := by
  intro a tid hexited
  rw [← State.mem_ledger rfl, hl, State.mem_ledger rfl] at hexited
  obtain ⟨⟨d, hd⟩, hle⟩ := h a tid hexited
  refine ⟨⟨d, ?_⟩, fun d' hd' => ?_⟩
  · rw [← State.mem_ledger rfl, hl, State.mem_ledger rfl]
    exact hd
  · rw [← State.mem_ledger rfl, hl, State.mem_ledger rfl] at hd'
    rw [State.charges_ledger, hl, ← State.charges_ledger]
    exact hle d' hd'

/-! ## The accounts -/

/-- The thread at `a` is registered or current. -/
def State.present (s : State) (a : Addr) : Prop := a ∈ s.allList ∨ a = s.threadRunningVar

/-- What a registered thread has left and what it was charged add up to what it was created with;
threads are told apart by their `tid`; nobody has asked for a forced exit. -/
structure Accounts (s : State) : Prop where
  unforced : s.threadExitOnReturn = 0
  paid : ∀ a tid, .exited a tid ∈ s.ledger → (∃ d, .created a tid d ∈ s.ledger) ∧
    ∀ d : Int, .created a tid d ∈ s.ledger → d ≤ s.charges tid
  owed : ∀ a ∈ s.allList, ∀ b d, .created b (s.tidOf a) d ∈ s.ledger →
    s.durationOf a + s.charges (s.tidOf a) = d
  opened : ∀ a ∈ s.allList, s.worker a → ∃ d, .created a (s.tidOf a) d ∈ s.ledger
  fresh : ∀ a, s.present a → s.tidOf a < s.nextTid
  createdFresh : ∀ a tid d, .created a tid d ∈ s.ledger → tid < s.nextTid
  chargedFresh : ∀ tid, s.charges tid ≠ 0 → tid < s.nextTid
  apart : ∀ a b, s.present a → s.present b → s.tidOf a = s.tidOf b → a = b

theorem Accounts.paidInFull {s : State} (h : Accounts s) : PaidInFull s := by
  intro a tid hexited
  obtain ⟨⟨d, hd⟩, hle⟩ := h.paid a tid ((State.mem_ledger rfl).mpr hexited)
  exact ⟨⟨d, (State.mem_ledger rfl).mp hd⟩, fun d' hd' => hle d' ((State.mem_ledger rfl).mpr hd')⟩

section Accounts

variable {s t : State}

/-- A step that keeps the ledger and the accounts, and leaves a thread that was there before
current. -/
theorem Accounts.same (h : Accounts s) (hl : t.ledger = s.ledger) (ha : t.allList = s.allList)
    (hn : t.nextTid = s.nextTid) (he : t.threadExitOnReturn = s.threadExitOnReturn)
    (hw : ∀ a, t.worker a ↔ s.worker a) (hc : s.present t.threadRunningVar)
    (htid : ∀ a, s.present a → t.tidOf a = s.tidOf a)
    (hdur : ∀ a ∈ s.allList, t.durationOf a = s.durationOf a) : Accounts t := by
  have hcharges : ∀ tid, t.charges tid = s.charges tid := by
    intro tid
    rw [State.charges_ledger, hl, ← State.charges_ledger]
  have hpres : ∀ a, t.present a → s.present a := by
    rintro a (hall | rfl)
    · exact .inl (ha ▸ hall)
    · exact hc
  refine ⟨he.trans h.unforced, ?_, ?_, ?_, ?_, ?_, ?_, ?_⟩
  · intro a tid
    rw [hl, hcharges]
    exact h.paid a tid
  · intro a hall b d
    rw [ha] at hall
    rw [hl, htid a (.inl hall), hdur a hall, hcharges]
    exact h.owed a hall b d
  · intro a hall hwa
    rw [ha] at hall
    rw [hl, htid a (.inl hall)]
    exact h.opened a hall ((hw a).mp hwa)
  · intro a hp
    rw [htid a (hpres a hp), hn]
    exact h.fresh a (hpres a hp)
  · rw [hl, hn]
    exact h.createdFresh
  · intro tid
    rw [hcharges, hn]
    exact h.chargedFresh tid
  · intro a b hpa hpb
    rw [htid a (hpres a hpa), htid b (hpres b hpb)]
    exact h.apart a b (hpres a hpa) (hpres b hpb)

theorem Accounts.alike (h : Accounts s) (hst : Alike s t) : Accounts t := by
  refine h.same hst.ledger hst.all hst.nextTid hst.exitOnReturn (fun a => ?_) (.inr hst.current)
    hst.tid fun a ha => hst.duration a (.inl ha)
  rw [State.worker, hst.idle, hst.initial]
  rfl

/-! ### A tick -/

/-- An entry of the ledger that is not the one added. -/
theorem State.mem_ledger_append {o o' : Obs} (hl : t.ledger = s.ledger ++ [o']) (hne : o ≠ o') :
    o ∈ t.ledger ↔ o ∈ s.ledger := by
  rw [hl, List.mem_append, List.mem_singleton]
  exact ⟨fun hm => hm.resolve_right hne, .inl⟩

theorem State.charges_ticked (s : State) (tid : Nat) : s.ticked.charges tid =
    s.charges tid + if s.tidOf s.threadRunningVar = tid then 1 else 0 := by
  rw [State.charges_ledger, State.ledger_ticked, List.countP_append, ← State.charges_ledger]
  simp [Obs.charges]

theorem State.tidOf_ticked (s : State) (a : Addr) : s.ticked.tidOf a = s.tidOf a :=
  State.ticked_frame (f := fun s => s.tidOf a) (s.tidOf_charge a)
    fun b _ => State.tidOf_setStatus b a .ready _

theorem State.present_ticked {a : Addr} (ha : s.ticked.present a) : s.present a := by
  rw [State.present, s.ticked_all, s.ticked_current] at ha
  exact ha

/-- The tick goes from what the current thread has left to what it was charged. -/
theorem Accounts.ticked_owed (h : Accounts s) (hs : Midway s) {a b : Addr} {d : Int}
    (ha : a ∈ s.allList) (hd : .created b (s.tidOf a) d ∈ s.ledger) :
    s.ticked.durationOf a + s.ticked.charges (s.tidOf a) = d := by
  have howed := h.owed a ha b d hd
  rw [State.charges_ticked, hs.ticked_durationOf]
  by_cases hcur : a = s.threadRunningVar
  · rw [if_pos hcur, if_pos (by rw [hcur])]
    omega
  · have hne : s.tidOf s.threadRunningVar ≠ s.tidOf a := fun he =>
      hcur (h.apart a _ (.inl ha) (.inr rfl) he.symm)
    rw [if_neg hcur, if_neg hne]
    exact howed

theorem Accounts.ticked (h : Accounts s) (hs : Midway s) : Accounts s.ticked := by
  have hnext : s.ticked.nextTid = s.nextTid :=
    State.ticked_frame (f := State.nextTid) rfl fun _ _ => rfl
  have hcreated : ∀ {a tid d}, .created a tid d ∈ s.ticked.ledger ↔ .created a tid d ∈ s.ledger :=
    State.mem_ledger_append s.ledger_ticked (by nofun)
  refine ⟨?_, ?_, ?_, ?_, ?_, ?_, ?_, ?_⟩
  · exact (State.ticked_frame (f := State.threadExitOnReturn) rfl fun _ _ => rfl).trans h.unforced
  · intro a tid hexited
    rw [State.mem_ledger_append s.ledger_ticked (by nofun)] at hexited
    obtain ⟨⟨d, hd⟩, hle⟩ := h.paid a tid hexited
    refine ⟨⟨d, hcreated.mpr hd⟩, fun d' hd' => ?_⟩
    have hpaid := hle d' (hcreated.mp hd')
    rw [State.charges_ticked]
    split_ifs <;> omega
  · intro a ha b d hd
    rw [s.ticked_all] at ha
    rw [s.tidOf_ticked, hcreated] at hd
    rw [s.tidOf_ticked]
    exact h.ticked_owed hs ha hd
  · intro a ha hw
    rw [s.ticked_all] at ha
    rw [s.ticked_worker] at hw
    obtain ⟨d, hd⟩ := h.opened a ha hw
    rw [s.tidOf_ticked]
    exact ⟨d, hcreated.mpr hd⟩
  · intro a ha
    rw [s.tidOf_ticked, hnext]
    exact h.fresh a (State.present_ticked ha)
  · intro a tid d hd
    rw [hnext]
    exact h.createdFresh a tid d (hcreated.mp hd)
  · intro tid hne
    rw [hnext]
    rw [State.charges_ticked] at hne
    split_ifs at hne with hcur
    · exact hcur ▸ h.fresh _ (.inr rfl)
    · exact h.chargedFresh tid hne
  · intro a b ha hb he
    rw [s.tidOf_ticked, s.tidOf_ticked] at he
    exact h.apart a b (State.present_ticked ha) (State.present_ticked hb) he

/-! ### A new thread -/

/-- An entry of the ledger other than a charge. -/
theorem State.charges_append {o : Obs} (hl : t.ledger = s.ledger ++ [o])
    (ho : ∀ tid, o.charges tid = false) (tid : Nat) : t.charges tid = s.charges tid := by
  rw [State.charges_ledger, hl, List.countP_append, ← State.charges_ledger]
  simp [ho]

section Adopt

variable {b : Nat}

theorem State.tidOf_adopted (s : State) (b : Nat) (d : Int) :
    (s.adopt b d).tidOf (.block b) = s.nextTid := by
  simp [State.tidOf, State.adopt]

theorem Midway.present_ne (hs : Midway s) (hb : s.heap (.block b) = none) {a : Addr}
    (ha : s.present a) : a ≠ .block b := by
  rcases ha with ha | rfl
  · exact State.ne_fresh hb (hs.live a ha)
  · exact State.ne_fresh hb hs.live_current

theorem State.present_adopt {a : Addr} {d : Int} (ha : (s.adopt b d).present a) :
    s.present a ∨ a = .block b := by
  rcases ha with ha | ha
  · exact (List.mem_append.mp ha).imp .inl List.mem_singleton.mp
  · exact .inl (.inr ha)

theorem State.created_adopt {a : Addr} {tid : Nat} {d d' : Int}
    (h : .created a tid d' ∈ (s.adopt b d).ledger) :
    .created a tid d' ∈ s.ledger ∨ tid = s.nextTid ∧ d' = d := by
  rw [State.ledger_adopt] at h
  rcases List.mem_append.mp h with hm | hm
  · exact .inl hm
  · cases List.mem_singleton.mp hm
    exact .inr ⟨rfl, rfl⟩

/-- The account of a new thread is opened with nothing charged to it. -/
theorem Accounts.adopt_owed (h : Accounts s) (hs : Midway s) (hb : s.heap (.block b) = none)
    {d d' : Int} {a a' : Addr} (ha : a ∈ (s.adopt b d).allList)
    (hd : .created a' ((s.adopt b d).tidOf a) d' ∈ (s.adopt b d).ledger) :
    (s.adopt b d).durationOf a + s.charges ((s.adopt b d).tidOf a) = d' := by
  rcases List.mem_append.mp ha with ha | ha
  · have hne := hs.present_ne hb (.inl ha)
    have hlt := h.fresh a (.inl ha)
    rw [State.tidOf_adopt hne] at hd ⊢
    rw [State.durationOf_adopt hne]
    rcases State.created_adopt hd with hm | ⟨htid, -⟩
    · exact h.owed a ha a' d' hm
    · omega
  · cases List.mem_singleton.mp ha
    rw [State.tidOf_adopted] at hd ⊢
    have hzero : s.charges s.nextTid = 0 := by
      by_contra hne
      exact Nat.lt_irrefl _ (h.chargedFresh _ hne)
    rcases State.created_adopt hd with hm | ⟨-, rfl⟩
    · exact absurd (h.createdFresh a' _ d' hm) (Nat.lt_irrefl _)
    · simp [hzero, State.durationOf, State.adopt]

theorem Accounts.adopt_apart (h : Accounts s) (hs : Midway s) (hb : s.heap (.block b) = none)
    {d : Int} {a a' : Addr} (ha : (s.adopt b d).present a) (ha' : (s.adopt b d).present a')
    (he : (s.adopt b d).tidOf a = (s.adopt b d).tidOf a') : a = a' := by
  rcases State.present_adopt ha with ha | rfl <;> rcases State.present_adopt ha' with ha' | rfl
  · rw [State.tidOf_adopt (hs.present_ne hb ha), State.tidOf_adopt (hs.present_ne hb ha')] at he
    exact h.apart a a' ha ha' he
  · rw [State.tidOf_adopt (hs.present_ne hb ha), State.tidOf_adopted] at he
    exact absurd (h.fresh a ha) (by omega)
  · rw [State.tidOf_adopt (hs.present_ne hb ha'), State.tidOf_adopted] at he
    exact absurd (h.fresh a' ha') (by omega)
  · rfl

theorem Accounts.adopt (h : Accounts s) (hs : Midway s) (hb : s.heap (.block b) = none) (d : Int) :
    Accounts (s.adopt b d) := by
  have hcharges : ∀ tid, (s.adopt b d).charges tid = s.charges tid :=
    State.charges_append (s.ledger_adopt b d) fun _ => rfl
  have hsub : ∀ {o}, o ∈ s.ledger → o ∈ (s.adopt b d).ledger := by
    intro o ho
    rw [State.ledger_adopt]
    exact List.mem_append_left _ ho
  refine ⟨h.unforced, ?_, ?_, ?_, ?_, ?_, ?_, fun a a' => h.adopt_apart hs hb⟩
  · intro a tid hexited
    rw [State.mem_ledger_append (s.ledger_adopt b d) (by nofun)] at hexited
    obtain ⟨⟨d₀, hd₀⟩, hle⟩ := h.paid a tid hexited
    refine ⟨⟨d₀, hsub hd₀⟩, fun d' hd' => ?_⟩
    rw [hcharges]
    rcases State.created_adopt hd' with hm | ⟨htid, -⟩
    · exact hle d' hm
    · have hlt := h.createdFresh a tid d₀ hd₀
      omega
  · intro a ha a' d' hd'
    rw [hcharges]
    exact h.adopt_owed hs hb ha hd'
  · intro a ha hw
    rcases List.mem_append.mp ha with ha | ha
    · obtain ⟨d₀, hd₀⟩ := h.opened a ha hw
      rw [State.tidOf_adopt (hs.present_ne hb (.inl ha))]
      exact ⟨d₀, hsub hd₀⟩
    · cases List.mem_singleton.mp ha
      refine ⟨d, ?_⟩
      rw [State.tidOf_adopted, State.ledger_adopt]
      exact List.mem_append_right _ (List.mem_singleton_self _)
  · intro a ha
    show _ < s.nextTid + 1
    rcases State.present_adopt ha with ha | rfl
    · rw [State.tidOf_adopt (hs.present_ne hb ha)]
      exact Nat.lt_succ_of_lt (h.fresh a ha)
    · rw [State.tidOf_adopted]
      exact Nat.lt_succ_self _
  · intro a tid d' hd'
    show _ < s.nextTid + 1
    rcases State.created_adopt hd' with hm | ⟨rfl, -⟩
    · exact Nat.lt_succ_of_lt (h.createdFresh a tid d' hm)
    · exact Nat.lt_succ_self _
  · intro tid hne
    rw [hcharges] at hne
    exact Nat.lt_succ_of_lt (h.chargedFresh tid hne)

end Adopt

/-! ### A switch and an exit -/

theorem Accounts.blocked (h : Accounts s) (hs : Midway s) : Accounts s.blocked :=
  h.same s.ledger_blocked rfl rfl rfl (fun _ => Iff.rfl) (.inl hs.blocked.2)
    (fun a _ => hs.blocked_tidOf a) fun a _ => hs.blocked_durationOf a

theorem Accounts.yieldedTo (h : Accounts s) (hs : Midway s)
    (hm : s.threadRunningVar ∈ s.allList) : Accounts s.yieldedTo := by
  have hall : s.yieldedTo.allList = s.allList :=
    s.requeued_frame (f := State.allList) fun _ _ => rfl
  exact h.same s.ledger_yieldedTo hall (s.requeued_frame (f := State.nextTid) fun _ _ => rfl)
    (s.requeued_frame (f := State.threadExitOnReturn) fun _ _ => rfl)
    (fun a => s.requeued_frame (f := fun s => s.worker a) (fun _ _ => rfl) ▸ Iff.rfl)
    (.inl (hall ▸ (hs.yieldedTo hm).2)) (fun a _ => hs.yieldedTo_tidOf a)
    fun a _ => hs.yieldedTo_durationOf a

/-- A worker without ticks is taken off `all_list`: its account is settled. -/
theorem Accounts.unregister (h : Accounts s) (hw : s.worker s.threadRunningVar)
    (hm : s.threadRunningVar ∈ s.allList) (hd : s.durationOf s.threadRunningVar ≤ 0) :
    Accounts s.unregister := by
  have hcharges : ∀ tid, s.unregister.charges tid = s.charges tid :=
    State.charges_append s.ledger_unregister fun _ => rfl
  have hpres : ∀ a, s.unregister.present a → s.present a := by
    rintro a (ha | ha)
    · exact .inl (List.mem_of_mem_erase ha)
    · exact .inr ha
  have hcreated : ∀ {a tid d}, .created a tid d ∈ s.unregister.ledger ↔
      .created a tid d ∈ s.ledger :=
    State.mem_ledger_append s.ledger_unregister (by nofun)
  have hsub : ∀ {o}, o ∈ s.ledger → o ∈ s.unregister.ledger := by
    intro o ho
    rw [State.ledger_unregister]
    exact List.mem_append_left _ ho
  refine ⟨h.unforced, ?_, ?_, ?_, fun a ha => h.fresh a (hpres a ha), ?_, ?_,
    fun a b ha hb he => h.apart a b (hpres a ha) (hpres b hb) he⟩
  · intro a tid hexited
    rw [State.ledger_unregister, List.mem_append, List.mem_singleton] at hexited
    rw [hcharges]
    rcases hexited with hold | hnew
    · obtain ⟨⟨d, hd⟩, hle⟩ := h.paid a tid hold
      exact ⟨⟨d, hsub hd⟩, fun d' hd' => hle d' (hcreated.mp hd')⟩
    · cases hnew
      obtain ⟨d, hd⟩ := h.opened _ hm hw
      refine ⟨⟨d, hsub hd⟩, fun d' hd' => ?_⟩
      have howed := h.owed _ hm _ d' (hcreated.mp hd')
      omega
  · intro a ha b d hd
    rw [hcharges]
    exact h.owed a (List.mem_of_mem_erase ha) b d (hcreated.mp hd)
  · intro a ha hwa
    obtain ⟨d, hd⟩ := h.opened a (List.mem_of_mem_erase ha) hwa
    exact ⟨d, hsub hd⟩
  · intro a tid d hd
    exact h.createdFresh a tid d (hcreated.mp hd)
  · intro tid hne
    rw [hcharges] at hne
    exact h.chargedFresh tid hne

theorem Accounts.switched (h : Accounts s) (hs : Linked s) : Accounts s.switched :=
  h.same s.ledger_switched rfl rfl rfl (fun _ => Iff.rfl) (.inl hs.succ_spec.1)
    (fun _ _ => State.tidOf_setStatus ..) fun _ _ => State.durationOf_setStatus ..

end Accounts

/-- `Accounts` rides along, if every thread is created with ticks to run and no callback lets it
exit early. -/
theorem accounts_ride :
    Rider (fun pc s i => i.positive ∧ ¬ ExitsEarly pc s i) Accounts PaidInFull False True where
  good h := h.paidInFull
  goodLedger hl h := h.of_ledger hl
  alike hst h := h.alike hst
  ticked hs h := h.ticked hs
  adopt hs hb _ h := h.adopt hs hb _
  blocked hs _ h := h.blocked hs
  yieldedTo hs hm _ h := h.yieldedTo hs hm
  unregister _ hw hm hd h := h.unregister hw hm (hd trivial)
  switched hs _ h := h.switched hs
  clear h := ⟨rfl, h.paid, h.owed, h.opened, h.fresh, h.createdFresh, h.chargedFresh, h.apart⟩
  unforced _ h := h.unforced
  blockCue := False.elim
  exitCue _ hpc hname hi hd hok := hok.2 ⟨hpc, hi, hd, hname⟩

/-! ## When no thread exits early -/

theorem Booted.accounts {s : State} (h : Booted s) : Accounts s := by
  have hled : s.ledger = [] := by
    rw [State.ledger, h.trace]
    rfl
  have hcharges : ∀ tid, s.charges tid = 0 := by
    intro tid
    rw [State.charges, h.trace]
    rfl
  obtain ⟨quantum, i, k, rfl⟩ := booted_iff.mp h
  obtain ⟨-, -, hinit, hexit, -⟩ := afterBoot_kept quantum i k
  have hpres : ∀ a, (afterBoot quantum i k).present a → a = .stackPage ∨ a = .block i :=
    fun a ha => ha.elim mem_afterBoot.mp .inr
  have hpage : (afterBoot quantum i k).tidOf .stackPage = 1 := rfl
  have hblock : (afterBoot quantum i k).tidOf (.block i) = 2 := by simp [afterBoot, State.tidOf]
  have hnext : (afterBoot quantum i k).nextTid = 3 := rfl
  refine ⟨hexit, ?_, ?_, ?_, ?_, ?_, ?_, ?_⟩
  · intro a tid hexited
    rw [hled] at hexited
    cases hexited
  · intro a _ b d hcreated
    rw [hled] at hcreated
    cases hcreated
  · intro a ha hw
    rcases hpres a (.inl ha) with rfl | rfl
    · exact absurd hinit.symm hw.2
    · exact absurd rfl hw.1
  · intro a ha
    rw [hnext]
    rcases hpres a ha with rfl | rfl
    · omega
    · omega
  · intro a tid d hcreated
    rw [hled] at hcreated
    cases hcreated
  · intro tid hne
    exact absurd (hcharges tid) hne
  · intro a b ha hb he
    rcases hpres a ha with rfl | rfl <;> rcases hpres b hb with rfl | rfl
    · rfl
    · omega
    · omega
    · rfl

/-- In every interleaving in which threads are created with ticks to run, and no callback creates
one between the test `duration_ticks <= 0` and the last `thread_current ()` in the condition of
`thread_exit` while the idle thread is current and out of ticks, every thread that has exited was
charged what it was created with, and the loop is stopped by an `ASSERT` only. -/
theorem no_early_exit {s₀ : State} {c : Code Unit × State} (h₀ : Booted s₀)
    (hrun : LoopRun (fun pc s i => i.positive ∧ ¬ ExitsEarly pc s i) (.ret (), s₀) c) :
    PaidInFull c.2 ∧ ∀ e, LoopFault (interrupts fun pc s i => i.positive ∧ ¬ ExitsEarly pc s i)
      loopTop c e → e.IsAssert := by
  obtain ⟨hgood, hfault, -⟩ := accounts_ride.loop (h₀.steady h₀.accounts) hrun
  exact ⟨hgood, hfault⟩

/-- A thread with one tick is created and charged at the top of the loop, and exits in the round
that follows. -/
theorem no_early_exit_one_tick : ∃ s, PaidInFull s ∧ .exited (.block 1) 3 ∈ s.trace := by
  have hplay : (replay (interrupts fun pc s i => i.positive ∧ ¬ ExitsEarly pc s i)
      (fun pc s i => i.possible s && decide (pc = loopTop ∧
        (i = .timer ∨ i = .create .other (some 1) 1)))
      (some (.create .other (some 1) 1) :: some .timer :: List.replicate 48 none) afterInterrupt
      (afterBoot none 0 0)).any (fun s => decide (.exited (.block 1) 3 ∈ s.trace)) = true := by
    decide +kernel
  obtain ⟨s, hs, hprop⟩ := (Option.any_eq_true _ _).mp hplay
  have hreach : LoopRun (fun pc s i => i.positive ∧ ¬ ExitsEarly pc s i)
      (.ret (), afterBoot none 0 0) (.ret (), s) := by
    refine .head (.again _) (replay_reaches (fun pc s i hcan => ?_) hs)
    obtain ⟨hpos, hscript⟩ := Bool.and_eq_true_iff.mp hcan
    obtain ⟨hpc, hi⟩ := of_decide_eq_true hscript
    refine Intr.possible.enabled hpos ⟨?_, fun he => ?_⟩
    · rcases hi with rfl | rfl
      · trivial
      · exact (by decide : (0 : Int) < (1 : Int32).toInt)
    · rw [hpc] at he
      exact absurd he.1 (by decide)
  exact ⟨s, (no_early_exit (booted_iff.mpr ⟨none, 0, 0, rfl⟩) hreach).1, of_decide_eq_true hprop⟩

/-! ## The idle thread out of ticks -/

/-- After the boot and `n` ticks at the top of the loop. -/
def idled (n : Nat) : State :=
  { afterBoot none 0 0 with
    heap := fun a =>
      match a with
      | .stackPage => some ⟨1, .ready, 0, 9999999, threadMagic⟩
      | .block j => if j = 0 then some ⟨2, .running, 0, 999 - n, threadMagic⟩ else none
    ticks := n
    threadTicks := n % 2 ^ 32
    idleTicks := n
    trace := List.replicate n (.charged (.block 0) 2) }

theorem idled_ticked (n : Nat) : (idled n).ticked = idled (n + 1) := by
  refine State.ext_heap (fun a => ?_) ?_
  · refine (State.mapThread_heap (.block 0) a _ (idled n)).trans ?_
    cases a with
    | stackPage => rfl
    | block j =>
        by_cases hj : j = 0
        · subst hj
          simp only [idled, if_true, Option.map_some, Int.sub_sub]
          rfl
        · simp [idled, hj]
  · have hslice : (n % 2 ^ 32 + 1) % 2 ^ 32 = (n + 1) % 2 ^ 32 := by omega
    have htrace : List.replicate n (Obs.charged (.block 0) 2) ++ [.charged (.block 0) 2] =
        List.replicate (n + 1) (.charged (.block 0) 2) := List.replicate_succ'.symm
    unfold idled
    rw [← hslice, ← htrace]
    rfl

/-- The idle thread may run for any number of ticks. -/
theorem idled_reached : ∀ n, Midway (idled n) ∧
    LoopRun (fun _ _ i => i.positive) (.ret (), afterBoot none 0 0) (.ret (), idled n)
  | 0 => ⟨(afterBoot_inv none 0 0).midway, .refl⟩
  | n + 1 => by
      obtain ⟨hmid, hrun⟩ := idled_reached n
      rw [← idled_ticked]
      exact ⟨hmid.ticked, hrun.tail (.pause (i := .timer) ⟨rfl, trivial, trivial⟩ (tick_ok hmid))⟩

/-- A thread that is created once the idle thread has run for 999 ticks, right before the `printf`
of `after_interrupt`, exits without a tick. -/
theorem new_thread_exits : ¬ ∀ s₀ c, Booted s₀ →
    LoopRun (fun _ _ i => i.positive) (.ret (), s₀) c → PaidInFull c.2 := by
  intro hall
  have hplay : (replay (interrupts fun _ _ i => i.positive)
      (fun _ s i => i.possible s && decide (i = .create .other (some 1) 10))
      (List.replicate 22 none ++ some (.create .other (some 1) 10) :: List.replicate 40 none)
      afterInterrupt (idled 999)).any (fun s => decide
        (.exited (.block 1) 3 ∈ s.trace ∧ .created (.block 1) 3 10 ∈ s.trace ∧ s.charges 3 = 0)) =
      true := by decide +kernel
  obtain ⟨s, hs, hprop⟩ := (Option.any_eq_true _ _).mp hplay
  obtain ⟨hexited, hcreated, hzero⟩ := of_decide_eq_true hprop
  have hreach : LoopRun (fun _ _ i => i.positive) (.ret (), afterBoot none 0 0) (.ret (), s) := by
    refine (idled_reached 999).2.trans (.head (.again _) (replay_reaches (fun _ _ i hcan => ?_) hs))
    obtain ⟨hpos, hi⟩ := Bool.and_eq_true_iff.mp hcan
    refine Intr.possible.enabled hpos ?_
    rw [of_decide_eq_true hi]
    exact (by decide : (0 : Int) < (10 : Int32).toInt)
  have hpaid := (hall _ _ (booted_iff.mpr ⟨none, 0, 0, rfl⟩) hreach (.block 1) 3 hexited).2 10
    hcreated
  rw [hzero] at hpaid
  exact absurd hpaid (by decide)

end PicoOS
