/-
# `PicoOS.Intrusive.Calls` — runs on the links

The calls of the scheduler, and its loop with every interrupt, on the machine and
on the sequences.  From the power-on, with whatever is in the cells, the boot
leads to a machine that holds a booted state; from there on the two have the same
runs, and the machine stops for no other reason than a failed `ASSERT`.

The scan of `lista_espera` is compared by an induction on the sleepers still to
come, the list being split at the iterator.  `thread_create` clears the memory it
was given: on the sequences, handing out memory that is linked is the fault
`relinked`, so about a run that goes on the memory was not.
-/
import PicoOS.Intrusive.Refines
import PicoOS.Sched.MainLoop

namespace PicoOS.Intrusive

open Interruptible LinkedSeq Runs Relation

/-- From the state on, the machine does what the sequences do, given enough rounds. -/
abbrev Track {α : Type} (p : PicoOS.Code α) (q : Nat → Code α) (s : State) : Prop :=
  Tracks Rel image p q s

/-! ## The scan -/

section Scan

variable {s s' : State} {m : Machine} {ticks : Nat} {t : Addr} {stay rest : List Addr}

theorem derefs_state {β : Type} {f : State → Except PicoOS.Fault β} {b : β}
    (h : derefs f s = .ok (b, s')) : s' = s := by
  unfold derefs at h
  cases hf : f s with
  | ok c =>
      rw [hf] at h
      cases h
      rfl
  | error e =>
      rw [hf] at h
      cases h

/-- A sleeper taken out of the middle of `lista_espera`. -/
theorem erase_middle (hR : Rel s m) (hsplit : s.listaEspera = stay ++ t :: rest) :
    s.listaEspera.erase t = stay ++ rest := by
  have hnodup : (stay ++ t :: rest).Nodup := by
    rw [← hsplit]
    have hcells := hR.holds.apart.nodup .listaEspera
    have hlist : (seqs s .listaEspera).Nodup := (List.nodup_append.mp (List.nodup_cons.mp hcells).2).1
    exact hlist.of_map _
  have hstay : t ∉ stay := fun hmem =>
    (List.nodup_append.mp hnodup).2.2 t hmem t (List.mem_cons_self ..) rfl
  rw [hsplit, List.erase_append_right _ hstay, List.erase_cons_head]

/-- `list_remove` of the sleeper at the iterator returns the iterator at the next one. -/
theorem agrees_removeEspera (hR : Rel s m) (hsplit : s.listaEspera = stay ++ t :: rest) :
    Agrees (fun x y => y.1 = (ends .listaEspera).at (rest.map .elem) ∧ Rel x.2 y.2) image
      (removeEspera t s) (onList (Lists.listRemove (some (.elem t))) m) := by
  have hmem : s.listaEspera.contains t = true := by simp [hsplit]
  have hx : seqs s .listaEspera = stay.map .elem ++ .elem t :: rest.map .elem := by
    simp [seqs, hsplit]
  have hremove := Lists.listRemove_leaves hR.holds hx
  rw [← List.map_append, ← erase_middle hR hsplit, seqs_espera] at hremove
  obtain ⟨H, hrun, hholds, -⟩ := hremove
  rw [removeEspera, if_pos hmem]
  refine ⟨((ends .listaEspera).at (rest.map .elem), { m with links := H }), ?_, rfl, hR.globals,
    hholds⟩
  simp only [onList, hrun]

theorem asserts_state {f c : String} {p : State → Except PicoOS.Fault Bool} {u : Unit}
    (h : asserts f c p s = .ok (u, s')) : s' = s := by
  unfold asserts at h
  split at h
  · cases h
  · cases h
    rfl
  · cases h

/-- `thread_unblock` leaves `lista_espera` alone. -/
theorem keeps_threadUnblock (l : List Addr) (t : Addr) :
    Keeps (fun s => s.listaEspera = l) (PicoOS.threadUnblock t) := by
  refine fun s _ s' hs h => ⟨asserts_state h ▸ hs, ?_⟩
  refine fun s _ s' hs h => ⟨asserts_state h ▸ hs, ?_⟩
  refine fun s _ s' hs h => ⟨?_, ?_⟩
  · unfold PicoOS.pushReady at h
    split_ifs at h
    cases h
    exact hs
  · refine fun s _ s' hs h => ⟨?_, trivial⟩
    unfold stores at h
    split at h
    · cases h
      exact hs
    · cases h

/-- A round at the `elem` of a thread: there is nothing to fault in `list_end` and `list_entry`. -/
theorem removerLoop_round (n : Nat) :
    (removerLoop ticks (n + 1) (some (.elem t))).run m = (do
      let due ← stmt .removerTest (shared (derefs fun s =>
        (s.load t).map fun th => wakeTest ticks th.sleepTime))
      if due then
        let iter ← stmt .removerRemove (onList (Lists.listRemove (some (.elem t))))
        threadUnblock t
        removerLoop ticks n iter
      else
        let iter ← stmt .removerTest (onList (Lists.listNext (some (.elem t))))
        removerLoop ticks n iter : Code Unit).run m := rfl

/-- The walk over the links, the list being split at the iterator. -/
theorem agrees_removerLoop : ∀ {rest stay : List Addr} {n : Nat} {s : State} {m : Machine},
    Rel s m → s.listaEspera = stay ++ rest → rest.length < n →
    Agrees (Same Rel) image ((PicoOS.removerLoop ticks rest).run s)
      ((removerLoop ticks n ((ends .listaEspera).at (rest.map .elem))).run m)
  | _, _, 0, _, _, _, _, hn => absurd hn (Nat.not_lt_zero _)
  | [], stay, n + 1, s, m, hR, _, _ => agrees_ok hR
  | t :: rest, stay, n + 1, s, m, hR, hsplit, hn => by
      rw [List.map_cons, Ends.at_cons, removerLoop_round]
      refine Agrees.step (V := Eq) ((blind_derefs fun _ => rfl).follow s m hR)
        fun due due' s₁ m₁ hdue hdd hR₁ => ?_
      subst hdd
      obtain rfl := derefs_state hdue
      have hlt : rest.length < n := Nat.lt_of_succ_lt_succ hn
      cases due with
      | true =>
          refine Agrees.step (V := fun _ iter => iter = (ends .listaEspera).at (rest.map .elem))
            (agrees_removeEspera hR₁ hsplit) fun _ iter s₂ m₂ hrem hiter hR₂ => ?_
          have hsplit₂ : s₂.listaEspera = stay ++ rest := by
            have hmem : s₁.listaEspera.contains t = true := by simp [hsplit]
            rw [removeEspera, if_pos hmem] at hrem
            cases hrem
            exact erase_middle hR₁ hsplit
          rw [hiter]
          show Agrees (Same Rel) image
            ((PicoOS.threadUnblock t >>= fun _ => PicoOS.removerLoop ticks rest).run s₂)
            ((threadUnblock t >>= fun _ => removerLoop ticks n _).run m₂)
          refine Agrees.bind (V := Eq) ((mirror_threadUnblock t).run _ _ hR₂)
            fun _ _ s₃ m₃ hun _ hR₃ => ?_
          exact agrees_removerLoop hR₃ ((keeps_threadUnblock _ t).run hsplit₂ hun) hlt
      | false =>
          have hx : seqs s₁ .listaEspera = stay.map .elem ++ .elem t :: rest.map .elem := by
            simp [seqs, hsplit]
          have hnext : onList (Lists.listNext (some (.elem t))) m₁ =
              .ok ((ends .listaEspera).at (rest.map .elem), m₁) := by
            simp only [onList, Lists.listNext_ok hR₁.holds hx]
          have hstep : (do
              let iter ← stmt .removerTest (onList (Lists.listNext (some (.elem t))))
              removerLoop ticks n iter : Code Unit).run m₁ =
              (removerLoop ticks n ((ends .listaEspera).at (rest.map .elem))).run m₁ :=
            Prog.run_stmt_ok hnext
          have hsplit' : s₁.listaEspera = (stay ++ [t]) ++ rest := by simp [hsplit]
          have hrest := agrees_removerLoop hR₁ hsplit' hlt
          rw [← hstep] at hrest
          exact hrest

/-- The scan takes a round for every sleeper, and one to see that there is no more. -/
theorem track_removerThreadDurmiente (ticks : Nat) (s : State) :
    Track (PicoOS.removerThreadDurmiente ticks) (fun n => removerThreadDurmiente n ticks) s := by
  refine ⟨s.listaEspera.length + 1, fun n hn m hR => ?_⟩
  have hbegin : onList (Lists.listBegin (listPtr .listaEspera)) m =
      .ok ((ends .listaEspera).at (s.listaEspera.map .elem), m) := by
    have hrun := Lists.listBegin_ok hR.holds .listaEspera
    simp only [onList, listPtr, hrun]
    rfl
  have hstep : (removerThreadDurmiente n ticks).run m =
      (removerLoop ticks n ((ends .listaEspera).at (s.listaEspera.map .elem))).run m :=
    Prog.run_stmt_ok hbegin
  rw [hstep]
  exact agrees_removerLoop hR (List.nil_append _).symm hn

theorem track_timerInterrupt (s : State) : Track PicoOS.timerInterrupt timerInterrupt s := by
  have htick : Mirror (PicoOS.stmt .tickCount (writes fun s => { s with ticks := s.ticks + 1 }))
      (stmt .tickCount (shared (writes fun s => { s with ticks := s.ticks + 1 }))) :=
    mirror_blind (blind_writes (fun _ => rfl) fun _ => rfl) fun _ => .ret ()
  refine (htick.tracks s).bind fun _ s₁ _ => ?_
  refine (mirror_threadTick.tracks s₁).bind fun _ s₂ _ => ?_
  refine ((mirror_threadCurrent .tickPrintf).tracks s₂).bind fun t s₃ _ => ?_
  have hprint : Mirror (PicoOS.stmt .tickPrintf (derefs fun s => (s.load t).map fun _ => s.ticks))
      (stmt .tickPrintf (shared (derefs fun s => (s.load t).map fun _ => s.ticks))) :=
    mirror_blind (blind_derefs fun _ => rfl) fun ticks => .ret ticks
  refine (hprint.tracks s₃).bind fun ticks s₄ _ => ?_
  exact track_removerThreadDurmiente ticks s₄

end Scan

/-! ## Memory that is cleared -/

section Clear

variable {s : State} {m : Machine} {t : Addr}

/-- The thread is in no list. -/
structure Unlinked (s : State) (t : Addr) : Prop where
  elem : s.linked t = false
  allelem : t ∉ s.allList

theorem cleared_sameOff (t : Addr) (H : Links Cell) :
    H.SameOff (cleared t H) [.elem t, .allelem t] := by
  intro c hc
  simp only [List.mem_cons, List.not_mem_nil, or_false, not_or] at hc
  simp [cleared, Links.setNext, Links.setPrev, hc.1, hc.2]

theorem Rel.cleared (hR : Rel s m) (h : Unlinked s t) :
    Rel s { m with links := cleared t m.links } := by
  refine ⟨hR.globals, hR.holds.apart, fun q => ?_⟩
  refine (hR.holds.threaded q).sameOff (cleared_sameOff t m.links) fun c hc hmem => ?_
  simp only [List.mem_cons, List.not_mem_nil, or_false] at hmem
  rcases hmem with rfl | rfl
  · exact elem_free h.elem q hc
  · exact allelem_free h.allelem q hc

/-- A blind statement of a machine that has just cleared the memory of a thread in no list. -/
theorem Blind.cleared {β : Type} {act : State → Except PicoOS.Fault (β × State)} (hact : Blind act)
    (hR : Rel s m) (h : Unlinked s t) : Agrees (Same Rel) image (act s)
      (shared act { m with links := Intrusive.cleared t m.links }) :=
  hact.follow _ _ (hR.cleared h)

theorem blind_place (t : Addr) (th : Thread) :
    Blind (writes fun s => { s with heap := Function.update s.heap t (some th) }) :=
  blind_writes (fun _ => rfl) fun _ => rfl

/-- `init_thread`, and what comes after it. -/
theorem agrees_initThread {α : Type} {name : Name} {f : PicoOS.Code α} {g : Code α}
    (hfg : Mirror f g) (hR : Rel s m) (h : Unlinked s t) :
    Agrees (Same Rel) image ((PicoOS.initThread t name >>= fun _ => f).run s)
      ((initThread t name >>= fun _ => g).run m) := by
  have hname : Blind (asserts "init_thread" "name != NULL" fun _ => .ok (name != .null)) :=
    blind_asserts fun _ => rfl
  refine Agrees.step (V := Eq) (hname.follow s m hR) fun _ _ s₁ m₁ hs₁ _ hR₁ => ?_
  obtain rfl := asserts_state hs₁
  refine Agrees.step (V := Eq) ((blind_place t _).cleared hR₁ h) fun _ _ s₂ m₂ _ _ hR₂ => ?_
  exact (Mirrors.stmt _ (follow_pushAll t) fun _ => hfg).run s₂ m₂ hR₂

end Clear

/-! ## Creating a thread -/

section Create

variable {s : State} {m : Machine}

/-- `thread_create` once `init_thread` has returned. -/
theorem mirror_initialized (t : Addr) (name : Name) (d : Int) :
    Mirror
      (do
        let tid ← PicoOS.stmt .createTid (assignTid t)
        PicoOS.stmt .createDuration (assignDuration t tid d)
        allocFrame t frameSize
        PicoOS.threadUnblock t
        PicoOS.stmt .createIdle (writes fun s =>
          if name = .idleLiteral ∧ tid = 2 then { s with idleThread := some t } else s)
        PicoOS.blockIfIdleThread
        return (tid : Int))
      (do
        let tid ← stmt .createTid (shared (assignTid t))
        stmt .createDuration (shared (assignDuration t tid d))
        embed (allocFrame t frameSize)
        threadUnblock t
        stmt .createIdle (shared (writes fun s =>
          if name = .idleLiteral ∧ tid = 2 then { s with idleThread := some t } else s))
        blockIfIdleThread
        return (tid : Int)) := by
  refine mirror_blind (blind_assignTid t) fun tid => ?_
  refine mirror_blind (blind_assignDuration t tid d) fun _ => ?_
  refine (mirror_allocFrame t frameSize).bind fun _ => ?_
  refine (mirror_threadUnblock t).bind fun _ => ?_
  refine mirror_blind (blind_writes (fun s => ?_) fun s => ?_) fun _ => ?_
  · split_ifs <;> rfl
  · split_ifs <;> rfl
  · exact mirror_blockIfIdleThread.bind fun _ => .ret (tid : Int)

theorem run_initThread_relinked {t : Addr} {name : Name} (hname : name ≠ .null)
    (hall : t ∈ s.allList) : (PicoOS.initThread t name).run s = .error .relinked := by
  have h₁ : (.ok (name != .null) : Except PicoOS.Fault Bool) = .ok true := by simpa using hname
  have h₂ : PicoOS.pushAll t (s.place t .fresh) = .error .relinked :=
    if_pos (List.contains_iff_mem.mpr hall)
  unfold PicoOS.initThread
  rw [run_step (asserts_ok h₁), run_step rfl]
  exact Prog.run_stmt_error h₂

theorem run_threadUnblock_relinked {t : Addr} {th : Thread} (ht : s.heap t = some th)
    (hm : th.magic = threadMagic) (hb : th.status = .blocked) (hl : s.linked t = true) :
    (PicoOS.threadUnblock t).run s = .error .relinked := by
  have h₁ : (status t s).map (· == .blocked) = .ok true := by simp [status_ok ht, hb, Except.map]
  have h₂ : PicoOS.pushReady t s = .error .relinked := if_pos hl
  unfold PicoOS.threadUnblock
  rw [run_step (asserts_ok (isThread_ok ht hm)), run_step (asserts_ok h₁)]
  exact Prog.run_stmt_error h₂

/-- Memory that is linked cannot be a new thread: it would be linked twice. -/
theorem relinked_of_linked {b : Nat} {name : Name} (hname : name ≠ .null) (d : Int32)
    (h : ¬ Unlinked s (.block b)) :
    (PicoOS.threadCreate name (some b) d).run s = .error .relinked := by
  let s₀ := s.place (.block b) ⟨0, .running, 0, 0, 0⟩
  have hcalloc : PicoOS.callocThread (some b) s = .ok (some (.block b), s₀) := rfl
  unfold PicoOS.threadCreate
  rw [run_step hcalloc]
  dsimp only
  by_cases hall : Addr.block b ∈ s.allList
  · exact Prog.run_bind_error (run_initThread_relinked hname (by exact hall))
  · have hlinked : s.linked (.block b) = true := by
      by_contra hl
      exact h ⟨Bool.eq_false_iff.mpr hl, hall⟩
    let s₁ := s₀.register (.block b)
    let s₂ : State := { s₁ with nextTid := s₁.nextTid + 1 }
    let th : Thread := { Thread.fresh with tid := s₁.nextTid }
    let s₃ := (s₂.log (.created (.block b) s₁.nextTid d.toInt)).place (.block b)
      { th with durationTicks := d.toInt }
    have hinit : (PicoOS.initThread (.block b) name).run s₀ =
        .ok ((), s₁.place (.block b) .fresh) := run_initThread hname (by exact hall)
    have hdur : assignDuration (.block b) s₁.nextTid d.toInt (s₂.place (.block b) th) =
        .ok ((), s₃) := by
      simp only [assignDuration, State.place_heap, State.mapThread_place]
      rfl
    rw [Prog.run_bind_ok hinit, run_step (assignTid_place _ _ _)]
    refine (run_step hdur).trans ?_
    rw [Prog.run_bind_ok (run_allocFrame rfl)]
    exact Prog.run_bind_error (run_threadUnblock_relinked (State.place_heap ..) rfl rfl
      (by exact hlinked))

theorem follow_threadCreate (name : Name) (block : Option Nat) (d : Int32) :
    Follows Rel image (PicoOS.threadCreate name block d).run (threadCreate name block d).run := by
  intro s m hR
  cases block with
  | none => exact agrees_ok hR
  | some b =>
      by_cases hname : name = .null
      · subst hname
        exact agrees_fault rfl
      · by_cases h : Unlinked s (.block b)
        · have hcalloc : Blind (PicoOS.callocThread (some b)) := fun _ => ⟨⟨_, rfl, rfl⟩, rfl⟩
          refine Agrees.step (V := Eq) (hcalloc.cleared hR h) fun t t' s₁ m₁ hs₁ ht hR₁ => ?_
          subst ht
          cases hs₁
          exact agrees_initThread (mirror_initialized (.block b) name d.toInt) hR₁
            ⟨h.elem, h.allelem⟩
        · rw [relinked_of_linked hname d h]
          exact agrees_stray rfl

end Create

/-! ## Calls -/

theorem track_code (s : State) : ∀ op : Op, Track op.code (fun n => code n op) s
  | .threadCreate name block d =>
      ((follow_threadCreate name block d).tracks s).bind fun _ s' _ => (Mirrors.ret ()).tracks s'
  | .threadSleep ticks => (mirror_threadSleep ticks).tracks s
  | .timerSleep ticks => (mirror_timerSleep ticks).tracks s
  | .threadYield => mirror_threadYield.tracks s
  | .threadExit => mirror_threadExit.tracks s
  | .setThreadExitOnReturn => mirror_setThreadExitOnReturn.tracks s
  | .scheduleSetQuantum mode rrticks => (mirror_scheduleSetQuantum mode rrticks).tracks s
  | .timerInterrupt => track_timerInterrupt s
  | .afterInterrupt => mirror_afterInterrupt.tracks s

/-! ## Booting -/

section Boot

/-- `list_init` of the three lists, whatever was in the cells. -/
theorem holds_reset (H : Links Cell) :
    Holds (((H.reset (ends .readyList)).reset (ends .allList)).reset (ends .listaEspera)) ends
      fun _ => [] := by
  refine ⟨⟨fun q => ?_, fun q q' hne => ?_⟩, fun q => ⟨?_, ?_, ?_, ?_⟩⟩
  · simp [Ends.cells, ends]
  · simp [Ends.cells, ends, List.Disjoint, hne]
  all_goals cases q <;> simp [Ends.cells, ends, Links.reset, Links.setNext, Links.setPrev]

/-- `thread_init` needs nothing of the cells. -/
theorem agrees_threadInit {s : State} {m : Machine} (hg : m.globals = s.bare) :
    Agrees (Same Rel) image (PicoOS.threadInit.run s) (threadInit.run m) := by
  obtain ⟨globals, H, clean⟩ := m
  subst hg
  have hrest : Mirror
      (do
        PicoOS.stmt .threadInit (stores .stackPage fun th => { th with status := .running })
        let _ ← PicoOS.stmt .createTid (assignTid .stackPage)
        PicoOS.stmt .threadInit (writes fun s => { s with threadRunningVar := .stackPage }))
      (do
        stmt .threadInit (shared (stores .stackPage fun th => { th with status := .running }))
        let _ ← stmt .createTid (shared (assignTid .stackPage))
        stmt .threadInit (shared (writes fun s => { s with threadRunningVar := .stackPage }))) := by
    refine mirror_blind (blind_stores .stackPage _) fun _ => ?_
    refine mirror_blind (blind_assignTid .stackPage) fun _ => ?_
    exact mirror_blind (blind_writes (fun _ => rfl) fun _ => rfl) fun _ => .ret ()
  let s₁ : State :=
    { s with readyList := [], allList := [], listaEspera := [], initialThread := .stackPage }
  have hR : Rel s₁ ⟨s₁.bare, _, rfl⟩ := ⟨rfl, by
    have hseqs : seqs s₁ = fun _ => [] := by
      funext q
      cases q <;> rfl
    rw [hseqs]
    exact holds_reset H⟩
  exact agrees_initThread hrest hR ⟨rfl, List.not_mem_nil⟩

theorem run_userQuantum (links : Links Cell) (quantum : Option Int32) :
    ∃ m, (embed (setUserQuantum quantum)).run (powerOn links) = .ok ((), m) ∧
      m.globals = (settings quantum).bare := by
  cases quantum with
  | none => exact ⟨_, rfl, rfl⟩
  | some rrticks => exact ⟨_, rfl, rfl⟩

theorem track_threadStart (block : Option Nat) (s : State) :
    Track (PicoOS.threadStart block) (fun _ => threadStart block) s :=
  ((follow_threadCreate .idleLiteral block 999).tracks s).bind fun _ s' _ =>
    (Mirrors.ret ()).tracks s'

theorem track_ticks : ∀ (k : Nat) (s : State),
    Track ((List.replicate k ()).forM fun _ => PicoOS.timerInterrupt)
      (fun n => (List.replicate k ()).forM fun _ => timerInterrupt n) s
  | 0, s => (Mirrors.ret ()).tracks s
  | k + 1, s => (track_timerInterrupt s).bind fun _ s' _ => track_ticks k s'

/-- The two boots. -/
theorem agrees_boot (links : Links Cell) (quantum : Option Int32) (block k : Nat) :
    ∃ n, Agrees (Same Rel) image ((PicoOS.boot quantum block k).run PicoOS.powerOn)
      ((boot n quantum block k).run (powerOn links)) := by
  obtain ⟨m, hm, hg⟩ := run_userQuantum links quantum
  have hset := settings_unstarted quantum
  have hrest : Track
      (do
        PicoOS.threadStart (some block)
        (List.replicate k ()).forM fun _ => PicoOS.timerInterrupt
        PicoOS.threadYield)
      (fun n => do
        threadStart (some block)
        (List.replicate k ()).forM fun _ => timerInterrupt n
        threadYield) (settings quantum).started := by
    refine (track_threadStart (some block) _).bind fun _ s₁ _ => ?_
    exact (track_ticks k s₁).bind fun _ s₂ _ => mirror_threadYield.tracks s₂
  obtain ⟨n, hrest⟩ := hrest
  refine ⟨n, ?_⟩
  unfold PicoOS.boot boot
  rw [Prog.run_bind_ok (run_setUserQuantum quantum), Prog.run_bind_ok hm]
  refine Agrees.bind (V := Eq) (agrees_threadInit hg) fun _ _ s₁ m₁ hs₁ _ hR₁ => ?_
  cases (run_threadInit hset.1 hset.2.2.1).symm.trans hs₁
  exact hrest n (Nat.le_refl n) m₁ hR₁

end Boot

/-! ## Rounds -/

theorem extends_removerLoop (ticks : Nat) : ∀ {n n' : Nat} (iter : Lists.Ptr Cell), n ≤ n' →
    Extends Fault.rounds (removerLoop ticks n iter) (removerLoop ticks n' iter)
  | 0, _, _, _ => Extends.of_short fun _ => rfl
  | n + 1, 0, _, h => absurd h (Nat.not_succ_le_zero n)
  | n + 1, n' + 1, iter, h => by
      have ih := fun iter => extends_removerLoop ticks iter (Nat.le_of_succ_le_succ h)
      unfold removerLoop
      refine (Extends.refl _).bind fun last => ?_
      split_ifs
      · refine (Extends.refl _).bind fun t => ?_
        refine (Extends.refl _).bind fun due => ?_
        split_ifs
        · refine (Extends.refl _).bind fun iter => ?_
          exact (Extends.refl _).bind fun _ => ih iter
        · exact (Extends.refl _).bind fun iter => ih iter
      · exact .refl _

/-- More rounds make a difference only to a call that was cut short. -/
theorem extends_code {n n' : Nat} (h : n ≤ n') (op : Op) :
    Extends Fault.rounds (code n op) (code n' op) := by
  cases op with
  | timerInterrupt =>
      refine (Extends.refl _).bind fun _ => (Extends.refl _).bind fun _ => ?_
      refine (Extends.refl _).bind fun t => (Extends.refl _).bind fun ticks => ?_
      exact (Extends.refl _).bind fun iter => extends_removerLoop ticks iter h
  | _ => exact .refl _

theorem exec_extends {n n' : Nat} (h : n ≤ n') {op : Op} {m : Machine} {r : Except Fault Machine}
    (hr : exec n op m = r) (hne : r ≠ .error .rounds) : exec n' op m = r := by
  subst hr
  unfold exec at hne ⊢
  rw [extends_code h op m _ rfl]
  intro hshort
  rw [hshort] at hne
  exact hne rfl

/-- The call on the machine, for any number of rounds from some number on. -/
theorem agrees_exec (s : State) (op : Op) : ∃ n₀, ∀ n, n₀ ≤ n → ∀ m, Rel s m →
    Agrees Rel image (PicoOS.exec op s) (exec n op m) := by
  obtain ⟨n₀, h⟩ := track_code s op
  exact ⟨n₀, fun n hn m hR => (h n hn m hR).states⟩

/-- The call on the machine, unless it was cut short. -/
theorem agrees_exec_uncut {s : State} {m : Machine} (hR : Rel s m) {n : Nat} {op : Op}
    (hne : exec n op m ≠ .error .rounds) : Agrees Rel image (PicoOS.exec op s) (exec n op m) := by
  obtain ⟨n₀, h⟩ := agrees_exec s op
  have hmax := exec_extends (Nat.le_max_left n n₀) rfl hne
  rw [← hmax]
  exact h _ (Nat.le_max_right n n₀) m hR

/-! ## Runs of calls -/

section Runs

variable {s t : State} {m m' : Machine} {op : Op} {ops : List Op}

theorem Rel.allowed (hR : Rel s m) : Allowed m.globals op ↔ Allowed s op := by
  rw [hR.globals]
  cases op <;> exact Iff.rfl

/-- A call on the sequences is one on the links. -/
theorem Rel.follow (hR : Rel s m) (h : Step s op t) : ∃ m', Call m op m' ∧ Rel t m' := by
  obtain ⟨n, hn⟩ := agrees_exec s op
  have hag := hn n (Nat.le_refl n) m hR
  rw [h.2] at hag
  obtain ⟨m', hm', hR'⟩ := hag
  exact ⟨m', ⟨hR.allowed.mpr h.1, n, hm'⟩, hR'⟩

/-- A call that the caller may make panics for a `NULL` name, and does not fault otherwise. -/
theorem exec_fault (hs : Inv s) (ha : Allowed s op) {e : PicoOS.Fault}
    (he : PicoOS.exec op s = .error e) :
    op.named = false ∧ e = .assert "init_thread" "name != NULL" := by
  cases hn : op.named with
  | true => cases he.symm.trans (exec_ok hs ha hn)
  | false =>
      cases op with
      | threadCreate name block d =>
          cases block with
          | none => simp [Op.named] at hn
          | some b =>
              obtain rfl : name = .null := by simpa [Op.named] using hn
              cases he.symm.trans (exec_null s b d)
              exact ⟨rfl, rfl⟩
      | _ => cases hn

/-- A call on the links is one on the sequences. -/
theorem Rel.answer (hs : Inv s) (hR : Rel s m) (h : Call m op m') : ∃ t, Step s op t ∧ Rel t m' := by
  obtain ⟨ha, n, hn⟩ := h
  have hne : exec n op m ≠ .error .rounds := by
    rw [hn]
    intro he
    cases he
  obtain ⟨t, ht, hR'⟩ := (agrees_exec_uncut hR hne).returned hn fun e he => by
    obtain ⟨-, rfl⟩ := exec_fault hs (hR.allowed.mp ha) he
    exact Option.some_ne_none _
  exact ⟨t, ⟨hR.allowed.mp ha, ht⟩, hR'⟩

theorem Rel.follow_run (h : Run Step s ops t) (hR : Rel s m) :
    ∃ m', Run Call m ops m' ∧ Rel t m' := by
  induction h generalizing m with
  | nil s => exact ⟨m, .nil m, hR⟩
  | cons hstep _ ih =>
      obtain ⟨m₁, hcall, hR₁⟩ := hR.follow hstep
      obtain ⟨m', hrun, hR'⟩ := ih hR₁
      exact ⟨m', .cons hcall hrun, hR'⟩

theorem Rel.answer_run (h : Run Call m ops m') (hs : Inv s) (hR : Rel s m) :
    ∃ t, Run Step s ops t ∧ Rel t m' := by
  induction h generalizing s with
  | nil m => exact ⟨s, .nil s, hR⟩
  | cons hcall _ ih =>
      obtain ⟨s₁, hstep, hR₁⟩ := hR.answer hs hcall
      obtain ⟨t, hrun, hR'⟩ := ih (inv_of_run (.cons hstep (.nil s₁)) hs) hR₁
      exact ⟨t, .cons hstep hrun, hR'⟩

end Runs

/-- From the power-on to the first call. -/
theorem boots (links : Links Cell) (quantum : Option Int32) (block k : Nat) :
    ∃ s₀ m₀, Booted s₀ ∧ (∃ n, (boot n quantum block k).run (powerOn links) = .ok ((), m₀)) ∧
      Rel s₀ m₀ := by
  obtain ⟨n, hag⟩ := agrees_boot links quantum block k
  have hrun := run_boot quantum block k
  rw [hrun] at hag
  obtain ⟨⟨_, m₀⟩, hm₀, -, hR⟩ := hag
  exact ⟨_, m₀, ⟨quantum, block, k, _, hrun, rfl⟩, ⟨n, hm₀⟩, ⟨hR.globals, hR.holds⟩⟩

/-- Whatever is in the cells at the power-on, the boot returns, and from there on the calls on the
links and those on the sequences have the same runs, through states that belong together: after
every run the links of the machine hold the three sequences.  A call that the caller may make ends
after finitely many rounds, and fails no other `ASSERT` than that of a `NULL` name. -/
theorem calls_refine (links : Links Cell) (quantum : Option Int32) (block k : Nat) :
    ∃ s₀ m₀, Booted s₀ ∧ (∃ n, (boot n quantum block k).run (powerOn links) = .ok ((), m₀)) ∧
      ∀ ops,
        (∀ s, Run Step s₀ ops s → ∃ m, Run Call m₀ ops m ∧ Rel s m) ∧
        ∀ m, Run Call m₀ ops m → ∃ s, Run Step s₀ ops s ∧ Rel s m ∧
          ∀ op, Allowed m.globals op →
            (op.named = true → ∃ m', Call m op m') ∧
            ∀ n e, exec n op m = .error e → e = .rounds ∨
              op.named = false ∧ e = .assert "init_thread" "name != NULL" := by
  obtain ⟨s₀, m₀, h₀, hboot, hR₀⟩ := boots links quantum block k
  refine ⟨s₀, m₀, h₀, hboot, fun ops => ⟨fun s hrun => hR₀.follow_run hrun, fun m hrun => ?_⟩⟩
  obtain ⟨s, hs, hR⟩ := hR₀.answer_run hrun h₀.inv
  have hinv := inv_of_run hs h₀.inv
  refine ⟨s, hs, hR, fun op ha => ⟨fun hn => ?_, fun n e he => ?_⟩⟩
  · obtain ⟨m', hcall, -⟩ := hR.follow (step_of_allowed hinv (hR.allowed.mp ha) hn)
    exact ⟨m', hcall⟩
  · by_cases hcut : e = .rounds
    · exact .inl hcut
    · have hne : exec n op m ≠ .error .rounds := by
        rw [he]
        exact fun h => hcut (Except.error.inj h)
      have hstray : ∀ e', PicoOS.exec op s = .error e' → image e' ≠ none := by
        intro e' he'
        obtain ⟨-, rfl⟩ := exec_fault hinv (hR.allowed.mp ha) he'
        exact Option.some_ne_none _
      obtain ⟨e', he', himage⟩ := (agrees_exec_uncut hR hne).faulted he hstray
      obtain ⟨hn, rfl⟩ := exec_fault hinv (hR.allowed.mp ha) he'
      exact .inr ⟨hn, (Option.some.inj himage).symm⟩

/-! ## The main loop -/

/-- The interrupts on the machine: with each a bound on the rounds its handler takes. -/
def interrupts (ok : Point → State → Intr → Prop) : Source Machine Fault Point (Intr × Nat) where
  enabled pc m i := m.globals.intrEnabled = true ∧ Allowed m.globals i.1.op ∧ ok pc m.globals i.1
  handle i := exec i.2 i.1.op

/-- `while (1) after_interrupt ();` on the machine. -/
def LoopRun (ok : Point → State → Intr → Prop) : Code Unit × Machine → Code Unit × Machine → Prop :=
  ReflTransGen (LoopStep (interrupts ok) loopTop afterInterrupt)

section Loop

variable {ok : Point → State → Intr → Prop}

/-- The interrupts `ok` lets in by the globals. -/
def blindly (ok : Point → State → Intr → Prop) (pc : Point) (s : State) (i : Intr) : Prop :=
  ok pc s.bare i

theorem matched (ok : Point → State → Intr → Prop) :
    Matched Rel image (· = .rounds) (PicoOS.interrupts (blindly ok)) (interrupts ok) where
  answer := by
    rintro pc s m ⟨i, n⟩ hR ⟨hon, ha, hok⟩
    rw [hR.globals] at hon hok
    refine ⟨i, ⟨hon, hR.allowed.mp ha, hok⟩, ?_⟩
    by_cases hcut : exec n i.op m = .error .rounds
    · exact .inl ⟨.rounds, hcut, rfl⟩
    · exact .inr (agrees_exec_uncut hR hcut)
  follow := by
    rintro pc s m i hR ⟨hon, ha, hok⟩
    obtain ⟨n, hag⟩ := agrees_exec s i.op
    refine ⟨(i, n), ⟨?_, hR.allowed.mpr ha, ?_⟩, hag n (Nat.le_refl n) m hR⟩
    · rw [hR.globals]
      exact hon
    · rw [hR.globals]
      exact hok

/-- Nothing has to ride along for the loop to fault by an `ASSERT` only. -/
theorem nothing_rides (ok : Point → State → Intr → Prop) :
    Rider ok (fun _ => True) (fun _ => True) False False where
  good _ := trivial
  goodLedger _ _ := trivial
  alike _ _ := trivial
  ticked _ _ := trivial
  adopt _ _ _ _ := trivial
  blocked _ _ _ := trivial
  yieldedTo _ _ _ _ := trivial
  unregister _ _ _ _ _ := trivial
  switched _ _ _ := trivial
  clear _ := trivial
  unforced := False.elim
  blockCue := False.elim
  exitCue := False.elim

/-- Whatever is in the cells at the power-on and whichever interrupts come in, the loop on the links
and the loop on the sequences reach the same configurations: the same point of `after_interrupt`, and
links that hold the three sequences.  A statement or a handler of the machine faults only by an
`ASSERT`, the one that fails on the sequences, or because it was given too few rounds. -/
theorem loop_refines (ok : Point → State → Intr → Prop) (links : Links Cell)
    (quantum : Option Int32) (block k : Nat) :
    ∃ s₀ m₀, Booted s₀ ∧ (∃ n, (boot n quantum block k).run (powerOn links) = .ok ((), m₀)) ∧
      (∀ c, PicoOS.LoopRun (blindly ok) (.ret (), s₀) c →
        ∃ c', LoopRun ok (.ret (), m₀) c' ∧ Paired Rel image c c') ∧
      ∀ c', LoopRun ok (.ret (), m₀) c' →
        ∃ c, PicoOS.LoopRun (blindly ok) (.ret (), s₀) c ∧ Paired Rel image c c' ∧
          ∀ e, LoopFault (interrupts ok) loopTop c' e → e = .rounds ∨
            ∃ f x, e = .assert f x ∧
              LoopFault (PicoOS.interrupts (blindly ok)) loopTop c (.assert f x) := by
  obtain ⟨s₀, m₀, h₀, hboot, hR₀⟩ := boots links quantum block k
  have hsafe : ∀ c, PicoOS.LoopRun (blindly ok) (.ret (), s₀) c →
      ∀ e, LoopFault (PicoOS.interrupts (blindly ok)) loopTop c e → image e ≠ none := by
    intro c hc e he
    obtain ⟨-, hfault, -⟩ := (nothing_rides (blindly ok)).loop (h₀.steady trivial) hc
    exact image_isAssert (hfault e he)
  have hstart : Paired Rel image ((.ret () : PicoOS.Code Unit), s₀) ((.ret () : Code Unit), m₀) :=
    ⟨.ret (), hR₀⟩
  refine ⟨s₀, m₀, h₀, hboot, fun c hc => ?_, fun c' hc' => ?_⟩
  · exact hstart.realizes (matched ok) mirror_afterInterrupt hc
  · obtain ⟨c, hc, hpair⟩ := hstart.refines (matched ok) mirror_afterInterrupt hsafe hc'
    refine ⟨c, hc, hpair, fun e he => ?_⟩
    obtain hcut | ⟨e', he', himage⟩ := hpair.faulted (matched ok) (hsafe c hc) he
    · exact .inl hcut
    · cases e' with
      | assert f x => exact .inr ⟨f, x, (Option.some.inj himage).symm, he'⟩
      | _ => cases himage

end Loop

end PicoOS.Intrusive
