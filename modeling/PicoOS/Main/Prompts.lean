/-
# `PicoOS.Main.Prompts` — what the user is asked, and what comes of it

A question is asked again as long as the answer is wrong, so the numbers entered at a
prompt are all wrong but the last (`Settled`).  The prompt for the quantum is asked
once: the loop around it tests the number of the test, which is 14 there.  A quantum
that is not positive goes to `schedule_set_quantum`, which ignores it, and the system
boots in FIFO mode.
-/
import PicoOS.Lib.Fallible
import PicoOS.Main.Code
import PicoOS.Sched.Ops

namespace PicoOS.Main

open Fallible

/-! ## Questions -/

/-- Of the numbers entered only the last one, `n`, is not wrong. -/
def Settled (wrong : Int32 → Bool) (numbers : List Int32) (n : Int32) : Prop :=
  ∃ pre, numbers = pre ++ [n] ∧ (∀ x ∈ pre, wrong x = true) ∧ wrong n = false

section Questions

variable {wrong : Int32 → Bool} {prompt : Prompt} {first again : String} {n x : Int32}
  {xs : List Int32}

theorem Settled.right (h : Settled wrong xs n) : wrong n = false := by
  obtain ⟨pre, -, -, hn⟩ := h
  exact hn

/-- The first number is read before anything is tested. -/
theorem not_settled_nil : ¬ Settled wrong [] n := by
  rintro ⟨pre, hnil, -, -⟩
  exact absurd hnil.symm (List.append_ne_nil_of_right_ne_nil pre (List.cons_ne_nil n []))

theorem settled_singleton (h : wrong n = false) : Settled wrong [n] n :=
  ⟨[], rfl, fun _ hx => (nomatch hx), h⟩

/-- The first number settles the question, or it is asked again. -/
theorem settled_cons : Settled wrong (x :: xs) n ↔
    (wrong x = false ∧ xs = [] ∧ n = x) ∨ (wrong x = true ∧ Settled wrong xs n) := by
  constructor
  · rintro ⟨pre, heq, hpre, hn⟩
    cases pre with
    | nil =>
        obtain ⟨rfl, rfl⟩ := List.cons.inj heq
        exact .inl ⟨hn, rfl, rfl⟩
    | cons y pre =>
        obtain ⟨rfl, rfl⟩ := List.cons.inj heq
        refine .inr ⟨hpre x (List.mem_cons_self ..), pre, rfl, fun z hz => ?_, hn⟩
        exact hpre z (List.mem_cons_of_mem _ hz)
  · rintro (⟨hx, rfl, rfl⟩ | ⟨hx, pre, rfl, hpre, hn⟩)
    · exact settled_singleton hx
    · refine ⟨x :: pre, rfl, fun z hz => ?_, hn⟩
      rcases List.mem_cons.mp hz with rfl | hz
      · exact hx
      · exact hpre z hz

/-- What is printed and entered while `us` is typed. -/
def dialogue (prompt : Prompt) (again : String) (us : List (List Char)) : List Event :=
  us.flatMap fun u => [.printed again, .entered prompt (atoi u)]

theorem askAgain_right {typed : List (List Char)} {log : List Event} (hx : wrong x = false) :
    askAgain prompt wrong again typed log x = .ok (x, ⟨typed, log⟩) := by
  cases typed with
  | nil => rw [askAgain, hx, if_neg Bool.false_ne_true]
  | cons s typed => rw [askAgain, hx, if_neg Bool.false_ne_true]

theorem askAgain_wrong {s : List Char} {typed : List (List Char)} {log : List Event}
    (hx : wrong x = true) : askAgain prompt wrong again (s :: typed) log x =
      askAgain prompt wrong again typed (log ++ [.printed again, .entered prompt (atoi s)])
        (atoi s) := by
  rw [askAgain, hx, if_pos rfl]

/-- The loop returns once the question is settled, and reads no further. -/
theorem askAgain_ok : ∀ {us : List (List Char)} {log : List Event} {x : Int32}
    (rest : List (List Char)), Settled wrong (x :: us.map atoi) n →
    askAgain prompt wrong again (us ++ rest) log x =
      .ok (n, ⟨rest, log ++ dialogue prompt again us⟩) := by
  intro us
  induction us with
  | nil =>
      intro log x rest h
      rcases settled_cons.mp h with ⟨hx, -, rfl⟩ | ⟨-, h⟩
      · rw [List.nil_append, dialogue, List.flatMap_nil, List.append_nil, askAgain_right hx]
      · exact absurd h not_settled_nil
  | cons u us ih =>
      intro log x rest h
      rcases settled_cons.mp h with ⟨-, hnil, -⟩ | ⟨hx, h⟩
      · cases hnil
      · rw [List.cons_append, askAgain_wrong hx, ih rest h, List.append_assoc]
        rfl

/-- If the loop returns, the question was settled by what it read. -/
theorem askAgain_settled : ∀ {typed : List (List Char)} {log : List Event} {x : Int32}
    {c : Console}, askAgain prompt wrong again typed log x = .ok (n, c) →
    ∃ us, typed = us ++ c.typed ∧ Settled wrong (x :: us.map atoi) n := by
  intro typed
  induction typed with
  | nil =>
      intro log x c h
      cases hx : wrong x with
      | true =>
          rw [askAgain, hx, if_pos rfl] at h
          cases h
      | false =>
          cases (askAgain_right hx).symm.trans h
          exact ⟨[], rfl, settled_singleton hx⟩
  | cons s typed ih =>
      intro log x c h
      cases hx : wrong x with
      | true =>
          rw [askAgain_wrong hx] at h
          obtain ⟨us, htyped, hsettled⟩ := ih h
          refine ⟨s :: us, ?_, settled_cons.mpr (.inr ⟨hx, hsettled⟩)⟩
          rw [htyped, List.cons_append]
      | false =>
          cases (askAgain_right hx).symm.trans h
          exact ⟨[], rfl, settled_singleton hx⟩

theorem ask_ok {u : List Char} {us rest : List (List Char)} {log : List Event}
    (h : Settled wrong ((u :: us).map atoi) n) :
    ask prompt wrong first again ⟨u :: us ++ rest, log⟩ = .ok (n, ⟨rest,
      log ++ [.printed first] ++ [.entered prompt (atoi u)] ++ dialogue prompt again us⟩) :=
  askAgain_ok rest h

theorem ask_settled {c c' : Console} (h : ask prompt wrong first again c = .ok (n, c')) :
    ∃ us, c.typed = us ++ c'.typed ∧ Settled wrong (us.map atoi) n := by
  obtain ⟨c, log⟩ := c
  cases c with
  | nil => cases h
  | cons u typed =>
      obtain ⟨us, htyped, hsettled⟩ := askAgain_settled h
      exact ⟨u :: us, congrArg (List.cons u) htyped, hsettled⟩

end Questions

/-! ## The test -/

/-- Texts, one after the other. -/
theorem forM_printf {β : Type} (text : β → String) : ∀ (l : List β) (c : Console),
    (l.forM fun b => printf (text b)) c =
      .ok ((), ⟨c.typed, c.log ++ l.map fun b => .printed (text b)⟩) := by
  intro l
  induction l with
  | nil =>
      intro c
      rw [List.map_nil, List.append_nil]
      rfl
  | cons b l ih =>
      intro c
      show (printf (text b) >>= fun _ => l.forM fun b => printf (text b)) c = _
      rw [bind_ok rfl, ih, List.append_assoc]
      rfl

/-- Before the question, texts are printed. -/
theorem selectTest_eq (c : Console) : ∃ log, selectTest c = (do
    let testSelected ← ask .test wrongTest "test: " "VALOR INCORRECTO. Seleccione test: "
    printf ("Se seleccionó el test " ++ toString testSelected ++ "\n\n")
    return testSelected : Code Int32) ⟨c.typed, log⟩ := by
  unfold selectTest
  rw [bind_ok rfl, bind_ok rfl]
  exact ⟨_, bind_ok (forM_printf _ _ _)⟩

theorem selectTest_ok {us : List (List Char)} {n : Int32} (rest : List (List Char))
    (log : List Event) (h : Settled wrongTest (us.map atoi) n) :
    ∃ log', selectTest ⟨us ++ rest, log⟩ = .ok (n, ⟨rest, log'⟩) := by
  obtain ⟨log₁, heq⟩ := selectTest_eq ⟨us ++ rest, log⟩
  cases us with
  | nil => exact absurd h not_settled_nil
  | cons u us => exact ⟨_, heq.trans ((bind_ok (ask_ok h)).trans (bind_ok rfl))⟩

theorem selectTest_settled {c c' : Console} {n : Int32} (h : selectTest c = .ok (n, c')) :
    ∃ us, c.typed = us ++ c'.typed ∧ Settled wrongTest (us.map atoi) n := by
  obtain ⟨log, heq⟩ := selectTest_eq c
  obtain ⟨n', c₁, hask, hrest⟩ := ok_of_bind (heq.symm.trans h)
  cases hrest
  obtain ⟨us, htyped, hsettled⟩ := ask_settled hask
  exact ⟨us, htyped, hsettled⟩

/-- A test that is not wrong is in the table. -/
theorem wrongTest_eq_false {n : Int32} : wrongTest n = false ↔ 0 < n.toInt ∧ n.toInt ≤ 15 := by
  have hnum : getNumberOfTests.toInt = 15 := rfl
  have hzero : (0 : Int32).toInt = 0 := rfl
  rw [wrongTest, Bool.or_eq_false_iff, decide_eq_false_iff_not, decide_eq_false_iff_not, gt_iff_lt,
    Int32.lt_iff_toInt_lt, Int32.le_iff_toInt_le]
  omega

theorem toInt_pred {n : Int32} (h : wrongTest n = false) : (n - 1).toInt = n.toInt - 1 := by
  obtain ⟨hpos, hle⟩ := wrongTest_eq_false.mp h
  have hone : (1 : Int32).toInt = 1 := rfl
  rw [Int32.toInt_sub, hone, Int.bmod_eq_of_le (by omega) (by omega)]

/-- The names of the table are distinct: the name of a test leads to its function. -/
theorem runTest_listed {n : Int32} (h : wrongTest n = false) :
    ∃ t, tests[n.toInt.toNat - 1]? = some (getTestName (n - 1), t) ∧
      runTest (getTestName (n - 1)) = .ok t := by
  obtain ⟨hpos, hle⟩ := wrongTest_eq_false.mp h
  have hsub := toInt_pred h
  have hfind : ∀ i (hi : i < 15), tests.find? (fun t => t.1 = (tests.get ⟨i, hi⟩).1) =
      some (tests.get ⟨i, hi⟩) := by
    decide
  have hi : n.toInt.toNat - 1 < 15 := by omega
  have hget : tests[n.toInt.toNat - 1]? = some (tests.get ⟨n.toInt.toNat - 1, hi⟩) :=
    List.getElem?_eq_getElem hi
  have hname : getTestName (n - 1) = (tests.get ⟨n.toInt.toNat - 1, hi⟩).1 := by
    rw [getTestName, show (n - 1).toInt.toNat = n.toInt.toNat - 1 by omega, List.getElem?_map, hget]
    rfl
  refine ⟨(tests.get ⟨n.toInt.toNat - 1, hi⟩).2, by rw [hget, hname], ?_⟩
  rw [runTest, hname, hfind _ hi]

/-- The last test of the table is the one that is set up by hand. -/
theorem manual_selected {n : Int32} (h : wrongTest n = false)
    (hname : getTestName (n - 1) = "manual-set-round-robin") : n = 15 := by
  obtain ⟨hpos, hle⟩ := wrongTest_eq_false.mp h
  have honly : ∀ i < 15, (tests.map Prod.fst)[i]?.getD "" = "manual-set-round-robin" → i = 14 := by
    decide
  have hsub := toInt_pred h
  have hidx := honly (n - 1).toInt.toNat (by omega) hname
  have hn : n.toInt = (15 : Int32).toInt := by
    show n.toInt = 15
    omega
  exact Int32.toInt_inj.mp hn

/-! ## The quantum -/

/-- The number entered last at a prompt. -/
def lastEntered (prompt : Prompt) (log : List Event) : Option Int32 :=
  (log.filterMap fun event =>
    match event with
    | .entered p n => if p = prompt then some n else none
    | .printed _ => none).getLast?

/-- With the test 14 the quantum is asked for once, whatever is entered. -/
theorem selectCycles_ok (q : List Char) (rest : List (List Char)) (log : List Event) :
    ∃ log', selectCycles 14 ⟨q :: rest, log⟩ = .ok (atoi q, ⟨rest, log'⟩) ∧
      lastEntered .cycles log' = some (atoi q) := by
  have hsettled : Settled (fun _ => decide ((14 : Int32) ≤ 0)) ([q].map atoi) (atoi q) :=
    settled_singleton rfl
  refine ⟨_, (bind_ok (ask_ok hsettled)).trans (bind_ok rfl), ?_⟩
  simp [lastEntered, dialogue]

theorem selectCycles_read {c c' : Console} {n : Int32} (h : selectCycles 14 c = .ok (n, c')) :
    ∃ q rest, c.typed = q :: rest ∧ n = atoi q ∧ lastEntered .cycles c'.log = some n := by
  obtain ⟨typed, log⟩ := c
  cases typed with
  | nil => cases h
  | cons q rest =>
      obtain ⟨log', hrun, hlast⟩ := selectCycles_ok q rest log
      cases hrun.symm.trans h
      exact ⟨q, rest, rfl, rfl, hlast⟩

/-! ## The settings at `run_test` -/

/-- The system runs with the settings it boots with. -/
theorem start_ok (quantum : Option Int32) (block k : Nat) (c : Console) :
    ∃ s, start quantum block k c = .ok (s, c) ∧
      s.roundRobinMode = (settings quantum).roundRobinMode ∧
      s.roundRobinTicks = (settings quantum).roundRobinTicks := by
  refine ⟨((settings quantum).booting block k).yielded, ?_,
    State.settings_kept State.tuned_yielded ((settings quantum).booting block k)⟩
  rw [start, run_boot]

/-- A quantum that is positive takes effect. -/
theorem settings_pos {q : Int32} (hq : 0 < q.toInt) :
    (settings (some q)).roundRobinMode = 1 ∧
      (settings (some q)).roundRobinTicks = q.toInt.toNat := by
  rw [settings, State.withQuantum, if_neg Int.one_ne_zero, if_pos ⟨rfl, hq⟩]
  exact ⟨rfl, rfl⟩

/-- The run of `main` when the number 15 settles the first question and `q` is typed next. -/
theorem main_manual {us : List (List Char)} (q : List Char) (rest : List (List Char))
    (block k : Nat) (h : Settled wrongTest (us.map atoi) 15) :
    ∃ s c, main block k ⟨us ++ q :: rest, []⟩ = .ok (some ("manual-set-round-robin", s), c) ∧
      lastEntered .cycles c.log = some (atoi q) ∧
      s.roundRobinMode = (settings (some (atoi q))).roundRobinMode ∧
      s.roundRobinTicks = (settings (some (atoi q))).roundRobinTicks := by
  obtain ⟨log₁, htest⟩ := selectTest_ok (q :: rest) [] h
  obtain ⟨log₂, hcycles, hlast⟩ := selectCycles_ok q rest log₁
  obtain ⟨s, hstart, hsettings⟩ := start_ok (some (atoi q)) block k ⟨rest, log₂⟩
  refine ⟨s, ⟨rest, log₂⟩, ?_, hlast, hsettings⟩
  unfold main
  rw [bind_ok htest, if_pos ⟨by decide, by decide⟩]
  have hquantum : (some <$> selectCycles 14) ⟨q :: rest, log₁⟩ =
      .ok (some (atoi q), ⟨rest, log₂⟩) :=
    bind_ok (f := fun n => pure (some n)) hcycles
  exact (bind_ok hquantum).trans (bind_ok hstart)

/-- If `main` gets as far as `run_test`, the number of the test settled the first question, and
something was typed after it if that is the last test. -/
theorem main_read {typed : List (List Char)} {block k : Nat} {name : String} {s : State}
    {c : Console} (h : main block k ⟨typed, []⟩ = .ok (some (name, s), c)) :
    ∃ us rest n, typed = us ++ rest ∧ Settled wrongTest (us.map atoi) n ∧
      name = getTestName (n - 1) ∧ (n - 1 = 14 → rest ≠ []) := by
  unfold main at h
  obtain ⟨n, c₁, htest, h⟩ := ok_of_bind h
  obtain ⟨us, htyped, hsettled⟩ := selectTest_settled htest
  split at h
  · dsimp only at h
    by_cases hn : n - 1 = 14
    · rw [if_pos hn, hn] at h
      obtain ⟨quantum, c₂, hquantum, h⟩ := ok_of_bind h
      obtain ⟨s', c₃, -, h⟩ := ok_of_bind h
      cases h
      obtain ⟨m, c₄, hcycles, -⟩ :=
        ok_of_bind (p := selectCycles 14) (f := fun m => pure (some m)) hquantum
      obtain ⟨q, rest, hread, -⟩ := selectCycles_read hcycles
      refine ⟨us, c₁.typed, n, htyped, hsettled, by rw [hn], fun _ hnil => ?_⟩
      exact List.cons_ne_nil q rest (hread.symm.trans hnil)
    · rw [if_neg hn] at h
      obtain ⟨quantum, c₂, -, h⟩ := ok_of_bind h
      obtain ⟨s', c₃, -, h⟩ := ok_of_bind h
      cases h
      exact ⟨us, c₁.typed, n, htyped, hsettled, rfl, fun h => absurd h hn⟩
  · cases h

/-- `run_test` finds the test whose number was entered. -/
theorem main_runTest {typed : List (List Char)} {block k : Nat} {name : String} {s : State}
    {c : Console} (h : main block k ⟨typed, []⟩ = .ok (some (name, s), c)) :
    ∃ us rest n t, typed = us ++ rest ∧ Settled wrongTest (us.map atoi) n ∧
      tests[n.toInt.toNat - 1]? = some (name, t) ∧ runTest name = .ok t := by
  obtain ⟨us, rest, n, htyped, hsettled, rfl, -⟩ := main_read h
  obtain ⟨t, hlisted, hfound⟩ := runTest_listed hsettled.right
  exact ⟨us, rest, n, t, htyped, hsettled, hlisted, hfound⟩

/-- If `main` gets as far as `run_test` with the test that is set up by hand, the mode is round robin
and the quantum is the number entered last, which is positive. -/
def QuantumTakesEffect (typed : List (List Char)) : Prop :=
  ∀ block k name s c, main block k ⟨typed, []⟩ = .ok (some (name, s), c) →
    name = "manual-set-round-robin" →
    ∃ n, lastEntered .cycles c.log = some n ∧ 0 < n.toInt ∧ s.roundRobinMode = 1 ∧
      s.roundRobinTicks = n.toInt.toNat

/-- The quantum takes effect exactly if what is typed at its prompt is a positive number: it is
asked for once. -/
theorem manual_quantum_iff (typed : List (List Char)) : QuantumTakesEffect typed ↔
    ∀ us q rest, typed = us ++ q :: rest → Settled wrongTest (us.map atoi) 15 →
      0 < (atoi q).toInt := by
  constructor
  · intro h us q rest htyped hsettled
    obtain ⟨s, c, hmain, hlast, -, -⟩ := main_manual q rest 0 0 hsettled
    rw [← htyped] at hmain
    obtain ⟨n, hn, hpos, -, -⟩ := h 0 0 _ s c hmain rfl
    rw [hlast, Option.some.injEq] at hn
    rw [hn]
    exact hpos
  · rintro h block k name s c hmain rfl
    obtain ⟨us, rest, n, rfl, hsettled, hname, hrest⟩ := main_read hmain
    obtain rfl := manual_selected hsettled.right hname.symm
    obtain ⟨q, rest, rfl⟩ := List.exists_cons_of_ne_nil (hrest rfl)
    have hpos := h us q rest rfl hsettled
    obtain ⟨s', c', hmain', hlast, hmode, hticks⟩ := main_manual q rest block k hsettled
    cases hmain'.symm.trans hmain
    obtain ⟨hone, hquantum⟩ := settings_pos hpos
    exact ⟨atoi q, hlast, hpos, hmode.trans hone, hticks.trans hquantum⟩

/-- A user who types 15 and then 7. -/
theorem manual_quantum_seven : QuantumTakesEffect [['1', '5'], ['7']] ∧
    ∃ s c, main 0 0 ⟨[['1', '5'], ['7']], []⟩ = .ok (some ("manual-set-round-robin", s), c) ∧
      s.roundRobinMode = 1 ∧ s.roundRobinTicks = 7 := by
  constructor
  · refine (manual_quantum_iff _).mpr fun us q rest htyped hsettled => ?_
    cases us with
    | nil => exact absurd hsettled not_settled_nil
    | cons u us =>
        cases us with
        | nil =>
            cases htyped
            decide
        | cons v us =>
            have hlen := congrArg List.length htyped
            simp only [List.length_cons, List.length_nil, List.length_append] at hlen
            omega
  · have hsettled : Settled wrongTest ([['1', '5']].map atoi) 15 := settled_singleton rfl
    obtain ⟨s, c, hmain, -, hmode, hticks⟩ := main_manual ['7'] [] 0 0 hsettled
    exact ⟨s, c, hmain, hmode, hticks⟩

/-- A user who types 15 and then 0 is not asked again, and the system runs in FIFO mode. -/
theorem manual_quantum_zero : ¬ QuantumTakesEffect [['1', '5'], ['0']] ∧
    ∃ s c, main 0 0 ⟨[['1', '5'], ['0']], []⟩ = .ok (some ("manual-set-round-robin", s), c) ∧
      s.roundRobinMode = 0 ∧ s.roundRobinTicks = 5 := by
  have hsettled : Settled wrongTest ([['1', '5']].map atoi) 15 := settled_singleton rfl
  obtain ⟨s, c, hmain, -, hmode, hticks⟩ := main_manual ['0'] [] 0 0 hsettled
  have hfifo : s.roundRobinMode = 0 := hmode
  refine ⟨fun h => ?_, s, c, hmain, hfifo, hticks⟩
  obtain ⟨-, -, -, hone, -⟩ := h 0 0 _ s c hmain rfl
  exact absurd (hfifo.symm.trans hone) (by decide)

end PicoOS.Main
