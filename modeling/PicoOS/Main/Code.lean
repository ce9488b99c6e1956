/-
# `PicoOS.Main.Code` — `main` up to its call of `run_test`

The prompts of `main.c`, the table of `tests/tests.c`, and the boot.  A console is
what the user has typed and `main` has not read, and a log of what was printed and
entered.

`scanf ("%s", …)` reads one string.  The buffer is taken to hold it: in C a string of
more than four characters would be written past its end.  When nothing is typed any
more `scanf` waits, and `main` does not go on.
-/
import PicoOS.Sched.Code

namespace PicoOS.Main

/-! ## `atoi` -/

/-- `isspace (c)`. -/
def isSpace (c : Char) : Bool := [' ', '\t', '\n', '\x0b', '\x0c', '\r'].contains c

/-- The digits at the front, read as a decimal number. -/
def digits (s : List Char) : Int :=
  (s.takeWhile Char.isDigit).foldl (fun n c => 10 * n + (c.toNat - '0'.toNat)) 0

/-- An `int`, the nearest one if the number is out of range. -/
def saturate (n : Int) : Int32 := Int32.ofInt (max (-2 ^ 31) (min n (2 ^ 31 - 1)))

/-- `atoi (s)`: white space, a sign, digits; what comes after them is ignored. -/
def atoi (s : List Char) : Int32 :=
  match s.dropWhile isSpace with
  | '-' :: s => saturate (-digits s)
  | '+' :: s => saturate (digits s)
  | s => saturate (digits s)

/-! ## The tests -/

/-- The functions in the table. -/
inductive Test where
  | helloWorld
  | fifoSimple
  | roundRobinSimple
  | roundRobin1tick
  | fifoRandomDuration
  | roundRobinRandomDuration
  | fifoDelayedCreate
  | roundRobinDelayedCreate
  | sleepSingle
  | sleepMultipleFifo
  | sleepMultipleRr
  | sleepNegative
  | fifoForceExit
  | roundRobinForceExit
  | manualSetRoundRobin
  deriving DecidableEq, Repr

/-- `tests`. -/
def tests : List (String × Test) :=
  [("hello-world", .helloWorld),
    ("fifo-simple", .fifoSimple),
    ("round-robin-simple", .roundRobinSimple),
    ("round-robin-1tick", .roundRobin1tick),
    ("fifo-random-duration", .fifoRandomDuration),
    ("round-robin-random-duration", .roundRobinRandomDuration),
    ("fifo-delayed-create", .fifoDelayedCreate),
    ("round-robin-delayed-create", .roundRobinDelayedCreate),
    ("sleep-single", .sleepSingle),
    ("sleep-multiple-fifo", .sleepMultipleFifo),
    ("sleep-multiple-rr", .sleepMultipleRr),
    ("sleep-negative", .sleepNegative),
    ("fifo-force-exit", .fifoForceExit),
    ("round-robin-force-exit", .roundRobinForceExit),
    ("manual-set-round-robin", .manualSetRoundRobin)]

/-- `getNumberOfTests ()`. -/
def getNumberOfTests : Int32 := Int32.ofNat tests.length

/-- `getTestName (testN)`; `main` calls it with an index of the table. -/
def getTestName (testN : Int32) : String := (tests.map Prod.fst)[testN.toInt.toNat]?.getD ""

/-! ## The console -/

/-- The two questions. -/
inductive Prompt where
  | test
  | cycles
  deriving DecidableEq, Repr

inductive Event where
  | printed (text : String)
  | entered (prompt : Prompt) (number : Int32)
  deriving DecidableEq, Repr

structure Console where
  typed : List (List Char)
  log : List Event

/-- Why `main` does not get any further. -/
inductive Fault where
  /-- `scanf` waits for the user. -/
  | waits
  /-- The boot stops. -/
  | stops (fault : PicoOS.Fault)
  | panic (message : String)
  deriving DecidableEq, Repr

/-- Code that talks to the user. -/
abbrev Code (β : Type) := StateT Console (Except Fault) β

def printf (text : String) : Code Unit := fun c =>
  .ok ((), { c with log := c.log ++ [.printed text] })

/-- `scanf ("%s", &userInput)` and `atoi (userInput)`. -/
def enter (prompt : Prompt) : Code Int32 := fun c =>
  match c.typed with
  | [] => .error .waits
  | s :: typed => .ok (atoi s, ⟨typed, c.log ++ [.entered prompt (atoi s)]⟩)

/-- `while (wrong) { printf (again); … }`, the variable being `number`. -/
def askAgain (prompt : Prompt) (wrong : Int32 → Bool) (again : String) :
    List (List Char) → List Event → Int32 → Except Fault (Int32 × Console)
  | [], log, number => if wrong number then .error .waits else .ok (number, ⟨[], log⟩)
  | s :: typed, log, number =>
      if wrong number then
        askAgain prompt wrong again typed
          (log ++ [.printed again, .entered prompt (atoi s)]) (atoi s)
      else .ok (number, ⟨s :: typed, log⟩)

/-- A question, asked again as long as the answer is wrong. -/
def ask (prompt : Prompt) (wrong : Int32 → Bool) (first again : String) : Code Int32 := do
  printf first
  let number ← enter prompt
  fun c => askAgain prompt wrong again c.typed c.log number

/-- `print_test_names ()`. -/
def printTestNames : Code Unit :=
  (tests.map Prod.fst).zipIdx.forM fun (name, i) =>
    printf ("Test " ++ toString (i + 1) ++ ": " ++ name ++ "\n")

/-! ## `main` -/

/-- `(testSelected > numberOfTests) || testSelected <= 0`. -/
def wrongTest (testSelected : Int32) : Bool :=
  decide (testSelected > getNumberOfTests) || decide (testSelected ≤ 0)

/-- The first question. -/
def selectTest : Code Int32 := do
  printf "=================INICIANDO=================\n"
  printf "Elija un test a ejecutar:\n"
  printTestNames
  let testSelected ← ask .test wrongTest "test: " "VALOR INCORRECTO. Seleccione test: "
  printf ("Se seleccionó el test " ++ toString testSelected ++ "\n\n")
  return testSelected

/-- The second question.  Its loop tests `testSelected`, not the number that was entered. -/
def selectCycles (testSelected : Int32) : Code Int32 := do
  let rrCountSelected ← ask .cycles (fun _ => decide (testSelected ≤ 0))
    "Ingrese ciclos para round robin (>0): "
    "Debe ser mayor a 0. Ingrese ciclos para round robin: "
  printf ("--------------------Configurando round robin para " ++ toString rrCountSelected ++
    " ciclos.\n--------------------\n")
  return rrCountSelected

/-- From `schedule_set_quantum` to `thread_yield`. -/
def start (quantum : Option Int32) (block k : Nat) : Code State := fun c =>
  match (boot quantum block k).run powerOn with
  | .ok ((), s) => .ok (s, c)
  | .error fault => .error (.stops fault)

/-- `main` up to `run_test`: the name it is called with and the state at that moment, or `none` if
`main` returns without it.  `block` is where `calloc` puts `idle_thread`, for which it is taken to
have memory; `k` is the number of ticks before `thread_yield`. -/
def main (block k : Nat) : Code (Option (String × State)) := do
  let testSelected ← selectTest
  if testSelected ≤ getNumberOfTests ∧ testSelected > 0 then
    let testSelected := testSelected - 1
    let quantum ← if testSelected = 14 then some <$> selectCycles testSelected else pure none
    let s ← start quantum block k
    return some (getTestName testSelected, s)
  else
    printf "Test no válido. Saliendo..."
    return none

/-- `run_test (name)`: the function that is called. -/
def runTest (name : String) : Except Fault Test :=
  match tests.find? fun t => t.1 = name with
  | some t => .ok t.2
  | none => .error (.panic ("no test named \"" ++ name ++ "\""))

end PicoOS.Main
