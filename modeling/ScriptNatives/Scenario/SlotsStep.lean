import ScriptNatives.Slots.Basic

/-!
# Steps on a pool of cells
-/
namespace ScriptNatives.Scenario

inductive SlotsStep where
  | insert (value : Cell)
  | get (id : Cell)
  | remove (id : Cell)
  | contains (id : Cell)
  | set (id value : Cell)
  /-- Keeps the values that leave the remainder `rem` on division by `mod`. -/
  | retain (mod rem : Int)
  /-- Inserts a value and removes it again, so many times. -/
  | churn (times : Nat) (value : Cell)
  | capacity
  deriving Repr

inductive SlotsAnswer where
  | value (c : Option Cell)
  | flag (b : Bool)
  | number (n : Nat)
  /-- The pool was full and handed the value back. -/
  | full (c : Cell)
  /-- So many rounds came to their end, the last of them with that id. -/
  | churned (rounds : Nat) (last : Option Cell)
  deriving DecidableEq, Repr

/-- The answer to a step, and the counts of the pool after it. -/
structure SlotsReport where
  answer : SlotsAnswer
  live : Nat
  isEmpty : Bool
  retired : Nat
  deriving DecidableEq, Repr

/-- Inserts a value and removes it again up to `times` times, as long as there is room. `rounds`
and `last` tell of the rounds before. -/
def churn (s : Slots Cell) (value : Cell) (rounds : Nat) (last : Option Cell) :
    Nat → SlotsAnswer × Slots Cell
  | 0 => (.churned rounds last, s)
  | times + 1 =>
    match s.insert? value with
    | none => (.churned rounds last, s)
    | some (id, s) =>
      churn ((s.remove? id).elim s (·.2)) value (rounds + 1) (some id) times

def SlotsStep.perform (s : Slots Cell) : SlotsStep → SlotsAnswer × Slots Cell
  | insert value =>
    match s.insert? value with
    | some (id, s) => (.value (some id), s)
    | none => (.full value, s)
  | get id => (.value (s.get? id), s)
  | remove id =>
    match s.remove? id with
    | some (value, s) => (.value (some value), s)
    | none => (.value none, s)
  | contains id => (.flag (s.contains id), s)
  | set id value => (.value (s.get? id), s.set id value)
  | retain mod rem =>
    let (count, s) := s.filter fun c => c.toInt % mod == rem
    (.number count, s)
  | churn times value => Scenario.churn s value 0 none times
  | capacity => (.number s.capacity, s)

def SlotsStep.performAll (s : Slots Cell) : List SlotsStep → List SlotsReport
  | [] => []
  | step :: steps =>
    let (answer, s) := step.perform s
    ⟨answer, s.live, s.isEmpty, s.retired⟩ :: performAll s steps

end ScriptNatives.Scenario
