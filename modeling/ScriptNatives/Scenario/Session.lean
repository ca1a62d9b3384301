import ScriptNatives.Scenario.Report
import ScriptNatives.Scenario.Step

/-!
# Sessions

What a scenario keeps track of while it drives a world. It is the state of the scripted host.
-/
namespace ScriptNatives.Scenario

/-- What a scenario keeps track of besides the world. -/
structure Session where
  /-- The rules that may still apply. -/
  rules : List Rule
  /-- The machine of every instance ever registered, by the number of the instance less one. -/
  machines : Array Nat := #[]
  /-- The marks of the dispatches that were entered; that of one that was left is gone. -/
  marks : Array (Option World.SourceMark) := #[]
  /-- The variables that were kept, the latest of a name first. -/
  kept : List (String × Var) := []
  /-- How many strings were made. -/
  strings : Nat := 0
  /-- The calls of the present step, latest first. -/
  calls : List CallReport := []
  /-- The texts of the strings made in the present step, latest first. -/
  texts : List String := []

abbrev Stage := World Session

end ScriptNatives.Scenario

namespace ScriptNatives.World

open Scenario

def track (w : Stage) (f : Session → Session) : Stage := { w with host := f w.host }

/-- The number of the machine that an instance has or had. -/
def machineNumber? (w : Stage) (id : InstanceId) : Option Nat := w.host.machines[id.raw - 1]?

/-- The machine that an instance has or had. -/
def everMachine? (w : Stage) (id : InstanceId) : Option Machine := do
  w.machines[← w.machineNumber? id]?

/-- Registers a machine and remembers which instance got it. -/
def load (w : Stage) (m : Machine) : InstanceId × Stage :=
  let number := w.machines.size
  let (id, w) := w.register m
  (id, w.track fun s => { s with machines := s.machines.push number })

def loadAgain? (w : Stage) (number : Nat) : Option (InstanceId × Stage) :=
  if h : number < w.machines.size then
    let (id, w) := w.registerShared ⟨number, h⟩
    some (id, w.track fun s => { s with machines := s.machines.push number })
  else
    none

end ScriptNatives.World
