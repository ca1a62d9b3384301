import ScriptNatives.Scenario.MachineStep
import ScriptNatives.World.Calls

/-!
# Reports

What can be seen of a step on a world: its answer, the calls that the host ran during the step, the
texts it made strings of, and what observing hooks noted down. A call during which further
steps ran carries their reports.
-/
namespace ScriptNatives.Scenario

inductive Answer where
  | nothing
  | flag (b : Bool)
  | number (n : Int)
  | fault (f : Fault)
  | instances (ids : List InstanceId)
  /-- The instances that were visited, and the one at which the visits stopped. -/
  | visited (ids : List InstanceId) (stopped : Option InstanceId)
  | context (c : Context)
  /-- The result of a native, and the status of the machine that called it. -/
  | invoked (result : Except Fault Cell) (status : Option Status)
  /-- So many rounds came to their end, the last of them with that id; then a fault, maybe. -/
  | churned (rounds : Nat) (last : Option Cell) (fault : Option Fault)
  | tried (out : CallSummary)
  | handle (h : Handle)
  | var (v : Var)
  /-- The number of entries of a pool, and whether there are none. -/
  | extent (live : Nat) (isEmpty : Bool)
  | machine (answer : MachineAnswer)
  /-- The step names an instance that never was, or none. -/
  | noMachine
  /-- The step names a variable that was never kept. -/
  | noVar

namespace Answer

def ofCell? (c : Option Cell) : Answer := c.elim nothing (number ·.toInt)

def ofCell : Except Fault Cell → Answer
  | .ok c => number c.toInt
  | .error f => fault f

end Answer

mutual

/-- What can be seen of a step. -/
inductive Report where
  | mk (answer : Answer) (calls : List CallReport) (texts : List String) (notices : List Notice)

/-- A call that the host ran, and what can be seen of the steps that ran meanwhile. -/
inductive CallReport where
  | mk (call : HostCall) (steps : Option (List Report))

end

end ScriptNatives.Scenario
