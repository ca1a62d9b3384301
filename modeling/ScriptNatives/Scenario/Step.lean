import ScriptNatives.Scenario.MachineStep
import ScriptNatives.World.Calls

/-!
# Steps on a world

A scenario drives a world step by step, and scripts what its host does: a rule says to which calls
it applies, what further steps run while such a call is going on, and what the call returns.
-/
namespace ScriptNatives.Scenario

/-- An instance named in a step. Within a call, its two ends can be meant. -/
inductive Who where
  | id (id : InstanceId)
  | source
  | target
  deriving DecidableEq, Repr

/-- The instance that is meant while a given call, if any, is going on. -/
def Who.resolve? (within : Option HostCall) : Who → Option InstanceId
  | id i => some i
  | source => within.map (·.source)
  | target => within.map (·.target)

/-- One act on a variable that was looked up before. -/
inductive VarStep where
  | linked
  | inside
  | owned (who : Who)
  | read (index : Int)
  | write (index : Int) (value : Cell)
  | free
  deriving Repr

inductive Step where
  | register (spec : MachineSpec)
  /-- Registers the machine of an instance, live or not, once more. -/
  | alias (who : Who)
  | unload (who : Who)
  | isLive (who : Who)
  | instances
  | onUnload (tag : String)
  /-- Visits the live instances; unloads one when another is reached, and stops at one. -/
  | visitLive (stopAt reached victim : Option Who)
  | context (who : Who)
  | bump (who : Who) (amount : Cell)
  | enterSource (who : Option Who)
  | leaveSource (mark : Nat)
  | source
  | invoke (who : Who) (native : String) (params : List Cell)
  /-- Makes a variable and deletes it again, so many times. -/
  | churnVar (who : Who) (times : Nat)
  | publicIndex (who : Who) (name : String)
  | publicVar (who : Who) (name : String)
  | encodeNative (who : Who) (name : String) (dest : Cell)
  | call (who : Who) (recipients : Recipients) (function : String) (kind : FunctionKind)
    (args : Arguments)
  | tryCall (who : Who) (recipients : Recipients) (function : String) (kind : FunctionKind)
    (args : Arguments)
  | createHandle (value : Cell) (context : Who) (owned : Bool)
  | handle (id : Cell)
  | releaseHandle (id : Cell)
  | reclaimHandles (who : Who)
  | countHandles
  | createVar (who : Who) (address count : Int)
  /-- Looks a variable up, and keeps it under a name if one is given. -/
  | resolveVar (id : Cell) (keepAs : Option String)
  | isVar (id : Cell)
  | releaseVar (id : Cell)
  | reclaimVars (who : Who)
  | countVars
  | varOffset (id : Cell) (who : Who) (origin : Int)
  /-- Acts on the variable kept under a name. -/
  | onVar (kept : String) (step : VarStep)
  /-- Acts on the machine of an instance, live or not. -/
  | onMachine (who : Who) (step : MachineStep)

inductive Reply where
  | fail (status : Status)
  | value (c : Cell)
  /-- The sum of the argument values. -/
  | sum
  /-- Ten times the number of the target. -/
  | tenfold
  deriving DecidableEq, Repr

def Reply.result (call : HostCall) : Reply → Except Status Cell
  | fail status => .error status
  | value c => .ok c
  | sum => .ok call.args.values.sum
  | tenfold => .ok (call.target.toCell * 10)

/-- What the host does on certain calls. -/
structure Rule where
  /-- The function that has to be called, if it matters. -/
  function : Option String := none
  /-- The number of the instance that has to be called, if it matters. -/
  target : Option Nat := none
  /-- Whether the rule applies to one call only. -/
  once : Bool := false
  /-- The steps that run while the call is going on. -/
  steps : List Step := []
  reply : Reply := .tenfold

def Rule.covers (r : Rule) (call : HostCall) : Bool :=
  r.function.all (· == call.function) && r.target.all (· == call.target.raw)

/-- The first rule that applies to a call, and the rules that are left for later calls. -/
def takeRule (call : HostCall) : List Rule → Option (Rule × List Rule)
  | [] => none
  | r :: rules =>
    if r.covers call then
      some (r, if r.once then rules else r :: rules)
    else
      (takeRule call rules).map fun (found, rest) => (found, r :: rest)

end ScriptNatives.Scenario
