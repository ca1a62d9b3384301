import ScriptNatives.Instance

/-!
# Calls between instances

A script calls a function by name in one instance, in all of them or in all but itself. Once the
name is found in an instance, the host runs the function there.
-/
namespace ScriptNatives

inductive FunctionKind where
  /-- A native that is registered with the machine. -/
  | native
  /-- A public function of the machine. -/
  | exported
  deriving DecidableEq, Repr

def FunctionKind.name : FunctionKind → String
  | native => "native"
  | exported => "public"

/-- The instances that a call goes to. -/
inductive Recipients where
  /-- The instance that the cell names. -/
  | one (reference : Cell)
  /-- Every live instance, the caller included. -/
  | everyone
  /-- Every live instance but the caller. -/
  | everyoneElse
  deriving DecidableEq, Repr

/-- The recipients that a script selects by a cell: -1 is everyone, -2 everyone else. -/
def Recipients.ofCell (c : Cell) : Recipients :=
  if c = -1 then .everyone else if c = -2 then .everyoneElse else .one c

inductive EntryPoint where
  | exported (index : Nat)
  | native (address : Nat)
  deriving DecidableEq, Repr

/-- The arguments of a call as the caller passed them: a format, and cells that the host has still
to read as the format says. Arguments by reference are addresses in the caller's memory. -/
structure Arguments where
  format : String
  values : List Cell
  deriving DecidableEq, Repr

/-- A call as a script asks for it. -/
structure Call where
  source : InstanceId
  recipients : Recipients
  function : String
  kind : FunctionKind
  args : Arguments
  deriving DecidableEq, Repr

/-- A call as the host is asked to run it: one target, and the function found there. -/
structure HostCall where
  source : InstanceId
  target : InstanceId
  function : String
  entry : EntryPoint
  args : Arguments
  deriving DecidableEq, Repr

end ScriptNatives
