import ScriptNatives.Call.Basic
import ScriptNatives.Status

/-!
# Faults

The reasons why a native fails, and their wording.
-/
namespace ScriptNatives

/-- What a cell was taken to refer to. -/
inductive Subject where
  | machine
  | var
  deriving DecidableEq, Repr

def Subject.name : Subject → String
  | machine => "AMX"
  | var => "AMX variable"

/-- The two pools of references. -/
inductive Pool where
  | vars
  | handles
  deriving DecidableEq, Repr

def Pool.name : Pool → String
  | vars => "AMX variable"
  | handles => "handle"

/-- The arguments that are checked by themselves. -/
inductive Argument where
  | function
  | name
  | index
  | size
  deriving DecidableEq, Repr

def Argument.label : Argument → String
  | function => "function"
  | name => "name"
  | index => "index"
  | size => "size"

/-- Why a native failed. -/
inductive Fault where
  /-- A cell names nothing that is live. -/
  | dangling (subject : Subject) (value : Cell)
  /-- A number is outside what the argument accepts. -/
  | outOfRange (argument : Argument)
  /-- A name is empty. -/
  | emptyArgument (argument : Argument)
  /-- An instance has no function of that name. -/
  | unknownFunction (kind : FunctionKind) (name : String)
  /-- An instance has no public variable of that name. -/
  | unknownVariable (name : String)
  /-- The operation is not open to the caller, or not to that kind of variable. -/
  | unsupported (value : Cell)
  /-- An address is not that of live storage. -/
  | badAddress (address : Int)
  /-- A variable has no element of that index. -/
  | badIndex (index size : Int)
  /-- The host reported that a call failed. -/
  | callFailed (function : String) (status : Status)
  /-- A pool has no room for another entry. -/
  | poolFull (pool : Pool) (capacity : Nat)
  /-- The script passed fewer parameters than the native needs. -/
  | fewParams (expected got : Nat)
  deriving DecidableEq, Repr

def quoted (s : String) : String := "'" ++ s ++ "'"

def Fault.message : Fault → String
  | dangling subject value =>
    subject.name ++ " reference " ++ toString value.toInt ++ " is invalid"
  | outOfRange argument => "argument " ++ quoted argument.label ++ " is out of range"
  | emptyArgument argument => "argument " ++ quoted argument.label ++ " is empty"
  | unknownFunction kind name => kind.name ++ " function " ++ quoted name ++ " was not found"
  | unknownVariable name => "public variable " ++ quoted name ++ " was not found"
  | unsupported value =>
    "operation is not supported on " ++ Subject.name .var ++ " " ++ toString value.toInt
  | badAddress address => "invalid memory access at address " ++ hexAddress address
  | badIndex index size =>
    "index " ++ toString index ++ " out of bounds (size " ++ toString size ++ ")"
  | callFailed function status => "call to " ++ quoted function ++ " failed with " ++ status.text
  | poolFull pool capacity =>
    pool.name ++ " pool exhausted (capacity " ++ toString capacity ++ ")"
  | fewParams expected got =>
    "native expects " ++ toString expected ++ " parameters, got " ++ toString got

end ScriptNatives
