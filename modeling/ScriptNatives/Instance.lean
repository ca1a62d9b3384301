import ScriptNatives.Cell

/-!
# Instances

A machine becomes an instance when it is registered. Instances are named by positive numbers
that are never used twice; a script sees such a number as a cell.
-/
namespace ScriptNatives

/-- The name of an instance. Zero names none. There is no last id here, while a counter of 32 bits
is used up after `2 ^ 32 - 1` registrations. -/
structure InstanceId where
  raw : Nat
  raw_pos : 0 < raw
  deriving DecidableEq, Repr

namespace InstanceId

/-- The id with that number, if it is not zero. -/
def ofNat? (raw : Nat) : Option InstanceId :=
  if h : 0 < raw then some ⟨raw, h⟩ else none

/-- The cell by which scripts know an instance. -/
def toCell (id : InstanceId) : Cell := Cell.ofBits id.raw

/-- The id that a cell of a script names; only positive cells can. -/
def ofCell? (c : Cell) : Option InstanceId := ofNat? c.toInt.toNat

def text (id : InstanceId) : String := "amx#" ++ toString id.raw

end InstanceId

/-- Where the scheduler puts the outcome of a fork in the memory of the instance that forked. -/
structure ForkReturn where
  resultAddress : Option Cell
  errorAddress : Option Cell
  deriving DecidableEq, Repr

/-- The data kept beside a live instance. Each part is absent until it is first set. -/
structure Context where
  /-- Where the outcome of the latest fork goes. -/
  fork : Option ForkReturn := none
  /-- A counter at the disposal of the embedding program. -/
  counter : Option Cell := none
  deriving DecidableEq, Repr

/-- Adds to the counter, which starts at zero and wraps around. -/
def Context.bump (c : Context) (amount : Cell) : Context :=
  { c with counter := some (c.counter.getD 0 + amount) }

end ScriptNatives
