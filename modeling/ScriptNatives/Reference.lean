import ScriptNatives.Fault

/-!
# References

A variable is a reference to cells in the memory of one instance: an aligned range of addresses
whose end is still an address. Whether there is live storage in that range is another matter,
and may change from one use to the next.

A handle wraps a cell together with what kind of thing the cell is.
-/
namespace ScriptNatives

/-- A range of `size` cells in the memory of `owner`. -/
structure Var where
  owner : InstanceId
  address : Int
  size : Int
  address_nonneg : 0 ≤ address
  address_aligned : address % 4 = 0
  size_pos : 1 ≤ size
  limit_le : address + 4 * size ≤ Cell.maxValue
  deriving DecidableEq, Repr

namespace Var

/-- The variable of `count` cells from `address` on, if that is the shape of a range. -/
def ofRange (owner : InstanceId) (address count : Int) : Except Fault Var :=
  if ha : 0 ≤ address ∧ address % 4 = 0 then
    if hs : 1 ≤ count ∧ address + 4 * count ≤ Cell.maxValue then
      .ok ⟨owner, address, count, ha.1, ha.2, hs.1, hs.2⟩
    else
      .error (.outOfRange .size)
  else
    .error (.badAddress address)

/-- The address of the element with that index. -/
def element (v : Var) (index : Int) : Except Fault Int :=
  if 0 ≤ index ∧ index < v.size then
    .ok (v.address + 4 * index)
  else
    .error (.badIndex index v.size)

end Var

/-! ### Handles -/

/-- What the cell in a handle stands for. -/
inductive Tag where
  /-- A machine instance. -/
  | amx
  deriving DecidableEq, Repr

def Tag.name : Tag → String
  | amx => "Amx"

/-- A tagged cell, the instance in whose context it was made, and whether the handle owns what
the cell stands for. -/
structure Handle where
  tag : Tag
  value : Cell
  context : InstanceId
  owned : Bool
  deriving DecidableEq, Repr

namespace Handle

/-- An owning handle for an instance, made in that instance's own context. -/
def ofInstance (id : InstanceId) : Handle := ⟨.amx, id.toCell, id, true⟩

/-- The instance that a handle stands for, if its cell names one. -/
def instance? (h : Handle) : Option InstanceId :=
  match h.tag with
  | .amx => InstanceId.ofCell? h.value

end Handle

end ScriptNatives
