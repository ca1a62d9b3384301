import ScriptNatives.World.Basic

/-!
# Script memory

Natives take texts from the memory of the calling instance and leave cells and texts there. To write
is refused, and nothing is changed, unless all of it goes to live storage of one region. Then one
cell is written after the other.
-/
namespace ScriptNatives.World

variable {σ : Type}

/-- What comes of something that changes the world bit by bit: it may fail midway, and what it
changed until then stands. -/
abbrev Outcome (σ α : Type) := Except Fault α × World σ

/-- The text at an address in the memory of an instance, up to the length that is read. -/
def textAt (w : World σ) (id : InstanceId) (address : Cell) : Except Fault String := do
  let m ← w.machine id
  match m.readText? address.toInt w.limits.maxNameLength with
  | some text => return text
  | none => throw (.badAddress address.toInt)

def nonEmpty (argument : Argument) (name : String) : Except Fault Unit :=
  if name.isEmpty then .error (.emptyArgument argument) else .ok ()

def nameAt (w : World σ) (id : InstanceId) (address : Cell) (argument : Argument) :
    Except Fault String := do
  let name ← w.textAt id address
  nonEmpty argument name
  return name

def store (w : World σ) (id : InstanceId) (address : Cell) (values : List Cell) :
    Except Fault (Outcome σ Unit) := do
  let m ← w.machine id
  match m.store? address.toInt values with
  | some (dead, m) => return (dead.elim (.ok ()) (.error <| .badAddress ·), w.putMachine id m)
  | none => throw (.badAddress address.toInt)

/-- Writes a name into a buffer in the memory of an instance, cut off where the buffer ends, and
returns the number of bytes of its UTF-8 form, cut off or not. -/
def writeName (w : World σ) (id : InstanceId) (name : String) (buffer size : Cell) :
    Except Fault (Outcome σ Cell) := do
  let m ← w.machine id
  match m.writeText? buffer.toInt name size.toInt with
  | some (some _, m) => return (.ok (Cell.ofBits name.utf8ByteSize), w.putMachine id m)
  | some (none, m) => return (.error (.badAddress buffer.toInt), w.putMachine id m)
  | none => throw (.badAddress buffer.toInt)

end ScriptNatives.World
