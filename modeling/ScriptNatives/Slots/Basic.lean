import ScriptNatives.Limits

/-!
# Slots

A bounded pool of values, each named by the id it was given when it came in. A slot that loses
its value moves on to its next generation and waits to be filled again, so an id that was
removed never names a later value. A slot that has used up its generations is retired: it stays
empty, and takes one place of the capacity away.
-/
namespace ScriptNatives

/-- One slot of a pool: its generation, and the value it holds at present. -/
structure Slot (α : Type) where
  generation : Nat
  value : Option α
  deriving DecidableEq, Repr

/-- A bounded pool of values named by ids. -/
structure Slots (α : Type) where
  /-- The number of slots that may be allocated. -/
  capacity : Nat
  /-- The slots allocated so far. -/
  slots : Array (Slot α) := #[]
  /-- The empty slots that can be filled again, the one emptied last in front. -/
  free : List Nat := []
  /-- The number of values held. -/
  live : Nat := 0
  /-- The number of slots that will never be filled again. -/
  retired : Nat := 0
  deriving DecidableEq, Repr

namespace Slots

variable {α : Type}

/-- An empty pool. No pool has more slots than ids can tell apart. -/
def ofCapacity (capacity : Nat) : Slots α := { capacity := min capacity SlotId.maxSlots }

def isEmpty (s : Slots α) : Bool := s.live == 0

/-- The id that names slot `i` in its present generation. -/
def idAt (s : Slots α) (i : Nat) : SlotId := ⟨i, (s.slots[i]?.map Slot.generation).getD 0⟩

/-- Puts a value into slot `i` without changing its generation. -/
def fill (s : Slots α) (i : Nat) (value : α) : Slots α :=
  { s with slots := s.slots.modify i fun slot => { slot with value := some value } }

/-- Takes the value out of slot `i`, which is free in its next generation, or retired. -/
def clear (s : Slots α) (i : Nat) : Slots α :=
  match SlotId.generationAfter? (s.idAt i).generation with
  | some generation =>
    { s with
      slots := s.slots.modify i fun _ => ⟨generation, none⟩
      free := i :: s.free
      live := s.live - 1 }
  | none =>
    { s with
      slots := s.slots.modify i fun slot => { slot with value := none }
      live := s.live - 1
      retired := s.retired + 1 }

/-- Stores a value and returns the cell that names it; `none` if the pool is full. -/
def insert? (s : Slots α) (value : α) : Option (Cell × Slots α) :=
  match s.free with
  | i :: free => some ((s.idAt i).toCell, { s.fill i value with free, live := s.live + 1 })
  | [] =>
    if s.slots.size < s.capacity then
      some ((s.idAt s.slots.size).toCell,
        { s with slots := s.slots.push ⟨0, some value⟩, live := s.live + 1 })
    else
      none

/-- The slot that a cell names, and the value in it. -/
def find? (s : Slots α) (c : Cell) : Option (Nat × α) := do
  let id ← SlotId.ofCell? c
  let slot ← s.slots[id.slot]?
  let value ← slot.value
  if slot.generation = id.generation then some (id.slot, value) else none

def get? (s : Slots α) (c : Cell) : Option α := (s.find? c).map (·.2)

def contains (s : Slots α) (c : Cell) : Bool := (s.find? c).isSome

/-- Replaces the value that a cell names; a cell that names nothing changes nothing. -/
def set (s : Slots α) (c : Cell) (value : α) : Slots α :=
  match s.find? c with
  | some (i, _) => s.fill i value
  | none => s

def remove? (s : Slots α) (c : Cell) : Option (α × Slots α) :=
  (s.find? c).map fun (i, value) => (value, s.clear i)

/-- The slots whose value fails `keep`, in ascending order. -/
def failing (s : Slots α) (keep : α → Bool) : List Nat :=
  (List.range s.slots.size).filter fun i => (s.slots[i]?.bind Slot.value).any (! keep ·)

/-- Removes every value that fails `keep`, and returns how many there were. -/
def filter (s : Slots α) (keep : α → Bool) : Nat × Slots α :=
  ((s.failing keep).length, (s.failing keep).foldl clear s)

end Slots

end ScriptNatives
