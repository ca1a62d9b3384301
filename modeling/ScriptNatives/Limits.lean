import ScriptNatives.Cell

/-!
# Limits

How much cells can name, and how much an embedding program allows.

An entry of a pool is named by its slot and the generation that the slot was in when the entry came
in. As a cell, the slot plus one takes the low 20 bits, and the generation the 11 bits above
them, which leaves the sign bit clear. Zero and negative cells, and cells whose low 20 bits are
zero, name nothing.
-/
namespace ScriptNatives

/-- A slot in one of its generations. -/
structure SlotId where
  slot : Nat
  generation : Nat
  deriving DecidableEq, Repr

namespace SlotId

/-- The bits of a slot in a cell. -/
def slotBits : Nat := 20

/-- The bits of a generation in a cell. -/
def generationBits : Nat := 11

/-- How many numbers the bits of a slot hold. -/
def slotSpan : Nat := 1 <<< slotBits

/-- How many numbers the bits of a generation hold. -/
def generationSpan : Nat := 1 <<< generationBits

theorem slotSpan_eq : slotSpan = 0x100000 := rfl

theorem generationSpan_eq : generationSpan = 0x800 := rfl

/-- The number of slots that cells tell apart. -/
def maxSlots : Nat := slotSpan - 1

def lastGeneration : Nat := generationSpan - 1

/-- The cell that names a slot in one of its generations. -/
def toCell (id : SlotId) : Cell :=
  Cell.ofBits (id.generation % generationSpan * slotSpan + (id.slot + 1))

/-- The slot and the generation that a cell names. -/
def ofCell? (c : Cell) : Option SlotId :=
  if 0 < c.toInt ∧ c.bits % slotSpan ≠ 0 then
    some ⟨c.bits % slotSpan - 1, c.bits / slotSpan % generationSpan⟩
  else
    none

/-- The generation after the given one. There is none after the last, so that no id comes back. -/
def generationAfter? (generation : Nat) : Option Nat :=
  if generation < lastGeneration then some (generation + 1) else none

/-- A slot and a generation within their bounds are read back from their cell, which is positive. -/
theorem ofCell?_toCell {id : SlotId} (hs : id.slot < maxSlots)
    (hg : id.generation ≤ lastGeneration) :
    0 < id.toCell.toInt ∧ ofCell? id.toCell = some id := by
  obtain ⟨s, g⟩ := id
  simp only [maxSlots, lastGeneration, slotSpan_eq, generationSpan_eq] at hs hg
  have hb : (toCell ⟨s, g⟩).bits = g * 1048576 + (s + 1) := by
    simp only [toCell, slotSpan_eq, generationSpan_eq, Cell.bits_ofBits]
    omega
  have hpos : 0 < (toCell ⟨s, g⟩).toInt := by
    rw [Cell.toInt_eq, hb]
    split <;> omega
  refine ⟨hpos, ?_⟩
  simp only [ofCell?, slotSpan_eq, generationSpan_eq, hb]
  rw [if_pos ⟨hpos, by omega⟩]
  congr 2 <;> omega

/-- A cell that names a slot names it within its bounds, and is the only cell that does. -/
theorem toCell_of_ofCell? {c : Cell} {id : SlotId} (h : ofCell? c = some id) :
    id.slot < maxSlots ∧ id.generation ≤ lastGeneration ∧ id.toCell = c := by
  unfold ofCell? at h
  split at h
  · next hc =>
    obtain rfl := Option.some.inj h
    obtain ⟨hpos, hslot⟩ := hc
    have hlt := c.bits_lt
    rw [Cell.toInt_eq] at hpos
    simp only [maxSlots, lastGeneration, slotSpan_eq, generationSpan_eq, toCell] at hslot ⊢
    refine ⟨by omega, by omega, ?_⟩
    rw [show c.bits / 0x100000 % 0x800 % 0x800 * 0x100000 + (c.bits % 0x100000 - 1 + 1) = c.bits by
      split at hpos <;> omega]
    exact Cell.ofBits_bits c
  · cases h

end SlotId

/-- The limits that an embedding program sets. -/
structure Limits where
  /-- The capacity of the pool of variables. -/
  maxVars : Nat := 65536
  /-- The capacity of the pool of handles. -/
  maxHandles : Nat := 65536
  /-- The number of characters of a name or a format that are read. -/
  maxNameLength : Nat := 4096
  deriving DecidableEq, Repr

/-- The limits with some of them set, and the others left at their defaults. A capacity is cut down
to what ids can tell apart. -/
def Limits.ofSettings (maxVars maxHandles maxNameLength : Option Nat) : Limits :=
  let defaults : Limits := {}
  { maxVars := maxVars.elim defaults.maxVars (min · SlotId.maxSlots)
    maxHandles := maxHandles.elim defaults.maxHandles (min · SlotId.maxSlots)
    maxNameLength := maxNameLength.getD defaults.maxNameLength }

end ScriptNatives
