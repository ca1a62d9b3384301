import Mathlib.Algebra.Group.Nat.Defs
import Mathlib.Data.Set.Function
import ScriptNatives.Limits

/-!
# Slot ids as cells

A generation and a slot stand side by side in a cell, 11 bits and 20 bits wide, and the slot is
counted from one. The two fields share no bit and leave the sign bit clear, so an id whose parts
fit their fields has a positive cell and is read back from it. From the other side, a positive cell
is nothing but its two fields. It names an id unless the lower field is zero, and no other id has
that cell. This is what the ids of a pool rest on: two entries share a cell only if they share slot
and generation.
-/
namespace ScriptNatives.SlotId

variable {id : SlotId} {c : Cell}

/-- The slot and the generation fit their fields. The slot is stored one higher than it is. -/
def Fits (id : SlotId) : Prop := id.slot < 2 ^ 20 - 1 ∧ id.generation < 2 ^ 11

instance (id : SlotId) : Decidable id.Fits := inferInstanceAs (Decidable (_ ∧ _))

theorem fits_iff : id.Fits ↔ id.slot < maxSlots ∧ id.generation ≤ lastGeneration := by
  rw [Fits, maxSlots, lastGeneration, slotSpan_eq, generationSpan_eq]
  omega

/-! ### Fields -/

/-- The fields of a cell that is made: what does not fit the upper field is cut off. -/
theorem bits_toCell (hslot : id.slot < 2 ^ 20 - 1) :
    id.toCell.bits = (id.generation &&& (2 ^ 11 - 1)) <<< 20 ||| (id.slot + 1) := by
  have hlow : id.slot + 1 < 2 ^ 20 := by omega
  rw [Nat.and_two_pow_sub_one_eq_mod, ← Nat.shiftLeft_add_eq_or_of_lt hlow, Nat.shiftLeft_eq,
    toCell, slotSpan_eq, generationSpan_eq, Cell.bits_ofBits]
  omega

/-- The fields of a cell that is read. -/
theorem ofCell?_eq_some_iff_fields : ofCell? c = some id ↔ 0 < c.toInt ∧
    id.slot + 1 = c.bits &&& (2 ^ 20 - 1) ∧ id.generation = c.bits >>> 20 &&& (2 ^ 11 - 1) := by
  obtain ⟨slot, generation⟩ := id
  rw [Nat.and_two_pow_sub_one_eq_mod, Nat.and_two_pow_sub_one_eq_mod, Nat.shiftRight_eq_div_pow,
    ofCell?, slotSpan_eq, generationSpan_eq]
  split
  · simp only [Option.some.injEq, SlotId.mk.injEq]
    omega
  · simp only [reduceCtorEq, false_iff]
    omega

/-! ### Cells that name something -/

theorem ofCell?_eq_none_iff : ofCell? c = none ↔ c.toInt ≤ 0 ∨ c.bits % 2 ^ 20 = 0 := by
  rw [ofCell?, slotSpan_eq]
  split
  · simp only [reduceCtorEq, false_iff]
    omega
  · simp only [true_iff]
    omega

/-- A cell names one id at most, and it is the id that has that cell. -/
theorem ofCell?_eq_some_iff : ofCell? c = some id ↔ id.Fits ∧ id.toCell = c := by
  constructor
  · intro h
    obtain ⟨hslot, hgeneration, hcell⟩ := toCell_of_ofCell? h
    exact ⟨fits_iff.mpr ⟨hslot, hgeneration⟩, hcell⟩
  · rintro ⟨hfits, rfl⟩
    obtain ⟨hslot, hgeneration⟩ := fits_iff.mp hfits
    exact (ofCell?_toCell hslot hgeneration).2

theorem toInt_toCell_pos (hfits : id.Fits) : 0 < id.toCell.toInt :=
  (ofCell?_toCell (fits_iff.mp hfits).1 (fits_iff.mp hfits).2).1

/-- Ids and the cells that name something correspond one to one. -/
theorem bijOn_toCell :
    Set.BijOn toCell {id | id.Fits} {c | 0 < c.toInt ∧ c.bits % 2 ^ 20 ≠ 0} := by
  refine ⟨fun id hfits => ?_, fun id hfits other hother heq => ?_, fun c hc => ?_⟩
  · have hread : ofCell? id.toCell ≠ none := by
      rw [ofCell?_eq_some_iff.mpr ⟨hfits, rfl⟩]
      nofun
    rw [ne_eq, ofCell?_eq_none_iff, not_or] at hread
    exact ⟨toInt_toCell_pos hfits, hread.2⟩
  · have hread : ofCell? id.toCell = some id := ofCell?_eq_some_iff.mpr ⟨hfits, rfl⟩
    have hread' : ofCell? id.toCell = some other := ofCell?_eq_some_iff.mpr ⟨hother, heq.symm⟩
    exact Option.some.inj (hread.symm.trans hread')
  · cases hread : ofCell? c with
    | none =>
      rcases ofCell?_eq_none_iff.mp hread with hsign | hlow
      · exact absurd hc.1 (Int.not_lt.mpr hsign)
      · exact absurd hlow hc.2
    | some id =>
      obtain ⟨hfits, hcell⟩ := ofCell?_eq_some_iff.mp hread
      exact ⟨id, hfits, hcell⟩

/-- Ids and cells are exact in both directions. An id whose slot is below `2 ^ 20 - 1` and whose
generation is below `2 ^ 11` has a positive cell, which holds the two side by side, and it is read
back from there. The cells that name nothing are zero, the negative ones, and those whose low 20
bits are zero; any other cell names an id within these bounds, the one whose cell it is. So the two
correspond one to one. -/
theorem ids_and_cells_exact :
    (∀ slot generation, slot < 2 ^ 20 - 1 → generation < 2 ^ 11 →
      0 < (toCell ⟨slot, generation⟩).toInt ∧
      (toCell ⟨slot, generation⟩).bits = generation <<< 20 ||| (slot + 1) ∧
      ofCell? (toCell ⟨slot, generation⟩) = some ⟨slot, generation⟩) ∧
    (∀ c, ofCell? c = none ↔ c.toInt ≤ 0 ∨ c.bits % 2 ^ 20 = 0) ∧
    (∀ c slot generation, ofCell? c = some ⟨slot, generation⟩ →
      slot < 2 ^ 20 - 1 ∧ generation < 2 ^ 11 ∧ toCell ⟨slot, generation⟩ = c ∧
      slot + 1 = c.bits &&& (2 ^ 20 - 1) ∧ generation = c.bits >>> 20 &&& (2 ^ 11 - 1)) ∧
    Set.BijOn toCell {id | id.Fits} {c | 0 < c.toInt ∧ c.bits % 2 ^ 20 ≠ 0} := by
  refine ⟨fun slot generation hslot hgeneration => ?_, fun c => ofCell?_eq_none_iff,
    fun c slot generation h => ?_, bijOn_toCell⟩
  · have hfits : Fits ⟨slot, generation⟩ := ⟨hslot, hgeneration⟩
    have hmask : generation &&& (2 ^ 11 - 1) = generation := by
      rw [Nat.and_two_pow_sub_one_eq_mod, Nat.mod_eq_of_lt hgeneration]
    have hbits := bits_toCell hfits.1
    rw [hmask] at hbits
    exact ⟨toInt_toCell_pos hfits, hbits, ofCell?_eq_some_iff.mpr ⟨hfits, rfl⟩⟩
  · obtain ⟨⟨hslot, hgeneration⟩, hcell⟩ := ofCell?_eq_some_iff.mp h
    obtain ⟨_, hfields⟩ := ofCell?_eq_some_iff_fields.mp h
    exact ⟨hslot, hgeneration, hcell, hfields⟩

/-- The last slot in its last generation has the largest cell. The cell before it names the slot
before; one whose low bits are zero and one with the sign bit set name nothing. -/
theorem last_id_has_largest_cell :
    let last : SlotId := ⟨2 ^ 20 - 2, 2 ^ 11 - 1⟩
    last.Fits ∧ last.toCell = 0x7FFFFFFF ∧ ofCell? 0x7FFFFFFF = some last ∧
      toCell ⟨2 ^ 20 - 3, 2 ^ 11 - 1⟩ = 0x7FFFFFFE ∧
      ofCell? 0x7FF00000 = none ∧ ofCell? (-0x7FFFFFFF) = none := by
  intro last
  obtain ⟨hids, hnone, hcells, _⟩ := ids_and_cells_exact
  have hfits : last.Fits := by decide
  have hread : ofCell? 0x7FFFFFFF = some last := by decide
  have hread' : ofCell? 0x7FFFFFFE = some ⟨2 ^ 20 - 3, 2 ^ 11 - 1⟩ := by decide
  obtain ⟨_, _, hcell, _⟩ := hcells _ _ _ hread
  obtain ⟨_, _, hcell', _⟩ := hcells _ _ _ hread'
  obtain ⟨_, _, hback⟩ := hids _ _ hfits.1 hfits.2
  rw [hcell] at hback
  exact ⟨hfits, hcell, hback, hcell', (hnone _).mpr (by decide), (hnone _).mpr (by decide)⟩

end ScriptNatives.SlotId
