import ScriptNatives.Proofs.Machine.Memory

/-!
# Ranges that are checked once

Whoever accesses several cells has the whole range checked first and then reads and writes it cell
by cell, where each access looks for its cell anew. The two never disagree: what is live as a
whole is live in every part, and no access moves anything.
-/
namespace ScriptNatives

open Scenario (MachineSpec MachineStep)

namespace Machine

variable {m m' m₁ : Machine} {address count : Int} {value : Cell} {values : List Cell} {r : Region}

/-! ### Values that were written -/

/-- From the machine `m` to the machine `m'`, values were written to the cells from an address on:
they are read there, other cells have the value that they had, and the same ranges are live. -/
structure Written (m m' : Machine) (address : Int) (values : List Cell) : Prop where
  driven : m.DrivenTo m'
  region?_eq : ∀ a n, m'.region? a n = m.region? a n
  cell?_inside : ∀ i : Nat, i < values.length → m'.cell? (address + 4 * i) = values[i]?
  cell?_outside : ∀ other, ¬ InCells address values.length other →
    m'.cell? other = m.cell? other

theorem WellFormed.written_of_exchange? (hm : m.WellFormed) {old : Cell}
    (h : m.exchange? address value = some (old, m')) : Written m m' address [value] where
  driven := drivenTo_exchange? h
  region?_eq := region?_congr (layout_eq_of_blank_eq (blank_exchange? h))
  cell?_inside i hi := by
    obtain rfl : i = 0 := Nat.lt_one_iff.mp hi
    rw [hm.cell?_setCell? (exchange?_eq_some_iff.mp h).2, if_pos (by omega)]
    rfl
  cell?_outside other hother := by
    have hne : other ≠ address := fun heq => hother ⟨0, Int.le_refl 0, Int.one_pos, by omega⟩
    rw [hm.cell?_setCell? (exchange?_eq_some_iff.mp h).2, if_neg hne]

theorem Written.nil (m : Machine) (address : Int) : Written m m address [] where
  driven := .refl
  region?_eq _ _ := rfl
  cell?_inside := nofun
  cell?_outside _ _ := rfl

/-- A first value and the others behind it. -/
theorem Written.cons (first : Written m m₁ address [value])
    (rest : Written m₁ m' (address + 4) values) : Written m m' address (value :: values) where
  driven := first.driven.trans rest.driven
  region?_eq a n := (rest.region?_eq a n).trans (first.region?_eq a n)
  cell?_inside i hi := by
    cases i with
    | zero =>
      have hout : ¬ InCells (address + 4) values.length (address + 4 * (0 : Nat)) := by
        rintro ⟨j, hj, _, heq⟩
        omega
      rw [rest.cell?_outside _ hout]
      exact first.cell?_inside 0 Nat.one_pos
    | succ i =>
      have hlt : i < values.length := Nat.lt_of_succ_lt_succ hi
      rw [List.getElem?_cons_succ, ← rest.cell?_inside i hlt]
      congr 1
      omega
  cell?_outside other hother := by
    have hrest : ¬ InCells (address + 4) values.length other := by
      rintro ⟨j, hj, hlt, rfl⟩
      exact hother ⟨j + 1, by omega, by simp only [List.length_cons]; omega, by omega⟩
    have hfirst : ¬ InCells address [value].length other := by
      rintro ⟨j, hj, hlt, rfl⟩
      simp only [List.length_singleton] at hlt
      exact hother ⟨j, hj, by simp only [List.length_cons]; omega, rfl⟩
    rw [rest.cell?_outside other hrest, first.cell?_outside other hfirst]

/-! ### Live cells -/

/-- A live cell has a value, and any value can be exchanged for it. -/
theorem WellFormed.exists_exchange? (hm : m.WellFormed) (h : m.region? address 1 = some r) :
    ∃ old, m.cell? address = some old ∧ ∀ value, ∃ m',
      m.exchange? address value = some (old, m') ∧ Written m m' address [value] := by
  have hread : (m.cell? address).isSome := by simp [hm.isSome_cell?, h]
  obtain ⟨old, hold⟩ := Option.isSome_iff_exists.mp hread
  refine ⟨old, hold, fun value => ?_⟩
  have hset : (m.setCell? address value).isSome := by simp [isSome_setCell?, h]
  obtain ⟨m', hm'⟩ := Option.isSome_iff_exists.mp hset
  have hexchange : m.exchange? address value = some (old, m') :=
    exchange?_eq_some_iff.mpr ⟨hold, hm'⟩
  exact ⟨m', hexchange, hm.written_of_exchange? hexchange⟩

/-- Values for live cells are all written: each write leaves the cells behind it live. -/
theorem WellFormed.written_setCells (hm : m.WellFormed)
    (hlive : ∀ i : Nat, i < values.length → m.region? (address + 4 * i) 1 = some r) :
    Written m (m.setCells address values).2 address values := by
  induction values generalizing m address with
  | nil => exact .nil m address
  | cons value values ih =>
    have hfirst : m.region? address 1 = some r := by
      simpa using hlive 0 (Nat.succ_pos _)
    obtain ⟨old, _, hexchange⟩ := hm.exists_exchange? hfirst
    obtain ⟨m₁, hm₁, hwritten⟩ := hexchange value
    have hset : m.setCell? address value = some m₁ := (exchange?_eq_some_iff.mp hm₁).2
    have hwf : m₁.WellFormed := hm.congr (layout_eq_of_blank_eq (blank_setCell? hset))
    simp only [setCells, hset]
    refine hwritten.cons (ih hwf fun i hi => ?_)
    rw [hwritten.region?_eq, ← hlive (i + 1) (Nat.succ_lt_succ hi)]
    congr 1
    omega

/-! ### Live ranges -/

/-- What `count` cells from an address on are good for if they are live in one region: each part of
the range is live there too, each cell can be read and exchanged, and values can be stored from the
first cell on. No address in the range is too large for a cell. Data lies where the data block is,
and a dynamic range lies in one block behind it and touches no other. -/
structure Usable (m : Machine) (address count : Int) (r : Region) : Prop where
  part : ∀ start size, 0 ≤ start → 0 < size → start + size ≤ count →
    m.region? (address + 4 * start) size = some r
  exchange : ∀ i, 0 ≤ i → i < count → ∃ old, m.cell? (address + 4 * i) = some old ∧
    ∀ value, ∃ m', m.exchange? (address + 4 * i) value = some (old, m') ∧
      Written m m' (address + 4 * i) [value]
  store : ∀ values, values ≠ [] → (values.length : Int) ≤ count →
    ∃ m', m.store? address values = some (none, m') ∧ Written m m' address values
  in_reach : 0 ≤ address ∧ address + 4 * count ≤ Cell.maxValue
  data : r = .data → address + 4 * count ≤ m.dataEnd
  block : r = .dynamic → ∃ b ∈ m.blocks, m.dataEnd ≤ b.base ∧
    b.base ≤ address ∧ address + 4 * count ≤ b.limit ∧
      ∀ c ∈ m.blocks, c ≠ b → c.limit ≤ address ∨ address + 4 * count ≤ c.base

theorem WellFormed.le_dataEnd (hm : m.WellFormed) (h : m.region? address count = some .data) :
    0 ≤ address ∧ address + 4 * count ≤ m.dataEnd := by
  have hheap := hm.heapTop_le
  have hstack := hm.stackTop_le
  obtain ⟨hnonneg, _, _, hin⟩ := region?_eq_data_iff.mp h
  omega

/-- Blocks do not overlap, so those around it stay clear of a range that lies in one. -/
theorem WellFormed.exists_block (hm : m.WellFormed)
    (h : m.region? address count = some .dynamic) : ∃ b ∈ m.blocks, m.dataEnd ≤ b.base ∧
      b.base ≤ address ∧ address + 4 * count ≤ b.limit ∧
        ∀ c ∈ m.blocks, c ≠ b → c.limit ≤ address ∨ address + 4 * count ≤ c.base := by
  obtain ⟨_, _, b, hb, hbase, hlimit⟩ := hm.region?_eq_dynamic_iff.mp h
  refine ⟨b, hb, hm.dataEnd_le_base b hb, hbase, hlimit, fun c hc hne => ?_⟩
  have hapart := hm.apart_of_ne hb hc hne
  omega

theorem WellFormed.in_reach (hm : m.WellFormed) (h : m.region? address count = some r) :
    0 ≤ address ∧ address + 4 * count ≤ Cell.maxValue := by
  have hsize := hm.dataEnd_eq
  have hnext := hm.dataEnd_le_nextBlock
  have hlast := hm.nextBlock_le
  cases r with
  | data =>
    have hend := hm.le_dataEnd h
    omega
  | dynamic =>
    obtain ⟨b, hb, hend, hbase, hlimit, _⟩ := hm.exists_block h
    have hlimit' := hm.limit_le_nextBlock b hb
    omega

/-- Cells that fit a live range are stored there. -/
theorem WellFormed.exists_store (hm : m.WellFormed) (h : m.region? address count = some r)
    {values : List Cell} (hne : values ≠ []) (hfits : values.length ≤ count) :
    ∃ m', m.store? address values = some (none, m') ∧ m.Written m' address values := by
  have hpart := hm.region?_part h
  have hnonempty : 0 < values.length := List.length_pos_iff.mpr hne
  have hchecked : m.region? address values.length = some r := by
    simpa using hpart 0 values.length (by omega) (by omega) (by omega)
  have hcells (i : Nat) (hi : i < values.length) := hpart i 1 (by omega) (by omega) (by omega)
  refine ⟨(m.setCells address values).2, ?_, hm.written_setCells hcells⟩
  rw [← hm.setCells_of_region? h hfits]
  simp [store?, hchecked]

/-- A range that a machine finds live is good for all of this, on every machine that can be had. -/
theorem usable_of_live (hm : m.Reachable) (h : m.region? address count = some r) :
    m.Usable address count r := by
  have hwf := hm.wellFormed
  have hpart := hwf.region?_part h
  refine {
    part := hpart
    exchange := fun i hi hlt => ?_
    store := fun _ hne hfits => hwf.exists_store h hne hfits
    in_reach := hwf.in_reach h
    data := fun hr => (hwf.le_dataEnd (hr ▸ h)).2
    block := fun hr => hwf.exists_block (hr ▸ h) }
  exact hwf.exists_exchange? (hpart i 1 hi (by omega) (by omega))

/-- The last two cells of the second of two blocks, and the cells that the heap has granted. -/
theorem usable_behind_other_block :
    let steps : List MachineStep := [.heapAlloc 2, .allocBlock 2, .allocBlock 3]
    let m := steps.foldl (fun m step => (step.perform m).2)
      (MachineSpec.build { dataCells := 1, heapStackCells := 5 })
    m.Reachable ∧ m.region? 36 2 = some .dynamic ∧ m.Usable 36 2 .dynamic ∧
      m.region? 4 2 = some .data ∧ m.Usable 4 2 .data := by
  intro steps m
  have hm : m.Reachable := (((Reachable.built _ (by decide)).step _).step _).step _
  have hblock : m.region? 36 2 = some .dynamic := by decide
  have hheap : m.region? 4 2 = some .data := by decide
  exact ⟨hm, hblock, usable_of_live hm hblock, hheap, usable_of_live hm hheap⟩

end Machine

end ScriptNatives
