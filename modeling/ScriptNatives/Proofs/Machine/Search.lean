import ScriptNatives.Proofs.Bounded.Machine
import ScriptNatives.Proofs.Machine.Release

/-!
# Looking for the block around an address

A lookup goes by bases first: it takes the block that begins last at or before the address, and
then asks this one candidate whether the range ends in it. A block that begins before the candidate
is never looked at. Nothing is missed by that, since blocks do not overlap, whatever was allocated
and released before: what a search through all blocks finds is one block at most, and it is the
candidate.
-/
namespace ScriptNatives

open Scenario (MachineSpec MachineStep)

/-- All of the `bytes` bytes from an address on lie in the block. -/
def Block.Covers (b : Block) (address bytes : Int) : Prop :=
  b.base ≤ address ∧ address + bytes ≤ b.limit

instance (b : Block) (address bytes : Int) : Decidable (b.Covers address bytes) :=
  inferInstanceAs (Decidable (_ ∧ _))

namespace Machine

variable {m m' : Machine} {b : Block} {address bytes base : Int}

/-- The block begins at the address or before it, and of those that do it begins last. -/
structure BeginsLast (m : Machine) (b : Block) (address : Int) : Prop where
  mem : b ∈ m.blocks
  base_le : b.base ≤ address
  le_base : ∀ c ∈ m.blocks, c.base ≤ address → c.base ≤ b.base

/-! ### The candidate -/

/-- The blocks stand by their bases, the highest in front. So the first of them that does not begin
behind an address is the one that begins last. -/
theorem WellFormed.find?_eq_some_iff_beginsLast (hm : m.WellFormed) :
    m.blocks.find? (fun b => b.base ≤ address) = some b ↔ m.BeginsLast b address := by
  rw [List.find?_eq_some_iff_append, decide_eq_true_eq]
  constructor
  · rintro ⟨hbase, newer, older, heq, hskipped⟩
    refine ⟨by simp [heq], hbase, fun c hc hlow => ?_⟩
    have hlimit := hm.base_lt_limit hc
    rw [heq, List.mem_append, List.mem_cons] at hc
    rcases hc with hc | rfl | hc
    · have hbehind := hskipped c hc
      simp [hlow] at hbehind
    · exact Int.le_refl _
    · have hapart := (hm.apart_of_split heq).2 c hc
      omega
  · rintro ⟨hb, hbase, hlast⟩
    have hlimit := hm.base_lt_limit hb
    obtain ⟨newer, older, heq⟩ := List.append_of_mem hb
    refine ⟨hbase, newer, older, heq, fun c hc => ?_⟩
    have hapart := (hm.apart_of_split heq).1 c hc
    have hbehind : ¬ c.base ≤ address := by
      intro hlow
      have hle := hlast c (by simp [heq, hc]) hlow
      omega
    simp [hbehind]

/-- A lookup has one candidate. -/
theorem WellFormed.blockAt?_eq_some_iff_beginsLast (hm : m.WellFormed) :
    m.blockAt? address bytes = some b ↔
      m.BeginsLast b address ∧ address + bytes ≤ b.limit := by
  rw [blockAt?, Option.filter_eq_some_iff, hm.find?_eq_some_iff_beginsLast, decide_eq_true_eq]

/-! ### All blocks -/

/-- A search through all blocks comes upon the block of the lookup, once, and upon no other. -/
theorem WellFormed.filter_covers (hm : m.WellFormed) (hbytes : 0 < bytes) :
    m.blocks.filter (·.Covers address bytes) = (m.blockAt? address bytes).toList := by
  have hiff {b : Block} : m.blockAt? address bytes = some b ↔
      b ∈ m.blocks ∧ b.Covers address bytes := hm.blockAt?_eq_some_iff hbytes
  cases hfound : m.blockAt? address bytes with
  | none =>
    refine List.filter_eq_nil_iff.mpr fun b hb hcovers => ?_
    have hsome := hiff.mpr ⟨hb, of_decide_eq_true hcovers⟩
    rw [hfound] at hsome
    cases hsome
  | some b =>
    obtain ⟨hb, hcovers⟩ := hiff.mp hfound
    have hout {c : Block} (hapart : c.limit ≤ b.base ∨ b.limit ≤ c.base) :
        ¬ c.Covers address bytes := by
      unfold Block.Covers at hcovers ⊢
      omega
    obtain ⟨newer, older, heq⟩ := List.append_of_mem hb
    obtain ⟨hfront, hbehind⟩ := hm.apart_of_split heq
    have hnewer : newer.filter (·.Covers address bytes) = [] :=
      List.filter_eq_nil_iff.mpr fun c hc => by simpa using hout (.inr (hfront c hc))
    have holder : older.filter (·.Covers address bytes) = [] :=
      List.filter_eq_nil_iff.mpr fun c hc => by simpa using hout (.inl (hbehind c hc))
    rw [heq, List.filter_append, hnewer, List.filter_cons_of_pos (by simpa using hcovers), holder]
    rfl

/-! ### Releasing the block -/

/-- A block is released by any address of four bytes in it, and by no other. -/
theorem WellFormed.releaseBlock?_eq_some_iff (hm : m.WellFormed) :
    m.releaseBlock? address = some (base, m') ↔
      ∃ b ∈ m.blocks, b.Covers address 4 ∧ base = b.base ∧ m' = m.withoutBlock b.base := by
  constructor
  · intro h
    obtain ⟨b, hfound, hbase, hm'⟩ := releaseBlock?_eq_some h
    obtain ⟨hb, hcovers⟩ := mem_of_blockAt? hfound
    exact ⟨b, hb, hcovers, hbase, hm'⟩
  · rintro ⟨b, hb, hcovers, rfl, rfl⟩
    exact hm.releaseBlock?_eq hb hcovers.1 hcovers.2

/-- A cell is in a block if and only if it is live there. -/
theorem WellFormed.region?_eq_dynamic_iff_covers (hm : m.WellFormed) (haligned : address % 4 = 0) :
    m.region? address 1 = some .dynamic ↔ ∃ b ∈ m.blocks, b.Covers address 4 := by
  rw [hm.region?_eq_dynamic_iff]
  constructor
  · rintro ⟨_, _, hblock⟩
    exact hblock
  · exact fun hblock => ⟨haligned, Int.one_pos, hblock⟩

/-- On every machine that can be had, a lookup finds the block that a search through all blocks
finds: there is something to be found if and only if some block holds the whole range, and no second
block does. The lookup has only the block for its candidate that begins last, and the sums that it
computes all fit a cell, or come to nothing where the range ends beyond the last address. Hence a
block is released by any four bytes in it, and by nothing else; where a cell begins, that is to say
if and only if the cell is live in a block. -/
theorem blockAt?_agrees_with_search (hm : m.Reachable) (address : Int) :
    (∀ bytes, 0 < bytes →
      (∀ b, m.blockAt? address bytes = some b ↔ b ∈ m.blocks ∧ b.Covers address bytes) ∧
      m.blocks.filter (·.Covers address bytes) = (m.blockAt? address bytes).toList ∧
      (∀ b, m.blockAt? address bytes = some b ↔
        m.BeginsLast b address ∧ address + bytes ≤ b.limit) ∧
      (Bounded.blockAt? m address bytes).run = .ok (m.blockAt? address bytes)) ∧
    (∀ base m', m.releaseBlock? address = some (base, m') ↔
      ∃ b ∈ m.blocks, b.Covers address 4 ∧ base = b.base ∧ m' = m.withoutBlock b.base) ∧
    (address % 4 = 0 →
      ((∃ base m', m.releaseBlock? address = some (base, m')) ↔
        m.region? address 1 = some .dynamic)) := by
  have hwf := hm.wellFormed
  refine ⟨fun bytes hbytes => ⟨fun b => hwf.blockAt?_eq_some_iff hbytes, hwf.filter_covers hbytes,
    fun b => hwf.blockAt?_eq_some_iff_beginsLast, ?_⟩,
    fun base m' => hwf.releaseBlock?_eq_some_iff, fun haligned => ?_⟩
  · rw [Bounded.blockAt?_eq hwf (Int.le_of_lt hbytes), Bounded.run_calm?]
  · rw [hwf.region?_eq_dynamic_iff_covers haligned]
    constructor
    · rintro ⟨base, m', h⟩
      obtain ⟨b, hb, hcovers, _⟩ := hwf.releaseBlock?_eq_some_iff.mp h
      exact ⟨b, hb, hcovers⟩
    · rintro ⟨b, hb, hcovers⟩
      exact ⟨_, _, hwf.releaseBlock?_eq_some_iff.mpr ⟨b, hb, hcovers, rfl, rfl⟩⟩

/-- Three blocks, of which the second was released and the third ends with the last cell there is. A
range in the gap has the first block for its candidate, which is too short; the last cell is found,
and the range that ends behind it is not. -/
theorem lookup_beside_gap :
    let steps : List MachineStep := [.allocBlock 2, .allocBlock 3, .allocBlock 536870900,
      .releaseBlock 36]
    let m := steps.foldl (fun m step => (step.perform m).2)
      (MachineSpec.build { dataCells := 1, heapStackCells := 5 })
    let front : Block := ⟨24, ⟨2, []⟩⟩
    let last : Block := ⟨44, ⟨536870900, []⟩⟩
    m.Reachable ∧ m.blocks = [last, front] ∧
      m.BeginsLast front 36 ∧ m.blockAt? 36 4 = none ∧
      m.blockAt? 0x7FFFFFF8 4 = some last ∧
      (Bounded.blockAt? m 0x7FFFFFF8 8).run = .ok none ∧
      (∃ m', m.releaseBlock? 0x7FFFFFF8 = some (44, m')) ∧
      m.region? 0x7FFFFFF8 1 = some .dynamic := by
  intro steps m front last
  have hm : m.Reachable := ((((Reachable.built _ (by decide)).step _).step _).step _).step _
  have hblocks : m.blocks = [last, front] := by rfl
  obtain ⟨hgap, _, _⟩ := blockAt?_agrees_with_search hm 36
  obtain ⟨hend, hrelease, hcells⟩ := blockAt?_agrees_with_search hm 0x7FFFFFF8
  obtain ⟨_, hgap, _, _⟩ := hgap 4 (by decide)
  obtain ⟨hfound, _, _, _⟩ := hend 4 (by decide)
  obtain ⟨_, hbeyond, _, hbounded⟩ := hend 8 (by decide)
  rw [hblocks] at hgap hbeyond
  have hnone : m.blockAt? 0x7FFFFFF8 8 = none :=
    Option.toList_eq_nil_iff.mp (hbeyond.symm.trans (by decide))
  have hreleased : m.releaseBlock? 0x7FFFFFF8 = some (44, m.withoutBlock 44) :=
    (hrelease _ _).mpr ⟨last, by simp [hblocks], by decide, rfl, rfl⟩
  refine ⟨hm, hblocks, ?_, ?_, ?_, ?_, ⟨_, hreleased⟩, ?_⟩
  · exact ⟨by simp [hblocks], by decide, by simp [hblocks, front, last]⟩
  · exact Option.toList_eq_nil_iff.mp (hgap.symm.trans (by decide))
  · exact (hfound last).mpr ⟨by simp [hblocks], by decide⟩
  · rw [hbounded, hnone]
  · exact (hcells (by decide)).mp ⟨_, _, hreleased⟩

end Machine

end ScriptNatives
