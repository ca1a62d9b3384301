import ScriptNatives.Proofs.Machine.Runs

/-!
# The ground that dynamic blocks stand on

Blocks are laid out one after the other and never moved. So whatever a machine is driven by, a block
that is there afterwards was there before, or stands where none had been handed out yet. Ground
that a block has left is not built on again.
-/
namespace ScriptNatives

open Scenario (MachineStep)
open Scenario.MachineStep (attempted_keeps attempted?_keeps heapRelease_of_map layout_exchangeAll)

/-- The machine without the block of that base. -/
def Machine.withoutBlock (m : Machine) (base : Int) : Machine :=
  { m with blocks := m.blocks.filter (·.base != base) }

namespace Machine

variable {m m' m'' : Machine} {address count first limit : Int} {b c : Block}

/-! ### Blocks do not overlap -/

/-- No two blocks have the same base. -/
theorem WellFormed.eq_of_base_eq (hm : m.WellFormed) (hb : b ∈ m.blocks) (hc : c ∈ m.blocks)
    (hbase : c.base = b.base) : c = b := by
  have hfound {d : Block} (hd : d ∈ m.blocks) : m.blockAt? d.base 4 = some d := by
    have hsize := hm.block_nonempty d hd
    refine (hm.blockAt?_eq_some_iff (by decide)).mpr ⟨hd, Int.le_refl _, ?_⟩
    rw [Block.limit]
    omega
  exact Option.some.inj ((hfound hc).symm.trans (hbase ▸ hfound hb))

theorem WellFormed.mem_withoutBlock_iff (hm : m.WellFormed) (hb : b ∈ m.blocks) (other : Block) :
    other ∈ (m.withoutBlock b.base).blocks ↔ other ∈ m.blocks ∧ other ≠ b := by
  simp only [withoutBlock, List.mem_filter, bne_iff_ne, ne_eq]
  constructor
  · rintro ⟨hother, hbase⟩
    exact ⟨hother, fun heq => hbase (congrArg Block.base heq)⟩
  · rintro ⟨hother, hne⟩
    exact ⟨hother, fun hbase => hne (hm.eq_of_base_eq hb hother hbase)⟩

/-- Of two blocks, one ends before the other begins. -/
theorem WellFormed.apart_of_ne (hm : m.WellFormed) (hb : b ∈ m.blocks) (hc : c ∈ m.blocks)
    (hne : c ≠ b) : c.limit ≤ b.base ∨ b.limit ≤ c.base := by
  -- the other block stands in front of `b` and is newer, or behind it and is older
  obtain ⟨newer, older, heq⟩ := List.append_of_mem hb
  obtain ⟨hnewer, holder⟩ := hm.apart_of_split heq
  rw [heq, List.mem_append, List.mem_cons] at hc
  rcases hc with hc | rfl | hc
  · exact .inr (hnewer c hc)
  · exact absurd rfl hne
  · exact .inl (holder c hc)

/-! ### What steps do to blocks -/

/-- From one machine to the other, the data block ends where it did, and each block has stayed where
it was or stands on new ground. -/
structure Extends (m m' : Machine) : Prop where
  dataEnd_eq : m'.dataEnd = m.dataEnd
  nextBlock_le : m.nextBlock ≤ m'.nextBlock
  kept_or_new : ∀ b' ∈ m'.blocks,
    (∃ b ∈ m.blocks, b'.base = b.base ∧ b'.limit = b.limit) ∨ m.nextBlock ≤ b'.base

theorem extends_of_blocks_eq (hend : m'.dataEnd = m.dataEnd) (hnext : m'.nextBlock = m.nextBlock)
    (hblocks : m'.blocks = m.blocks) : m.Extends m' where
  dataEnd_eq := hend
  nextBlock_le := Int.le_of_eq hnext.symm
  kept_or_new b' hb' := .inl ⟨b', hblocks ▸ hb', rfl, rfl⟩

theorem Extends.refl (m : Machine) : m.Extends m := extends_of_blocks_eq rfl rfl rfl

theorem Extends.trans (h : m.Extends m') (h' : m'.Extends m'') : m.Extends m'' where
  dataEnd_eq := h'.dataEnd_eq.trans h.dataEnd_eq
  nextBlock_le := Int.le_trans h.nextBlock_le h'.nextBlock_le
  kept_or_new b'' hb'' := by
    rcases h'.kept_or_new b'' hb'' with ⟨b', hb', hbase, hlimit⟩ | hnew
    · rw [hbase, hlimit]
      exact h.kept_or_new b' hb'
    · exact .inr (Int.le_trans h.nextBlock_le hnew)

theorem extends_of_layout_eq (h : m'.layout = m.layout) : m.Extends m' := by
  obtain ⟨_, _, _, hend, hnext, _, hblocks⟩ := Layout.mk.inj h
  refine ⟨hend, Int.le_of_eq hnext.symm, fun b' hb' => ?_⟩
  have hpair : (b'.base, b'.cells.size) ∈ m.blocks.map fun b => (b.base, b.cells.size) := by
    rw [← hblocks]
    exact List.mem_map_of_mem hb'
  obtain ⟨b, hb, heq⟩ := List.mem_map.mp hpair
  obtain ⟨hbase, hsize⟩ := Prod.mk.inj heq
  exact .inl ⟨b, hb, hbase.symm, by rw [Block.limit, Block.limit, hbase, hsize]⟩

theorem extends_allocBlock? {cells : Int} (h : m.allocBlock? cells = some (address, m')) :
    m.Extends m' := by
  obtain ⟨hcells, _, _, rfl⟩ := allocBlock?_eq_some h
  refine ⟨rfl, by simp only; omega, fun b' hb' => ?_⟩
  rcases List.mem_cons.mp hb' with rfl | hold
  · exact .inr (Int.le_refl _)
  · exact .inl ⟨b', hold, rfl, rfl⟩

theorem extends_withoutBlock (m : Machine) (base : Int) : m.Extends (m.withoutBlock base) where
  dataEnd_eq := rfl
  nextBlock_le := Int.le_refl _
  kept_or_new b' hb' := .inl ⟨b', (List.mem_filter.mp hb').1, rfl, rfl⟩

/-- Every step leaves blocks where they are or builds on new ground. -/
theorem extends_perform (m : Machine) (step : MachineStep) : m.Extends (step.perform m).2 := by
  cases step with
  | push value =>
    refine attempted_keeps (.refl m) fun _ _ h => ?_
    obtain ⟨_, _, rfl⟩ := push_eq_ok h
    exact extends_of_blocks_eq rfl rfl rfl
  | pop =>
    refine attempted_keeps (.refl m) fun _ _ h => ?_
    obtain ⟨_, _, rfl⟩ := pop_eq_ok h
    exact extends_of_blocks_eq rfl rfl rfl
  | heapAlloc cells =>
    refine attempted_keeps (.refl m) fun _ _ h => ?_
    obtain ⟨_, _, _, rfl⟩ := heapAlloc_eq_ok h
    exact extends_of_blocks_eq rfl rfl rfl
  | heapRelease address =>
    refine attempted_keeps (.refl m) fun _ _ h => ?_
    obtain ⟨_, _, rfl⟩ := heapRelease_eq_ok (heapRelease_of_map h)
    exact extends_of_blocks_eq rfl rfl rfl
  | allocBlock cells => exact attempted?_keeps (.refl m) fun _ _ h => extends_allocBlock? h
  | releaseBlock address =>
    refine attempted?_keeps (.refl m) fun _ _ h => ?_
    obtain ⟨b, _, _, rfl⟩ := releaseBlock?_eq_some h
    exact extends_withoutBlock m b.base
  | setCell address value =>
    refine attempted?_keeps (.refl m) fun _ _ h => extends_of_layout_eq ?_
    exact layout_eq_of_blank_eq (blank_exchange? h)
  | poke address values => exact extends_of_layout_eq (layout_exchangeAll m address values)
  | writeText address text size =>
    refine attempted?_keeps (.refl m) fun _ _ h => extends_of_layout_eq ?_
    exact layout_eq_of_blank_eq (blank_writeText? h)
  | raise | takeStatus => exact extends_of_blocks_eq rfl rfl rfl
  | _ => exact .refl m

theorem DrivenTo.extends (driven : m.DrivenTo m') : m.Extends m' := by
  induction driven with
  | refl => exact .refl m
  | step _ step ih => exact ih.trans (extends_perform _ step)

/-! ### Ground that no block stands on -/

/-- The addresses from `first` on, up to `limit`, were handed out, and no block stands there. -/
structure Vacated (m : Machine) (first limit : Int) : Prop where
  dataEnd_le : m.dataEnd ≤ first
  le_nextBlock : limit ≤ m.nextBlock
  apart : ∀ b ∈ m.blocks, b.limit ≤ first ∨ limit ≤ b.base

/-- Where a block was released, none stands. -/
theorem WellFormed.vacated_withoutBlock (hm : m.WellFormed) (hb : b ∈ m.blocks) :
    (m.withoutBlock b.base).Vacated b.base b.limit where
  dataEnd_le := hm.dataEnd_le_base b hb
  le_nextBlock := hm.limit_le_nextBlock b hb
  apart c hc := by
    obtain ⟨hmem, hne⟩ := (hm.mem_withoutBlock_iff hb c).mp hc
    exact hm.apart_of_ne hb hmem hne

/-- And none will ever stand there again. -/
theorem Vacated.extends (hv : m.Vacated first limit) (h : m.Extends m') :
    m'.Vacated first limit where
  dataEnd_le := h.dataEnd_eq ▸ hv.dataEnd_le
  le_nextBlock := Int.le_trans hv.le_nextBlock h.nextBlock_le
  apart b' hb' := by
    rcases h.kept_or_new b' hb' with ⟨b, hb, hbase, hlimit⟩ | hnew
    · rw [hbase, hlimit]
      exact hv.apart b hb
    · exact .inr (Int.le_trans hv.le_nextBlock hnew)

/-- No range is live that reaches into vacated ground. -/
theorem Vacated.region?_eq_none (hv : m.Vacated first limit) (hm : m.WellFormed)
    (hlow : address < limit) (hhigh : first < address + 4 * count) :
    m.region? address count = none := by
  have hend := hv.dataEnd_le
  cases hr : m.region? address count with
  | none => rfl
  | some r =>
    cases r with
    | data =>
      have hheap := hm.heapTop_le
      have hstack := hm.stackTop_le
      have hin := region?_eq_data_iff.mp hr
      omega
    | dynamic =>
      obtain ⟨_, _, b, hb, hbase, hlimit⟩ := hm.region?_eq_dynamic_iff.mp hr
      have hapart := hv.apart b hb
      omega

/-- No cell can be read there, nor written. -/
theorem Vacated.cell?_eq_none (hv : m.Vacated first limit) (hm : m.WellFormed)
    (hlow : first ≤ address) (hhigh : address < limit) :
    m.cell? address = none ∧ ∀ value, m.setCell? address value = none := by
  have hdead : m.region? address 1 = none := hv.region?_eq_none hm hhigh (by omega)
  constructor
  · rw [← Option.isNone_iff_eq_none, ← Option.not_isSome, hm.isSome_cell?, hdead]
    rfl
  · intro value
    rw [← Option.isNone_iff_eq_none, ← Option.not_isSome, isSome_setCell?, hdead]
    rfl

end Machine

end ScriptNatives
