import ScriptNatives.Proofs.Machine.Memory

/-!
# A machine without one of its blocks

A search goes by the highest base that is not above an address. So with a block gone, it goes on to
the block in front when it is for an address in the gap; but that block ends before the gap begins,
and a search for any other address finds what it found.
-/
namespace ScriptNatives.Machine

variable {m : Machine} {b : Block} {address count bytes : Int}

/-- A block is released by any address of a cell in it. -/
theorem WellFormed.releaseBlock?_eq (hm : m.WellFormed) (hb : b ∈ m.blocks)
    (hlow : b.base ≤ address) (hhigh : address + 4 ≤ b.limit) :
    m.releaseBlock? address = some (b.base, m.withoutBlock b.base) := by
  have hend := hm.dataEnd_le_base b hb
  have hfound := (hm.blockAt?_eq_some_iff (by decide)).mpr ⟨hb, hlow, hhigh⟩
  simp [Machine.releaseBlock?, hfound, Machine.withoutBlock, show ¬ address < m.dataEnd by omega]

theorem WellFormed.releaseBlock?_base (hm : m.WellFormed) (hb : b ∈ m.blocks) :
    m.releaseBlock? b.base = some (b.base, m.withoutBlock b.base) := by
  have hsize := hm.block_nonempty b hb
  refine hm.releaseBlock?_eq hb (Int.le_refl _) ?_
  rw [Block.limit]
  omega

theorem WellFormed.withoutBlock (hm : m.WellFormed) (hb : b ∈ m.blocks) :
    (m.withoutBlock b.base).WellFormed :=
  hm.releaseBlock? (hm.releaseBlock?_base hb)

theorem WellFormed.drivenTo_withoutBlock (hm : m.WellFormed) (hb : b ∈ m.blocks) :
    m.DrivenTo (m.withoutBlock b.base) :=
  drivenTo_releaseBlock? (hm.releaseBlock?_base hb)

/-- A search finds what it found, unless that is the block that is gone. -/
theorem WellFormed.blockAt?_withoutBlock (hm : m.WellFormed) (hb : b ∈ m.blocks)
    (hbytes : 0 < bytes) : (m.withoutBlock b.base).blockAt? address bytes =
      (m.blockAt? address bytes).filter (· ≠ b) := by
  refine Option.ext fun c => ?_
  rw [(hm.withoutBlock hb).blockAt?_eq_some_iff hbytes, hm.mem_withoutBlock_iff hb,
    Option.filter_eq_some_iff, hm.blockAt?_eq_some_iff hbytes, decide_eq_true_iff]
  constructor
  · rintro ⟨⟨hmem, hne⟩, hin⟩
    exact ⟨⟨hmem, hin⟩, hne⟩
  · rintro ⟨⟨hmem, hin⟩, hne⟩
    exact ⟨⟨hmem, hne⟩, hin⟩

/-- A range that does not meet the block is live where it was, if it was. -/
theorem WellFormed.region?_withoutBlock (hm : m.WellFormed) (hb : b ∈ m.blocks)
    (apart : address + 4 * count ≤ b.base ∨ b.limit ≤ address) :
    (m.withoutBlock b.base).region? address count = m.region? address count := by
  refine Option.ext fun r => ?_
  cases r with
  | data => rw [region?_eq_data_iff, region?_eq_data_iff]; rfl
  | dynamic =>
    rw [(hm.withoutBlock hb).region?_eq_dynamic_iff, hm.region?_eq_dynamic_iff]
    constructor
    · rintro ⟨haligned, hcount, c, hc, hin⟩
      exact ⟨haligned, hcount, c, ((hm.mem_withoutBlock_iff hb c).mp hc).1, hin⟩
    · rintro ⟨haligned, hcount, c, hc, hlow, hhigh⟩
      have hne : c ≠ b := by
        rintro rfl
        omega
      exact ⟨haligned, hcount, c, (hm.mem_withoutBlock_iff hb c).mpr ⟨hc, hne⟩, hlow, hhigh⟩

/-- The cells of the block are gone, and every other cell holds what it held, live or dead. -/
theorem WellFormed.stored?_withoutBlock (hm : m.WellFormed) (hb : b ∈ m.blocks) (a : Int) :
    (m.withoutBlock b.base).stored? a =
      if b.base ≤ a ∧ a < b.limit then none else m.stored? a := by
  have hend := hm.dataEnd_le_base b hb
  have hdata : (m.withoutBlock b.base).dataEnd = m.dataEnd := rfl
  simp only [stored?, hdata]
  by_cases hvalid : a < 0 ∨ a % 4 ≠ 0
  · rw [if_pos hvalid, if_pos hvalid, ite_self]
  · rw [if_neg hvalid, if_neg hvalid]
    by_cases hlow : a < m.dataEnd
    · rw [if_pos hlow, if_pos hlow, if_neg (by omega)]
      rfl
    · rw [if_neg hlow, if_neg hlow, hm.blockAt?_withoutBlock hb (by decide)]
      cases hc : m.blockAt? a 4 with
      | none => simp
      | some c =>
        obtain ⟨hmem, hbase, hlimit⟩ := mem_of_blockAt? hc
        by_cases heq : c = b
        · subst heq
          simp [hbase, show a < c.limit by omega]
        · have hapart := hm.apart_of_ne hb hmem heq
          rw [if_neg (by omega), Option.filter_some_pos (by simpa using heq)]

/-- So it is with what is read. -/
theorem WellFormed.cell?_withoutBlock (hm : m.WellFormed) (hb : b ∈ m.blocks) (a : Int) :
    (m.withoutBlock b.base).cell? a =
      if b.base ≤ a ∧ a < b.limit then none else m.cell? a := by
  by_cases hin : b.base ≤ a ∧ a < b.limit
  · rw [if_pos hin]
    exact ((hm.vacated_withoutBlock hb).cell?_eq_none (hm.withoutBlock hb) hin.1 hin.2).1
  · rw [(hm.withoutBlock hb).cell?_eq, hm.cell?_eq, hm.stored?_withoutBlock hb, if_neg hin,
      if_neg hin]
    by_cases haligned : a % 4 = 0
    · have hbase := hm.block_aligned b hb
      rw [hm.region?_withoutBlock hb (by omega)]
    · have hdead (n : Machine) : n.region? a 1 = none := if_pos (.inr (.inl haligned))
      rw [hdead, hdead]

end ScriptNatives.Machine
