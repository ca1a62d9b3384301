import ScriptNatives.Machine.Basic

/-!
# The layout of a machine

Static data, heap, dead space and stack lie in the data block in that order, and the dynamic blocks
behind it without overlap. Each operation on a machine keeps it so. Writing a cell does not even
move anything: it keeps the whole layout, and the layout alone decides which cells are live.
-/
namespace ScriptNatives

/-- A machine with zero in every cell: all of it but what its cells hold. -/
def Machine.blank (m : Machine) : Machine :=
  { m with
    data := ⟨m.data.size, []⟩
    blocks := m.blocks.map fun b => ⟨b.base, ⟨b.cells.size, []⟩⟩ }

namespace Machine

variable {m m' : Machine} {address count : Int} {value : Cell} {b : Block}

/-- Where the storage of a machine lies, whatever it holds; a block is its base and its number of
cells. -/
structure Layout where
  heapBase : Int
  heapTop : Int
  stackTop : Int
  dataEnd : Int
  nextBlock : Int
  dataCells : Nat
  blocks : List (Int × Nat)

def layout (m : Machine) : Layout :=
  ⟨m.heapBase, m.heapTop, m.stackTop, m.dataEnd, m.nextBlock, m.data.size,
    m.blocks.map fun b => (b.base, b.cells.size)⟩

theorem layout_blank (m : Machine) : m.blank.layout = m.layout := by
  simp [layout, blank, Function.comp_def]

theorem layout_eq_of_blank_eq (h : m'.blank = m.blank) : m'.layout = m.layout := by
  rw [← layout_blank, h, layout_blank]

/-! ### Well-formed machines -/

/-- The parts of a machine lie where they should. -/
structure WellFormed (m : Machine) : Prop where
  heapBase_nonneg : 0 ≤ m.heapBase
  heapBase_le : m.heapBase ≤ m.heapTop
  heapTop_le : m.heapTop ≤ m.stackTop
  stackTop_le : m.stackTop ≤ m.dataEnd
  dataEnd_eq : m.dataEnd = 4 * m.data.size
  stackTop_aligned : m.stackTop % 4 = 0
  block_nonempty : ∀ b ∈ m.blocks, 0 < b.cells.size
  block_aligned : ∀ b ∈ m.blocks, b.base % 4 = 0
  dataEnd_le_base : ∀ b ∈ m.blocks, m.dataEnd ≤ b.base
  limit_le_nextBlock : ∀ b ∈ m.blocks, b.limit ≤ m.nextBlock
  blocks_apart : m.blocks.Pairwise fun newer older => older.limit ≤ newer.base
  nextBlock_aligned : m.nextBlock % 4 = 0
  dataEnd_le_nextBlock : m.dataEnd ≤ m.nextBlock
  nextBlock_le : m.nextBlock ≤ Cell.maxValue

/-- Whether a machine is well-formed can be seen from its layout. -/
theorem WellFormed.congr (hm : m.WellFormed) (h : m'.layout = m.layout) : m'.WellFormed := by
  obtain ⟨h₁, h₂, h₃, h₄, h₅, h₆, hblocks⟩ := Layout.mk.inj h
  have hmem : ∀ b ∈ m'.blocks, ∃ c ∈ m.blocks, c.base = b.base ∧ c.cells.size = b.cells.size := by
    intro b hb
    have hpair : (b.base, b.cells.size) ∈ m.blocks.map fun c => (c.base, c.cells.size) := by
      rw [← hblocks]
      exact List.mem_map_of_mem hb
    obtain ⟨c, hc, heq⟩ := List.mem_map.mp hpair
    exact ⟨c, hc, (Prod.mk.inj heq).1, (Prod.mk.inj heq).2⟩
  have hapart : (m'.blocks.map fun c => (c.base, c.cells.size)).Pairwise
      fun newer older => older.1 + 4 * (older.2 : Int) ≤ newer.1 := by
    rw [hblocks, List.pairwise_map]
    exact hm.blocks_apart
  constructor
  · exact h₁ ▸ hm.heapBase_nonneg
  · exact h₁ ▸ h₂ ▸ hm.heapBase_le
  · exact h₂ ▸ h₃ ▸ hm.heapTop_le
  · exact h₃ ▸ h₄ ▸ hm.stackTop_le
  · exact h₄ ▸ h₆ ▸ hm.dataEnd_eq
  · exact h₃ ▸ hm.stackTop_aligned
  · intro b hb
    obtain ⟨c, hc, _, hsize⟩ := hmem b hb
    exact hsize ▸ hm.block_nonempty c hc
  · intro b hb
    obtain ⟨c, hc, hbase, _⟩ := hmem b hb
    exact hbase ▸ hm.block_aligned c hc
  · intro b hb
    obtain ⟨c, hc, hbase, _⟩ := hmem b hb
    rw [h₄, ← hbase]
    exact hm.dataEnd_le_base c hc
  · intro b hb
    obtain ⟨c, hc, hbase, hsize⟩ := hmem b hb
    rw [h₅, Block.limit, ← hbase, ← hsize]
    exact hm.limit_le_nextBlock c hc
  · rwa [List.pairwise_map] at hapart
  · exact h₅ ▸ hm.nextBlock_aligned
  · exact h₄ ▸ h₅ ▸ hm.dataEnd_le_nextBlock
  · exact h₅ ▸ hm.nextBlock_le

/-- A machine whose data block ends at an address is well-formed to begin with. -/
theorem wellFormed_ofLayout (name : String) {dataCells heapStackCells : Nat}
    (fits : 4 * ((dataCells : Int) + heapStackCells) ≤ Cell.maxValue) :
    (ofLayout name dataCells heapStackCells).WellFormed := by
  constructor <;> simp [ofLayout]
  -- there are no blocks, so only bounds on the data block are left
  all_goals omega

/-! ### Live storage -/

/-- The blocks that are live at an address and before it are the same wherever the layout is. -/
theorem isSome_blockAt?_congr (h : m'.layout = m.layout) (address bytes : Int) :
    (m'.blockAt? address bytes).isSome = (m.blockAt? address bytes).isSome := by
  have hview (m : Machine) : (m.blockAt? address bytes).isSome =
      (((m.blocks.map fun b => (b.base, b.cells.size)).find? (·.1 ≤ address)).any
        fun b => address + bytes ≤ b.1 + 4 * (b.2 : Int)) := by
    simp only [blockAt?, List.find?_map, Function.comp_def, Option.isSome_filter, Block.limit]
    cases m.blocks.find? fun b => b.base ≤ address <;> rfl
  have hblocks : (m'.blocks.map fun b => (b.base, b.cells.size)) =
      m.blocks.map fun b => (b.base, b.cells.size) := congrArg Layout.blocks h
  rw [hview, hview, hblocks]

/-- Which cells are live, and where, can be seen from the layout. -/
theorem region?_congr (h : m'.layout = m.layout) (address count : Int) :
    m'.region? address count = m.region? address count := by
  have hheap : m'.heapTop = m.heapTop := congrArg Layout.heapTop h
  have hstack : m'.stackTop = m.stackTop := congrArg Layout.stackTop h
  have hend : m'.dataEnd = m.dataEnd := congrArg Layout.dataEnd h
  have hblock := isSome_blockAt?_congr h address (4 * count)
  simp only [region?, hheap, hstack, hend]
  cases hb : m'.blockAt? address (4 * count) <;> cases hc : m.blockAt? address (4 * count) <;>
    simp_all

theorem WellFormed.base_lt_limit (hm : m.WellFormed) (hb : b ∈ m.blocks) : b.base < b.limit := by
  have hsize := hm.block_nonempty b hb
  rw [Block.limit]
  omega

/-- The blocks in front of a block begin where it has ended, or later, and those behind it end where
it begins, or before. -/
theorem WellFormed.apart_of_split (hm : m.WellFormed) {newer older : List Block}
    (heq : m.blocks = newer ++ b :: older) :
    (∀ c ∈ newer, b.limit ≤ c.base) ∧ ∀ c ∈ older, c.limit ≤ b.base := by
  have hapart := hm.blocks_apart
  rw [heq, List.pairwise_append, List.pairwise_cons] at hapart
  obtain ⟨_, ⟨holder, _⟩, hnewer⟩ := hapart
  exact ⟨fun c hc => hnewer c hc b List.mem_cons_self, holder⟩

theorem mem_of_blockAt? {bytes : Int} (h : m.blockAt? address bytes = some b) :
    b ∈ m.blocks ∧ b.base ≤ address ∧ address + bytes ≤ b.limit := by
  simp only [blockAt?, Option.filter_eq_some_iff, decide_eq_true_eq] at h
  obtain ⟨hfind, hlimit⟩ := h
  have hbase : b.base ≤ address := by simpa using List.find?_some hfind
  exact ⟨List.mem_of_find?_eq_some hfind, hbase, hlimit⟩

/-- A search finds the block that a range lies in: it is the only one. -/
theorem WellFormed.blockAt?_eq_some_iff (hm : m.WellFormed) {bytes : Int} (hbytes : 0 < bytes) :
    m.blockAt? address bytes = some b ↔
      b ∈ m.blocks ∧ b.base ≤ address ∧ address + bytes ≤ b.limit := by
  refine ⟨mem_of_blockAt?, fun ⟨hb, hbase, hlimit⟩ => ?_⟩
  simp only [blockAt?, Option.filter_eq_some_iff, decide_eq_true_eq]
  refine ⟨?_, hlimit⟩
  obtain ⟨newer, older, heq⟩ := List.append_of_mem hb
  rw [heq, List.find?_append, List.find?_eq_none.mpr, Option.none_or,
    List.find?_cons_of_pos (by simpa using hbase)]
  intro c hc
  have hlimit' := (hm.apart_of_split heq).1 c hc
  simp only [decide_eq_true_eq]
  omega

theorem WellFormed.region?_eq_dynamic_iff (hm : m.WellFormed) :
    m.region? address count = some .dynamic ↔ address % 4 = 0 ∧ 0 < count ∧
      ∃ b ∈ m.blocks, b.base ≤ address ∧ address + 4 * count ≤ b.limit := by
  have h₁ := hm.heapBase_nonneg
  have h₂ := hm.heapBase_le
  have h₃ := hm.heapTop_le
  have h₄ := hm.stackTop_le
  constructor
  · intro h
    simp only [region?] at h
    split at h
    · cases h
    · split at h
      · cases h
      · split at h
        · obtain ⟨b, hb, _⟩ := Option.map_eq_some_iff.mp h
          exact ⟨by omega, by omega, b, (hm.blockAt?_eq_some_iff (by omega)).mp hb⟩
        · cases h
  · rintro ⟨haligned, hcount, b, hb, hbase, hlimit⟩
    have hend := hm.dataEnd_le_base b hb
    have hfound := (hm.blockAt?_eq_some_iff (by omega)).mpr ⟨hb, hbase, hlimit⟩
    rw [region?, if_neg (by omega), if_neg (by omega), if_pos (by omega), hfound]
    rfl

theorem region?_eq_data_iff :
    m.region? address count = some .data ↔ 0 ≤ address ∧ address % 4 = 0 ∧ 0 < count ∧
      (address + 4 * count ≤ m.heapTop ∨
        m.stackTop ≤ address ∧ address + 4 * count ≤ m.dataEnd) := by
  constructor
  · intro h
    simp only [region?] at h
    split at h
    · cases h
    · split at h
      · next hin => exact ⟨by omega, by omega, by omega, hin⟩
      · split at h
        · obtain ⟨b, _, hb⟩ := Option.map_eq_some_iff.mp h
          cases hb
        · cases h
  · rintro ⟨hnonneg, haligned, hcount, hin⟩
    rw [region?, if_neg (by omega), if_pos hin]

/-- A part of a live range is live, and in the same region. -/
theorem WellFormed.region?_part (hm : m.WellFormed) {r : Region}
    (h : m.region? address count = some r) (start part : Int) (hstart : 0 ≤ start)
    (hpart : 0 < part) (hin : start + part ≤ count) :
    m.region? (address + 4 * start) part = some r := by
  cases r with
  | data =>
    rw [region?_eq_data_iff] at h ⊢
    omega
  | dynamic =>
    rw [hm.region?_eq_dynamic_iff] at h ⊢
    obtain ⟨haligned, _, b, hb, hbase, hlimit⟩ := h
    exact ⟨by omega, hpart, b, hb, by omega, by omega⟩

/-- A cell has a value if and only if it is live. -/
theorem WellFormed.isSome_cell? (hm : m.WellFormed) (address : Int) :
    (m.cell? address).isSome = (m.region? address 1).isSome := by
  cases hr : m.region? address 1 with
  | none => simp [cell?, hr]
  | some r =>
    cases r with
    | data =>
      obtain ⟨hnonneg, haligned, _, hin⟩ := region?_eq_data_iff.mp hr
      have hlive : ¬ m.data.size ≤ (address / 4).toNat := by
        have := hm.heapTop_le
        have := hm.stackTop_le
        have := hm.dataEnd_eq
        omega
      have hget : m.data.get? (address / 4).toNat ≠ none :=
        fun h => hlive ((Storage.get?_eq_none_iff _ _).mp h)
      simpa [cell?, hr, Option.isSome_iff_ne_none] using hget
    | dynamic =>
      obtain ⟨haligned, _, b, hb, hbase, hlimit⟩ := hm.region?_eq_dynamic_iff.mp hr
      have hfound : m.blockAt? address 4 = some b :=
        (hm.blockAt?_eq_some_iff (by omega)).mpr ⟨hb, hbase, by omega⟩
      have hlive : ¬ b.cells.size ≤ ((address - b.base) / 4).toNat := by
        have := hm.block_aligned b hb
        rw [Block.limit] at hlimit
        omega
      have hget : b.cells.get? ((address - b.base) / 4).toNat ≠ none :=
        fun h => hlive ((Storage.get?_eq_none_iff _ _).mp h)
      simpa [cell?, hr, hfound, Option.isSome_iff_ne_none] using hget

/-! ### Writing cells -/

theorem blank_setCell? (h : m.setCell? address value = some m') : m'.blank = m.blank := by
  unfold setCell? at h
  cases hr : m.region? address 1 with
  | none => simp [hr] at h
  | some r =>
    cases r with
    | data =>
      obtain rfl : _ = m' := by simpa [hr] using h
      simp [blank, Storage.size_set]
    | dynamic =>
      cases hb : m.blockAt? address 4 with
      | none => simp [hr, hb] at h
      | some block =>
        obtain rfl : _ = m' := by simpa [hr, hb] using h
        simp only [blank, List.map_map]
        congr 1
        refine List.map_congr_left fun b _ => ?_
        simp only [Function.comp_apply]
        split <;> simp [Storage.size_set]

theorem exchange?_eq_some_iff {out : Cell × Machine} : m.exchange? address value = some out ↔
    m.cell? address = some out.1 ∧ m.setCell? address value = some out.2 := by
  obtain ⟨previous, m'⟩ := out
  unfold exchange?
  cases m.cell? address <;> cases m.setCell? address value <;> simp

theorem blank_exchange? {out : Cell × Machine} (h : m.exchange? address value = some out) :
    out.2.blank = m.blank := blank_setCell? (exchange?_eq_some_iff.mp h).2

/-- Cells may be written one after the other, whether or not all of them are live. -/
theorem blank_setCells (address : Int) (values : List Cell) :
    (m.setCells address values).2.blank = m.blank := by
  induction values generalizing m address with
  | nil => rfl
  | cons value values ih =>
    rw [setCells]
    split
    · next m₁ hset => rw [ih, blank_setCell? hset]
    · rfl

theorem store?_eq_some {values : List Cell} {out : Option Int × Machine}
    (h : m.store? address values = some out) :
    (∃ r, m.region? address values.length = some r) ∧ out = m.setCells address values := by
  obtain ⟨r, hr, hout⟩ := Option.bind_eq_some_iff.mp h
  exact ⟨⟨r, hr⟩, (Option.some.inj hout).symm⟩

/-- The cells of a text that is cut off to fit a buffer, and the zero cell behind it. -/
def textCells (text : String) (size : Int) : List Cell :=
  (text.toList.take (size - 1).toNat).map Cell.ofChar ++ [0]

theorem writeText?_eq_some {text : String} {size : Int} {out : Option Nat × Machine}
    (h : m.writeText? address text size = some out) :
    (∃ r, m.region? address size = some r) ∧
      out.2 = (m.setCells address (textCells text size)).2 ∧
      out.1.isSome = (m.setCells address (textCells text size)).1.isNone := by
  obtain ⟨r, hr, hout⟩ := Option.bind_eq_some_iff.mp h
  obtain rfl := Option.some.inj hout
  refine ⟨⟨r, hr⟩, rfl, ?_⟩
  show (if (m.setCells address (textCells text size)).1.isNone then _ else none).isSome = _
  cases (m.setCells address (textCells text size)).1 <;> rfl

theorem blank_writeText? {text : String} {size : Int} {out : Option Nat × Machine}
    (h : m.writeText? address text size = some out) : out.2.blank = m.blank := by
  obtain ⟨_, hout, _⟩ := writeText?_eq_some h
  rw [hout, blank_setCells]

/-- A cell can be written if and only if it is live. -/
theorem isSome_setCell? (m : Machine) (address : Int) (value : Cell) :
    (m.setCell? address value).isSome = (m.region? address 1).isSome := by
  cases hr : m.region? address 1 with
  | none => simp [setCell?, hr]
  | some r =>
    cases r with
    | data => simp [setCell?, hr]
    | dynamic =>
      have hblock : (m.blockAt? address 4).isSome := by
        simp only [region?] at hr
        split at hr
        · cases hr
        · split at hr
          · cases hr
          · split at hr
            · obtain ⟨b, hb, _⟩ := Option.map_eq_some_iff.mp hr
              simpa using Option.isSome_of_eq_some hb
            · cases hr
      obtain ⟨b, hb⟩ := Option.isSome_iff_exists.mp hblock
      simp [setCell?, hr, hb]

/-- Writing within a live range does not stop midway: what is written changes no layout, so every
cell is still live when its turn comes. -/
theorem WellFormed.setCells_of_region? (hm : m.WellFormed) {r : Region} {values : List Cell}
    (h : m.region? address count = some r) (hlength : (values.length : Int) ≤ count) :
    (m.setCells address values).1 = none := by
  induction values generalizing m address count with
  | nil => rfl
  | cons value values ih =>
    rw [List.length_cons] at hlength
    have hfirst : m.region? address 1 = some r := by
      simpa using hm.region?_part h 0 1 (by omega) (by omega) (by omega)
    obtain ⟨m₁, hset⟩ : ∃ m₁, m.setCell? address value = some m₁ := by
      rw [← Option.isSome_iff_exists, isSome_setCell?, hfirst]
      rfl
    have hlayout := layout_eq_of_blank_eq (blank_setCell? hset)
    simp only [setCells, hset]
    cases values with
    | nil => rfl
    | cons second rest =>
      rw [List.length_cons] at hlength
      have hrest : m₁.region? (address + 4) (count - 1) = some r := by
        rw [region?_congr hlayout]
        simpa using hm.region?_part h 1 (count - 1) (by omega) (by omega) (by omega)
      exact ih (hm.congr hlayout) hrest (by rw [List.length_cons]; omega)

theorem WellFormed.store?_completes (hm : m.WellFormed) {values : List Cell}
    {out : Option Int × Machine} (h : m.store? address values = some out) : out.1 = none := by
  obtain ⟨⟨r, hr⟩, rfl⟩ := store?_eq_some h
  exact hm.setCells_of_region? hr (Int.le_refl _)

/-- A text that is cut off fits its buffer, together with the zero cell behind it. -/
theorem length_textCells_le {size : Int} {r : Region} (h : m.region? address size = some r)
    (text : String) : ((textCells text size).length : Int) ≤ size := by
  have hsize : 0 < size := by
    simp only [region?] at h
    split at h
    · cases h
    · omega
  simp only [textCells, List.length_append, List.length_map, List.length_take,
    List.length_singleton]
  omega

theorem WellFormed.writeText?_completes (hm : m.WellFormed) {text : String} {size : Int}
    {out : Option Nat × Machine} (h : m.writeText? address text size = some out) :
    out.1.isSome = true := by
  obtain ⟨⟨r, hr⟩, _, hdone⟩ := writeText?_eq_some h
  rw [hdone, hm.setCells_of_region? hr (length_textCells_le hr text)]
  rfl

end Machine

end ScriptNatives
