import ScriptNatives.Proofs.Machine.Blocks

/-!
# What is in memory

Dead cells keep what they hold, so memory is looked at here without asking what is live. A live cell
holds what is read, and a write changes the cell that is written and no other. Whether two machines
agree on their memory outside of some addresses is a matter of their layout and of what is in
each cell.
-/
namespace ScriptNatives.Machine

variable {m m' m'' : Machine} {address size : Int} {value : Cell} {b : Block}

/-- What the cell at an address holds, live or dead. -/
def stored? (m : Machine) (address : Int) : Option Cell :=
  if address < 0 ∨ address % 4 ≠ 0 then
    none
  else if address < m.dataEnd then
    m.data.get? (address / 4).toNat
  else do
    let block ← m.blockAt? address 4
    block.cells.get? ((address - block.base) / 4).toNat

/-- The value of a live cell is what it holds. -/
theorem WellFormed.cell?_eq (hm : m.WellFormed) (address : Int) :
    m.cell? address = if (m.region? address 1).isSome then m.stored? address else none := by
  have hheap := hm.heapTop_le
  have hstack := hm.stackTop_le
  cases hr : m.region? address 1 with
  | none => simp [cell?, hr]
  | some r =>
    cases r with
    | data =>
      obtain ⟨hnonneg, haligned, _, hin⟩ := region?_eq_data_iff.mp hr
      rw [Option.isSome_some, if_pos rfl, stored?, if_neg (by omega), if_pos (by omega)]
      simp [cell?, hr]
    | dynamic =>
      obtain ⟨haligned, _, b, hb, hlow, _⟩ := hm.region?_eq_dynamic_iff.mp hr
      have hend := hm.dataEnd_le_base b hb
      have hbase := hm.heapBase_nonneg
      have htop := hm.heapBase_le
      rw [Option.isSome_some, if_pos rfl, stored?, if_neg (by omega), if_neg (by omega)]
      simp [cell?, hr]

/-! ### One cell -/

/-- A search finds the same block if blocks change in what they hold only. -/
theorem blockAt?_map {f : Block → Block} (hbase : ∀ b, (f b).base = b.base)
    (hlimit : ∀ b, (f b).limit = b.limit) (address bytes : Int) :
    blockAt? { m with blocks := m.blocks.map f } address bytes =
      (m.blockAt? address bytes).map f := by
  simp only [blockAt?, List.find?_map, Function.comp_def, hbase, Option.filter_map, hlimit]

/-- A write to the data block. -/
theorem WellFormed.stored?_setData (hm : m.WellFormed) (hnonneg : 0 ≤ address)
    (haligned : address % 4 = 0) (hin : address < m.dataEnd) (value : Cell) (other : Int) :
    stored? { m with data := m.data.set (address / 4).toNat value } other =
      if other = address then some value else m.stored? other := by
  have hsize := hm.dataEnd_eq
  simp only [stored?]
  by_cases hvalid : other < 0 ∨ other % 4 ≠ 0
  · rw [if_pos hvalid, if_neg (by omega), if_pos hvalid]
  · rw [if_neg hvalid, if_neg hvalid]
    by_cases hdata : other < m.dataEnd
    · rw [if_pos hdata, if_pos hdata, Storage.get?_set]
      by_cases heq : other = address
      · rw [if_pos heq, if_pos ⟨by rw [heq], by omega⟩]
      · rw [if_neg heq, if_neg (by omega)]
    · rw [if_neg hdata, if_neg hdata, if_neg (by omega)]
      rfl

/-- A write to the block that an address lies in. -/
theorem WellFormed.stored?_setBlock (hm : m.WellFormed) (haligned : address % 4 = 0)
    (hb : m.blockAt? address 4 = some b) (value : Cell) (other : Int) :
    stored? { m with blocks := m.blocks.map fun c =>
        if c.base = b.base then
          { c with cells := c.cells.set ((address - b.base) / 4).toNat value } else c } other =
      if other = address then some value else m.stored? other := by
  obtain ⟨hmem, hlow, hhigh⟩ := mem_of_blockAt? hb
  have hend := hm.dataEnd_le_base b hmem
  have hnonneg : 0 ≤ m.dataEnd := by
    have hsize := hm.dataEnd_eq
    omega
  have hbase := hm.block_aligned b hmem
  have hlast : ((address - b.base) / 4).toNat < b.cells.size := by
    rw [Block.limit] at hhigh
    omega
  simp only [stored?]
  by_cases hvalid : other < 0 ∨ other % 4 ≠ 0
  · rw [if_pos hvalid, if_neg (by omega), if_pos hvalid]
  · rw [if_neg hvalid, if_neg hvalid]
    by_cases hdata : other < m.dataEnd
    · rw [if_pos hdata, if_neg (by omega), if_pos hdata]
    · rw [if_neg hdata, if_neg hdata, blockAt?_map (fun c => by split <;> rfl)
        (fun c => by split <;> simp [Block.limit, Storage.size_set])]
      cases hc : m.blockAt? other 4 with
      | none =>
        have hne : other ≠ address := by
          rintro rfl
          simp [hb] at hc
        simp [hne]
      | some c =>
        obtain ⟨hcmem, hclow, _⟩ := mem_of_blockAt? hc
        -- blocks do not overlap: an address in another block is not the one that is written
        by_cases hsame : c = b
        · subst hsame
          simp only [Option.map_some, Option.bind_eq_bind, Option.bind_some, if_pos,
            Storage.get?_set]
          by_cases heq : other = address
          · rw [if_pos heq, if_pos ⟨by rw [heq], hlast⟩]
          · rw [if_neg heq, if_neg (by omega)]
        · have hne : other ≠ address := by
            rintro rfl
            exact hsame (Option.some.inj (hc.symm.trans hb))
          have hother : c.base ≠ b.base := fun h => hsame (hm.eq_of_base_eq hmem hcmem h)
          simp [hother, hne]

/-- A write changes what is in the cell that is written, and in no other. -/
theorem WellFormed.stored?_setCell? (hm : m.WellFormed)
    (h : m.setCell? address value = some m') (other : Int) :
    m'.stored? other = if other = address then some value else m.stored? other := by
  unfold setCell? at h
  cases hr : m.region? address 1 with
  | none => simp [hr] at h
  | some r =>
    cases r with
    | data =>
      obtain ⟨hnonneg, haligned, _, hin⟩ := region?_eq_data_iff.mp hr
      have hheap := hm.heapTop_le
      have hstack := hm.stackTop_le
      obtain rfl : _ = m' := by simpa [hr] using h
      exact hm.stored?_setData hnonneg haligned (by omega) value other
    | dynamic =>
      obtain ⟨haligned, _, _⟩ := hm.region?_eq_dynamic_iff.mp hr
      cases hb : m.blockAt? address 4 with
      | none => simp [hr, hb] at h
      | some b =>
        obtain rfl : _ = m' := by simpa [hr, hb] using h
        exact hm.stored?_setBlock haligned hb value other

/-- So a cell that is read after a write has the value that was written, or the one before. -/
theorem WellFormed.cell?_setCell? (hm : m.WellFormed)
    (h : m.setCell? address value = some m') (other : Int) :
    m'.cell? other = if other = address then some value else m.cell? other := by
  have hlayout := layout_eq_of_blank_eq (blank_setCell? h)
  rw [(hm.congr hlayout).cell?_eq, region?_congr hlayout, hm.stored?_setCell? h, hm.cell?_eq]
  by_cases heq : other = address
  · have hlive : (m.region? address 1).isSome := by
      rw [← isSome_setCell? m address value, h]
      rfl
    rw [heq, if_pos rfl, if_pos rfl, if_pos hlive]
  · rw [if_neg heq, if_neg heq]

/-! ### Writing inside a range -/

/-- Whether an address is that of one of `count` cells from `first` on. -/
def InCells (first count address : Int) : Prop :=
  ∃ i, 0 ≤ i ∧ i < count ∧ address = first + 4 * i

/-- From one machine to the other, nothing was moved, and every cell outside of some addresses holds
what it held. -/
structure AgreesOutside (s : Int → Prop) (m m' : Machine) : Prop where
  layout_eq : m'.layout = m.layout
  stored?_eq : ∀ a, ¬ s a → m'.stored? a = m.stored? a

variable {s t : Int → Prop}

theorem AgreesOutside.refl (m : Machine) : AgreesOutside s m m := ⟨rfl, fun _ _ => rfl⟩

theorem AgreesOutside.trans (h : AgreesOutside s m m') (h' : AgreesOutside s m' m'') :
    AgreesOutside s m m'' where
  layout_eq := h'.layout_eq.trans h.layout_eq
  stored?_eq a ha := (h'.stored?_eq a ha).trans (h.stored?_eq a ha)

theorem AgreesOutside.mono (h : AgreesOutside s m m') (hst : ∀ a, s a → t a) :
    AgreesOutside t m m' :=
  ⟨h.layout_eq, fun a ha => h.stored?_eq a fun hs => ha (hst a hs)⟩

theorem agreesOutside_raise (m : Machine) (status : Status) :
    AgreesOutside s m (m.raise status) := ⟨rfl, fun _ _ => rfl⟩

theorem WellFormed.agreesOutside_setCell? (hm : m.WellFormed)
    (h : m.setCell? address value = some m') : AgreesOutside (· = address) m m' where
  layout_eq := layout_eq_of_blank_eq (blank_setCell? h)
  stored?_eq a ha := by rw [hm.stored?_setCell? h, if_neg ha]

theorem WellFormed.agreesOutside_exchange? (hm : m.WellFormed) {out : Cell × Machine}
    (h : m.exchange? address value = some out) : AgreesOutside (· = address) m out.2 :=
  hm.agreesOutside_setCell? (exchange?_eq_some_iff.mp h).2

/-- Cells written one after the other are written where they belong, even if they are not all
written. -/
theorem WellFormed.agreesOutside_setCells (hm : m.WellFormed) (address : Int)
    (values : List Cell) :
    AgreesOutside (InCells address values.length) m (m.setCells address values).2 := by
  induction values generalizing m address with
  | nil => exact .refl m
  | cons value values ih =>
    rw [setCells, List.length_cons]
    split
    · next m₁ hset =>
      have hfirst : AgreesOutside (InCells address ↑(values.length + 1)) m m₁ :=
        (hm.agreesOutside_setCell? hset).mono fun a ha => ⟨0, by omega, by omega, by omega⟩
      have hrest := ih (hm.congr hfirst.layout_eq) (address + 4)
      refine hfirst.trans (hrest.mono ?_)
      rintro a ⟨i, hnonneg, hlt, rfl⟩
      exact ⟨i + 1, by omega, by omega, by omega⟩
    · exact .refl m

theorem WellFormed.agreesOutside_store? (hm : m.WellFormed) {values : List Cell}
    {out : Option Int × Machine} (h : m.store? address values = some out) :
    AgreesOutside (InCells address values.length) m out.2 := by
  obtain ⟨_, rfl⟩ := store?_eq_some h
  exact hm.agreesOutside_setCells address values

/-- A text is cut off where the buffer ends. -/
theorem WellFormed.agreesOutside_writeText? (hm : m.WellFormed) {text : String}
    {out : Option Nat × Machine} (h : m.writeText? address text size = some out) :
    AgreesOutside (InCells address size) m out.2 := by
  obtain ⟨⟨r, hr⟩, hout, _⟩ := writeText?_eq_some h
  have hlength := length_textCells_le hr text
  rw [hout]
  refine (hm.agreesOutside_setCells address _).mono ?_
  rintro a ⟨i, hnonneg, hlt, rfl⟩
  exact ⟨i, hnonneg, by omega, rfl⟩

end ScriptNatives.Machine
