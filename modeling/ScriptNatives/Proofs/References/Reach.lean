import ScriptNatives.Proofs.References.Access

/-!
# How far a variable reaches

A variable that begins in a dynamic block may be longer than what is left of that block, since its
range need not be live when it is made. When an element is used, its own cell has to be live and no
more. So beyond the end of the block the variable reaches into the blocks that stand behind. It
keeps to one block as long as it is linked.
-/
namespace ScriptNatives

/-! ### Blocks by address -/

namespace Block

/-- The whole cell at an address lies in the block. -/
def Holds (b : Block) (address : Int) : Prop := b.base ≤ address ∧ address + 4 ≤ b.limit

instance (b : Block) (address : Int) : Decidable (b.Holds address) :=
  inferInstanceAs (Decidable (_ ∧ _))

/-- What a block has in the cell at an address. -/
def cell? (b : Block) (address : Int) : Option Cell :=
  b.cells.get? ((address - b.base) / 4).toNat

/-- The block with another value in the cell at an address. -/
def write (b : Block) (address : Int) (value : Cell) : Block :=
  { b with cells := b.cells.set ((address - b.base) / 4).toNat value }

end Block

namespace Machine

variable {m : Machine} {b c : Block} {start address size : Int} {value : Cell}

/-- The machine with another value in one cell of a block. All other blocks, and all else, are the
same. -/
def writeBlock (m : Machine) (b : Block) (address : Int) (value : Cell) : Machine :=
  { m with blocks := m.blocks.map fun c => if c = b then c.write address value else c }

theorem WellFormed.blockAt?_of_holds (hm : m.WellFormed) (hb : b ∈ m.blocks)
    (holds : b.Holds address) : m.blockAt? address 4 = some b :=
  (hm.blockAt?_eq_some_iff (by decide)).mpr ⟨hb, holds.1, holds.2⟩

theorem WellFormed.region?_of_holds (hm : m.WellFormed) (haligned : address % 4 = 0)
    (hb : b ∈ m.blocks) (holds : b.Holds address) : m.region? address 1 = some .dynamic :=
  hm.region?_eq_dynamic_iff.mpr ⟨haligned, by decide, b, hb, holds.1, holds.2⟩

/-- A cell in a block is read there. -/
theorem WellFormed.cell?_of_holds (hm : m.WellFormed) (haligned : address % 4 = 0)
    (hb : b ∈ m.blocks) (holds : b.Holds address) : m.cell? address = b.cell? address := by
  simp [Machine.cell?, Block.cell?, hm.region?_of_holds haligned hb holds,
    hm.blockAt?_of_holds hb holds]

/-- A cell in a block is written there. -/
theorem WellFormed.setCell?_of_holds (hm : m.WellFormed) (haligned : address % 4 = 0)
    (hb : b ∈ m.blocks) (holds : b.Holds address) (value : Cell) :
    m.setCell? address value = some (m.writeBlock b address value) := by
  simp only [setCell?, hm.region?_of_holds haligned hb holds, hm.blockAt?_of_holds hb holds,
    Option.bind_eq_bind, Option.bind_some, Option.pure_def, writeBlock, Block.write]
  congr 2
  refine List.map_congr_left fun c hc => ?_
  by_cases hbase : c.base = b.base
  · obtain rfl := hm.eq_of_base_eq hb hc hbase
    rw [if_pos rfl, if_pos rfl]
  · rw [if_neg hbase, if_neg fun heq => hbase (congrArg Block.base heq)]

/-- Behind the beginning of a block there is no live range but in blocks. -/
theorem WellFormed.region?_behind (hm : m.WellFormed) (hb : b ∈ m.blocks)
    (hstart : b.base ≤ address) : (m.region? address size).isSome ↔
      address % 4 = 0 ∧ 0 < size ∧
        ∃ c ∈ m.blocks, c.base ≤ address ∧ address + 4 * size ≤ c.limit := by
  rw [← hm.region?_eq_dynamic_iff]
  cases hr : m.region? address size with
  | none => simp
  | some r =>
    cases r with
    | dynamic => simp
    | data =>
      -- the data block ends before the first of the dynamic blocks begins
      obtain ⟨_, _, hsize, hin⟩ := region?_eq_data_iff.mp hr
      have hheap := hm.heapTop_le
      have hstack := hm.stackTop_le
      have hend := hm.dataEnd_le_base b hb
      omega

/-- So a cell there is live if and only if a block holds it. -/
theorem WellFormed.cell?_behind (hm : m.WellFormed) (hb : b ∈ m.blocks)
    (hstart : b.base ≤ address) (haligned : address % 4 = 0) :
    m.cell? address = some value ↔
      ∃ c ∈ m.blocks, c.Holds address ∧ c.cell? address = some value := by
  constructor
  · intro hcell
    have hlive : (m.region? address 1).isSome := by
      rw [← hm.isSome_cell?, hcell]
      rfl
    obtain ⟨_, _, c, hc, hlow, hhigh⟩ := (hm.region?_behind hb hstart).mp hlive
    have holds : c.Holds address := ⟨hlow, hhigh⟩
    exact ⟨c, hc, holds, hm.cell?_of_holds haligned hc holds ▸ hcell⟩
  · rintro ⟨c, hc, holds, hcell⟩
    rw [hm.cell?_of_holds haligned hc holds, hcell]

/-- An address behind one that a block holds is in the same block up to the end of that one, and in
a block behind it from there on. -/
theorem WellFormed.holds_behind (hm : m.WellFormed) (hb : b ∈ m.blocks) (hc : c ∈ m.blocks)
    (hstart : b.Holds start) (hle : start ≤ address) (holds : c.Holds address) :
    (c = b ↔ address < b.limit) ∧ (c ≠ b → b.limit ≤ c.base) := by
  have hbefore := hstart.1
  have hlow := holds.1
  have hhigh := holds.2
  have hbehind : c ≠ b → b.limit ≤ c.base := by
    intro hne
    rcases hm.apart_of_ne hb hc hne with hfront | hbehind
    · omega
    · exact hbehind
  refine ⟨⟨?_, fun hlt => Decidable.byContradiction fun hne => ?_⟩, hbehind⟩
  · rintro rfl
    omega
  · have hlimit := hbehind hne
    omega

end Machine

/-! ### Elements in blocks -/

/-- Where an element of a variable that begins in block `b` is found: in block `c`. -/
structure Var.Reaches (v : Var) (index : Int) (b c : Block) : Prop where
  index_nonneg : 0 ≤ index
  index_lt : index < v.size
  holds : c.Holds (v.address + 4 * index)
  /-- It is the same block up to the end of that one. -/
  eq_iff : c = b ↔ v.address + 4 * index < b.limit
  /-- Any other block that is reached stands behind. -/
  limit_le : c ≠ b → b.limit ≤ c.base

namespace World

variable {σ : Type} {w : World σ} {v : Var} {m : Machine} {b : Block} {id : InstanceId}

section

variable (sound : w.Sound) (hm : w.machine? v.owner = some m) (hb : b ∈ m.blocks)
  (hstart : b.Holds v.address)

include sound hm hb hstart

/-- A variable that begins in a block is linked if and only if it ends there. -/
theorem isLinked_iff_of_holds : w.isLinked v = true ↔ v.address + 4 * v.size ≤ b.limit := by
  have hwf := (sound.machine? hm).wellFormed
  have haddress := v.address_aligned
  have hsize := v.size_pos
  have hfirst := hstart.2
  rw [isLinked, varRegion?, hm, Option.bind_eq_bind, Option.bind_some,
    hwf.region?_behind hb hstart.1]
  constructor
  · rintro ⟨_, _, c, hc, hlow, hhigh⟩
    have holds : c.Holds v.address := ⟨hlow, by omega⟩
    obtain ⟨hsame, _⟩ := hwf.holds_behind hb hc hstart (Int.le_refl _) holds
    exact hsame.mpr (by omega) ▸ hhigh
  · exact fun hlimit => ⟨haddress, by omega, b, hb, hstart.1, hlimit⟩

/-- An element is live if and only if some block holds it. -/
theorem reaches_of_cell? {index : Int} {value : Cell} (hnonneg : 0 ≤ index)
    (hlt : index < v.size) : m.cell? (v.address + 4 * index) = some value ↔
      ∃ c ∈ m.blocks, v.Reaches index b c ∧ c.cell? (v.address + 4 * index) = some value := by
  have hwf := (sound.machine? hm).wellFormed
  have haddress := v.address_aligned
  have hbase := hstart.1
  rw [hwf.cell?_behind hb (by omega) (by omega)]
  constructor
  · rintro ⟨c, hc, holds, hcell⟩
    obtain ⟨heq, hne⟩ := hwf.holds_behind hb hc hstart (by omega) holds
    exact ⟨c, hc, ⟨hnonneg, hlt, holds, heq, hne⟩, hcell⟩
  · rintro ⟨c, hc, hreaches, hcell⟩
    exact ⟨c, hc, hreaches.holds, hcell⟩

theorem readVar_eq_ok_iff_reaches {index : Int} {value : Cell} :
    w.readVar v index = .ok value ↔
      ∃ c ∈ m.blocks, v.Reaches index b c ∧ c.cell? (v.address + 4 * index) = some value := by
  rw [readVar_eq]
  by_cases hin : 0 ≤ index ∧ index < v.size
  · have helement : v.element index = .ok (v.address + 4 * index) :=
      Var.element_eq_ok_iff.mpr ⟨hin.1, hin.2, rfl⟩
    rw [← reaches_of_cell? sound hm hb hstart hin.1 hin.2, helement, ok_bind, hm]
    cases hcell : m.cell? (v.address + 4 * index) <;> simp [hcell]
  · have helement : v.element index = .error (.badIndex index v.size) := if_neg hin
    rw [helement, error_bind]
    constructor
    · rintro ⟨⟩
    · rintro ⟨c, _, hreaches, _⟩
      exact absurd ⟨hreaches.index_nonneg, hreaches.index_lt⟩ hin

theorem writeVar_eq_ok_iff_reaches {index : Int} {value old : Cell} {u : World σ} :
    w.writeVar v index value = .ok (old, u) ↔
      ∃ c ∈ m.blocks, v.Reaches index b c ∧ c.cell? (v.address + 4 * index) = some old ∧
        u = w.putMachine v.owner (m.writeBlock c (v.address + 4 * index) value) := by
  have hwf := (sound.machine? hm).wellFormed
  have haddress := v.address_aligned
  have hset {c : Block} (hc : c ∈ m.blocks) (hreaches : v.Reaches index b c) :
      m.setCell? (v.address + 4 * index) value =
        some (m.writeBlock c (v.address + 4 * index) value) :=
    hwf.setCell?_of_holds (by omega) hc hreaches.holds value
  constructor
  · intro hwrite
    obtain ⟨address, m', ⟨previous, m''⟩, helement, hm', hexchange, hout⟩ := writeVar_eq_ok hwrite
    obtain ⟨hnonneg, hlt, rfl⟩ := Var.element_eq_ok_iff.mp helement
    obtain rfl : m = m' := Option.some.inj (hm.symm.trans hm')
    obtain ⟨rfl, rfl⟩ := Prod.mk.inj hout
    obtain ⟨hold, hnew⟩ := Machine.exchange?_eq_some_iff.mp hexchange
    obtain ⟨c, hc, hreaches, hcell⟩ :=
      (reaches_of_cell? sound hm hb hstart hnonneg hlt).mp hold
    rw [hset hc hreaches, Option.some.injEq] at hnew
    exact ⟨c, hc, hreaches, hcell, by rw [hnew]⟩
  · rintro ⟨c, hc, hreaches, hcell, rfl⟩
    have helement : v.element index = .ok (v.address + 4 * index) :=
      Var.element_eq_ok_iff.mpr ⟨hreaches.index_nonneg, hreaches.index_lt, rfl⟩
    have hold : m.cell? (v.address + 4 * index) = some old :=
      (reaches_of_cell? sound hm hb hstart hreaches.index_nonneg hreaches.index_lt).mpr
        ⟨c, hc, hreaches, hcell⟩
    simp [writeVar, helement, machine, hm, Machine.exchange?, hold, hset hc hreaches]

end

/-! ### Natives -/

variable {h : Host σ} {p : Params} {var value : Cell} {u : World σ}

theorem runNative_get_eq_ok_iff (hvar : p[0]? = some var) (hv : w.vars.get? var = some v) :
    w.runNative h id "amx_get" p = (.ok value, u) ↔
      w.isLive id = true ∧ w.readVar v (p.getD 1 0).toInt = .ok value ∧ w = u := by
  have hlength : 1 ≤ p.length := (List.getElem?_eq_some_iff.mp hvar).1
  have hrun := w.runNative_plain h id p .get hlength
  have hneed : p.need 0 = .ok var := Params.need_eq_ok_iff.mpr hvar
  have hvalue : w.var var = .ok v := var_eq_ok_iff.mpr hv
  rw [LocalNative.scriptName] at hrun
  simp only [hrun, performPlain, hneed, hvalue, ok_bind]
  cases w.readVar v (p.getD 1 0).toInt with
  | error fault => simp [settle_error_ne_ok]
  | ok found => simp [answer, ends, settle_returns_eq_ok_iff]

theorem runNative_set_eq_ok_iff (hvar : p[0]? = some var) (hv : w.vars.get? var = some v) :
    w.runNative h id "amx_set" p = (.ok value, u) ↔
      w.isLive id = true ∧ ∃ x, p[1]? = some x ∧
        w.writeVar v (p.getD 2 0).toInt x = .ok (value, u) := by
  have hneed : p.need 0 = .ok var := Params.need_eq_ok_iff.mpr hvar
  have hvalue : w.var var = .ok v := var_eq_ok_iff.mpr hv
  cases hx : p[1]? with
  | none =>
    have hneed' : p.need 1 = .error (.fewParams 2 p.length) := by simp [Params.need, hx]
    rcases runNative_plain_cases h id p w .set with ⟨fault, hrun⟩ | ⟨out, hperform, _⟩
    · rw [LocalNative.scriptName] at hrun
      simp [hrun, settle_error_ne_ok]
    · simp [performPlain, hneed, hneed', hvalue] at hperform
  | some x =>
    have hlength : 2 ≤ p.length := (List.getElem?_eq_some_iff.mp hx).1
    have hrun := w.runNative_plain h id p .set hlength
    have hneed' : p.need 1 = .ok x := Params.need_eq_ok_iff.mpr hx
    rw [LocalNative.scriptName] at hrun
    simp only [hrun, performPlain, hneed, hneed', hvalue, ok_bind, Option.some.injEq,
      exists_eq_left']
    cases hwrite : w.writeVar v (p.getD 2 0).toInt x with
    | error fault => simp [answered, Except.map, settle_error_ne_ok]
    | ok out =>
      obtain ⟨old, after⟩ := out
      have hlive := isLive_eq_of_registry_eq (aloof_registry.steady.writeVar hwrite) id
      simp [answered, Except.map, settle_returns_eq_ok_iff, hlive]

/-- A variable that begins in a dynamic block is linked if and only if it ends in that block. A live
instance that uses an element of it succeeds if and only if the element lies in a dynamic block,
whichever that is: up to the end of the block in which the variable begins it is that one, and from
there on it is one behind. What is read is in that block, and what is written changes that cell and
nothing else. -/
theorem runNative_reaches (sound : w.Sound) (hv : w.vars.get? var = some v)
    (hm : w.machine? v.owner = some m) (hb : b ∈ m.blocks) (hstart : b.Holds v.address)
    (h : Host σ) (id : InstanceId) :
    (w.isLinked v = true ↔ v.address + 4 * v.size ≤ b.limit) ∧
    (∀ p value u, p[0]? = some var →
      (w.runNative h id "amx_get" p = (.ok value, u) ↔ w.isLive id = true ∧
        (∃ c ∈ m.blocks, v.Reaches (p.getD 1 0).toInt b c ∧
          c.cell? (v.address + 4 * (p.getD 1 0).toInt) = some value) ∧ w = u)) ∧
    ∀ p old u, p[0]? = some var →
      (w.runNative h id "amx_set" p = (.ok old, u) ↔ w.isLive id = true ∧
        ∃ x, p[1]? = some x ∧ ∃ c ∈ m.blocks, v.Reaches (p.getD 2 0).toInt b c ∧
          c.cell? (v.address + 4 * (p.getD 2 0).toInt) = some old ∧
          u = w.putMachine v.owner
            (m.writeBlock c (v.address + 4 * (p.getD 2 0).toInt) x)) := by
  refine ⟨isLinked_iff_of_holds sound hm hb hstart, ?_, ?_⟩
  · intro p value u hvar
    rw [runNative_get_eq_ok_iff hvar hv, readVar_eq_ok_iff_reaches sound hm hb hstart]
  · intro p old u hvar
    simp only [runNative_set_eq_ok_iff hvar hv, writeVar_eq_ok_iff_reaches sound hm hb hstart]

/-- A machine with two blocks of two cells, the second behind the first, and a variable of four
cells that begins where the first does. -/
def twoBlocks : World Unit :=
  let acts : List (Act Unit) :=
    [.register (Scenario.MachineSpec.build {}), .onMachine 0 (.allocBlock 2),
      .onMachine 0 (.allocBlock 2), .onMachine 0 (.setCell 1288 7),
      .createVar ⟨1, Nat.one_pos⟩ 1280 4]
  acts.foldl Act.apply (World.create {} ())

theorem twoBlocks_reachable : twoBlocks.Reachable := by
  refine (reachable_create {} ()).foldl fun m hm => ?_
  obtain rfl : m = Scenario.MachineSpec.build {} := by simpa using hm
  exact .built {} (by decide)

theorem twoBlocks_machine? : ∃ m, twoBlocks.machine? ⟨1, by decide⟩ = some m ∧
    m.blocks = [⟨1288, ⟨2, [(0, 7)]⟩⟩, ⟨1280, ⟨2, []⟩⟩] :=
  Option.map_eq_some_iff.mp (show Option.map Machine.blocks _ = some _ by rfl)

/-- The third element of that variable is the first cell of the block behind. -/
theorem get_in_block_behind :
    let h : Host Unit := ⟨fun _ w => (.ok 0, w), fun _ _ => (0, ())⟩
    let id : InstanceId := ⟨1, by decide⟩
    let v : Var := ⟨id, 1280, 4, by decide, by decide, by decide, by decide⟩
    let b : Block := ⟨1280, ⟨2, []⟩⟩
    let c : Block := ⟨1288, ⟨2, [(0, 7)]⟩⟩
    twoBlocks.Sound ∧ twoBlocks.vars.get? 1 = some v ∧
      (∃ m, twoBlocks.machine? id = some m ∧ m.blocks = [c, b]) ∧ b.Holds 1280 ∧
      twoBlocks.isLinked v = false ∧
      (twoBlocks.runNative h id "amx_get" [1, 1]).1 = .ok 0 ∧
      (twoBlocks.runNative h id "amx_get" [1, 2]).1 = .ok 7 ∧ v.Reaches 2 b c := by
  intro h id v b c
  have sound := twoBlocks_reachable.sound
  have hv : twoBlocks.vars.get? 1 = some v := by rfl
  obtain ⟨m, hm, hblocks⟩ := twoBlocks_machine?
  have hb : b ∈ m.blocks := by simp [hblocks, b]
  have hstart : b.Holds 1280 := by decide
  obtain ⟨hlinked, hget, _⟩ := runNative_reaches sound hv hm hb hstart h id
  have hunlinked : twoBlocks.isLinked v = false := by
    rw [← Bool.not_eq_true, hlinked]
    decide
  have hread : (twoBlocks.runNative h id "amx_get" [1, 2]).1 = .ok 7 := by rfl
  obtain ⟨_, ⟨found, hfound, hreaches, _⟩, _⟩ := (hget [1, 2] 7 _ rfl).mp (Prod.ext hread rfl)
  have hne : found ≠ b := fun heq => absurd (hreaches.eq_iff.mp heq) (by decide)
  have hone : found = c ∨ found = b := by simpa [hblocks] using hfound
  obtain rfl : found = c := hone.resolve_right hne
  exact ⟨sound, hv, ⟨m, hm, hblocks⟩, hstart, hunlinked, by rfl, hread, hreaches⟩

/-- So it is not true that a variable never reaches outside of the block in which it begins. -/
theorem get_reaches_outside :
    ¬ ∀ (w : World Unit) (h : Host Unit) (id : InstanceId) (p : Params) (var value : Cell)
      (v : Var) (m : Machine) (b : Block), w.Reachable → w.vars.get? var = some v →
      w.machine? v.owner = some m → b ∈ m.blocks → b.Holds v.address → p[0]? = some var →
      (w.runNative h id "amx_get" p).1 = .ok value →
      b.Holds (v.address + 4 * (p.getD 1 0).toInt) := by
  intro hclaim
  let id : InstanceId := ⟨1, by decide⟩
  let v : Var := ⟨id, 1280, 4, by decide, by decide, by decide, by decide⟩
  let b : Block := ⟨1280, ⟨2, []⟩⟩
  obtain ⟨m, hm, hblocks⟩ := twoBlocks_machine?
  have hb : b ∈ m.blocks := by simp [hblocks, b]
  have hholds : b.Holds 1288 := hclaim twoBlocks ⟨fun _ w => (.ok 0, w), fun _ _ => (0, ())⟩ id
    [1, 2] 1 7 v m b twoBlocks_reachable rfl hm hb (by decide) rfl rfl
  exact absurd hholds (by decide)

end World

end ScriptNatives
