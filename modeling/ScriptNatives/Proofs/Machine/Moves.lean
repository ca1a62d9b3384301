import Mathlib.Order.Bounds.Defs
import ScriptNatives.Proofs.Machine.Release

/-!
# Moving the ends of live storage

Heap and stack grow towards each other in one block of cells, and blocks come and go behind it. A
cell that dies keeps what it holds until another use is made of it. Here is what the steps that
move an end do to the cells that are live: one that was live and still is has the value that it
had, whatever is moved, and as long as it stays live, however often.
-/
namespace ScriptNatives

open Scenario (MachineSpec MachineStep)
open Scenario.MachineStep (attempted_keeps attempted?_keeps heapRelease_of_map)

/-- The step moves an end of live storage, or tries to, and writes to no cell that is live. -/
def Scenario.MachineStep.MovesEnds : MachineStep → Prop
  | push _ | pop | heapAlloc _ | heapRelease _ | allocBlock _ | releaseBlock _ => True
  | _ => False

namespace Machine

variable {m m' m₀ : Machine} {a address base cells : Int} {value : Cell} {b : Block}

/-! ### Live cells -/

/-- The cell at an address is live. -/
def Live (m : Machine) (a : Int) : Prop := (m.region? a 1).isSome = true

instance (m : Machine) (a : Int) : Decidable (m.Live a) :=
  inferInstanceAs (Decidable ((m.region? a 1).isSome = true))

/-- The cell at an address is live storage of the data block that is neither data nor heap. -/
def OnStack (m : Machine) (a : Int) : Prop := m.region? a 1 = some .data ∧ m.heapTop ≤ a

theorem WellFormed.live_iff (hm : m.WellFormed) : m.Live a ↔ a % 4 = 0 ∧
    (0 ≤ a ∧ a + 4 ≤ m.heapTop ∨ m.stackTop ≤ a ∧ a + 4 ≤ m.dataEnd ∨
      ∃ b ∈ m.blocks, b.base ≤ a ∧ a + 4 ≤ b.limit) := by
  have hbase := hm.heapBase_nonneg
  have hheap := hm.heapBase_le
  have hstack := hm.heapTop_le
  have hregion : m.Live a ↔ m.region? a 1 = some .data ∨ m.region? a 1 = some .dynamic := by
    rw [Live, Option.isSome_iff_exists]
    constructor
    · rintro ⟨r, hr⟩
      cases r with
      | data => exact .inl hr
      | dynamic => exact .inr hr
    · rintro (hr | hr) <;> exact ⟨_, hr⟩
  rw [hregion, region?_eq_data_iff, hm.region?_eq_dynamic_iff]
  constructor
  · rintro (⟨hnonneg, haligned, _, hin⟩ | ⟨haligned, _, hblock⟩)
    · exact ⟨haligned, by omega⟩
    · exact ⟨haligned, .inr (.inr hblock)⟩
  · rintro ⟨haligned, hin | hin | hblock⟩
    · exact .inl (by omega)
    · exact .inl (by omega)
    · exact .inr ⟨haligned, Int.one_pos, hblock⟩

/-- A live cell of a block lies behind the data block and before the next block to come. -/
theorem WellFormed.bounds_of_mem (hm : m.WellFormed) (hb : b ∈ m.blocks) (hlow : b.base ≤ a)
    (hhigh : a + 4 ≤ b.limit) : m.dataEnd ≤ a ∧ a + 4 ≤ m.nextBlock := by
  have hend := hm.dataEnd_le_base b hb
  have hnext := hm.limit_le_nextBlock b hb
  omega

/-- A live cell lies below the heap, or not below the stack and before the next block to come. -/
theorem WellFormed.bounds_of_live (hm : m.WellFormed) (live : m.Live a) :
    0 ≤ a ∧ a % 4 = 0 ∧ (a + 4 ≤ m.heapTop ∨ m.stackTop ≤ a) ∧ a + 4 ≤ m.nextBlock := by
  have hbase := hm.heapBase_nonneg
  have hheap := hm.heapBase_le
  have hstack := hm.heapTop_le
  have hend := hm.stackTop_le
  have hnext := hm.dataEnd_le_nextBlock
  obtain ⟨haligned, hin | hin | ⟨b, hb, hlow, hhigh⟩⟩ := hm.live_iff.mp live
  · omega
  · omega
  · have hbounds := hm.bounds_of_mem hb hlow hhigh
    omega

theorem cell?_of_data (h : m.region? a 1 = some .data) :
    m.cell? a = m.data.get? (a / 4).toNat := by
  simp [cell?, h]

/-- What is read from a live cell is what it holds. -/
theorem WellFormed.cell?_of_live (hm : m.WellFormed) (live : m.Live a) :
    m.cell? a = m.stored? a := by
  rw [hm.cell?_eq, if_pos (show (m.region? a 1).isSome = true from live)]

/-! ### The stack -/

/-- From the machine `m` to the machine `m'`, the cell at an address became live, no other did, and
none died. -/
structure Pushed (m m' : Machine) (address : Int) (value : Cell) : Prop where
  dead : ¬ m.Live address
  live_iff : ∀ a, m'.Live a ↔ m.Live a ∨ a = address
  cell?_eq : m'.cell? address = some value

/-- From the machine `m` to the machine `m'`, the lowest cell on the stack died, no other did, and
none became live. -/
structure Popped (m m' : Machine) (address : Int) (value : Cell) : Prop where
  lowest : IsLeast {a | m.OnStack a} address
  cell?_eq : m.cell? address = some value
  live_iff : ∀ a, m'.Live a ↔ m.Live a ∧ a ≠ address

theorem WellFormed.stored?_push (hm : m.WellFormed) (h : m.push value = .ok (address, m'))
    (a : Int) : m'.stored? a = if a = address then some value else m.stored? a := by
  obtain ⟨hheap, hstack, rfl⟩ := push_eq_ok h
  have haligned := hm.stackTop_aligned
  have hnonneg := hm.heapBase_nonneg
  have hbase := hm.heapBase_le
  have hend := hm.stackTop_le
  exact hm.stored?_setData (by omega) (by omega) (by omega) value a

theorem WellFormed.pushed (hm : m.WellFormed) (h : m.push value = .ok (address, m')) :
    Pushed m m' address value := by
  have hm' := hm.push h
  have hstored := hm.stored?_push h address
  obtain ⟨hheap, hstack, hafter⟩ := push_eq_ok h
  have hend := hm.stackTop_le
  have haligned := hm.stackTop_aligned
  have hlive (a : Int) : m'.Live a ↔ m.Live a ∨ a = address := by
    rw [hm'.live_iff, hm.live_iff, hafter]
    simp only
    constructor
    · rintro ⟨ha, hin | hin | hblock⟩
      · exact .inl ⟨ha, .inl hin⟩
      · by_cases heq : a = address
        · exact .inr heq
        · exact .inl ⟨ha, .inr (.inl (by omega))⟩
      · exact .inl ⟨ha, .inr (.inr hblock)⟩
    · rintro (⟨ha, hin | hin | hblock⟩ | rfl)
      · exact ⟨ha, .inl hin⟩
      · exact ⟨ha, .inr (.inl (by omega))⟩
      · exact ⟨ha, .inr (.inr hblock)⟩
      · exact ⟨by omega, .inr (.inl (by omega))⟩
  refine ⟨fun live => ?_, hlive, ?_⟩
  · have hbounds := hm.bounds_of_live live
    omega
  · have live := (hlive address).mpr (.inr rfl)
    rw [hm'.cell?_of_live live, hstored, if_pos rfl]

theorem WellFormed.onStack_iff (hm : m.WellFormed) :
    m.OnStack a ↔ a % 4 = 0 ∧ m.stackTop ≤ a ∧ a + 4 ≤ m.dataEnd := by
  have hbase := hm.heapBase_nonneg
  have hheap := hm.heapBase_le
  have hstack := hm.heapTop_le
  rw [OnStack, region?_eq_data_iff]
  omega

theorem WellFormed.popped (hm : m.WellFormed) (h : m.pop = .ok (value, m')) :
    Popped m m' m.stackTop value := by
  have hm' := hm.pop h
  obtain ⟨hend, hvalue, hafter⟩ := pop_eq_ok h
  have haligned := hm.stackTop_aligned
  have hbase := hm.heapBase_nonneg
  have hheap := hm.heapBase_le
  have hstack := hm.heapTop_le
  have hsize := hm.dataEnd_eq
  have honStack : m.OnStack m.stackTop := hm.onStack_iff.mpr (by omega)
  refine ⟨⟨honStack, fun a ha => (hm.onStack_iff.mp ha).2.1⟩, ?_, fun a => ?_⟩
  · have hlive : (m.cell? m.stackTop).isSome = true := by
      rw [hm.isSome_cell?, honStack.1]
      rfl
    obtain ⟨found, hfound⟩ := Option.isSome_iff_exists.mp hlive
    rw [hvalue, ← cell?_of_data honStack.1, hfound]
    rfl
  · rw [hm'.live_iff, hm.live_iff, hafter]
    simp only
    constructor
    · rintro ⟨ha, hin | hin | ⟨b, hb, hlow, hhigh⟩⟩
      · exact ⟨⟨ha, .inl hin⟩, by omega⟩
      · exact ⟨⟨ha, .inr (.inl (by omega))⟩, by omega⟩
      · have hbounds := hm.bounds_of_mem hb hlow hhigh
        exact ⟨⟨ha, .inr (.inr ⟨b, hb, hlow, hhigh⟩)⟩, by omega⟩
    · rintro ⟨⟨ha, hin | hin | hblock⟩, hne⟩
      · exact ⟨ha, .inl hin⟩
      · exact ⟨ha, .inr (.inl (by omega))⟩
      · exact ⟨ha, .inr (.inr hblock)⟩

theorem exists_push_iff : (∃ address m', m.push value = .ok (address, m')) ↔
    m.heapTop + 4 ≤ m.stackTop := by
  constructor
  · rintro ⟨address, m', h⟩
    obtain ⟨hheap, hstack, _⟩ := push_eq_ok h
    omega
  · intro hroom
    exact ⟨_, _, if_neg (by omega)⟩

/-- A value is popped as long as there is a cell on the stack. -/
theorem WellFormed.exists_pop_iff (hm : m.WellFormed) :
    (∃ value m', m.pop = .ok (value, m')) ↔ ∃ a, m.OnStack a := by
  constructor
  · rintro ⟨value, m', h⟩
    exact ⟨_, (hm.popped h).lowest.1⟩
  · rintro ⟨a, ha⟩
    have hstack := hm.onStack_iff.mp ha
    exact ⟨_, _, if_neg (by omega)⟩

/-! ### Blocks -/

/-- From the machine `m` to the machine `m'`, a block was added: all of its cells are zero, and
every cell that was live in any machine that became `m` lies in front of it. -/
structure Allocated (m m' : Machine) (base cells : Int) : Prop where
  region_eq : m'.region? base cells = some .dynamic
  zeroed : ∀ i, 0 ≤ i → i < cells → m'.cell? (base + 4 * i) = some 0
  live_iff : ∀ a, m'.Live a ↔ m.Live a ∨ InCells base cells a
  never_live : ∀ m₀ : Machine, m₀.Reachable → m₀.DrivenTo m → ∀ a, m₀.Live a → a + 4 ≤ base

theorem WellFormed.allocated (hm : m.WellFormed) (h : m.allocBlock? cells = some (base, m')) :
    Allocated m m' base cells := by
  have hm' := hm.allocBlock? h
  obtain ⟨hcells, hbase, _, hafter⟩ := allocBlock?_eq_some h
  have haligned := hm.nextBlock_aligned
  have hnew : (⟨base, ⟨cells.toNat, []⟩⟩ : Block) ∈ m'.blocks := by simp [hafter, hbase]
  have hlimit : (⟨base, ⟨cells.toNat, []⟩⟩ : Block).limit = base + 4 * cells := by
    simp only [Block.limit]
    omega
  have hregion : m'.region? base cells = some .dynamic :=
    hm'.region?_eq_dynamic_iff.mpr
      ⟨by omega, hcells, _, hnew, Int.le_refl _, Int.le_of_eq hlimit.symm⟩
  refine ⟨hregion, fun i hi hlt => ?_, fun a => ?_, ?_⟩
  · have hfound : m'.blockAt? (base + 4 * i) 4 = some ⟨base, ⟨cells.toNat, []⟩⟩ :=
      (hm'.blockAt?_eq_some_iff (by decide)).mpr ⟨hnew, by simp only; omega, by omega⟩
    rw [cell?, hm'.region?_part hregion i 1 hi (by decide) (by omega)]
    simp [hfound, Storage.get?]
    omega
  · rw [hm'.live_iff, hm.live_iff, hafter]
    simp only [List.mem_cons, exists_eq_or_imp]
    rw [← hbase, hlimit]
    constructor
    · rintro ⟨ha, hin | hin | hin | hblock⟩
      · exact .inl ⟨ha, .inl hin⟩
      · exact .inl ⟨ha, .inr (.inl hin)⟩
      · exact .inr ⟨(a - base) / 4, by omega⟩
      · exact .inl ⟨ha, .inr (.inr hblock)⟩
    · rintro (⟨ha, hin | hin | hblock⟩ | ⟨i, hi, hlt, rfl⟩)
      · exact ⟨ha, .inl hin⟩
      · exact ⟨ha, .inr (.inl hin)⟩
      · exact ⟨ha, .inr (.inr (.inr hblock))⟩
      · exact ⟨by omega, .inr (.inr (.inl (by omega)))⟩
  · intro m₀ hm₀ driven a live
    -- a block begins where all blocks so far have ended, and no step moves that place back
    have hbounds := hm₀.wellFormed.bounds_of_live live
    have hnext := driven.extends.nextBlock_le
    omega

theorem WellFormed.exists_allocBlock?_iff (hm : m.WellFormed) :
    (∃ base m', m.allocBlock? cells = some (base, m')) ↔
      0 < cells ∧ m.nextBlock + 4 * cells ≤ Cell.maxValue := by
  have hend := hm.dataEnd_eq
  have hnext := hm.dataEnd_le_nextBlock
  constructor
  · rintro ⟨base, m', h⟩
    obtain ⟨hcells, _, hlast, _⟩ := allocBlock?_eq_some h
    exact ⟨hcells, hlast⟩
  · rintro ⟨hcells, hlast⟩
    have hspan : Cell.span? cells = some (4 * cells) :=
      span?_eq_some_iff.mpr ⟨rfl, by omega, by omega⟩
    have hroom : 0 < 4 * cells ∧ m.nextBlock + 4 * cells ≤ Cell.maxValue := ⟨by omega, hlast⟩
    simp [Machine.allocBlock?, hspan, hroom]

/-! ### Cells that are live before and after -/

/-- Every cell that is live in both machines has the same value in both. -/
def Keeps (m m' : Machine) : Prop := ∀ a, m.Live a → m'.Live a → m'.cell? a = m.cell? a

theorem Keeps.refl (m : Machine) : m.Keeps m := fun _ _ _ => rfl

/-- It is enough that these cells hold what they held. -/
theorem WellFormed.keeps_of_stored? (hm : m.WellFormed) (hm' : m'.WellFormed)
    (hstored : ∀ a, m.Live a → m'.stored? a = m.stored? a) : m.Keeps m' := by
  intro a live live'
  rw [hm'.cell?_of_live live', hm.cell?_of_live live, hstored a live]

/-- The cell that is written by a push was dead. -/
theorem WellFormed.keeps_push (hm : m.WellFormed) (h : m.push value = .ok (address, m')) :
    m.Keeps m' := by
  refine hm.keeps_of_stored? (hm.push h) fun a live => ?_
  have hne : a ≠ address := by
    rintro rfl
    exact (hm.pushed h).dead live
  rw [hm.stored?_push h, if_neg hne]

theorem WellFormed.keeps_pop (hm : m.WellFormed) (h : m.pop = .ok (value, m')) : m.Keeps m' := by
  refine hm.keeps_of_stored? (hm.pop h) fun a _ => ?_
  obtain ⟨_, _, rfl⟩ := pop_eq_ok h
  rfl

/-- The cells that are zeroed when the heap grows lie between it and the stack. -/
theorem WellFormed.keeps_heapAlloc (hm : m.WellFormed)
    (h : m.heapAlloc cells = .ok (address, m')) : m.Keeps m' := by
  refine hm.keeps_of_stored? (hm.heapAlloc h) fun a live => ?_
  have hbounds := hm.bounds_of_live live
  obtain ⟨_, _, hroom, rfl⟩ := heapAlloc_eq_ok h
  have hkept : (m.data.clear (m.heapTop / 4).toNat ((m.heapTop + 4 * cells) / 4).toNat).get?
      (a / 4).toNat = m.data.get? (a / 4).toNat := by
    rw [Storage.get?_clear, if_neg (by omega)]
  simp only [stored?, hkept]
  rfl

theorem WellFormed.keeps_heapRelease (hm : m.WellFormed) (h : m.heapRelease address = .ok m') :
    m.Keeps m' := by
  refine hm.keeps_of_stored? (hm.heapRelease h) fun a _ => ?_
  obtain ⟨_, _, rfl⟩ := heapRelease_eq_ok h
  rfl

/-- A search for a cell in front of the new block passes over it. -/
theorem WellFormed.keeps_allocBlock? (hm : m.WellFormed)
    (h : m.allocBlock? cells = some (address, m')) : m.Keeps m' := by
  refine hm.keeps_of_stored? (hm.allocBlock? h) fun a live => ?_
  have hbounds := hm.bounds_of_live live
  obtain ⟨_, _, _, rfl⟩ := allocBlock?_eq_some h
  have hpassed : ¬ m.nextBlock ≤ a := by omega
  simp [stored?, blockAt?, hpassed]

theorem WellFormed.keeps_releaseBlock? (hm : m.WellFormed)
    (h : m.releaseBlock? address = some (base, m')) : m.Keeps m' := by
  have hm' := hm.releaseBlock? h
  obtain ⟨b, hb, _, hafter⟩ := releaseBlock?_eq_some h
  have hmem := (mem_of_blockAt? hb).1
  obtain rfl : m' = m.withoutBlock b.base := hafter
  intro a _ live'
  rw [hm.cell?_withoutBlock hmem, if_neg]
  rintro ⟨hlow, hhigh⟩
  have hdead : (m.withoutBlock b.base).region? a 1 = none :=
    (hm.vacated_withoutBlock hmem).region?_eq_none hm' hhigh (by omega)
  simp [Live, hdead] at live'

/-- Whatever end a step moves, it keeps what is live. -/
theorem WellFormed.keeps_perform (hm : m.WellFormed) {step : MachineStep}
    (hstep : step.MovesEnds) : m.Keeps (step.perform m).2 := by
  cases step with
  | push value => exact attempted_keeps (.refl m) fun _ _ h => hm.keeps_push h
  | pop => exact attempted_keeps (.refl m) fun _ _ h => hm.keeps_pop h
  | heapAlloc cells => exact attempted_keeps (.refl m) fun _ _ h => hm.keeps_heapAlloc h
  | heapRelease address =>
    exact attempted_keeps (.refl m) fun _ _ h => hm.keeps_heapRelease (heapRelease_of_map h)
  | allocBlock cells => exact attempted?_keeps (.refl m) fun _ _ h => hm.keeps_allocBlock? h
  | releaseBlock address => exact attempted?_keeps (.refl m) fun _ _ h => hm.keeps_releaseBlock? h
  | _ => exact hstep.elim

/-- The cell at an address is live, and stays so while steps move the ends: the machine `m` becomes
another by such steps only, and the cell is live after each of them. -/
inductive StaysLive (m : Machine) (a : Int) : Machine → Prop where
  | start (live : m.Live a) : StaysLive m a m
  | step {m' : Machine} (stays : StaysLive m a m') (step : MachineStep) (hstep : step.MovesEnds)
      (live : (step.perform m').2.Live a) : StaysLive m a (step.perform m').2

theorem StaysLive.drivenTo (stays : m.StaysLive a m') : m.DrivenTo m' := by
  induction stays with
  | start _ => exact .refl
  | step _ step _ _ ih => exact ih.step step

theorem StaysLive.live (stays : m.StaysLive a m') : m'.Live a := by
  cases stays with
  | start live => exact live
  | step _ _ _ live => exact live

/-- By induction on the steps: as long as a cell stays live, it has the value that it had. -/
theorem StaysLive.cell?_eq (stays : m.StaysLive a m') (hm : m.Reachable) :
    m'.cell? a = m.cell? a := by
  induction stays with
  | start _ => rfl
  | step stays step hstep live ih =>
    have hwf := (stays.drivenTo.reachable hm).wellFormed
    rw [hwf.keeps_perform hstep a stays.live live, ih]

/-- Moving the ends of live storage does no harm to it. Whatever is pushed, popped, granted,
allocated or let go, and however often, a cell has the value that it had for as long as it stays
live. A push makes one cell live, with the value that is pushed; a pop takes the value of the
lowest cell on the stack, if there is one, and makes that cell dead; and the cells of a new block
are zero, and none of them was ever live before. -/
theorem moves_keep_live (hm : m.Reachable) :
    (∀ step : MachineStep, step.MovesEnds → m.Keeps (step.perform m).2) ∧
      (∀ a m', m.StaysLive a m' → m'.cell? a = m.cell? a) ∧
      (∀ value, ((∃ address m', m.push value = .ok (address, m')) ↔
          m.heapTop + 4 ≤ m.stackTop) ∧
        ∀ address m', m.push value = .ok (address, m') → Pushed m m' address value) ∧
      ((∃ value m', m.pop = .ok (value, m')) ↔ ∃ a, m.OnStack a) ∧
      (∀ value m', m.pop = .ok (value, m') → Popped m m' m.stackTop value) ∧
      ∀ cells, ((∃ base m', m.allocBlock? cells = some (base, m')) ↔
          0 < cells ∧ m.nextBlock + 4 * cells ≤ Cell.maxValue) ∧
        ∀ base m', m.allocBlock? cells = some (base, m') → Allocated m m' base cells := by
  have hwf := hm.wellFormed
  exact ⟨fun _ hstep => hwf.keeps_perform hstep, fun _ _ stays => stays.cell?_eq hm,
    fun _ => ⟨exists_push_iff, fun _ _ h => hwf.pushed h⟩, hwf.exists_pop_iff,
    fun _ _ h => hwf.popped h, fun _ => ⟨hwf.exists_allocBlock?_iff, fun _ _ h => hwf.allocated h⟩⟩

/-- A heap that was let go to an address within a cell, with one cell between it and the stack. Heap
and stack may both take that cell, and what they hold themselves keeps its value. -/
theorem moves_keep_stack_and_heap :
    let m := [MachineStep.heapAlloc 2, .setCell 4 5, .heapRelease 9, .push 7].foldl
      (fun m step => (step.perform m).2)
      (MachineSpec.build { dataCells := 1, heapStackCells := 4 })
    let grown := ((MachineStep.heapAlloc 1).perform m).2
    let pushed := ((MachineStep.push 8).perform m).2
    let popped := ((MachineStep.pop).perform m).2
    let allocated := ((MachineStep.allocBlock 2).perform m).2
    let released := ((MachineStep.heapRelease 8).perform grown).2
    m.Reachable ∧ m.heapTop = 9 ∧ m.stackTop = 16 ∧
      m.Keeps grown ∧ grown.cell? 4 = some 5 ∧ Pushed m pushed 12 8 ∧ Popped m popped 16 7 ∧
      Allocated m allocated 20 2 ∧ m.StaysLive 16 released ∧ released.cell? 16 = some 7 := by
  intro m grown pushed popped allocated released
  have hm : m.Reachable :=
    ((((Reachable.built _ (by decide)).step _).step _).step _).step _
  obtain ⟨hkeeps, hstays, hpush, _, hpop, halloc⟩ := moves_keep_live hm
  have hgrown : m.Keeps grown := hkeeps (.heapAlloc 1) trivial
  have hheap : grown.cell? 4 = some 5 := hgrown 4 (by decide) (by decide)
  have stays : m.StaysLive 16 released :=
    ((StaysLive.start (by decide)).step (.heapAlloc 1) trivial (by decide)).step
      (.heapRelease 8) trivial (by decide)
  exact ⟨hm, by decide, by decide, hgrown, hheap, (hpush 8).2 12 pushed rfl,
    hpop 7 popped rfl, (halloc 2).2 20 allocated rfl, stays, hstays 16 released stays⟩

end Machine

end ScriptNatives
