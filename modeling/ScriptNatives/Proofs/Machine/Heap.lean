import ScriptNatives.Proofs.Machine.Moves

/-!
# What the heap grants

The heap may be let go to any address in it, and the next cells that it grants are reported at that
address, even if it is not the address of a cell. The cells themselves are there: they begin at
the address rounded down to a cell, all of them zero, and none of them was live before. As long as
the heap is let go to addresses of cells only, the two agree.
-/
namespace ScriptNatives

open Scenario (MachineSpec MachineStep)

namespace Machine

variable {m m' : Machine} {address cells base : Int}

/-- The cells from an address on were not live in the machine `m` and are live, zeroed cells of the
data block in the machine `m'`. -/
structure Granted (m m' : Machine) (address cells : Int) : Prop where
  live : (m'.region? address 1).isSome = true
  region_eq : m'.region? address cells = some .data
  zeroed : ∀ i, 0 ≤ i → i < cells → m'.cell? (address + 4 * i) = some 0
  below_stack : address + 4 * cells ≤ m.stackTop
  apart : ∀ other, (m.region? other 1).isSome = true →
    other + 4 ≤ address ∨ address + 4 * cells ≤ other

/-- The heap grants the cells from the first one that it does not hold yet. -/
theorem WellFormed.granted_of_heapAlloc (hm : m.WellFormed)
    (h : m.heapAlloc cells = .ok (base, m')) : Granted m m' (base - base % 4) cells := by
  have hm' := hm.heapAlloc h
  obtain ⟨hcells, rfl, hroom, hafter⟩ := heapAlloc_eq_ok h
  have htop : m'.heapTop = m.heapTop + 4 * cells := by rw [hafter]
  have hnonneg := hm.heapBase_nonneg
  have hheap := hm.heapBase_le
  have hregion : m'.region? (m.heapTop - m.heapTop % 4) cells = some .data := by
    rw [region?_eq_data_iff]
    omega
  have hpart (i : Int) (hi : 0 ≤ i) (hlt : i < cells) :=
    hm'.region?_part hregion i 1 hi (by omega) (by omega)
  refine ⟨?_, hregion, fun i hi hlt => ?_, by omega, fun other live => ?_⟩
  · have hfirst := hpart 0 (by omega) hcells
    rw [Int.mul_zero, Int.add_zero] at hfirst
    rw [hfirst]
    rfl
  · have hstack := hm.stackTop_le
    have hsize := hm.dataEnd_eq
    rw [cell?_of_data (hpart i hi hlt), hafter, Storage.get?_clear, if_pos (by omega)]
  · have hbounds := hm.bounds_of_live live
    omega

end Machine

/-! ### Letting go of cells only -/

/-- If the step lets the heap go, then to the address of a cell. -/
def Scenario.MachineStep.LetsGoOfCells : MachineStep → Prop
  | heapRelease address => address % 4 = 0
  | _ => True

namespace Machine

variable {m m' : Machine} {address cells base : Int}

/-- The next cells that the heap grants begin where it ends. -/
def EndsAtCell (m : Machine) : Prop := m.heapTop % 4 = 0

theorem EndsAtCell.congr (hm : m.EndsAtCell) (h : m'.layout = m.layout) : m'.EndsAtCell := by
  rwa [EndsAtCell, show m'.heapTop = m.heapTop from congrArg Layout.heapTop h]

/-- A step moves the top of the heap by whole cells, unless it lets the heap go. -/
theorem endsAtCell_perform (hm : m.EndsAtCell) {step : MachineStep} (hstep : step.LetsGoOfCells) :
    (step.perform m).2.EndsAtCell := by
  cases step with
  | push value =>
    refine MachineStep.attempted_keeps hm fun _ _ h => ?_
    obtain ⟨_, _, rfl⟩ := push_eq_ok h
    exact hm
  | pop =>
    refine MachineStep.attempted_keeps hm fun _ _ h => ?_
    obtain ⟨_, _, rfl⟩ := pop_eq_ok h
    exact hm
  | heapAlloc cells =>
    refine MachineStep.attempted_keeps hm fun _ _ h => ?_
    obtain ⟨_, _, _, rfl⟩ := heapAlloc_eq_ok h
    simp only [EndsAtCell] at hm ⊢
    omega
  | heapRelease address =>
    refine MachineStep.attempted_keeps hm fun _ _ h => ?_
    obtain ⟨_, _, rfl⟩ := heapRelease_eq_ok (MachineStep.heapRelease_of_map h)
    exact hstep
  | allocBlock cells =>
    refine MachineStep.attempted?_keeps hm fun _ _ h => ?_
    obtain ⟨_, _, _, rfl⟩ := allocBlock?_eq_some h
    exact hm
  | releaseBlock address =>
    refine MachineStep.attempted?_keeps hm fun _ _ h => ?_
    obtain ⟨_, _, _, rfl⟩ := releaseBlock?_eq_some h
    exact hm
  | setCell address value =>
    refine MachineStep.attempted?_keeps hm fun _ _ h => hm.congr ?_
    exact layout_eq_of_blank_eq (blank_exchange? h)
  | poke address values => exact hm.congr (MachineStep.layout_exchangeAll m address values)
  | writeText address text size =>
    refine MachineStep.attempted?_keeps hm fun _ _ h => hm.congr ?_
    exact layout_eq_of_blank_eq (blank_writeText? h)
  | _ => exact hm

/-- The machines that can be had if the heap is let go to addresses of cells only. -/
inductive Tidy : Machine → Prop where
  | built (spec : MachineSpec) : Tidy spec.build
  | step {m : Machine} (tidy : Tidy m) {step : MachineStep} (hstep : step.LetsGoOfCells) :
      Tidy (step.perform m).2

theorem Tidy.endsAtCell (tidy : m.Tidy) : m.EndsAtCell := by
  induction tidy with
  | built spec =>
    rw [EndsAtCell, show spec.build.heapTop = 4 * (spec.dataCells : Int) from
      congrArg Layout.heapTop (layout_build spec)]
    omega
  | step _ hstep ih => exact endsAtCell_perform ih hstep

/-- The cells that the heap grants are live and zeroed, none of them was live before, and none of
them is on the stack; but they begin at the reported address only if that is the address of a cell.
It is, as long as the heap was let go to addresses of cells only. -/
theorem heapAlloc_grants (hm : m.Reachable) (h : m.heapAlloc cells = .ok (base, m')) :
    Granted m m' (base - base % 4) cells ∧ (Granted m m' base cells ↔ base % 4 = 0) ∧
      (m.Tidy → Granted m m' base cells) := by
  have hfirst := hm.wellFormed.granted_of_heapAlloc h
  have haligned (hbase : base % 4 = 0) : Granted m m' base cells := by
    rwa [hbase, Int.sub_zero] at hfirst
  refine ⟨hfirst, ⟨fun granted => ?_, haligned⟩, fun tidy => haligned ?_⟩
  · exact (region?_eq_data_iff.mp granted.region_eq).2.1
  · obtain ⟨_, rfl, _⟩ := heapAlloc_eq_ok h
    exact tidy.endsAtCell

/-- A heap grants two cells, is let go to an address within the second, and grants that one again,
but reports it at the address within. -/
theorem heapAlloc_grants_again :
    let m := MachineSpec.build { dataCells := 1, heapStackCells := 5 }
    let m₁ := ((MachineStep.heapAlloc 2).perform m).2
    let m₂ := ((MachineStep.heapRelease 9).perform m₁).2
    let m₃ := ((MachineStep.heapAlloc 1).perform m₂).2
    m.Tidy ∧ m.heapAlloc 2 = .ok (4, m₁) ∧ Granted m m₁ 4 2 ∧
      m₂.Reachable ∧ m₂.heapAlloc 1 = .ok (9, m₃) ∧ Granted m₂ m₃ 8 1 ∧ ¬ Granted m₂ m₃ 9 1 := by
  intro m m₁ m₂ m₃
  have hm : m.Reachable := .built _ (by decide)
  have h : m.heapAlloc 2 = .ok (4, m₁) := by rfl
  have h₂ : m₂.heapAlloc 1 = .ok (9, m₃) := by rfl
  have hm₂ : m₂.Reachable := (hm.step _).step _
  obtain ⟨_, _, htidy⟩ := heapAlloc_grants hm h
  obtain ⟨hrounded, haligned, _⟩ := heapAlloc_grants hm₂ h₂
  exact ⟨.built _, h, htidy (.built _), hm₂, h₂, hrounded,
    fun granted => absurd (haligned.mp granted) (by decide)⟩

/-- So it is not true that the cells that the heap grants begin at the reported address. -/
theorem heapAlloc_reports_no_cell :
    ¬ ∀ (m m' : Machine) (cells base : Int), m.Reachable → m.heapAlloc cells = .ok (base, m') →
      Granted m m' base cells := by
  intro hclaim
  let spec : MachineSpec := { dataCells := 1, heapStackCells := 5 }
  let m := ((MachineStep.heapRelease 9).perform ((MachineStep.heapAlloc 2).perform spec.build).2).2
  have hm : m.Reachable := ((Reachable.built _ (by decide)).step _).step _
  have granted := hclaim m ((MachineStep.heapAlloc 1).perform m).2 1 9 hm rfl
  exact absurd granted.live (by decide)

end Machine

end ScriptNatives
