import ScriptNatives.Proofs.Machine.Layout
import ScriptNatives.Scenario.MachineStep

/-!
# Machines that are driven by hand

Whatever steps a machine is driven by, with whatever arguments, its parts stay where they belong.
So no step reaches for a cell beyond the data block, and one that fails has changed nothing.
-/
namespace ScriptNatives

open Scenario (MachineSpec MachineStep MachineAnswer)

namespace Machine

variable {m m' : Machine} {address cells : Int} {value : Cell}

/-! ### Stack, heap and blocks -/

theorem push_eq_ok (h : m.push value = .ok (address, m')) :
    m.heapTop ≤ address ∧ m.stackTop = address + 4 ∧
      m' = { m with stackTop := address, data := m.data.set (address / 4).toNat value } := by
  unfold push at h
  split at h
  · cases h
  · obtain ⟨rfl, rfl⟩ := Prod.mk.inj (Except.ok.inj h)
    exact ⟨by omega, by omega, rfl⟩

theorem pop_eq_ok (h : m.pop = .ok (value, m')) :
    m.stackTop < m.dataEnd ∧ value = (m.data.get? (m.stackTop / 4).toNat).getD 0 ∧
      m' = { m with stackTop := m.stackTop + 4 } := by
  unfold pop at h
  split at h
  · cases h
  · obtain ⟨rfl, rfl⟩ := Prod.mk.inj (Except.ok.inj h)
    exact ⟨by omega, rfl, rfl⟩

theorem span?_eq_some_iff {count bytes : Int} :
    Cell.span? count = some bytes ↔
      bytes = 4 * count ∧ -0x80000000 ≤ bytes ∧ bytes ≤ Cell.maxValue := by
  unfold Cell.span?
  split
  · simp only [Option.some.injEq]
    omega
  · simp only [reduceCtorEq, false_iff]
    omega

theorem heapAlloc_eq_ok (h : m.heapAlloc cells = .ok (address, m')) :
    0 < cells ∧ address = m.heapTop ∧ m.heapTop + 4 * cells ≤ m.stackTop ∧
      m' = { m with
        heapTop := m.heapTop + 4 * cells
        data := m.data.clear (m.heapTop / 4).toNat ((m.heapTop + 4 * cells) / 4).toNat } := by
  unfold heapAlloc at h
  cases hspan : Cell.span? cells with
  | none => simp [hspan] at h
  | some bytes =>
    obtain ⟨rfl, _, _⟩ := span?_eq_some_iff.mp hspan
    simp only [hspan] at h
    split at h
    · obtain ⟨rfl, rfl⟩ := Prod.mk.inj (Except.ok.inj h)
      exact ⟨by omega, rfl, by omega, rfl⟩
    · cases h

theorem heapRelease_eq_ok (h : m.heapRelease address = .ok m') :
    m.heapBase ≤ address ∧ address ≤ m.heapTop ∧ m' = { m with heapTop := address } := by
  unfold heapRelease at h
  split at h
  · cases h
  · obtain rfl := Except.ok.inj h
    exact ⟨by omega, by omega, rfl⟩

theorem allocBlock?_eq_some (h : m.allocBlock? cells = some (address, m')) :
    0 < cells ∧ address = m.nextBlock ∧ m.nextBlock + 4 * cells ≤ Cell.maxValue ∧
      m' = { m with
        nextBlock := m.nextBlock + 4 * cells
        blocks := ⟨m.nextBlock, ⟨cells.toNat, []⟩⟩ :: m.blocks } := by
  obtain ⟨bytes, hspan, h⟩ := Option.bind_eq_some_iff.mp h
  obtain ⟨rfl, _, _⟩ := span?_eq_some_iff.mp hspan
  split at h
  · obtain ⟨rfl, rfl⟩ := Prod.mk.inj (Option.some.inj h)
    exact ⟨by omega, rfl, by omega, rfl⟩
  · cases h

theorem releaseBlock?_eq_some {base : Int} (h : m.releaseBlock? address = some (base, m')) :
    ∃ b, m.blockAt? address 4 = some b ∧ base = b.base ∧
      m' = { m with blocks := m.blocks.filter fun c => c.base != b.base } := by
  unfold releaseBlock? at h
  split at h
  · cases h
  · obtain ⟨b, hb, h⟩ := Option.bind_eq_some_iff.mp h
    obtain ⟨rfl, rfl⟩ := Prod.mk.inj (Option.some.inj h)
    exact ⟨b, hb, rfl, rfl⟩

theorem WellFormed.push (hm : m.WellFormed) (h : m.push value = .ok (address, m')) :
    m'.WellFormed := by
  obtain ⟨hheap, hstack, rfl⟩ := push_eq_ok h
  have haligned := hm.stackTop_aligned
  have hend := hm.stackTop_le
  exact { hm with
    heapTop_le := hheap
    stackTop_le := by simp only; omega
    dataEnd_eq := by simpa [Storage.size_set] using hm.dataEnd_eq
    stackTop_aligned := by simp only; omega }

theorem WellFormed.pop (hm : m.WellFormed) (h : m.pop = .ok (value, m')) : m'.WellFormed := by
  obtain ⟨hend, _, rfl⟩ := pop_eq_ok h
  have haligned := hm.stackTop_aligned
  have hheap := hm.heapTop_le
  have hsize := hm.dataEnd_eq
  exact { hm with
    heapTop_le := by simp only; omega
    stackTop_le := by simp only; omega
    stackTop_aligned := by simp only; omega }

theorem WellFormed.heapAlloc (hm : m.WellFormed) (h : m.heapAlloc cells = .ok (address, m')) :
    m'.WellFormed := by
  obtain ⟨hcells, _, hstack, rfl⟩ := heapAlloc_eq_ok h
  have hheap := hm.heapBase_le
  exact { hm with
    heapBase_le := by simp only; omega
    heapTop_le := hstack
    dataEnd_eq := by simpa [Storage.size_clear] using hm.dataEnd_eq }

theorem WellFormed.heapRelease (hm : m.WellFormed) (h : m.heapRelease address = .ok m') :
    m'.WellFormed := by
  obtain ⟨hbase, htop, rfl⟩ := heapRelease_eq_ok h
  have hstack := hm.heapTop_le
  exact { hm with
    heapBase_le := hbase
    heapTop_le := by simp only; omega }

theorem WellFormed.allocBlock? (hm : m.WellFormed)
    (h : m.allocBlock? cells = some (address, m')) : m'.WellFormed := by
  obtain ⟨hcells, _, hlast, rfl⟩ := allocBlock?_eq_some h
  have haligned := hm.nextBlock_aligned
  have hnext := hm.dataEnd_le_nextBlock
  exact { hm with
    block_nonempty := by
      refine List.forall_mem_cons.mpr ⟨?_, hm.block_nonempty⟩
      simp only
      omega
    block_aligned := List.forall_mem_cons.mpr ⟨haligned, hm.block_aligned⟩
    dataEnd_le_base := List.forall_mem_cons.mpr ⟨hnext, hm.dataEnd_le_base⟩
    limit_le_nextBlock := by
      refine List.forall_mem_cons.mpr ⟨?_, fun b hb => ?_⟩
      · simp only [Block.limit]
        omega
      · have hlimit := hm.limit_le_nextBlock b hb
        simp only
        omega
    blocks_apart := List.pairwise_cons.mpr ⟨hm.limit_le_nextBlock, hm.blocks_apart⟩
    nextBlock_aligned := by simp only; omega
    dataEnd_le_nextBlock := by simp only; omega
    nextBlock_le := hlast }

theorem WellFormed.releaseBlock? (hm : m.WellFormed) {base : Int}
    (h : m.releaseBlock? address = some (base, m')) : m'.WellFormed := by
  obtain ⟨b, _, _, rfl⟩ := releaseBlock?_eq_some h
  have hmem {c : Block} (hc : c ∈ m.blocks.filter fun c => c.base != b.base) : c ∈ m.blocks :=
    (List.mem_filter.mp hc).1
  exact { hm with
    block_nonempty := fun c hc => hm.block_nonempty c (hmem hc)
    block_aligned := fun c hc => hm.block_aligned c (hmem hc)
    dataEnd_le_base := fun c hc => hm.dataEnd_le_base c (hmem hc)
    limit_le_nextBlock := fun c hc => hm.limit_le_nextBlock c (hmem hc)
    blocks_apart := hm.blocks_apart.filter _ }

theorem WellFormed.raise (hm : m.WellFormed) (status : Status) : (m.raise status).WellFormed :=
  { hm with }

end Machine

/-! ### Single steps -/

namespace Scenario.MachineStep

variable {m : Machine}

/-- A step that may be refused, or may come to nothing, does so. -/
def Fails (m : Machine) (step : MachineStep) : Prop :=
  match step with
  | push _ | pop | heapAlloc _ | heapRelease _ => ∃ fault, (step.perform m).1 = .refused fault
  | allocBlock _ | releaseBlock _ | setCell _ _ | writeText _ _ _ => (step.perform m).1 = .nothing
  | _ => False

theorem attempted_keeps {α : Type} {P : Machine → Prop} {answer : α → MachineAnswer}
    {r : Except MachineFault (α × Machine)} (hm : P m)
    (hr : ∀ a m', r = .ok (a, m') → P m') : P (attempted m answer r).2 := by
  cases r with
  | ok out => exact hr out.1 out.2 rfl
  | error fault => exact hm

theorem attempted?_keeps {α : Type} {P : Machine → Prop} {answer : α → MachineAnswer}
    {r : Option (α × Machine)} (hm : P m)
    (hr : ∀ a m', r = some (a, m') → P m') : P (attempted? m answer r).2 := by
  cases r with
  | some out => exact hr out.1 out.2 rfl
  | none => exact hm

theorem heapRelease_of_map {m' : Machine} {address : Int}
    (h : ((m.heapRelease address).map fun m => ((), m)) = .ok ((), m')) :
    m.heapRelease address = .ok m' := by
  cases hr : m.heapRelease address with
  | error fault => simp [hr, Except.map] at h
  | ok m₁ => simpa [hr, Except.map] using h

theorem layout_exchangeAll (m : Machine) (address : Int) (values : List Cell) :
    (exchangeAll m address values).2.layout = m.layout := by
  induction values generalizing m address with
  | nil => rfl
  | cons value values ih =>
    rw [exchangeAll]
    split
    · next previous m' hexchange =>
      exact (ih m' _).trans (Machine.layout_eq_of_blank_eq (Machine.blank_exchange? hexchange))
    · exact ih m _

/-- Every step keeps a machine well-formed. -/
theorem wellFormed_perform (hm : m.WellFormed) (step : MachineStep) :
    (step.perform m).2.WellFormed := by
  cases step with
  | push value => exact attempted_keeps hm fun _ _ h => hm.push h
  | pop => exact attempted_keeps hm fun _ _ h => hm.pop h
  | heapAlloc cells => exact attempted_keeps hm fun _ _ h => hm.heapAlloc h
  | heapRelease address =>
    exact attempted_keeps hm fun _ _ h => hm.heapRelease (heapRelease_of_map h)
  | allocBlock cells => exact attempted?_keeps hm fun _ _ h => hm.allocBlock? h
  | releaseBlock address => exact attempted?_keeps hm fun _ _ h => hm.releaseBlock? h
  | setCell address value =>
    refine attempted?_keeps hm fun _ _ h => hm.congr ?_
    exact Machine.layout_eq_of_blank_eq (Machine.blank_exchange? h)
  | poke address values => exact hm.congr (layout_exchangeAll m address values)
  | writeText address text size =>
    refine attempted?_keeps hm fun _ _ h => hm.congr ?_
    exact Machine.layout_eq_of_blank_eq (Machine.blank_writeText? h)
  | raise status => exact hm.raise status
  | takeStatus => exact hm.raise .clear
  | _ => exact hm

theorem attempted_of_refused {α : Type} {answer : α → MachineAnswer}
    {r : Except MachineFault (α × Machine)} {fault : MachineFault}
    (hanswer : ∀ a, answer a ≠ .refused fault) (h : (attempted m answer r).1 = .refused fault) :
    (attempted m answer r).2 = m := by
  cases r with
  | ok out => exact absurd h (hanswer out.1)
  | error fault => rfl

theorem attempted?_of_nothing {α : Type} {answer : α → MachineAnswer} {r : Option (α × Machine)}
    (hanswer : ∀ out, r = some out → answer out.1 ≠ .nothing)
    (h : (attempted? m answer r).1 = .nothing) : (attempted? m answer r).2 = m := by
  cases r with
  | some out => exact absurd h (hanswer out rfl)
  | none => rfl

/-- A step that fails leaves a well-formed machine as it is. -/
theorem perform_of_fails (hm : m.WellFormed) {step : MachineStep} (hfails : step.Fails m) :
    (step.perform m).2 = m := by
  cases step with
  | push _ | pop | heapAlloc _ | heapRelease _ =>
    obtain ⟨fault, hrefused⟩ := hfails
    exact attempted_of_refused (fun _ => nofun) hrefused
  | allocBlock _ | releaseBlock _ | setCell _ _ =>
    exact attempted?_of_nothing (fun _ _ => nofun) hfails
  | writeText address text size =>
    refine attempted?_of_nothing (fun out hout => ?_) hfails
    obtain ⟨n, hn⟩ := Option.isSome_iff_exists.mp (hm.writeText?_completes hout)
    rw [hn]
    nofun
  | _ => exact hfails.elim

end Scenario.MachineStep

/-! ### Any number of steps -/

namespace Machine

variable {m : Machine}

/-- The machines that can be had: built with a data block that ends at an address, and driven by any
steps. -/
inductive Reachable : Machine → Prop where
  | built (spec : MachineSpec)
      (fits : 4 * ((spec.dataCells : Int) + spec.heapStackCells) ≤ Cell.maxValue) :
      Reachable spec.build
  | step {m : Machine} (reachable : Reachable m) (step : MachineStep) :
      Reachable (step.perform m).2

/-- A machine becomes another by any steps. -/
inductive DrivenTo (m : Machine) : Machine → Prop where
  | refl : DrivenTo m m
  | step {m' : Machine} (driven : DrivenTo m m') (step : MachineStep) :
      DrivenTo m (step.perform m').2

theorem DrivenTo.trans {m' m'' : Machine} (first : m.DrivenTo m') (second : m'.DrivenTo m'') :
    m.DrivenTo m'' := by
  induction second with
  | refl => exact first
  | step _ step ih => exact .step ih step

theorem DrivenTo.reachable {m' : Machine} (driven : m.DrivenTo m') (hm : m.Reachable) :
    m'.Reachable := by
  induction driven with
  | refl => exact hm
  | step _ step ih => exact .step ih step

theorem drivenTo_raise (m : Machine) (status : Status) : m.DrivenTo (m.raise status) :=
  .step .refl (.raise status)

theorem drivenTo_exchange? {address : Int} {value : Cell} {out : Cell × Machine}
    (h : m.exchange? address value = some out) : m.DrivenTo out.2 := by
  have hstep := DrivenTo.refl.step (m := m) (.setCell address value)
  rwa [MachineStep.perform, h] at hstep

theorem drivenTo_releaseBlock? {address : Int} {out : Int × Machine}
    (h : m.releaseBlock? address = some out) : m.DrivenTo out.2 := by
  have hstep := DrivenTo.refl.step (m := m) (.releaseBlock address)
  rwa [MachineStep.perform, h] at hstep

theorem drivenTo_writeText? {address size : Int} {text : String} {out : Option Nat × Machine}
    (h : m.writeText? address text size = some out) : m.DrivenTo out.2 := by
  have hstep := DrivenTo.refl.step (m := m) (.writeText address text (some size))
  rwa [MachineStep.perform, Option.getD_some, h] at hstep

theorem drivenTo_setCells (hm : m.WellFormed) (address : Int) (values : List Cell) :
    m.DrivenTo (m.setCells address values).2 := by
  induction values generalizing m address with
  | nil => exact .refl
  | cons value values ih =>
    rw [setCells]
    split
    · next m' hset =>
      -- a cell that can be written also has a value, so the exchange is the same write
      have hlive : (m.cell? address).isSome = true := by
        rw [hm.isSome_cell?, ← isSome_setCell? m address value, hset]
        rfl
      obtain ⟨previous, hprevious⟩ := Option.isSome_iff_exists.mp hlive
      have hexchange : m.exchange? address value = some (previous, m') := by
        simp [exchange?, hprevious, hset]
      have hlayout := layout_eq_of_blank_eq (blank_setCell? hset)
      exact (drivenTo_exchange? hexchange).trans (ih (hm.congr hlayout) _)
    · exact .refl

theorem drivenTo_store? (hm : m.WellFormed) {address : Int} {values : List Cell}
    {out : Option Int × Machine} (h : m.store? address values = some out) :
    m.DrivenTo out.2 := by
  obtain ⟨_, rfl⟩ := store?_eq_some h
  exact drivenTo_setCells hm _ _

theorem layout_foldl {α : Type} (f : Machine → α → Machine) (hf : ∀ m a, (f m a).layout = m.layout)
    (m : Machine) (l : List α) : (l.foldl f m).layout = m.layout := by
  induction l generalizing m with
  | nil => rfl
  | cons a l ih => rw [List.foldl_cons, ih, hf]

/-- What a machine declares has no part in its layout. -/
theorem layout_build (spec : MachineSpec) :
    spec.build.layout = (ofLayout spec.name spec.dataCells spec.heapStackCells).layout := by
  have hnatives := layout_foldl fun (m : Machine) (entry : String × Nat) =>
    m.declareNative entry.1 entry.2
  have hvars := layout_foldl fun (m : Machine) (entry : String × Int) =>
    m.declarePublicVar entry.1 entry.2
  calc spec.build.layout
    _ = _ := hnatives (fun _ _ => rfl) _ spec.natives
    _ = _ := hvars (fun _ _ => rfl) _ spec.publicVars
    _ = _ := layout_foldl declarePublic (fun _ _ => rfl) _ spec.publics

theorem Reachable.wellFormed (hm : m.Reachable) : m.WellFormed := by
  induction hm with
  | built spec fits => exact (wellFormed_ofLayout spec.name fits).congr (layout_build spec)
  | step _ step ih => exact MachineStep.wellFormed_perform ih step

/-- Every machine that can be had is well-formed. So a push writes and a pop reads a cell of the
data block, a heap that grows zeroes cells of the data block, and every block ends at an address.
And a step that fails leaves the machine as it is: even a text is written to its end or not at
all. -/
theorem storage_of_reachable (hm : m.Reachable) :
    m.WellFormed ∧
      (∀ value address m', m.push value = .ok (address, m') →
        0 ≤ address ∧ (address / 4).toNat < m.data.size) ∧
      (∀ value m', m.pop = .ok (value, m') →
        0 ≤ m.stackTop ∧ m.data.get? (m.stackTop / 4).toNat = some value) ∧
      (∀ cells address m', m.heapAlloc cells = .ok (address, m') →
        0 ≤ address ∧ address ≤ m'.heapTop ∧ (m'.heapTop / 4).toNat ≤ m.data.size) ∧
      (∀ b ∈ m.blocks, 0 ≤ b.base ∧ b.limit ≤ Cell.maxValue) ∧
      ∀ step : MachineStep, step.Fails m → (step.perform m).2 = m := by
  have hwf := hm.wellFormed
  have hbase := hwf.heapBase_nonneg
  have htop := hwf.heapBase_le
  have hstack := hwf.heapTop_le
  have hend := hwf.stackTop_le
  have hsize := hwf.dataEnd_eq
  refine ⟨hwf, fun value address m' h => ?_, fun value m' h => ?_, fun cells address m' h => ?_,
    fun b hb => ?_, fun step hfails => MachineStep.perform_of_fails hwf hfails⟩
  · obtain ⟨hheap, hbelow, _⟩ := push_eq_ok h
    omega
  · obtain ⟨hbelow, hvalue, _⟩ := pop_eq_ok h
    have hlive : (m.stackTop / 4).toNat < m.data.size := by
      have haligned := hwf.stackTop_aligned
      omega
    cases hget : m.data.get? (m.stackTop / 4).toNat with
    | none =>
      rw [Storage.get?_eq_none_iff] at hget
      omega
    | some found =>
      rw [hvalue, hget]
      exact ⟨by omega, rfl⟩
  · obtain ⟨hcells, rfl, hroom, rfl⟩ := heapAlloc_eq_ok h
    refine ⟨by omega, ?_, ?_⟩ <;> simp only <;> omega
  · have hblock := hwf.dataEnd_le_base b hb
    have hlimit := hwf.limit_le_nextBlock b hb
    have hlast := hwf.nextBlock_le
    omega

/-- A heap that was let go to an unaligned address, two blocks of which the first was released, and
a text that finds no room. -/
theorem storage_of_driven_machine :
    let steps : List MachineStep := [.heapAlloc 2, .heapRelease 9, .allocBlock 2, .allocBlock 1,
      .releaseBlock 28, .push 7]
    let m := steps.foldl (fun m step => (step.perform m).2)
      (MachineSpec.build { dataCells := 1, heapStackCells := 5 })
    m.Reachable ∧ m.WellFormed ∧ m.heapTop = 9 ∧ m.stackTop = 20 ∧ m.blocks.length = 1 ∧
      ((MachineStep.writeText 4 "ab" none).perform m).2 = m := by
  intro steps m
  have hm : m.Reachable :=
    (((((Reachable.built _ (by decide)).step _).step _).step _).step _).step _ |>.step _
  obtain ⟨hwf, _, _, _, _, hfails⟩ := storage_of_reachable hm
  exact ⟨hm, hwf, by decide, by decide, by decide, hfails (.writeText 4 "ab" none) rfl⟩

end Machine

end ScriptNatives
