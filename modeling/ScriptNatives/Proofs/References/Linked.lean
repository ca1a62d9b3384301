import ScriptNatives.Proofs.Machine.Runs
import ScriptNatives.World.References

/-!
# Ranges whose cells are all live

In the data block there are two stretches of live storage: static data with the heap on top, and the
stack. A range is found live there if it lies in one of them. Most of the time that is no
restriction, since there is dead storage between the two, and a range whose cells are all live
cannot run across it. But a heap that has grown up to the stack leaves none. Then a range that runs
from the one into the other is refused, although each of its cells is live.
-/
namespace ScriptNatives

open Scenario (MachineSpec MachineStep)

namespace Machine

variable {m : Machine} {address count : Int}

/-- Each of `count` cells from an address on is live storage of the data block, looked at by
itself. -/
def LiveData (m : Machine) (address count : Int) : Prop :=
  ∀ i, 0 ≤ i → i < count → m.region? (address + 4 * i) 1 = some .data

theorem liveData_two (hfirst : m.region? address 1 = some .data)
    (hsecond : m.region? (address + 4) 1 = some .data) : m.LiveData address 2 := by
  intro i hnonneg hlt
  obtain rfl | rfl : i = 0 ∨ i = 1 := by omega
  · rwa [Int.mul_zero, Int.add_zero]
  · rwa [Int.mul_one]

/-- Heap and stack meet, and a range runs from below the place where they do to beyond it. -/
structure Straddles (m : Machine) (address count : Int) : Prop where
  full : m.heapTop = m.stackTop
  begins : address < m.heapTop
  ends : m.stackTop < address + 4 * count

/-- A range begins with its first cell and ends with its last one. -/
theorem LiveData.bounds (live : m.LiveData address count) (hm : m.WellFormed) (hcount : 0 < count) :
    0 ≤ address ∧ address % 4 = 0 ∧ address + 4 * count ≤ m.dataEnd := by
  have hheap := hm.heapTop_le
  have hstack := hm.stackTop_le
  have hfirst := region?_eq_data_iff.mp (live 0 (Int.le_refl 0) hcount)
  have hlast := region?_eq_data_iff.mp (live (count - 1) (by omega) (by omega))
  omega

/-- A range that begins below the top of the heap and ends above it has a cell that does so, too. If
that cell is live, it is the first one of the stack. -/
theorem LiveData.straddles (live : m.LiveData address count) (hm : m.WellFormed)
    (hcount : 0 < count) (hheap : m.heapTop < address + 4 * count)
    (hstack : address < m.stackTop) : m.Straddles address count := by
  have hle := hm.heapTop_le
  have hfirst := region?_eq_data_iff.mp (live 0 (Int.le_refl 0) hcount)
  have hbegins : address < m.heapTop := by omega
  let i := (m.heapTop - address) / 4
  have hi : 0 ≤ i ∧ i < count := by omega
  have hacross := region?_eq_data_iff.mp (live i hi.1 hi.2)
  have hmeet : m.heapTop = m.stackTop := by omega
  exact ⟨hmeet, hbegins, by omega⟩

/-- Live cells make a live range as long as the range does not run from the heap into the stack. -/
theorem LiveData.region?_eq_data (live : m.LiveData address count) (hm : m.WellFormed)
    (hcount : 0 < count) (hclear : ¬ m.Straddles address count) :
    m.region? address count = some .data := by
  obtain ⟨hnonneg, haligned, hend⟩ := live.bounds hm hcount
  refine region?_eq_data_iff.mpr ⟨hnonneg, haligned, hcount, ?_⟩
  by_cases hheap : address + 4 * count ≤ m.heapTop
  · exact .inl hheap
  · by_cases hstack : m.stackTop ≤ address
    · exact .inr ⟨hstack, hend⟩
    · exact absurd (live.straddles hm hcount (by omega) (by omega)) hclear

/-- A range that runs from the heap into the stack is not live as a whole. -/
theorem Straddles.region?_eq_none (hs : m.Straddles address count) (hm : m.WellFormed) :
    m.region? address count = none := by
  have hfull := hs.full
  have hbegins := hs.begins
  have hends := hs.ends
  cases hr : m.region? address count with
  | none => rfl
  | some r =>
    cases r with
    | data =>
      have hin := region?_eq_data_iff.mp hr
      omega
    | dynamic =>
      -- dynamic blocks are behind the stack
      obtain ⟨_, _, b, hb, hbase, _⟩ := hm.region?_eq_dynamic_iff.mp hr
      have hend := hm.dataEnd_le_base b hb
      have hstack := hm.stackTop_le
      omega

/-! ### Buffers -/

theorem isSome_store? (m : Machine) (address : Int) (values : List Cell) :
    (m.store? address values).isSome = (m.region? address values.length).isSome := by
  cases hr : m.region? address values.length <;> simp [store?, hr]

theorem isSome_writeText? (m : Machine) (address : Int) (text : String) (size : Int) :
    (m.writeText? address text size).isSome = (m.region? address size).isSome := by
  cases hr : m.region? address size <;> simp [writeText?, hr]

end Machine

/-! ### Variables -/

namespace World

variable {σ : Type} {w : World σ} {v : Var} {m : Machine}

theorem varRegion?_eq (hm : w.machine? v.owner = some m) :
    w.varRegion? v = m.region? v.address v.size := by
  simp [varRegion?, hm]

end World

namespace Machine

variable {σ : Type} {m : Machine} {address count : Int}

/-- What the region of a range decides: whether a buffer there is accepted for cells and for a text,
and whether a variable of these cells is linked, and inside. -/
structure Judged (σ : Type) (m : Machine) (address count : Int) (r : Option Region) : Prop where
  region?_eq : m.region? address count = r
  store : ∀ values : List Cell, (values.length : Int) = count →
    (m.store? address values).isSome = r.isSome
  writeText : ∀ text, (m.writeText? address text count).isSome = r.isSome
  linked : ∀ (w : World σ) (v : Var), w.machine? v.owner = some m → v.address = address →
    v.size = count → w.isLinked v = r.isSome
  inside : ∀ (w : World σ) (v : Var), w.machine? v.owner = some m → v.address = address →
    v.size = count → w.isInside v = (r == some .data)

theorem judged (m : Machine) (address count : Int) :
    Judged σ m address count (m.region? address count) where
  region?_eq := rfl
  store values hlength := by rw [isSome_store?, hlength]
  writeText text := isSome_writeText? m address text count
  linked w v hm haddress hsize := by rw [World.isLinked, World.varRegion?_eq hm, haddress, hsize]
  inside w v hm haddress hsize := by rw [World.isInside, World.varRegion?_eq hm, haddress, hsize]

/-- Cells of the data block that are live one by one make a live range of it, and so a buffer that
is accepted and a variable that is linked and inside, unless they run from the heap into the stack
where the two meet. Then the range counts for dead everywhere, although none of its cells does. -/
theorem live_cells_make_range (hm : m.Reachable) (hcount : 0 < count)
    (live : m.LiveData address count) :
    (¬ m.Straddles address count → Judged σ m address count (some .data)) ∧
      (m.Straddles address count → Judged σ m address count none) := by
  have hwf := hm.wellFormed
  constructor
  · intro hclear
    have hjudged := judged (σ := σ) m address count
    rwa [live.region?_eq_data hwf hcount hclear] at hjudged
  · intro hs
    have hjudged := judged (σ := σ) m address count
    rwa [hs.region?_eq_none hwf] at hjudged

/-- With dead storage between heap and stack, data and heap make one live range. After one more push
there is none left, and the last cell of the heap and the first one of the stack make no live
range. -/
theorem live_cells_of_full_memory :
    let m := ((MachineStep.push 7).perform ((MachineStep.heapAlloc 1).perform
      (MachineSpec.build { dataCells := 1, heapStackCells := 3 })).2).2
    let m' := ((MachineStep.push 8).perform m).2
    m.Reachable ∧ m.LiveData 0 2 ∧ Judged Unit m 0 2 (some .data) ∧
      m'.Reachable ∧ m'.LiveData 4 2 ∧ Judged Unit m' 4 2 none := by
  intro m m'
  have hm : m.Reachable := ((Reachable.built _ (by decide)).step _).step _
  have hm' : m'.Reachable := hm.step _
  have live : m.LiveData 0 2 := liveData_two (by decide) (by decide)
  have live' : m'.LiveData 4 2 := liveData_two (by decide) (by decide)
  have hclear : ¬ m.Straddles 0 2 := fun hs => absurd hs.full (by decide)
  have hs : m'.Straddles 4 2 := ⟨by decide, by decide, by decide⟩
  exact ⟨hm, live, (live_cells_make_range hm (by decide) live).1 hclear,
    hm', live', (live_cells_make_range hm' (by decide) live').2 hs⟩

/-- So it is not true that live cells of the data block always make a live range of it: a machine
with one cell of data and one of stack has no live range of both. -/
theorem live_cells_make_no_range :
    ¬ ∀ (m : Machine) (address count : Int), m.Reachable → 0 ≤ address → address % 4 = 0 →
      1 ≤ count → m.LiveData address count → m.region? address count = some .data := by
  intro hclaim
  let m := ((MachineStep.push 7).perform
    (MachineSpec.build { dataCells := 1, heapStackCells := 1 })).2
  have hm : m.Reachable := (Reachable.built _ (by decide)).step _
  have live : m.LiveData 0 2 := liveData_two (by decide) (by decide)
  have hregion := hclaim m 0 2 hm (by decide) (by decide) (by decide) live
  exact absurd hregion (by decide)

end Machine

end ScriptNatives
