import ScriptNatives.Proofs.Machine.Memory
import ScriptNatives.Proofs.Native.Effects
import ScriptNatives.Proofs.Runs.Machines

/-!
# Reading over writing

References may overlap, and their owners may be instances of one machine. So what is read after a
write depends on the cell that is meant, and not on the reference that names it.
-/
namespace ScriptNatives.World

variable {σ : Type} {w : World σ} {id : InstanceId} {v : Var} {index address : Int} {m m' : Machine}

/-- What is read from a reference is settled by the element's address and the owner's machine. -/
theorem readVar_eq (w : World σ) (v : Var) (index : Int) :
    w.readVar v index = v.element index >>= fun address =>
      match w.machine? v.owner with
      | none => .error (deadInstance v.owner)
      | some m => (m.cell? address).elim (.error (.badAddress address)) .ok := by
  unfold readVar
  cases v.element index with
  | error fault => rfl
  | ok address =>
    cases hm : w.machine? v.owner with
    | none => simp [machine, hm]
    | some m => cases hc : m.cell? address <;> simp [machine, hm, hc]

/-- What is read when one cell of the machine of some instance was written. -/
theorem readVar_putMachine (hm : w.machine? id = some m) {x : Cell}
    (hcell : ∀ a, m'.cell? a = if a = address then some x else m.cell? a) (r : Var) (i : Int) :
    (w.putMachine id m').readVar r i =
      if w.number? r.owner = w.number? id ∧ 0 ≤ i ∧ i < r.size ∧ r.address + 4 * i = address then
        .ok x
      else
        w.readVar r i := by
  rw [readVar_eq, readVar_eq, machine?_putMachine_of_number? hm]
  by_cases hin : 0 ≤ i ∧ i < r.size
  · have helement : r.element i = .ok (r.address + 4 * i) :=
      Var.element_eq_ok_iff.mpr ⟨hin.1, hin.2, rfl⟩
    by_cases hnumber : w.number? r.owner = w.number? id
    · have hsame : w.machine? r.owner = some m := by rw [machine?_eq, hnumber, ← machine?_eq, hm]
      by_cases ha : r.address + 4 * i = address <;>
        simp [helement, hnumber, hsame, hcell, hin, ha]
    · simp [hnumber]
  · have helement : r.element i = .error (.badIndex i r.size) := if_neg hin
    have hnot : ¬ (0 ≤ i ∧ i < r.size ∧ r.address + 4 * i = address) :=
      fun h => hin ⟨h.1, h.2.1⟩
    rw [helement, error_bind, error_bind, if_neg fun h => hnot h.2]

/-- A write is refused where a read is, and in the same way: the cell has to be live for both. -/
theorem readVar_of_writeVar_error (sound : w.Sound) {v : Var} {j : Int} {x : Cell} {fault : Fault}
    (hwrite : w.writeVar v j x = .error fault) : w.readVar v j = .error fault := by
  rw [readVar_eq]
  unfold writeVar at hwrite
  cases helement : v.element j with
  | error fault' => simpa [helement] using hwrite
  | ok a =>
    cases hm : w.machine? v.owner with
    | none => simpa [helement, machine, hm] using hwrite
    | some m =>
      have hwf := (sound.machine? hm).wellFormed
      cases hc : m.cell? a with
      | none => simpa [helement, machine, hm, hc, Machine.exchange?] using hwrite
      | some previous =>
        obtain ⟨m', hset⟩ : ∃ m', m.setCell? a x = some m' := by
          rw [← Option.isSome_iff_exists, Machine.isSome_setCell?, ← hwf.isSome_cell?, hc]
          rfl
        simp [helement, machine, hm, Machine.exchange?, hc, hset] at hwrite

/-- A write that is refused is one where a read is refused in the same way, and it changes nothing.
One that is not returns what was read there before. Afterwards the cell reads as written through
every reference that has it for an element, whichever instance of the machine owns the
reference, and every other read gives what it gave, be that a value or a fault. -/
theorem readVar_writeVar (sound : w.Sound) (v : Var) (j : Int) (x : Cell) :
    (∀ fault, w.writeVar v j x = .error fault →
      w.readVar v j = .error fault ∧ (Act.writeVar v j x).apply w = w) ∧
    ∀ old u, w.writeVar v j x = .ok (old, u) →
      (Act.writeVar v j x).apply w = u ∧ w.readVar v j = .ok old ∧
      ∀ (r : Var) (i : Int), u.readVar r i =
        if w.number? r.owner = w.number? v.owner ∧ 0 ≤ i ∧ i < r.size ∧
            r.address + 4 * i = v.address + 4 * j then
          .ok x
        else
          w.readVar r i := by
  constructor
  · intro fault hfault
    exact ⟨readVar_of_writeVar_error sound hfault, by rw [Act.apply, hfault]; rfl⟩
  · intro old u hwrite
    refine ⟨by rw [Act.apply, hwrite]; rfl, ?_⟩
    obtain ⟨address, m, ⟨previous, m'⟩, helement, hm, hexchange, hout⟩ := writeVar_eq_ok hwrite
    obtain ⟨rfl, rfl⟩ := Prod.mk.inj hout
    obtain ⟨_, _, haddress⟩ := Var.element_eq_ok_iff.mp helement
    obtain ⟨hold, hset⟩ := Machine.exchange?_eq_some_iff.mp hexchange
    constructor
    · simp [readVar_eq, helement, hm, hold]
    · have hwf := (sound.machine? hm).wellFormed
      rw [← haddress]
      exact readVar_putMachine hm (hwf.cell?_setCell? hset)

/-- Two references that overlap, each owned by another instance of the same machine. -/
theorem read_through_other_instance :
    let m : Machine := Scenario.MachineSpec.build {}
    let acts : List (Act Unit) := [.register m, .share 0]
    let w := acts.foldl Act.apply (World.create {} ())
    let v : Var := ⟨⟨1, by decide⟩, 8, 3, by decide, by decide, by decide, by decide⟩
    let r : Var := ⟨⟨2, by decide⟩, 4, 3, by decide, by decide, by decide, by decide⟩
    let u := (Act.writeVar v 1 7).apply w
    w.Sound ∧ w.writeVar v 1 7 = .ok (0, u) ∧ u.readVar r 2 = .ok 7 ∧
      u.readVar r 1 = w.readVar r 1 ∧ u.readVar r 3 = .error (.badIndex 3 3) := by
  intro m acts w v r u
  have sound : w.Sound := by
    intro n hn
    obtain rfl : n = m := by simpa using (show n ∈ #[m] from hn)
    exact .built {} (by decide)
  have hwrite : w.writeVar v 1 7 = .ok (0, u) := by rfl
  obtain ⟨_, _, hreads⟩ := (readVar_writeVar sound v 1 7).2 0 u hwrite
  refine ⟨sound, hwrite, ?_, ?_, ?_⟩
  · exact (hreads r 2).trans (if_pos ⟨by rfl, by decide, by decide, by decide⟩)
  · exact (hreads r 1).trans (if_neg fun h => absurd h.2.2.2 (by decide))
  · exact (hreads r 3).trans (if_neg fun h => absurd h.2.2.1 (by decide))

end ScriptNatives.World
