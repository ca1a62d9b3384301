import ScriptNatives.Proofs.References.Access
import ScriptNatives.Proofs.References.Orphans

/-!
# What comes of an access to an element

A variable is given the shape of a range when it is made, by whichever way, and keeps it. So the
address of an element is always a cell's, and an index is all that an access has to check of the
shape. The index comes first: whether the owner is live is asked for an index in the range only, and
whether the cell is live when the owner is.
-/
namespace ScriptNatives

variable {σ : Type}

/-! ### The shape of variables -/

/-- The shape of a range of cells that has addresses from end to end. -/
structure InShape (address count : Int) : Prop where
  nonneg : 0 ≤ address
  aligned : address % 4 = 0
  pos : 1 ≤ count
  limit_le : address + 4 * count ≤ Cell.maxValue

theorem Var.inShape (v : Var) : InShape v.address v.size :=
  ⟨v.address_nonneg, v.address_aligned, v.size_pos, v.limit_le⟩

/-- Whatever a variable is made for, it is made in shape. -/
theorem World.inShape_of_createVar {w u : World σ} {owner : InstanceId} {address count : Int}
    {id : Cell} (h : w.createVar owner address count = .ok (id, u)) : InShape address count := by
  obtain ⟨v, _, _, rfl, rfl, _⟩ := World.createVar_eq_ok h
  exact v.inShape

theorem Act.inShape_of_event? {a : Act σ} {w : World σ} {id : Cell} {owner : InstanceId}
    {address count : Int} (h : a.event? w = some (.madeVar id owner address count)) :
    InShape address count := by
  obtain rfl := Act.eq_of_event?_madeVar h
  simp only [event?] at h
  split at h
  · next made hmade => exact World.inShape_of_createVar hmade
  · cases h

theorem inShape_of_mem_history {log : List (Moment σ)} {id : Cell} {owner : InstanceId}
    {address count : Int} (h : .madeVar id owner address count ∈ history log) :
    InShape address count := by
  obtain ⟨moment, _, hevent⟩ := List.mem_filterMap.mp h
  cases moment with
  | did a w => exact Act.inShape_of_event? hevent
  | invoked host caller name p w =>
    obtain ⟨a, _, hact⟩ := Option.bind_eq_some_iff.mp hevent
    exact Act.inShape_of_event? hact

/-- What is in the pool was made in the run. -/
theorem Tracks.mem_history {es : List Event} {w : World σ} (hw : Tracks es w) {id : Cell} {v : Var}
    (hv : w.vars.get? id = some v) : .ofVar id v ∈ es := by
  obtain ⟨later, earlier, rfl, _⟩ := (hw.vars.get?_iff id v).mp hv
  exact List.mem_append_right _ List.mem_cons_self

/-- In cells, where sums and products may wrap, the address of an element comes out as it is. -/
theorem Var.element_toInt (v : Var) {index : Cell} (hnonneg : 0 ≤ index.toInt)
    (hlt : index.toInt < v.size) : (index * 4).toInt = 4 * index.toInt ∧
      (Int32.ofInt v.address + index * 4).toInt = v.address + 4 * index.toInt := by
  have haddress := v.address_nonneg
  have hlimit : v.address + 4 * v.size ≤ 0x7FFFFFFF := v.limit_le
  have hbytes : (index * 4).toInt = 4 * index.toInt := by
    rw [Int32.toInt_mul, show (4 : Int32).toInt = 4 from rfl, Int.bmod_def]
    split <;> omega
  have hstart : (Int32.ofInt v.address).toInt = v.address := by
    rw [Int32.toInt_ofInt, show Int32.size = 0x100000000 from rfl, Int.bmod_def]
    split <;> omega
  refine ⟨hbytes, ?_⟩
  rw [Int32.toInt_add, hbytes, hstart, Int.bmod_def]
  split <;> omega

/-! ### Reading and writing -/

namespace World

variable {α β : Type} {w u : World σ} {v : Var} {index : Int} {x old : Cell} {m : Machine}

/-- What comes of an access to an element: the index is not one of the variable's, or its owner is
not live, or the cell of the element is not, or the access succeeds. -/
structure Checked (w : World σ) (v : Var) (index : Int) (r : Except Fault α) : Prop where
  badIndex : r = .error (.badIndex index v.size) ↔ index < 0 ∨ v.size ≤ index
  deadOwner : r = .error (deadInstance v.owner) ↔
    0 ≤ index ∧ index < v.size ∧ w.isLive v.owner = false
  badAddress : r = .error (.badAddress (v.address + 4 * index)) ↔
    0 ≤ index ∧ index < v.size ∧
      ∃ m, w.machine? v.owner = some m ∧ m.region? (v.address + 4 * index) 1 = none
  ok : (∃ a, r = .ok a) ↔ 0 ≤ index ∧ index < v.size ∧
    ∃ m, w.machine? v.owner = some m ∧ (m.region? (v.address + 4 * index) 1).isSome = true

/-- An access that fails as another does is checked in the same way. -/
theorem Checked.congr {r : Except Fault α} {r' : Except Fault β} (h : Checked w v index r)
    (hfault : ∀ fault, r' = .error fault ↔ r = .error fault) : Checked w v index r' where
  badIndex := (hfault _).trans h.badIndex
  deadOwner := (hfault _).trans h.deadOwner
  badAddress := (hfault _).trans h.badAddress
  ok := by
    rw [← h.ok]
    cases r with
    | ok a =>
      cases r' with
      | ok b => simp
      | error fault => simp at hfault
    | error fault =>
      have hr' := (hfault fault).mpr rfl
      simp [hr']

theorem readVar_of_badIndex (hout : ¬ (0 ≤ index ∧ index < v.size)) :
    w.readVar v index = .error (.badIndex index v.size) := by
  have helement : v.element index = .error (.badIndex index v.size) := if_neg hout
  rw [readVar_eq, helement, error_bind]

theorem readVar_of_index (hin : 0 ≤ index ∧ index < v.size) : w.readVar v index =
    match w.machine? v.owner with
    | none => .error (deadInstance v.owner)
    | some m => (m.cell? (v.address + 4 * index)).elim
        (.error (.badAddress (v.address + 4 * index))) .ok := by
  have helement : v.element index = .ok (v.address + 4 * index) :=
    Var.element_eq_ok_iff.mpr ⟨hin.1, hin.2, rfl⟩
  rw [readVar_eq, helement]
  rfl

theorem checked_readVar (sound : w.Sound) (v : Var) (index : Int) :
    Checked w v index (w.readVar v index) := by
  by_cases hin : 0 ≤ index ∧ index < v.size
  · have hout : ¬ (index < 0 ∨ v.size ≤ index) := by omega
    rw [readVar_of_index hin]
    cases hm : w.machine? v.owner with
    | none =>
      have hdead : w.isLive v.owner = false := machine?_eq_none_iff.mp hm
      constructor <;> simp [hout, hin, hm, hdead, deadInstance]
    | some m =>
      have hlive : w.isLive v.owner = true := isLive_of_machine? hm
      -- a cell has a value if and only if it is live
      have hcell := (sound.machine? hm).wellFormed.isSome_cell? (v.address + 4 * index)
      cases hc : m.cell? (v.address + 4 * index) with
      | none =>
        have hregion : m.region? (v.address + 4 * index) 1 = none := by simpa [hc] using hcell.symm
        constructor <;> simp [hout, hin, hm, hlive, hc, hregion, deadInstance]
      | some value =>
        have hregion : (m.region? (v.address + 4 * index) 1).isSome = true := by
          simpa [hc] using hcell.symm
        have hsome : m.region? (v.address + 4 * index) 1 ≠ none :=
          Option.isSome_iff_ne_none.mp hregion
        constructor <;> simp [hout, hin, hm, hlive, hc, hregion, hsome]
  · rw [readVar_of_badIndex hin]
    constructor <;> simp [deadInstance] <;> omega

theorem readVar_eq_ok_iff {value : Cell} : w.readVar v index = .ok value ↔
    0 ≤ index ∧ index < v.size ∧
      ∃ m, w.machine? v.owner = some m ∧ m.cell? (v.address + 4 * index) = some value := by
  by_cases hin : 0 ≤ index ∧ index < v.size
  · rw [readVar_of_index hin]
    cases hm : w.machine? v.owner with
    | none => simp
    | some m => cases hc : m.cell? (v.address + 4 * index) <;> simp [hin, hc]
  · rw [readVar_of_badIndex hin]
    simp
    omega

/-- A write that succeeds puts the value into the cell of the element, and into no other. -/
structure Stored (w u : World σ) (v : Var) (index : Int) (x old : Cell) : Prop where
  read_before : w.readVar v index = .ok old
  read_after : u.readVar v index = .ok x
  cell? : ∃ m m', w.machine? v.owner = some m ∧ u.machine? v.owner = some m' ∧
    ∀ a, m'.cell? a = if a = v.address + 4 * index then some x else m.cell? a

theorem stored_of_writeVar (sound : w.Sound) (hwrite : w.writeVar v index x = .ok (old, u)) :
    Stored w u v index x old := by
  obtain ⟨address, m, ⟨previous, m'⟩, helement, hm, hexchange, hout⟩ := writeVar_eq_ok hwrite
  obtain ⟨rfl, rfl⟩ := Prod.mk.inj hout
  obtain ⟨hnonneg, hlt, rfl⟩ := Var.element_eq_ok_iff.mp helement
  obtain ⟨hold, hset⟩ := Machine.exchange?_eq_some_iff.mp hexchange
  have hcells := (sound.machine? hm).wellFormed.cell?_setCell? hset
  have hm' : (w.putMachine v.owner m').machine? v.owner = some m' := by
    rw [machine?_putMachine_of_number? hm, if_pos rfl]
  have hnew : m'.cell? (v.address + 4 * index) = some x := by rw [hcells, if_pos rfl]
  exact ⟨readVar_eq_ok_iff.mpr ⟨hnonneg, hlt, m, hm, hold⟩,
    readVar_eq_ok_iff.mpr ⟨hnonneg, hlt, m', hm', hnew⟩, m, m', hm, hm', hcells⟩

/-- A write fails where a read does, and in the same way. -/
theorem writeVar_eq_error_iff (sound : w.Sound) {fault : Fault} :
    w.writeVar v index x = .error fault ↔ w.readVar v index = .error fault := by
  refine ⟨readVar_of_writeVar_error sound, fun hread => ?_⟩
  cases hwrite : w.writeVar v index x with
  | error other =>
    have hsame := (readVar_of_writeVar_error sound hwrite).symm.trans hread
    rw [Except.error.inj hsame]
  | ok out =>
    obtain ⟨old, u⟩ := out
    have hok := (stored_of_writeVar sound hwrite).read_before
    rw [hread] at hok
    cases hok

theorem checked_writeVar (sound : w.Sound) (v : Var) (index : Int) (x : Cell) :
    Checked w v index (w.writeVar v index x) :=
  (checked_readVar sound v index).congr fun _ => writeVar_eq_error_iff sound

/-- Every element of a linked variable is live. -/
theorem ok_of_isLinked (sound : w.Sound) (linked : w.isLinked v = true) (hnonneg : 0 ≤ index)
    (hlt : index < v.size) {r : Except Fault α} (hr : Checked w v index r) : ∃ a, r = .ok a := by
  obtain ⟨m, hm, hregion⟩ := Option.bind_eq_some_iff.mp
    (Option.isSome_iff_exists.mp linked).choose_spec
  have hpart := (sound.machine? hm).wellFormed.region?_part hregion index 1 hnonneg
    Int.one_pos (by omega)
  exact hr.ok.mpr ⟨hnonneg, hlt, m, hm, by rw [hpart]; rfl⟩

end World

/-- In every world that a run ends in, each variable of the pool was made in the run, and whatever
was made in it has the shape of a range that ends at an address. So the address of an element does
not overflow. A read and a write ask for the index first, then for the owner, and then for the cell
of the element, and fail as the first of these that is not there; if all are, the read gives the
value of the cell, and the write puts its value there. No element of a linked variable fails. -/
theorem elements_are_checked {limits : Limits} {host : σ} {log : List (Moment σ)} {w : World σ}
    (run : Evolves (World.create limits host) log w)
    (registered : ∀ m u, .did (.register m) u ∈ log → m.Reachable) :
    (∀ id owner address count, .madeVar id owner address count ∈ history log →
        InShape address count) ∧
      (∀ id v, w.vars.get? id = some v → .ofVar id v ∈ history log) ∧
      ∀ v : Var,
        (∀ index : Cell, 0 ≤ index.toInt → index.toInt < v.size →
          (index * 4).toInt = 4 * index.toInt ∧
            (Int32.ofInt v.address + index * 4).toInt = v.address + 4 * index.toInt) ∧
        ∀ index : Int,
          w.Checked v index (w.readVar v index) ∧
          (∀ x, w.Checked v index (w.writeVar v index x)) ∧
          (∀ value, w.readVar v index = .ok value ↔ 0 ≤ index ∧ index < v.size ∧
            ∃ m, w.machine? v.owner = some m ∧ m.cell? (v.address + 4 * index) = some value) ∧
          (∀ x old u, w.writeVar v index x = .ok (old, u) → w.Stored u v index x old) ∧
          (w.isLinked v = true → 0 ≤ index → index < v.size →
            (∃ value, w.readVar v index = .ok value) ∧
              ∀ x, ∃ out, w.writeVar v index x = .ok out) := by
  have sound := run.sound registered
  refine ⟨fun _ _ _ _ => inShape_of_mem_history, fun _ _ => (tracks_history run).mem_history,
    fun v => ⟨fun _ => v.element_toInt, fun index => ?_⟩⟩
  have hread := World.checked_readVar sound v index
  have hwrite (x : Cell) := World.checked_writeVar sound v index x
  exact ⟨hread, hwrite, fun _ => World.readVar_eq_ok_iff,
    fun _ _ _ => World.stored_of_writeVar sound, fun linked hnonneg hlt =>
      ⟨World.ok_of_isLinked sound linked hnonneg hlt hread,
        fun x => World.ok_of_isLinked sound linked hnonneg hlt (hwrite x)⟩⟩

/-- A variable of three cells at the end of the data block, where a block of two cells is allocated
after it was made: the first two elements are live, the third is not, and there is no fourth. Once
its owner is unloaded, an element within the range fails for the owner, and one beyond it still
for the index. -/
theorem elements_of_short_block :
    let id : InstanceId := ⟨1, by decide⟩
    let v : Var := ⟨id, 1280, 3, by decide, by decide, by decide, by decide⟩
    let acts : List (Act Unit) := [.register (Scenario.MachineSpec.build {}), .createVar id 1280 3,
      .onMachine 0 (.allocBlock 2)]
    let w := acts.foldl Act.apply (World.create {} ())
    let gone := (Act.unload id).apply w
    w.vars.get? 1 = some v ∧ InShape 1280 3 ∧
      w.readVar v 1 = .ok 0 ∧ w.readVar v 2 = .error (.badAddress 1288) ∧
      w.readVar v 3 = .error (.badIndex 3 3) ∧
      gone.readVar v 2 = .error (World.deadInstance id) ∧
      gone.writeVar v 3 7 = .error (.badIndex 3 3) := by
  intro id v acts w gone
  have run := (((Evolves.start (World.create {} ())).act
    (.register (Scenario.MachineSpec.build {}))).act (.createVar id 1280 3)).act
    (.onMachine 0 (.allocBlock 2))
  have built : (Scenario.MachineSpec.build {}).Reachable := .built {} (by decide)
  obtain ⟨hmade, hpool, hvar⟩ := elements_are_checked run fun m u hmem => by
    obtain ⟨rfl, _⟩ : m = Scenario.MachineSpec.build {} ∧ _ := by simpa using hmem
    exact built
  obtain ⟨_, _, hgone⟩ := elements_are_checked (run.act (.unload id)) fun m u hmem => by
    obtain ⟨rfl, _⟩ : m = Scenario.MachineSpec.build {} ∧ _ := by simpa using hmem
    exact built
  have hget : w.vars.get? 1 = some v := by rfl
  have hread (index : Int) := (hvar v).2 index
  have hreadGone (index : Int) := (hgone v).2 index
  refine ⟨hget, hmade _ _ _ _ (hpool 1 v hget), ?_, ?_, ?_, ?_, ?_⟩
  · exact ((hread 1).2.2.1 0).mpr ⟨by decide, by decide, _, rfl, by rfl⟩
  · exact (hread 2).1.badAddress.mpr ⟨by decide, by decide, _, rfl, by rfl⟩
  · exact (hread 3).1.badIndex.mpr (.inr (by decide))
  · exact (hreadGone 2).1.deadOwner.mpr ⟨by decide, by decide, by rfl⟩
  · exact ((hreadGone 3).2.1 7).badIndex.mpr (.inr (by decide))

end ScriptNatives
