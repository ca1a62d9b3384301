import ScriptNatives.Proofs.Machine.Ranges
import ScriptNatives.Proofs.Native.DeadCaller
import ScriptNatives.Proofs.Native.Failure
import ScriptNatives.Proofs.Native.Guarded
import ScriptNatives.Proofs.Native.Lookups
import ScriptNatives.Proofs.References.Elements

/-!
# References relative to a cell

A script hands a variable on by reference: it has the distance from a cell to the variable put into
that very cell. The distance is a difference of two addresses that wraps, of which the one was
checked when the variable was made, and the other is checked only when the distance is stored.
Together the two checks are enough: wherever a distance is stored, no sum with it wraps.
-/
namespace ScriptNatives

variable {σ : Type}

/-- What the cell at `dest` holds leads from there to a variable: the two of them, added up as
cells, are the address of its start, and give the address of each element, and no sum wraps. -/
structure Machine.LeadsTo (m : Machine) (dest offset : Cell) (v : Var) : Prop where
  cell?_eq : m.cell? dest.toInt = some offset
  sum_eq : dest.toInt + offset.toInt = v.address
  start_eq : (dest + offset).toInt = v.address
  element_eq : ∀ i : Cell, 0 ≤ i.toInt → i.toInt < v.size →
    v.element i.toInt = .ok (dest + offset + i * 4).toInt ∧
      (dest + offset + i * 4).toInt = dest.toInt + offset.toInt + 4 * i.toInt

/-- The distance between two addresses fits a cell. -/
theorem Var.toInt_offset (v : Var) {dest : Cell} (hnonneg : 0 ≤ dest.toInt) :
    (Int32.ofInt (v.address - dest.toInt)).toInt = v.address - dest.toInt := by
  have haddress := v.address_nonneg
  have hsize := v.size_pos
  have hlimit : v.address + 4 * v.size ≤ 0x7FFFFFFF := v.limit_le
  have hdest := dest.toInt_lt
  exact Int32.toInt_ofInt_of_le (by omega) (by omega)

/-- A cell that holds the distance to a variable leads to it. -/
theorem Var.leadsTo (v : Var) {m : Machine} {dest : Cell} (hnonneg : 0 ≤ dest.toInt)
    (hcell : m.cell? dest.toInt = some (Int32.ofInt (v.address - dest.toInt))) :
    m.LeadsTo dest (Int32.ofInt (v.address - dest.toInt)) v := by
  have hoffset := v.toInt_offset hnonneg
  have hsum : dest.toInt + (Int32.ofInt (v.address - dest.toInt)).toInt = v.address := by omega
  have hstart : dest + Int32.ofInt (v.address - dest.toInt) = Int32.ofInt v.address := by
    conv_rhs => rw [← hsum, Int32.ofInt_add, Int32.ofInt_toInt, Int32.ofInt_toInt]
  have hzero : (Int32.ofInt v.address).toInt = v.address := by
    have hfirst := (v.element_toInt (show 0 ≤ (0 : Cell).toInt by decide) v.size_pos).2
    simpa using hfirst
  refine ⟨hcell, hsum, by rw [hstart, hzero], fun i hi hlt => ?_⟩
  have helement := (v.element_toInt hi hlt).2
  rw [hstart, helement, hsum]
  exact ⟨Var.element_eq_ok_iff.mpr ⟨hi, hlt, rfl⟩, rfl⟩

namespace World

variable {w : World σ} {id : InstanceId} {var dest : Cell} {rest : Params} {v : Var} {m : Machine}

/-- The distance to a variable is told to its live owner only. -/
theorem varOffset_eq_ok_iff {origin : Int} {c : Cell} : w.varOffset var id origin = .ok c ↔
    ∃ v, w.vars.get? var = some v ∧ v.owner = id ∧ w.isLive id = true ∧
      c = Int32.ofInt (v.address - origin) := by
  cases hv : w.vars.get? var with
  | none => simp [varOffset, World.var, hv]
  | some v =>
    cases howner : w.isOwner v id with
    | false =>
      have hnot : v.owner = id → w.isLive id = false := by simpa [isOwner] using howner
      simpa [varOffset, World.var, hv, howner] using fun h => by simp [hnot h]
    | true =>
      obtain ⟨rfl, live⟩ : v.owner = id ∧ w.isLive id = true := by simpa [isOwner] using howner
      have hvar : w.var var = .ok v := by rw [World.var, hv]
      rw [varOffset, hvar, ok_bind, howner, if_pos rfl, pure_eq_ok, Except.ok.injEq]
      constructor
      · exact fun hc => ⟨v, rfl, rfl, live, hc.symm⟩
      · rintro ⟨v', hv', _, _, hc⟩
        rw [hc, Option.some.inj hv']

/-- What has come of the native if it returned a value. -/
theorem toRef_of_ok {h : Host σ} {r : Cell} {u : World σ}
    (hrun : w.runNative h id "amx_to_ref" (var :: dest :: rest) = (.ok r, u)) :
    r = 1 ∧ ∃ v m m', w.vars.get? var = some v ∧ v.owner = id ∧ w.machine? id = some m ∧
      m.setCell? dest.toInt (Int32.ofInt (v.address - dest.toInt)) = some m' ∧
      u = w.putMachine id m' := by
  obtain ⟨out, hout, hsettle⟩ := exists_performPlain_of_ok .toRef hrun
  obtain ⟨d, hd, hout⟩ := bind_eq_ok hout
  obtain rfl := Except.ok.inj hd
  obtain ⟨x, hx, hout⟩ := bind_eq_ok hout
  obtain rfl := Except.ok.inj hx
  obtain ⟨c, hc, hout⟩ := bind_eq_ok hout
  obtain ⟨⟨done, u'⟩, hstore, rfl⟩ := wrote_eq_ok hout
  obtain ⟨v, hv, howner, _, rfl⟩ := varOffset_eq_ok_iff.mp hc
  obtain ⟨m, stored, hm, hstored, heq⟩ := store_eq_ok hstore
  rw [Machine.store?_singleton, Option.map_eq_some_iff] at hstored
  obtain ⟨m', hset, rfl⟩ := hstored
  obtain ⟨rfl, rfl⟩ := Prod.mk.inj heq
  obtain ⟨_, rfl, rfl⟩ := settle_returns_eq_ok_iff.mp hsettle
  exact ⟨rfl, v, m, m', hv, howner, hm, hset, rfl⟩

/-- A distance is stored if it is told and its cell is written. -/
theorem runNative_toRef {c : Cell} (hc : w.varOffset var id dest.toInt = .ok c)
    (hm : w.machine? id = some m) {m' : Machine} (hset : m.setCell? dest.toInt c = some m')
    (h : Host σ) (rest : Params) : w.runNative h id "amx_to_ref" (var :: dest :: rest) =
      (.ok 1, w.putMachine id m') := by
  have hstore : w.store id dest [c] = .ok (.ok (), w.putMachine id m') := by
    simp [store, machine_eq_ok_iff.mpr hm, Machine.store?_singleton, hset]
  have hperform : w.performPlain h id (var :: dest :: rest) .toRef =
      .ok (.ok (.returns 1), w.putMachine id m') := by
    simp [performPlain, Params.need, hc, hstore, wrote, Except.map]
  have hlength : 2 ≤ (var :: dest :: rest).length := by simp
  have live := isLive_of_machine? (machine?_putMachine hm m')
  exact runNative_of_returns .toRef hlength hperform live

/-- A distance is stored for the live owner of a variable, in a live cell of its own. -/
theorem toRef_ok_iff (h : Host σ) (id : InstanceId) (var dest : Cell) (rest : Params) :
    (∃ r, (w.runNative h id "amx_to_ref" (var :: dest :: rest)).1 = .ok r) ↔
      ∃ v m, w.vars.get? var = some v ∧ v.owner = id ∧ w.machine? id = some m ∧
        m.Live dest.toInt := by
  constructor
  · rintro ⟨r, hr⟩
    obtain ⟨_, v, m, m', hv, howner, hm, hset, _⟩ := toRef_of_ok (Prod.ext hr rfl)
    refine ⟨v, m, hv, howner, hm, ?_⟩
    rw [Machine.Live, ← Machine.isSome_setCell?, hset, Option.isSome_some]
  · rintro ⟨v, m, hv, howner, hm, live⟩
    have hc : w.varOffset var id dest.toInt = .ok (Int32.ofInt (v.address - dest.toInt)) :=
      varOffset_eq_ok_iff.mpr ⟨v, hv, howner, isLive_of_machine? hm, rfl⟩
    rw [Machine.Live, ← Machine.isSome_setCell?] at live
    obtain ⟨m', hset⟩ := Option.isSome_iff_exists.mp live
    exact ⟨1, congrArg Prod.fst (runNative_toRef hc hm hset h rest)⟩

/-- The world after a native has failed: the status of the caller's machine tells so, if there is a
live caller to tell, and all else is as it was. -/
def failedFor (w : World σ) (id : InstanceId) : World σ :=
  (w.machine? id).elim w fun m => w.putMachine id (m.raise .native)

/-- A native that neither calls anybody nor works through the pools has done nothing if it fails. -/
theorem runNative_failedFor (sound : w.Sound) {h : Host σ} {name : String} {p : Params}
    (hname : name ∉ callNatives) (hlookup : name ∉ callerlessNatives) {fault : Fault}
    (failed : (w.runNative h id name p).1 = .error fault) :
    (w.runNative h id name p).2 = w.failedFor id := by
  cases live : w.isLive id with
  | false =>
    rw [runNative_eq_of_dead live, nativeAct?_of_dead live hlookup, failedFor,
      machine?_eq_none_iff.mpr live, Option.elim_none, Option.elim_none]
  | true =>
    obtain ⟨m, hm, hraised⟩ := exists_raised sound live hname failed
    rw [hraised, failedFor, hm, Option.elim_some]

/-- A reference relative to a cell is stored if the variable is there, the caller is its live owner,
and the cell is a live one of the caller. Then the cell leads to the variable and to each element of
it, no other cell is changed, in this machine or in any other, and an element is read where the cell
leads to. In every other case the native fails, and no cell is changed at all. -/
theorem toRef_leads_or_fails (sound : w.Sound) (h : Host σ) (id : InstanceId) (var dest : Cell)
    (rest : Params) :
    let run := w.runNative h id "amx_to_ref" (var :: dest :: rest)
    ((∃ r, run.1 = .ok r) ↔ ∃ v m, w.vars.get? var = some v ∧ v.owner = id ∧
        w.machine? id = some m ∧ m.Live dest.toInt) ∧
      (∀ r, run.1 = .ok r → r = 1 ∧ ∃ v m m' offset, w.vars.get? var = some v ∧
        w.machine? id = some m ∧ run.2 = w.putMachine id m' ∧ m'.LeadsTo dest offset v ∧
        (∀ a, a ≠ dest.toInt → m'.stored? a = m.stored? a) ∧ m'.blank = m.blank ∧
        ∀ (i x : Cell), 0 ≤ i.toInt → i.toInt < v.size →
          (run.2.readVar v i.toInt = .ok x ↔ m'.cell? (dest + offset + i * 4).toInt = some x)) ∧
      ((¬ ∃ r, run.1 = .ok r) → ∃ fault, run = (.error fault, w.failedFor id)) := by
  intro run
  refine ⟨toRef_ok_iff h id var dest rest, fun r hr => ?_, fun hnone => ?_⟩
  · obtain ⟨hone, v, m, m', hv, howner, hm, hset, hafter⟩ := toRef_of_ok (Prod.ext hr rfl)
    have hwf := (sound.machine? hm).wellFormed
    have hlive : (m.region? dest.toInt 1).isSome = true := by
      rw [← Machine.isSome_setCell?, hset, Option.isSome_some]
    obtain ⟨r, hregion⟩ := Option.isSome_iff_exists.mp hlive
    have hcells := hwf.cell?_setCell? hset
    have leads := v.leadsTo (hwf.in_reach hregion).1 (by rw [hcells, if_pos rfl])
    have hm' : run.2.machine? v.owner = some m' := by
      rw [howner, show run.2 = _ from hafter, machine?_putMachine hm]
    refine ⟨hone, v, m, m', _, hv, hm, hafter, leads,
      fun a ha => by rw [hwf.stored?_setCell? hset, if_neg ha], Machine.blank_setCell? hset, ?_⟩
    intro i x hnonneg hlt
    have helement := Var.element_eq_ok_iff.mp (leads.element_eq i hnonneg hlt).1
    simp only [readVar_eq_ok_iff, hnonneg, hlt, hm', helement.2.2, true_and,
      Option.some.injEq, exists_eq_left']
  · cases hvalue : run.1 with
    | ok r => exact absurd ⟨r, hvalue⟩ hnone
    | error fault =>
      exact ⟨fault, Prod.ext hvalue (runNative_failedFor sound (by decide) (by decide) hvalue)⟩

/-- A machine with a block of two cells, and a variable of just these. -/
def overBlock : World Unit :=
  let acts : List (Act Unit) := [.register (Scenario.MachineSpec.build {}),
    .onMachine 0 (.allocBlock 2), .createVar ⟨1, Nat.one_pos⟩ 1280 2]
  acts.foldl Act.apply (World.create {} ())

theorem overBlock_reachable : overBlock.Reachable := by
  refine (reachable_create {} ()).foldl fun m hm => ?_
  obtain rfl : m = Scenario.MachineSpec.build {} := by simpa using hm
  exact .built _ (by decide)

/-- The distance goes into the second cell of the variable, and is read back as its second element.
There is no third cell to put it in. -/
theorem distance_inside_variable :
    let id : InstanceId := ⟨1, by decide⟩
    let h : Host Unit := ⟨fun _ w => (.ok 0, w), fun _ _ => (0, ())⟩
    let run (dest : Cell) := overBlock.runNative h id "amx_to_ref" [1, dest]
    (run 1284).1 = .ok 1 ∧
      (∃ v, overBlock.vars.get? 1 = some v ∧ (run 1284).2.readVar v 1 = .ok (-4)) ∧
      ∃ fault, run 1288 = (.error fault, overBlock.failedFor id) := by
  intro id h run
  have hleads (dest : Cell) := toRef_leads_or_fails overBlock_reachable.sound h id 1 dest []
  have hstored : (run 1284).1 = .ok 1 := by rfl
  have hrefused : (run 1288).1 = .error (.badAddress 1288) := by rfl
  obtain ⟨_, v, m, m', offset, hv, _, _, leads, _, _, hreads⟩ := (hleads 1284).2.1 1 hstored
  obtain rfl : v = ⟨id, 1280, 2, by decide, by decide, by decide, by decide⟩ :=
    Option.some.inj (hv.symm.trans (by rfl))
  obtain rfl : offset = -4 := Int32.toInt_inj.mp (Int.add_left_cancel leads.sum_eq)
  exact ⟨hstored, ⟨_, hv, (hreads 1 _ (by decide) (by decide)).mpr leads.cell?_eq⟩,
    (hleads 1288).2.2 (by simp [run, hrefused])⟩

end World

end ScriptNatives
