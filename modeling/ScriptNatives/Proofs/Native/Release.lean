import ScriptNatives.Proofs.Machine.Blocks
import ScriptNatives.Proofs.Native.Effects
import ScriptNatives.Proofs.Runs.Machines
import ScriptNatives.Proofs.Wire.SuspendCode
import ScriptNatives.Proofs.World.Live

/-!
# What the scheduler learns when a block is released

An address is a number of 31 bits, and the argument of a suspend code has 24. So the scheduler is
told the base of the block that is gone as long as the base is below `2 ^ 24`; beyond that it is
told where some other block may lie.
-/
namespace ScriptNatives

namespace World

variable {σ : Type} {w : World σ} {id : InstanceId} {p : Params}

/-- A variable is released by its owner only, with the block that is found at its start. -/
theorem free_cases {var : Cell} {out : Outcome σ Ending} (hfree : w.free id var = .ok out) :
    ∃ v m b, w.vars.get? var = some v ∧ v.owner = id ∧ w.machine? id = some m ∧
      m.blockAt? v.address 4 = some b ∧
      out = (.ok (.free (Int32.ofInt b.base)), w.putMachine id (m.withoutBlock b.base)) := by
  unfold free at hfree
  cases hv : w.vars.get? var with
  | none => simp [World.var, hv] at hfree
  | some v =>
    simp only [World.var, hv, ok_bind] at hfree
    split at hfree
    · next howner =>
      obtain ⟨rfl, _⟩ : v.owner = id ∧ w.isLive id = true := by simpa [isOwner] using howner
      split at hfree
      · next base u hreleased =>
        obtain ⟨m, released, hm, hrelease, hout⟩ := freeVar?_eq_some hreleased
        obtain ⟨b, hb, hbase, hm'⟩ := Machine.releaseBlock?_eq_some hrelease
        obtain ⟨rfl, rfl⟩ := Prod.mk.inj hout
        obtain rfl := Except.ok.inj hfree
        exact ⟨v, m, b, rfl, rfl, hm, hb, by rw [hbase, hm', Machine.withoutBlock]⟩
      · cases hfree
    · cases hfree

/-- What is released is the block that the variable lies in. -/
theorem free_eq_ok (sound : w.Sound) {var : Cell} {out : Outcome σ Ending}
    (hfree : w.free id var = .ok out) :
    ∃ v m b, w.vars.get? var = some v ∧ v.owner = id ∧ w.machine? id = some m ∧
      b ∈ m.blocks ∧ b.base ≤ v.address ∧ v.address + 4 ≤ b.limit ∧
      out = (.ok (.free (Int32.ofInt b.base)), w.putMachine id (m.withoutBlock b.base)) := by
  obtain ⟨v, m, b, hv, howner, hm, hb, hout⟩ := free_cases hfree
  have hwf := (sound.machine? hm).wellFormed
  obtain ⟨hmem, hlow, hhigh⟩ := (hwf.blockAt?_eq_some_iff (by decide)).mp hb
  exact ⟨v, m, b, hv, howner, hm, hmem, hlow, hhigh, hout⟩

/-- When `amx_free` succeeds, the caller owns the variable and the block that it lies in is gone,
and nothing else but the caller's status has changed. The returned cell reports a released block,
and tells its base modulo `2 ^ 24`: that is the base if and only if it is below `2 ^ 24`. -/
theorem runNative_free_of_ok (sound : w.Sound) (h : Host σ) {c : Cell}
    (freed : (w.runNative h id "amx_free" p).1 = .ok c) :
    ∃ var v m b code, p[0]? = some var ∧ w.vars.get? var = some v ∧ v.owner = id ∧
      w.machine? id = some m ∧ b ∈ m.blocks ∧ b.base ≤ v.address ∧ v.address + 4 ≤ b.limit ∧
      (w.runNative h id "amx_free" p).2 = w.putMachine id ((m.withoutBlock b.base).raise .sleep) ∧
      (∀ other, other ∈ (m.withoutBlock b.base).blocks ↔ other ∈ m.blocks ∧ other ≠ b) ∧
      SuspendCode.decode c = some code ∧ code.kind = .freeVar ∧
      (code.payload : Int) = b.base % 0x1000000 ∧
      ((code.payload : Int) = b.base ↔ b.base < 0x1000000) := by
  rcases runNative_plain_cases h id p w .free with ⟨fault, hfailed⟩ | ⟨out, hperform, hrun⟩
  · obtain ⟨fault', hfault⟩ := settle_error w id fault
    rw [LocalNative.scriptName] at hfailed
    rw [hfailed, hfault] at freed
    cases freed
  · rw [LocalNative.scriptName] at hrun
    obtain ⟨var, hvar, hfree⟩ := bind_eq_ok hperform
    have hvar := Params.need_eq_ok_iff.mp hvar
    obtain ⟨v, m, b, hv, howner, hm, hb, hlow, hhigh, rfl⟩ := free_eq_ok sound hfree
    have hwf := (sound.machine? hm).wellFormed
    have hbase : 0 ≤ b.base := by
      have hend := hwf.dataEnd_le_base b hb
      have hsize := hwf.dataEnd_eq
      omega
    have hafter := machine?_putMachine hm (m.withoutBlock b.base)
    have hsettled : w.runNative h id "amx_free" p =
        (.ok (SuspendCode.ofCell .freeVar (Int32.ofInt b.base)).encode,
          w.putMachine id ((m.withoutBlock b.base).raise .sleep)) := by
      simp only [hrun, settle, hafter, Ending.free, Ending.carryOut, putMachine_putMachine]
    have hpayload := SuspendCode.payload_ofCell_ofInt .freeVar rfl b.base
    obtain rfl := Except.ok.inj ((congrArg Prod.fst hsettled).symm.trans freed)
    refine ⟨var, v, m, b, _, hvar, hv, howner, hm, hb, hlow, hhigh, congrArg Prod.snd hsettled,
      hwf.mem_withoutBlock_iff hb, SuspendCode.decode_encode _, rfl, hpayload, ?_⟩
    rw [hpayload]
    omega

/-- A machine with a block of 16 MiB at `0x500`, and behind it a block of four cells. -/
def farBlockMachine : Machine :=
  let m : Machine := Scenario.MachineSpec.build {}
  { m with
    nextBlock := 0x1000510
    blocks := [⟨0x1000500, ⟨4, []⟩⟩, ⟨0x500, ⟨0x400000, []⟩⟩] }

/-- An instance with that machine, and a variable in the block behind. -/
def farBlock : World Unit :=
  let acts : List (Act Unit) := [.register farBlockMachine, .createVar ⟨1, by decide⟩ 0x1000500 4]
  acts.foldl Act.apply (World.create {} ())

theorem farBlock_sound : farBlock.Sound := by
  intro m hm
  obtain rfl : m = farBlockMachine := by simpa using (show m ∈ #[farBlockMachine] from hm)
  have built : Machine.Reachable (Scenario.MachineSpec.build {}) := .built {} (by decide)
  exact (built.step (.allocBlock 0x400000)).step (.allocBlock 4)

/-- The block behind is released, and its base is told modulo `2 ^ 24`. -/
theorem free_of_far_block :
    let id : InstanceId := ⟨1, by decide⟩
    let h : Host Unit := ⟨fun _ w => (.ok 0, w), fun _ _ => (0, ())⟩
    farBlock.Sound ∧ (farBlock.runNative h id "amx_free" [1]).1 = .ok (-0x70FFFB00) ∧
      ∃ b ∈ farBlockMachine.blocks, ∃ code, b.base ≤ 0x1000500 ∧ 0x1000504 ≤ b.limit ∧
        SuspendCode.decode (-0x70FFFB00) = some code ∧ code.kind = .freeVar ∧
        (code.payload : Int) = b.base % 0x1000000 := by
  intro id h
  have freed : (farBlock.runNative h id "amx_free" [1]).1 = .ok (-0x70FFFB00) := by rfl
  obtain ⟨var, v, m, b, code, hvar, hv, _, hm, hb, hlow, hhigh, _, _, hcode, hkind, hpayload, _⟩ :=
    runNative_free_of_ok farBlock_sound h freed
  obtain rfl : 1 = var := Option.some.inj hvar
  obtain rfl : farBlockMachine = m := Option.some.inj hm
  have haddress : (farBlock.vars.get? 1).map Var.address = some 0x1000500 := by rfl
  rw [hv, Option.map_some, Option.some.injEq] at haddress
  exact ⟨farBlock_sound, freed, b, hb, code, by omega, by omega, hcode, hkind, hpayload⟩

/-- So it is not true that the scheduler is always told the base of the block that is gone. Here it
is told `0x500`, the base of the block that is still there. -/
theorem free_reports_another_block :
    ¬ ∀ (w : World Unit) (h : Host Unit) (id : InstanceId) (p : Params) (c : Cell) (m : Machine)
      (b : Block), w.Sound → w.machine? id = some m → b ∈ m.blocks →
      w.runNative h id "amx_free" p =
        (.ok c, w.putMachine id ((m.withoutBlock b.base).raise .sleep)) →
      ∃ code, SuspendCode.decode c = some code ∧ code.kind = .freeVar ∧
        (code.payload : Int) = b.base := by
  intro hclaim
  obtain ⟨code, hcode, _, hpayload⟩ := hclaim farBlock ⟨fun _ w => (.ok 0, w), fun _ _ => (0, ())⟩
    ⟨1, by decide⟩ [1] (-0x70FFFB00) farBlockMachine ⟨0x1000500, ⟨4, []⟩⟩ farBlock_sound rfl
    List.mem_cons_self rfl
  have htold : (SuspendCode.decode (-0x70FFFB00)).map SuspendCode.payload = some 0x500 := by
    decide +kernel
  rw [hcode, Option.map_some, Option.some.injEq] at htold
  simp only at hpayload
  omega

end World

end ScriptNatives
