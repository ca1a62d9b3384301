import ScriptNatives.Proofs.Native.Effects
import ScriptNatives.Proofs.Runs.Act
import ScriptNatives.Proofs.Slots.Lookup

/-!
# What plain natives do to a world

A plain native either works through one of the pools, and then it leaves the world just as the act
that it comes down to does, or it leaves the outline of the world alone.
-/
namespace ScriptNatives

variable {σ : Type}

namespace World

variable {w : World σ} {h : Host σ} {id : InstanceId} {p : Params}

/-- The property of returning worlds with the outline of `w` only. -/
def KeepsOutline {α : Type} (w : World σ) (x : Except Fault (α × World σ)) : Prop :=
  Ensures x fun r => r.2.outline = w.outline

theorem store_keeps {address : Cell} {values : List Cell} :
    KeepsOutline w (w.store id address values) := by
  intro out hstore
  obtain ⟨m, stored, _, _, rfl⟩ := store_eq_ok hstore
  exact outline_putMachine _ _ _

theorem outline_freed {v : Var} {out : Int × World σ} (hfree : w.freeVar? v = some out) :
    out.2.outline = w.outline := by
  obtain ⟨m, released, _, _, rfl⟩ := freeVar?_eq_some hfree
  exact outline_putMachine _ _ _

/-- An effect that does not go through a pool leaves the outline alone. -/
theorem Effect.outline_eq {out : Outcome σ Ending} (heffect : Effect h id w false out) :
    out.2.outline = w.outline := by
  cases heffect with
  | nothing ending => rfl
  | madeString text => exact outline_makeString w h text
  | stored hstore => exact store_keeps _ hstore
  | wroteName hwrite =>
    obtain ⟨m, written, _, _, rfl⟩ := writeName_eq_ok hwrite
    exact outline_putMachine _ _ _
  | forked hfork =>
    obtain ⟨context, _, rfl⟩ := fork_eq_ok hfork
    exact outline_modifyContext _ _ _
  | freed hfree => exact outline_freed hfree

theorem outline_writeVar (v : Var) (index : Int) (value : Cell) :
    ((Act.writeVar v index value).apply w).outline = w.outline := by
  simp only [Act.apply]
  cases hr : w.writeVar v index value with
  | error fault => rfl
  | ok out =>
    obtain ⟨_, m, exchanged, _, _, _, rfl⟩ := writeVar_eq_ok hr
    exact outline_putMachine _ _ _

theorem outline_freeVar (v : Var) : ((Act.freeVar v).apply w).outline = w.outline := by
  simp only [Act.apply]
  cases hr : w.freeVar? v with
  | none => rfl
  | some out => exact outline_freed hr

theorem outline_onMachine (number : Nat) (step : Scenario.MachineStep) :
    ((Act.onMachine number step).apply w).outline = w.outline := by
  simp only [Act.apply]
  cases w.machines[number]? <;> rfl

/-! ### Natives that work through the pools -/

@[simp] theorem worldAfter_error {α : Type} (fault : Fault) :
    w.worldAfter (.error fault : Except Fault (α × World σ)) = w := rfl

@[simp] theorem worldAfter_answered (r : Except Fault (Cell × World σ)) :
    w.worldAfter (answered r) = w.worldAfter r := by
  cases r <;> rfl

theorem perform_plain (native : LocalNative) :
    ((Native.plain native).perform h id p w).2 = w.worldAfter (w.performPlain h id p native) := by
  simp only [Native.perform]
  cases w.performPlain h id p native <;> rfl

/-- A native that works through the pools leaves the world just as its act does. -/
theorem perform_eq_apply {native : LocalNative} (hn : native.usesPools = true) :
    ((Native.plain native).perform h id p w).2 =
      (native.act? w id p).elim w (Act.apply w) := by
  rw [perform_plain]
  cases native with
  | handle => simp [performPlain, LocalNative.act?, Act.apply]
  | sourceHandle =>
    cases hs : w.source with
    | none => simp [performPlain, LocalNative.act?, hs, answer, ends, worldAfter]
    | some source => simp [performPlain, LocalNative.act?, hs, Act.apply]
  | var =>
    cases h0 : p[0]? with
    | none => simp [performPlain, LocalNative.act?, Params.need, h0]
    | some address => simp [performPlain, LocalNative.act?, Params.need, h0, Act.apply]
  | varArray =>
    cases h0 : p[0]? with
    | none => simp [performPlain, LocalNative.act?, Params.need, h0]
    | some address =>
      cases h1 : p[1]? with
      | none => simp [performPlain, LocalNative.act?, Params.need, h0, h1]
      | some count =>
        simp [performPlain, LocalNative.act?, Params.need, h0, h1, Act.apply]
  | publicVar =>
    cases h0 : p[0]? with
    | none => simp [performPlain, LocalNative.act?, Params.need, h0]
    | some address =>
      cases hm : w.machine? id with
      | none =>
        have hname : w.nameAt id address .name = .error (deadInstance id) := by
          simp [nameAt, textAt, machine, hm]
        simp [performPlain, LocalNative.act?, Params.need, h0, hm, hname]
      | some m =>
        cases ht : m.readText? address.toInt w.limits.maxNameLength with
        | none =>
          have hname : w.nameAt id address .name = .error (.badAddress address.toInt) := by
            simp [nameAt, textAt, machine, hm, ht]
          simp [performPlain, LocalNative.act?, Params.need, h0, hm, ht, hname]
        | some name =>
          by_cases hempty : name = ""
          · have hname : w.nameAt id address .name = .error (.emptyArgument .name) := by
              simp [nameAt, textAt, machine, hm, ht, nonEmpty, hempty]
            simp [performPlain, LocalNative.act?, Params.need, h0, hm, ht, hname, hempty]
          · have hname : w.nameAt id address .name = .ok name :=
              nameAt_eq_ok_iff.mpr ⟨textAt_eq_ok_iff.mpr ⟨m, hm, ht⟩, hempty⟩
            cases hv : m.publicVar? name with
            | none =>
              have hvar : w.publicVar id name = .error (.unknownVariable name) := by
                simp [World.publicVar, machine, hm, nonEmpty, hempty, hv]
              simp [performPlain, LocalNative.act?, Params.need, h0, hm, ht, hname, hempty, hv,
                hvar]
            | some a =>
              have hvar : w.publicVar id name = w.createVar id a 1 := by
                simp [World.publicVar, machine, hm, nonEmpty, hempty, hv]
              simp [performPlain, LocalNative.act?, Params.need, h0, hm, ht, hname, hempty, hv,
                hvar, Act.apply]
  | set =>
    cases h0 : p[0]? with
    | none => simp [performPlain, LocalNative.act?, Params.need, h0]
    | some var =>
      cases hv : w.vars.get? var with
      | none => simp [performPlain, LocalNative.act?, Params.need, h0, World.var, hv]
      | some v =>
        cases h1 : p[1]? with
        | none => simp [performPlain, LocalNative.act?, Params.need, h0, World.var, hv, h1]
        | some value =>
          simp [performPlain, LocalNative.act?, Params.need, h0, World.var, hv, h1, Act.apply]
  | delete =>
    cases h0 : p[0]? with
    | none => simp [performPlain, LocalNative.act?, Params.need, h0]
    | some var =>
      cases hv : w.vars.get? var with
      | none =>
        have hr : w.vars.remove? var = none := Slots.remove?_eq_none_iff.mpr hv
        simp [performPlain, LocalNative.act?, Params.need, h0, World.var, hv, Act.apply, releaseVar,
          hr]
      | some v =>
        simp [performPlain, LocalNative.act?, Params.need, h0, World.var, hv, Act.apply, answerFlag,
          answer, ends, worldAfter]
  | _ => cases hn

/-- A native that does not work through the pools leaves the outline of the world alone. -/
theorem performPlain_keeps {native : LocalNative} (hn : native.usesPools = false) :
    KeepsOutline w (w.performPlain h id p native) := by
  intro out hout
  have heffect := performPlain_effect native out hout
  rw [hn] at heffect
  exact heffect.outline_eq

theorem act?_of_not_usesPools {native : LocalNative} (hn : native.usesPools = false) :
    native.act? w id p = none := by
  cases native <;> first | rfl | cases hn

/-- The outline after a plain native is the one after its act. -/
theorem outline_perform_plain (native : LocalNative) :
    ((Native.plain native).perform h id p w).2.outline =
      ((native.act? w id p).elim w (Act.apply w)).outline := by
  cases hn : native.usesPools with
  | true => rw [perform_eq_apply hn]
  | false =>
    rw [act?_of_not_usesPools hn, perform_plain]
    cases hr : w.performPlain h id p native with
    | error fault => rfl
    | ok out => exact performPlain_keeps hn out hr

/-- Telling the caller changes no more than the caller's machine. -/
@[simp] theorem outline_settle (result : Except Fault Ending) :
    (w.settle id result).2.outline = w.outline := by
  unfold settle
  split <;> simp

end World

end ScriptNatives
