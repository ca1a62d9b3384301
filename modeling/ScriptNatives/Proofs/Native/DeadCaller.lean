import ScriptNatives.Proofs.Machine.Layout
import ScriptNatives.Proofs.References.Orphans

/-!
# Callers that are not live

A native runs before its caller is looked up. Most natives look the caller up themselves, and fail
before they change anything. Six that work through the pools do not, so what they did stands behind
the failure. A variable that is made in this way for an instance that was unloaded has nobody to
take it along: no later unloading reclaims it.
-/
namespace ScriptNatives

variable {σ : Type}

namespace World

variable {w : World σ} {h : Host σ} {id : InstanceId} {p : Params}

/-- The world `u` is `w` but for the pools and the values of cells. -/
structure SameFrame (w u : World σ) : Prop where
  machines : u.machines.map Machine.blank = w.machines.map Machine.blank
  loaded : u.loaded = w.loaded
  issued : u.issued = w.issued
  hooks : u.hooks = w.hooks
  notices : u.notices = w.notices
  source : u.source = w.source
  limits : u.limits = w.limits
  host : u.host = w.host

theorem sameFrame_pools (w : World σ) (vars : Slots Var) (handles : Slots Handle) :
    SameFrame w { w with vars, handles } := ⟨rfl, rfl, rfl, rfl, rfl, rfl, rfl, rfl⟩

theorem SameFrame.refl (w : World σ) : SameFrame w w := sameFrame_pools w w.vars w.handles

theorem sameFrame_putMachine {m m' : Machine} (hm : w.machine? id = some m)
    (hblank : m'.blank = m.blank) : SameFrame w (w.putMachine id m') := by
  have hmachines := map_machines_putMachine Machine.blank hm hblank
  cases he : w.entry? id with
  | none =>
    rw [putMachine, he]
    exact .refl w
  | some entry =>
    rw [putMachine, he] at hmachines ⊢
    exact ⟨hmachines, rfl, rfl, rfl, rfl, rfl, rfl, rfl⟩

theorem sameFrame_createVar (owner : InstanceId) (address count : Int) :
    SameFrame w ((Act.createVar owner address count).apply w) := by
  simp only [Act.apply]
  cases hr : w.createVar owner address count with
  | error fault => exact .refl w
  | ok out =>
    obtain ⟨v, vars, _, _, _, _, hu⟩ := createVar_eq_ok hr
    simp only [worldAfter, hu]
    exact sameFrame_pools w vars w.handles

theorem sameFrame_createHandle (k : Handle) : SameFrame w ((Act.createHandle k).apply w) := by
  simp only [Act.apply, createHandle]
  cases w.handles.insert? k with
  | none => exact .refl w
  | some out => exact sameFrame_pools w w.vars out.2

theorem sameFrame_releaseVar (id : Cell) : SameFrame w ((Act.releaseVar id).apply w) := by
  rw [Act.apply, releaseVar_snd]
  exact sameFrame_pools w _ w.handles

theorem sameFrame_writeVar (v : Var) (index : Int) (value : Cell) :
    SameFrame w ((Act.writeVar v index value).apply w) := by
  simp only [Act.apply, writeVar]
  cases v.element index with
  | error fault => exact .refl w
  | ok address =>
    cases hm : w.machine? v.owner with
    | none => simpa [machine, hm] using SameFrame.refl w
    | some m =>
      cases hx : m.exchange? address value with
      | none => simpa [machine, hm, hx] using SameFrame.refl w
      | some out =>
        have hframe := sameFrame_putMachine hm (Machine.blank_exchange? hx)
        simpa [machine, hm, hx, worldAfter] using hframe

/-- An act that a native comes down to leaves the frame of the world. -/
theorem sameFrame_act {native : LocalNative} {a : Act σ} (ha : native.act? w id p = some a) :
    SameFrame w (a.apply w) := by
  cases LocalNative.comesDownTo ha with
  | makesVar address count => exact sameFrame_createVar _ _ _
  | makesHandle => exact sameFrame_createHandle _
  | makesSourceHandle => exact sameFrame_createHandle _
  | writesVar v index value => exact sameFrame_writeVar v index value
  | releasesVar c => exact sameFrame_releaseVar c

/-! ### Looking up a caller that is not live -/

theorem textAt_of_dead (dead : w.isLive id = false) (address : Cell) :
    w.textAt id address = .error (deadInstance id) := by
  simp [textAt, machine_eq_error dead]

theorem nameAt_of_dead (dead : w.isLive id = false) (address : Cell) (argument : Argument) :
    w.nameAt id address argument = .error (deadInstance id) := by
  simp [nameAt, textAt_of_dead dead]

theorem publicName_of_dead (dead : w.isLive id = false) (index : Cell) :
    w.publicName id index = .error (deadInstance id) := by
  simp [publicName, machine_eq_error dead]

theorem store_of_dead (dead : w.isLive id = false) (address : Cell) (values : List Cell) :
    w.store id address values = .error (deadInstance id) := by
  simp [store, machine_eq_error dead]

theorem isOwner_of_dead (dead : w.isLive id = false) (v : Var) : w.isOwner v id = false := by
  simp [isOwner, dead]

theorem varOffset_of_dead (dead : w.isLive id = false) (var : Cell) (origin : Int) :
    ∃ fault, w.varOffset var id origin = .error fault := by
  cases hv : w.var var with
  | error fault => exact ⟨fault, by simp [varOffset, hv]⟩
  | ok v => exact ⟨.unsupported var, by simp [varOffset, hv, isOwner_of_dead dead]⟩

theorem readCall_of_dead (dead : w.isLive id = false) (kind : FunctionKind) (p : Params) (i : Nat) :
    ∃ fault, w.readCall id kind p i = .error fault := by
  cases h0 : p.need 0 with
  | error fault => exact ⟨fault, by simp [readCall, h0]⟩
  | ok target =>
    cases h1 : p.need 1 with
    | error fault => exact ⟨fault, by simp [readCall, h0, h1]⟩
    | ok name => exact ⟨deadInstance id, by simp [readCall, h0, h1, nameAt_of_dead dead]⟩

/-- A native that does not work through the pools changes nothing for a caller that is not live. -/
theorem performPlain_of_dead (dead : w.isLive id = false) {native : LocalNative}
    (hn : native.usesPools = false) :
    Ensures (w.performPlain h id p native) fun r => r.2 = w := by
  cases native with
  | handle | sourceHandle | var | varArray | publicVar | set | delete => cases hn
  | self | source | commit | forkEnd | parallelBegin | parallelEnd | tailCall =>
    exact ensures_ok rfl
  | get | valid | linked | inside | sizeof | my | error | alloc =>
    repeat refine ensures_bind fun _ _ => ?_
    exact ensures_ok rfl
  | name | nameString | numPublics =>
    refine ensures_bind fun m hm => ?_
    rw [machine_eq_error dead] at hm
    cases hm
  | publicIndex | encodeNative =>
    refine ensures_bind fun a _ => ensures_bind fun name hname => ?_
    rw [nameAt_of_dead dead] at hname
    cases hname
  | publicName | publicNameString =>
    refine ensures_bind fun index _ => ensures_bind fun name hname => ?_
    rw [publicName_of_dead dead] at hname
    cases hname
  | encodePublic =>
    refine ensures_bind fun index _ => ensures_bind fun dest _ => ?_
    unfold storePublicToken
    split
    · rw [store_of_dead dead]
      exact ensures_error _
    · exact ensures_error _
  | toRef =>
    refine ensures_bind fun dest _ => ensures_bind fun var _ => ?_
    refine ensures_bind fun offset hoffset => ?_
    obtain ⟨fault, hfault⟩ := varOffset_of_dead dead var dest.toInt
    rw [hfault] at hoffset
    cases hoffset
  | fork =>
    have hcontext : w.context? id = none := by simp [context?, entry?_eq_none_iff.mpr dead]
    simp only [performPlain, fork, hcontext]
    exact ensures_error _
  | free =>
    refine ensures_bind fun var _ => ensures_bind fun v _ => ?_
    rw [isOwner_of_dead dead]
    exact ensures_error _

/-! ### Running natives -/

theorem hostCalls_of_dead (dead : w.isLive id = false) (h : Host σ) (p : Params)
    (native : Native) : native.hostCalls h id p w = [] := by
  cases native with
  | plain native => rfl
  | call kind =>
    obtain ⟨fault, hfault⟩ := readCall_of_dead dead kind p 2
    simp [Native.hostCalls, hfault]
  | tryCall kind =>
    obtain ⟨fault, hfault⟩ := readCall_of_dead dead kind p 3
    cases hdest : p.need 2 <;> simp [Native.hostCalls, hfault, hdest]

/-- For a caller that is not live, a native leaves the world as its act does. -/
theorem perform_of_dead (dead : w.isLive id = false) (h : Host σ) (p : Params) (native : Native) :
    (native.perform h id p w).2 = (native.act? w id p).elim w (Act.apply w) := by
  cases native with
  | plain native =>
    cases hpools : native.usesPools with
    | true => exact perform_eq_apply hpools
    | false =>
      rw [perform_plain, Native.act?, act?_of_not_usesPools hpools]
      cases hr : w.performPlain h id p native with
      | error fault => rfl
      | ok out => exact performPlain_of_dead dead hpools out hr
  | call kind =>
    obtain ⟨fault, hfault⟩ := readCall_of_dead dead kind p 2
    simp [Native.perform, Native.act?, performCall, hfault]
  | tryCall kind =>
    obtain ⟨fault, hfault⟩ := readCall_of_dead dead kind p 3
    cases hdest : p.need 2 <;> simp [Native.perform, Native.act?, performTryCall, hfault, hdest]

theorem evaluate_of_dead (dead : w.isLive id = false) (h : Host σ) (name : String) (p : Params) :
    (w.evaluate h id name p).2 = (w.nativeAct? id name p).elim w (Act.apply w) ∧
      w.nativeHostCalls h id name p = [] := by
  rcases evaluate_cases h id name p w with
    ⟨hworld, hact, hcalls⟩ | ⟨native, _, hrun, hact, hcalls⟩
  · rw [hworld, hact, hcalls]
    exact ⟨rfl, rfl⟩
  · rw [hrun, hact, hcalls]
    exact ⟨perform_of_dead dead h p native, hostCalls_of_dead dead h p native⟩

theorem sameFrame_nativeAct (id : InstanceId) (name : String) (p : Params) (w : World σ) :
    SameFrame w ((w.nativeAct? id name p).elim w (Act.apply w)) := by
  cases ha : w.nativeAct? id name p with
  | none => exact .refl w
  | some a =>
    obtain ⟨native, _, hact⟩ := exists_native_of_nativeAct? ha
    cases native with
    | plain native => exact sameFrame_act hact
    | call _ | tryCall _ => cases hact

/-- The names of the natives that change the world without a look at their caller. -/
def callerlessNatives : List String :=
  ["amx_handle", "amx_source_handle", "amx_var", "amx_var_arr", "amx_set", "amx_delete"]

theorem act?_of_dead (dead : w.isLive id = false) {native : Native}
    (hname : native.scriptName ∉ callerlessNatives) (p : Params) : native.act? w id p = none := by
  cases native with
  | call _ | tryCall _ => rfl
  | plain native =>
    cases native with
    | handle | sourceHandle | var | varArray | set | delete => exact absurd (by decide) hname
    | publicVar => simp [Native.act?, LocalNative.act?, machine?_eq_none_iff.mpr dead]
    | _ => rfl

theorem nativeAct?_of_dead (dead : w.isLive id = false) {name : String}
    (hname : name ∉ callerlessNatives) (p : Params) : w.nativeAct? id name p = none := by
  refine Option.eq_none_iff_forall_ne_some.mpr fun a ha => ?_
  obtain ⟨native, rfl, hact⟩ := exists_native_of_nativeAct? ha
  rw [act?_of_dead dead hname p] at hact
  cases hact

/-- What a native comes to for a caller that is not live. -/
theorem runNative_eq_of_dead (dead : w.isLive id = false) (h : Host σ) (name : String)
    (p : Params) : w.runNative h id name p =
      (.error (deadInstance id), (w.nativeAct? id name p).elim w (Act.apply w)) := by
  obtain ⟨hevaluate, _⟩ := evaluate_of_dead dead h name p
  have hdead : ((w.nativeAct? id name p).elim w (Act.apply w)).machine? id = none := by
    rw [machine?_eq_none_iff, isLive, entry?, (sameFrame_nativeAct id name p w).loaded]
    exact dead
  simp only [runNative, settle, hevaluate, hdead]

/-- A native that is run for a caller that is not live fails with the fault of naming that caller,
and the host is not called. Six natives work through the pools without a look at their caller:
what they do stands, and it is just what the same act does when it is carried out directly. Any
other native changes nothing at all; and none changes more than the pools and the value of
cells. -/
theorem runNative_of_dead (h : Host σ) (name : String) (p : Params)
    (dead : w.isLive id = false) :
    (w.runNative h id name p).1 = .error (deadInstance id) ∧
      w.nativeHostCalls h id name p = [] ∧
      (w.runNative h id name p).2 = (w.nativeAct? id name p).elim w (Act.apply w) ∧
      (name ∉ callerlessNatives → (w.runNative h id name p).2 = w) ∧
      SameFrame w (w.runNative h id name p).2 := by
  have hrun := runNative_eq_of_dead dead h name p
  refine ⟨congrArg Prod.fst hrun, (evaluate_of_dead dead h name p).2, congrArg Prod.snd hrun,
    fun hname => ?_, ?_⟩
  · rw [hrun, nativeAct?_of_dead dead hname p]
    rfl
  · rw [hrun]
    exact sameFrame_nativeAct id name p w

/-- An instance that was unloaded makes a variable, and is told that it failed. -/
theorem var_of_unloaded_caller :
    let id : InstanceId := ⟨1, by decide⟩
    let loaded : World Unit := ((World.create {} ()).register (Machine.ofLayout "m" 64 256)).2
    let w : World Unit := (loaded.unload id).2
    let h : Host Unit := ⟨fun _ w => (.ok 0, w), fun _ _ => (0, ())⟩
    w.isLive id = false ∧ (w.runNative h id "amx_var" [0]).1 = .error (deadInstance id) ∧
      (w.runNative h id "amx_var" [0]).2 = (Act.createVar id 0 1).apply w := by
  intro id loaded w h
  have dead : w.isLive id = false := by decide
  obtain ⟨hfault, _, hworld, _⟩ := runNative_of_dead h "amx_var" [0] dead
  exact ⟨dead, hfault, hworld⟩

/-- So it is not true that a native has no effect when its caller is not live, and the effect may be
there for good: the variable goes only if it is deleted by its id, or if the pool itself is told to
reclaim what the instance owned. -/
theorem dead_caller_leaves_orphan :
    let id : InstanceId := ⟨1, by decide⟩
    let w : World Unit :=
      (Act.unload id).apply ((Act.register (Machine.ofLayout "m" 64 256)).apply (.create {} ()))
    let h : Host Unit := ⟨fun _ w => (.ok 0, w), fun _ _ => (0, ())⟩
    let after := (w.runNative h id "amx_var" [0]).2
    w.isLive id = false ∧ (w.runNative h id "amx_var" [0]).1 = .error (deadInstance id) ∧
      w.vars.get? 1 = none ∧ ∃ v, after.vars.get? 1 = some v ∧
        ∀ log later, Evolves after log later → .deletedVar 1 ∉ history log →
          .reclaimedVars id ∉ history log → later.vars.get? 1 = some v := by
  intro id w h after
  have unloaded := ((Evolves.start (World.create {} ())).act
    (.register (Machine.ofLayout "m" 64 256))).act (.unload id)
  have run := unloaded.invoke h id "amx_var" [0] [] (by rfl) (by simp)
  have hvar : after.vars.get? 1 =
      some ⟨id, 0, 1, by decide, by decide, by decide, by decide⟩ := by decide +kernel
  refine ⟨by decide, by rfl, by decide, _, hvar, fun log later next hdeleted hreclaimed => ?_⟩
  exact (run.orphans_stay next (by decide)).1 1 _ hvar rfl hdeleted hreclaimed

end World

end ScriptNatives
