import ScriptNatives.Proofs.Bounded.World

/-!
# Natives with bounded numbers

The natives, carried out by a program that may trap. How many parameters a native needs stands in a
table, and the native itself just takes them by their positions.
-/
namespace ScriptNatives.Bounded

variable {α σ : Type}

/-! ### Plain natives -/

/-- The parameter at position `i`, which is taken without a look at how many there are. -/
def param (p : Params) (i : Nat) : Trial Cell := liftM (item p i)

def answered (r : Trial (Cell × World σ)) : Trial (World.Outcome σ Ending) := do
  let (v, w) ← r
  return (.ok (.returns v), w)

def wrote (value : α → Cell) (r : Trial (World.Outcome σ α)) : Trial (World.Outcome σ Ending) := do
  let (done, w) ← r
  return (done.map fun a => .returns (value a), w)

def free (w : World σ) (id : InstanceId) (c : Cell) : Trial (World.Outcome σ Ending) := do
  let v ← var w c
  if w.isOwner v id then
    match ← (freeVar? w v).run with
    | some (base, w) => return (.ok (.free (Int32.ofInt base)), w)
    | none => throw (.unsupported c)
  else
    throw (.unsupported c)

def performPlain (h : Host σ) (id : InstanceId) (p : Params) (w : World σ) :
    LocalNative → Trial (World.Outcome σ Ending)
  | .handle => answered (createHandle w (.ofInstance id))
  | .sourceHandle =>
    match w.source with
    | some source => answered (createHandle w (.ofInstance source))
    | none => calm (w.answer 0)
  | .name => do
    let buffer ← param p 0
    let size ← param p 1
    let m ← calm (w.machine id)
    wrote (·) (writeName w id m.name buffer size)
  | .publicIndex => do
    let name ← nameAt w id (← param p 0) .function
    let index ← calm (w.publicIndex id name)
    calm (w.answer index)
  | .publicName => do
    let index ← param p 0
    let buffer ← param p 1
    let size ← param p 2
    let name ← calm (w.publicName id index)
    wrote (·) (writeName w id name buffer size)
  | .publicNameString => do
    let name ← calm (w.publicName id (← param p 0))
    answered (calm (.ok (w.makeString h name)))
  | .encodePublic => do
    let index ← param p 0
    let dest ← param p 1
    wrote (fun _ => 1) (storePublicToken w id index dest)
  | .encodeNative => do
    let name ← nameAt w id (← param p 0) .function
    wrote (fun _ => 1) (storeNativeToken w id name (← param p 1))
  | .var => do answered (createVar w id (← param p 0).toInt 1)
  | .varArray => do
    let address ← param p 0
    let size ← param p 1
    answered (createVar w id address.toInt size.toInt)
  | .publicVar => do
    let name ← nameAt w id (← param p 0) .name
    answered (publicVar w id name)
  | .set => do
    let c ← param p 0
    let value ← param p 1
    let v ← var w c
    answered (writeVar w v (p.getD 2 0).toInt value)
  | .get => do
    let v ← var w (← param p 0)
    let value ← readVar w v (p.getD 1 0).toInt
    calm (w.answer value)
  | .valid => do calm (w.answerFlag (w.vars.contains (← param p 0)))
  | .delete => do
    let c ← param p 0
    let _ ← var w c
    let (removed, w) ← releaseVar w c
    calm (w.answerFlag removed)
  | .linked => do
    let v ← var w (← param p 0)
    let region ← (varRegion? w v).run
    calm (w.answerFlag region.isSome)
  | .inside => do
    let v ← var w (← param p 0)
    let region ← (varRegion? w v).run
    calm (w.answerFlag (region == some .data))
  | .sizeof => do
    let v ← var w (← param p 0)
    calm (w.answer (Int32.ofInt v.size))
  | .my => do
    let v ← var w (← param p 0)
    calm (w.answerFlag (w.isOwner v id))
  | .toRef => do
    let c ← param p 0
    let dest ← param p 1
    let offset ← varOffset w c id dest.toInt
    wrote (fun _ => 1) (store w id dest [offset])
  | .error => do calm (w.ends (.raises ⟨← param p 0⟩ (p.getD 1 0)))
  | .alloc => do calm (w.ends (.alloc (← param p 0) (p.getD 1 1 != 0)))
  | .free => do free w id (← param p 0)
  -- the others take no parameter that has to be there, and touch neither cells nor pools
  | native => calm (w.performPlain h id p native)

variable {w : World σ} {id : InstanceId} {p : Params} {c : Cell} {i : Nat}

theorem param_eq (hc : p[i]? = some c) : param p i = calm (.ok c) := by
  rw [param, item_eq hc]
  rfl

@[simp] theorem answered_calm (r : Except Fault (Cell × World σ)) :
    answered (calm r) = calm (World.answered r) := by
  cases r <;> rfl

@[simp] theorem wrote_calm (value : α → Cell) (r : Except Fault (World.Outcome σ α)) :
    wrote value (calm r) = calm (World.wrote value r) := by
  cases r <;> rfl

theorem free_eq (hw : w.Sound) (id : InstanceId) (c : Cell) :
    free w id c = calm (w.free id c) := by
  rw [free, var_eq]
  refine calm_bind fun v _ => ?_
  split
  · rw [freeVar?_eq hw, run_calm?, trial_lift_ok_bind]
    cases w.freeVar? v <;> rfl
  · rfl

theorem exists_param {n : Nat} (hp : n ≤ p.length) (hi : i < n) : ∃ c, p[i]? = some c :=
  ⟨_, List.getElem?_eq_getElem (Nat.lt_of_lt_of_le hi hp)⟩

theorem need_eq (hc : p[i]? = some c) : p.need i = .ok c := Params.need_eq_ok_iff.mpr hc

/-- What does not trap in any of its steps does not trap. -/
theorem calm_bind_calm {β : Type} (x : Except Fault α) (g : α → Except Fault β) :
    (calm x >>= fun a => calm (g a)) = calm (x >>= g) := calm_bind fun _ _ => rfl

/-- A native that has its parameters does not trap. The cases go by how many these are. -/
theorem performPlain_eq (hw : w.Sound) (hpools : w.PoolsInOrder) (h : Host σ) (id : InstanceId)
    (native : LocalNative) (hp : native.minParams ≤ p.length) :
    performPlain h id p w native = calm (w.performPlain h id p native) := by
  cases native with
  | handle => simp only [performPlain, World.performPlain, createHandle_eq hpools, answered_calm]
  | sourceHandle =>
    simp only [performPlain, World.performPlain, createHandle_eq hpools, answered_calm]
    cases w.source <;> rfl
  | publicIndex | publicNameString | var | publicVar | get | valid | delete | linked | inside
  | sizeof | my | error | alloc | free =>
    obtain ⟨c, hc⟩ := exists_param hp (i := 0) (by decide)
    simp only [performPlain, World.performPlain, param_eq hc, need_eq hc,
      ScriptNatives.ok_bind, nameAt_eq hw, publicVar_eq hpools, createVar_eq hpools, var_eq,
      readVar_eq hw, varRegion?_eq hw, free_eq hw, releaseVar_eq hpools, run_calm?,
      trial_lift_ok_bind, answered_calm, calm_bind_calm, World.isLinked, World.isInside]
  | name | encodePublic | encodeNative | varArray | set | toRef =>
    obtain ⟨c, hc⟩ := exists_param hp (i := 0) (by decide)
    obtain ⟨d, hd⟩ := exists_param hp (i := 1) (by decide)
    simp only [performPlain, World.performPlain, param_eq hc, need_eq hc, param_eq hd, need_eq hd,
      ScriptNatives.ok_bind, nameAt_eq hw, writeName_eq hw, storePublicToken_eq hw,
      storeNativeToken_eq hw, createVar_eq hpools, var_eq, writeVar_eq hw, varOffset_eq,
      store_eq hw, answered_calm, wrote_calm, calm_bind_calm]
  | publicName =>
    obtain ⟨index, hindex⟩ := exists_param hp (i := 0) (by decide)
    obtain ⟨buffer, hbuffer⟩ := exists_param hp (i := 1) (by decide)
    obtain ⟨size, hsize⟩ := exists_param hp (i := 2) (by decide)
    simp only [performPlain, World.performPlain, param_eq hindex, need_eq hindex,
      param_eq hbuffer, need_eq hbuffer, param_eq hsize, need_eq hsize,
      ScriptNatives.ok_bind, writeName_eq hw, wrote_calm, calm_bind_calm]
  | self | source | nameString | numPublics | fork | commit | forkEnd | parallelBegin
  | parallelEnd | tailCall => rfl

/-! ### Natives that call -/

def readCall (w : World σ) (id : InstanceId) (kind : FunctionKind) (p : Params) (i : Nat) :
    Trial Call := do
  let function ← nameAt w id (← param p 1) .function
  let format ← textAt w id (← param p i)
  let values ← itemsFrom p (i + 1)
  let target ← param p 0
  return ⟨id, .ofCell target, function, kind, ⟨format, values⟩⟩

def performCall (h : Host σ) (id : InstanceId) (kind : FunctionKind) (p : Params) (w : World σ) :
    Trapping (Except Fault Ending × World σ) := do
  match ← (readCall w id kind p 2).run with
  | .error fault => return (.error fault, w)
  | .ok c =>
    let (result, w) := World.call h c w
    return (result.map .returns, w)

/-- Runs a guarded call native, which stores the value of the last call that succeeded in the world
that the host leaves. -/
def performTryCall (h : Host σ) (id : InstanceId) (kind : FunctionKind) (p : Params)
    (w : World σ) : Trapping (Except Fault Ending × World σ) := do
  match ← (readCall w id kind p 3).run with
  | .error fault => return (.error fault, w)
  | .ok c =>
    let (out, w) := World.tryCall h c w
    match out.result with
    | none => return (.ok (.returns out.status.code), w)
    | some value =>
      let dest ← item p 2
      match ← (store w id dest [value]).run with
      | .ok (done, w) => return (done.map fun _ => .returns out.status.code, w)
      | .error fault => return (.error fault, w)

theorem readCall_eq (hw : w.Sound) (id : InstanceId) (kind : FunctionKind) (hlow : 1 < i)
    (hi : i < p.length) : readCall w id kind p i = calm (w.readCall id kind p i) := by
  obtain ⟨target, htarget⟩ := exists_param hi (i := 0) (by omega)
  obtain ⟨function, hfunction⟩ := exists_param hi (i := 1) (by omega)
  obtain ⟨format, hformat⟩ := exists_param (Nat.succ_le_of_lt hi) (Nat.lt_succ_self i)
  simp only [readCall, World.readCall, param_eq htarget, need_eq htarget, param_eq hfunction,
    need_eq hfunction, param_eq hformat, need_eq hformat, ScriptNatives.ok_bind, nameAt_eq hw,
    textAt_eq hw, itemsFrom_eq (Nat.succ_le_of_lt hi), trial_lift_ok_bind, calm_bind_calm,
    pure_eq_calm]
  rfl

theorem performCall_eq (hw : w.Sound) (h : Host σ) (id : InstanceId) (kind : FunctionKind)
    (hp : 3 ≤ p.length) : performCall h id kind p w = .ok (w.performCall h id kind p) := by
  rw [performCall, readCall_eq hw id kind (by decide) hp, run_calm, ok_bind, World.performCall]
  cases w.readCall id kind p 2 <;> rfl

theorem performTryCall_eq (hw : w.Sound) (h : Host σ) (id : InstanceId) (kind : FunctionKind)
    (hp : 4 ≤ p.length)
    (hafter : ∀ c, w.readCall id kind p 3 = .ok c → (World.tryCall h c w).2.Sound) :
    performTryCall h id kind p w = .ok (w.performTryCall h id kind p) := by
  obtain ⟨dest, hdest⟩ := exists_param hp (i := 2) (by decide)
  rw [performTryCall, readCall_eq hw id kind (by decide) hp, run_calm, ok_bind,
    World.performTryCall, need_eq hdest]
  cases hc : w.readCall id kind p 3 with
  | error fault => rfl
  | ok c =>
    simp only [item_eq hdest, ok_bind]
    cases hresult : (World.tryCall h c w).1.result with
    | none => rfl
    | some value =>
      simp only [store_eq (hafter c hc), run_calm, ok_bind]
      cases (World.tryCall h c w).2.store id dest [value] <;> rfl

/-! ### Running a native by name -/

def perform (h : Host σ) (id : InstanceId) (p : Params) (w : World σ) :
    Native → Trapping (Except Fault Ending × World σ)
  | .call kind => performCall h id kind p w
  | .tryCall kind => performTryCall h id kind p w
  | .plain native => do
    match ← (performPlain h id p w native).run with
    | .ok outcome => return outcome
    | .error fault => return (.error fault, w)

def evaluate (w : World σ) (h : Host σ) (id : InstanceId) (name : String) (p : Params) :
    Trapping (Except Fault Ending × World σ) :=
  match Native.find? name with
  | none => .ok (.error (.unknownFunction .native name), w)
  | some native =>
    if p.length < native.minParams then
      .ok (.error (.fewParams native.minParams p.length), w)
    else
      perform h id p w native

def runNative (w : World σ) (h : Host σ) (id : InstanceId) (name : String) (p : Params) :
    Trapping (Except Fault Cell × World σ) := do
  let (result, w) ← evaluate w h id name p
  return w.settle id result

theorem perform_eq (hw : w.Sound) (hpools : w.PoolsInOrder) (h : Host σ) (id : InstanceId)
    (native : Native) (hp : native.minParams ≤ p.length)
    (hafter : ∀ v, World.Chained h w (native.hostCalls h id p w) v → v.Sound) :
    perform h id p w native = .ok (native.perform h id p w) := by
  cases native with
  | call kind => exact performCall_eq hw h id kind hp
  | tryCall kind =>
    obtain ⟨dest, hdest⟩ := exists_param (show 4 ≤ p.length from hp) (i := 2) (by decide)
    refine performTryCall_eq hw h id kind hp fun c hc => hafter _ ?_
    simpa [Native.hostCalls, need_eq hdest, hc] using World.chained_tryCall h c w
  | plain native =>
    rw [perform, performPlain_eq hw hpools h id native hp, run_calm, ok_bind, Native.perform]
    cases w.performPlain h id p native <;> rfl

theorem evaluate_eq (hw : w.Sound) (hpools : w.PoolsInOrder) (h : Host σ) (id : InstanceId)
    (name : String) (p : Params)
    (hafter : ∀ v, World.Chained h w (w.nativeHostCalls h id name p) v → v.Sound) :
    evaluate w h id name p = .ok (w.evaluate h id name p) := by
  unfold evaluate World.evaluate
  unfold World.nativeHostCalls at hafter
  cases hn : Native.find? name with
  | none => rfl
  | some native =>
    simp only [hn] at hafter ⊢
    split
    · rfl
    · next hp =>
      rw [if_neg hp] at hafter
      exact perform_eq hw hpools h id native (Nat.le_of_not_lt hp) hafter

end ScriptNatives.Bounded

namespace ScriptNatives.World

variable {σ : Type} {h : Host σ} {w v : World σ}

/-- A host that leaves worlds that can be had finds such a world each time that it is called, and
the last one that it leaves is one, too. -/
theorem Chained.reachable {calls : List (HostCall × World σ)} (chained : Chained h w calls v)
    (hw : w.Reachable)
    (hosts : ∀ call ∈ calls, call.2.Reachable → (h.run call.1 call.2).2.Reachable) :
    v.Reachable ∧ ∀ call ∈ calls, call.2.Reachable := by
  induction calls generalizing w with
  | nil =>
    obtain rfl : v = w := chained
    exact ⟨hw, by simp⟩
  | cons call calls ih =>
    obtain ⟨rfl, hrest⟩ := chained
    have hleft := hosts call List.mem_cons_self hw
    obtain ⟨hlast, hfound⟩ := ih hrest hleft fun c hc => hosts c (List.mem_cons_of_mem _ hc)
    exact ⟨hlast, List.forall_mem_cons.mpr ⟨hw, hfound⟩⟩

/-- In a world that can be had no native traps, under whatever name and with whatever parameters
it is run, and whether or not the caller is live: a program with bounded numbers does just what is
done without bounds. Nor does a pool trap that values are filtered out of. The host may do between
its calls whatever leads to a world that can be had; then it only ever finds such worlds. -/
theorem Reachable.never_traps (hw : w.Reachable) (h : Host σ) (id : InstanceId) (name : String)
    (p : Params) (hosts : ∀ call ∈ w.nativeHostCalls h id name p,
      call.2.Reachable → (h.run call.1 call.2).2.Reachable) :
    Bounded.runNative w h id name p = .ok (w.runNative h id name p) ∧
      (∀ call ∈ w.nativeHostCalls h id name p, call.2.Reachable) ∧
      (∀ keep, Bounded.filter w.vars keep = .ok (w.vars.filter keep)) ∧
      ∀ keep, Bounded.filter w.handles keep = .ok (w.handles.filter keep) := by
  have hpools := hw.poolsInOrder
  obtain ⟨final, hchained, _⟩ := runNative_drives h id name p w
  refine ⟨?_, (hchained.reachable hw hosts).2, Bounded.filter_eq hpools.vars,
    Bounded.filter_eq hpools.handles⟩
  have hevaluate := Bounded.evaluate_eq hw.sound hpools h id name p fun v hv =>
    (hv.reachable hw hosts).1.sound
  rw [Bounded.runNative, hevaluate]
  rfl

/-- An instance with a block that ends at the last aligned address, and a variable of the last cell
that there can be. -/
def lastCell : World Unit :=
  let acts : List (Act Unit) := [.register (Scenario.MachineSpec.build {}),
    .onMachine 0 (.allocBlock 0x1FFFFEBF), .createVar ⟨1, Nat.one_pos⟩ 0x7FFFFFF8 1]
  acts.foldl Act.apply (World.create {} ())

theorem lastCell_reachable : lastCell.Reachable := by
  refine (reachable_create {} ()).foldl fun m hm => ?_
  obtain rfl : m = Scenario.MachineSpec.build {} := by simpa using hm
  exact .built {} (by decide)

/-- The last cell is written without a trap, although the address after it is the last but three;
and a native that went for a parameter that is not there would trap. -/
theorem last_cell_is_written :
    let id : InstanceId := ⟨1, by decide⟩
    let h : Host Unit := ⟨fun _ w => (.ok 0, w), fun _ _ => (0, ())⟩
    let p : Params := [1, 0x7FFFFFF8]
    lastCell.Reachable ∧
      Bounded.runNative lastCell h id "amx_to_ref" p =
        .ok (lastCell.runNative h id "amx_to_ref" p) ∧
      (lastCell.runNative h id "amx_to_ref" p).1 = .ok 1 ∧
      (Bounded.performPlain h id [] lastCell .get).run = .error (.badIndex 0 0) := by
  intro id h p
  have calm := lastCell_reachable.never_traps h id "amx_to_ref" p fun call hcall => by
    cases (show call ∈ [] from hcall)
  exact ⟨lastCell_reachable, calm.1, by rfl, by rfl⟩

end ScriptNatives.World
