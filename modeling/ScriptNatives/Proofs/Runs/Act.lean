import ScriptNatives.Native.Perform
import ScriptNatives.Scenario.MachineStep

/-!
# Acts and natives, one at a time

An act is one thing that an embedding program may do to a world without running a native: it loads
and unloads instances, uses the two pools directly, drives a machine by hand, and so on. Of a
native that calls nobody, what matters to the pools is the one act that it carries out on them, if
any.
-/
namespace ScriptNatives

variable {σ : Type}

inductive Act (σ : Type) where
  /-- Registers a machine that is not yet known. -/
  | register (m : Machine)
  /-- Registers the machine of that number once more. -/
  | share (number : Nat)
  | unload (id : InstanceId)
  /-- Subscribes an observer to the unloading of instances. -/
  | observe (tag : String)
  | createVar (owner : InstanceId) (address count : Int)
  | releaseVar (id : Cell)
  | reclaimVars (owner : InstanceId)
  | writeVar (v : Var) (index : Int) (value : Cell)
  | freeVar (v : Var)
  | createHandle (k : Handle)
  | releaseHandle (id : Cell)
  | reclaimHandles (context : InstanceId)
  /-- Carries out a step on the machine of that number. -/
  | onMachine (number : Nat) (step : Scenario.MachineStep)
  | modifyContext (id : InstanceId) (f : Context → Context)
  | enterSource (source : Option InstanceId)
  | leaveSource (mark : World.SourceMark)
  /-- Changes what the host keeps for itself. -/
  | changeHost (f : σ → σ)

/-- The world after a computation, which is the one before if it failed. -/
def World.worldAfter {α : Type} (w : World σ) : Except Fault (α × World σ) → World σ
  | .ok (_, after) => after
  | .error _ => w

/-- What holds of the world before a computation and of every world that it returns. -/
theorem World.worldAfter_keeps {α : Type} {P : World σ → Prop} {w : World σ}
    {r : Except Fault (α × World σ)} (hw : P w) (hr : ∀ out, r = .ok out → P out.2) :
    P (w.worldAfter r) := by
  cases r with
  | error fault => exact hw
  | ok out => exact hr out rfl

def Act.apply (w : World σ) : Act σ → World σ
  | register m => (w.register m).2
  | share number => if h : number < w.machines.size then (w.registerShared ⟨number, h⟩).2 else w
  | unload id => (w.unload id).2
  | observe tag => w.onUnload (.observe tag)
  | createVar owner address count => w.worldAfter (w.createVar owner address count)
  | releaseVar id => (w.releaseVar id).2
  | reclaimVars owner => (w.reclaimVars owner).2
  | writeVar v index value => w.worldAfter (w.writeVar v index value)
  | freeVar v => (w.freeVar? v).elim w (·.2)
  | createHandle k => w.worldAfter (w.createHandle k)
  | releaseHandle id => (w.releaseHandle? id).elim w (·.2)
  | reclaimHandles context => (w.reclaimHandles context).2
  | onMachine number step =>
    (w.machines[number]?).elim w fun m => w.setMachine number (step.perform m).2
  | modifyContext id f => w.modifyContext id f
  | enterSource source => (w.enterSource source).2
  | leaveSource mark => w.leaveSource mark
  | changeHost f => { w with host := f w.host }

/-- To take a variable back is to remove it from its pool, if it is there. -/
theorem World.releaseVar_snd (w : World σ) (id : Cell) :
    (w.releaseVar id).2 = { w with vars := (w.vars.remove? id).elim w.vars (·.2) } := by
  unfold releaseVar
  cases w.vars.remove? id <;> rfl

/-- To take a handle back is to remove it from its pool, if it is there. -/
theorem Act.apply_releaseHandle (w : World σ) (id : Cell) : (releaseHandle id).apply w =
    { w with handles := (w.handles.remove? id).elim w.handles (·.2) } := by
  simp only [apply, World.releaseHandle?]
  cases w.handles.remove? id <;> rfl

/-- The act that a plain native comes down to, if it works through one of the pools: it puts
something in, takes something out, or writes through a reference. -/
def LocalNative.act? (w : World σ) (id : InstanceId) (p : Params) : LocalNative → Option (Act σ)
  | handle => some (.createHandle (.ofInstance id))
  | sourceHandle => w.source.map fun source => .createHandle (.ofInstance source)
  | var => p[0]?.map fun address => .createVar id address.toInt 1
  | varArray => do return .createVar id (← p[0]?).toInt (← p[1]?).toInt
  | publicVar => do
    let m ← w.machine? id
    let name ← m.readText? (← p[0]?).toInt w.limits.maxNameLength
    if name.isEmpty then none else return .createVar id (← m.publicVar? name) 1
  | set => do return .writeVar (← w.vars.get? (← p[0]?)) (p.getD 2 0).toInt (← p[1]?)
  | delete => p[0]?.map .releaseVar
  | _ => none

/-- The natives that come down to an act on the pools or through them. -/
def LocalNative.usesPools : LocalNative → Bool
  | handle | sourceHandle | var | varArray | publicVar | set | delete => true
  | _ => false

/-- The acts that a plain native can come down to. What it makes is the caller's, but for the handle
of the source. -/
inductive LocalNative.ComesDownTo (w : World σ) (id : InstanceId) : LocalNative → Act σ → Prop where
  | makesVar {native : LocalNative} (address count : Int) :
      ComesDownTo w id native (.createVar id address count)
  | makesHandle {native : LocalNative} :
      ComesDownTo w id native (.createHandle (.ofInstance id))
  | makesSourceHandle {source : InstanceId} (hsource : w.source = some source) :
      ComesDownTo w id .sourceHandle (.createHandle (.ofInstance source))
  | writesVar {native : LocalNative} (v : Var) (index : Int) (value : Cell) :
      ComesDownTo w id native (.writeVar v index value)
  | releasesVar {native : LocalNative} (c : Cell) : ComesDownTo w id native (.releaseVar c)

theorem LocalNative.comesDownTo {native : LocalNative} {w : World σ} {id : InstanceId} {p : Params}
    {a : Act σ} (ha : native.act? w id p = some a) : native.ComesDownTo w id a := by
  cases native with
  | handle =>
    obtain rfl := Option.some.inj ha
    exact .makesHandle
  | sourceHandle =>
    obtain ⟨source, hsource, rfl⟩ := Option.map_eq_some_iff.mp ha
    exact .makesSourceHandle hsource
  | var =>
    obtain ⟨address, _, rfl⟩ := Option.map_eq_some_iff.mp ha
    exact .makesVar _ _
  | varArray =>
    simp only [act?, Option.bind_eq_bind, Option.bind_eq_some_iff, Option.pure_def,
      Option.some.injEq] at ha
    obtain ⟨address, _, count, _, rfl⟩ := ha
    exact .makesVar _ _
  | publicVar =>
    simp only [act?, Option.bind_eq_bind, Option.bind_eq_some_iff, Option.pure_def] at ha
    obtain ⟨m, _, a, _, name, _, hname⟩ := ha
    split at hname
    · cases hname
    · obtain ⟨address, _, hact⟩ := Option.bind_eq_some_iff.mp hname
      obtain rfl := Option.some.inj hact
      exact .makesVar _ _
  | set =>
    simp only [act?, Option.bind_eq_bind, Option.bind_eq_some_iff, Option.pure_def,
      Option.some.injEq] at ha
    obtain ⟨var, _, v, _, value, _, rfl⟩ := ha
    exact .writesVar _ _ _
  | delete =>
    obtain ⟨c, _, rfl⟩ := Option.map_eq_some_iff.mp ha
    exact .releasesVar c
  | _ => cases ha

/-- Every native is found by its name. -/
theorem Native.find?_scriptName (native : Native) : find? native.scriptName = some native := by
  cases native with
  | call kind => cases kind <;> decide
  | tryCall kind => cases kind <;> decide
  | plain native => cases native <;> decide

/-- The act that a native comes down to. The natives that call other instances leave everything to
the host. -/
def Native.act? (w : World σ) (id : InstanceId) (p : Params) : Native → Option (Act σ)
  | plain native => native.act? w id p
  | call _ | tryCall _ => none

def World.nativeAct? (w : World σ) (id : InstanceId) (name : String) (p : Params) :
    Option (Act σ) :=
  match Native.find? name with
  | some native => if p.length < native.minParams then none else native.act? w id p
  | none => none

namespace World

theorem exists_native_of_nativeAct? {w : World σ} {id : InstanceId} {name : String} {p : Params}
    {a : Act σ} (h : w.nativeAct? id name p = some a) :
    ∃ native : Native, native.scriptName = name ∧ native.act? w id p = some a := by
  unfold nativeAct? at h
  split at h
  · next native hfind =>
    split at h
    · cases h
    · exact ⟨native, by simpa using List.find?_some hfind, h⟩
  · cases h

/-! ### Outlines -/

/-- A world without machines, contexts and host: the pools and the hooks that reclaim what is in
them, the live instances and the source. -/
structure Outline where
  vars : Slots Var
  handles : Slots Handle
  hooks : List Hook
  live : List InstanceId
  issued : Nat
  source : Option InstanceId

def outline (w : World σ) : Outline :=
  ⟨w.vars, w.handles, w.hooks, w.liveIds, w.issued, w.source⟩

@[simp] theorem outline_putMachine (w : World σ) (id : InstanceId) (m : Machine) :
    (w.putMachine id m).outline = w.outline := by
  unfold putMachine
  cases w.entry? id <;> rfl

@[simp] theorem outline_modifyContext (w : World σ) (id : InstanceId) (f : Context → Context) :
    (w.modifyContext id f).outline = w.outline := by
  have hlive : (w.modifyContext id f).liveIds = w.liveIds := by
    simp only [liveIds, modifyContext, List.map_map]
    refine List.map_congr_left fun entry _ => ?_
    simp only [Function.comp_apply]
    split <;> rfl
  simp only [outline, hlive]
  rfl

@[simp] theorem outline_makeString (w : World σ) (h : Host σ) (text : String) :
    (w.makeString h text).2.outline = w.outline := rfl

end World

end ScriptNatives
