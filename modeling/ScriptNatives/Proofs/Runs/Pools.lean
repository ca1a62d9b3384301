import ScriptNatives.Proofs.Runs.Machines
import ScriptNatives.Proofs.Slots.Accounts

/-!
# The pools of a world

Whatever is done in a world, its two pools only ever go through operations of their own. So in
every world that can be had they are in order, as a pool is that starts empty.
-/
namespace ScriptNatives

variable {σ : Type}

namespace World

variable {w u v : World σ}

/-- From one world to another each pool goes through operations. -/
structure Operates (w u : World σ) : Prop where
  vars : ∃ ops, u.vars = w.vars.run ops
  handles : ∃ ops, u.handles = w.handles.run ops

theorem Operates.of_eq (hvars : u.vars = w.vars) (hhandles : u.handles = w.handles) :
    Operates w u := ⟨⟨[], hvars⟩, ⟨[], hhandles⟩⟩

theorem Operates.refl (w : World σ) : Operates w w := .of_eq rfl rfl

theorem Operates.trans (first : Operates w u) (second : Operates u v) : Operates w v := by
  obtain ⟨⟨vops, hvars⟩, hops, hhandles⟩ := first
  obtain ⟨⟨vops', hvars'⟩, hops', hhandles'⟩ := second
  refine ⟨⟨vops ++ vops', ?_⟩, hops ++ hops', ?_⟩
  · rw [hvars', hvars, Slots.run, Slots.run, Slots.run, List.foldl_append]
  · rw [hhandles', hhandles, Slots.run, Slots.run, Slots.run, List.foldl_append]

/-- One operation on the variables. -/
theorem Operates.one_on_vars (op : Slots.Op Var) (hvars : u.vars = op.apply w.vars)
    (hhandles : u.handles = w.handles) : Operates w u := ⟨⟨[op], hvars⟩, ⟨[], hhandles⟩⟩

/-- One operation on the handles. -/
theorem Operates.one_on_handles (op : Slots.Op Handle) (hvars : u.vars = w.vars)
    (hhandles : u.handles = op.apply w.handles) : Operates w u := ⟨⟨[], hvars⟩, ⟨[op], hhandles⟩⟩

theorem operates_runHook (id : InstanceId) (w : World σ) (hook : Hook) :
    Operates w (runHook id w hook) := by
  cases hook with
  | reclaimVars => exact .one_on_vars (.filter (·.owner != id)) rfl rfl
  | reclaimHandles => exact .one_on_handles (.filter (·.context != id)) rfl rfl
  | observe tag => exact .of_eq rfl rfl

theorem operates_unload (w : World σ) (id : InstanceId) : Operates w (w.unload id).2 := by
  have hhooks (hooks : List Hook) (w : World σ) : Operates w (hooks.foldl (runHook id) w) := by
    induction hooks generalizing w with
    | nil => exact .refl w
    | cons hook hooks ih => exact (operates_runHook id w hook).trans (ih _)
  unfold unload
  split
  · have hwithout : Operates w (w.without id) := .of_eq rfl rfl
    exact hwithout.trans (hhooks w.hooks _)
  · exact .refl w

theorem Operates.of_outline (h : u.outline = w.outline) : Operates w u :=
  .of_eq (congrArg Outline.vars h) (congrArg Outline.handles h)

theorem operates_createVar {owner : InstanceId} {address count : Int} {out : Cell × World σ}
    (h : w.createVar owner address count = .ok out) : Operates w out.2 := by
  obtain ⟨v, vars, _, _, _, hinsert, hworld⟩ := createVar_eq_ok h
  rw [hworld]
  exact .one_on_vars (.insert v) (by simp [Slots.Op.apply, hinsert]) rfl

theorem operates_createHandle {k : Handle} {out : Cell × World σ}
    (h : w.createHandle k = .ok out) : Operates w out.2 := by
  obtain ⟨handles, hinsert, hworld⟩ := createHandle_eq_ok h
  rw [hworld]
  exact .one_on_handles (.insert k) rfl (by simp [Slots.Op.apply, hinsert])

end World

/-- An act takes the pools through operations. -/
theorem Act.operates (w : World σ) (a : Act σ) : World.Operates w (a.apply w) := by
  cases a with
  | share number =>
    simp only [apply]
    split
    · exact .of_eq rfl rfl
    · exact .refl w
  | unload id => exact World.operates_unload w id
  | createVar owner address count =>
    exact World.worldAfter_keeps (.refl w) fun _ => World.operates_createVar
  | createHandle k => exact World.worldAfter_keeps (.refl w) fun _ => World.operates_createHandle
  | releaseVar id =>
    rw [apply, World.releaseVar_snd]
    exact .one_on_vars (.remove id) rfl rfl
  | releaseHandle id =>
    rw [apply_releaseHandle]
    exact .one_on_handles (.remove id) rfl rfl
  | reclaimVars owner => exact .one_on_vars (.filter (·.owner != owner)) rfl rfl
  | reclaimHandles context => exact .one_on_handles (.filter (·.context != context)) rfl rfl
  | writeVar v index value => exact .of_outline (World.outline_writeVar v index value)
  | freeVar v => exact .of_outline (World.outline_freeVar v)
  | onMachine number step => exact .of_outline (World.outline_onMachine number step)
  | _ => exact .of_eq rfl rfl

namespace World

variable {w u : World σ}

structure PoolsInOrder (w : World σ) : Prop where
  vars : w.vars.InOrder
  handles : w.handles.InOrder

theorem poolsInOrder_create (limits : Limits) (host : σ) :
    (create limits host).PoolsInOrder where
  vars := Slots.inOrder_ofCapacity _
  handles := Slots.inOrder_ofCapacity _

theorem PoolsInOrder.operates (hw : w.PoolsInOrder) (h : Operates w u) : u.PoolsInOrder := by
  obtain ⟨⟨vops, hvars⟩, hops, hhandles⟩ := h
  exact ⟨hvars ▸ hw.vars.run vops, hhandles ▸ hw.handles.run hops⟩

/-- Pools stay in order along every run. -/
theorem PoolsInOrder.evolves (hw : w.PoolsInOrder) {log : List (Moment σ)}
    (run : Evolves w log u) : u.PoolsInOrder := by
  refine run.keeps (fun _ w => w.PoolsInOrder) ?congr ?act ?native [] hw
  case congr => exact fun _ w u houtline hw => hw.operates (.of_outline houtline)
  case act => exact fun _ w a hw => hw.operates (a.operates w)
  case native =>
    intro _ w h id name p hw
    cases w.nativeAct? id name p with
    | none => exact hw
    | some a => exact hw.operates (a.operates w)

theorem Reachable.poolsInOrder (hw : w.Reachable) : w.PoolsInOrder := by
  obtain ⟨limits, host, _, run, _⟩ := hw
  exact (poolsInOrder_create limits host).evolves run

end World

end ScriptNatives
