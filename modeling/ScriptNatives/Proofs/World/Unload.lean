import ScriptNatives.Proofs.Slots.Lookup
import ScriptNatives.World.Basic

/-!
# Unloading an instance

The hooks run on the world without the instance. Together they take away what the instance owned
and what was made in its context, and nothing else.
-/
namespace ScriptNatives.World

variable {σ : Type}

theorem unload_of_dead {w : World σ} {id : InstanceId} (hdead : w.isLive id = false) :
    w.unload id = (false, w) := by
  simp [unload, hdead]

theorem unload_of_live {w : World σ} {id : InstanceId} (hlive : w.isLive id = true) :
    w.unload id = (true, w.hooks.foldl (runHook id) (w.without id)) := by
  simp [unload, hlive]

theorem reclaimVars_spec {w : World σ} (hw : w.vars.WellFormed) (owner : InstanceId) :
    (w.reclaimVars owner).2.vars.WellFormed ∧ ∀ c v,
      (w.reclaimVars owner).2.vars.get? c = some v ↔ w.vars.get? c = some v ∧ v.owner ≠ owner := by
  obtain ⟨hwf, _, hget⟩ := Slots.filter_spec hw (·.owner != owner)
  refine ⟨hwf, fun c v => ?_⟩
  simp only [reclaimVars, hget, Option.filter_eq_some_iff, bne_iff_ne]

theorem reclaimHandles_spec {w : World σ} (hw : w.handles.WellFormed) (context : InstanceId) :
    (w.reclaimHandles context).2.handles.WellFormed ∧ ∀ c k,
      (w.reclaimHandles context).2.handles.get? c = some k ↔
        w.handles.get? c = some k ∧ k.context ≠ context := by
  obtain ⟨hwf, _, hget⟩ := Slots.filter_spec hw (·.context != context)
  refine ⟨hwf, fun c k => ?_⟩
  simp only [reclaimHandles, hget, Option.filter_eq_some_iff, bne_iff_ne]

/-- A pool from which a hook takes what an instance leaves behind, and which neither another hook
nor the removal of the instance changes. -/
structure ReclaimedBy {α : Type} (pool : World σ → Slots α) (owner : α → InstanceId)
    (hook : Hook) : Prop where
  reclaims : ∀ (w : World σ) (id : InstanceId), (pool w).WellFormed →
    (pool (runHook id w hook)).WellFormed ∧ ∀ c a,
      (pool (runHook id w hook)).get? c = some a ↔ (pool w).get? c = some a ∧ owner a ≠ id
  other : ∀ (w : World σ) (id : InstanceId) (hook' : Hook), hook' ≠ hook →
    pool (runHook id w hook') = pool w
  without : ∀ (w : World σ) (id : InstanceId), pool (w.without id) = pool w

theorem vars_reclaimedBy : ReclaimedBy (vars : World σ → Slots Var) Var.owner .reclaimVars where
  reclaims _ id hw := reclaimVars_spec hw id
  other _ _ hook' hne := by
    cases hook' with
    | reclaimVars => exact absurd rfl hne
    | reclaimHandles => rfl
    | observe tag => rfl
  without _ _ := rfl

theorem handles_reclaimedBy :
    ReclaimedBy (handles : World σ → Slots Handle) Handle.context .reclaimHandles where
  reclaims _ id hw := reclaimHandles_spec hw id
  other _ _ hook' hne := by
    cases hook' with
    | reclaimVars => rfl
    | reclaimHandles => exact absurd rfl hne
    | observe tag => rfl
  without _ _ := rfl

section ReclaimedBy

variable {α : Type} {pool : World σ → Slots α} {owner : α → InstanceId} {hook : Hook}

/-- All hooks together take from a pool what its own hook does, if that one is among them. -/
theorem ReclaimedBy.foldl_runHook (hpool : ReclaimedBy pool owner hook) {w : World σ}
    (hw : (pool w).WellFormed) (id : InstanceId) (hooks : List Hook) :
    (pool (hooks.foldl (runHook id) w)).WellFormed ∧ ∀ c a,
      (pool (hooks.foldl (runHook id) w)).get? c = some a ↔
        (pool w).get? c = some a ∧ (hook ∈ hooks → owner a ≠ id) := by
  induction hooks generalizing w with
  | nil => simp [hw]
  | cons first hooks ih =>
    by_cases hfirst : first = hook
    · subst hfirst
      obtain ⟨hwf, hget⟩ := hpool.reclaims w id hw
      obtain ⟨hend, hafter⟩ := ih hwf
      refine ⟨hend, fun c a => ?_⟩
      rw [List.foldl_cons, hafter, hget]
      simp only [List.mem_cons, true_or, forall_const]
      exact ⟨fun h => h.1, fun h => ⟨h, fun _ => h.2⟩⟩
    · have hsame := hpool.other w id first hfirst
      obtain ⟨hend, hafter⟩ := ih (hsame ▸ hw)
      refine ⟨hend, fun c a => ?_⟩
      rw [List.foldl_cons, hafter, hsame]
      simp [Ne.symm hfirst]

/-- Unloading takes from a pool what the instance leaves behind, as long as it was live and the hook
is there, and nothing else. -/
theorem ReclaimedBy.unload (hpool : ReclaimedBy pool owner hook) {w : World σ}
    (hw : (pool w).WellFormed) (id : InstanceId) :
    (pool (w.unload id).2).WellFormed ∧ ∀ c a,
      (pool (w.unload id).2).get? c = some a ↔
        (pool w).get? c = some a ∧ (w.isLive id = true → hook ∈ w.hooks → owner a ≠ id) := by
  cases hlive : w.isLive id with
  | false => simp [unload_of_dead hlive, hw]
  | true =>
    have hsame := hpool.without w id
    obtain ⟨hwf, hget⟩ := hpool.foldl_runHook (hsame ▸ hw) id w.hooks
    rw [unload_of_live hlive]
    refine ⟨hwf, fun c a => ?_⟩
    rw [hget, hsame]
    simp

end ReclaimedBy

/-- What no hook changes, all of them together do not. -/
theorem foldl_runHook_eq {β : Type} {f : World σ → β} {id : InstanceId}
    (hf : ∀ w hook, f (runHook id w hook) = f w) (w : World σ) (hooks : List Hook) :
    f (hooks.foldl (runHook id) w) = f w := by
  induction hooks generalizing w with
  | nil => rfl
  | cons hook hooks ih => rw [List.foldl_cons, ih, hf]

/-- What neither an instance that goes nor any hook changes, unloading does not. -/
theorem unload_eq {β : Type} {f : World σ → β} {w : World σ} {id : InstanceId}
    (hwithout : f (w.without id) = f w) (hf : ∀ w hook, f (runHook id w hook) = f w) :
    f (w.unload id).2 = f w := by
  cases hlive : w.isLive id with
  | false => rw [unload_of_dead hlive]
  | true => rw [unload_of_live hlive, foldl_runHook_eq hf, hwithout]

/-- A machine stays when its instance goes. -/
theorem unload_machines (w : World σ) (id : InstanceId) :
    (w.unload id).2.machines = w.machines :=
  unload_eq (f := machines) rfl fun _ hook => by cases hook <;> rfl

theorem unload_hooks (w : World σ) (id : InstanceId) : (w.unload id).2.hooks = w.hooks :=
  unload_eq (f := hooks) rfl fun _ hook => by cases hook <;> rfl

theorem unload_source (w : World σ) (id : InstanceId) : (w.unload id).2.source = w.source :=
  unload_eq (f := source) rfl fun _ hook => by cases hook <;> rfl

theorem loaded_unload (w : World σ) (id : InstanceId) :
    (w.unload id).2.loaded = w.loaded.eraseP (·.id == id) := by
  cases hlive : w.isLive id with
  | false =>
    have hnone : ∀ entry ∈ w.loaded, ¬ (entry.id == id) = true := by
      simpa [isLive, entry?] using hlive
    rw [unload_of_dead hlive, List.eraseP_of_forall_not hnone]
  | true =>
    rw [unload_of_live hlive]
    exact foldl_runHook_eq (fun _ hook => by cases hook <;> rfl) (w.without id) w.hooks

/-- Unloading an instance leaves every other live that was. -/
theorem isLive_unload {w : World σ} {id other : InstanceId} (hne : other ≠ id)
    (hlive : w.isLive other = true) : (w.unload id).2.isLive other = true := by
  rw [isLive, entry?, List.find?_isSome] at hlive ⊢
  obtain ⟨entry, hentry, hother⟩ := hlive
  rw [loaded_unload]
  refine ⟨entry, (List.mem_eraseP_of_neg ?_).mpr hentry, hother⟩
  rw [beq_iff_eq] at hother ⊢
  exact hother ▸ hne

end ScriptNatives.World
