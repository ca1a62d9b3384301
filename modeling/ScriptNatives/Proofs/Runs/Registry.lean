import ScriptNatives.Proofs.Runs.Evolves
import ScriptNatives.Proofs.World.Live
import ScriptNatives.Proofs.World.Unload

/-!
# What acts do to the registry

An instance comes in at the end, under an id that was never given out, and keeps its machine until
it is unloaded. So live instances stand in the order of their ids, and an id that was live once
never stands for another machine.
-/
namespace ScriptNatives

variable {σ : Type}

namespace World

theorem registry_unload (w : World σ) (id : InstanceId) :
    (w.unload id).2.registry = ⟨w.registry.entries.eraseP (·.1 == id), w.issued⟩ := by
  cases hlive : w.isLive id with
  | false =>
    have hnone : ∀ entry ∈ w.registry.entries, ¬ (entry.1 == id) = true := by
      intro entry hentry heq
      have hmem : id ∈ w.liveIds := by
        rw [liveIds_eq, ← beq_iff_eq.mp heq]
        exact List.mem_map_of_mem hentry
      simp [isLive_iff.mpr hmem] at hlive
    rw [unload_of_dead hlive, List.eraseP_of_forall_not hnone]
    rfl
  | true =>
    have hhooks : (w.hooks.foldl (runHook id) (w.without id)).registry = (w.without id).registry :=
      foldl_runHook_eq (fun _ hook => by cases hook <;> rfl) (w.without id) w.hooks
    rw [unload_of_live hlive, hhooks]
    simp only [registry, without, List.eraseP_map]
    rfl

/-- Live instances stand in the order in which their ids were given out. -/
structure Ordered (w : World σ) : Prop where
  ascending : w.liveIds.Pairwise (·.raw < ·.raw)
  le_issued : ∀ id ∈ w.liveIds, id.raw ≤ w.issued

theorem ordered_create (limits : Limits) (host : σ) : (create limits host).Ordered where
  ascending := .nil
  le_issued := by simp [create, liveIds]

theorem Ordered.of_liveIds {w u : World σ} (hw : w.Ordered) (hids : u.liveIds = w.liveIds)
    (hissued : u.issued = w.issued) : u.Ordered := by
  refine ⟨hids ▸ hw.ascending, fun id hid => ?_⟩
  rw [hissued]
  exact hw.le_issued id (hids ▸ hid)

theorem Ordered.congr {w u : World σ} (hw : w.Ordered) (h : u.registry = w.registry) :
    u.Ordered :=
  hw.of_liveIds (by rw [liveIds_eq, liveIds_eq, h]) (congrArg Registry.issued h)

theorem Ordered.of_outline {w u : World σ} (hw : w.Ordered) (h : u.outline = w.outline) :
    u.Ordered :=
  hw.of_liveIds (congrArg Outline.live h) (congrArg Outline.issued h)

theorem Ordered.nodup {w : World σ} (hw : w.Ordered) : w.liveIds.Nodup := by
  have hne {a b : InstanceId} (hlt : a.raw < b.raw) : a ≠ b :=
    fun heq => Nat.ne_of_lt hlt (congrArg InstanceId.raw heq)
  exact hw.ascending.imp hne

/-- The next id has not been given out yet. -/
theorem Ordered.nextId_not_live {w : World σ} (hw : w.Ordered) : w.isLive w.nextId = false := by
  rw [← Bool.not_eq_true, isLive_iff]
  intro hmem
  exact Nat.not_succ_le_self _ (hw.le_issued _ hmem)

/-- An instance has one machine. -/
theorem Ordered.number?_eq_some_iff {w : World σ} (hw : w.Ordered) {id : InstanceId}
    {number : Nat} : w.number? id = some number ↔ (id, number) ∈ w.registry.entries := by
  rw [number?_eq, Option.map_eq_some_iff]
  constructor
  · rintro ⟨⟨other, _⟩, hfound, rfl⟩
    obtain rfl : other = id := by simpa using List.find?_some hfound
    exact List.mem_of_find?_eq_some hfound
  · intro hmem
    obtain ⟨earlier, later, heq⟩ := List.append_of_mem hmem
    have hascending := hw.ascending
    rw [liveIds_eq, List.pairwise_map, heq, List.pairwise_append] at hascending
    -- every entry in front has a smaller id
    have hearlier : ∀ entry ∈ earlier, ¬ (entry.1 == id) = true := by
      intro entry hentry hid
      have hlt := hascending.2.2 entry hentry (id, number) List.mem_cons_self
      rw [beq_iff_eq.mp hid] at hlt
      exact Nat.lt_irrefl _ hlt
    refine ⟨(id, number), ?_, rfl⟩
    rw [heq, List.find?_append, List.find?_eq_none.mpr hearlier, Option.none_or]
    exact List.find?_cons_of_pos (by simp)

end World

/-- The acts that load an instance or unload one. -/
def Act.loads : Act σ → Bool
  | register _ | share _ | unload _ => true
  | _ => false

/-- All other acts leave alone what natives do, but for the observers and the contexts. -/
theorem World.Steady.apply {β : Type} {view : World σ → β} (hview : World.Steady view) {a : Act σ}
    (hloads : a.loads = false) (hobserves : ∀ tag, a ≠ .observe tag)
    (hmodifies : ∀ id f, a ≠ .modifyContext id f) (w : World σ) :
    view (a.apply w) = view w := by
  cases a with
  | register _ | share _ | unload _ => cases hloads
  | observe tag => exact absurd rfl (hobserves tag)
  | modifyContext id f => exact absurd rfl (hmodifies id f)
  | createVar owner address count =>
    exact worldAfter_keeps (P := fun u => view u = view w) rfl fun _ => hview.createVar
  | createHandle k =>
    exact worldAfter_keeps (P := fun u => view u = view w) rfl fun _ => hview.createHandle
  | writeVar v index value =>
    exact worldAfter_keeps (P := fun u => view u = view w) rfl fun _ => hview.writeVar
  | releaseVar id => exact hview.releaseVar id
  | releaseHandle id =>
    rw [Act.apply_releaseHandle]
    exact hview.handles w _
  | freeVar v =>
    simp only [Act.apply]
    cases hf : w.freeVar? v with
    | none => rfl
    | some out => exact hview.freeVar? hf
  | onMachine number step =>
    simp only [Act.apply]
    cases w.machines[number]? with
    | none => rfl
    | some m => exact hview.setMachine w number _
  | reclaimVars owner => exact hview.vars w _
  | reclaimHandles context => exact hview.handles w _
  | enterSource source => exact hview.source w source
  | leaveSource mark => exact hview.source w mark.previous
  | changeHost f => exact hview.host w (f w.host)

theorem World.Aloof.apply {β : Type} {view : World σ → β} (hview : World.Aloof view) {a : Act σ}
    (hloads : a.loads = false) (hobserves : ∀ tag, a ≠ .observe tag) (w : World σ) :
    view (a.apply w) = view w := by
  by_cases hmodifies : ∃ id f, a = .modifyContext id f
  · obtain ⟨id, f, rfl⟩ := hmodifies
    exact hview.modifyContext w id f
  · exact hview.steady.apply hloads hobserves (fun id f ha => hmodifies ⟨id, f, ha⟩) w

/-- All acts but these leave the registry alone. -/
theorem Act.registry_of_not_loads {a : Act σ} (hquiet : a.loads = false) (w : World σ) :
    (a.apply w).registry = w.registry := by
  by_cases hobserves : ∃ tag, a = .observe tag
  · obtain ⟨tag, rfl⟩ := hobserves
    rfl
  · exact World.aloof_registry.apply hquiet (not_exists.mp hobserves) w

/-- A native neither loads an instance nor unloads one. -/
theorem World.not_loads_of_nativeAct? {w : World σ} {id : InstanceId} {name : String} {p : Params}
    {a : Act σ} (h : w.nativeAct? id name p = some a) : a.loads = false := by
  obtain ⟨native, _, hact⟩ := exists_native_of_nativeAct? h
  cases native with
  | plain native => cases LocalNative.comesDownTo hact <;> rfl
  | call kind => cases hact
  | tryCall kind => cases hact

theorem World.registry_register (w : World σ) (m : Machine) : (w.register m).2.registry =
    ⟨w.registry.entries ++ [(w.nextId, w.machines.size)], w.issued + 1⟩ := by
  simp [register, registerShared, addMachine, registry, nextId]

theorem World.registry_registerShared (w : World σ) (number : Fin w.machines.size) :
    (w.registerShared number).2.registry =
      ⟨w.registry.entries ++ [(w.nextId, number.val)], w.issued + 1⟩ := by
  simp [registerShared, registry]

/-- An act leaves the registry alone, adds the next instance at the end, or takes one away. -/
theorem Act.registry_cases (w : World σ) (a : Act σ) :
    (a.apply w).registry = w.registry ∨
      (∃ number, (a.apply w).registry =
        ⟨w.registry.entries ++ [(w.nextId, number)], w.issued + 1⟩) ∨
      ∃ id, (a.apply w).registry = ⟨w.registry.entries.eraseP (·.1 == id), w.issued⟩ := by
  cases a with
  | register m => exact .inr (.inl ⟨w.machines.size, w.registry_register m⟩)
  | share number =>
    simp only [apply]
    split
    · exact .inr (.inl ⟨number, w.registry_registerShared _⟩)
    · exact .inl rfl
  | unload id => exact .inr (.inr ⟨id, World.registry_unload w id⟩)
  | _ => exact .inl (registry_of_not_loads rfl w)

/-- An act gives out new ids only, and no instance that was there gets another machine. -/
theorem Act.entry_old (w : World σ) (a : Act σ) : w.issued ≤ (a.apply w).issued ∧
    ∀ entry ∈ (a.apply w).registry.entries, entry.1.raw ≤ w.issued →
      entry ∈ w.registry.entries := by
  rcases a.registry_cases w with hsame | ⟨number, hadded⟩ | ⟨id, hremoved⟩
  · have hissued : (a.apply w).issued = w.issued := congrArg World.Registry.issued hsame
    exact ⟨Nat.le_of_eq hissued.symm, fun entry hentry _ => hsame ▸ hentry⟩
  · have hissued : (a.apply w).issued = w.issued + 1 := congrArg World.Registry.issued hadded
    refine ⟨by omega, fun entry hentry hold => ?_⟩
    rw [hadded, List.mem_append, List.mem_singleton] at hentry
    rcases hentry with hentry | rfl
    · exact hentry
    · exact absurd hold (Nat.not_succ_le_self _)
  · have hissued : (a.apply w).issued = w.issued := congrArg World.Registry.issued hremoved
    refine ⟨Nat.le_of_eq hissued.symm, fun entry hentry _ => ?_⟩
    rw [hremoved] at hentry
    exact List.mem_of_mem_eraseP hentry

/-- An act keeps live instances in order. -/
theorem Act.ordered_apply {w : World σ} (hw : w.Ordered) (a : Act σ) : (a.apply w).Ordered := by
  rcases a.registry_cases w with hsame | ⟨number, hadded⟩ | ⟨id, hremoved⟩
  · exact hw.congr hsame
  · have hids : (a.apply w).liveIds = w.liveIds ++ [w.nextId] := by
      simp [World.liveIds_eq, hadded]
    have hissued : (a.apply w).issued = w.issued + 1 := congrArg World.Registry.issued hadded
    constructor
    · rw [hids, List.pairwise_append]
      refine ⟨hw.ascending, List.pairwise_singleton _ _, fun id hid next hnext => ?_⟩
      obtain rfl := List.mem_singleton.mp hnext
      exact Nat.lt_succ_of_le (hw.le_issued id hid)
    · intro id hid
      rw [hids, List.mem_append, List.mem_singleton] at hid
      rw [hissued]
      rcases hid with hid | rfl
      · exact Nat.le_succ_of_le (hw.le_issued id hid)
      · exact Nat.le_refl _
  · have hids : (a.apply w).liveIds.Sublist w.liveIds := by
      rw [World.liveIds_eq, hremoved, World.liveIds_eq]
      exact (List.eraseP_sublist).map _
    have hissued : (a.apply w).issued = w.issued := congrArg World.Registry.issued hremoved
    refine ⟨hw.ascending.sublist hids, fun id hid => ?_⟩
    rw [hissued]
    exact hw.le_issued id (hids.subset hid)

/-- Live instances stand in order after every run. -/
theorem Evolves.ordered {w u : World σ} {log : List (Moment σ)} (run : Evolves w log u)
    (hw : w.Ordered) : u.Ordered := by
  refine run.keeps (fun _ w => w.Ordered) (fun _ _ _ houtline hw => hw.of_outline houtline)
    ?act ?native [] hw
  case act => exact fun _ _ a hw => a.ordered_apply hw
  case native =>
    intro _ w h id name p hw
    cases w.nativeAct? id name p with
    | none => exact hw
    | some a => exact a.ordered_apply hw

end ScriptNatives
