import ScriptNatives.World.Basic

/-!
# Live instances

An instance is live as long as it is on the list of loaded ones, and every live instance has a
machine. The three ways to ask for an instance therefore agree.
-/
namespace ScriptNatives.World

variable {σ : Type} {w : World σ} {id : InstanceId}

theorem isLive_iff : w.isLive id = true ↔ id ∈ w.liveIds := by
  simp only [isLive, entry?, liveIds, List.find?_isSome, List.mem_map, beq_iff_eq]

theorem entry?_eq_none_iff : w.entry? id = none ↔ w.isLive id = false := by
  rw [isLive, Option.isSome_eq_false_iff, Option.isNone_iff_eq_none]

/-- A live instance has a machine. -/
theorem machine?_eq_none_iff : w.machine? id = none ↔ w.isLive id = false := by
  constructor
  · intro h
    cases he : w.entry? id with
    | none => exact entry?_eq_none_iff.mp he
    | some entry =>
      have hlt : entry.machine < w.machines.size := w.grounded entry (List.mem_of_find?_eq_some he)
      simp [machine?, he, hlt] at h
  · intro h
    simp [machine?, entry?_eq_none_iff.mpr h]

theorem isSome_machine? (w : World σ) (id : InstanceId) :
    (w.machine? id).isSome = w.isLive id := by
  cases hlive : w.isLive id with
  | false => rw [machine?_eq_none_iff.mpr hlive, Option.isSome_none]
  | true =>
    rw [Option.isSome_iff_ne_none, ne_eq, machine?_eq_none_iff, hlive]
    decide

theorem isSome_context? (w : World σ) (id : InstanceId) :
    (w.context? id).isSome = w.isLive id := by rw [context?, Option.isSome_map, isLive]

theorem isLive_of_machine? {m : Machine} (hm : w.machine? id = some m) : w.isLive id = true := by
  rw [← isSome_machine?, hm, Option.isSome_some]

theorem machine_eq_ok_iff {m : Machine} : w.machine id = .ok m ↔ w.machine? id = some m := by
  unfold machine
  cases w.machine? id <;> simp

theorem machine_eq_error (h : w.isLive id = false) : w.machine id = .error (deadInstance id) := by
  simp [machine, machine?_eq_none_iff.mpr h]

/-! ### Replacing the machine of a live instance -/

theorem machines_of_machine? {m : Machine} (hm : w.machine? id = some m) :
    ∃ entry, w.entry? id = some entry ∧ w.machines[entry.machine]? = some m := by
  simpa [machine?, Option.bind_eq_some_iff] using hm

theorem entry?_putMachine (other : InstanceId) (m : Machine) :
    entry? (w.putMachine id m) other = w.entry? other := by
  unfold putMachine
  cases w.entry? id <;> rfl

theorem machine?_putMachine {m : Machine} (hm : w.machine? id = some m) (m' : Machine) :
    (w.putMachine id m').machine? id = some m' := by
  obtain ⟨entry, hentry, hat⟩ := machines_of_machine? hm
  obtain ⟨hlt, _⟩ := Array.getElem?_eq_some_iff.mp hat
  rw [machine?, entry?_putMachine, hentry]
  simp [putMachine, hentry, setMachine, hlt]

theorem putMachine_putMachine (m m' : Machine) :
    (w.putMachine id m).putMachine id m' = w.putMachine id m' := by
  cases hentry : w.entry? id with
  | none => simp [putMachine, hentry]
  | some entry =>
    have hafter : entry? (w.setMachine entry.machine m) id = some entry := hentry
    simp only [putMachine, hentry, hafter]
    simp [setMachine]

/-- Putting a machine where it is changes nothing. -/
theorem putMachine_self {m : Machine} (hm : w.machine? id = some m) : w.putMachine id m = w := by
  obtain ⟨entry, hentry, hat⟩ := machines_of_machine? hm
  have hmachines : w.machines.setIfInBounds entry.machine m = w.machines := by
    refine Array.ext_getElem? fun i => ?_
    rw [Array.getElem?_setIfInBounds]
    by_cases hi : entry.machine = i
    · subst hi
      rw [if_pos rfl, if_pos (Array.getElem?_eq_some_iff.mp hat).1, hat]
    · rw [if_neg hi]
  simp only [putMachine, hentry, setMachine, hmachines]

/-! ### The registry -/

/-- The live instances with the numbers of their machines, and how many ids were given out: all that
a native leaves alone for sure. -/
structure Registry where
  entries : List (InstanceId × Nat)
  issued : Nat

def registry (w : World σ) : Registry :=
  ⟨w.loaded.map fun entry => (entry.id, entry.machine), w.issued⟩

/-- The number of the machine that a live instance has. -/
def number? (w : World σ) (id : InstanceId) : Option Nat := (w.entry? id).map (·.machine)

theorem liveIds_eq (w : World σ) : w.liveIds = w.registry.entries.map (·.1) := by
  simp [liveIds, registry]

/-- Who is live can be seen from the registry. -/
theorem isLive_eq_of_registry_eq {u : World σ} (h : u.registry = w.registry) (id : InstanceId) :
    u.isLive id = w.isLive id := by
  rw [Bool.eq_iff_iff, isLive_iff, isLive_iff, liveIds_eq, liveIds_eq, h]

theorem number?_eq (w : World σ) (id : InstanceId) :
    w.number? id = (w.registry.entries.find? (·.1 == id)).map (·.2) := by
  simp [number?, entry?, registry, List.find?_map, Function.comp_def]

theorem machine?_eq (w : World σ) (id : InstanceId) :
    w.machine? id = (w.number? id).bind (w.machines[·]?) := by
  rw [number?, Option.bind_map]
  rfl

@[simp] theorem registry_putMachine (w : World σ) (id : InstanceId) (m : Machine) :
    (w.putMachine id m).registry = w.registry := by
  unfold putMachine
  cases w.entry? id <;> rfl

@[simp] theorem registry_modifyContext (w : World σ) (id : InstanceId) (f : Context → Context) :
    (w.modifyContext id f).registry = w.registry := by
  simp only [registry, modifyContext, List.map_map]
  congr 1
  refine List.map_congr_left fun entry _ => ?_
  simp only [Function.comp_apply]
  split <;> rfl

theorem size_putMachine (w : World σ) (id : InstanceId) (m : Machine) :
    (w.putMachine id m).machines.size = w.machines.size := by
  unfold putMachine
  cases w.entry? id <;> simp [setMachine]

/-- Only the machine of that number is replaced. -/
theorem machines_putMachine {m : Machine} (hm : w.machine? id = some m) (m' : Machine) (i : Nat) :
    (w.putMachine id m').machines[i]? =
      if w.number? id = some i then some m' else w.machines[i]? := by
  obtain ⟨entry, hentry, hat⟩ := machines_of_machine? hm
  obtain ⟨hlt, _⟩ := Array.getElem?_eq_some_iff.mp hat
  simp only [putMachine, number?, hentry, setMachine, Option.map_some, Option.some.injEq,
    Array.getElem?_setIfInBounds]
  by_cases hi : entry.machine = i
  · rw [if_pos hi, if_pos hi, if_pos (hi ▸ hlt)]
  · rw [if_neg hi, if_neg hi]

/-- What a machine has in common with the one in its place, all machines have. -/
theorem map_machines_putMachine {β : Type} (f : Machine → β) {m m' : Machine}
    (hm : w.machine? id = some m) (hf : f m' = f m) :
    (w.putMachine id m').machines.map f = w.machines.map f := by
  refine Array.ext_getElem? fun i => ?_
  rw [Array.getElem?_map, Array.getElem?_map, machines_putMachine hm]
  by_cases hi : w.number? id = some i
  · have hat : w.machines[i]? = some m := by rw [← hm, machine?_eq, hi, Option.bind_some]
    rw [if_pos hi, hat, Option.map_some, Option.map_some, hf]
  · rw [if_neg hi]

theorem number?_putMachine (other : InstanceId) (m : Machine) :
    (w.putMachine id m).number? other = w.number? other := by
  rw [number?_eq, registry_putMachine, ← number?_eq]

/-- Every instance of the machine that is replaced gets the new one. -/
theorem machine?_putMachine_of_number? {m : Machine} (hm : w.machine? id = some m) (m' : Machine)
    (other : InstanceId) : (w.putMachine id m').machine? other =
      if w.number? other = w.number? id then some m' else w.machine? other := by
  rw [machine?_eq, number?_putMachine, machine?_eq w other]
  cases hnumber : w.number? other with
  | none =>
    have hid : w.number? id ≠ none := fun h => by simp [machine?_eq, h] at hm
    rw [if_neg (Ne.symm hid)]
    rfl
  | some number => simp only [Option.bind_some, machines_putMachine hm, eq_comm]

end ScriptNatives.World
