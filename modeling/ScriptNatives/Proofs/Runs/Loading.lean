import Mathlib.Data.Finset.Card
import ScriptNatives.Proofs.Runs.Registry

/-!
# The roll of instances

The log of a run tells which ids were given out, and which of those were unloaded. The live
instances are the first without the second, in the order in which they were given out. This is
what makes an id a name for good: it is given out once, and is dead for ever when it was unloaded.
-/
namespace ScriptNatives

variable {σ : Type}

/-! ### What a log tells -/

/-- The id that an act gets for the instance that it registers. -/
def Act.registered? (w : World σ) : Act σ → Option InstanceId
  | register m => some (w.register m).1
  | share number =>
    if h : number < w.machines.size then some (w.registerShared ⟨number, h⟩).1 else none
  | _ => none

/-- The id that an act unloads. It unloads none if it is told that the instance was not live. -/
def Act.unloaded? (w : World σ) : Act σ → Option InstanceId
  | unload id => if (w.unload id).1 then some id else none
  | _ => none

/-- The id that was given out. No native registers an instance; what the host does when it is called
has entries of its own. -/
def Moment.registered? : Moment σ → Option InstanceId
  | did a w => a.registered? w
  | invoked .. => none

def Moment.unloaded? : Moment σ → Option InstanceId
  | did a w => a.unloaded? w
  | invoked .. => none

/-- The ids that were given out, oldest first. -/
def registeredIds (log : List (Moment σ)) : List InstanceId :=
  (log.filterMap Moment.registered?).reverse

def unloadedIds (log : List (Moment σ)) : List InstanceId := log.filterMap Moment.unloaded?

theorem registeredIds_did (a : Act σ) (w : World σ) (log : List (Moment σ)) :
    registeredIds (.did a w :: log) = registeredIds log ++ (a.registered? w).toList := by
  cases h : a.registered? w <;> simp [registeredIds, Moment.registered?, h]

theorem unloadedIds_did (a : Act σ) (w : World σ) (log : List (Moment σ)) :
    unloadedIds (.did a w :: log) = (a.unloaded? w).toList ++ unloadedIds log := by
  cases h : a.unloaded? w <;> simp [unloadedIds, Moment.unloaded?, h]

theorem unloadedIds_append (log log' : List (Moment σ)) :
    unloadedIds (log' ++ log) = unloadedIds log' ++ unloadedIds log := List.filterMap_append

namespace World

/-! ### Keeping the roll -/

/-- The ids that a world has given out, in order, and those of them that are gone. -/
structure Roll (w : World σ) (given gone : List InstanceId) : Prop where
  numbered : given.map (·.raw) = List.range' 1 w.issued
  gone_subset : gone ⊆ given
  live : w.liveIds = given.filter (· ∉ gone)

namespace Roll

variable {w u : World σ} {given gone : List InstanceId}

theorem create (limits : Limits) (host : σ) : (create limits host).Roll [] [] :=
  ⟨rfl, List.Subset.refl _, rfl⟩

theorem ascending (hw : w.Roll given gone) : given.Pairwise (·.raw < ·.raw) := by
  rw [← List.pairwise_map, hw.numbered]
  exact List.pairwise_lt_range'

theorem nodup (hw : w.Roll given gone) : given.Nodup :=
  List.Nodup.of_map InstanceId.raw (hw.numbered ▸ List.nodup_range')

theorem lt_nextId (hw : w.Roll given gone) {id : InstanceId} (hid : id ∈ given) :
    id.raw < w.nextId.raw := by
  have hraw : id.raw ∈ List.range' 1 w.issued := hw.numbered ▸ List.mem_map_of_mem hid
  obtain ⟨_, hlt⟩ := List.mem_range'_1.mp hraw
  simp only [nextId]
  omega

theorem nextId_not_mem (hw : w.Roll given gone) : w.nextId ∉ given :=
  fun hmem => Nat.lt_irrefl _ (hw.lt_nextId hmem)

/-- What is left of a roll stands in the same order, too. -/
theorem liveIds_ascending (hw : w.Roll given gone) : w.liveIds.Pairwise (·.raw < ·.raw) :=
  hw.live ▸ hw.ascending.sublist List.filter_sublist

theorem nodup_liveIds (hw : w.Roll given gone) : w.liveIds.Nodup := hw.live ▸ hw.nodup.filter _

theorem isLive_eq_false (hw : w.Roll given gone) {id : InstanceId} (hid : id ∈ gone) :
    w.isLive id = false := by
  rw [← Bool.not_eq_true, isLive_iff, hw.live]
  simp [hid]

theorem congr (hw : w.Roll given gone) (hlive : u.liveIds = w.liveIds)
    (hissued : u.issued = w.issued) : u.Roll given gone :=
  ⟨hissued ▸ hw.numbered, hw.gone_subset, hlive ▸ hw.live⟩

theorem congr_registry (hw : w.Roll given gone) (h : u.registry = w.registry) :
    u.Roll given gone :=
  hw.congr (by rw [liveIds_eq, liveIds_eq, h]) (congrArg Registry.issued h)

/-- A new instance is entered last. -/
theorem enter (hw : w.Roll given gone) {number : Nat}
    (h : u.registry = ⟨w.registry.entries ++ [(w.nextId, number)], w.issued + 1⟩) :
    u.Roll (given ++ [w.nextId]) gone := by
  have hissued : u.issued = w.issued + 1 := congrArg Registry.issued h
  have hlive : u.liveIds = w.liveIds ++ [w.nextId] := by simp [liveIds_eq, h]
  have hnext : w.nextId ∉ gone := fun hgone => hw.nextId_not_mem (hw.gone_subset hgone)
  constructor
  · rw [List.map_append, hw.numbered, hissued, List.range'_concat]
    simp [nextId, Nat.add_comm]
  · exact List.subset_append_of_subset_left _ hw.gone_subset
  · rw [hlive, hw.live, List.filter_append]
    simp [hnext]

/-- An instance that is unloaded is struck off. The others stay where they are. -/
theorem strike (hw : w.Roll given gone) {id : InstanceId} (hid : id ∈ w.liveIds)
    (hlive : u.liveIds = w.liveIds.erase id) (hissued : u.issued = w.issued) :
    u.Roll given (id :: gone) := by
  refine ⟨hissued ▸ hw.numbered, ?_, ?_⟩
  · rw [hw.live] at hid
    exact List.cons_subset.mpr ⟨List.mem_of_mem_filter hid, hw.gone_subset⟩
  · rw [hlive, hw.nodup_liveIds.erase_eq_filter, hw.live, List.filter_filter]
    refine List.filter_congr fun other _ => ?_
    rw [Bool.eq_iff_iff]
    simp

end Roll

theorem liveIds_unload (w : World σ) (id : InstanceId) :
    (w.unload id).2.liveIds = w.liveIds.erase id := by
  rw [liveIds, liveIds, loaded_unload, List.erase_eq_eraseP', List.eraseP_map]
  rfl

theorem issued_unload (w : World σ) (id : InstanceId) : (w.unload id).2.issued = w.issued :=
  congrArg Registry.issued (registry_unload w id)

theorem unload_fst (w : World σ) (id : InstanceId) : (w.unload id).1 = w.isLive id := by
  cases hlive : w.isLive id <;> simp [unload, hlive]

/-- Where no id is on the list twice, one is taken off by filtering. -/
theorem eraseP_eq_filter {loaded : List Loaded} (hnodup : (loaded.map (·.id)).Nodup)
    (id : InstanceId) : loaded.eraseP (·.id == id) = loaded.filter (·.id ≠ id) := by
  induction loaded with
  | nil => rfl
  | cons entry loaded ih =>
    rw [List.map_cons, List.nodup_cons] at hnodup
    by_cases hid : entry.id = id
    · have hothers : ∀ other ∈ loaded, decide (other.id ≠ id) = true := fun other hother =>
        decide_eq_true fun heq => hnodup.1 (hid ▸ heq ▸ List.mem_map_of_mem hother)
      rw [List.eraseP_cons_of_pos (by simpa using hid),
        List.filter_cons_of_neg (by simpa using hid), List.filter_eq_self.mpr hothers]
    · rw [List.eraseP_cons_of_neg (by simpa using hid),
        List.filter_cons_of_pos (by simpa using hid), ih hnodup.2]

end World

/-- An act enters the instance that it registers and strikes off the one that it unloads. -/
theorem World.Roll.apply {w : World σ} {given gone : List InstanceId} (hw : w.Roll given gone)
    (a : Act σ) : (a.apply w).Roll (given ++ (a.registered? w).toList)
      ((a.unloaded? w).toList ++ gone) := by
  cases a with
  | register m => exact hw.enter (w.registry_register m)
  | share number =>
    by_cases h : number < w.machines.size
    · simpa [Act.apply, Act.registered?, Act.unloaded?, h, World.registerShared] using
        hw.enter (w.registry_registerShared ⟨number, h⟩)
    · simpa [Act.apply, Act.registered?, Act.unloaded?, h] using hw
  | unload id =>
    cases hlive : w.isLive id with
    | false =>
      simpa [Act.apply, Act.registered?, Act.unloaded?, World.unload_of_dead hlive] using hw
    | true =>
      have hstruck := hw.strike (World.isLive_iff.mp hlive) (w.liveIds_unload id)
        (w.issued_unload id)
      simpa [Act.apply, Act.registered?, Act.unloaded?, World.unload_fst, hlive] using hstruck
  | _ =>
    simpa [Act.registered?, Act.unloaded?] using
      hw.congr_registry (Act.registry_of_not_loads rfl w)

/-- A native enters nobody and strikes nobody off. -/
theorem World.Roll.native {w : World σ} {given gone : List InstanceId} (hw : w.Roll given gone)
    (id : InstanceId) (name : String) (p : Params) :
    ((w.nativeAct? id name p).elim w (Act.apply w)).Roll given gone := by
  cases hact : w.nativeAct? id name p with
  | none => exact hw
  | some a => exact hw.congr_registry (a.registry_of_not_loads (w.not_loads_of_nativeAct? hact) w)

theorem World.Roll.of_outline {w u : World σ} {given gone : List InstanceId}
    (hw : w.Roll given gone) (h : u.outline = w.outline) : u.Roll given gone :=
  hw.congr (congrArg World.Outline.live h) (congrArg World.Outline.issued h)

/-- Every run keeps the roll. -/
theorem Evolves.roll {limits : Limits} {host : σ} {log : List (Moment σ)} {w : World σ}
    (run : Evolves (World.create limits host) log w) :
    w.Roll (registeredIds log) (unloadedIds log) := by
  have hend := run.keeps (fun log w => w.Roll (registeredIds log) (unloadedIds log))
    ?congr ?act ?native [] (.create limits host)
  case congr => exact fun _ _ _ houtline hw => hw.of_outline houtline
  case act =>
    intro log w a hw
    rw [registeredIds_did, unloadedIds_did]
    exact hw.apply a
  case native => exact fun _ _ _ id name p hw => hw.native id name p
  simpa using hend

/-! ### Ids as names -/

/-- What holds of the instances of a world at the end of a run with that log. -/
structure World.KeepsRoll (w : World σ) (log : List (Moment σ)) : Prop where
  /-- Live instances stand in the order of their ids. -/
  ascending : w.liveIds.Pairwise (·.raw < ·.raw)
  lt_nextId : ∀ id ∈ w.liveIds, id.raw < w.nextId.raw
  /-- They are those that were registered and not unloaded. -/
  live : w.liveIds = (registeredIds log).filter (· ∉ unloadedIds log)
  /-- No id was given out twice, and the next one has not been given out before. -/
  nodup : (registeredIds log).Nodup
  fresh : w.nextId ∉ registeredIds log
  registers : ∀ m, (w.register m).1 = w.nextId ∧
    (w.register m).2.loaded = w.loaded ++ [{ id := w.nextId, machine := w.machines.size }]
  shares : ∀ number, (w.registerShared number).1 = w.nextId ∧
    (w.registerShared number).2.loaded = w.loaded ++ [{ id := w.nextId, machine := number }]
  unloads : ∀ id, (w.unload id).1 = w.isLive id ∧
    (w.unload id).2.loaded = w.loaded.filter (·.id ≠ id)
  /-- What was unloaded is not live, and is not live again however the run goes on. -/
  gone : ∀ id ∈ unloadedIds log, ∀ later log', Evolves w log' later → later.isLive id = false
  /-- All ways to ask which instances are live agree. -/
  mem_liveIds_iff : ∀ id, id ∈ w.liveIds ↔ w.isLive id = true
  isSome_machine? : ∀ id, (w.machine? id).isSome = w.isLive id
  isSome_context? : ∀ id, (w.context? id).isSome = w.isLive id
  length_loaded : ∀ ids : Finset InstanceId, (∀ id, id ∈ ids ↔ w.isLive id = true) →
    w.loaded.length = ids.card

/-- The instances of a world are on one list, which is all that ids are looked up in. -/
theorem Evolves.keepsRoll {limits : Limits} {host : σ} {log : List (Moment σ)} {w : World σ}
    (run : Evolves (World.create limits host) log w) : w.KeepsRoll log := by
  have hw := run.roll
  have hnodup := hw.nodup_liveIds
  exact {
    ascending := hw.liveIds_ascending
    lt_nextId := fun id hid => hw.lt_nextId (List.mem_of_mem_filter (hw.live ▸ hid))
    live := hw.live
    nodup := hw.nodup
    fresh := hw.nextId_not_mem
    registers := fun m => ⟨rfl, rfl⟩
    shares := fun number => ⟨rfl, rfl⟩
    unloads := fun id =>
      ⟨w.unload_fst id, (w.loaded_unload id).trans (World.eraseP_eq_filter hnodup id)⟩
    gone := by
      intro id hid later log' run'
      refine (run.trans run').roll.isLive_eq_false ?_
      rw [unloadedIds_append]
      exact List.mem_append_right _ hid
    mem_liveIds_iff := fun id => World.isLive_iff.symm
    isSome_machine? := w.isSome_machine?
    isSome_context? := w.isSome_context?
    length_loaded := by
      intro ids hids
      have hset : ids = w.liveIds.toFinset := by
        ext id
        rw [hids, List.mem_toFinset, World.isLive_iff]
      rw [hset, List.toFinset_card_of_nodup hnodup, World.liveIds, List.length_map] }

/-- One machine is registered twice and unloaded under its first id. Then another comes in. -/
theorem Evolves.keepsRoll_of_shared :
    let m : Machine := Scenario.MachineSpec.build {}
    let one : InstanceId := ⟨1, by decide⟩
    let start : World Unit := World.create {} ()
    let loaded := (Act.share 0).apply ((Act.register m).apply start)
    let w := (Act.register m).apply ((Act.unload one).apply loaded)
    ∃ log, Evolves start log w ∧ w.KeepsRoll log ∧ unloadedIds log = [one] ∧
      (registeredIds log).map (·.raw) = [1, 2, 3] ∧ w.liveIds.map (·.raw) = [2, 3] ∧
      w.number? ⟨2, by decide⟩ = some 0 ∧ w.number? ⟨3, by decide⟩ = some 1 := by
  intro m one start loaded w
  have run : Evolves start _ w :=
    .act (.act (.act (.act (.start start) (.register m)) (.share 0)) (.unload one)) (.register m)
  exact ⟨_, run, run.keepsRoll, by rfl, by rfl, by rfl, by rfl, by rfl⟩

end ScriptNatives
