import ScriptNatives.Proofs.Runs.Machines

/-!
# Who sets a status

What a native does to the world leaves the status of every machine alone. It is only when the caller
is told how the native ended that a status is set, and then it is that of the caller's machine.
-/
namespace ScriptNatives

variable {σ : Type}

namespace Machine

variable {m m' : Machine}

theorem status_eq_of_blank_eq (h : m'.blank = m.blank) : m'.status = m.status :=
  show m'.blank.status = m.blank.status from congrArg Machine.status h

theorem blank_store? {address : Int} {values : List Cell} {out : Option Int × Machine}
    (h : m.store? address values = some out) : out.2.blank = m.blank := by
  obtain ⟨_, rfl⟩ := store?_eq_some h
  exact blank_setCells _ _

end Machine

namespace World

variable {w u v : World σ} {h : Host σ} {id : InstanceId} {p : Params} {m m' : Machine}

def statuses (w : World σ) : Array Status := w.machines.map (·.status)

theorem statuses_putMachine {entry : Loaded} (hentry : w.entry? id = some entry) (m : Machine) :
    (w.putMachine id m).statuses = w.statuses.setIfInBounds entry.machine m.status := by
  simp only [putMachine, hentry, setMachine, statuses, Array.map_setIfInBounds]

/-- The instances have the machines that they had, and these have the statuses that they had. -/
structure SameStatuses (w u : World σ) : Prop where
  number_eq : ∀ id, (u.entry? id).map (·.machine) = (w.entry? id).map (·.machine)
  statuses_eq : u.statuses = w.statuses

theorem SameStatuses.of_registry_eq (hregistry : u.registry = w.registry)
    (hstatuses : u.statuses = w.statuses) : SameStatuses w u where
  number_eq id := by
    show u.number? id = w.number? id
    rw [number?_eq, hregistry, ← number?_eq]
  statuses_eq := hstatuses

/-- Where machines stay as they are, so do statuses. -/
theorem SameStatuses.of_keeps (h : u.registry = w.registry ∧ u.machines = w.machines) :
    SameStatuses w u := .of_registry_eq h.1 (by rw [statuses, h.2, ← statuses])

theorem SameStatuses.refl (w : World σ) : SameStatuses w w := .of_keeps ⟨rfl, rfl⟩

/-- An instance that is live stays so, with a machine of the same number and status. -/
theorem SameStatuses.machine (same : SameStatuses w u) {entry : Loaded}
    (hentry : w.entry? id = some entry) (hm : w.machines[entry.machine]? = some m) :
    ∃ entry' m', u.entry? id = some entry' ∧ entry'.machine = entry.machine ∧
      u.machine? id = some m' ∧ m'.status = m.status := by
  have hnumber := same.number_eq id
  rw [hentry, Option.map_some, Option.map_eq_some_iff] at hnumber
  obtain ⟨entry', hentry', hnumber⟩ := hnumber
  have hstatus : u.statuses[entry.machine]? = some m.status := by
    rw [same.statuses_eq, statuses, Array.getElem?_map, hm, Option.map_some]
  rw [statuses, Array.getElem?_map, Option.map_eq_some_iff] at hstatus
  obtain ⟨m', hm', hstatus⟩ := hstatus
  refine ⟨entry', m', hentry', hnumber, ?_, hstatus⟩
  simp [machine?, hentry', hnumber, hm']

theorem sameStatuses_putMachine (hm : w.machine? id = some m) (hstatus : m'.status = m.status) :
    SameStatuses w (w.putMachine id m') :=
  .of_registry_eq (registry_putMachine w id m') (map_machines_putMachine Machine.status hm hstatus)

theorem sameStatuses_store {address : Cell} {values : List Cell} {out : Outcome σ Unit}
    (hstore : w.store id address values = .ok out) : SameStatuses w out.2 := by
  obtain ⟨m, stored, hm, hstored, rfl⟩ := store_eq_ok hstore
  exact sameStatuses_putMachine hm (Machine.status_eq_of_blank_eq (Machine.blank_store? hstored))

/-- What a plain native does to the world leaves every status alone. -/
theorem Effect.sameStatuses {pools : Bool} {out : Outcome σ Ending}
    (heffect : Effect h id w pools out) : SameStatuses w out.2 := by
  cases heffect with
  | nothing ending => exact .refl w
  | madeString text => exact .of_keeps ⟨rfl, rfl⟩
  | createdVar hcreate => exact .of_keeps (createVar_keeps hcreate)
  | createdHandle hcreate => exact .of_keeps (createHandle_keeps hcreate)
  | wroteVar hwrite =>
    obtain ⟨_, m, exchanged, _, hm, hexchange, rfl⟩ := writeVar_eq_ok hwrite
    have hblank := Machine.blank_exchange? hexchange
    exact sameStatuses_putMachine hm (Machine.status_eq_of_blank_eq hblank)
  | releasedVar var => exact .of_keeps (releaseVar_keeps var)
  | stored hstore => exact sameStatuses_store hstore
  | wroteName hwrite =>
    obtain ⟨m, written, hm, hwritten, rfl⟩ := writeName_eq_ok hwrite
    have hblank := Machine.blank_writeText? hwritten
    exact sameStatuses_putMachine hm (Machine.status_eq_of_blank_eq hblank)
  | forked hfork => exact .of_keeps (fork_keeps hfork)
  | freed hfree =>
    obtain ⟨m, released, hm, hrelease, hout⟩ := freeVar?_eq_some hfree
    obtain ⟨_, rfl⟩ := Prod.mk.inj hout
    obtain ⟨b, _, _, hm'⟩ := Machine.releaseBlock?_eq_some hrelease
    exact sameStatuses_putMachine hm (by rw [hm'])

/-- A native sets no status before it has returned: the statuses are those that the host has left
behind. -/
theorem evaluate_sameStatuses (h : Host σ) (id : InstanceId) (name : String) (p : Params)
    (w : World σ) : ∃ v, Chained h w (w.nativeHostCalls h id name p) v ∧
      SameStatuses v (w.evaluate h id name p).2 := by
  rcases evaluate_cases h id name p w with
    ⟨hworld, _, hcalls⟩ | ⟨native, _, hrun, _, hcalls⟩
  · rw [hcalls, hworld]
    exact ⟨w, rfl, .refl w⟩
  · rw [hcalls, hrun]
    cases native with
    | plain native =>
      refine ⟨w, rfl, ?_⟩
      rw [perform_plain]
      cases hout : w.performPlain h id p native with
      | error fault => exact .refl w
      | ok out => exact (performPlain_effect native out hout).sameStatuses
    | call kind => exact ⟨_, performCall_chained kind, .refl _⟩
    | tryCall kind =>
      obtain ⟨v, hchained, hworld⟩ := @performTryCall_chained _ h id p w kind
      refine ⟨v, hchained, ?_⟩
      rcases hworld with hworld | ⟨dest, value, out, hstore, hworld⟩
      · rw [Native.perform, hworld]
        exact .refl v
      · rw [Native.perform, hworld]
        exact sameStatuses_store hstore

end World

end ScriptNatives
