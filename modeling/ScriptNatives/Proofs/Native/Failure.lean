import ScriptNatives.Proofs.Runs.Machines
import ScriptNatives.Proofs.World.Live

/-!
# Natives that fail

A native that calls nobody either does all of its work or none. Every refusal comes before the first
change: a full pool is found full before anything is put in, the owner of a block is looked at
before the block is released, and script memory is looked at before it is written. What is left to
go wrong is that a cell dies while the cells before it are written; on a machine that is well-formed
this does not happen.
-/
namespace ScriptNatives.World

variable {σ : Type} {w : World σ} {h : Host σ} {id : InstanceId} {name : String} {p : Params}

/-- The names of the natives that call other instances. -/
def callNatives : List String :=
  ["amx_call_native", "amx_call_public", "amx_try_call_native", "amx_try_call_public"]

/-- A plain native that is not refused does not fail midway. -/
theorem Effect.completes (hw : w.Sound) {pools : Bool} {out : Outcome σ Ending}
    (heffect : Effect h id w pools out) : ∃ ending, out.1 = .ok ending := by
  cases heffect with
  | nothing | madeString | createdVar | createdHandle | wroteVar | releasedVar | freed =>
    exact ⟨_, rfl⟩
  | stored hstore =>
    obtain ⟨m, stored, hm, hstored, rfl⟩ := store_eq_ok hstore
    have hall : stored.1 = none := (hw.machine? hm).wellFormed.store?_completes hstored
    exact ⟨_, by rw [hall]; rfl⟩
  | wroteName hwrite =>
    obtain ⟨m, written, hm, hwritten, rfl⟩ := writeName_eq_ok hwrite
    have hall := (hw.machine? hm).wellFormed.writeText?_completes hwritten
    obtain ⟨count, hcount⟩ := Option.isSome_iff_exists.mp hall
    exact ⟨_, by rw [hcount]; rfl⟩
  | forked hfork =>
    obtain ⟨context, _, rfl⟩ := fork_eq_ok hfork
    exact ⟨_, rfl⟩

/-- A native that calls nobody is refused, or it is a plain one and has performed. -/
theorem evaluate_plain_cases (h : Host σ) (id : InstanceId) (hname : name ∉ callNatives)
    (p : Params) (w : World σ) :
    (∃ fault, w.evaluate h id name p = (.error fault, w)) ∨
      ∃ native : LocalNative, native.scriptName = name ∧
        w.performPlain h id p native = .ok (w.evaluate h id name p) := by
  unfold evaluate
  split
  · exact .inl ⟨_, rfl⟩
  · next native hfind =>
    obtain rfl : native.scriptName = name := by simpa using List.find?_some hfind
    split
    · exact .inl ⟨_, rfl⟩
    · cases native with
      | call kind => cases kind <;> exact absurd (by decide) hname
      | tryCall kind => cases kind <;> exact absurd (by decide) hname
      | plain native =>
        cases hout : w.performPlain h id p native with
        | error fault => exact .inl ⟨fault, by simp [Native.perform, hout]⟩
        | ok out => exact .inr ⟨native, rfl, by simp [Native.perform, hout]⟩

/-- A native that calls nobody fails and leaves the world alone, or it does not fail and leaves
everybody live who was. -/
theorem evaluate_atomic (sound : w.Sound) (h : Host σ) (id : InstanceId)
    (hname : name ∉ callNatives) (p : Params) :
    (∃ fault, w.evaluate h id name p = (.error fault, w)) ∨
      ∃ ending u, w.evaluate h id name p = (.ok ending, u) ∧ u.liveIds = w.liveIds := by
  rcases evaluate_plain_cases h id hname p w with hfailed | ⟨native, _, hout⟩
  · exact .inl hfailed
  · have heffect := performPlain_effect native _ hout
    obtain ⟨ending, hending⟩ := heffect.completes sound
    exact .inr ⟨ending, _, Prod.ext hending rfl, heffect.liveIds_eq⟩

/-- What a native that calls nobody leaves behind when it fails for a live caller. -/
theorem exists_raised (sound : w.Sound) (live : w.isLive id = true) (hname : name ∉ callNatives)
    {fault : Fault} (failed : (w.runNative h id name p).1 = .error fault) :
    ∃ m, w.machine? id = some m ∧
      (w.runNative h id name p).2 = w.putMachine id (m.raise .native) := by
  have hmachine {u : World σ} (hu : u.liveIds = w.liveIds) : ∃ m, u.machine? id = some m := by
    have hlive : u.isLive id = true := by rwa [isLive_iff, hu, ← isLive_iff]
    rw [← Option.ne_none_iff_exists', ne_eq, machine?_eq_none_iff, hlive]
    decide
  rcases evaluate_atomic sound h id hname p with ⟨_, hfailed⟩ | ⟨ending, u, hdone, hlive⟩
  · obtain ⟨m, hm⟩ := hmachine rfl
    refine ⟨m, hm, ?_⟩
    simp only [runNative, settle, hfailed, hm]
  · -- a native that does not fail is not made to fail by telling a caller who is live
    obtain ⟨m, hm⟩ := hmachine hlive
    simp [runNative, settle, hdone, hm] at failed

/-- If a native that calls nobody fails for a live caller, then the status of the caller's machine
tells so, and all else in the world is as it was. -/
theorem runNative_of_error (sound : w.Sound) (live : w.isLive id = true)
    (hname : name ∉ callNatives) {fault : Fault}
    (failed : (w.runNative h id name p).1 = .error fault) :
    ∃ m, w.machine? id = some m ∧
      (w.runNative h id name p).2 = w.putMachine id (m.raise .native) ∧
      ((w.runNative h id name p).2.machine? id).map (·.status) = some .native := by
  obtain ⟨m, hm, hworld⟩ := exists_raised sound live hname failed
  refine ⟨m, hm, hworld, ?_⟩
  rw [hworld, machine?_putMachine hm]
  rfl

/-- A name is asked for in a buffer that lies in the dead space below the stack. -/
theorem name_into_dead_buffer :
    let id : InstanceId := ⟨1, by decide⟩
    let m : Machine := Scenario.MachineSpec.build {}
    let w : World Unit := (Act.register m).apply (World.create {} ())
    let h : Host Unit := ⟨fun _ w => (.ok 0, w), fun _ _ => (0, ())⟩
    w.Sound ∧ w.isLive id = true ∧
      (w.runNative h id "amx_name" [512, 4]).1 = .error (.badAddress 512) ∧
      (w.runNative h id "amx_name" [512, 4]).2 = w.putMachine id (m.raise .native) ∧
      ((w.runNative h id "amx_name" [512, 4]).2.machine? id).map (·.status) = some .native := by
  intro id m w h
  have sound : w.Sound := by
    refine Evolves.sound (.act (.start (World.create {} ())) (.register m)) fun m' u hmem => ?_
    obtain ⟨rfl, _⟩ : m' = m ∧ u = World.create {} () := by simpa using hmem
    exact .built {} (by decide)
  have live : w.isLive id = true := by decide
  have failed : (w.runNative h id "amx_name" [512, 4]).1 = .error (.badAddress 512) := by rfl
  obtain ⟨m', hm', hworld, hstatus⟩ := runNative_of_error sound live (by decide) failed
  obtain rfl : m' = m := Option.some.inj (hm'.symm.trans (by decide))
  exact ⟨sound, live, failed, hworld, hstatus⟩

end ScriptNatives.World
