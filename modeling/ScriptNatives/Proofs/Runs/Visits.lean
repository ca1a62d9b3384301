import ScriptNatives.Proofs.Runs.Loading

/-!
# Visits to live instances

Whom a visit goes to is settled when it begins. A callback that takes notes shows that: whatever it
does to the world, it comes to the instances that were live then, one after the other, and it is
the first error that it returns that ends the visit, nothing else.
-/
namespace ScriptNatives

variable {σ τ ε : Type}

namespace World

/-- What is noted down of one visit: to whom, and how it went. -/
abbrev VisitNote (ε : Type) : Type := InstanceId × Except ε Unit

/-- The callback that does the same and takes notes. -/
def noting (f : InstanceId → τ × World σ → Except ε Unit × τ × World σ) (id : InstanceId) :
    (List (VisitNote ε) × τ) × World σ →
      Except ε Unit × (List (VisitNote ε) × τ) × World σ :=
  fun ((notes, s), w) =>
    let (reply, s, w) := f id (s, w)
    (reply, (notes ++ [(id, reply)], s), w)

/-- The notes of a visit to these instances: they come one after the other, and the first of them
that ends in an error ends the visit. -/
inductive Noted : List InstanceId → List (VisitNote ε) → Except ε Unit → Prop where
  | finished : Noted [] [] (.ok ())
  | stopped {id : InstanceId} {ids : List InstanceId} {e : ε} :
      Noted (id :: ids) [(id, .error e)] (.error e)
  | passed {id : InstanceId} {ids : List InstanceId} {notes : List (VisitNote ε)}
      {r : Except ε Unit} (rest : Noted ids notes r) :
      Noted (id :: ids) ((id, .ok ()) :: notes) r

/-- Taking notes changes nothing, and the notes are those of a visit to the given ids. -/
theorem visit_noting (f : InstanceId → τ × World σ → Except ε Unit × τ × World σ)
    (ids : List InstanceId) (notes : List (VisitNote ε)) (s : τ) (w : World σ) :
    ∃ new, Noted ids new (visit f ids (s, w)).1 ∧
      visit (noting f) ids ((notes, s), w) = ((visit f ids (s, w)).1,
        (notes ++ new, (visit f ids (s, w)).2.1), (visit f ids (s, w)).2.2) := by
  induction ids generalizing notes s w with
  | nil => exact ⟨[], .finished, by simp [visit]⟩
  | cons id ids ih =>
    rcases hf : f id (s, w) with ⟨_ | _, s', w'⟩
    · next e =>
      refine ⟨[(id, .error e)], ?_, ?_⟩
      · simpa [visit, hf] using Noted.stopped
      · simp [visit, noting, hf]
    · obtain ⟨new, hnoted, hvisit⟩ := ih (notes ++ [(id, .ok ())]) s' w'
      refine ⟨(id, .ok ()) :: new, ?_, ?_⟩
      · simpa [visit, hf] using hnoted.passed
      · simp [visit, noting, hf, hvisit]

variable {ids : List InstanceId} {notes : List (VisitNote ε)} {r : Except ε Unit}

/-- No error is returned if everyone was visited without one. -/
theorem Noted.ok_iff (noted : Noted ids notes r) :
    r = .ok () ↔ notes = ids.map (·, .ok ()) := by
  induction noted with
  | finished => simp
  | stopped => simp
  | passed _ ih => simpa using ih

/-- The error that is returned is that of the last visit, and those before it went well. -/
theorem Noted.error_iff (noted : Noted ids notes r) (e : ε) :
    r = .error e ↔ ∃ earlier id later, ids = earlier ++ id :: later ∧
      notes = earlier.map (fun id => (id, .ok ())) ++ [(id, .error e)] := by
  induction noted with
  | finished => simp
  | @stopped id ids e' =>
    constructor
    · intro h
      obtain rfl := Except.error.inj h
      exact ⟨[], id, ids, rfl, rfl⟩
    · rintro ⟨_ | ⟨first, earlier⟩, last, later, _, hnotes⟩
      · simpa using congrArg (List.map (·.2)) hnotes
      · simp at hnotes
  | @passed id _ _ _ _ ih =>
    rw [ih]
    constructor
    · rintro ⟨earlier, last, later, rfl, rfl⟩
      exact ⟨id :: earlier, last, later, rfl, rfl⟩
    · rintro ⟨_ | ⟨first, earlier⟩, last, later, hids, hnotes⟩
      · simp at hnotes
      · exact ⟨earlier, last, later, (List.cons.inj hids).2, (List.cons.inj hnotes).2⟩

end World

/-- A visit to the live instances is a visit to those that are live when it begins: the ones that
were registered and not unloaded, in load order and each of them once. The callback may do anything
to the world in between. It comes to all of them unless it returns an error, and then to those up
to the first one for which it does, and the error is what is returned. -/
theorem Evolves.visitLive_snapshot {limits : Limits} {host : σ} {log : List (Moment σ)} {w : World σ}
    (run : Evolves (World.create limits host) log w)
    (f : InstanceId → τ × World σ → Except ε Unit × τ × World σ) (s : τ) :
    w.liveIds = (registeredIds log).filter (· ∉ unloadedIds log) ∧ w.liveIds.Nodup ∧
      ∃ notes : List (World.VisitNote ε),
        w.visitLive (World.noting f) ([], s) =
          ((w.visitLive f s).1, (notes, (w.visitLive f s).2.1), (w.visitLive f s).2.2) ∧
        ((w.visitLive f s).1 = .ok () ↔ notes = w.liveIds.map (·, .ok ())) ∧
        ∀ e, (w.visitLive f s).1 = .error e ↔ ∃ earlier id later,
          w.liveIds = earlier ++ id :: later ∧
            notes = earlier.map (·, .ok ()) ++ [(id, .error e)] := by
  obtain ⟨notes, hnoted, hvisit⟩ := World.visit_noting f w.liveIds [] s w
  exact ⟨run.roll.live, run.roll.nodup_liveIds, notes, hvisit, hnoted.ok_iff, hnoted.error_iff⟩

/-- The first of three instances is visited, and thereupon the last one is unloaded and another one
registered. The visit goes to the last one nevertheless, where it ends, and not to the new one. -/
theorem Evolves.visitLive_of_changes :
    let m : Machine := Scenario.MachineSpec.build {}
    let id (number : Nat) : InstanceId := ⟨number + 1, Nat.succ_pos number⟩
    let start : World Unit := World.create {} ()
    let w := (Act.share 0).apply ((Act.share 0).apply ((Act.register m).apply start))
    let change (w : World Unit) := (Act.share 0).apply ((Act.unload (id 2)).apply w)
    let f (visited : InstanceId) (s : Unit × World Unit) : Except String Unit × Unit × World Unit :=
      (if visited = id 2 then .error "stop" else .ok (), (),
        if visited = id 0 then change s.2 else s.2)
    ∃ log, Evolves start log w ∧ w.liveIds = [id 0, id 1, id 2] ∧
      (change w).liveIds = [id 0, id 1, id 3] ∧
      ∃ notes, w.visitLive (World.noting f) ([], ()) = (.error "stop", (notes, ()), change w) ∧
        notes = [id 0, id 1].map (·, .ok ()) ++ [(id 2, .error "stop")] := by
  intro m id start w change f
  have run : Evolves start _ w :=
    .act (.act (.act (.start start) (.register m)) (.share 0)) (.share 0)
  obtain ⟨_, _, notes, hvisit, _, _⟩ := run.visitLive_snapshot f ()
  have hnotes : (w.visitLive (World.noting f) ([], ())).2.1.1 = notes :=
    congrArg (·.2.1.1) hvisit
  exact ⟨_, run, by rfl, by rfl, notes, hvisit, hnotes.symm⟩

end ScriptNatives
