import ScriptNatives.Proofs.Calls.Walk

/-!
# Guarded calls as tours

A guarded call is told like a plain one, target by target, only that it ends with the last target
and not before. Its answer is a matter of what became of the targets: of those that were attempted
the last gives the status, of those that returned the last gives the value.
-/
namespace ScriptNatives

namespace Attempt

def status? : Attempt → Option Status
  | passedOver => none
  | lacking => some .notFound
  | failed status => some status
  | returned _ => some .clear

def value? : Attempt → Option Cell
  | returned value => some value
  | passedOver | lacking | failed _ => none

end Attempt

/-- One target of a guarded call: what became of it, and the call that was handed to the host. -/
structure Visit where
  target : InstanceId
  attempt : Attempt
  call : Option HostCall

/-- What a guarded call reports after visits: the status of the last target that was attempted, all
clear if there was none, and the value of the last one that returned. -/
def CallSummary.ofVisits (visits : List Visit) : CallSummary where
  status := (visits.filterMap (·.attempt.status?)).getLast?.getD .clear
  result := (visits.filterMap (·.attempt.value?)).getLast?

namespace CallSummary

/-- The answer of a guarded call after more visits, added up one by one. -/
def afterAll (out : CallSummary) (visits : List Visit) : CallSummary :=
  visits.foldl (fun out visit => out.after visit.attempt) out

theorem after_eq (out : CallSummary) (a : Attempt) :
    out.after a = ⟨a.status?.getD out.status, a.value?.or out.result⟩ := by
  cases a <;> rfl

theorem afterAll_eq (out : CallSummary) (visits : List Visit) :
    out.afterAll visits =
      ⟨(visits.filterMap (·.attempt.status?)).getLast?.getD out.status,
        (visits.filterMap (·.attempt.value?)).getLast?.or out.result⟩ := by
  induction visits generalizing out with
  | nil => rfl
  | cons visit visits ih =>
    rw [afterAll, List.foldl_cons, ← afterAll, ih, after_eq]
    congr 1
    · cases hs : visit.attempt.status? <;> simp [hs, List.getLast?_cons]
    · cases hv : visit.attempt.value? <;> simp [hv, List.getLast?_cons]

/-- Adding up the visits gives the report. -/
theorem afterAll_eq_ofVisits (visits : List Visit) :
    ({} : CallSummary).afterAll visits = ofVisits visits := by
  rw [afterAll_eq, Option.or_none]
  rfl

end CallSummary

namespace World

variable {σ : Type} {h : Host σ} {c : Call} {w final final' : World σ} {ids : List InstanceId}
  {visits visits' : List Visit}

/-- All targets in order, each in the world that the one before has left. -/
inductive Tour (h : Host σ) (c : Call) :
    List InstanceId → World σ → List Visit → World σ → Prop where
  | finished {w : World σ} : Tour h c [] w [] w
  | visited {id : InstanceId} {ids : List InstanceId} {w after final : World σ} {a : Attempt}
      {k : Option HostCall} {visits : List Visit} (meets : Meets h c id w a k after)
      (rest : Tour h c ids after visits final) :
      Tour h c (id :: ids) w (⟨id, a, k⟩ :: visits) final

/-- What becomes of a target is settled. -/
theorem Meets.unique {id : InstanceId} {a a' : Attempt} {k k' : Option HostCall}
    {after after' : World σ} (meets : Meets h c id w a k after)
    (meets' : Meets h c id w a' k' after') : a = a' ∧ k = k' ∧ after = after' := by
  obtain ⟨hattempt, hcall⟩ := meets_iff.mp meets
  obtain ⟨hattempt', hcall'⟩ := meets_iff.mp meets'
  obtain ⟨ha, hafter⟩ := Prod.mk.inj (hattempt.symm.trans hattempt')
  exact ⟨ha, hcall.symm.trans hcall', hafter⟩

theorem exists_tour (h : Host σ) (c : Call) (ids : List InstanceId) (w : World σ) :
    ∃ visits final, Tour h c ids w visits final := by
  induction ids generalizing w with
  | nil => exact ⟨[], w, .finished⟩
  | cons id ids ih =>
    obtain ⟨visits, final, rest⟩ := ih (attempt h c id w).2
    exact ⟨_, final, .visited (meets_iff.mpr ⟨rfl, rfl⟩) rest⟩

theorem Tour.unique (tour : Tour h c ids w visits final) (tour' : Tour h c ids w visits' final') :
    visits = visits' ∧ final = final' := by
  induction tour generalizing visits' with
  | finished =>
    cases tour'
    exact ⟨rfl, rfl⟩
  | visited meets _ ih =>
    cases tour' with
    | visited meets' rest' =>
      obtain ⟨rfl, rfl, rfl⟩ := meets.unique meets'
      obtain ⟨rfl, rfl⟩ := ih rest'
      exact ⟨rfl, rfl⟩

theorem Tour.map_target (tour : Tour h c ids w visits final) : visits.map (·.target) = ids := by
  induction tour with
  | finished => rfl
  | visited _ _ ih => rw [List.map_cons, ih]

/-- The fold over the targets adds up the visits of the tour. -/
theorem Tour.foldl_eq (tour : Tour h c ids w visits final) (out : CallSummary) :
    ids.foldl (tryCallOne h c) (out, w) = (out.afterAll visits, final) := by
  induction tour generalizing out with
  | finished => rfl
  | visited meets _ ih =>
    obtain ⟨hattempt, _⟩ := meets_iff.mp meets
    rw [List.foldl_cons, tryCallOne, hattempt]
    exact ih _

/-- The world is changed by the calls that are handed to the host and by nothing else. -/
theorem Tour.final_eq (tour : Tour h c ids w visits final) :
    final = runCalls h w (visits.filterMap (·.call)) := by
  induction tour with
  | finished => rfl
  | visited meets _ ih =>
    rw [ih]
    cases meets with
    | gone | lacking => rfl
    | failed _ _ ran => simp [runCalls, ran]
    | returned _ _ ran => simp [runCalls, ran]

/-- What a guarded call comes to: the visits, the report and the world. -/
inductive Toured (h : Host σ) (c : Call) (w : World σ) :
    List Visit → CallSummary → World σ → Prop where
  | refused {reference : Cell} (single : c.recipients = .one reference)
      (dead : ∀ id ∈ w.liveIds, InstanceId.ofCell? reference ≠ some id) :
      Toured h c w [] { status := .notFound } w
  | toured {ids : List InstanceId} {visits : List Visit} {final : World σ}
      (targets : Targets w c.source c.recipients ids) (tour : Tour h c ids w visits final) :
      Toured h c w visits (.ofVisits visits) final

theorem Tour.tryCall_eq (tour : Tour h c ids w visits final)
    (targets : Targets w c.source c.recipients ids) :
    tryCall h c w = (.ofVisits visits, final) := by
  rw [tryCall_of_targets (targets_eq_ok_iff.mpr targets), tour.foldl_eq,
    CallSummary.afterAll_eq_ofVisits]

/-- The targets of a call are settled, too. -/
theorem Targets.unique {source : InstanceId} {recipients : Recipients} {ids' : List InstanceId}
    (targets : Targets w source recipients ids) (targets' : Targets w source recipients ids') :
    ids = ids' := by
  rw [← targets_eq_ok_iff] at targets targets'
  exact Except.ok.inj (targets.symm.trans targets')

theorem Toured.tryCall_eq {out : CallSummary} (toured : Toured h c w visits out final) :
    tryCall h c w = (out, final) := by
  cases toured with
  | refused single dead =>
    exact tryCall_of_error (targets_eq_error_iff.mpr ⟨_, single, rfl, dead⟩)
  | toured targets tour => exact tour.tryCall_eq targets

/-- A call that has targets is not refused. -/
theorem Toured.tour {out : CallSummary} (toured : Toured h c w visits out final)
    (targets : Targets w c.source c.recipients ids) : Tour h c ids w visits final := by
  cases toured with
  | refused single dead =>
    rw [single] at targets
    cases targets with
    | one named live => exact absurd named (dead _ live)
  | toured targets' tour =>
    obtain rfl := targets.unique targets'
    exact tour

theorem Toured.unique {out out' : CallSummary} (toured : Toured h c w visits out final)
    (toured' : Toured h c w visits' out' final') : visits = visits' := by
  cases toured with
  | refused single dead =>
    cases toured' with
    | refused _ _ => rfl
    | toured targets' tour' => exact (((Toured.refused single dead).tour targets').unique tour').1
  | toured targets tour => exact (tour.unique (toured'.tour targets)).1

theorem Toured.final_eq {out : CallSummary} (toured : Toured h c w visits out final) :
    final = runCalls h w (visits.filterMap (·.call)) := by
  cases toured with
  | refused _ _ => rfl
  | toured _ tour => exact tour.final_eq

/-- A call that recovers never fails, so what a guarded call reports is what its loop has come to. -/
theorem dispatch_recovering (h : Host σ) (c : Call) (w : World σ) :
    dispatch h true c w = (.ok (tryCall h c w).1, (tryCall h c w).2) := by
  cases hids : w.targets c.source c.recipients with
  | error fault =>
    rw [tryCall_of_error hids]
    simp [dispatch, hids]
  | ok ids =>
    rw [tryCall_of_targets hids]
    simp only [dispatch, hids, visit_recovering]

theorem exists_toured (h : Host σ) (c : Call) (w : World σ) :
    ∃ visits, Toured h c w visits (tryCall h c w).1 (tryCall h c w).2 := by
  cases hids : w.targets c.source c.recipients with
  | error fault =>
    obtain ⟨reference, single, _, dead⟩ := targets_eq_error_iff.mp hids
    rw [tryCall_of_error hids]
    exact ⟨[], .refused single dead⟩
  | ok ids =>
    have targets := targets_eq_ok_iff.mp hids
    obtain ⟨visits, final, tour⟩ := exists_tour h c ids w
    rw [tour.tryCall_eq targets]
    exact ⟨visits, .toured targets tour⟩

/-- A guarded call goes to every target, whatever the host does. The loop that it shares with a
plain call does not fail, so nothing stands in for its answer: there is one list of visits, one to
each target in load order, and the answer is the report of them. -/
theorem tryCall_visits_all (h : Host σ) (c : Call) (w : World σ) :
    dispatch h true c w = (.ok (tryCall h c w).1, (tryCall h c w).2) ∧
      ∃ visits : List Visit,
        (∀ visits' out final, Toured h c w visits' out final ↔
          visits' = visits ∧ tryCall h c w = (out, final)) ∧
        (∀ ids, Targets w c.source c.recipients ids → visits.map (·.target) = ids) ∧
        (tryCall h c w).2 = runCalls h w (visits.filterMap (·.call)) := by
  obtain ⟨visits, toured⟩ := exists_toured h c w
  refine ⟨dispatch_recovering h c w, visits, fun visits' out final => ?_,
    fun ids targets => (toured.tour targets).map_target, toured.final_eq⟩
  constructor
  · intro toured'
    exact ⟨toured'.unique toured, toured'.tryCall_eq⟩
  · rintro ⟨rfl, heq⟩
    rwa [heq] at toured

end World

end ScriptNatives
