import ScriptNatives.Proofs.Calls.Tour

/-!
# The last target of a guarded call

The status of a guarded call is that of the last target that was attempted, and as a host may fail
with any status, it may fail with the one that says that all is clear. The status alone tells then
nothing: who wants to know whether the call went through has to ask what the host replied.
-/
namespace ScriptNatives

namespace CallSummary

/-- Targets that were gone do not count. -/
theorem afterAll_of_gone {visits : List Visit}
    (gone : ∀ visit ∈ visits, visit.attempt = .passedOver) (out : CallSummary) : out.afterAll visits = out := by
  induction visits with
  | nil => rfl
  | cons visit visits ih =>
    rw [afterAll, List.foldl_cons, gone visit List.mem_cons_self]
    exact ih fun visit later => gone visit (List.mem_cons_of_mem _ later)

/-- The report ends with the last target that counts. -/
theorem ofVisits_append_cons (earlier : List Visit) (last : Visit) {later : List Visit}
    (gone : ∀ visit ∈ later, visit.attempt = .passedOver) :
    ofVisits (earlier ++ last :: later) = (ofVisits earlier).after last.attempt := by
  simp only [← afterAll_eq_ofVisits]
  rw [afterAll, List.foldl_append, List.foldl_cons]
  exact afterAll_of_gone gone _

end CallSummary

namespace World

variable {σ : Type} {h : Host σ} {c : Call} {w found final : World σ} {ids : List InstanceId}
  {visits : List Visit} {last : Visit}

/-- The last target of a guarded call that was attempted. The calls before it have led to the world
`found`, in which its turn came, and as all targets after it were gone, its own call has led to
the world at the end. -/
structure LastAttempt (h : Host σ) (c : Call) (w : World σ) (visits : List Visit) (last : Visit)
    (found final : World σ) : Prop where
  place : ∃ earlier later, visits = earlier ++ last :: later ∧
    found = runCalls h w (earlier.filterMap (·.call)) ∧
    ∀ visit ∈ later, visit.attempt = .passedOver
  attempted : last.attempt ≠ .passedOver
  meets : Meets h c last.target found last.attempt last.call final

/-- Nobody is called where all targets were gone. -/
theorem Tour.final_eq_of_gone (tour : Tour h c ids w visits final)
    (gone : ∀ visit ∈ visits, visit.attempt = .passedOver) : final = w := by
  induction tour with
  | finished => rfl
  | visited meets _ ih =>
    obtain rfl := gone _ List.mem_cons_self
    obtain rfl := ih fun visit later => gone visit (List.mem_cons_of_mem _ later)
    cases meets with
    | gone _ => rfl

/-- One more target before them does not change which one is the last. -/
theorem LastAttempt.cons {id : InstanceId} {a : Attempt} {k : Option HostCall} {after : World σ}
    (meets : Meets h c id w a k after) (later : LastAttempt h c after visits last found final) :
    LastAttempt h c w (⟨id, a, k⟩ :: visits) last found final := by
  obtain ⟨earlier, gone, hvisits, hfound, hgone⟩ := later.place
  have hafter : after = runCalls h w ([⟨id, a, k⟩].filterMap Visit.call) :=
    (Tour.visited meets .finished).final_eq
  refine ⟨⟨⟨id, a, k⟩ :: earlier, gone, by rw [hvisits, List.cons_append], ?_, hgone⟩,
    later.attempted, later.meets⟩
  rw [hfound, hafter, runCalls, runCalls, ← List.foldl_append, ← List.filterMap_append]
  rfl

/-- Either all targets were gone, or one was attempted last. -/
theorem Tour.gone_or_lastAttempt (tour : Tour h c ids w visits final) :
    (∀ visit ∈ visits, visit.attempt = .passedOver) ∨
      ∃ last found, LastAttempt h c w visits last found final := by
  induction tour with
  | finished => exact .inl fun _ visit => absurd visit List.not_mem_nil
  | @visited id _ w after _ a k visits meets rest ih =>
    cases ih with
    | inr later =>
      obtain ⟨last, found, later⟩ := later
      exact .inr ⟨last, found, later.cons meets⟩
    | inl gone =>
      by_cases ha : a = .passedOver
      · exact .inl (List.forall_mem_cons.mpr ⟨ha, gone⟩)
      · obtain rfl := rest.final_eq_of_gone gone
        exact .inr ⟨⟨id, a, k⟩, w, ⟨[], visits, rfl, rfl, gone⟩, ha, meets⟩

/-- The status of the last attempt is the one that is reported, and what it returned is the
result. -/
theorem LastAttempt.report (attempt : LastAttempt h c w visits last found final) :
    some (CallSummary.ofVisits visits).status = last.attempt.status? ∧
      ∀ value, last.attempt = .returned value → (CallSummary.ofVisits visits).result = some value := by
  obtain ⟨earlier, later, rfl, _, gone⟩ := attempt.place
  rw [CallSummary.ofVisits_append_cons earlier last gone, CallSummary.after_eq]
  constructor
  · cases ha : last.attempt with
    | passedOver => exact absurd ha attempt.attempted
    | lacking | failed status | returned value => rfl
  · intro value hvalue
    rw [hvalue]
    rfl

/-- Where there is a last attempt, not all targets were gone. -/
theorem LastAttempt.not_gone (attempt : LastAttempt h c w visits last found final) :
    ¬ ∀ visit ∈ visits, visit.attempt = .passedOver := by
  obtain ⟨earlier, later, rfl, _, _⟩ := attempt.place
  exact fun gone => attempt.attempted (gone last (by simp))

/-- If the last target was not gone, it is the one. -/
theorem LastAttempt.eq_of_getLast? {visit : Visit}
    (attempt : LastAttempt h c w visits last found final) (hlast : visits.getLast? = some visit)
    (attempted : visit.attempt ≠ .passedOver) : last = visit := by
  obtain ⟨earlier, later, rfl, _, gone⟩ := attempt.place
  rw [List.getLast?_append, List.getLast?_cons, Option.some_or, ← List.getLast?_cons] at hlast
  cases List.mem_cons.mp (List.mem_of_getLast? hlast) with
  | inr later => exact absurd (gone visit later) attempted
  | inl first => exact first.symm

/-- An attempt counts as clear if the host replied so: with a value, or with a failure that has the
code of success. -/
theorem Meets.status?_eq_clear_iff {id : InstanceId} {a : Attempt} {k : Option HostCall}
    (meets : Meets h c id w a k final) :
    a.status? = some .clear ↔ ∃ call, k = some call ∧
      ((∃ value, h.run call w = (.ok value, final)) ∨ h.run call w = (.error .clear, final)) := by
  cases meets with
  | gone _ => simp [Attempt.status?]
  | lacking _ _ => simp [Attempt.status?, Status.notFound, Status.clear]
  | failed _ _ ran => simp [Attempt.status?, ran]
  | returned _ _ ran => simp [Attempt.status?, ran]

/-- A value that the host replied with is what the target returned. -/
theorem Meets.eq_returned {id : InstanceId} {a : Attempt} {call : HostCall} {value : Cell}
    (meets : Meets h c id w a (some call) final) (ran : h.run call w = (.ok value, final)) :
    a = .returned value := by
  cases meets with
  | failed _ _ ran' => simp [ran'] at ran
  | returned _ _ ran' =>
    obtain rfl : _ = value := by simpa [ran'] using ran
    rfl

/-- What the host has replied in the last attempt decides whether the report is clear. -/
theorem LastAttempt.clear_iff (attempt : LastAttempt h c w visits last found final) :
    (CallSummary.ofVisits visits).status = .clear ↔ ∃ call, last.call = some call ∧
      ((∃ value, h.run call found = (.ok value, final) ∧
          (CallSummary.ofVisits visits).result = some value) ∨
        h.run call found = (.error .clear, final)) := by
  obtain ⟨hstatus, hresult⟩ := attempt.report
  rw [← Option.some_inj, hstatus, attempt.meets.status?_eq_clear_iff]
  constructor
  · rintro ⟨call, hcall, hreply⟩
    have meets := attempt.meets
    rw [hcall] at meets
    refine ⟨call, hcall, hreply.imp_left ?_⟩
    rintro ⟨value, ran⟩
    exact ⟨value, ran, hresult value (meets.eq_returned ran)⟩
  · rintro ⟨call, hcall, hreply⟩
    exact ⟨call, hcall, hreply.imp_left fun ⟨value, ran, _⟩ => ⟨value, ran⟩⟩

/-- When a guarded call reports that all is clear. It has targets, and either all of them were gone,
or the last one that was attempted was called, and the host replied with a value, which is the
result, or else with a failure whose status is the clear one. Any other failure of the last
attempt is reported as it is, and a function that the last one lacks as not found. -/
theorem tryCall_clear_iff (h : Host σ) (c : Call) (w : World σ) :
    ∃ visits, Toured h c w visits (tryCall h c w).1 (tryCall h c w).2 ∧
      ((tryCall h c w).1.status = .clear ↔
        (∃ ids, Targets w c.source c.recipients ids) ∧
            (∀ visit ∈ visits, visit.attempt = .passedOver) ∨
          ∃ last found, LastAttempt h c w visits last found (tryCall h c w).2 ∧
            ∃ call, last.call = some call ∧
              ((∃ value, h.run call found = (.ok value, (tryCall h c w).2) ∧
                  (tryCall h c w).1.result = some value) ∨
                h.run call found = (.error .clear, (tryCall h c w).2))) ∧
      ∀ last found, LastAttempt h c w visits last found (tryCall h c w).2 →
        last.attempt.status? = some (tryCall h c w).1.status := by
  obtain ⟨visits, toured⟩ := exists_toured h c w
  refine ⟨visits, toured, ?_⟩
  generalize (tryCall h c w).1 = out, (tryCall h c w).2 = final at toured
  cases toured with
  | refused single dead =>
    have htargets (ids) : ¬ Targets w c.source c.recipients ids := by
      rw [single]
      intro targets
      cases targets with
      | one named live => exact dead _ live named
    have hattempt (last found) : ¬ LastAttempt h c w [] last found w :=
      fun attempt => attempt.not_gone fun _ visit => absurd visit List.not_mem_nil
    simp [htargets, hattempt, Status.notFound, Status.clear]
  | @toured ids _ _ targets tour =>
    refine ⟨⟨fun hclear => ?_, ?_⟩, fun last found attempt => attempt.report.1.symm⟩
    · cases tour.gone_or_lastAttempt with
      | inl gone => exact .inl ⟨⟨ids, targets⟩, gone⟩
      | inr attempt =>
        obtain ⟨last, found, attempt⟩ := attempt
        exact .inr ⟨last, found, attempt, attempt.clear_iff.mp hclear⟩
    · rintro (⟨_, gone⟩ | ⟨last, found, attempt, hreply⟩)
      · rw [← CallSummary.afterAll_eq_ofVisits, CallSummary.afterAll_of_gone gone]
      · exact attempt.clear_iff.mpr hreply

/-- A call to everyone returns 7 in the first of two targets and fails in the second with the code of
success. The report is that of a call that went through, though the last target failed. -/
theorem tryCall_clear_after_failure :
    let m := (Machine.ofLayout "m" 64 256).declarePublic "f"
    let w : World Unit := (((World.create {} ()).register m).2.register m).2
    let first : InstanceId := ⟨1, by decide⟩
    let h : Host Unit :=
      ⟨fun k w => (if k.target = first then .ok 7 else .error .clear, w), fun _ host => (0, host)⟩
    let c : Call := ⟨first, .everyone, "f", .exported, ⟨"", []⟩⟩
    tryCall h c w = (⟨.clear, some 7⟩, w) ∧
      ¬ ((tryCall h c w).1.status = .clear →
        ∃ visits, Toured h c w visits (tryCall h c w).1 (tryCall h c w).2 ∧
          ((∀ visit ∈ visits, visit.attempt = .passedOver) ∨
            ∃ last found call value, LastAttempt h c w visits last found (tryCall h c w).2 ∧
              last.call = some call ∧ h.run call found = (.ok value, (tryCall h c w).2))) := by
  intro m w first h c
  let second : InstanceId := ⟨2, by decide⟩
  let k (id : InstanceId) : HostCall := ⟨first, id, "f", .exported 0, ⟨"", []⟩⟩
  let visits : List Visit :=
    [⟨first, .returned 7, some (k first)⟩, ⟨second, .failed .clear, some (k second)⟩]
  have tour : Tour h c [first, second] w visits w :=
    .visited (meets_iff.mpr ⟨rfl, rfl⟩) (.visited (meets_iff.mpr ⟨rfl, rfl⟩) .finished)
  have toured : Toured h c w visits ⟨.clear, some 7⟩ w := .toured .everyone tour
  refine ⟨toured.tryCall_eq, fun hclaim => ?_⟩
  rw [toured.tryCall_eq] at hclaim
  obtain ⟨visits', toured', hlast⟩ := hclaim rfl
  obtain rfl := toured'.unique toured
  cases hlast with
  | inl gone => simpa using gone ⟨first, .returned 7, some (k first)⟩ (by simp [visits])
  | inr attempt =>
    obtain ⟨last, found, call, value, attempt, hcall, ran⟩ := attempt
    obtain rfl := attempt.eq_of_getLast? rfl (by simp)
    obtain rfl : k second = call := Option.some.inj hcall
    exact absurd (congrArg Prod.fst ran) (by simp [h, k, first, second])

end World

end ScriptNatives
