import ScriptNatives.Proofs.Calls.Tour

/-!
# Plain and guarded calls agree

Both kinds of call begin with the same targets, and as long as nothing goes wrong they do the same
to the world. So a plain call that succeeds is a tour by itself, and one that fails is the beginning
of a tour.
-/
namespace ScriptNatives

/-- How a guarded call of a single target reports what makes a plain one fail. -/
inductive Fault.ReportedBy : Fault → Status → Prop where
  | dangling (subject : Subject) (value : Cell) : ReportedBy (.dangling subject value) .notFound
  | unknownFunction (kind : FunctionKind) (name : String) :
      ReportedBy (.unknownFunction kind name) .notFound
  | callFailed (function : String) (status : Status) :
      ReportedBy (.callFailed function status) status

namespace World

variable {σ : Type} {h : Host σ} {c : Call} {w final final' : World σ} {ids : List InstanceId}
  {visits : List Visit} {calls : List HostCall} {last : Option Cell}

/-- A walk that succeeds is a tour, and none of its visits leaves a status other than all clear. The
report is that of the same host calls. -/
theorem Walk.exists_tour {value : Cell} (walk : Walk h c ids last w calls (.ok value) final) :
    ∃ visits, Tour h c ids w visits final ∧ visits.filterMap (·.call) = calls ∧
      CallSummary.afterAll ⟨.clear, last⟩ visits =
        ⟨.clear, if calls = [] then last else some value⟩ ∧
      (calls = [] → value = last.getD 0) := by
  generalize hr : Except.ok value = r at walk
  induction walk with
  | @finished last w =>
    obtain rfl : value = last.getD 0 := Except.ok.inj hr
    exact ⟨[], .finished, rfl, rfl, fun _ => rfl⟩
  | passed meets _ ih =>
    obtain ⟨visits, tour, hcalls, hreport, hvalue⟩ := ih hr
    exact ⟨_, .visited meets tour, hcalls, hreport, hvalue⟩
  | @returned _ _ last _ _ _ returned k calls _ meets _ ih =>
    obtain ⟨visits, tour, hcalls, hreport, hvalue⟩ := ih hr
    refine ⟨_, .visited meets tour, by simp [hcalls], hreport.trans ?_, nofun⟩
    rw [if_neg (List.cons_ne_nil k calls)]
    split
    · next hnone => rw [hvalue hnone, Option.getD_some]
    · rfl
  | lacking => cases hr
  | failed => cases hr

/-- The host calls of a walk are the first ones of a tour of the same targets. -/
theorem Walk.calls_prefix {r : Except Fault Cell} (walk : Walk h c ids last w calls r final)
    (tour : Tour h c ids w visits final') : calls <+: visits.filterMap (·.call) := by
  induction walk generalizing visits with
  | finished => exact List.nil_prefix
  | lacking => exact List.nil_prefix
  | passed meets _ ih =>
    cases tour with
    | visited meets' rest =>
      obtain ⟨rfl, rfl, rfl⟩ := meets.unique meets'
      simpa using ih rest
  | returned meets _ ih =>
    cases tour with
    | visited meets' rest =>
      obtain ⟨rfl, rfl, rfl⟩ := meets.unique meets'
      simpa using ih rest
  | failed meets =>
    cases tour with
    | visited meets' rest =>
      obtain ⟨rfl, rfl, rfl⟩ := meets.unique meets'
      simp

/-- What makes a walk over a single target fail is reported by the tour. -/
theorem Walk.reported {id : InstanceId} {fault : Fault}
    (walk : Walk h c [id] last w calls (.error fault) final)
    (tour : Tour h c [id] w visits final') :
    ∃ status, fault.ReportedBy status ∧ CallSummary.ofVisits visits = ⟨status, none⟩ := by
  cases tour with
  | visited meets' rest =>
    cases rest
    cases walk with
    | passed _ rest => cases rest
    | returned _ rest => cases rest
    | lacking meets =>
      obtain ⟨rfl, rfl, rfl⟩ := meets.unique meets'
      exact ⟨_, .unknownFunction _ _, rfl⟩
    | failed meets =>
      obtain ⟨rfl, rfl, rfl⟩ := meets.unique meets'
      exact ⟨_, .callFailed _ _, rfl⟩

/-- The report of a call that has targets. -/
theorem Toured.eq_ofVisits {out : CallSummary} (toured : Toured h c w visits out final)
    (targets : Targets w c.source c.recipients ids) : out = .ofVisits visits :=
  congrArg Prod.fst (toured.tryCall_eq.symm.trans ((toured.tour targets).tryCall_eq targets))

theorem Dispatched.agrees_of_ok {value : Cell} {out : CallSummary}
    (dispatched : Dispatched h c w calls (.ok value) final)
    (toured : Toured h c w visits out final') :
    visits.filterMap (·.call) = calls ∧ final' = final ∧
      out = ⟨.clear, if calls = [] then none else some value⟩ ∧ (calls = [] → value = 0) := by
  cases dispatched with
  | walked targets walk =>
    obtain ⟨visits', tour, hcalls, hreport, hvalue⟩ := walk.exists_tour
    obtain ⟨rfl, rfl⟩ := (toured.tour targets).unique tour
    refine ⟨hcalls, rfl, ?_, hvalue⟩
    rw [toured.eq_ofVisits targets, ← CallSummary.afterAll_eq_ofVisits]
    exact hreport

theorem Dispatched.agrees_of_error {fault : Fault} {out : CallSummary}
    (dispatched : Dispatched h c w calls (.error fault) final)
    (toured : Toured h c w visits out final') :
    calls <+: visits.filterMap (·.call) ∧ ∀ reference, c.recipients = .one reference →
      ∃ status, fault.ReportedBy status ∧ out = ⟨status, none⟩ := by
  cases dispatched with
  | refused single dead =>
    refine ⟨List.nil_prefix, fun _ _ => ⟨_, .dangling _ _, ?_⟩⟩
    have hrefused : tryCall h c w = _ := (Toured.refused single dead).tryCall_eq
    exact congrArg Prod.fst (toured.tryCall_eq.symm.trans hrefused)
  | walked targets walk =>
    have tour := toured.tour targets
    refine ⟨walk.calls_prefix tour, fun reference single => ?_⟩
    rw [toured.eq_ofVisits targets]
    rw [single] at targets
    cases targets with
    | one _ _ => exact walk.reported tour

/-- A plain and a guarded call from the same world, with the same host. If the plain call succeeds,
they make the same host calls and leave the same world, and the guarded call reports that all is
clear, with the value of the plain one unless nobody was called. If the plain call fails, its host
calls are the first ones of the guarded call; and of a single target the guarded call reports what
the plain one fails with. -/
theorem call_tryCall_agree (h : Host σ) (c : Call) (w : World σ) :
    ∃ (calls : List HostCall) (visits : List Visit),
      Dispatched h c w calls (call h c w).1 (call h c w).2 ∧
      Toured h c w visits (tryCall h c w).1 (tryCall h c w).2 ∧
      (∀ value, (call h c w).1 = .ok value →
        visits.filterMap (·.call) = calls ∧ (tryCall h c w).2 = (call h c w).2 ∧
          (tryCall h c w).1 = ⟨.clear, if calls = [] then none else some value⟩ ∧
          (calls = [] → value = 0)) ∧
      ∀ fault, (call h c w).1 = .error fault →
        calls <+: visits.filterMap (·.call) ∧
          ∀ reference, c.recipients = .one reference →
            ∃ status, fault.ReportedBy status ∧ (tryCall h c w).1 = ⟨status, none⟩ := by
  obtain ⟨visits, toured⟩ := exists_toured h c w
  obtain ⟨calls, dispatched⟩ : ∃ calls, Dispatched h c w calls (call h c w).1 (call h c w).2 :=
    ⟨_, dispatched_iff.mpr ⟨rfl, rfl⟩⟩
  refine ⟨calls, visits, dispatched, toured, fun value hok => ?_, fun fault herror => ?_⟩
  · rw [hok] at dispatched
    exact dispatched.agrees_of_ok toured
  · rw [herror] at dispatched
    exact dispatched.agrees_of_error toured

end World

end ScriptNatives
