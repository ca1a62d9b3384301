import ScriptNatives.Proofs.World.Live
import ScriptNatives.World.Calls

/-!
# Calls as walks

What a call does, told without the functions that do it. The targets are settled when the call
begins, and then visited one after the other. The host is arbitrary: what it does while a function
runs may load and unload instances, so each target is looked at in the world as it is when its turn
comes.
-/
namespace ScriptNatives

/-- The function of that name that a machine has: of the public functions the first, of the
registered natives the one registered last. -/
inductive Machine.Declares (m : Machine) (function : String) :
    FunctionKind → EntryPoint → Prop where
  | exported {i : Nat} (named : m.publics[i]? = some function)
      (first : ∀ j < i, m.publics[j]? ≠ some function) :
      Declares m function .exported (.exported i)
  | native {newer older : List (String × Nat)} {address : Nat}
      (registered : m.natives = newer ++ (function, address) :: older)
      (last : ∀ entry ∈ newer, entry.1 ≠ function) :
      Declares m function .native (.native address)

theorem Machine.publicIndex?_eq_some_iff {m : Machine} {function : String} {i : Nat} :
    m.publicIndex? function = some i ↔
      m.publics[i]? = some function ∧ ∀ j < i, m.publics[j]? ≠ some function := by
  simp only [publicIndex?, List.findIdx?_eq_some_iff_getElem, List.getElem?_eq_some_iff, ne_eq]
  constructor
  · rintro ⟨hi, hnamed, hfirst⟩
    refine ⟨⟨hi, by simpa using hnamed⟩, ?_⟩
    rintro j hj ⟨_, hnamed⟩
    exact hfirst j hj (by simpa using hnamed)
  · rintro ⟨⟨hi, hnamed⟩, hfirst⟩
    refine ⟨hi, by simpa using hnamed, fun j hj hnamed => ?_⟩
    exact hfirst j hj ⟨Nat.lt_trans hj hi, by simpa using hnamed⟩

theorem Machine.nativeAddress?_eq_some_iff {m : Machine} {function : String} {address : Nat} :
    m.nativeAddress? function = some address ↔
      ∃ newer older, m.natives = newer ++ (function, address) :: older ∧
        ∀ entry ∈ newer, entry.1 ≠ function := by
  simp only [nativeAddress?, List.lookup_eq_some_iff, bne_iff_ne, ne_comm]

/-- The look-up of a function finds the one that is declared. -/
theorem Machine.entry?_eq_some_iff {m : Machine} {kind : FunctionKind} {function : String}
    {entry : EntryPoint} :
    m.entry? kind function = some entry ↔ m.Declares function kind entry := by
  cases kind with
  | native =>
    simp only [Option.map_eq_some_iff, entry?, nativeAddress?_eq_some_iff]
    constructor
    · rintro ⟨address, ⟨newer, older, hregistered, hlast⟩, rfl⟩
      exact .native hregistered hlast
    · intro hdeclares
      cases hdeclares with
      | native hregistered hlast => exact ⟨_, ⟨_, _, hregistered, hlast⟩, rfl⟩
  | exported =>
    simp only [Option.map_eq_some_iff, entry?, publicIndex?_eq_some_iff]
    constructor
    · rintro ⟨i, ⟨hnamed, hfirst⟩, rfl⟩
      exact .exported hnamed hfirst
    · intro hdeclares
      cases hdeclares with
      | exported hnamed hfirst => exact ⟨_, ⟨hnamed, hfirst⟩, rfl⟩

theorem Machine.entry?_eq_none_iff {m : Machine} {kind : FunctionKind} {function : String} :
    m.entry? kind function = none ↔ ∀ entry, ¬ m.Declares function kind entry := by
  simp only [Option.eq_none_iff_forall_ne_some, ne_eq, entry?_eq_some_iff]

/-- Whether a plain call goes on after a target. -/
def Attempt.goesOn : Attempt → Bool
  | .passedOver | .returned _ => true
  | .lacking | .failed _ => false

/-- The answer of a guarded call after one more target. -/
def CallSummary.after (out : CallSummary) : Attempt → CallSummary
  | .passedOver => out
  | .lacking => { out with status := .notFound }
  | .failed status => { out with status }
  | .returned value => ⟨.clear, some value⟩

namespace World

variable {σ : Type}

/-! ### One target -/

/-- What becomes of a target in the world `w` in which its turn comes: the call handed to the host,
if it comes to that, and the world afterwards. -/
inductive Meets (h : Host σ) (c : Call) (target : InstanceId) (w : World σ) :
    Attempt → Option HostCall → World σ → Prop where
  | gone (dead : w.isLive target = false) : Meets h c target w .passedOver none w
  | lacking {m : Machine} (live : w.machine? target = some m)
      (lacks : ∀ entry, ¬ m.Declares c.function c.kind entry) : Meets h c target w .lacking none w
  | failed {m : Machine} {entry : EntryPoint} {status : Status} {after : World σ}
      (live : w.machine? target = some m) (has : m.Declares c.function c.kind entry)
      (ran : h.run ⟨c.source, target, c.function, entry, c.args⟩ w = (.error status, after)) :
      Meets h c target w (.failed status)
        (some ⟨c.source, target, c.function, entry, c.args⟩) after
  | returned {m : Machine} {entry : EntryPoint} {value : Cell} {after : World σ}
      (live : w.machine? target = some m) (has : m.Declares c.function c.kind entry)
      (ran : h.run ⟨c.source, target, c.function, entry, c.args⟩ w = (.ok value, after)) :
      Meets h c target w (.returned value)
        (some ⟨c.source, target, c.function, entry, c.args⟩) after

/-- The call that is handed to the host for a target, if the target is live and has the function. -/
def hostCall? (c : Call) (target : InstanceId) (w : World σ) : Option HostCall := do
  let m ← w.machine? target
  let entry ← m.entry? c.kind c.function
  return ⟨c.source, target, c.function, entry, c.args⟩

/-- An attempt is what becomes of the target, and nothing else is. -/
theorem meets_iff {h : Host σ} {c : Call} {target : InstanceId} {w after : World σ} {a : Attempt}
    {k : Option HostCall} :
    Meets h c target w a k after ↔
      attempt h c target w = (a, after) ∧ hostCall? c target w = k := by
  constructor
  · intro hmeets
    cases hmeets with
    | gone dead =>
      have hm := machine?_eq_none_iff.mpr dead
      simp [attempt, hostCall?, hm]
    | lacking live lacks =>
      have he := Machine.entry?_eq_none_iff.mpr lacks
      simp [attempt, hostCall?, live, he]
    | failed live has ran =>
      have he := Machine.entry?_eq_some_iff.mpr has
      simp [attempt, hostCall?, live, he, ran]
    | returned live has ran =>
      have he := Machine.entry?_eq_some_iff.mpr has
      simp [attempt, hostCall?, live, he, ran]
  · rintro ⟨hattempt, rfl⟩
    cases hm : w.machine? target with
    | none =>
      have hdead := machine?_eq_none_iff.mp hm
      simp only [attempt, hm, Prod.mk.injEq] at hattempt
      obtain ⟨rfl, rfl⟩ := hattempt
      simpa [hostCall?, hm] using Meets.gone hdead
    | some m =>
      cases he : m.entry? c.kind c.function with
      | none =>
        simp only [attempt, hm, he, Prod.mk.injEq] at hattempt
        obtain ⟨rfl, rfl⟩ := hattempt
        simpa [hostCall?, hm, he] using Meets.lacking hm (Machine.entry?_eq_none_iff.mp he)
      | some entry =>
        have has := Machine.entry?_eq_some_iff.mp he
        simp only [hostCall?, hm, he, Option.bind_eq_bind, Option.bind_some, Option.pure_def]
        simp only [attempt, hm, he] at hattempt
        split at hattempt <;> obtain ⟨rfl, rfl⟩ := Prod.mk.inj hattempt
        · next hran => exact .returned hm has hran
        · next hran => exact .failed hm has hran

/-! ### The calls handed to the host -/

/-- The calls handed to the host when targets are visited in order, each with the world that the
host finds. After each target `goesOn` tells whether there is a next one. -/
def hostCalls (h : Host σ) (c : Call) (goesOn : Attempt → Bool) :
    List InstanceId → World σ → List (HostCall × World σ)
  | [], _ => []
  | id :: ids, w =>
    let (a, after) := attempt h c id w
    ((hostCall? c id w).toList.map (·, w)) ++
      if goesOn a then hostCalls h c goesOn ids after else []

theorem hostCalls_cons (h : Host σ) (c : Call) (goesOn : Attempt → Bool) (id : InstanceId)
    (ids : List InstanceId) (w : World σ) :
    hostCalls h c goesOn (id :: ids) w = (hostCall? c id w).toList.map (·, w) ++
      if goesOn (attempt h c id w).1 then hostCalls h c goesOn ids (attempt h c id w).2 else [] :=
  rfl

def callHostCalls (h : Host σ) (c : Call) (w : World σ) : List (HostCall × World σ) :=
  match w.targets c.source c.recipients with
  | .ok ids => hostCalls h c Attempt.goesOn ids w
  | .error _ => []

/-- The world between two calls changes in neither: the host finds what it left, from the world
`w` at the beginning to the world at the end. -/
def Chained (h : Host σ) : World σ → List (HostCall × World σ) → World σ → Prop
  | w, [], final => final = w
  | w, (k, found) :: calls, final => found = w ∧ Chained h (h.run k w).2 calls final

def runCalls (h : Host σ) (w : World σ) (calls : List HostCall) : World σ :=
  calls.foldl (fun w k => (h.run k w).2) w

theorem Chained.final_eq {h : Host σ} {calls : List (HostCall × World σ)} {w final : World σ}
    (hc : Chained h w calls final) : final = runCalls h w (calls.map (·.1)) := by
  induction calls generalizing w with
  | nil => exact hc
  | cons call calls ih =>
    obtain ⟨rfl, hrest⟩ := hc
    exact ih hrest

/-- A target that is not called leaves the world alone; one that is called leaves it as the host
does. -/
theorem attempt_world (h : Host σ) (c : Call) (target : InstanceId) (w : World σ) :
    (attempt h c target w).2 = (hostCall? c target w).elim w fun k => (h.run k w).2 := by
  cases hm : w.machine? target with
  | none => simp [attempt, hostCall?, hm]
  | some m =>
    cases he : m.entry? c.kind c.function with
    | none => simp [attempt, hostCall?, hm, he]
    | some entry =>
      simp only [attempt, hostCall?, hm, he, Option.bind_eq_bind, Option.bind_some, Option.pure_def,
        Option.elim_some]
      split <;> next hran => rw [hran]

theorem chained_hostCall {h : Host σ} {c : Call} {target : InstanceId} {w final : World σ}
    {calls : List (HostCall × World σ)} (rest : Chained h (attempt h c target w).2 calls final) :
    Chained h w ((hostCall? c target w).toList.map (·, w) ++ calls) final := by
  rw [attempt_world] at rest
  cases hk : hostCall? c target w with
  | none => simpa [hk] using rest
  | some k =>
    rw [hk] at rest
    exact ⟨rfl, rest⟩

/-- The instances that are called are among those visited, in their order. -/
theorem targets_hostCalls (h : Host σ) (c : Call) (goesOn : Attempt → Bool)
    (ids : List InstanceId) (w : World σ) :
    ((hostCalls h c goesOn ids w).map (·.1.target)).Sublist ids := by
  induction ids generalizing w with
  | nil => simp [hostCalls]
  | cons id ids ih =>
    have hhead : ((hostCall? c id w).toList.map (·.target)).Sublist [id] := by
      cases hk : hostCall? c id w with
      | none => simp
      | some k =>
        simp only [hostCall?, Option.bind_eq_bind, Option.bind_eq_some_iff, Option.pure_def,
          Option.some.injEq] at hk
        obtain ⟨_, _, _, _, rfl⟩ := hk
        simp
    have htail : ((if goesOn (attempt h c id w).1 then
        hostCalls h c goesOn ids (attempt h c id w).2 else []).map (·.1.target)).Sublist ids := by
      split
      · exact ih _
      · simp
    simpa [hostCalls, Function.comp_def] using hhead.append htail

/-! ### Walks -/

/-- What a plain call does from the time on when its targets are settled. `last` is the value of
the target that returned last; what the walk comes to are the calls handed to the host, the result
and the world. -/
inductive Walk (h : Host σ) (c : Call) :
    List InstanceId → Option Cell → World σ →
      List HostCall → Except Fault Cell → World σ → Prop where
  | finished {last : Option Cell} {w : World σ} : Walk h c [] last w [] (.ok (last.getD 0)) w
  | passed {id : InstanceId} {ids : List InstanceId} {last : Option Cell} {w final : World σ}
      {calls : List HostCall} {r : Except Fault Cell}
      (meets : Meets h c id w .passedOver none w) (rest : Walk h c ids last w calls r final) :
      Walk h c (id :: ids) last w calls r final
  | returned {id : InstanceId} {ids : List InstanceId} {last : Option Cell}
      {w after final : World σ} {value : Cell} {k : HostCall} {calls : List HostCall}
      {r : Except Fault Cell}
      (meets : Meets h c id w (.returned value) (some k) after)
      (rest : Walk h c ids (some value) after calls r final) :
      Walk h c (id :: ids) last w (k :: calls) r final
  | lacking {id : InstanceId} {ids : List InstanceId} {last : Option Cell} {w : World σ}
      (meets : Meets h c id w .lacking none w) :
      Walk h c (id :: ids) last w [] (.error (.unknownFunction c.kind c.function)) w
  | failed {id : InstanceId} {ids : List InstanceId} {last : Option Cell} {w after : World σ}
      {status : Status} {k : HostCall} (meets : Meets h c id w (.failed status) (some k) after) :
      Walk h c (id :: ids) last w [k] (.error (.callFailed c.function status)) after

/-- The part of a plain call that comes after the targets are settled. -/
def callOver (h : Host σ) (c : Call) (ids : List InstanceId) (last : Option Cell) (w : World σ) :
    Except Fault Cell × World σ :=
  match visit (callOne h false c) ids ({ result := last }, w) with
  | (.ok (), out, w) => (.ok (out.result.getD 0), w)
  | (.error fault, _, w) => (.error fault, w)

theorem call_of_targets {h : Host σ} {c : Call} {w : World σ} {ids : List InstanceId}
    (hids : w.targets c.source c.recipients = .ok ids) : call h c w = callOver h c ids none w := by
  simp only [call, dispatch, hids, callOver]
  rcases visit (callOne h false c) ids ({}, w) with ⟨_ | _, out, after⟩ <;> rfl

theorem call_of_error {h : Host σ} {c : Call} {w : World σ} {fault : Fault}
    (hids : w.targets c.source c.recipients = .error fault) : call h c w = (.error fault, w) := by
  simp [call, dispatch, hids, Except.map]

/-- The outcome of a plain call after a target, given that of visiting the others. -/
def outcomeAfter (c : Call) (last : Option Cell) (after : World σ)
    (rest : Option Cell → Except Fault Cell × World σ) : Attempt → Except Fault Cell × World σ
  | .passedOver => rest last
  | .returned value => rest (some value)
  | .lacking => (.error (.unknownFunction c.kind c.function), after)
  | .failed status => (.error (.callFailed c.function status), after)

/-- How the outcome and the calls begin with the first target. -/
theorem callOver_cons {h : Host σ} {c : Call} {id : InstanceId} {w after : World σ} {a : Attempt}
    {k : Option HostCall} (meets : Meets h c id w a k after) (ids : List InstanceId)
    (last : Option Cell) :
    callOver h c (id :: ids) last w =
        outcomeAfter c last after (callOver h c ids · after) a ∧
      (hostCalls h c Attempt.goesOn (id :: ids) w).map (·.1) =
        k.toList ++
          if a.goesOn then (hostCalls h c Attempt.goesOn ids after).map (·.1) else [] := by
  obtain ⟨hattempt, rfl⟩ := meets_iff.mp meets
  constructor
  · cases a <;> simp [callOver, visit, callOne, outcomeAfter, hattempt]
  · cases a <;> simp [hostCalls, hattempt, Attempt.goesOn, Function.comp_def]

/-- The walk over given targets is the one that the call makes. -/
theorem walk_iff {h : Host σ} {c : Call} {ids : List InstanceId} {last : Option Cell}
    {w final : World σ} {calls : List HostCall} {r : Except Fault Cell} :
    Walk h c ids last w calls r final ↔
      (hostCalls h c Attempt.goesOn ids w).map (·.1) = calls ∧
        callOver h c ids last w = (r, final) := by
  constructor
  · intro hwalk
    induction hwalk with
    | finished => simp [hostCalls, callOver, visit]
    | passed meets _ ih =>
      obtain ⟨houtcome, hcalls⟩ := callOver_cons meets _ _
      rw [houtcome, hcalls]
      exact ih
    | returned meets _ ih =>
      obtain ⟨houtcome, hcalls⟩ := callOver_cons meets _ _
      rw [houtcome, hcalls]
      exact ⟨congrArg _ ih.1, ih.2⟩
    | lacking meets => exact (callOver_cons meets _ _).symm
    | failed meets => exact (callOver_cons meets _ _).symm
  · rintro ⟨rfl, houtcome⟩
    induction ids generalizing last w with
    | nil =>
      simp only [callOver, visit, Prod.mk.injEq] at houtcome
      obtain ⟨rfl, rfl⟩ := houtcome
      exact .finished
    | cons id ids ih =>
      have meets : Meets h c id w (attempt h c id w).1 (hostCall? c id w) (attempt h c id w).2 :=
        meets_iff.mpr ⟨rfl, rfl⟩
      obtain ⟨hover, hcalls⟩ := callOver_cons meets ids last
      rw [houtcome] at hover
      rw [hcalls]
      generalize (attempt h c id w).1 = a, hostCall? c id w = k, (attempt h c id w).2 = after
        at meets hover
      cases meets with
      | gone dead => exact .passed (.gone dead) (ih hover.symm)
      | lacking live lacks =>
        obtain ⟨rfl, rfl⟩ := Prod.mk.inj hover
        exact .lacking (.lacking live lacks)
      | failed live has ran =>
        obtain ⟨rfl, rfl⟩ := Prod.mk.inj hover
        exact .failed (.failed live has ran)
      | returned live has ran => exact .returned (.returned live has ran) (ih hover.symm)

/-! ### Dispatch -/

/-- The targets of a call that begins in the world `w`. -/
inductive Targets (w : World σ) (source : InstanceId) : Recipients → List InstanceId → Prop where
  | everyone : Targets w source .everyone w.liveIds
  | everyoneElse : Targets w source .everyoneElse (w.liveIds.filter (· != source))
  | one {reference : Cell} {id : InstanceId} (named : InstanceId.ofCell? reference = some id)
      (live : id ∈ w.liveIds) : Targets w source (.one reference) [id]

/-- What a plain call comes to: the calls handed to the host, the result and the world. -/
inductive Dispatched (h : Host σ) (c : Call) (w : World σ) :
    List HostCall → Except Fault Cell → World σ → Prop where
  | refused {reference : Cell} (single : c.recipients = .one reference)
      (dead : ∀ id ∈ w.liveIds, InstanceId.ofCell? reference ≠ some id) :
      Dispatched h c w [] (.error (.dangling .machine reference)) w
  | walked {ids : List InstanceId} {calls : List HostCall} {r : Except Fault Cell} {final : World σ}
      (targets : Targets w c.source c.recipients ids) (walk : Walk h c ids none w calls r final) :
      Dispatched h c w calls r final

theorem targets_eq_ok_iff {w : World σ} {source : InstanceId} {recipients : Recipients}
    {ids : List InstanceId} :
    w.targets source recipients = .ok ids ↔ Targets w source recipients ids := by
  constructor
  · intro hids
    cases recipients with
    | everyone =>
      obtain rfl : w.liveIds = ids := by simpa [targets] using hids
      exact .everyone
    | everyoneElse =>
      obtain rfl : w.liveIds.filter (· != source) = ids := by simpa [targets] using hids
      exact .everyoneElse
    | one reference =>
      simp only [targets] at hids
      split at hids
      · next id hid =>
        obtain ⟨hnamed, hlive⟩ := Option.filter_eq_some_iff.mp hid
        obtain rfl : [id] = ids := by simpa using hids
        exact .one hnamed (isLive_iff.mp hlive)
      · simp at hids
  · intro htargets
    cases htargets with
    | everyone => rfl
    | everyoneElse => rfl
    | one named live =>
      simp [targets, named, isLive_iff.mpr live, Option.filter]

theorem targets_eq_error_iff {w : World σ} {source : InstanceId} {recipients : Recipients}
    {fault : Fault} :
    w.targets source recipients = .error fault ↔
      ∃ reference, recipients = .one reference ∧ fault = .dangling .machine reference ∧
        ∀ id ∈ w.liveIds, InstanceId.ofCell? reference ≠ some id := by
  cases recipients with
  | everyone => simp [targets]
  | everyoneElse => simp [targets]
  | one reference =>
    have hdead : (InstanceId.ofCell? reference).filter w.isLive = none ↔
        ∀ id ∈ w.liveIds, InstanceId.ofCell? reference ≠ some id := by
      simp only [Option.filter_eq_none_iff, isLive_iff]
      constructor
      · exact fun hnone id hid hnamed => hnone id hnamed hid
      · exact fun hnone id hnamed hid => hnone id hid hnamed
    simp only [targets, Recipients.one.injEq]
    split
    · next id hid => simp [← hdead, hid]
    · next hid =>
      constructor
      · intro hfault
        exact ⟨reference, rfl, (Except.error.inj hfault).symm, hdead.mp hid⟩
      · rintro ⟨_, rfl, rfl, _⟩
        rfl

/-- The dispatch that is told of is the one that a call makes. -/
theorem dispatched_iff {h : Host σ} {c : Call} {w final : World σ} {calls : List HostCall}
    {r : Except Fault Cell} :
    Dispatched h c w calls r final ↔
      (callHostCalls h c w).map (·.1) = calls ∧ call h c w = (r, final) := by
  constructor
  · intro hdispatched
    cases hdispatched with
    | refused single dead =>
      have hids : w.targets c.source c.recipients = .error _ :=
        targets_eq_error_iff.mpr ⟨_, single, rfl, dead⟩
      simp [callHostCalls, call_of_error hids, hids]
    | walked targets walk =>
      have hids := targets_eq_ok_iff.mpr targets
      rw [callHostCalls, hids, call_of_targets hids]
      exact walk_iff.mp walk
  · rintro ⟨rfl, hcall⟩
    cases hids : w.targets c.source c.recipients with
    | error fault =>
      obtain ⟨reference, single, rfl, dead⟩ := targets_eq_error_iff.mp hids
      simp only [call_of_error hids, Prod.mk.injEq] at hcall
      obtain ⟨rfl, rfl⟩ := hcall
      simpa [callHostCalls, hids] using Dispatched.refused single dead
    | ok ids =>
      rw [call_of_targets hids] at hcall
      rw [callHostCalls, hids]
      exact .walked (targets_eq_ok_iff.mp hids) (walk_iff.mpr ⟨rfl, hcall⟩)

/-- The targets of a call are live when it begins, and in load order. -/
theorem Targets.sublist {w : World σ} {source : InstanceId} {recipients : Recipients}
    {ids : List InstanceId} (targets : Targets w source recipients ids) :
    ids.Sublist w.liveIds := by
  cases targets with
  | everyone => exact List.Sublist.refl _
  | everyoneElse => exact List.filter_sublist
  | one named live => exact List.singleton_sublist.mpr live

theorem chained_visit (h : Host σ) (c : Call) (ids : List InstanceId) (last : Option Cell)
    (w : World σ) :
    Chained h w (hostCalls h c Attempt.goesOn ids w) (callOver h c ids last w).2 := by
  induction ids generalizing last w with
  | nil => exact rfl
  | cons id ids ih =>
    have meets : Meets h c id w (attempt h c id w).1 (hostCall? c id w) (attempt h c id w).2 :=
      meets_iff.mpr ⟨rfl, rfl⟩
    rw [(callOver_cons meets ids last).1, hostCalls_cons]
    refine chained_hostCall ?_
    cases (attempt h c id w).1 with
    | passedOver => exact ih last _
    | returned value => exact ih (some value) _
    | lacking => exact rfl
    | failed status => exact rfl

/-- The world after a plain call is the one that the host leaves behind. -/
theorem chained_call (h : Host σ) (c : Call) (w : World σ) :
    Chained h w (callHostCalls h c w) (call h c w).2 := by
  cases hids : w.targets c.source c.recipients with
  | error fault => simp [callHostCalls, call_of_error hids, hids, Chained]
  | ok ids =>
    rw [callHostCalls, hids, call_of_targets hids]
    exact chained_visit h c ids none w

def tryCallOne (h : Host σ) (c : Call) (s : CallSummary × World σ) (target : InstanceId) :
    CallSummary × World σ :=
  let (attempt, w) := attempt h c target s.2
  (s.1.after attempt, w)

/-- No target ends a call that recovers. -/
theorem callOne_recovering (h : Host σ) (c : Call) (id : InstanceId) (s : CallSummary × World σ) :
    callOne h true c id s = (.ok (), tryCallOne h c s id) := by
  obtain ⟨out, w⟩ := s
  simp only [callOne, tryCallOne, if_true]
  rcases attempt h c id w with ⟨_ | _ | _ | _, after⟩ <;> rfl

/-- So a call that recovers visits every target. -/
theorem visit_recovering (h : Host σ) (c : Call) (ids : List InstanceId)
    (s : CallSummary × World σ) :
    visit (callOne h true c) ids s = (.ok (), ids.foldl (tryCallOne h c) s) := by
  induction ids generalizing s with
  | nil => rfl
  | cons id ids ih =>
    rw [visit, callOne_recovering]
    exact ih _

theorem tryCall_of_targets {h : Host σ} {c : Call} {w : World σ} {ids : List InstanceId}
    (hids : w.targets c.source c.recipients = .ok ids) :
    tryCall h c w = ids.foldl (tryCallOne h c) ({}, w) := by
  simp only [tryCall, dispatch, hids, visit_recovering]
  rfl

theorem tryCall_of_error {h : Host σ} {c : Call} {w : World σ} {fault : Fault}
    (hids : w.targets c.source c.recipients = .error fault) :
    tryCall h c w = ({ status := .notFound }, w) := by
  simp [tryCall, dispatch, hids, Except.toOption]

/-- The calls handed to the host by a guarded call, which goes to every target. -/
def tryCallHostCalls (h : Host σ) (c : Call) (w : World σ) : List (HostCall × World σ) :=
  match w.targets c.source c.recipients with
  | .ok ids => hostCalls h c (fun _ => true) ids w
  | .error _ => []

theorem chained_foldl (h : Host σ) (c : Call) (ids : List InstanceId) (out : CallSummary)
    (w : World σ) :
    Chained h w (hostCalls h c (fun _ => true) ids w) (ids.foldl (tryCallOne h c) (out, w)).2 := by
  induction ids generalizing out w with
  | nil => exact rfl
  | cons id ids ih =>
    rw [hostCalls_cons]
    exact chained_hostCall (ih _ _)

/-- The world after a guarded call is the one that the host leaves behind. -/
theorem chained_tryCall (h : Host σ) (c : Call) (w : World σ) :
    Chained h w (tryCallHostCalls h c w) (tryCall h c w).2 := by
  cases hids : w.targets c.source c.recipients with
  | error fault => simp [tryCallHostCalls, tryCall_of_error hids, hids, Chained]
  | ok ids =>
    rw [tryCallHostCalls, hids, tryCall_of_targets hids]
    exact chained_foldl h c ids {} w

/-- A plain call walks over its targets as told, whatever the host does: it comes to one list of
calls, one result and one world, and these are its own. The instances called were all live
when it began, so none that was registered on the way is among them, and are called in load
order; and the world is changed by these calls and by nothing else. -/
theorem call_walks_over_targets (h : Host σ) (c : Call) (w : World σ) :
    ∃ calls : List HostCall,
      (∀ calls' r final,
        Dispatched h c w calls' r final ↔ calls' = calls ∧ call h c w = (r, final)) ∧
      (calls.map (·.target)).Sublist w.liveIds ∧
      (call h c w).2 = runCalls h w calls := by
  refine ⟨(callHostCalls h c w).map (·.1), fun calls' r final => ?_, ?_, ?_⟩
  · rw [dispatched_iff, eq_comm]
  · cases hids : w.targets c.source c.recipients with
    | error fault => simp [callHostCalls, hids]
    | ok ids =>
      have hcalled := targets_hostCalls h c Attempt.goesOn ids w
      have htargets := (targets_eq_ok_iff.mp hids).sublist
      simpa [callHostCalls, hids, Function.comp_def] using hcalled.trans htargets
  · exact (chained_call h c w).final_eq

end World

end ScriptNatives
