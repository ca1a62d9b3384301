import ScriptNatives.Proofs.References.Validity
import ScriptNatives.Proofs.Runs.Loading

/-!
# Who is told of an unloading

The hooks are told in the order of their subscription, each once, when the instance is off the list.
The two that reclaim what the instance leaves behind subscribed when the pools were made. Observers
that were there before that see the pools as they were; those that came later see them without
what was the instance's, and with all the rest.
-/
namespace ScriptNatives

variable {σ : Type}

namespace World

variable {w u : World σ} {id : InstanceId} {early late : List String}

/-- What an observer notes down that is told before the pools are. -/
def noticeBefore (w : World σ) (id : InstanceId) (tag : String) : Notice :=
  ⟨tag, id, w.liveIds.erase id, w.vars, w.handles⟩

/-- What an observer notes down that is told after the pools are. -/
def noticeAfter (w : World σ) (id : InstanceId) (tag : String) : Notice :=
  ⟨tag, id, w.liveIds.erase id, (w.unload id).2.vars, (w.unload id).2.handles⟩

/-- What all observers note down, first those that subscribed before the pools were made. -/
def noticesOf (w : World σ) (id : InstanceId) (early late : List String) : List Notice :=
  early.map (w.noticeBefore id) ++ late.map (w.noticeAfter id)

/-- The observers that subscribed before the pools and after them. -/
def HooksAre (w : World σ) (early late : List String) : Prop :=
  w.hooks = early.map .observe ++ .reclaimVars :: .reclaimHandles :: late.map .observe

/-! ### One unloading -/

theorem foldl_observe (w : World σ) (id : InstanceId) (tags : List String) :
    (tags.map Hook.observe).foldl (runHook id) w =
      { w with notices := w.notices ++ tags.map (⟨·, id, w.liveIds, w.vars, w.handles⟩) } := by
  induction tags generalizing w with
  | nil => simp
  | cons tag tags ih =>
    rw [List.map_cons, List.foldl_cons, ih]
    simp [runHook, liveIds]

/-- The observers that are told last leave the pools as they find them, and so note down what is
left in the end. -/
theorem notices_unload (hooks : w.HooksAre early late) (live : w.isLive id = true) :
    (w.unload id).2.notices = w.notices ++ w.noticesOf id early late := by
  let first : World σ := { w.without id with
    notices := w.notices ++ early.map (⟨·, id, (w.without id).liveIds, w.vars, w.handles⟩) }
  let told := runHook id (runHook id first .reclaimVars) .reclaimHandles
  have hend : (w.unload id).2 = { told with
      notices := told.notices ++ late.map (⟨·, id, told.liveIds, told.vars, told.handles⟩) } := by
    rw [unload_of_live live, hooks, List.foldl_append, foldl_observe, List.foldl_cons,
      List.foldl_cons, foldl_observe]
    rfl
  have hlive : told.liveIds = w.liveIds.erase id := by
    rw [← liveIds_unload, hend]
    rfl
  have hbefore : w.noticeBefore id = (⟨·, id, (w.without id).liveIds, w.vars, w.handles⟩) := by
    funext tag
    rw [noticeBefore, ← hlive]
    rfl
  have hafter : w.noticeAfter id = (⟨·, id, told.liveIds, told.vars, told.handles⟩) := by
    funext tag
    rw [noticeAfter, ← hlive, hend]
  rw [noticesOf, hbefore, hafter, hend, ← List.append_assoc]
  rfl

/-- What the observers are told when a live instance is unloaded. -/
structure Notified (w : World σ) (id : InstanceId) (early late : List String) : Prop where
  returns : (w.unload id).1 = true
  notices_eq : (w.unload id).2.notices = w.notices ++ w.noticesOf id early late
  /-- Every observer is told once, in the order of subscription. -/
  tags_eq : (w.noticesOf id early late).map (·.tag) = early ++ late
  /-- The instance is not live any more when it is told. -/
  gone : ∀ n ∈ w.noticesOf id early late,
    n.id = id ∧ n.stillLive = false ∧ n.live = (w.unload id).2.liveIds
  /-- Those that subscribed after the pools were made see them without what was the instance's. -/
  vars_seen : ∀ n ∈ late.map (w.noticeAfter id), ∀ c v,
    n.vars.get? c = some v ↔ w.vars.get? c = some v ∧ v.owner ≠ id
  handles_seen : ∀ n ∈ late.map (w.noticeAfter id), ∀ c k,
    n.handles.get? c = some k ↔ w.handles.get? c = some k ∧ k.context ≠ id

/-- What observers are told in a world whose pools and instances are in order. -/
theorem HooksAre.notified (hooks : w.HooksAre early late) (hvars : w.vars.WellFormed)
    (hhandles : w.handles.WellFormed) (ordered : w.Ordered) (live : w.isLive id = true) :
    w.Notified id early late where
  returns := by rw [unload_fst, live]
  notices_eq := notices_unload hooks live
  tags_eq := by simp [noticesOf, noticeBefore, noticeAfter, Function.comp_def]
  gone n hn := by
    have hlost : (w.liveIds.erase id).contains id = false := by
      simpa using ordered.nodup.not_mem_erase
    obtain ⟨hid, hlive⟩ : n.id = id ∧ n.live = w.liveIds.erase id := by
      rcases List.mem_append.mp hn with hn | hn <;> obtain ⟨tag, _, rfl⟩ := List.mem_map.mp hn <;>
        exact ⟨rfl, rfl⟩
    exact ⟨hid, by rw [Notice.stillLive, hid, hlive, hlost], by rw [hlive, liveIds_unload]⟩
  vars_seen n hn c v := by
    have hreclaims : .reclaimVars ∈ w.hooks := by simp [show w.hooks = _ from hooks]
    obtain ⟨tag, _, rfl⟩ := List.mem_map.mp hn
    rw [noticeAfter, (vars_reclaimedBy.unload hvars id).2]
    simp [live, hreclaims]
  handles_seen n hn c k := by
    have hreclaims : .reclaimHandles ∈ w.hooks := by simp [show w.hooks = _ from hooks]
    obtain ⟨tag, _, rfl⟩ := List.mem_map.mp hn
    rw [noticeAfter, (handles_reclaimedBy.unload hhandles id).2]
    simp [live, hreclaims]

/-! ### Natives tell nobody -/

/-- Who is told of unloadings, and what they noted down. -/
def bulletin (w : World σ) : List Hook × List Notice := (w.hooks, w.notices)

theorem aloof_bulletin : Aloof (bulletin : World σ → List Hook × List Notice) where
  setMachine _ _ _ := rfl
  modifyContext _ _ _ := rfl
  vars _ _ := rfl
  handles _ _ := rfl
  source _ _ := rfl
  host _ _ := rfl

end World

/-! ### Runs -/

def Act.subscribed? : Act σ → Option String
  | observe tag => some tag
  | _ => none

def Moment.subscribed? : Moment σ → Option String
  | did a _ => a.subscribed?
  | invoked .. => none

/-- The tags of the observers that were subscribed, oldest first. -/
def subscribedTags (log : List (Moment σ)) : List String :=
  (log.filterMap Moment.subscribed?).reverse

/-- What observers noted down in a run, oldest first, if `early` had subscribed before the pools
were made. -/
def noticed (early : List String) : List (Moment σ) → List Notice
  | .did (.unload id) w :: log =>
    noticed early log ++
      if w.isLive id then w.noticesOf id early (subscribedTags log) else []
  | _ :: log => noticed early log
  | [] => []

theorem subscribedTags_did (a : Act σ) (w : World σ) (log : List (Moment σ)) :
    subscribedTags (.did a w :: log) = subscribedTags log ++ a.subscribed?.toList := by
  cases h : a.subscribed? <;> simp [subscribedTags, Moment.subscribed?, h]

theorem noticed_did {early : List String} {a : Act σ} (hunloads : ∀ id, a ≠ .unload id)
    (w : World σ) (log : List (Moment σ)) :
    noticed early (.did a w :: log) = noticed early log := by
  cases a with
  | unload id => exact absurd rfl (hunloads id)
  | _ => rfl

namespace World

variable {w u : World σ} {early late : List String}

/-- A world in which the pools were just made, when observers with the tags `early` had subscribed
already, and instances may have been registered. -/
structure SetUp (w : World σ) (early : List String) : Prop where
  vars_eq : w.vars = .ofCapacity w.limits.maxVars
  handles_eq : w.handles = .ofCapacity w.limits.maxHandles
  hooks : w.HooksAre early []
  ordered : w.Ordered

theorem SetUp.tracks (hw : w.SetUp early) : Tracks [] w where
  vars := hw.vars_eq ▸ follows_ofCapacity _ _ _
  handles := hw.handles_eq ▸ follows_ofCapacity _ _ _
  reclaimsVars := by simp [show w.hooks = _ from hw.hooks]
  reclaimsHandles := by simp [show w.hooks = _ from hw.hooks]

theorem HooksAre.subscribe (hooks : w.HooksAre early late) (tag : String) :
    (w.onUnload (.observe tag)).HooksAre early (late ++ [tag]) := by
  rw [HooksAre] at hooks ⊢
  simp [onUnload, hooks]

end World

/-- An act subscribes an observer, unloads an instance or leaves the bulletin alone. -/
theorem Act.bulletin_cases (w : World σ) (a : Act σ) :
    (∃ tag, a = .observe tag) ∨ (∃ id, a = .unload id) ∨
      a.subscribed? = none ∧ (∀ id, a ≠ .unload id) ∧ (a.apply w).bulletin = w.bulletin := by
  cases a
  case observe tag => exact .inl ⟨tag, rfl⟩
  case unload id => exact .inr (.inl ⟨id, rfl⟩)
  all_goals refine .inr (.inr ⟨rfl, by simp, ?_⟩)
  case register m => rfl
  case share number =>
    simp only [apply]
    split <;> rfl
  all_goals exact World.aloof_bulletin.apply rfl (by simp) w

namespace World.HooksAre

variable {early : List String} {log : List (Moment σ)} {w u : World σ}

/-- An act adds the observer that it subscribes. -/
theorem did (hooks : w.HooksAre early (subscribedTags log)) (a : Act σ) :
    (a.apply w).HooksAre early (subscribedTags (.did a w :: log)) := by
  rw [subscribedTags_did]
  rcases a.bulletin_cases w with ⟨tag, rfl⟩ | ⟨id, rfl⟩ | ⟨hsubscribes, _, hbulletin⟩
  · exact hooks.subscribe tag
  · rw [show (Act.unload id : Act σ).subscribed?.toList = [] from rfl, List.append_nil]
    exact (w.unload_hooks id).trans hooks
  · rw [hsubscribes, Option.toList_none, List.append_nil]
    exact (congrArg Prod.fst hbulletin).trans hooks

/-- A native comes down to no act that subscribes an observer. -/
theorem invoked (hooks : w.HooksAre early (subscribedTags log)) (h : Host σ) (id : InstanceId)
    (name : String) (p : Params) :
    ((w.nativeAct? id name p).elim w (Act.apply w)).HooksAre early
      (subscribedTags (.invoked h id name p w :: log)) := by
  cases hact : w.nativeAct? id name p with
  | none => exact hooks
  | some a =>
    rcases a.bulletin_cases w with ⟨tag, rfl⟩ | ⟨gone, rfl⟩ | ⟨_, _, hbulletin⟩
    · obtain ⟨native, _, hnative⟩ := exists_native_of_nativeAct? hact
      cases native with
      | plain native => cases LocalNative.comesDownTo hnative
      | call kind => cases hnative
      | tryCall kind => cases hnative
    · cases not_loads_of_nativeAct? hact
    · exact (congrArg Prod.fst hbulletin).trans hooks

end World.HooksAre

/-- The observers are those that were there and those that subscribed, and they have noted down what
they were told, and nothing else. -/
structure Informed (early : List String) (before : List Notice) (log : List (Moment σ))
    (w : World σ) : Prop where
  hooks : w.HooksAre early (subscribedTags log)
  notices_eq : w.notices = before ++ noticed early log

namespace Informed

variable {early : List String} {before : List Notice} {log : List (Moment σ)} {w u : World σ}

theorem congr (hw : Informed early before log w) (h : u.bulletin = w.bulletin) :
    Informed early before log u := by
  obtain ⟨hhooks, hnotices⟩ := Prod.mk.inj h
  exact ⟨hhooks.trans hw.hooks, hnotices.trans hw.notices_eq⟩

/-- Notices are added by nothing but the unloading of a live instance. -/
theorem did (hw : Informed early before log w) (a : Act σ) :
    Informed early before (.did a w :: log) (a.apply w) where
  hooks := hw.hooks.did a
  notices_eq := by
    rcases a.bulletin_cases w with ⟨tag, rfl⟩ | ⟨id, rfl⟩ | ⟨_, hunloads, hbulletin⟩
    · exact hw.notices_eq
    · cases hlive : w.isLive id with
      | false => simpa [noticed, hlive, Act.apply, World.unload_of_dead hlive] using hw.notices_eq
      | true =>
        simp [noticed, hlive, Act.apply, World.notices_unload hw.hooks hlive, hw.notices_eq]
    · rw [noticed_did hunloads]
      exact (congrArg Prod.snd hbulletin).trans hw.notices_eq

end Informed

/-- What is known of the observers at the beginning of a run is known at its end. -/
theorem Evolves.informed {early : List String} {w u : World σ} {log : List (Moment σ)}
    (run : Evolves w log u) (hooks : w.HooksAre early []) :
    Informed early w.notices log u := by
  have hkept := run.keeps_through (Informed early w.notices) (fun _ _ a hv => hv.did a)
    (fun _ _ _ _ _ _ hv => ⟨hv.hooks, hv.notices_eq⟩) ?ends [] ⟨hooks, by simp [noticed]⟩
  · simpa using hkept
  case ends =>
    intro v h id name p
    obtain ⟨final, hchained, hbulletin⟩ := World.aloof_bulletin.runNative h id name p v
    exact ⟨final, hchained, fun _ hfinal => hfinal.congr hbulletin⟩

/-- Whenever an instance is unloaded in a run, all observers are told that have subscribed by then,
each once and in the order of subscription, when it is no longer live. What those see that came
after the pools were made is without its variables and handles, and with all others. An instance
that is not live is not unloaded, and nobody is told. What was noted down in a run are these
notices and nothing else, also where the host unloads instances in the middle of a native. -/
theorem Evolves.notifies {w₀ w : World σ} {early : List String} {log : List (Moment σ)}
    (start : w₀.SetUp early) (run : Evolves w₀ log w) :
    w.notices = w₀.notices ++ noticed early log ∧
      ∀ later id u earlier, log = later ++ .did (.unload id) u :: earlier →
        (u.isLive id = false → u.unload id = (false, u)) ∧
          (u.isLive id = true → u.Notified id early (subscribedTags earlier)) := by
  refine ⟨(run.informed start.hooks).notices_eq, fun later id u earlier hlog => ?_⟩
  have hfound := run.keeps_at
    (fun log w => w.HooksAre early (subscribedTags log) ∧ w.Ordered ∧ Tracks (history log) w)
    ?congr ?act ?native ⟨start.hooks, start.ordered, start.tracks⟩ hlog
  · obtain ⟨hooks, ordered, tracks⟩ := hfound
    exact ⟨World.unload_of_dead,
      hooks.notified tracks.vars.wellFormed tracks.handles.wellFormed ordered⟩
  case congr =>
    rintro log w u houtline ⟨hooks, ordered, tracks⟩
    exact ⟨(congrArg World.Outline.hooks houtline).trans hooks, ordered.of_outline houtline,
      tracks.of_outline houtline⟩
  case act =>
    rintro log w a ⟨hooks, ordered, tracks⟩
    exact ⟨hooks.did a, a.ordered_apply ordered, tracks_did tracks a⟩
  case native =>
    rintro log w h id name p ⟨hooks, ordered, tracks⟩
    refine ⟨hooks.invoked h id name p, ?_, tracks_invoked tracks h id name p⟩
    cases w.nativeAct? id name p with
    | none => exact ordered
    | some a => exact a.ordered_apply ordered

/-- A world in which an observer subscribed before the pools were made. -/
def observedEarly : World Unit :=
  { World.create {} () with hooks := [.observe "early", .reclaimVars, .reclaimHandles] }

/-- Two instances and a second observer. The name of a function is in memory. -/
def observedTwice : World Unit :=
  let acts : List (Act Unit) :=
    [.register (Scenario.MachineSpec.build { publics := ["f"] }), .share 0, .observe "late",
      .onMachine 0 (.writeText 0 "f" none)]
  acts.foldl Act.apply observedEarly

/-- A host that makes a variable for the source and one for the target, and unloads the source. -/
def unloadingHost : Host Unit where
  run k w := (.ok 0, (Act.unload k.source).apply
    ((Act.createVar k.target 4 1).apply ((Act.createVar k.source 0 1).apply w)))
  makeString _ host := (0, host)

/-- One observer was there before the pools and sees both variables when the caller is unloaded, and
the other came later and does not see the caller's any more. -/
theorem caller_noticed_by_both :
    let one : InstanceId := ⟨1, by decide⟩
    let w := (observedTwice.runNative unloadingHost one "amx_call_public" [2, 0, 4]).2
    let seen (n : Notice) := (n.tag, n.stillLive, (n.vars.get? 1).isSome, (n.vars.get? 2).isSome)
    ∃ log, observedEarly.SetUp ["early"] ∧ Evolves observedEarly log w ∧
      w.notices = noticed ["early"] log ∧
      w.notices.map seen = [("early", false, true, true), ("late", false, false, true)] ∧
      ∃ later u earlier, log = later ++ .did (.unload one) u :: earlier ∧
        u.Notified one ["early"] ["late"] := by
  intro one w seen
  have setUp : observedEarly.SetUp ["early"] :=
    ⟨rfl, rfl, rfl, (World.ordered_create {} ()).congr rfl⟩
  have loaded : Evolves observedEarly _ observedTwice := ((((Evolves.start _).act
    (.register (Scenario.MachineSpec.build { publics := ["f"] }))).act (.share 0)).act
    (.observe "late")).act (.onMachine 0 (.writeText 0 "f" none))
  let k : HostCall := ⟨one, ⟨2, by decide⟩, "f", .exported 0, ⟨"", []⟩⟩
  have called : observedTwice.nativeHostCalls unloadingHost one "amx_call_public" [2, 0, 4] =
    [(k, observedTwice)] := by rfl
  have during : Evolves observedTwice _ (unloadingHost.run k observedTwice).2 :=
    (((Evolves.start _).act (.createVar one 0 1)).act (.createVar k.target 4 1)).act (.unload one)
  have run := loaded.invoke unloadingHost one "amx_call_public" [2, 0, 4]
    [((k, observedTwice), _)] called.symm (by simpa using during)
  obtain ⟨hnotices, hunloads⟩ := run.notifies setUp
  exact ⟨_, setUp, run, hnotices, by decide +kernel, [], _, _, rfl,
    (hunloads [] one _ _ rfl).2 (by decide +kernel)⟩

end ScriptNatives
