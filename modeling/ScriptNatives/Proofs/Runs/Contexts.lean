import ScriptNatives.Proofs.Native.Protocol
import ScriptNatives.Proofs.Runs.Loading

/-!
# Contexts

Beside every live instance there is a context, which is empty when the instance is loaded and gone
when it is unloaded. In between, what is in it was put there on behalf of that instance: by its
forks, which leave their addresses there, and by the embedding program. So a context can be told
from the log of a run, from those entries alone that are about its instance.
-/
namespace ScriptNatives

variable {σ : Type}

/-! ### What a log tells of a context -/

/-- The addresses that a fork of the instance leaves in its context; those that are left out or are
-1 are none. -/
def Moment.forked? (id : InstanceId) : Moment σ → Option ForkReturn
  | invoked _ caller name p w =>
    if caller = id ∧ name = "amx_fork" ∧ w.isLive id = true then
      some ⟨p[1]?.filter (· != -1), p[3]?.filter (· != -1)⟩
    else
      none
  | did _ _ => none

/-- How the embedding program changes the context of the instance, if that one is live. -/
def Moment.modified? (id : InstanceId) : Moment σ → Option (Context → Context)
  | did (.modifyContext other f) w => if other = id ∧ w.isLive id = true then some f else none
  | _ => none

/-- What an entry of a log makes of the context of an instance. -/
def Moment.touch (id : InstanceId) (moment : Moment σ) (c : Context) : Context :=
  let c := { c with fork := (moment.forked? id).or c.fork }
  (moment.modified? id).elim c (· c)

/-- The context of an instance that a log ends with. -/
def contextAfter (id : InstanceId) (log : List (Moment σ)) : Context :=
  log.foldr (Moment.touch id) {}

theorem contextAfter_did {a : Act σ} (ha : ∀ id f, a ≠ .modifyContext id f) (id : InstanceId)
    (w : World σ) (log : List (Moment σ)) :
    contextAfter id (.did a w :: log) = contextAfter id log := by
  cases a with
  | modifyContext other f => exact absurd rfl (ha other f)
  | _ => rfl

theorem contextAfter_modifyContext (id other : InstanceId) (f : Context → Context) (w : World σ)
    (log : List (Moment σ)) : contextAfter id (.did (.modifyContext other f) w :: log) =
      if other = id ∧ w.isLive id = true then f (contextAfter id log) else contextAfter id log := by
  rw [contextAfter, List.foldr_cons, ← contextAfter, Moment.touch]
  simp only [Moment.forked?, Moment.modified?]
  split <;> rfl

theorem contextAfter_invoked (id caller : InstanceId) (h : Host σ) (name : String) (p : Params)
    (w : World σ) (log : List (Moment σ)) : contextAfter id (.invoked h caller name p w :: log) =
      if caller = id ∧ name = "amx_fork" ∧ w.isLive id = true then
        { contextAfter id log with fork := some ⟨p.address? 1, p.address? 3⟩ }
      else
        contextAfter id log := by
  rw [contextAfter, List.foldr_cons, ← contextAfter, Moment.touch]
  simp only [Moment.forked?, Moment.modified?]
  split <;> rfl

namespace World

variable {w u : World σ} {id other : InstanceId} {f : Context → Context}

/-! ### Contexts of live instances -/

theorem context?_eq_none_iff : w.context? id = none ↔ w.isLive id = false := by
  rw [← isSome_context?, Option.isSome_eq_false_iff, Option.isNone_iff_eq_none]

theorem context?_modifyContext (w : World σ) (id : InstanceId) (f : Context → Context)
    (other : InstanceId) : (w.modifyContext id f).context? other =
      if other = id then (w.context? other).map f else w.context? other := by
  have hid : (fun entry : Loaded => (if entry.id = id then
      { entry with context := f entry.context } else entry).id == other) = (·.id == other) := by
    funext entry
    split <;> rfl
  simp only [context?, entry?, modifyContext, List.find?_map, Function.comp_def, hid]
  cases hentry : w.loaded.find? (·.id == other) with
  | none => simp
  | some entry =>
    obtain rfl : entry.id = other := by simpa using List.find?_some hentry
    by_cases heq : entry.id = id <;> simp [heq]

/-- A new instance has an empty context. -/
theorem context?_of_loaded (hlive : w.isLive w.nextId = false) {number : Nat}
    (h : u.loaded = w.loaded ++ [{ id := w.nextId, machine := number }]) (other : InstanceId) :
    u.context? other = if other = w.nextId then some {} else w.context? other := by
  rw [context?, entry?, h, List.find?_append]
  by_cases heq : other = w.nextId
  · have hnone : w.loaded.find? (·.id == w.nextId) = none := entry?_eq_none_iff.mpr hlive
    simp [heq, hnone]
  · have hne : (w.nextId == other) = false := beq_eq_false_iff_ne.mpr (Ne.symm heq)
    simp [context?, entry?, heq, hne]

theorem context?_unload (hnodup : w.liveIds.Nodup) (id other : InstanceId) :
    (w.unload id).2.context? other = if other = id then none else w.context? other := by
  rw [context?, entry?, loaded_unload, eraseP_eq_filter hnodup, List.find?_filter]
  by_cases heq : other = id
  · subst heq
    simp
  · rw [if_neg heq, context?, entry?]
    congr 2
    funext entry
    by_cases hentry : entry.id = other
    · simp [hentry, heq]
    · simp [hentry]

/-! ### Following a log -/

/-- The live instances with their contexts, and how many ids were given out. -/
def roster (w : World σ) : List Loaded × Nat := (w.loaded, w.issued)

theorem steady_roster : Steady (roster : World σ → List Loaded × Nat) where
  setMachine _ _ _ := rfl
  vars _ _ := rfl
  handles _ _ := rfl
  source _ _ := rfl
  host _ _ := rfl

theorem context?_congr (h : u.roster = w.roster) (id : InstanceId) :
    u.context? id = w.context? id := by
  obtain ⟨hloaded, _⟩ := Prod.mk.inj h
  rw [context?, entry?, hloaded, ← entry?, ← context?]

/-- The contexts of live instances are those that the log ends with. An id that has not been given
out yet has no part in the log. -/
structure ContextsFollow (w : World σ) (log : List (Moment σ)) : Prop where
  ordered : w.Ordered
  live : ∀ id, w.isLive id = true → w.context? id = some (contextAfter id log)
  fresh : ∀ id : InstanceId, w.issued < id.raw → contextAfter id log = {}

namespace ContextsFollow

variable {log log' : List (Moment σ)}

theorem create (limits : Limits) (host : σ) : (World.create limits host).ContextsFollow [] where
  ordered := ordered_create limits host
  live _ hlive := by simp [isLive, entry?, World.create] at hlive
  fresh _ _ := rfl

theorem congr (hw : w.ContextsFollow log) (h : u.roster = w.roster) : u.ContextsFollow log := by
  obtain ⟨hloaded, hissued⟩ := Prod.mk.inj h
  refine ⟨hw.ordered.of_liveIds (by rw [liveIds, hloaded, ← liveIds]) hissued, fun id hlive => ?_,
    fun id hid => hw.fresh id (hissued ▸ hid)⟩
  rw [← isSome_context?, context?_congr h, isSome_context?] at hlive
  rw [context?_congr h, hw.live id hlive]

/-- What is logged has nothing to do with any context. -/
theorem skip (hw : w.ContextsFollow log) (h : ∀ id, contextAfter id log' = contextAfter id log) :
    w.ContextsFollow log' where
  ordered := hw.ordered
  live id hlive := by rw [h, hw.live id hlive]
  fresh id hid := by rw [h, hw.fresh id hid]

theorem did (hw : w.ContextsFollow log) {a : Act σ} (ha : ∀ id f, a ≠ .modifyContext id f)
    (before : World σ) : w.ContextsFollow (.did a before :: log) :=
  hw.skip fun id => contextAfter_did ha id before log

/-- The context of one live instance changes. -/
theorem modify (hw : w.ContextsFollow log) (hlive : w.isLive id = true)
    (hid : contextAfter id log' = f (contextAfter id log))
    (hother : ∀ other, other ≠ id → contextAfter other log' = contextAfter other log) :
    (w.modifyContext id f).ContextsFollow log' := by
  have hregistry := registry_modifyContext w id f
  refine ⟨hw.ordered.congr hregistry, fun other hlive' => ?_, fun other hfresh => ?_⟩
  · rw [isLive_eq_of_registry_eq hregistry] at hlive'
    rw [context?_modifyContext, hw.live other hlive']
    by_cases heq : other = id
    · rw [if_pos heq, heq, hid, Option.map_some]
    · rw [if_neg heq, hother other heq]
  · -- an id that has not been given out is not the one of a live instance
    have hne : other ≠ id := by
      rintro rfl
      have hle := hw.ordered.le_issued other (isLive_iff.mp hlive)
      have hissued : (w.modifyContext other f).issued = w.issued := rfl
      omega
    rw [hother other hne]
    exact hw.fresh other hfresh

/-- An instance is loaded. -/
theorem enter (hw : w.ContextsFollow log) (hordered : u.Ordered) {number : Nat}
    (hloaded : u.loaded = w.loaded ++ [{ id := w.nextId, machine := number }])
    (hissued : u.issued = w.issued + 1) : u.ContextsFollow log := by
  have hcontext := context?_of_loaded hw.ordered.nextId_not_live hloaded
  refine ⟨hordered, fun id hlive => ?_, fun id hid => hw.fresh id (by omega)⟩
  by_cases heq : id = w.nextId
  · have hnew : w.issued < id.raw := by rw [heq]; exact Nat.lt_succ_self _
    rw [hcontext, if_pos heq, hw.fresh id hnew]
  · rw [← isSome_context?, hcontext, if_neg heq, isSome_context?] at hlive
    rw [hcontext, if_neg heq, hw.live id hlive]

/-- An instance is unloaded. -/
theorem leave (hw : w.ContextsFollow log) (id : InstanceId) : (w.unload id).2.ContextsFollow log := by
  have hcontext := context?_unload hw.ordered.nodup id
  have hordered : ((Act.unload id).apply w).Ordered := (Act.unload id).ordered_apply hw.ordered
  refine ⟨hordered, fun other hlive => ?_, fun other hid => hw.fresh other ?_⟩
  · by_cases heq : other = id
    · rw [← isSome_context?, hcontext, if_pos heq] at hlive
      cases hlive
    · rw [← isSome_context?, hcontext, if_neg heq, isSome_context?] at hlive
      rw [hcontext, if_neg heq, hw.live other hlive]
  · rwa [issued_unload] at hid

end ContextsFollow

/-- The context of an instance that is not live cannot be changed. -/
theorem roster_modifyContext_of_dead (hdead : w.isLive id = false) (f : Context → Context) :
    (w.modifyContext id f).roster = w.roster := by
  have hentry : ∀ entry ∈ w.loaded, (if entry.id = id then
      { entry with context := f entry.context } else entry) = entry := by
    intro entry hmem
    refine if_neg fun heq => ?_
    rw [← Bool.not_eq_true, isLive_iff] at hdead
    exact hdead (heq ▸ List.mem_map_of_mem hmem)
  simp only [roster, modifyContext, List.map_congr_left hentry, List.map_id']

/-! ### Forks -/

variable {h : Host σ} {p : Params} {context : Context}

/-- Of all natives it is a fork that forks. -/
theorem eq_fork_of_performPlain {native : LocalNative} {r : ForkOptions} {out : Outcome σ Ending}
    (hout : w.performPlain h id p native = .ok out) (hfork : w.fork id r = .ok out) :
    native = .fork := by
  obtain ⟨context, hcontext, rfl⟩ := fork_eq_ok hfork
  have hlive : (w.modifyContext id fun _ => (Ending.fork r context).2).isLive id = true := by
    rw [isLive_eq_of_registry_eq (registry_modifyContext w id _), ← isSome_context?, hcontext,
      Option.isSome_some]
  rw [← isSome_machine?, Option.isSome_iff_exists] at hlive
  obtain ⟨m, hm⟩ := hlive
  -- the caller goes to sleep with a request of the kind that no other native makes
  have hends := performPlain_ends native _ hout (Ending.fork r context).1 m rfl hm
  cases hends with
  | sleeps asks =>
    have hkind : (SuspendCode.fork r.level r.copyData).kind = .fork := rfl
    generalize (SuspendCode.fork r.level r.copyData).kind = kind,
      ((SuspendCode.fork r.level r.copyData).payload : Int) = payload at asks hkind
    cases asks with
    | fork => rfl
    | alloc given => split at hkind <;> cases hkind
    | _ => cases hkind

/-- A fork leaves its addresses in the context of a live caller. -/
theorem roster_fork (hcontext : w.context? id = some context) :
    (w.runNative h id "amx_fork" p).2.roster =
      (w.modifyContext id fun _ =>
        { context with fork := some ⟨p.address? 1, p.address? 3⟩ }).roster := by
  have hrun := w.runNative_plain h id p .fork (Nat.zero_le _)
  have hperform : w.performPlain h id p .fork = w.fork id (.ofParams p) := rfl
  simp only [hperform, fork, hcontext] at hrun
  rw [show w.runNative h id "amx_fork" p = _ from hrun, steady_roster.settle]
  rfl

theorem roster_fork_of_dead (hdead : w.isLive id = false) :
    (w.runNative h id "amx_fork" p).2.roster = w.roster := by
  have hrun := w.runNative_plain h id p .fork (Nat.zero_le _)
  have hperform : w.performPlain h id p .fork = w.fork id (.ofParams p) := rfl
  simp only [hperform, fork, context?_eq_none_iff.mpr hdead] at hrun
  rw [show w.runNative h id "amx_fork" p = _ from hrun, steady_roster.settle]

/-- A fork replaces what is left of an earlier one, and only in the context of its caller. -/
theorem context?_fork (h : Host σ) (id : InstanceId) (p : Params) (w : World σ)
    (other : InstanceId) : (w.runNative h id "amx_fork" p).2.context? other =
      if other = id then
        (w.context? id).map fun c => { c with fork := some ⟨p.address? 1, p.address? 3⟩ }
      else
        w.context? other := by
  cases hcontext : w.context? id with
  | none =>
    rw [context?_congr (roster_fork_of_dead (context?_eq_none_iff.mp hcontext))]
    split
    · next heq => rw [heq, hcontext, Option.map_none]
    · rfl
  | some context =>
    rw [context?_congr (roster_fork hcontext), context?_modifyContext]
    split
    · next heq => rw [heq, hcontext, Option.map_some, Option.map_some]
    · rfl

/-- No other native has a part in contexts, but for what the host does. -/
theorem roster_runNative {name : String} (hname : name ≠ "amx_fork") (h : Host σ) (id : InstanceId)
    (p : Params) (w : World σ) : ∃ v, Chained h w (w.nativeHostCalls h id name p) v ∧
      (w.runNative h id name p).2.roster = v.roster := by
  refine steady_roster.runNative_of_plain fun native out hnative hout => ?_
  rcases steady_roster.effect (performPlain_effect native out hout) with hsame | ⟨r, hfork⟩
  · exact hsame
  · rw [eq_fork_of_performPlain hout hfork] at hnative
    exact absurd hnative.symm hname

namespace ContextsFollow

variable {log : List (Moment σ)}

/-- An act has a part in the context that it changes, and in no other. -/
theorem apply (hw : w.ContextsFollow log) (a : Act σ) :
    (a.apply w).ContextsFollow (.did a w :: log) := by
  cases a with
  | register m =>
    have hordered : ((Act.register m).apply w).Ordered := (Act.register m).ordered_apply hw.ordered
    exact (hw.enter hordered rfl rfl).did (by simp) w
  | share number =>
    have hordered := (Act.share number).ordered_apply hw.ordered
    refine did ?_ (by simp) w
    simp only [Act.apply] at hordered ⊢
    split
    · next hlt =>
      rw [dif_pos hlt] at hordered
      exact hw.enter hordered rfl rfl
    · exact hw
  | unload id => exact (hw.leave id).did (by simp) w
  | observe tag =>
    have hsame : ((Act.observe tag).apply w).roster = w.roster := rfl
    exact (hw.congr hsame).did (by simp) w
  | modifyContext id f =>
    have hafter (other : InstanceId) := contextAfter_modifyContext other id f w log
    cases hlive : w.isLive id with
    | false =>
      refine (hw.congr (roster_modifyContext_of_dead hlive f)).skip fun other => ?_
      refine (hafter other).trans (if_neg ?_)
      rintro ⟨rfl, h⟩
      simp [hlive] at h
    | true =>
      refine hw.modify hlive ((hafter id).trans (if_pos ⟨rfl, hlive⟩)) fun other hne => ?_
      exact (hafter other).trans (if_neg fun h => hne h.1.symm)
  | _ =>
    exact did (hw.congr (steady_roster.apply rfl (by simp) (by simp) w)) (by simp) w

/-- A native has no part in contexts but for a fork in that of its caller, and but for what the host
does. -/
theorem invoke (hw : w.ContextsFollow log) (h : Host σ) (id : InstanceId) (name : String)
    (p : Params) : ∃ u v, Chained h u (w.nativeHostCalls h id name p) v ∧
      u.ContextsFollow (.invoked h id name p w :: log) ∧
      ∀ log, v.ContextsFollow log → (w.runNative h id name p).2.ContextsFollow log := by
  have hafter (other : InstanceId) := contextAfter_invoked other id h name p w log
  by_cases hname : name = "amx_fork"
  · subst hname
    -- a fork calls nobody, so its entry is taken into account together with what it does
    refine ⟨_, _, rfl, ?_, fun log hend => hend⟩
    cases hlive : w.isLive id with
    | false =>
      refine (hw.congr (roster_fork_of_dead hlive)).skip fun other => ?_
      refine (hafter other).trans (if_neg ?_)
      rintro ⟨rfl, _, h⟩
      simp [hlive] at h
    | true =>
      refine congr (hw.modify hlive ?_ fun other hne => ?_) (roster_fork (hw.live id hlive))
      · exact (hafter id).trans (if_pos ⟨rfl, rfl, hlive⟩)
      · exact (hafter other).trans (if_neg fun h => hne h.1.symm)
  · obtain ⟨v, hchained, hroster⟩ := roster_runNative hname h id p w
    refine ⟨w, v, hchained, hw.skip fun other => ?_, fun log hv => hv.congr hroster⟩
    exact (hafter other).trans (if_neg fun h => hname h.2.1)

end ContextsFollow

end World

/-- Contexts follow the log of every run. -/
theorem Evolves.contextsFollow {limits : Limits} {host : σ} {log : List (Moment σ)} {w : World σ}
    (run : Evolves (World.create limits host) log w) : w.ContextsFollow log := by
  have hend := run.keeps_around (fun log w => w.ContextsFollow log) (fun _ _ a hw => hw.apply a)
    (fun _ _ h id name p hw => hw.invoke h id name p) [] (.create limits host)
  rwa [List.append_nil] at hend

/-! ### The two slots -/

/-- By how much an entry raises the counter of an instance, if the embedding program does nothing
to contexts but that: what it makes of a context in which there is no counter yet. -/
def Moment.bumped? (id : InstanceId) (moment : Moment σ) : Option Cell :=
  (moment.modified? id).bind fun f => (f {}).counter

/-- What the forks of an instance have left, newest first. -/
def forksOf (id : InstanceId) (log : List (Moment σ)) : List ForkReturn :=
  log.filterMap (Moment.forked? id)

/-- The amounts by which the counter of an instance was raised. -/
def bumpsOf (id : InstanceId) (log : List (Moment σ)) : List Cell :=
  log.filterMap (Moment.bumped? id)

/-- A counter that was raised by these amounts, if it was raised at all. It wraps around. -/
def counter? : List Cell → Option Cell
  | [] => none
  | amounts => some amounts.sum

/-- The embedding program changes contexts by raising counters only. -/
def OnlyBumps (log : List (Moment σ)) : Prop :=
  ∀ id f w, .did (.modifyContext id f) w ∈ log → ∃ amount : Cell, f = fun c => c.bump amount

theorem Moment.eq_of_modified? {id : InstanceId} {moment : Moment σ} {f : Context → Context}
    (h : moment.modified? id = some f) : ∃ w, moment = .did (.modifyContext id f) w := by
  unfold modified? at h
  split at h
  · next other g w =>
    split at h
    · next hlive =>
      obtain rfl := Option.some.inj h
      exact ⟨w, by rw [hlive.1]⟩
    · cases h
  · cases h

theorem bump_counter? (fork : Option ForkReturn) (amounts : List Cell) (amount : Cell) :
    Context.bump ⟨fork, counter? amounts⟩ amount = ⟨fork, counter? (amount :: amounts)⟩ := by
  have hcounter : (counter? amounts).getD 0 = amounts.sum := by cases amounts <;> rfl
  rw [Context.bump, hcounter, Int32.add_comm]
  rfl

/-- An entry touches the slots each by itself, if it raises counters only. -/
theorem Moment.touch_eq {id : InstanceId} {moment : Moment σ}
    (bumping : ∀ f, moment.modified? id = some f → ∃ amount : Cell, f = fun c => c.bump amount)
    (fork : Option ForkReturn) (amounts : List Cell) :
    moment.touch id ⟨fork, counter? amounts⟩ =
      ⟨(moment.forked? id).or fork, counter? ((moment.bumped? id).toList ++ amounts)⟩ := by
  cases hmodified : moment.modified? id with
  | none => simp [touch, bumped?, hmodified]
  | some f =>
    obtain ⟨amount, rfl⟩ := bumping f hmodified
    have hbumped : moment.bumped? id = some amount := by simp [bumped?, hmodified, Context.bump]
    simp [touch, hmodified, hbumped, bump_counter?]

/-- The slots of a context are told each by itself. -/
theorem contextAfter_of_onlyBumps (id : InstanceId) {log : List (Moment σ)}
    (bumping : OnlyBumps log) :
    contextAfter id log = ⟨(forksOf id log).head?, counter? (bumpsOf id log)⟩ := by
  induction log with
  | nil => rfl
  | cons moment log ih =>
    have hafter := ih fun id f w hmem => bumping id f w (List.mem_cons_of_mem _ hmem)
    have hmoment (f) (hmodified : moment.modified? id = some f) :
        ∃ amount : Cell, f = fun c => c.bump amount := by
      obtain ⟨w, rfl⟩ := Moment.eq_of_modified? hmodified
      exact bumping id f w List.mem_cons_self
    rw [contextAfter, List.foldr_cons, ← contextAfter, hafter, Moment.touch_eq hmoment]
    congr 1
    · cases hforked : moment.forked? id <;> simp [forksOf, hforked]
    · cases hbumped : moment.bumped? id <;> simp [bumpsOf, hbumped]

/-- What holds of the contexts of a world at the end of a run with that log. -/
structure World.KeepsContexts (w : World σ) (log : List (Moment σ)) : Prop where
  /-- A live instance has a context, in which there is what its latest fork has left and the sum of
  all that its counter was raised by. Nothing else has one. -/
  context?_eq : ∀ id, w.context? id =
    if w.isLive id then some ⟨(forksOf id log).head?, counter? (bumpsOf id log)⟩ else none
  /-- A fork replaces what the caller's earlier fork has left, and touches nothing else. -/
  forks : ∀ (h : Host σ) id p other, (w.runNative h id "amx_fork" p).2.context? other =
    if other = id then
      (w.context? id).map fun c =>
        { c with fork := some ⟨p[1]?.filter (· != -1), p[3]?.filter (· != -1)⟩ }
    else
      w.context? other
  /-- To raise a counter touches nothing else, either. -/
  bumps : ∀ id (amount : Cell) other, (w.modifyContext id (·.bump amount)).context? other =
    if other = id then (w.context? id).map (·.bump amount) else w.context? other
  /-- A new instance begins with an empty context, also if its machine is live already. -/
  registers : ∀ m other, (w.register m).2.context? other =
    if other = w.nextId then some {} else w.context? other
  shares : ∀ number other, (w.registerShared number).2.context? other =
    if other = w.nextId then some {} else w.context? other
  unloads : ∀ id other, (w.unload id).2.context? other =
    if other = id then none else w.context? other

/-- The slots of contexts are variables of their own, one of each kind for each live instance,
however the run goes on: forks, counters, registrations, also of machines that are live already,
and unloads may come in any order, from the host in the middle of a native, too. -/
theorem Evolves.keepsContexts {limits : Limits} {host : σ} {log : List (Moment σ)} {w : World σ}
    (run : Evolves (World.create limits host) log w) (bumping : OnlyBumps log) :
    w.KeepsContexts log where
  context?_eq id := by
    cases hlive : w.isLive id with
    | false => exact World.context?_eq_none_iff.mpr hlive
    | true =>
      rw [run.contextsFollow.live id hlive, contextAfter_of_onlyBumps id bumping]
      rfl
  forks h id p other := World.context?_fork h id p w other
  bumps id amount other := by
    rw [World.context?_modifyContext]
    split
    · next heq => rw [heq]
    · rfl
  registers m := World.context?_of_loaded run.contextsFollow.ordered.nextId_not_live rfl
  shares number := World.context?_of_loaded run.contextsFollow.ordered.nextId_not_live rfl
  unloads := World.context?_unload run.contextsFollow.ordered.nodup

/-- Two instances of one machine fork in turn and their counters are raised, the first one forks
again without addresses, and the second one is unloaded and its machine registered anew. -/
theorem Evolves.keepsContexts_of_forks :
    let m : Machine := Scenario.MachineSpec.build {}
    let id (number : Nat) : InstanceId := ⟨number + 1, Nat.succ_pos number⟩
    let bump (id : InstanceId) (amount : Cell) : Act Unit := .modifyContext id (·.bump amount)
    let h : Host Unit := ⟨fun _ w => (.ok 0, w), fun _ _ => (0, ())⟩
    let start : World Unit := World.create {} ()
    let shared := (Act.share 0).apply ((Act.register m).apply start)
    let forked := (shared.runNative h (id 0) "amx_fork" [3, 40, 1, 44]).2
    let bumped := (bump (id 0) 2147483647).apply ((bump (id 1) 5).apply forked)
    let again := (bumped.runNative h (id 1) "amx_fork" [3, 48, 1, -1]).2
    let twice := (again.runNative h (id 0) "amx_fork" [0]).2
    let w := (Act.share 0).apply ((Act.unload (id 1)).apply ((bump (id 0) 1).apply twice))
    ∃ log, Evolves start log w ∧ OnlyBumps log ∧ w.KeepsContexts log ∧
      forked.context? (id 0) = some ⟨some ⟨some 40, some 44⟩, none⟩ ∧
      again.context? (id 1) = some ⟨some ⟨some 48, none⟩, some 5⟩ ∧
      w.context? (id 0) = some ⟨some ⟨none, none⟩, some (-2147483648)⟩ ∧
      w.context? (id 1) = none ∧ w.context? (id 2) = some {} := by
  intro m id bump h start shared forked bumped again twice w
  have first : Evolves start _ forked :=
    .invoke (.act (.act (.start start) (.register m)) (.share 0)) h (id 0) "amx_fork"
      [3, 40, 1, 44] [] rfl nofun
  have second : Evolves start _ again :=
    .invoke (.act (.act first (bump (id 1) 5)) (bump (id 0) 2147483647)) h (id 1) "amx_fork"
      [3, 48, 1, -1] [] rfl nofun
  have third : Evolves start _ twice := .invoke second h (id 0) "amx_fork" [0] [] rfl nofun
  have run : Evolves start _ w :=
    .act (.act (.act third (bump (id 0) 1)) (.unload (id 1))) (.share 0)
  refine ⟨_, run, ?bumping, run.keepsContexts ?bumping, by decide +kernel, by decide +kernel,
    by decide +kernel, by decide +kernel, by decide +kernel⟩
  intro _ f _ hmem
  simp only [bump, List.map_nil, List.reverse_nil, List.flatten_nil, List.nil_append, List.mem_cons,
    List.not_mem_nil, Moment.did.injEq, Act.modifyContext.injEq, reduceCtorEq, false_and, false_or,
    or_false] at hmem
  rcases hmem with ⟨⟨_, hf⟩, _⟩ | ⟨⟨_, hf⟩, _⟩ | ⟨⟨_, hf⟩, _⟩ <;> exact ⟨_, hf⟩

end ScriptNatives
