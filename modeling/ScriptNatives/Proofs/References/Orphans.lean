import ScriptNatives.Proofs.Native.Effects
import ScriptNatives.Proofs.References.Validity
import ScriptNatives.Proofs.Runs.Loading
import ScriptNatives.Proofs.World.Live

/-!
# References that nobody reclaims

A reference is reclaimed when the instance that it is attached to is unloaded: the owner of a
variable, the context of a handle. So nobody reclaims one that is attached to an instance that is
not live. As long as every caller is live, natives attach what they make to a live instance, with
one exception: a handle for the source of the dispatch is attached to the source, and nobody asks
whether the source is still live.
-/
namespace ScriptNatives

variable {σ : Type}

/-! ### What an act does to references and to instances -/

/-- An entry that is there after an event was made by it, or was there and is not ended by it. -/
theorem Follows.made_or_kept {α : Type} {s t : Slots α} {made : Cell → α → Event}
    {ends : Cell → α → Event → Prop} {es : List Event} {e : Option Event}
    (hs : Follows s made ends es) (ht : Follows t made ends (e.toList ++ es)) {c : Cell} {a : α}
    (hget : t.get? c = some a) :
    e = some (made c a) ∨ s.get? c = some a ∧ ∀ e', e = some e' → ¬ ends c a e' := by
  have hstands := (ht.get?_iff c a).mp hget
  cases e with
  | none => exact .inr ⟨(hs.get?_iff c a).mpr hstands, nofun⟩
  | some e =>
    rcases stands_cons.mp hstands with rfl | ⟨hbefore, hend⟩
    · exact .inl rfl
    · refine .inr ⟨(hs.get?_iff c a).mpr hbefore, ?_⟩
      rintro _ ⟨rfl⟩
      exact hend

theorem Act.eq_of_event?_madeVar {a : Act σ} {w : World σ} {c : Cell} {owner : InstanceId}
    {address count : Int} (h : a.event? w = some (.madeVar c owner address count)) :
    a = .createVar owner address count := by
  cases a with
  | createVar owner' address' count' =>
    simp only [event?] at h
    split at h
    · obtain ⟨_, rfl, rfl, rfl⟩ := Event.madeVar.inj (Option.some.inj h)
      rfl
    · cases h
  | createHandle k =>
    simp only [event?] at h
    split at h <;> cases h
  | _ => simp [event?] at h

theorem Act.eq_of_event?_madeHandle {a : Act σ} {w : World σ} {c : Cell} {k : Handle}
    (h : a.event? w = some (.madeHandle c k)) : a = .createHandle k := by
  cases a with
  | createHandle k' =>
    simp only [event?] at h
    split at h
    · obtain ⟨_, rfl⟩ := Event.madeHandle.inj (Option.some.inj h)
      rfl
    · cases h
  | createVar owner address count =>
    simp only [event?] at h
    split at h <;> cases h
  | _ => simp [event?] at h

theorem Act.eq_of_event?_unloaded {a : Act σ} {w : World σ} {id : InstanceId}
    (h : a.event? w = some (.unloaded id)) : a = .unload id ∧ w.isLive id = true := by
  cases a with
  | unload other =>
    obtain ⟨hlive, heq⟩ := Option.ite_none_right_eq_some.mp h
    obtain rfl := Event.unloaded.inj (Option.some.inj heq)
    exact ⟨rfl, hlive⟩
  | createVar owner address count =>
    simp only [event?] at h
    split at h <;> cases h
  | createHandle k =>
    simp only [event?] at h
    split at h <;> cases h
  | _ => simp [event?] at h

theorem World.isLive_registerShared {w : World σ} {id : InstanceId} (hlive : w.isLive id = true)
    (number : Fin w.machines.size) : (w.registerShared number).2.isLive id = true := by
  rw [isLive_iff] at hlive ⊢
  simp only [registerShared, liveIds, List.map_append, List.mem_append]
  exact .inl hlive

/-- A live instance stays live in an act that is not its unloading. -/
theorem Act.isLive_apply {a : Act σ} {w : World σ} {id : InstanceId} (hlive : w.isLive id = true)
    (hevent : a.event? w ≠ some (.unloaded id)) : (a.apply w).isLive id = true := by
  have houtline {u : World σ} (hu : u.outline = w.outline) : u.isLive id = true := by
    have hids : u.liveIds = w.liveIds := congrArg World.Outline.live hu
    rwa [World.isLive_iff, hids, ← World.isLive_iff]
  cases a with
  | register m =>
    have hadded : (w.addMachine m).isLive id = true := hlive
    exact World.isLive_registerShared hadded _
  | share number =>
    simp only [apply]
    split
    · exact World.isLive_registerShared hlive _
    · exact hlive
  | unload other =>
    cases hother : w.isLive other with
    | false => simpa [apply, World.unload_of_dead hother] using hlive
    | true =>
      refine World.isLive_unload (fun heq => hevent ?_) hlive
      simp [event?, heq, hother]
  | createVar owner address count =>
    simp only [apply]
    cases hcreate : w.createVar owner address count with
    | error fault => exact hlive
    | ok out =>
      obtain ⟨_, _, _, _, _, _, hworld⟩ := World.createVar_eq_ok hcreate
      rw [World.worldAfter, hworld]
      exact hlive
  | createHandle k =>
    simp only [apply]
    cases hcreate : w.createHandle k with
    | error fault => exact hlive
    | ok out =>
      obtain ⟨_, _, hworld⟩ := World.createHandle_eq_ok hcreate
      rw [World.worldAfter, hworld]
      exact hlive
  | releaseVar c =>
    rw [apply, World.releaseVar_snd]
    exact hlive
  | releaseHandle c =>
    rw [apply_releaseHandle]
    exact hlive
  | writeVar v index value => exact houtline (World.outline_writeVar v index value)
  | freeVar v => exact houtline (World.outline_freeVar v)
  | onMachine number step => exact houtline (World.outline_onMachine number step)
  | modifyContext id f => exact houtline (World.outline_modifyContext w id f)
  | observe | reclaimVars | reclaimHandles | enterSource | leaveSource | changeHost => exact hlive

/-! ### What an instance leaves behind for good -/

theorem Moment.isLive_of_event?_unloaded {m : Moment σ} {id : InstanceId}
    (h : m.event? = some (.unloaded id)) : m.world.isLive id = true := by
  cases m with
  | did a w => exact (Act.eq_of_event?_unloaded h).2
  | invoked _ _ _ _ w =>
    -- no native comes down to an unloading
    obtain ⟨a, hnative, ha⟩ := Option.bind_eq_some_iff.mp h
    obtain ⟨rfl, _⟩ := Act.eq_of_event?_unloaded ha
    cases w.not_loads_of_nativeAct? hnative

/-- An instance that is gone is not unloaded once more. -/
theorem Evolves.not_unloaded_again {limits : Limits} {host : σ} {log log' : List (Moment σ)}
    {w later : World σ} (run : Evolves (World.create limits host) log w)
    (after : Evolves w log' later) {id : InstanceId} (gone : id ∈ unloadedIds log) :
    .unloaded id ∉ history log' := by
  intro hmem
  obtain ⟨m, hm, hevent⟩ := List.mem_filterMap.mp hmem
  obtain ⟨next, before, hlog⟩ := List.append_of_mem hm
  have hgone := after.keeps_at (fun _ u => ∃ given gone, u.Roll given gone ∧ id ∈ gone)
    ?congr ?act ?native ⟨_, _, run.roll, gone⟩ hlog
  case congr =>
    rintro _ u v houtline ⟨given, gone, hroll, hid⟩
    exact ⟨given, gone, hroll.of_outline houtline, hid⟩
  case act =>
    rintro _ u a ⟨given, gone, hroll, hid⟩
    exact ⟨_, _, hroll.apply a, List.mem_append_right _ hid⟩
  case native =>
    rintro _ u h id' name p ⟨given, gone, hroll, hid⟩
    exact ⟨given, gone, hroll.native id' name p, hid⟩
  obtain ⟨given, gone, hroll, hid⟩ := hgone
  have hlive := Moment.isLive_of_event?_unloaded hevent
  rw [hroll.isLive_eq_false hid] at hlive
  cases hlive

/-- What is attached to an instance that was unloaded stays, however the run goes on: no unloading
reclaims it. It goes only if it is taken back by its id, or if the pool is told to reclaim what is
of that instance. -/
theorem Evolves.orphans_stay {limits : Limits} {host : σ} {log log' : List (Moment σ)}
    {w later : World σ} (run : Evolves (World.create limits host) log w)
    (after : Evolves w log' later) {id : InstanceId} (gone : id ∈ unloadedIds log) :
    (∀ c v, w.vars.get? c = some v → v.owner = id → .deletedVar c ∉ history log' →
        .reclaimedVars id ∉ history log' → later.vars.get? c = some v) ∧
      ∀ c k, w.handles.get? c = some k → k.context = id → .releasedHandle c ∉ history log' →
        .reclaimedHandles id ∉ history log' → later.handles.get? c = some k := by
  have hbefore := tracks_history run
  have hafter := tracks_history (run.trans after)
  have hgone := run.not_unloaded_again after gone
  rw [history, List.filterMap_append] at hafter
  constructor
  · rintro c v hget rfl hdeleted hreclaimed
    refine (hafter.vars.get?_iff c v).mpr (((hbefore.vars.get?_iff c v).mp hget).append ?_)
    rintro e he (rfl | rfl | rfl)
    · exact hdeleted he
    · exact hreclaimed he
    · exact hgone he
  · rintro c k hget rfl hreleased hreclaimed
    refine (hafter.handles.get?_iff c k).mpr (((hbefore.handles.get?_iff c k).mp hget).append ?_)
    rintro e he (rfl | rfl | rfl)
    · exact hreleased he
    · exact hreclaimed he
    · exact hgone he

/-! ### What a native makes -/

/-- A native makes variables of its caller only. -/
theorem Native.owner_of_act? {native : Native} {w : World σ} {id owner : InstanceId} {p : Params}
    {address count : Int} (h : native.act? w id p = some (.createVar owner address count)) :
    owner = id := by
  cases native with
  | call _ | tryCall _ => cases h
  | plain native =>
    cases LocalNative.comesDownTo h with
    | makesVar => rfl

/-- A native attaches a handle to its caller, or it makes one for the source and attaches it to
that. -/
theorem Native.context_of_act? {native : Native} {w : World σ} {id : InstanceId} {p : Params}
    {k : Handle} (h : native.act? w id p = some (.createHandle k)) :
    k.context = id ∨ native = .plain .sourceHandle ∧ w.source = some k.context := by
  cases native with
  | call _ | tryCall _ => cases h
  | plain native =>
    cases LocalNative.comesDownTo h with
    | makesHandle => exact .inl rfl
    | makesSourceHandle hsource => exact .inr ⟨rfl, hsource⟩

/-! ### Runs in which every caller is live -/

/-- An entry of a log that is in order: a native is run for a live instance, and a reference is made
for one. -/
def Moment.Orderly : Moment σ → Prop
  | did (.createVar owner _ _) w => w.isLive owner = true
  | did (.createHandle k) w => w.isLive k.context = true
  | did _ _ => True
  | invoked _ id _ _ w => w.isLive id = true

/-- A handle was asked for a source that was not live any more. -/
def OutlivedSource (log : List (Moment σ)) (source : InstanceId) : Prop :=
  ∃ h id p w, .invoked h id "amx_source_handle" p w ∈ log ∧ w.source = some source ∧
    w.isLive source = false

/-- Every variable is attached to a live instance, and every handle is, unless it is one for a
source that was not live when the handle was made. -/
structure Attached (log : List (Moment σ)) (w : World σ) : Prop where
  vars : ∀ c v, w.vars.get? c = some v → w.isLive v.owner = true
  handles : ∀ c k, w.handles.get? c = some k →
    w.isLive k.context = true ∨ OutlivedSource log k.context

theorem OutlivedSource.cons {log : List (Moment σ)} {source : InstanceId}
    (hsource : OutlivedSource log source) (m : Moment σ) : OutlivedSource (m :: log) source := by
  obtain ⟨h, id, p, w, hmem, hrest⟩ := hsource
  exact ⟨h, id, p, w, List.mem_cons_of_mem _ hmem, hrest⟩

theorem Attached.cons {log : List (Moment σ)} {w : World σ} (hw : Attached log w) (m : Moment σ) :
    Attached (m :: log) w where
  vars := hw.vars
  handles c k hk := (hw.handles c k hk).imp_right (·.cons m)

theorem Attached.of_outline {log : List (Moment σ)} {w u : World σ} (hw : Attached log w)
    (h : u.outline = w.outline) : Attached log u := by
  have hlive (id : InstanceId) (hid : w.isLive id = true) : u.isLive id = true := by
    have hids : u.liveIds = w.liveIds := congrArg World.Outline.live h
    rwa [World.isLive_iff, hids, ← World.isLive_iff]
  have hvars : u.vars = w.vars := congrArg World.Outline.vars h
  have hhandles : u.handles = w.handles := congrArg World.Outline.handles h
  exact {
    vars := fun c v hv => hlive _ (hw.vars c v (hvars ▸ hv))
    handles := fun c k hk => (hw.handles c k (hhandles ▸ hk)).imp_left (hlive _) }

/-- What was attached stays so in an act: what an instance leaves behind is reclaimed when it goes.
So it is enough to know what the act itself makes. -/
theorem Attached.apply {es : List Event} {log : List (Moment σ)} {w : World σ}
    (htracks : Tracks es w) (hw : Attached log w) (a : Act σ)
    (hvar : ∀ owner address count, a = .createVar owner address count → w.isLive owner = true)
    (hhandle : ∀ k, a = .createHandle k →
      w.isLive k.context = true ∨ OutlivedSource log k.context) :
    Attached log (a.apply w) := by
  have hafter := tracks_apply htracks a
  constructor
  · intro c v hget
    rcases htracks.vars.made_or_kept hafter.vars hget with hmade | ⟨hbefore, hkept⟩
    · have hcreate := Act.eq_of_event?_madeVar hmade
      exact Act.isLive_apply (hvar _ _ _ hcreate) (by rw [hmade]; nofun)
    · exact Act.isLive_apply (hw.vars c v hbefore) fun h => hkept _ h (.inr (.inr rfl))
  · intro c k hget
    rcases htracks.handles.made_or_kept hafter.handles hget with hmade | ⟨hbefore, hkept⟩
    · have hcreate := Act.eq_of_event?_madeHandle hmade
      refine (hhandle k hcreate).imp_left fun hlive => ?_
      exact Act.isLive_apply hlive (by rw [hmade]; nofun)
    · refine (hw.handles c k hbefore).imp_left fun hlive => ?_
      exact Act.isLive_apply hlive fun h => hkept _ h (.inr (.inr rfl))

/-- What a native makes for a live caller is attached. -/
theorem Attached.native {es : List Event} {log : List (Moment σ)} {w : World σ}
    (htracks : Tracks es w) (hw : Attached log w) (h : Host σ) {id : InstanceId}
    (live : w.isLive id = true) (name : String) (p : Params) :
    Attached (.invoked h id name p w :: log) ((w.nativeAct? id name p).elim w (Act.apply w)) := by
  cases hact : w.nativeAct? id name p with
  | none => exact hw.cons _
  | some a =>
    obtain ⟨native, rfl, hnative⟩ := World.exists_native_of_nativeAct? hact
    refine (hw.cons _).apply htracks a ?_ ?_
    · rintro owner address count rfl
      rw [Native.owner_of_act? hnative]
      exact live
    · rintro k rfl
      rcases Native.context_of_act? hnative with hcaller | ⟨rfl, hsource⟩
      · rw [hcaller]
        exact .inl live
      · cases hlive : w.isLive k.context with
        | true => exact .inl rfl
        | false => exact .inr ⟨h, id, p, w, List.mem_cons_self, hsource, hlive⟩

/-- What an orderly run makes is attached. -/
theorem attached_run {limits : Limits} {host : σ} {log : List (Moment σ)} {w : World σ}
    (run : Evolves (World.create limits host) log w) (orderly : ∀ m ∈ log, m.Orderly) :
    Attached log w := by
  let P (log : List (Moment σ)) (w : World σ) : Prop :=
    Tracks (history log) w ∧ ((∀ m ∈ log, m.Orderly) → Attached log w)
  have hkept : P (log ++ []) w := run.keeps P ?congr ?act ?native [] ?start
  · have hattached := hkept.2 (by simpa using orderly)
    rwa [List.append_nil] at hattached
  case start =>
    have htracks := tracks_create limits host
    refine ⟨htracks, fun _ => ⟨fun c v hv => ?_, fun c k hk => ?_⟩⟩
    · exact absurd ((htracks.vars.get?_iff c v).mp hv) (by simp [Stands])
    · exact absurd ((htracks.handles.get?_iff c k).mp hk) (by simp [Stands])
  case congr =>
    rintro log w u houtline ⟨htracks, hattached⟩
    exact ⟨htracks.of_outline houtline, fun hlog => (hattached hlog).of_outline houtline⟩
  case act =>
    rintro log w a ⟨htracks, hattached⟩
    refine ⟨tracks_did htracks a, fun hlog => ?_⟩
    obtain ⟨hfirst, hrest⟩ := List.forall_mem_cons.mp hlog
    refine ((hattached hrest).cons _).apply htracks a ?_ ?_
    · rintro owner address count rfl
      exact hfirst
    · rintro k rfl
      exact .inl hfirst
  case native =>
    rintro log w h id name p ⟨htracks, hattached⟩
    refine ⟨tracks_invoked htracks h id name p, fun hlog => ?_⟩
    obtain ⟨live, hrest⟩ := List.forall_mem_cons.mp hlog
    exact (hattached hrest).native htracks h live name p

/-- In every world that an orderly run ends in, every variable belongs to a live instance, which
takes it along when it is unloaded. The same holds of the context of every handle, unless the handle
was made for a source that was not live any more. -/
theorem reclaimed_or_outlived {limits : Limits} {host : σ} {log : List (Moment σ)} {w : World σ}
    (run : Evolves (World.create limits host) log w) (orderly : ∀ m ∈ log, m.Orderly) :
    (∀ c v, w.vars.get? c = some v →
        w.isLive v.owner = true ∧ (w.unload v.owner).2.vars.get? c = none) ∧
      ∀ c k, w.handles.get? c = some k →
        (w.isLive k.context = true ∧ (w.unload k.context).2.handles.get? c = none) ∨
          OutlivedSource log k.context := by
  have htracks := tracks_history run
  have hw := attached_run run orderly
  constructor
  · intro c v hv
    have hlive := hw.vars c v hv
    refine ⟨hlive, Option.eq_none_iff_forall_ne_some.mpr fun u hu => ?_⟩
    rw [(World.vars_reclaimedBy.unload htracks.vars.wellFormed _).2, hv] at hu
    obtain rfl := Option.some.inj hu.1
    exact hu.2 hlive htracks.reclaimsVars rfl
  · intro c k hk
    refine (hw.handles c k hk).imp_left fun hlive => ?_
    refine ⟨hlive, Option.eq_none_iff_forall_ne_some.mpr fun j hj => ?_⟩
    rw [(World.handles_reclaimedBy.unload htracks.handles.wellFormed _).2, hk] at hj
    obtain rfl := Option.some.inj hj.1
    exact hj.2 hlive htracks.reclaimsHandles rfl

/-- An instance is unloaded while it is the source, and another one asks for a handle for it. -/
theorem exists_orphan :
    ∃ (log : List (Moment Unit)) (w : World Unit), Evolves (World.create {} ()) log w ∧
      (∀ m ∈ log, m.Orderly) ∧ ∃ k, w.handles.get? 1 = some k ∧ w.isLive k.context = false := by
  let first : InstanceId := ⟨1, by decide⟩
  let second : InstanceId := ⟨2, by decide⟩
  let host : Host Unit := ⟨fun _ w => (.ok 0, w), fun _ _ => (0, ())⟩
  have loaded := ((Evolves.start (World.create {} ())).act
    (.register (Machine.ofLayout "m" 4 4))).act (.register (Machine.ofLayout "n" 4 4))
  have unloaded := (loaded.act (.enterSource (some first))).act (.unload first)
  have run := unloaded.invoke host second "amx_source_handle" [] [] rfl (by simp)
  refine ⟨_, _, run, ?_, .ofInstance first, by decide +kernel, by decide +kernel⟩
  simp only [List.map_nil, List.reverse_nil, List.flatten_nil, List.nil_append,
    List.forall_mem_cons, Moment.Orderly]
  exact ⟨by decide, trivial, trivial, trivial, trivial, by simp⟩

/-- The handle has outlived its source. -/
theorem orphan_outlived_source :
    ∃ (log : List (Moment Unit)) (w : World Unit), Evolves (World.create {} ()) log w ∧
      (∀ m ∈ log, m.Orderly) ∧ ∃ k, w.handles.get? 1 = some k ∧ OutlivedSource log k.context := by
  obtain ⟨log, w, run, orderly, k, hk, dead⟩ := exists_orphan
  refine ⟨log, w, run, orderly, k, hk, ?_⟩
  rcases (reclaimed_or_outlived run orderly).2 1 k hk with ⟨live, _⟩ | outlived
  · rw [dead] at live
    cases live
  · exact outlived

/-- So it is not true that in an orderly run the context of every handle is live. -/
theorem orderly_run_leaves_orphan :
    ¬ ∀ (log : List (Moment Unit)) (w : World Unit), Evolves (World.create {} ()) log w →
      (∀ m ∈ log, m.Orderly) → ∀ c k, w.handles.get? c = some k → w.isLive k.context = true := by
  intro hclaim
  obtain ⟨log, w, run, orderly, k, hk, dead⟩ := exists_orphan
  have live := hclaim log w run orderly 1 k hk
  rw [dead] at live
  cases live

end ScriptNatives
