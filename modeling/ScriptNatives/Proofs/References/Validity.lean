import ScriptNatives.Proofs.References.History

/-!
# Which references are valid

In every world that a run ends in, the two pools follow the history of the run: an id names a value
if and only if it stands for it. The history decides, and not what became of the storage behind a
variable.
-/
namespace ScriptNatives

variable {σ : Type}

/-- A world keeps track of a history: its pools follow it, and will when an instance goes. -/
structure Tracks (es : List Event) (w : World σ) : Prop where
  vars : Follows w.vars .ofVar EndsVar es
  handles : Follows w.handles .madeHandle EndsHandle es
  reclaimsVars : .reclaimVars ∈ w.hooks
  reclaimsHandles : .reclaimHandles ∈ w.hooks

theorem follows_ofCapacity {α : Type} (capacity : Nat) (made : Cell → α → Event)
    (ends : Cell → α → Event → Prop) : Follows (.ofCapacity capacity) made ends [] where
  wellFormed := Slots.wellFormed_ofCapacity capacity
  get?_iff c a := by
    have hnone : (Slots.ofCapacity capacity : Slots α).get? c = none := by
      cases h : (Slots.ofCapacity capacity : Slots α).get? c with
      | none => rfl
      | some b =>
        have hissued := Slots.issued_of_get? (Slots.wellFormed_ofCapacity capacity) h
        exact absurd hissued (Slots.not_issued_ofCapacity capacity c)
    simp [hnone, Stands]

theorem tracks_create (limits : Limits) (host : σ) : Tracks [] (World.create limits host) where
  vars := follows_ofCapacity _ _ _
  handles := follows_ofCapacity _ _ _
  reclaimsVars := by simp [World.create]
  reclaimsHandles := by simp [World.create]

theorem Tracks.congr {es : List Event} {w u : World σ} (hw : Tracks es w)
    (hvars : u.vars = w.vars) (hhandles : u.handles = w.handles) (hhooks : w.hooks ⊆ u.hooks) :
    Tracks es u where
  vars := hvars ▸ hw.vars
  handles := hhandles ▸ hw.handles
  reclaimsVars := hhooks hw.reclaimsVars
  reclaimsHandles := hhooks hw.reclaimsHandles

theorem Tracks.of_outline {es : List Event} {w u : World σ} (hw : Tracks es w)
    (h : u.outline = w.outline) : Tracks es u := by
  have hhooks : u.hooks = w.hooks := congrArg World.Outline.hooks h
  exact hw.congr (congrArg World.Outline.vars h) (congrArg World.Outline.handles h)
    (hhooks ▸ List.Subset.refl _)

/-! ### One act -/

theorem ofVar_inj {id d : Cell} {v b : Var} :
    Event.ofVar id v = .ofVar d b ↔ d = id ∧ b = v := by
  constructor
  · intro h
    obtain ⟨rfl, howner, haddress, hsize⟩ := Event.madeVar.inj h
    obtain ⟨⟩ := v
    obtain ⟨⟩ := b
    simp_all
  · rintro ⟨rfl, rfl⟩
    rfl

theorem tracks_createVar {es : List Event} {w u : World σ} (hw : Tracks es w)
    {owner : InstanceId} {address count : Int} {id : Cell}
    (h : w.createVar owner address count = .ok (id, u)) :
    Tracks (.madeVar id owner address count :: es) u := by
  obtain ⟨v, vars, rfl, rfl, rfl, hinsert, rfl⟩ := World.createVar_eq_ok h
  exact {
    vars := hw.vars.insert hinsert (fun d b => ofVar_inj) (by simp [EndsVar])
    handles := hw.handles.other (by simp) (by simp [EndsHandle])
    reclaimsVars := hw.reclaimsVars
    reclaimsHandles := hw.reclaimsHandles }

theorem tracks_createHandle {es : List Event} {w u : World σ} (hw : Tracks es w) {k : Handle}
    {id : Cell} (h : w.createHandle k = .ok (id, u)) : Tracks (.madeHandle id k :: es) u := by
  obtain ⟨handles, hinsert, rfl⟩ := World.createHandle_eq_ok h
  exact {
    vars := hw.vars.other (by simp [Event.ofVar]) (by simp [EndsVar])
    handles := hw.handles.insert hinsert (by simp [eq_comm]) (by simp [EndsHandle])
    reclaimsVars := hw.reclaimsVars
    reclaimsHandles := hw.reclaimsHandles }

theorem tracks_unload {es : List Event} {w : World σ} (hw : Tracks es w) {id : InstanceId}
    (hlive : w.isLive id = true) : Tracks (.unloaded id :: es) (w.unload id).2 := by
  obtain ⟨hvwf, hvget⟩ := World.vars_reclaimedBy.unload hw.vars.wellFormed id
  obtain ⟨hhwf, hhget⟩ := World.handles_reclaimedBy.unload hw.handles.wellFormed id
  constructor
  · refine hw.vars.cons hvwf fun c v => ?_
    rw [hvget]
    simp [hlive, hw.reclaimsVars, Event.ofVar, EndsVar, eq_comm]
  · refine hw.handles.cons hhwf fun c k => ?_
    rw [hhget]
    simp [hlive, hw.reclaimsHandles, EndsHandle, eq_comm]
  · rw [World.unload_hooks]
    exact hw.reclaimsVars
  · rw [World.unload_hooks]
    exact hw.reclaimsHandles

theorem tracks_reclaimVars {es : List Event} {w : World σ} (hw : Tracks es w)
    (owner : InstanceId) : Tracks (.reclaimedVars owner :: es) (w.reclaimVars owner).2 where
  vars := by
    obtain ⟨hwf, hget⟩ := World.reclaimVars_spec hw.vars.wellFormed owner
    refine hw.vars.cons hwf fun c v => ?_
    rw [hget]
    simp [Event.ofVar, EndsVar, eq_comm]
  handles := hw.handles.other (by simp) (by simp [EndsHandle])
  reclaimsVars := hw.reclaimsVars
  reclaimsHandles := hw.reclaimsHandles

theorem tracks_reclaimHandles {es : List Event} {w : World σ} (hw : Tracks es w)
    (context : InstanceId) :
    Tracks (.reclaimedHandles context :: es) (w.reclaimHandles context).2 where
  vars := hw.vars.other (by simp [Event.ofVar]) (by simp [EndsVar])
  handles := by
    obtain ⟨hwf, hget⟩ := World.reclaimHandles_spec hw.handles.wellFormed context
    refine hw.handles.cons hwf fun c k => ?_
    rw [hget]
    simp [EndsHandle, eq_comm]
  reclaimsVars := hw.reclaimsVars
  reclaimsHandles := hw.reclaimsHandles

theorem tracks_releaseVar {es : List Event} {w : World σ} (hw : Tracks es w) (id : Cell) :
    Tracks (.deletedVar id :: es) (w.releaseVar id).2 := by
  rw [World.releaseVar_snd]
  exact {
    vars := hw.vars.remove id (by simp [Event.ofVar]) (by simp [EndsVar, eq_comm])
    handles := hw.handles.other (by simp) (by simp [EndsHandle])
    reclaimsVars := hw.reclaimsVars
    reclaimsHandles := hw.reclaimsHandles }

theorem tracks_releaseHandle {es : List Event} {w : World σ} (hw : Tracks es w) (id : Cell) :
    Tracks (.releasedHandle id :: es) ((Act.releaseHandle id).apply w) := by
  rw [Act.apply_releaseHandle]
  exact {
    vars := hw.vars.other (by simp [Event.ofVar]) (by simp [EndsVar])
    handles := hw.handles.remove id (by simp) (by simp [EndsHandle, eq_comm])
    reclaimsVars := hw.reclaimsVars
    reclaimsHandles := hw.reclaimsHandles }

/-- Every act adds its event to the history that a world keeps track of. -/
theorem tracks_apply {es : List Event} {w : World σ} (hw : Tracks es w) (a : Act σ) :
    Tracks ((a.event? w).toList ++ es) (a.apply w) := by
  cases a with
  | unload id =>
    cases hlive : w.isLive id with
    | true => simpa [Act.event?, Act.apply, hlive] using tracks_unload hw hlive
    | false => simpa [Act.event?, Act.apply, hlive, World.unload_of_dead hlive] using hw
  | createVar owner address count =>
    cases h : w.createVar owner address count with
    | error fault => simpa [Act.event?, Act.apply, h] using hw
    | ok out => simpa [Act.event?, Act.apply, h, World.worldAfter] using tracks_createVar hw h
  | createHandle k =>
    cases h : w.createHandle k with
    | error fault => simpa [Act.event?, Act.apply, h] using hw
    | ok out => simpa [Act.event?, Act.apply, h, World.worldAfter] using tracks_createHandle hw h
  | releaseVar id => exact tracks_releaseVar hw id
  | releaseHandle id => exact tracks_releaseHandle hw id
  | reclaimVars owner => exact tracks_reclaimVars hw owner
  | reclaimHandles context => exact tracks_reclaimHandles hw context
  | register m => exact hw.congr rfl rfl (List.Subset.refl _)
  | share number =>
    simp only [Act.apply]
    split
    · exact hw.congr rfl rfl (List.Subset.refl _)
    · exact hw
  | observe tag => exact hw.congr rfl rfl (List.subset_append_left _ _)
  | writeVar v index value => exact hw.of_outline (World.outline_writeVar v index value)
  | freeVar v => exact hw.of_outline (World.outline_freeVar v)
  | onMachine number step => exact hw.of_outline (World.outline_onMachine number step)
  | modifyContext id f => exact hw.of_outline (World.outline_modifyContext w id f)
  | enterSource source => exact hw.congr rfl rfl (List.Subset.refl _)
  | leaveSource mark => exact hw.congr rfl rfl (List.Subset.refl _)
  | changeHost f => exact hw.congr rfl rfl (List.Subset.refl _)

/-! ### Runs -/

theorem history_cons (m : Moment σ) (log : List (Moment σ)) :
    history (m :: log) = m.event?.toList ++ history log := by
  cases h : m.event? <;> simp [history, h]

theorem tracks_did {log : List (Moment σ)} {w : World σ} (hw : Tracks (history log) w)
    (a : Act σ) : Tracks (history (.did a w :: log)) (a.apply w) := by
  rw [history_cons]
  exact tracks_apply hw a

theorem tracks_invoked {log : List (Moment σ)} {w : World σ} (hw : Tracks (history log) w)
    (h : Host σ) (id : InstanceId) (name : String) (p : Params) :
    Tracks (history (.invoked h id name p w :: log))
      ((w.nativeAct? id name p).elim w (Act.apply w)) := by
  rw [history_cons]
  cases hact : w.nativeAct? id name p with
  | none => simpa [Moment.event?, hact] using hw
  | some a => simpa [Moment.event?, hact] using tracks_apply hw a

/-- The pools follow the history of every run. -/
theorem tracks_history {limits : Limits} {host : σ} {log : List (Moment σ)} {w : World σ}
    (run : Evolves (World.create limits host) log w) : Tracks (history log) w := by
  have hkept := run.keeps (fun log w => Tracks (history log) w)
    (fun _ _ _ houtline hw => hw.of_outline houtline) (fun _ _ a hw => tracks_did hw a)
    (fun _ _ h id name p hw => tracks_invoked hw h id name p) [] (tracks_create limits host)
  simpa using hkept

/-- The pools follow the history at any moment of a run, also while the host is called. -/
theorem tracks_at {limits : Limits} {host : σ} {log later earlier : List (Moment σ)}
    {m : Moment σ} {w : World σ} (run : Evolves (World.create limits host) log w)
    (hlog : log = later ++ m :: earlier) : Tracks (history earlier) m.world :=
  run.keeps_at (fun log w => Tracks (history log) w)
    (fun _ _ _ houtline hw => hw.of_outline houtline) (fun _ _ a hw => tracks_did hw a)
    (fun _ _ h id name p hw => tracks_invoked hw h id name p) (tracks_create limits host) hlog

/-- In every world that a run ends in, an id names a variable if and only if the variable was made
under it and has not been deleted, reclaimed or lost with its owner since, and it is the variable
that was made; and the same holds of handles. It holds as well of every world on the way, also of
those that the host goes through while a native has called it. What becomes of storage has no part
in this: neither the native that releases a block nor any step on a machine changes a pool. And an
instance that is unloaded takes along nothing that is another's. -/
theorem valid_iff_stands {limits : Limits} {host : σ} {log : List (Moment σ)} {w : World σ}
    (run : Evolves (World.create limits host) log w) :
    (∀ id v, w.vars.get? id = some v ↔ VarStands (history log) id v) ∧
      (∀ id k, w.handles.get? id = some k ↔ HandleStands (history log) id k) ∧
      (∀ later m earlier, log = later ++ m :: earlier →
        (∀ id v, m.world.vars.get? id = some v ↔ VarStands (history earlier) id v) ∧
          ∀ id k, m.world.handles.get? id = some k ↔ HandleStands (history earlier) id k) ∧
      (∀ h caller p, (w.runNative h caller "amx_free" p).2.vars = w.vars ∧
        (w.runNative h caller "amx_free" p).2.handles = w.handles) ∧
      (∀ number step, ((Act.onMachine number step).apply w).vars = w.vars ∧
        ((Act.onMachine number step).apply w).handles = w.handles) ∧
      ∀ gone, (∀ id v, v.owner ≠ gone →
          ((w.unload gone).2.vars.get? id = some v ↔ w.vars.get? id = some v)) ∧
        ∀ id k, k.context ≠ gone →
          ((w.unload gone).2.handles.get? id = some k ↔ w.handles.get? id = some k) := by
  have hw := tracks_history run
  refine ⟨hw.vars.get?_iff, hw.handles.get?_iff, fun later m earlier hlog => ?_,
    fun h caller p => ?_, fun number step => ?_, fun gone => ?_⟩
  · have hm := tracks_at run hlog
    exact ⟨hm.vars.get?_iff, hm.handles.get?_iff⟩
  · have hname : "amx_free" = (Native.plain .free).scriptName := rfl
    have houtline : (w.runNative h caller "amx_free" p).2.outline = w.outline := by
      rw [hname]
      exact World.outline_runNative_plain rfl
    exact ⟨congrArg World.Outline.vars houtline, congrArg World.Outline.handles houtline⟩
  · have houtline : ((Act.onMachine number step).apply w).outline = w.outline :=
      World.outline_onMachine number step
    exact ⟨congrArg World.Outline.vars houtline, congrArg World.Outline.handles houtline⟩
  · constructor
    · intro id v howner
      rw [(World.vars_reclaimedBy.unload hw.vars.wellFormed gone).2]
      exact ⟨fun h => h.1, fun h => ⟨h, fun _ _ => howner⟩⟩
    · intro id k hcontext
      rw [(World.handles_reclaimedBy.unload hw.handles.wellFormed gone).2]
      exact ⟨fun h => h.1, fun h => ⟨h, fun _ _ => hcontext⟩⟩

/-- A caller that is unloaded by the host during its call loses its variable, and the variable of
the instance that was called stands, as does a handle. Both go when they are taken back. -/
theorem var_ends_during_call :
    ∃ (log : List (Moment Unit)) (w : World Unit), Evolves (World.create {} ()) log w ∧
      (∀ v, ¬ VarStands (history log) 1 v) ∧ (∃ v, VarStands (history log) 2 v) ∧
      (∃ k, HandleStands (history log) 1 k) ∧
      ∃ (log' : List (Moment Unit)) (later : World Unit), Evolves w log' later ∧
        (∀ v, ¬ VarStands (history (log' ++ log)) 2 v) ∧
        ∀ k, ¬ HandleStands (history (log' ++ log)) 1 k := by
  let first : InstanceId := ⟨1, by decide⟩
  let second : InstanceId := ⟨2, by decide⟩
  let host : Host Unit := ⟨fun _ w => (.ok 0, (w.unload first).2), fun _ _ => (0, ())⟩
  have loaded := ((Evolves.start (World.create {} ())).act
    (.register ((Machine.ofLayout "m" 4 4).declarePublic "f"))).act (.share 0)
  have made := (((loaded.invoke host first "amx_var" [0] [] (by rfl) (by simp)).invoke host second
    "amx_var" [4] [] rfl (by simp)).act (.createHandle (.ofInstance second))).act
      (.onMachine 0 (.setCell 0 102))
  obtain ⟨log, run⟩ := made.exists_invoke host first "amx_call_public" [2, 0, 4]
    fun call _ => ⟨_, .act (.start call.2) (.unload first)⟩
  have takenBack (u : World Unit) := ((Evolves.start u).invoke host second "amx_delete" [2] []
    (by rfl) (by simp)).act (.releaseHandle 1)
  have hbefore := valid_iff_stands run
  have hafter := valid_iff_stands (run.trans (takenBack _))
  let v₂ : Var := ⟨second, 4, 1, by decide, by decide, by decide, by decide⟩
  refine ⟨_, _, run, fun v hv => ?_, ⟨v₂, ?_⟩, ⟨.ofInstance second, ?_⟩, _, _, takenBack _,
    fun v hv => ?_, fun k hk => ?_⟩
  · have hsome := Option.isSome_iff_exists.mpr ⟨v, (hbefore.1 1 v).mpr hv⟩
    exact absurd hsome (by decide +kernel)
  · exact (hbefore.1 2 _).mp (by decide +kernel)
  · exact (hbefore.2.1 1 _).mp (by decide +kernel)
  · have hsome := Option.isSome_iff_exists.mpr ⟨v, (hafter.1 2 v).mpr hv⟩
    exact absurd hsome (by decide +kernel)
  · have hsome := Option.isSome_iff_exists.mpr ⟨k, (hafter.2.1 1 k).mpr hk⟩
    exact absurd hsome (by decide +kernel)

end ScriptNatives
