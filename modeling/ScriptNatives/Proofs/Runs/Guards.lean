import ScriptNatives.Proofs.Runs.Registry

/-!
# Guards of the source

Who starts a dispatch makes an instance the source of it, or none, and holds a guard as long as the
dispatch lasts. A guard knows the source before it and nothing else. As long as guards are dropped
in the opposite order to that in which they were made, this is enough: the source is always the one
that the newest guard has entered, whatever happens in between.
-/
namespace ScriptNatives

variable {σ : Type}

/-- A guard that has not been dropped: what was entered with it, and the mark that it keeps. -/
structure Guard where
  entered : Option InstanceId
  mark : World.SourceMark
  deriving DecidableEq, Repr

namespace Guard

/-- What the newest of these guards has entered; the newest comes first. -/
def newest (alive : List Guard) : Option InstanceId := alive.head?.bind entered

/-- The source is what the newest guard has entered, and the mark of every guard is the source to go
on with if it is dropped. Below all guards there is the source that was there before them. -/
def Nested (base : Option InstanceId) : List Guard → Option InstanceId → Prop
  | [], source => source = base
  | guard :: older, source => source = guard.entered ∧ Nested base older guard.mark.previous

theorem Nested.eq_newest {alive : List Guard} {source : Option InstanceId}
    (nested : Nested none alive source) : source = newest alive := by
  cases alive with
  | nil => exact nested
  | cons guard older => exact nested.1

end Guard

/-! ### Guards in a log -/

/-- The guards that are alive afterwards, if those before were `alive`. A guard is made by entering,
and dropped by leaving with its mark; only the newest one may be dropped. -/
def Moment.guards? (alive : List Guard) : Moment σ → Option (List Guard)
  | did (.enterSource source) w => some (⟨source, ⟨w.source⟩⟩ :: alive)
  | did (.leaveSource mark) _ =>
    match alive with
    | guard :: older => if guard.mark = mark then some older else none
    | [] => none
  | _ => some alive

/-- The guards that are alive after a log, newest first, if those before it were `alive`. There are
none to be told of if one of them was dropped before a newer one. -/
def guardsAfter? (alive : List Guard) : List (Moment σ) → Option (List Guard)
  | [] => some alive
  | m :: log => (guardsAfter? alive log).bind m.guards?

theorem guardsAfter?_append (alive : List Guard) (later earlier : List (Moment σ)) :
    guardsAfter? alive (later ++ earlier) =
      (guardsAfter? alive earlier).bind (guardsAfter? · later) := by
  induction later with
  | nil => simp [guardsAfter?]
  | cons m later ih =>
    rw [List.cons_append, guardsAfter?, ih, Option.bind_assoc]
    rfl

/-- Guards below those that a moment works on have no part in it. -/
theorem Moment.guards?_append {alive after : List Guard} {m : Moment σ}
    (h : m.guards? alive = some after) (below : List Guard) :
    m.guards? (alive ++ below) = some (after ++ below) := by
  unfold guards? at h ⊢
  split at h
  · obtain rfl := Option.some.inj h
    rfl
  · cases alive with
    | nil => cases h
    | cons guard older =>
      simp only [List.cons_append] at h ⊢
      split at h
      · next hmark =>
        obtain rfl := Option.some.inj h
        rw [if_pos hmark]
      · cases h
  · obtain rfl := Option.some.inj h
    rfl

theorem guardsAfter?_append_below {alive after : List Guard} {log : List (Moment σ)}
    (h : guardsAfter? alive log = some after) (below : List Guard) :
    guardsAfter? (alive ++ below) log = some (after ++ below) := by
  induction log generalizing after with
  | nil =>
    obtain rfl := Option.some.inj h
    rfl
  | cons m log ih =>
    obtain ⟨before, hbefore, hm⟩ := Option.bind_eq_some_iff.mp h
    exact Option.bind_eq_some_iff.mpr ⟨_, ih hbefore, m.guards?_append hm below⟩

/-! ### The source in a run -/

/-- The acts that have to do with the source. -/
def Act.movesSource : Act σ → Bool
  | enterSource _ | leaveSource _ => true
  | _ => false

/-- All other acts leave the source alone. -/
theorem Act.source_apply {a : Act σ} (hquiet : a.movesSource = false) (w : World σ) :
    (a.apply w).source = w.source := by
  have hsame {u : World σ} (houtline : u.outline = w.outline) : u.source = w.source :=
    congrArg World.Outline.source houtline
  cases a with
  | enterSource source | leaveSource mark => cases hquiet
  | share number =>
    simp only [apply]
    split <;> rfl
  | unload id => exact World.unload_source w id
  | createVar owner address count =>
    refine World.worldAfter_keeps (P := fun u => u.source = w.source) rfl fun out hout => ?_
    obtain ⟨_, _, _, _, _, _, hworld⟩ := World.createVar_eq_ok hout
    rw [hworld]
  | createHandle k =>
    refine World.worldAfter_keeps (P := fun u => u.source = w.source) rfl fun out hout => ?_
    obtain ⟨_, _, hworld⟩ := World.createHandle_eq_ok hout
    rw [hworld]
  | releaseVar id => rw [apply, World.releaseVar_snd]
  | releaseHandle id => rw [apply_releaseHandle]
  | writeVar v index value => exact hsame (World.outline_writeVar v index value)
  | freeVar v => exact hsame (World.outline_freeVar v)
  | onMachine number step => exact hsame (World.outline_onMachine number step)
  | modifyContext id f => exact hsame (World.outline_modifyContext w id f)
  | register | observe | reclaimVars | reclaimHandles | changeHost => rfl

/-- A native that comes down to an act does not move the source. -/
theorem World.not_movesSource_of_nativeAct? {w : World σ} {id : InstanceId} {name : String}
    {p : Params} {a : Act σ} (h : w.nativeAct? id name p = some a) : a.movesSource = false := by
  obtain ⟨native, _, hact⟩ := exists_native_of_nativeAct? h
  cases native with
  | plain native => cases LocalNative.comesDownTo hact <;> rfl
  | call kind => cases hact
  | tryCall kind => cases hact

/-- An act makes a guard, drops the newest one, or leaves guards and source alone. -/
theorem Guard.Nested.did {base : Option InstanceId} {alive after : List Guard} {w : World σ}
    (nested : Guard.Nested base alive w.source) {a : Act σ}
    (h : (Moment.did a w).guards? alive = some after) :
    Guard.Nested base after (a.apply w).source := by
  cases ha : a.movesSource with
  | false =>
    obtain rfl : alive = after := by
      cases a with
      | enterSource source | leaveSource mark => cases ha
      | _ => exact Option.some.inj h
    rwa [Act.source_apply ha]
  | true =>
    cases a with
    | enterSource source =>
      obtain rfl := Option.some.inj h
      exact ⟨rfl, nested⟩
    | leaveSource mark =>
      cases alive with
      | nil => cases h
      | cons guard older =>
        simp only [Moment.guards?] at h
        split at h
        · next hmark =>
          obtain rfl := Option.some.inj h
          obtain rfl := hmark
          exact nested.2
        · cases h
    | _ => cases ha

/-- What is known of the source after a log: it is nested in the guards that the log leaves. -/
def SourceFollows (base : Option InstanceId) (log : List (Moment σ)) (w : World σ) : Prop :=
  ∀ alive, guardsAfter? [] log = some alive → Guard.Nested base alive w.source

namespace SourceFollows

variable {base : Option InstanceId} {log : List (Moment σ)} {w u : World σ}

theorem congr (follows : SourceFollows base log w) (houtline : u.outline = w.outline) :
    SourceFollows base log u := by
  have hsource : u.source = w.source := congrArg World.Outline.source houtline
  intro alive halive
  exact hsource ▸ follows alive halive

theorem did (follows : SourceFollows base log w) (a : Act σ) :
    SourceFollows base (.did a w :: log) (a.apply w) := by
  intro after hafter
  obtain ⟨alive, halive, hm⟩ := Option.bind_eq_some_iff.mp hafter
  exact (follows alive halive).did hm

theorem invoked (follows : SourceFollows base log w) (h : Host σ) (id : InstanceId) (name : String)
    (p : Params) : SourceFollows base (.invoked h id name p w :: log)
      ((w.nativeAct? id name p).elim w (Act.apply w)) := by
  intro after hafter
  obtain ⟨alive, halive, hm⟩ := Option.bind_eq_some_iff.mp hafter
  obtain rfl := Option.some.inj hm
  cases hact : w.nativeAct? id name p with
  | none => exact follows alive halive
  | some a =>
    rw [Option.elim_some, Act.source_apply (World.not_movesSource_of_nativeAct? hact)]
    exact follows alive halive

end SourceFollows

/-- The world in which the first of these moments began, if the last one led to `w`. -/
def World.foundBy (w : World σ) (later : List (Moment σ)) : World σ :=
  (later.getLast?.map Moment.world).getD w

/-- The source follows the guards in every state on the way. -/
theorem Evolves.sourceFollows {w u : World σ} {log later earlier : List (Moment σ)}
    (run : Evolves w log u) (hlog : log = later ++ earlier) :
    SourceFollows w.source earlier (u.foundBy later) := by
  have start : SourceFollows w.source [] w := fun alive halive => Option.some.inj halive ▸ rfl
  rcases List.eq_nil_or_concat later with rfl | ⟨newer, m, hlater⟩
  · obtain rfl : log = earlier := hlog
    have hend := run.keeps (SourceFollows w.source) (fun _ _ _ hsame hw => hw.congr hsame)
      (fun _ _ a hw => hw.did a) (fun _ _ h id name p hw => hw.invoked h id name p) [] start
    rwa [List.append_nil] at hend
  · obtain rfl : later = newer ++ [m] := hlater.trans List.concat_eq_append
    have hfound := run.keeps_at (SourceFollows w.source) (fun _ _ _ hsame hw => hw.congr hsame)
      (fun _ _ a hw => hw.did a) (fun _ _ h id name p hw => hw.invoked h id name p) start
      (by rw [hlog, List.append_assoc, List.singleton_append])
    simpa [World.foundBy] using hfound

/-- The native that returns the source to a script. -/
theorem World.runNative_source {w : World σ} {id : InstanceId} (live : w.isLive id = true)
    (h : Host σ) (p : Params) :
    w.runNative h id "amx_source" p = (.ok ((w.source.map InstanceId.toCell).getD 0), w) :=
  runNative_of_returns .source (Nat.zero_le _) rfl live

/-- In a run in which guards are well nested they are so at every point of it, and the source is
always what the newest guard alive has entered, or none if there is no guard. This is what scripts
are told. A stretch of the run in which guards are balanced ends with the source with which it
began, also if it begins or ends in the middle of a native. -/
theorem Evolves.source_is_newest {limits : Limits} {host : σ} {log : List (Moment σ)} {w : World σ}
    {guards : List Guard} (run : Evolves (World.create limits host) log w)
    (wellNested : guardsAfter? [] log = some guards) :
    (∀ later earlier, log = later ++ earlier → ∃ alive, guardsAfter? [] earlier = some alive ∧
        (w.foundBy later).source = Guard.newest alive ∧
        ∀ h id p, (w.foundBy later).isLive id = true →
          (w.foundBy later).runNative h id "amx_source" p =
            (.ok (((Guard.newest alive).map InstanceId.toCell).getD 0), w.foundBy later)) ∧
      ∀ later between earlier, log = later ++ (between ++ earlier) →
        guardsAfter? [] between = some [] →
        (w.foundBy later).source = (w.foundBy (later ++ between)).source := by
  have hnewest (later earlier) (hlog : log = later ++ earlier) :
      ∃ alive, guardsAfter? [] earlier = some alive ∧
        (w.foundBy later).source = Guard.newest alive := by
    rw [hlog, guardsAfter?_append] at wellNested
    obtain ⟨alive, halive, _⟩ := Option.bind_eq_some_iff.mp wellNested
    exact ⟨alive, halive, (run.sourceFollows hlog alive halive).eq_newest⟩
  refine ⟨fun later earlier hlog => ?_, fun later between earlier hlog hbalanced => ?_⟩
  · obtain ⟨alive, halive, hsource⟩ := hnewest _ _ hlog
    refine ⟨alive, halive, hsource, fun h id p live => ?_⟩
    rw [World.runNative_source live, hsource]
  · obtain ⟨before, hbefore, hsource⟩ :=
      hnewest (later ++ between) earlier (by rw [hlog, List.append_assoc])
    obtain ⟨after, hafter, hsource'⟩ := hnewest _ _ hlog
    -- the stretch leaves the guards alone that are there when it begins
    have hsame : guardsAfter? [] (between ++ earlier) = some before := by
      rw [guardsAfter?_append, hbefore]
      exact guardsAfter?_append_below hbalanced before
    obtain rfl := Option.some.inj (hafter.symm.trans hsame)
    rw [hsource, hsource']

/-- Two instances of a machine that has a function and the name of that function in memory. A
dispatch was started for the first, and in it one that has no source. -/
def startedTwice : World Unit :=
  let acts : List (Act Unit) :=
    [.register (Scenario.MachineSpec.build { publics := ["f"] }), .share 0,
      .onMachine 0 (.writeText 0 "f" none), .enterSource (some ⟨1, Nat.one_pos⟩), .enterSource none]
  acts.foldl Act.apply (World.create {} ())

/-- A host that makes the target of a call the source while it runs. -/
def startingHost : Host Unit where
  run k w := (.ok 0, (Act.leaveSource ⟨w.source⟩).apply ((Act.enterSource (some k.target)).apply w))
  makeString _ host := (0, host)

/-- The second instance is called where there is no source. While it runs it is the source itself,
and when the inner dispatch is over the source is the first one again. -/
theorem source_across_host_call :
    let one : InstanceId := ⟨1, by decide⟩
    let two : InstanceId := ⟨2, by decide⟩
    let called := (startedTwice.runNative startingHost one "amx_call_public" [2, 0, 4]).2
    let w := (Act.leaveSource ⟨some one⟩).apply called
    ∃ log, Evolves (World.create {} ()) log w ∧ guardsAfter? [] log = some [⟨some one, ⟨none⟩⟩] ∧
      w.runNative startingHost two "amx_source" [] = (.ok 1, w) ∧
      ∃ later v earlier, log = later ++ .did (.leaveSource ⟨none⟩) v :: earlier ∧
        v.source = some two := by
  intro one two called w
  have started : Evolves (World.create {} ()) _ startedTwice := (((((Evolves.start _).act
    (.register (Scenario.MachineSpec.build { publics := ["f"] }))).act (.share 0)).act
    (.onMachine 0 (.writeText 0 "f" none))).act (.enterSource (some one))).act (.enterSource none)
  let k : HostCall := ⟨one, two, "f", .exported 0, ⟨"", []⟩⟩
  have hcalls : startedTwice.nativeHostCalls startingHost one "amx_call_public" [2, 0, 4] =
    [(k, startedTwice)] := by rfl
  have during : Evolves startedTwice _ (startingHost.run k startedTwice).2 :=
    ((Evolves.start _).act (.enterSource (some two))).act (.leaveSource ⟨none⟩)
  have run : Evolves (World.create {} ()) _ w :=
    (started.invoke startingHost one "amx_call_public" [2, 0, 4] [((k, startedTwice), _)]
      hcalls.symm (by simpa using during)).act (.leaveSource ⟨some one⟩)
  obtain ⟨hpoints, _⟩ := run.source_is_newest (show _ = some [⟨some one, ⟨none⟩⟩] by rfl)
  obtain ⟨alive, halive, _, hreturns⟩ := hpoints [] _ rfl
  obtain rfl : alive = [⟨some one, ⟨none⟩⟩] := Option.some.inj (halive.symm.trans rfl)
  obtain ⟨inner, hinner, hsource, _⟩ := hpoints [_, _] _ rfl
  obtain rfl : inner = [⟨some two, ⟨none⟩⟩, ⟨none, ⟨some one⟩⟩, ⟨some one, ⟨none⟩⟩] :=
    Option.some.inj (hinner.symm.trans rfl)
  exact ⟨_, run, halive, hreturns startingHost two [] (by rfl), [_], _, _, rfl, hsource⟩

end ScriptNatives
