import ScriptNatives.Proofs.Runs.Loading
import ScriptNatives.Proofs.Runs.Machines

/-!
# Which source the host finds

Every call that a native hands to the host names the caller as its source, and the host has to read
arguments in the source's memory. Each target is looked at anew when its turn comes, but nobody
looks at the source again. So it is live at the first call, and at a later one only if the host has
not unloaded it during those before.
-/
namespace ScriptNatives

variable {σ : Type}

namespace World

variable {h : Host σ} {c : Call} {k : HostCall} {w v found final : World σ} {id : InstanceId}
  {name : String} {p : Params} {earlier later calls : List (HostCall × World σ)}

/-! ### Calls and what the host finds -/

/-- A call is handed to the host for a live machine that declares the function. -/
theorem hostCall?_eq_some {target : InstanceId} (hk : hostCall? c target w = some k) :
    k.source = c.source ∧ k.function = c.function ∧
      ∃ m, w.machine? k.target = some m ∧ m.Declares k.function c.kind k.entry := by
  simp only [hostCall?, Option.bind_eq_bind, Option.bind_eq_some_iff, Option.pure_def,
    Option.some.injEq] at hk
  obtain ⟨m, hm, entry, hentry, rfl⟩ := hk
  exact ⟨rfl, rfl, m, hm, Machine.entry?_eq_some_iff.mp hentry⟩

/-- What is handed to the host was looked up in the world that the host finds. -/
theorem exists_hostCall?_of_mem {goesOn : Attempt → Bool} {ids : List InstanceId}
    (hmem : (k, found) ∈ hostCalls h c goesOn ids w) :
    ∃ target, hostCall? c target found = some k := by
  induction ids generalizing w with
  | nil => simp [hostCalls] at hmem
  | cons id ids ih =>
    rw [hostCalls_cons, List.mem_append] at hmem
    rcases hmem with hhead | htail
    · obtain ⟨k', hk', heq⟩ := List.mem_map.mp hhead
      obtain ⟨rfl, rfl⟩ := Prod.mk.inj heq
      exact ⟨id, Option.mem_toList.mp hk'⟩
    · split at htail
      · exact ih htail
      · cases htail

theorem readCall_eq_ok {kind : FunctionKind} {i : Nat} (hc : w.readCall id kind p i = .ok c) :
    c.source = id ∧ c.kind = kind ∧
      ∃ functionAt, p[1]? = some functionAt ∧
        w.nameAt id functionAt .function = .ok c.function := by
  obtain ⟨target, _, hc⟩ := bind_eq_ok hc
  obtain ⟨functionAt, hfunctionAt, hc⟩ := bind_eq_ok hc
  obtain ⟨function, hfunction, hc⟩ := bind_eq_ok hc
  obtain ⟨formatAt, _, hc⟩ := bind_eq_ok hc
  obtain ⟨format, _, hc⟩ := bind_eq_ok hc
  rw [← Except.ok.inj hc]
  exact ⟨rfl, rfl, functionAt, Params.need_eq_ok_iff.mp hfunctionAt, hfunction⟩

/-- A native that hands a call to the host is a call native, and has read from its parameters what
it calls. -/
theorem exists_readCall_of_mem (hmem : (k, found) ∈ w.nativeHostCalls h id name p) :
    ∃ kind i c target,
      (name = (Native.call kind).scriptName ∨ name = (Native.tryCall kind).scriptName) ∧
      w.readCall id kind p i = .ok c ∧ hostCall? c target found = some k := by
  rcases evaluate_cases h id name p w with ⟨_, _, hnone⟩ | ⟨native, rfl, _, _, hcalls⟩
  · rw [hnone] at hmem
    cases hmem
  · rw [hcalls] at hmem
    cases native with
    | plain native => cases hmem
    | call kind =>
      simp only [Native.hostCalls] at hmem
      split at hmem
      · next c hc =>
        simp only [callHostCalls] at hmem
        split at hmem
        · obtain ⟨target, hk⟩ := exists_hostCall?_of_mem hmem
          exact ⟨kind, 2, c, target, .inl rfl, hc, hk⟩
        · cases hmem
      · cases hmem
    | tryCall kind =>
      simp only [Native.hostCalls] at hmem
      split at hmem
      · next c _ hc =>
        simp only [tryCallHostCalls] at hmem
        split at hmem
        · obtain ⟨target, hk⟩ := exists_hostCall?_of_mem hmem
          exact ⟨kind, 3, c, target, .inr rfl, hc, hk⟩
        · cases hmem
      · cases hmem

/-- The calls of a native name its caller as their source, and go to live targets. -/
theorem of_mem_nativeHostCalls (hmem : (k, found) ∈ w.nativeHostCalls h id name p) :
    k.source = id ∧ found.isLive k.target = true := by
  obtain ⟨kind, i, c, target, _, hc, hk⟩ := exists_readCall_of_mem hmem
  obtain ⟨hsource, _, m, hm, _⟩ := hostCall?_eq_some hk
  obtain ⟨hid, _⟩ := readCall_eq_ok hc
  exact ⟨hsource.trans hid, isLive_of_machine? hm⟩

/-- The part of a chain before a call ends in what the host finds then. -/
theorem Chained.before (chained : Chained h w (earlier ++ (k, found) :: later) final) :
    Chained h w earlier found := by
  induction earlier generalizing w with
  | nil => exact chained.1
  | cons call earlier ih =>
    obtain ⟨rfl, hrest⟩ := chained
    exact ⟨rfl, ih hrest⟩

/-- An instance that is live when a chain begins is live at its end, or was lost during one of the
calls. -/
theorem Chained.live_or_lost (chained : Chained h w calls final) (live : w.isLive id = true) :
    final.isLive id = true ∨ ∃ call ∈ calls,
      call.2.isLive id = true ∧ (h.run call.1 call.2).2.isLive id = false := by
  induction calls generalizing w with
  | nil => exact .inl (chained ▸ live)
  | cons call calls ih =>
    obtain ⟨rfl, hrest⟩ := chained
    cases hafter : (h.run call.1 call.2).2.isLive id with
    | false => exact .inr ⟨call, List.mem_cons_self, live, hafter⟩
    | true =>
      refine (ih hrest hafter).imp_right fun ⟨lost, hmem, hlost⟩ => ?_
      exact ⟨lost, List.mem_cons_of_mem _ hmem, hlost⟩

end World

/-! ### What the host does during calls -/

variable {h : Host σ} {w u found : World σ} {id : InstanceId}

theorem registeredIds_append (log log' : List (Moment σ)) :
    registeredIds (log' ++ log) = registeredIds log ++ registeredIds log' := by
  simp [registeredIds, List.filterMap_append]

/-- An instance that was live stays so until the log tells that it was unloaded. -/
theorem Evolves.isLive_iff {limits : Limits} {host : σ} {log log' : List (Moment σ)}
    (run : Evolves (World.create limits host) log w) (run' : Evolves w log' u)
    (live : w.isLive id = true) : u.isLive id = true ↔ id ∉ unloadedIds log' := by
  rw [World.isLive_iff, run.roll.live, List.mem_filter, decide_eq_true_iff] at live
  rw [World.isLive_iff, (run.trans run').roll.live, registeredIds_append, unloadedIds_append]
  simp [live.1, live.2]

/-- What the host does during calls that are chained is one run. -/
theorem evolves_of_chained {during : List ((HostCall × World σ) × List (Moment σ))}
    (chained : World.Chained h w (during.map (·.1)) u)
    (runs : ∀ call ∈ during, Evolves call.1.2 call.2 (h.run call.1.1 call.1.2).2) :
    Evolves w (during.map (·.2)).reverse.flatten u := by
  have hrun := chained_keeps (P := fun log v => Evolves w log v) chained
    (fun call hcall before hbefore => hbefore.trans (runs call hcall)) [] (.start w)
  simpa using hrun

/-- What the host finds when a native of a live caller calls it: what it left after the calls
before. The source is the caller, and the target is live. The source is live as well, or it was
lost during one of the calls before. If what the host did during each of those is a run, then the
source is live if and only if none of their logs tells that it was unloaded. -/
theorem World.host_finds_source {name : String} {p : Params} {k : HostCall}
    {earlier later : List (HostCall × World σ)} (live : w.isLive id = true)
    (split : w.nativeHostCalls h id name p = earlier ++ (k, found) :: later) :
    k.source = id ∧ found.isLive k.target = true ∧
      found = runCalls h w (earlier.map (·.1)) ∧
      (found.isLive k.source = true ∨ ∃ call ∈ earlier,
        call.2.isLive k.source = true ∧ (h.run call.1 call.2).2.isLive k.source = false) ∧
      ∀ {limits host log} (during : List ((HostCall × World σ) × List (Moment σ))),
        Evolves (create limits host) log w → during.map (·.1) = earlier →
        (∀ call ∈ during, Evolves call.1.2 call.2 (h.run call.1.1 call.1.2).2) →
        (found.isLive k.source = true ↔ ∀ call ∈ during, k.source ∉ unloadedIds call.2) := by
  have hmem : (k, found) ∈ w.nativeHostCalls h id name p := by simp [split]
  obtain ⟨rfl, htarget⟩ := of_mem_nativeHostCalls hmem
  obtain ⟨v, hchained, _⟩ := runNative_drives h k.source name p w
  rw [split] at hchained
  have hbefore := hchained.before
  refine ⟨rfl, htarget, hbefore.final_eq, hbefore.live_or_lost live, ?_⟩
  rintro limits host log during run rfl runs
  rw [run.isLive_iff (evolves_of_chained hbefore runs) live]
  simp only [unloadedIds, List.mem_filterMap, List.mem_flatten, List.mem_reverse, List.mem_map]
  constructor
  · rintro hnone call hcall ⟨moment, hmoment, hunloaded⟩
    exact hnone ⟨moment, ⟨call.2, ⟨call, hcall, rfl⟩, hmoment⟩, hunloaded⟩
  · rintro hnone ⟨moment, ⟨_, ⟨call, hcall, rfl⟩, hmoment⟩, hunloaded⟩
    exact hnone call hcall ⟨moment, hmoment, hunloaded⟩

namespace World

/-- Three instances of a machine that has a function and the name of that function in memory. -/
def threeCallers : World (List Bool) :=
  let acts : List (Act (List Bool)) :=
    [.register (Scenario.MachineSpec.build { publics := ["f"] }), .share 0, .share 0,
      .onMachine 0 (.writeText 0 "f" none)]
  acts.foldl Act.apply (World.create {} [])

/-- A host that notes down whether the source of a call is live, and then unloads it. -/
def severingHost : Host (List Bool) where
  run k w := (.ok 0, (Act.changeHost fun _ => w.host ++ [w.isLive k.source]).apply
    ((Act.unload k.source).apply w))
  makeString _ host := (0, host)

theorem threeCallers_reachable : threeCallers.Reachable := by
  refine (reachable_create {} []).foldl fun m hm => ?_
  obtain rfl : m = Scenario.MachineSpec.build { publics := ["f"] } := by simpa using hm
  exact .built _ (by decide)

/-- The first instance calls the two others, and is unloaded while the first of them runs. The
second is called all the same. -/
theorem source_lost_after_first_call :
    let id : InstanceId := ⟨1, by decide⟩
    let k (target : InstanceId) : HostCall := ⟨id, target, "f", .exported 0, ⟨"", []⟩⟩
    let found := (severingHost.run (k ⟨2, by decide⟩) threeCallers).2
    threeCallers.isLive id = true ∧
      threeCallers.nativeHostCalls severingHost id "amx_call_public" [-2, 0, 4] =
        [(k ⟨2, by decide⟩, threeCallers), (k ⟨3, by decide⟩, found)] ∧
      found.isLive ⟨3, by decide⟩ = true ∧ found.isLive id = false := by
  intro id k found
  have live : threeCallers.isLive id = true := by rfl
  have split : threeCallers.nativeHostCalls severingHost id "amx_call_public" [-2, 0, 4] =
      [(k ⟨2, by decide⟩, threeCallers)] ++ [(k ⟨3, by decide⟩, found)] := by rfl
  obtain ⟨_, htarget, _, _, hunloaded⟩ := host_finds_source live split
  obtain ⟨limits, host, log, run, _⟩ := threeCallers_reachable
  have hsevered : Evolves threeCallers _ found :=
    .act (.act (.start threeCallers) (.unload id)) (.changeHost fun _ => [true])
  have hlive := hunloaded [((k ⟨2, by decide⟩, threeCallers), _)] run rfl
    (by simpa using hsevered)
  refine ⟨live, split, htarget, ?_⟩
  rw [← Bool.not_eq_true, hlive]
  intro hnone
  exact hnone _ List.mem_cons_self List.mem_cons_self

/-- So it is not true that the source of every call is live when the host is called: a host that
notes this down at each call may come to note that it is not. -/
theorem severed_source_is_called :
    ¬ ∀ (w : World (List Bool)) (h : Host (List Bool)) (id : InstanceId) (name : String)
      (p : Params), w.Reachable → w.isLive id = true → w.host = [] →
      (∀ k v, (h.run k v).2.host = v.host ++ [v.isLive k.source]) →
      ∀ live ∈ (w.runNative h id name p).2.host, live = true := by
  intro hclaim
  have hnoted : (threeCallers.runNative severingHost ⟨1, by decide⟩ "amx_call_public"
      [-2, 0, 4]).2.host = [true, false] := by rfl
  have hall := hclaim threeCallers severingHost ⟨1, by decide⟩ "amx_call_public" [-2, 0, 4]
    threeCallers_reachable rfl rfl fun _ _ => rfl
  rw [hnoted] at hall
  exact absurd (hall false (by simp)) (by decide)

end World

end ScriptNatives
