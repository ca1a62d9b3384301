import ScriptNatives.Proofs.Calls.Walk
import ScriptNatives.Proofs.Runs.Plain

/-!
# Runs of a world

A run mixes acts and natives in any order. A native may call the host, and the host acts on the
world as any program does: what it does during a call is a run by itself, natives and further
calls included. Each native may be run with a host of its own.

A run is logged, newest entry first. The log of what happened during a native stands before the
entry of that native, since it came later.
-/
namespace ScriptNatives

variable {σ : Type}

/-! ### Natives that call the host -/

/-- The calls that a native hands to the host, each with the world that the host finds. -/
def Native.hostCalls (h : Host σ) (id : InstanceId) (p : Params) (w : World σ) :
    Native → List (HostCall × World σ)
  | call kind =>
    match w.readCall id kind p 2 with
    | .ok c => World.callHostCalls h c w
    | .error _ => []
  | tryCall kind =>
    match p.need 2, w.readCall id kind p 3 with
    | .ok _, .ok c => World.tryCallHostCalls h c w
    | _, _ => []
  | plain _ => []

namespace World

variable {h : Host σ} {id : InstanceId} {name : String} {p : Params} {w : World σ}

def nativeHostCalls (w : World σ) (h : Host σ) (id : InstanceId) (name : String) (p : Params) :
    List (HostCall × World σ) :=
  match Native.find? name with
  | some native => if p.length < native.minParams then [] else native.hostCalls h id p w
  | none => []

theorem performCall_chained (kind : FunctionKind) :
    Chained h w ((Native.call kind).hostCalls h id p w) (w.performCall h id kind p).2 := by
  cases hc : w.readCall id kind p 2 with
  | error fault => simp [performCall, Native.hostCalls, hc, Chained]
  | ok c => simpa [performCall, Native.hostCalls, hc] using chained_call h c w

/-- A guarded call leaves the world as the host does, but for one cell that it may store. -/
theorem performTryCall_chained (kind : FunctionKind) :
    ∃ v, Chained h w ((Native.tryCall kind).hostCalls h id p w) v ∧
      ((w.performTryCall h id kind p).2 = v ∨ ∃ dest value out,
        v.store id dest [value] = .ok out ∧ (w.performTryCall h id kind p).2 = out.2) := by
  cases hdest : p.need 2 with
  | error fault =>
    exact ⟨w, by simp [Native.hostCalls, hdest, Chained], .inl (by simp [performTryCall, hdest])⟩
  | ok dest =>
    cases hc : w.readCall id kind p 3 with
    | error fault =>
      exact ⟨w, by simp [Native.hostCalls, hdest, hc, Chained],
        .inl (by simp [performTryCall, hdest, hc])⟩
    | ok c =>
      refine ⟨(tryCall h c w).2, ?_, ?_⟩
      · simpa [Native.hostCalls, hdest, hc] using chained_tryCall h c w
      · simp only [performTryCall, hdest, hc]
        cases hout : (tryCall h c w).1.result with
        | none => exact .inl rfl
        | some value =>
          cases hstore : (tryCall h c w).2.store id dest [value] with
          | error fault => exact .inl (by simp [hstore])
          | ok out => exact .inr ⟨dest, value, out, hstore, by simp [hstore]⟩

/-- A native that is run by name either fails at once or performs. -/
theorem evaluate_cases (h : Host σ) (id : InstanceId) (name : String) (p : Params) (w : World σ) :
    ((w.evaluate h id name p).2 = w ∧ w.nativeAct? id name p = none ∧
        w.nativeHostCalls h id name p = []) ∨
      ∃ native : Native, native.scriptName = name ∧
        w.evaluate h id name p = native.perform h id p w ∧
        w.nativeAct? id name p = native.act? w id p ∧
        w.nativeHostCalls h id name p = native.hostCalls h id p w := by
  cases hn : Native.find? name with
  | none =>
    exact .inl ⟨by simp [evaluate, hn], by simp [nativeAct?, hn], by simp [nativeHostCalls, hn]⟩
  | some native =>
    by_cases hp : p.length < native.minParams
    · exact .inl ⟨by simp [evaluate, hn, hp], by simp [nativeAct?, hn, hp],
        by simp [nativeHostCalls, hn, hp]⟩
    · have hscript : native.scriptName = name := by simpa using List.find?_some hn
      exact .inr ⟨native, hscript, by simp [evaluate, hn, hp], by simp [nativeAct?, hn, hp],
        by simp [nativeHostCalls, hn, hp]⟩

/-- A native that comes down to an act hands nothing to the host and leaves the world in outline as
that act does. Any other leaves it in outline as the host does. -/
theorem outline_runNative (h : Host σ) (id : InstanceId) (name : String) (p : Params)
    (w : World σ) :
    (∃ a, w.nativeAct? id name p = some a ∧ w.nativeHostCalls h id name p = [] ∧
        (w.runNative h id name p).2.outline = (a.apply w).outline) ∨
      ∃ v, w.nativeAct? id name p = none ∧ Chained h w (w.nativeHostCalls h id name p) v ∧
        (w.runNative h id name p).2.outline = v.outline := by
  simp only [runNative, outline_settle]
  rcases evaluate_cases h id name p w with
    ⟨hworld, hact, hcalls⟩ | ⟨native, _, hrun, hact, hcalls⟩
  · rw [hworld, hact, hcalls]
    exact .inr ⟨w, rfl, rfl, rfl⟩
  · rw [hrun, hact, hcalls]
    cases native with
    | plain native =>
      rw [outline_perform_plain native]
      cases hplain : native.act? w id p with
      | none => exact .inr ⟨w, hplain, rfl, rfl⟩
      | some a => exact .inl ⟨a, hplain, rfl, rfl⟩
    | call kind => exact .inr ⟨_, rfl, performCall_chained kind, rfl⟩
    | tryCall kind =>
      obtain ⟨v, hchained, hworld⟩ := performTryCall_chained kind
      refine .inr ⟨v, rfl, hchained, ?_⟩
      rcases hworld with hworld | ⟨dest, value, out, hstore, hworld⟩
      · exact congrArg outline hworld
      · exact (congrArg outline hworld).trans (store_keeps out hstore)

/-- A plain native that does not work through the pools leaves the outline alone. -/
theorem outline_runNative_plain {native : LocalNative} (hn : native.usesPools = false) :
    (w.runNative h id (Native.plain native).scriptName p).2.outline = w.outline := by
  have hact : (Native.plain native).act? w id p = none := act?_of_not_usesPools hn
  rcases outline_runNative h id (Native.plain native).scriptName p w with
    ⟨a, hsome, _, _⟩ | ⟨v, _, hchained, houtline⟩
  · simp [nativeAct?, Native.find?_scriptName, hact] at hsome
  · obtain rfl : v = w := by
      simpa [nativeHostCalls, Native.find?_scriptName, Native.hostCalls, Chained] using hchained
    exact houtline

/-- What the plain natives of a name leave alone when they perform, a native of that name leaves
alone as well, but for what the host does. -/
theorem Steady.runNative_of_plain {β : Type} {view : World σ → β} (hview : Steady view)
    (hplain : ∀ (native : LocalNative) (out : Outcome σ Ending), native.scriptName = name →
      w.performPlain h id p native = .ok out → view out.2 = view w) :
    ∃ v, Chained h w (w.nativeHostCalls h id name p) v ∧
      view (w.runNative h id name p).2 = view v := by
  simp only [World.runNative, hview.settle]
  rcases evaluate_cases h id name p w with ⟨hworld, _, hcalls⟩ | ⟨native, hname, hrun, _, hcalls⟩
  · exact ⟨w, by simp [hcalls, Chained], by rw [hworld]⟩
  · rw [hcalls, hrun]
    cases native with
    | plain native =>
      refine ⟨w, rfl, ?_⟩
      rw [perform_plain]
      exact worldAfter_keeps (P := fun u => view u = view w) rfl fun out => hplain native out hname
    | call kind => exact ⟨_, performCall_chained kind, rfl⟩
    | tryCall kind =>
      obtain ⟨v, hchained, hworld⟩ := @performTryCall_chained _ h id p w kind
      refine ⟨v, hchained, ?_⟩
      rcases hworld with hworld | ⟨dest, value, out, hstore, hworld⟩ <;>
        rw [Native.perform, hworld]
      exact hview.store hstore

/-- A native leaves alone as well what natives leave alone, but for what the host does. -/
theorem Aloof.runNative {β : Type} {view : World σ → β} (hview : Aloof view) (h : Host σ)
    (id : InstanceId) (name : String) (p : Params) (w : World σ) :
    ∃ v, Chained h w (w.nativeHostCalls h id name p) v ∧
      view (w.runNative h id name p).2 = view v :=
  hview.steady.runNative_of_plain fun native out _ hout =>
    hview.effect (performPlain_effect native out hout)

end World

/-! ### Runs -/

/-- An entry of a log: what was done, and the world in which it began. -/
inductive Moment (σ : Type) where
  | did (a : Act σ) (w : World σ)
  | invoked (h : Host σ) (id : InstanceId) (name : String) (p : Params) (w : World σ)

/-- The world in which something began. -/
def Moment.world : Moment σ → World σ
  | did _ w | invoked _ _ _ _ w => w

/-- A run from one world to another, with its log. A native comes with the logs of what the host
did during each of its calls. -/
inductive Evolves : World σ → List (Moment σ) → World σ → Prop where
  | start (w : World σ) : Evolves w [] w
  | act {w u : World σ} {log : List (Moment σ)} (run : Evolves w log u) (a : Act σ) :
      Evolves w (.did a u :: log) (a.apply u)
  | invoke {w u : World σ} {log : List (Moment σ)} (run : Evolves w log u) (h : Host σ)
      (id : InstanceId) (name : String) (p : Params)
      (calls : List ((HostCall × World σ) × List (Moment σ)))
      (called : calls.map (·.1) = u.nativeHostCalls h id name p)
      (during : ∀ call ∈ calls, Evolves call.1.2 call.2 (h.run call.1.1 call.1.2).2) :
      Evolves w ((calls.map (·.2)).reverse.flatten ++ .invoked h id name p u :: log)
        (u.runNative h id name p).2

theorem Evolves.trans {w u v : World σ} {log log' : List (Moment σ)} (first : Evolves w log u)
    (second : Evolves u log' v) : Evolves w (log' ++ log) v := by
  induction second with
  | start u => exact first
  | act _ a ih => exact .act (ih first) a
  | invoke _ h id name p calls called during ih _ =>
    rw [List.append_assoc, List.cons_append]
    exact .invoke (ih first) h id name p calls called during

/-- A native goes on a run as soon as all that the host does when it is called are runs. -/
theorem Evolves.exists_invoke {w u : World σ} {log : List (Moment σ)} (run : Evolves w log u)
    (h : Host σ) (id : InstanceId) (name : String) (p : Params)
    (during : ∀ call ∈ u.nativeHostCalls h id name p,
      ∃ log', Evolves call.2 log' (h.run call.1 call.2).2) :
    ∃ log', Evolves w (log' ++ .invoked h id name p u :: log) (u.runNative h id name p).2 := by
  let calls := (u.nativeHostCalls h id name p).attach.map fun call =>
    (call.1, Classical.choose (during call.1 call.2))
  have called : calls.map (·.1) = u.nativeHostCalls h id name p := by
    rw [List.map_map]
    exact List.attach_map_subtype_val _
  refine ⟨_, .invoke run h id name p calls called fun call hcall => ?_⟩
  obtain ⟨found, _, rfl⟩ := List.mem_map.mp hcall
  exact Classical.choose_spec (during found.1 found.2)

/-- What each piece of a chain of calls keeps, the chain keeps. -/
theorem chained_keeps {P : List (Moment σ) → World σ → Prop} {h : Host σ}
    {calls : List ((HostCall × World σ) × List (Moment σ))} {w v : World σ}
    (chained : World.Chained h w (calls.map (·.1)) v)
    (during : ∀ call ∈ calls, ∀ before, P before call.1.2 →
      P (call.2 ++ before) (h.run call.1.1 call.1.2).2)
    (before : List (Moment σ)) (hw : P before w) :
    P ((calls.map (·.2)).reverse.flatten ++ before) v := by
  induction calls generalizing w before with
  | nil =>
    obtain rfl : v = w := chained
    exact hw
  | cons call calls ih =>
    obtain ⟨rfl, hrest⟩ := chained
    have hcall := during call List.mem_cons_self before hw
    have hafter := ih hrest (fun c hc => during c (List.mem_cons_of_mem _ hc)) _ hcall
    simpa using hafter

/-- Induction along a run. Of a native it is told what it does before the first of its host calls
and what it does after the last one. -/
theorem Evolves.keeps_around (P : List (Moment σ) → World σ → Prop)
    (act : ∀ log w a, P log w → P (.did a w :: log) (a.apply w))
    (native : ∀ log w h id name p, P log w → ∃ u v,
      World.Chained h u (w.nativeHostCalls h id name p) v ∧ P (.invoked h id name p w :: log) u ∧
        ∀ log, P log v → P log (w.runNative h id name p).2)
    {w u : World σ} {log : List (Moment σ)} (run : Evolves w log u) (before : List (Moment σ))
    (hw : P before w) : P (log ++ before) u := by
  induction run generalizing before with
  | start w => exact hw
  | act _ a ih => exact act _ _ a (ih before hw)
  | @invoke w u log _ h id name p calls called _ ih ihduring =>
    obtain ⟨u', v, hchained, hbegin, hend⟩ := native _ _ h id name p (ih before hw)
    rw [← called] at hchained
    rw [List.append_assoc, List.cons_append]
    exact hend _ (chained_keeps hchained ihduring _ hbegin)

/-- Induction along a run. A native begins in the world in which it is run, and comes to its end
after the last of its host calls. -/
theorem Evolves.keeps_through (P : List (Moment σ) → World σ → Prop)
    (act : ∀ log w a, P log w → P (.did a w :: log) (a.apply w))
    (begins : ∀ log w h id name p, P log w → P (.invoked h id name p w :: log) w)
    (ends : ∀ w h id name p, ∃ v, World.Chained h w (w.nativeHostCalls h id name p) v ∧
      ∀ log, P log v → P log (w.runNative h id name p).2)
    {w u : World σ} {log : List (Moment σ)} (run : Evolves w log u) (before : List (Moment σ))
    (hw : P before w) : P (log ++ before) u := by
  refine run.keeps_around P act (fun log w h id name p hlog => ?_) before hw
  obtain ⟨v, hchained, hend⟩ := ends w h id name p
  exact ⟨w, v, hchained, begins log w h id name p hlog, hend⟩

/-- Induction along a run, for what only the outline of a world matters to: it is enough to look at
single acts, whether carried out directly or by a native. -/
theorem Evolves.keeps (P : List (Moment σ) → World σ → Prop)
    (congr : ∀ log w u, u.outline = w.outline → P log w → P log u)
    (act : ∀ log w a, P log w → P (.did a w :: log) (a.apply w))
    (native : ∀ log w h id name p, P log w →
      P (.invoked h id name p w :: log) ((w.nativeAct? id name p).elim w (Act.apply w)))
    {w u : World σ} {log : List (Moment σ)} (run : Evolves w log u) (before : List (Moment σ))
    (hw : P before w) : P (log ++ before) u := by
  refine run.keeps_around P act (fun log w h id name p hlog => ?_) before hw
  have hu := native log w h id name p hlog
  rcases World.outline_runNative h id name p w with
    ⟨a, hact, hcalls, houtline⟩ | ⟨v, hact, hchained, houtline⟩
  · rw [hact] at hu
    exact ⟨_, _, by simp [hcalls, World.Chained], hu, fun log => congr log _ _ houtline⟩
  · rw [hact] at hu
    exact ⟨w, v, hchained, hu, fun log => congr log _ _ houtline⟩

theorem Moment.begins_of_cons {P : List (Moment σ) → World σ → Prop} {first m : Moment σ}
    {log later earlier : List (Moment σ)} (hfirst : P log first.world)
    (hlog : ∀ later, log = later ++ m :: earlier → P earlier m.world)
    (heq : first :: log = later ++ m :: earlier) : P earlier m.world := by
  cases later with
  | nil =>
    obtain ⟨rfl, rfl⟩ := List.cons.inj heq
    exact hfirst
  | cons _ later => exact hlog later (List.cons.inj heq).2

/-- What runs keep in this way holds whenever something begins, too, also of what the host does in
the middle of a native. -/
theorem Evolves.keeps_at (P : List (Moment σ) → World σ → Prop)
    (congr : ∀ log w u, u.outline = w.outline → P log w → P log u)
    (act : ∀ log w a, P log w → P (.did a w :: log) (a.apply w))
    (native : ∀ log w h id name p, P log w →
      P (.invoked h id name p w :: log) ((w.nativeAct? id name p).elim w (Act.apply w)))
    {w u : World σ} {log later earlier : List (Moment σ)} {m : Moment σ} (run : Evolves w log u)
    (hw : P [] w) (hlog : log = later ++ m :: earlier) : P earlier m.world := by
  have hkept := run.keeps
    (fun log w => P log w ∧ ∀ later m earlier, log = later ++ m :: earlier → P earlier m.world)
    ?congr ?act ?native [] ⟨hw, by simp⟩
  · exact hkept.2 later m earlier (by rw [List.append_nil, hlog])
  case congr => exact fun log w u houtline hP => ⟨congr log w u houtline hP.1, hP.2⟩
  case act =>
    rintro log w b ⟨hw, hlog⟩
    exact ⟨act log w b hw, fun later m earlier => Moment.begins_of_cons hw (hlog · m earlier)⟩
  case native =>
    rintro log w h id name p ⟨hw, hlog⟩
    exact ⟨native log w h id name p hw,
      fun later m earlier => Moment.begins_of_cons hw (hlog · m earlier)⟩

end ScriptNatives
