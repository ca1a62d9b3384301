import ScriptNatives.Proofs.Calls.Tour
import ScriptNatives.Proofs.Machine.Moves
import ScriptNatives.Proofs.Runs.Sources

/-!
# What a guarded call does for its caller

A guarded call native reads what it calls, goes to every target, and stores the value of the last
one that returned. Nothing that happens in a target is fatal to it. The host may have done anything
to the caller in the meantime, so the caller and the cell for the value are looked up at the end:
without the caller there is nobody to tell, and without the cell the value is lost.
-/
namespace ScriptNatives

variable {σ : Type}

namespace Machine

variable {m m' : Machine} {address : Int} {value : Cell}

theorem setCell?_eq_none_iff : m.setCell? address value = none ↔ ¬ m.Live address := by
  rw [← Option.not_isSome_iff_eq_none, isSome_setCell?, Live]

/-- One value is stored as a write to its cell. -/
theorem store?_singleton (m : Machine) (address : Int) (value : Cell) :
    m.store? address [value] = (m.setCell? address value).map (none, ·) := by
  cases hset : m.setCell? address value with
  | none =>
    have hdead : m.region? address 1 = none := by
      rw [← Option.not_isSome_iff_eq_none]
      exact setCell?_eq_none_iff.mp hset
    simp [store?, hdead]
  | some m' =>
    have hlive : (m.region? address 1).isSome = true := by
      rw [← isSome_setCell? m address value, hset, Option.isSome_some]
    obtain ⟨r, hr⟩ := Option.isSome_iff_exists.mp hlive
    simp [store?, hr, setCells, hset]

end Machine

namespace World

variable {w final : World σ} {h : Host σ} {id : InstanceId} {p : Params} {m : Machine} {c : Call}
  {kind : FunctionKind} {target functionAt dest formatAt : Cell} {values : List Cell}
  {function format : String} {out : CallSummary}

/-- What a call native asks for if the texts can be read that its parameters point to. -/
theorem readCall_of_texts (hm : w.machine? id = some m)
    (hfunction : m.readText? functionAt.toInt w.limits.maxNameLength = some function)
    (hnonempty : function ≠ "")
    (hformat : m.readText? formatAt.toInt w.limits.maxNameLength = some format) :
    w.readCall id kind (target :: functionAt :: dest :: formatAt :: values) 3 =
      .ok ⟨id, .ofCell target, function, kind, ⟨format, values⟩⟩ := by
  have hname : w.nameAt id functionAt .function = .ok function :=
    nameAt_eq_ok_iff.mpr ⟨textAt_eq_ok_iff.mpr ⟨m, hm, hfunction⟩, hnonempty⟩
  have htext : w.textAt id formatAt = .ok format := textAt_eq_ok_iff.mpr ⟨m, hm, hformat⟩
  simp [readCall, Params.need, hname, htext]

/-- How a guarded call ends for its caller, by its report and the world that the host has left. -/
inductive Reported (id : InstanceId) (dest : Cell) (out : CallSummary) (final : World σ) :
    Except Fault Cell × World σ → Prop where
  /-- The caller is not live any more. -/
  | lost (dead : final.isLive id = false) :
      Reported id dest out final (.error (deadInstance id), final)
  /-- No target has returned, so there is no value. -/
  | valueless {m : Machine} (live : final.machine? id = some m) (result : out.result = none) :
      Reported id dest out final (.ok out.status.code, final)
  | stored {m m' : Machine} {value : Cell} (live : final.machine? id = some m)
      (result : out.result = some value) (written : m.setCell? dest.toInt value = some m') :
      Reported id dest out final (.ok out.status.code, final.putMachine id m')
  /-- There is no cell for the value. -/
  | homeless {m : Machine} {value : Cell} (live : final.machine? id = some m)
      (result : out.result = some value) (dead : ¬ m.Live dest.toInt) :
      Reported id dest out final
        (.error (.badAddress dest.toInt), final.putMachine id (m.raise .native))

/-- The end of a guarded call, after the host has run. -/
theorem reported_performTryCall (hdest : p.need 2 = .ok dest)
    (hc : w.readCall id kind p 3 = .ok c) :
    let done := w.performTryCall h id kind p
    Reported id dest (tryCall h c w).1 (tryCall h c w).2 (done.2.settle id done.1) := by
  simp only [performTryCall, hdest, hc]
  generalize tryCall h c w = called
  obtain ⟨out, final⟩ := called
  -- the caller is looked up for the store and again to be told, and nothing happens in between
  cases hm : final.machine? id with
  | none =>
    have dead := machine?_eq_none_iff.mp hm
    cases hresult : out.result with
    | none => simpa [settle, hm] using Reported.lost dead
    | some value => simpa [store, machine, settle, hm] using Reported.lost dead
  | some m =>
    cases hresult : out.result with
    | none =>
      simpa [settle, hm, Ending.carryOut, putMachine_self hm] using Reported.valueless hm hresult
    | some value =>
      cases hset : m.setCell? dest.toInt value with
      | none =>
        have dead := Machine.setCell?_eq_none_iff.mp hset
        simpa [store, machine, settle, hm, Machine.store?_singleton, hset] using
          Reported.homeless hm hresult dead
      | some m' =>
        have hput := machine?_putMachine hm m'
        simpa [store, machine, settle, hm, Machine.store?_singleton, hset, hput, Except.map,
          Ending.carryOut, putMachine_putMachine] using Reported.stored hm hresult hset

/-- A guarded call fails if and only if its caller is lost or its value has no cell. -/
theorem Reported.error_iff {run : Except Fault Cell × World σ}
    (reported : Reported id dest out final run) :
    (∃ fault, run.1 = .error fault) ↔ final.isLive id = false ∨
      out.result ≠ none ∧ ∃ m, final.machine? id = some m ∧ ¬ m.Live dest.toInt := by
  have hlive {m : Machine} (hm : final.machine? id = some m) : final.isLive id ≠ false := by
    simp [isLive_of_machine? hm]
  cases reported with
  | lost dead => exact ⟨fun _ => .inl dead, fun _ => ⟨_, rfl⟩⟩
  | valueless live result =>
    refine ⟨nofun, fun hfails => ?_⟩
    rcases hfails with dead | ⟨hvalue, _⟩
    · exact absurd dead (hlive live)
    · exact absurd result hvalue
  | stored live result written =>
    refine ⟨nofun, fun hfails => ?_⟩
    rcases hfails with dead | ⟨_, m, hm, dead⟩
    · exact absurd dead (hlive live)
    · obtain rfl := Option.some.inj (live.symm.trans hm)
      rw [Machine.setCell?_eq_none_iff.mpr dead] at written
      cases written
  | homeless live result dead =>
    exact ⟨fun _ => .inr ⟨by simp [result], _, live, dead⟩, fun _ => ⟨_, rfl⟩⟩

/-- What a guarded call that does not fail has made of its caller's machine. What is said of single
cells is said of well-formed machines, and no others can be had. -/
structure Delivered (dest : Cell) (result : Option Cell) (before after : Machine) : Prop where
  untouched : result = none → after = before
  blank_eq : after.blank = before.blank
  agrees : before.WellFormed → before.AgreesOutside (· = dest.toInt) after
  cell?_eq : before.WellFormed → ∀ value, result = some value → ∀ a,
    after.cell? a = if a = dest.toInt then some value else before.cell? a

/-- A guarded call that does not fail returns its status, and delivers its value to its caller. -/
theorem Reported.of_ok {run : Except Fault Cell × World σ}
    (reported : Reported id dest out final run) {v : Cell} (hrun : run.1 = .ok v) :
    v = out.status.code ∧ ∃ before after, final.machine? id = some before ∧
      run.2 = final.putMachine id after ∧ Delivered dest out.result before after := by
  cases reported with
  | lost | homeless => cases hrun
  | @valueless m live result =>
    refine ⟨(Except.ok.inj hrun).symm, m, m, live, (putMachine_self live).symm, ?_⟩
    exact ⟨fun _ => rfl, rfl, fun _ => .refl m, fun _ value hvalue => by simp [result] at hvalue⟩
  | @stored m m' value live result written =>
    refine ⟨(Except.ok.inj hrun).symm, m, m', live, rfl, ?_⟩
    refine ⟨fun hnone => by simp [result] at hnone, Machine.blank_setCell? written,
      fun hwf => hwf.agreesOutside_setCell? written, fun hwf value' hvalue a => ?_⟩
    obtain rfl := Option.some.inj (result.symm.trans hvalue)
    exact hwf.cell?_setCell? written a

/-- A guarded call native is exact, whatever the host does. It goes on its tour, and no failure of a
target is fatal: it fails only if its caller is no longer live at the end, or if there is a
value and no live cell for it. Otherwise it returns the status of its report, and the memory of the
caller is as the host has left it, but for the cell that holds the value, if there is one. -/
theorem guardedCall_reports (hm : w.machine? id = some m)
    (hfunction : m.readText? functionAt.toInt w.limits.maxNameLength = some function)
    (hnonempty : function ≠ "")
    (hformat : m.readText? formatAt.toInt w.limits.maxNameLength = some format)
    (h : Host σ) (kind : FunctionKind) (target dest : Cell) (values : List Cell) :
    let c : Call := ⟨id, .ofCell target, function, kind, ⟨format, values⟩⟩
    let run := w.runNative h id (Native.tryCall kind).scriptName
      (target :: functionAt :: dest :: formatAt :: values)
    ∃ visits out final, Toured h c w visits out final ∧
      final = runCalls h w (visits.filterMap (·.call)) ∧
      ((∃ fault, run.1 = .error fault) ↔ final.isLive id = false ∨
        out.result ≠ none ∧ ∃ m, final.machine? id = some m ∧ ¬ m.Live dest.toInt) ∧
      ∀ v, run.1 = .ok v → v = out.status.code ∧ ∃ before after,
        final.machine? id = some before ∧ run.2 = final.putMachine id after ∧
        Delivered dest out.result before after := by
  intro c run
  obtain ⟨visits, toured⟩ := exists_toured h c w
  have hc : w.readCall id kind (target :: functionAt :: dest :: formatAt :: values) 3 = .ok c :=
    readCall_of_texts hm hfunction hnonempty hformat
  have hreported : Reported id dest (tryCall h c w).1 (tryCall h c w).2 run := by
    rw [show run = _ from runNative_perform h id _ w (.tryCall kind) (by simp [Native.minParams])]
    exact reported_performTryCall rfl hc
  exact ⟨visits, _, _, toured, toured.final_eq, hreported.error_iff,
    fun v hv => hreported.of_ok hv⟩

/-- A call to everyone returns 7 in the first target and fails in the others. The value is stored
all the same, and the status is that of the last target. Where no cell is there for the value,
the call fails. -/
theorem guardedCall_after_failures :
    let id : InstanceId := ⟨1, by decide⟩
    let h : Host (List Bool) :=
      ⟨fun k w => (if k.target = id then .ok 7 else .error ⟨5⟩, w), fun _ host => (0, host)⟩
    let m := ((Scenario.MachineStep.writeText 0 "f" none).perform
      (Scenario.MachineSpec.build { publics := ["f"] })).2
    let run (dest : Cell) := threeCallers.runNative h id "amx_try_call_public" [-1, 0, dest, 4]
    threeCallers.machine? id = some m ∧ m.readText? 0 4096 = some "f" ∧
      m.readText? 4 4096 = some "" ∧ (run 8).1 = .ok 5 ∧
      (∃ after, (run 8).2.machine? id = some after ∧
        ∀ a, after.cell? a = if a = 8 then some 7 else m.cell? a) ∧
      ∃ fault, (run (-4)).1 = .error fault := by
  intro id h m run
  have hm : threeCallers.machine? id = some m := by decide +kernel
  have hwf : m.WellFormed :=
    ((Machine.Reachable.built _ (by decide)).step (.writeText 0 "f" none)).wellFormed
  let limit := threeCallers.limits.maxNameLength
  have hfunction : m.readText? (0 : Cell).toInt limit = some "f" := by rfl
  have hformat : m.readText? (4 : Cell).toInt limit = some "" := by rfl
  have hreports (dest : Cell) :=
    guardedCall_reports hm hfunction (by decide) hformat h .exported (-1) dest []
  have hrun : (run 8).1 = .ok 5 := by rfl
  refine ⟨hm, hfunction, hformat, hrun, ?_, ?_⟩
  · obtain ⟨visits, out, final, toured, _, _, hok⟩ := hreports 8
    obtain ⟨_, before, after, hbefore, hworld, hdelivered⟩ := hok 5 hrun
    obtain ⟨rfl, rfl⟩ := Prod.mk.inj toured.tryCall_eq
    obtain rfl : m = before := Option.some.inj (hm.symm.trans hbefore)
    refine ⟨after, ?_, hdelivered.cell?_eq hwf 7 rfl⟩
    exact (congrArg (machine? · id) hworld).trans (machine?_putMachine hbefore after)
  · obtain ⟨visits, out, final, toured, _, herror, _⟩ := hreports (-4)
    obtain ⟨rfl, rfl⟩ := Prod.mk.inj toured.tryCall_eq
    exact herror.mpr (.inr ⟨by decide, m, hm, by decide⟩)

end World

end ScriptNatives
