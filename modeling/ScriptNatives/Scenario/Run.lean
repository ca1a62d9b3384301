import ScriptNatives.Native.Perform
import ScriptNatives.Scenario.Session

/-!
# Running scenarios

The scripted host runs the steps of its rules with a host of its own, which may go one call less
deep; at the bottom the steps of rules are left out. So every scenario ends.
-/
namespace ScriptNatives.Scenario

/-! ### Single steps -/

def performOnMachine (w : Stage) (id : InstanceId) (step : MachineStep) : Answer × Stage :=
  match w.machineNumber? id, w.everMachine? id with
  | some number, some m =>
    let (answer, m) := step.perform m
    (.machine answer, w.setMachine number m)
  | _, _ => (.noMachine, w)

def performOnVar (w : Stage) (within : Option HostCall) (v : Var) : VarStep → Answer × Stage
  | .linked => (.flag (w.isLinked v), w)
  | .inside => (.flag (w.isInside v), w)
  | .owned who => ((who.resolve? within).elim .noMachine fun id => .flag (w.isOwner v id), w)
  | .read index => (.ofCell (w.readVar v index), w)
  | .write index value =>
    match w.writeVar v index value with
    | .ok (previous, w) => (.number previous.toInt, w)
    | .error f => (.fault f, w)
  | .free =>
    match w.freeVar? v with
    | some (base, w) => (.number base, w)
    | none => (.nothing, w)

/-- One visit that notes down whom it visits. -/
def visitOne (stopAt reached victim : Option InstanceId) (id : InstanceId) :
    List InstanceId × Stage → Except InstanceId Unit × List InstanceId × Stage :=
  fun (visited, w) =>
    let w := match victim with
      | some v => if reached = some id then (w.unload v).2 else w
      | none => w
    (if stopAt = some id then .error id else .ok (), visited ++ [id], w)

/-- Makes a variable by its native and deletes it again, up to `times` times. `rounds` and `last`
tell of the rounds before. -/
def churnVar (h : Host Session) (id : InstanceId) (w : Stage) (rounds : Nat) (last : Option Cell) :
    Nat → Answer × Stage
  | 0 => (.churned rounds last none, w)
  | times + 1 =>
    match w.runNative h id "amx_var" [0] with
    | (.error f, w) => (.churned rounds last (some f), w)
    | (.ok var, w) =>
      let (_, w) := w.runNative h id "amx_delete" [var]
      churnVar h id w (rounds + 1) (some var) times

def answerCell (w : Stage) : Except Fault (Cell × Stage) → Answer × Stage
  | .ok (c, w) => (.number c.toInt, w)
  | .error f => (.fault f, w)

def answerWritten {α : Type} (w : Stage) (value : α → Cell) :
    Except Fault (World.Outcome Session α) → Answer × Stage
  | .ok (.ok a, w) => (.number (value a).toInt, w)
  | .ok (.error f, w) => (.fault f, w)
  | .error f => (.fault f, w)

def about (w : Stage) (within : Option HostCall) (who : Who)
    (f : InstanceId → Answer × Stage) : Answer × Stage :=
  match who.resolve? within with
  | some id => f id
  | none => (.noMachine, w)

/-- Carries out a step, with the help of a host, while a given call, if any, is going on. -/
def Step.perform (h : Host Session) (within : Option HostCall) (w : Stage) :
    Step → Answer × Stage
  | register spec =>
    let (id, w) := w.load spec.build
    (.number id.raw, w)
  | .alias who => about w within who fun id =>
    match (w.machineNumber? id).bind w.loadAgain? with
    | some (id, w) => (.number id.raw, w)
    | none => (.noMachine, w)
  | unload who => about w within who fun id =>
    let (removed, w) := w.unload id
    (.flag removed, w)
  | isLive who => about w within who fun id => (.flag (w.isLive id), w)
  | instances => (.instances w.liveIds, w)
  | onUnload tag => (.nothing, w.onUnload (.observe tag))
  | visitLive stopAt reached victim =>
    let resolve (who : Option Who) := who.bind (·.resolve? within)
    match w.visitLive (visitOne (resolve stopAt) (resolve reached) (resolve victim)) [] with
    | (.ok (), visited, w) => (.visited visited none, w)
    | (.error id, visited, w) => (.visited visited (some id), w)
  | .context who => about w within who fun id => ((w.context? id).elim .nothing .context, w)
  | bump who amount => about w within who fun id =>
    let w := w.modifyContext id (·.bump amount)
    (.ofCell? ((w.context? id).bind (·.counter)), w)
  | enterSource who =>
    let (mark, w) := w.enterSource (who.bind (·.resolve? within))
    (.number w.host.marks.size,
      w.track fun s => { s with marks := s.marks.push (some mark) })
  | leaveSource i =>
    match w.host.marks[i]? with
    | some (some mark) =>
      (.flag true,
        (w.leaveSource mark).track fun s =>
          { s with marks := s.marks.setIfInBounds i none })
    | _ => (.flag false, w)
  | source => (w.source.elim .nothing (.number ·.raw), w)
  | invoke who native params => about w within who fun id =>
    let (result, w) := w.runNative h id native params
    (.invoked result ((w.everMachine? id).map (·.status)), w)
  | churnVar who times => about w within who fun id => Scenario.churnVar h id w 0 none times
  | publicIndex who name => about w within who fun id => (.ofCell (w.publicIndex id name), w)
  | publicVar who name => about w within who fun id => answerCell w (w.publicVar id name)
  | encodeNative who name dest => about w within who fun id =>
    answerWritten w (fun _ => 1) (w.storeNativeToken id name dest)
  | call who recipients function kind args => about w within who fun id =>
    let (result, w) := World.call h ⟨id, recipients, function, kind, args⟩ w
    (.ofCell result, w)
  | tryCall who recipients function kind args => about w within who fun id =>
    let (out, w) := World.tryCall h ⟨id, recipients, function, kind, args⟩ w
    (.tried out, w)
  | createHandle value maker owned => about w within maker fun id =>
    answerCell w (w.createHandle ⟨.amx, value, id, owned⟩)
  | handle id => ((w.handles.get? id).elim .nothing .handle, w)
  | releaseHandle id =>
    match w.releaseHandle? id with
    | some (removed, w) => (.handle removed, w)
    | none => (.nothing, w)
  | reclaimHandles who => about w within who fun id =>
    let (count, w) := w.reclaimHandles id
    (.number count, w)
  | countHandles => (.extent w.handles.live w.handles.isEmpty, w)
  | createVar who address count => about w within who fun id =>
    answerCell w (w.createVar id address count)
  | resolveVar id keepAs =>
    match w.vars.get? id with
    | some v =>
      (.var v, match keepAs with
        | some name => w.track fun s => { s with kept := (name, v) :: s.kept }
        | none => w)
    | none => (.nothing, w)
  | isVar id => (.flag (w.vars.contains id), w)
  | releaseVar id =>
    let (removed, w) := w.releaseVar id
    (.flag removed, w)
  | reclaimVars who => about w within who fun id =>
    let (count, w) := w.reclaimVars id
    (.number count, w)
  | countVars => (.extent w.vars.live w.vars.isEmpty, w)
  | varOffset id who origin => about w within who fun owner =>
    (.ofCell (w.varOffset id owner origin), w)
  | onVar kept step =>
    match w.host.kept.lookup kept with
    | some v => performOnVar w within v step
    | none => (.noVar, w)
  | onMachine who step => about w within who fun id => performOnMachine w id step

/-! ### Runs -/

/-- Carries out a step and reports what can be seen of it. -/
def Step.run (h : Host Session) (within : Option HostCall) (w : Stage) (step : Step) :
    Report × Stage :=
  let fresh := { w with notices := [] }.track fun s => { s with calls := [], texts := [] }
  let (answer, after) := step.perform h within fresh
  (.mk answer after.host.calls.reverse after.host.texts.reverse after.notices,
    { after with notices := w.notices }.track fun s =>
      { s with calls := w.host.calls, texts := w.host.texts })

def runAll (h : Host Session) (within : Option HostCall) (w : Stage) :
    List Step → List Report × Stage
  | [] => ([], w)
  | step :: steps =>
    let (report, w) := step.run h within w
    let (reports, w) := runAll h within w steps
    (report :: reports, w)

/-- Notes down a call that has come to its end. -/
def logCall (w : Stage) (call : HostCall) (steps : Option (List Report)) : Stage :=
  w.track fun s => { s with calls := .mk call steps :: s.calls }

/-- Answers a call by the rules. The steps of a rule run with the host `inner`, or not at all. -/
def respond (inner : Option (Host Session)) (call : HostCall) (w : Stage) :
    Except Status Cell × Stage :=
  match takeRule call w.host.rules with
  | none => (Reply.tenfold.result call, logCall w call none)
  | some (rule, rules) =>
    let w := w.track fun s => { s with rules }
    match rule.steps, inner with
    | [], _ | _, none => (rule.reply.result call, logCall w call none)
    | steps, some host =>
      let (reports, w) := runAll host (some call) w steps
      (rule.reply.result call, logCall w call (some reports))

/-- Makes a string: they are numbered from one on. -/
def makeString (text : String) (s : Session) : Cell × Session :=
  (Cell.ofBits (s.strings + 1), { s with strings := s.strings + 1, texts := text :: s.texts })

/-- The host that follows the rules, with at most `depth` calls running steps at a time. -/
def scriptedHost : Nat → Host Session
  | 0 => ⟨respond none, makeString⟩
  | depth + 1 => ⟨respond (some (scriptedHost depth)), makeString⟩

/-- How many calls may be running steps at a time. -/
def maxDepth : Nat := 4

/-- Registers the machines in order in a new world, carries out the steps, and reports on them. -/
def run (limits : Limits) (machines : List MachineSpec) (rules : List Rule) (steps : List Step) :
    List Report :=
  let w : Stage := World.create limits { rules }
  let w := machines.foldl (fun (w : Stage) spec => (w.load spec.build).2) w
  (runAll (scriptedHost maxDepth) none w steps).1

end ScriptNatives.Scenario
