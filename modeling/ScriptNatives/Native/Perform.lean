import ScriptNatives.Native.Basic
import ScriptNatives.Native.Ending
import ScriptNatives.World.Calls
import ScriptNatives.World.Functions
import ScriptNatives.World.References

/-!
# What natives do

A plain native is refused, and then there is no new world, or it acts on the world. One that writes
to script memory may still fail when it has begun. A call native may have changed the world before
it fails, since the host has run.
-/
namespace ScriptNatives

variable {σ : Type}

/-- The fork that the parameters `[level, result, copy, error]` ask for. -/
def ForkOptions.ofParams (p : Params) : ForkOptions where
  level := p.getD 0 SuspendCode.defaultForkLevel
  resultAddress := p.address? 1
  copyData := p.getD 2 1 != 0
  errorAddress := p.address? 3

namespace World

def makeString (w : World σ) (h : Host σ) (text : String) : Cell × World σ :=
  let (string, host) := h.makeString text w.host
  (string, { w with host })

def fork (w : World σ) (id : InstanceId) (r : ForkOptions) : Except Fault (Outcome σ Ending) :=
  match w.context? id with
  | some context =>
    let (ending, context) := Ending.fork r context
    .ok (.ok ending, w.modifyContext id fun _ => context)
  | none => .error (deadInstance id)

/-- Releases the dynamic block behind a variable that the caller owns. -/
def free (w : World σ) (id : InstanceId) (var : Cell) : Except Fault (Outcome σ Ending) := do
  let v ← w.var var
  if w.isOwner v id then
    match w.freeVar? v with
    | some (base, w) => return (.ok (.free (Int32.ofInt base)), w)
    | none => throw (.unsupported var)
  else
    throw (.unsupported var)

/-- What comes of a native that leaves the world alone. -/
def ends (w : World σ) (ending : Ending) : Except Fault (Outcome σ Ending) := .ok (.ok ending, w)

/-- What comes of a native that returns a value and leaves the world alone. -/
def answer (w : World σ) (v : Cell) : Except Fault (Outcome σ Ending) := w.ends (.returns v)

def answerFlag (w : World σ) (b : Bool) : Except Fault (Outcome σ Ending) :=
  w.answer (Cell.ofBool b)

/-- What comes of a native that returns a value and changes the world. -/
def answered (r : Except Fault (Cell × World σ)) : Except Fault (Outcome σ Ending) :=
  r.map fun (v, w) => (.ok (.returns v), w)

/-- What comes of a native that writes to script memory and returns a value. -/
def wrote {α : Type} (value : α → Cell) (r : Except Fault (Outcome σ α)) :
    Except Fault (Outcome σ Ending) :=
  r.map fun (done, w) => (done.map fun a => .returns (value a), w)

/-- Runs a plain native for an instance, which need not be live. -/
def performPlain (h : Host σ) (id : InstanceId) (p : Params) (w : World σ) :
    LocalNative → Except Fault (Outcome σ Ending)
  | .self => w.answer id.toCell
  | .handle => answered (w.createHandle (.ofInstance id))
  | .source => w.answer ((w.source.map InstanceId.toCell).getD 0)
  | .sourceHandle =>
    match w.source with
    | some source => answered (w.createHandle (.ofInstance source))
    | none => w.answer 0
  | .name => do
    let m ← w.machine id
    wrote (·) (w.writeName id m.name (← p.need 0) (← p.need 1))
  | .nameString => do
    let m ← w.machine id
    answered (.ok (w.makeString h m.name))
  | .numPublics => do
    let m ← w.machine id
    w.answer (Cell.ofBits m.publics.length)
  | .publicIndex => do
    let name ← w.nameAt id (← p.need 0) .function
    w.answer (← w.publicIndex id name)
  | .publicName => do
    let name ← w.publicName id (← p.need 0)
    wrote (·) (w.writeName id name (← p.need 1) (← p.need 2))
  | .publicNameString => do
    let name ← w.publicName id (← p.need 0)
    answered (.ok (w.makeString h name))
  | .encodePublic => do
    wrote (fun _ => 1) (w.storePublicToken id (← p.need 0) (← p.need 1))
  | .encodeNative => do
    let name ← w.nameAt id (← p.need 0) .function
    wrote (fun _ => 1) (w.storeNativeToken id name (← p.need 1))
  | .var => do answered (w.createVar id (← p.need 0).toInt 1)
  | .varArray => do answered (w.createVar id (← p.need 0).toInt (← p.need 1).toInt)
  | .publicVar => do
    let name ← w.nameAt id (← p.need 0) .name
    answered (w.publicVar id name)
  | .set => do
    let v ← w.var (← p.need 0)
    answered (w.writeVar v (p.getD 2 0).toInt (← p.need 1))
  | .get => do
    let v ← w.var (← p.need 0)
    w.answer (← w.readVar v (p.getD 1 0).toInt)
  | .valid => do w.answerFlag (w.vars.contains (← p.need 0))
  | .delete => do
    let var ← p.need 0
    let _ ← w.var var
    let (removed, w) := w.releaseVar var
    w.answerFlag removed
  | .linked => do w.answerFlag (w.isLinked (← w.var (← p.need 0)))
  | .inside => do w.answerFlag (w.isInside (← w.var (← p.need 0)))
  | .sizeof => do w.answer (Int32.ofInt (← w.var (← p.need 0)).size)
  | .my => do w.answerFlag (w.isOwner (← w.var (← p.need 0)) id)
  | .toRef => do
    let dest ← p.need 1
    let offset ← w.varOffset (← p.need 0) id dest.toInt
    wrote (fun _ => 1) (w.store id dest [offset])
  | .fork => w.fork id (.ofParams p)
  | .commit => w.ends (.commit (p.getD 0 1))
  | .forkEnd => w.ends .forkEnd
  | .error => do w.ends (.raises ⟨← p.need 0⟩ (p.getD 1 0))
  | .alloc => do w.ends (.alloc (← p.need 0) (p.getD 1 1 != 0))
  | .free => do w.free id (← p.need 0)
  | .parallelBegin => w.ends (.parallelBegin (p.getD 0 1))
  | .parallelEnd => w.ends .parallelEnd
  | .tailCall => w.ends .tailCall

/-- What the parameters `[target, function, .., format, values ..]` ask for, with the format at
position `i` and the values behind it. -/
def readCall (w : World σ) (id : InstanceId) (kind : FunctionKind) (p : Params) (i : Nat) :
    Except Fault Call := do
  let target ← p.need 0
  let function ← w.nameAt id (← p.need 1) .function
  let format ← w.textAt id (← p.need i)
  return ⟨id, .ofCell target, function, kind, ⟨format, p.drop (i + 1)⟩⟩

/-- Runs a call native with parameters `[target, function, format, values ..]`. -/
def performCall (h : Host σ) (id : InstanceId) (kind : FunctionKind) (p : Params) (w : World σ) :
    Except Fault Ending × World σ :=
  match w.readCall id kind p 2 with
  | .error fault => (.error fault, w)
  | .ok c =>
    let (result, w) := call h c w
    (result.map .returns, w)

/-- Runs a guarded call native with parameters `[target, function, result, format, values ..]`. The
value of the last call that succeeded is stored at `result`, if there was one, and the status is
returned. -/
def performTryCall (h : Host σ) (id : InstanceId) (kind : FunctionKind) (p : Params)
    (w : World σ) : Except Fault Ending × World σ :=
  match p.need 2, w.readCall id kind p 3 with
  | .error fault, _ | _, .error fault => (.error fault, w)
  | .ok dest, .ok c =>
    let (out, w) := tryCall h c w
    match out.result with
    | none => (.ok (.returns out.status.code), w)
    | some value =>
      match w.store id dest [value] with
      | .ok (done, w) => (done.map fun _ => .returns out.status.code, w)
      | .error fault => (.error fault, w)

end World

def Native.perform (h : Host σ) (id : InstanceId) (p : Params) (w : World σ) :
    Native → Except Fault Ending × World σ
  | call kind => w.performCall h id kind p
  | tryCall kind => w.performTryCall h id kind p
  | plain native =>
    match w.performPlain h id p native with
    | .ok outcome => outcome
    | .error fault => (.error fault, w)

/-! ### Running a native by name

This is the door through which scripts come in. A native is looked up by name and runs, provided
that it got parameters enough; only then is the caller looked up, since it may have been unloaded in
the meantime. Its status tells a native that failed, or one that asks for something, from one
that just returned. -/

namespace World

/-- Looks a native up by name and runs it, without telling the caller. -/
def evaluate (h : Host σ) (id : InstanceId) (name : String) (p : Params) (w : World σ) :
    Except Fault Ending × World σ :=
  match Native.find? name with
  | none => (.error (.unknownFunction .native name), w)
  | some native =>
    if p.length < native.minParams then
      (.error (.fewParams native.minParams p.length), w)
    else
      native.perform h id p w

/-- Tells the caller how a native ended: its machine carries the ending out, or goes into the
status of a failed native. What the native did to the world stands, even if the caller is not live
and there is nobody to tell. -/
def settle (w : World σ) (id : InstanceId) (result : Except Fault Ending) :
    Except Fault Cell × World σ :=
  match w.machine? id, result with
  | none, _ => (.error (deadInstance id), w)
  | some m, .ok ending =>
    let (value, m) := ending.carryOut m
    (.ok value, w.putMachine id m)
  | some m, .error fault => (.error fault, w.putMachine id (m.raise .native))

/-- Runs a native for an instance and returns the cell that the script gets. -/
def runNative (h : Host σ) (id : InstanceId) (name : String) (p : Params) (w : World σ) :
    Except Fault Cell × World σ :=
  let (result, w) := w.evaluate h id name p
  w.settle id result

end World

end ScriptNatives
