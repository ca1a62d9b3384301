import ScriptNatives.World.Basic

/-!
# Calls in a world

A call visits its targets one after the other. Which they are is settled when the call begins;
what becomes of each is settled when its turn comes, since the host may do anything to the
world in between: a target that is no longer live is passed over, and the function is looked up
in the machine as it is then.

A plain call ends at the first target that lacks the function or in which it fails. A guarded
call recovers from that: it goes to every target, whatever happens, and reports how the last one
went. But for that they are the same loop.
-/
namespace ScriptNatives

/-- The services that natives borrow from the program they are embedded in. A call may change the
world in any way. -/
structure Host (σ : Type) where
  /-- Runs a function in its target. -/
  run : HostCall → World σ → Except Status Cell × World σ
  /-- Makes a string object and returns the cell that names it. -/
  makeString : String → σ → Cell × σ

/-- What became of one target of a call. -/
inductive Attempt where
  /-- The target was no longer live. -/
  | passedOver
  /-- The target has no such function. -/
  | lacking
  /-- The host reported a failure. -/
  | failed (status : Status)
  /-- The function returned. -/
  | returned (value : Cell)
  deriving DecidableEq, Repr

/-- The answer of a guarded call: the status of the target attempted last, and the value of the
last one that returned. -/
structure CallSummary where
  status : Status := .clear
  result : Option Cell := none
  deriving DecidableEq, Repr

def Machine.entry? (m : Machine) (kind : FunctionKind) (function : String) : Option EntryPoint :=
  match kind with
  | .native => (m.nativeAddress? function).map .native
  | .exported => (m.publicIndex? function).map .exported

namespace World

variable {σ : Type}

/-- The instances that a call visits, in load order. A single one has to be live. -/
def targets (w : World σ) (source : InstanceId) : Recipients → Except Fault (List InstanceId)
  | .everyone => .ok w.liveIds
  | .everyoneElse => .ok (w.liveIds.filter (· != source))
  | .one reference =>
    match (InstanceId.ofCell? reference).filter w.isLive with
    | some id => .ok [id]
    | none => .error (.dangling .machine reference)

/-- Calls the function in one target. -/
def attempt (h : Host σ) (c : Call) (target : InstanceId) (w : World σ) : Attempt × World σ :=
  match w.machine? target with
  | none => (.passedOver, w)
  | some m =>
    match m.entry? c.kind c.function with
    | none => (.lacking, w)
    | some entry =>
      match h.run ⟨c.source, target, c.function, entry, c.args⟩ w with
      | (.ok value, w) => (.returned value, w)
      | (.error status, w) => (.failed status, w)

/-- One step of a call; `out` is the answer so far. A target that lacks the function, or in which it
fails, ends the call, unless the call recovers: then it is noted in the answer. -/
def callOne (h : Host σ) (recover : Bool) (c : Call) (target : InstanceId) :
    CallSummary × World σ → Except Fault Unit × CallSummary × World σ :=
  fun (out, w) =>
    match attempt h c target w with
    | (.passedOver, w) => (.ok (), out, w)
    | (.lacking, w) =>
      if recover then
        (.ok (), { out with status := .notFound }, w)
      else
        (.error (.unknownFunction c.kind c.function), out, w)
    | (.failed status, w) =>
      if recover then
        (.ok (), { out with status }, w)
      else
        (.error (.callFailed c.function status), out, w)
    | (.returned value, w) => (.ok (), ⟨.clear, some value⟩, w)

/-- Calls a function in one target after the other. -/
def dispatch (h : Host σ) (recover : Bool) (c : Call) (w : World σ) :
    Except Fault CallSummary × World σ :=
  match w.targets c.source c.recipients with
  | .error fault =>
    if recover then (.ok { status := .notFound }, w) else (.error fault, w)
  | .ok ids =>
    match visit (callOne h recover c) ids ({}, w) with
    | (.ok (), out, w) => (.ok out, w)
    | (.error fault, _, w) => (.error fault, w)

/-- Calls a function and returns the value of the last target, or zero if none was called. -/
def call (h : Host σ) (c : Call) (w : World σ) : Except Fault Cell × World σ :=
  let (result, w) := dispatch h false c w
  (result.map fun out => out.result.getD 0, w)

/-- Calls a function in every target and reports how that went. A single target that is not live is
reported like one that lacks the function. -/
def tryCall (h : Host σ) (c : Call) (w : World σ) : CallSummary × World σ :=
  let (result, w) := dispatch h true c w
  (result.toOption.getD {}, w)

end World

end ScriptNatives
