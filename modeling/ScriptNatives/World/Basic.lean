import ScriptNatives.Limits
import ScriptNatives.Machine.Basic
import ScriptNatives.Reference
import ScriptNatives.Slots.Basic

/-!
# Worlds

A world holds all that natives act on: the machines, the instances under which they are live, the
two pools of references, the instance on whose behalf the present dispatch runs, and the state
of the host. One machine may be live under several instances.

An instance that is unloaded is first taken off the list of live instances. Then the hooks are
told, in the order in which they subscribed. The first two, which every world has, reclaim
the variables that the instance owned and the handles made in its context, so the hooks that
subscribe later see the pools without them.
-/
namespace ScriptNatives

/-- A live instance: the number of its machine, and the data kept beside it. -/
structure Loaded where
  id : InstanceId
  machine : Nat
  context : Context := {}
  deriving DecidableEq, Repr

/-- What is done when an instance was unloaded. -/
inductive Hook where
  /-- Drop the variables that the instance owned. -/
  | reclaimVars
  /-- Drop the handles made in the instance's context. -/
  | reclaimHandles
  /-- Note down what the world looks like. -/
  | observe (tag : String)
  deriving DecidableEq, Repr

/-- What an observing hook noted down: the instance that was unloaded, and at that moment the live
instances and the two pools. -/
structure Notice where
  tag : String
  id : InstanceId
  live : List InstanceId
  vars : Slots Var
  handles : Slots Handle

/-- Whether the unloaded instance was live when the hook ran. -/
def Notice.stillLive (n : Notice) : Bool := n.live.contains n.id

/-- The state on which natives act; the host keeps a state of type `σ` of its own. -/
structure World (σ : Type) where
  /-- Every machine that was ever registered, dead or alive. -/
  machines : Array Machine := #[]
  /-- The live instances in load order. -/
  loaded : List Loaded := []
  /-- Every live instance has its machine. -/
  grounded : ∀ entry ∈ loaded, entry.machine < machines.size := by simp
  /-- How many instances were registered so far. -/
  issued : Nat := 0
  /-- The unload hooks in the order of their subscription. -/
  hooks : List Hook := [.reclaimVars, .reclaimHandles]
  /-- What observing hooks noted down, oldest first. -/
  notices : List Notice := []
  vars : Slots Var
  handles : Slots Handle
  /-- The instance on whose behalf the present dispatch runs. -/
  source : Option InstanceId := none
  limits : Limits
  host : σ

namespace World

variable {σ : Type}

def create (limits : Limits) (host : σ) : World σ where
  vars := .ofCapacity limits.maxVars
  handles := .ofCapacity limits.maxHandles
  limits
  host

/-! ### Instances -/

/-- The live instances in load order. -/
def liveIds (w : World σ) : List InstanceId := w.loaded.map (·.id)

def entry? (w : World σ) (id : InstanceId) : Option Loaded := w.loaded.find? (·.id == id)

def isLive (w : World σ) (id : InstanceId) : Bool := (w.entry? id).isSome

def machine? (w : World σ) (id : InstanceId) : Option Machine := do
  w.machines[(← w.entry? id).machine]?

/-- The fault of naming an instance that is not live. -/
def deadInstance (id : InstanceId) : Fault := .dangling .machine id.toCell

/-- The machine of an instance, which has to be live. -/
def machine (w : World σ) (id : InstanceId) : Except Fault Machine :=
  match w.machine? id with
  | some m => .ok m
  | none => .error (deadInstance id)

/-- Puts a machine in the place of the one of that number. -/
def setMachine (w : World σ) (number : Nat) (m : Machine) : World σ :=
  { w with
    machines := w.machines.setIfInBounds number m
    grounded := by simpa using w.grounded }

/-- Puts a machine in the place of the one that a live instance has. -/
def putMachine (w : World σ) (id : InstanceId) (m : Machine) : World σ :=
  match w.entry? id with
  | some entry => w.setMachine entry.machine m
  | none => w

def nextId (w : World σ) : InstanceId := ⟨w.issued + 1, Nat.succ_pos _⟩

/-- Registers the machine of that number as a new instance, which is loaded last. -/
def registerShared (w : World σ) (machine : Fin w.machines.size) : InstanceId × World σ :=
  (w.nextId, { w with
    loaded := w.loaded ++ [{ id := w.nextId, machine }]
    issued := w.issued + 1
    grounded := by
      intro entry h
      rcases List.mem_append.mp h with h | h
      · exact w.grounded entry h
      · obtain rfl := List.mem_singleton.mp h
        exact machine.isLt })

/-- Adds a machine that is not yet known, and is not live under any instance. -/
def addMachine (w : World σ) (m : Machine) : World σ :=
  { w with
    machines := w.machines.push m
    grounded := fun entry h => by
      have := w.grounded entry h
      simp only [Array.size_push]
      omega }

def register (w : World σ) (m : Machine) : InstanceId × World σ :=
  (w.addMachine m).registerShared ⟨w.machines.size, by simp [addMachine]⟩

/-! ### Contexts -/

def context? (w : World σ) (id : InstanceId) : Option Context := (w.entry? id).map (·.context)

def modifyContext (w : World σ) (id : InstanceId) (f : Context → Context) : World σ :=
  { w with
    loaded := w.loaded.map fun entry =>
      if entry.id = id then { entry with context := f entry.context } else entry
    grounded := by
      intro entry h
      obtain ⟨entry, before, rfl⟩ := List.mem_map.mp h
      split <;> exact w.grounded entry before }

/-! ### Unloading -/

def onUnload (w : World σ) (hook : Hook) : World σ := { w with hooks := w.hooks ++ [hook] }

/-- Drops the variables that an instance owns, and returns how many there were. -/
def reclaimVars (w : World σ) (owner : InstanceId) : Nat × World σ :=
  let (count, vars) := w.vars.filter (·.owner != owner)
  (count, { w with vars })

/-- Drops the handles made in the context of an instance, and returns how many there were. -/
def reclaimHandles (w : World σ) (context : InstanceId) : Nat × World σ :=
  let (count, handles) := w.handles.filter (·.context != context)
  (count, { w with handles })

def runHook (id : InstanceId) (w : World σ) : Hook → World σ
  | .reclaimVars => (w.reclaimVars id).2
  | .reclaimHandles => (w.reclaimHandles id).2
  | .observe tag =>
    { w with notices := w.notices ++ [⟨tag, id, w.liveIds, w.vars, w.handles⟩] }

/-- The world without an instance, as the hooks find it. -/
def without (w : World σ) (id : InstanceId) : World σ :=
  { w with
    loaded := w.loaded.eraseP (·.id == id)
    grounded := fun entry h => w.grounded entry (List.mem_of_mem_eraseP h) }

/-- Unloads an instance and runs the hooks. An instance that is not live is left at that. -/
def unload (w : World σ) (id : InstanceId) : Bool × World σ :=
  if w.isLive id then
    (true, w.hooks.foldl (runHook id) (w.without id))
  else
    (false, w)

/-! ### Enumeration -/

/-- Visits ids in order until one of the visits fails. The state goes from visit to visit. -/
def visit {τ ε : Type} (f : InstanceId → τ → Except ε Unit × τ) :
    List InstanceId → τ → Except ε Unit × τ
  | [], s => (.ok (), s)
  | id :: ids, s =>
    match f id s with
    | (.ok (), s) => visit f ids s
    | (.error e, s) => (.error e, s)

/-- Visits every instance that is live when the visit begins, in load order. What the visits do to
the world neither adds a visit nor takes one away. -/
def visitLive {τ ε : Type} (w : World σ)
    (f : InstanceId → τ × World σ → Except ε Unit × τ × World σ) (s : τ) :
    Except ε Unit × τ × World σ :=
  visit f w.liveIds (s, w)

/-! ### Source -/

/-- What is needed to leave a dispatch: the source before it was entered. -/
structure SourceMark where
  previous : Option InstanceId
  deriving DecidableEq, Repr

def enterSource (w : World σ) (source : Option InstanceId) : SourceMark × World σ :=
  (⟨w.source⟩, { w with source })

/-- Makes the instance the source again that was it when the mark was made. -/
def leaveSource (w : World σ) (mark : SourceMark) : World σ :=
  { w with source := mark.previous }

end World

end ScriptNatives
