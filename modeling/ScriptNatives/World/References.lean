import ScriptNatives.World.Basic

/-!
# References in a world

A variable is named by an id of its pool, and so is a handle. Of a variable, only the shape of its
range is settled when it is made; whether the range is live is looked up afresh at every use, in the
memory of its owner.
-/
namespace ScriptNatives.World

variable {σ : Type}

/-- Makes a reference to `count` cells of an instance, which need not be live, nor the cells. -/
def createVar (w : World σ) (owner : InstanceId) (address count : Int) :
    Except Fault (Cell × World σ) := do
  let v ← Var.ofRange owner address count
  match w.vars.insert? v with
  | some (id, vars) => return (id, { w with vars })
  | none => throw (.poolFull .vars w.vars.capacity)

/-- The variable that an id names, which it has to. -/
def var (w : World σ) (id : Cell) : Except Fault Var :=
  match w.vars.get? id with
  | some v => .ok v
  | none => .error (.dangling .var id)

/-- Removes a reference, and says whether there was one. Its storage is left alone. -/
def releaseVar (w : World σ) (id : Cell) : Bool × World σ :=
  match w.vars.remove? id with
  | some (_, vars) => (true, { w with vars })
  | none => (false, w)

/-- The region of the range of a variable, as long as all of it is live in one. -/
def varRegion? (w : World σ) (v : Var) : Option Region := do
  (← w.machine? v.owner).region? v.address v.size

/-- Whether all of the range of a variable is live. -/
def isLinked (w : World σ) (v : Var) : Bool := (w.varRegion? v).isSome

/-- Whether all of the range of a variable is live and in the data block of its owner. -/
def isInside (w : World σ) (v : Var) : Bool := w.varRegion? v == some .data

def isOwner (w : World σ) (v : Var) (id : InstanceId) : Bool := v.owner == id && w.isLive id

def readVar (w : World σ) (v : Var) (index : Int) : Except Fault Cell := do
  let address ← v.element index
  let m ← w.machine v.owner
  match m.cell? address with
  | some value => return value
  | none => throw (.badAddress address)

/-- Writes an element and returns its value before. -/
def writeVar (w : World σ) (v : Var) (index : Int) (value : Cell) :
    Except Fault (Cell × World σ) := do
  let address ← v.element index
  let m ← w.machine v.owner
  match m.exchange? address value with
  | some (previous, m) => return (previous, w.putMachine v.owner m)
  | none => throw (.badAddress address)

/-- The distance from an address to a variable, for the instance that owns it. It is a cell, and
wraps where it does not fit one. -/
def varOffset (w : World σ) (id : Cell) (owner : InstanceId) (origin : Int) :
    Except Fault Cell := do
  let v ← w.var id
  if w.isOwner v owner then
    return Int32.ofInt (v.address - origin)
  else
    throw (.unsupported id)

/-- Releases the dynamic block around the start of a variable, and returns its base. The reference
to it stays. -/
def freeVar? (w : World σ) (v : Var) : Option (Int × World σ) := do
  let m ← w.machine? v.owner
  let (base, m) ← m.releaseBlock? v.address
  return (base, w.putMachine v.owner m)

/-! ### Handles -/

def createHandle (w : World σ) (h : Handle) : Except Fault (Cell × World σ) :=
  match w.handles.insert? h with
  | some (id, handles) => .ok (id, { w with handles })
  | none => .error (.poolFull .handles w.handles.capacity)

def releaseHandle? (w : World σ) (id : Cell) : Option (Handle × World σ) :=
  (w.handles.remove? id).map fun (h, handles) => (h, { w with handles })

end ScriptNatives.World
