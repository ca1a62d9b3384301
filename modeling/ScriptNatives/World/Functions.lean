import ScriptNatives.Token
import ScriptNatives.World.Memory
import ScriptNatives.World.References

/-!
# Functions and public variables by name

What an instance declares, looked up by name or by index, and the tokens that stand for its
functions.
-/
namespace ScriptNatives.World

variable {σ : Type}

/-- The index of a public function, or -1. -/
def publicIndex (w : World σ) (id : InstanceId) (name : String) : Except Fault Cell := do
  nonEmpty .function name
  let m ← w.machine id
  match m.publicIndex? name with
  | some index => return Cell.ofBits index
  | none => return -1

def publicName (w : World σ) (id : InstanceId) (index : Cell) : Except Fault String := do
  let m ← w.machine id
  match m.publicName? index.toInt with
  | some name => return name
  | none => throw (.outOfRange .index)

def publicVar (w : World σ) (id : InstanceId) (name : String) :
    Except Fault (Cell × World σ) := do
  nonEmpty .name name
  let m ← w.machine id
  match m.publicVar? name with
  | some address => w.createVar id address 1
  | none => throw (.unknownVariable name)

/-- Stores the token of a public function. The index need not be that of a declared one. -/
def storePublicToken (w : World σ) (id : InstanceId) (index dest : Cell) :
    Except Fault (Outcome σ Unit) :=
  match Token.ofPublic index with
  | .ok token => w.store id dest [token]
  | .error _ => .error (.outOfRange .index)

/-- Stores the two cells of the token of a registered native. -/
def storeNativeToken (w : World σ) (id : InstanceId) (name : String) (dest : Cell) :
    Except Fault (Outcome σ Unit) := do
  nonEmpty .function name
  let m ← w.machine id
  match m.nativeAddress? name with
  | none => throw (.unknownFunction .native name)
  | some address =>
    match Token.ofNative address with
    | .ok (first, second) => w.store id dest [first, second]
    | .error _ => throw (.outOfRange .function)

end ScriptNatives.World
