import ScriptNatives.Proofs.Bounded.Slots
import ScriptNatives.Proofs.Runs.Pools

/-!
# Worlds with bounded numbers

What natives do in a world, carried out on its machines and its pools by a program that may trap.
None of it traps in a world whose machines can be had and whose pools are in order, so none of it
does in a world that can be had itself. The ranges of variables are no danger either: no variable
was made that reaches beyond the last address.
-/
namespace ScriptNatives.Bounded

variable {α β σ : Type}

/-! ### Attempts -/

/-- An attempt that may trap, and may fail. -/
abbrev Trial (α : Type) := ExceptT Fault Trapping α

/-- An attempt that does not trap. -/
def calm (x : Except Fault α) : Trial α := ExceptT.mk (.ok x)

@[simp] theorem trial_lift_ok_bind (a : α) (f : α → Trial β) :
    (liftM (Except.ok a : Trapping α) : Trial α) >>= f = f a := rfl

@[simp] theorem pure_eq_calm (a : α) : (pure a : Trial α) = calm (.ok a) := rfl

@[simp] theorem run_calm (x : Except Fault α) : (calm x).run = .ok x := rfl

/-- An attempt goes on without a trap if it does from everything that it can come to. -/
theorem calm_bind {x : Except Fault α} {f : α → Trial β} {g : α → Except Fault β}
    (h : ∀ a, x = .ok a → f a = calm (g a)) : calm x >>= f = calm (x >>= g) := by
  cases x with
  | error fault => rfl
  | ok a => exact h a rfl

/-! ### Script memory -/

def textAt (w : World σ) (id : InstanceId) (address : Cell) : Trial String := do
  let m ← calm (w.machine id)
  match ← (readText? m address.toInt w.limits.maxNameLength).run with
  | some text => return text
  | none => throw (.badAddress address.toInt)

def nameAt (w : World σ) (id : InstanceId) (address : Cell) (argument : Argument) :
    Trial String := do
  let name ← textAt w id address
  calm (World.nonEmpty argument name)
  return name

def store (w : World σ) (id : InstanceId) (address : Cell) (values : List Cell) :
    Trial (World.Outcome σ Unit) := do
  let m ← calm (w.machine id)
  match ← (store? m address.toInt values).run with
  | some (dead, m) => return (dead.elim (.ok ()) (.error <| .badAddress ·), w.putMachine id m)
  | none => throw (.badAddress address.toInt)

def writeName (w : World σ) (id : InstanceId) (name : String) (buffer size : Cell) :
    Trial (World.Outcome σ Cell) := do
  let m ← calm (w.machine id)
  match ← (writeText? m buffer.toInt name size.toInt).run with
  | some (some _, m) => return (.ok (Cell.ofBits name.utf8ByteSize), w.putMachine id m)
  | some (none, m) => return (.error (.badAddress buffer.toInt), w.putMachine id m)
  | none => throw (.badAddress buffer.toInt)

variable {w : World σ} {id : InstanceId} {m : Machine}

theorem wellFormed_of_machine (hw : w.Sound) (hm : w.machine id = .ok m) : m.WellFormed :=
  (hw.machine? (World.machine_eq_ok_iff.mp hm)).wellFormed

theorem textAt_eq (hw : w.Sound) (id : InstanceId) (address : Cell) :
    textAt w id address = calm (w.textAt id address) := by
  refine calm_bind fun m hm => ?_
  rw [readText?_eq (wellFormed_of_machine hw hm), run_calm?, trial_lift_ok_bind]
  cases m.readText? address.toInt w.limits.maxNameLength <;> rfl

theorem nameAt_eq (hw : w.Sound) (id : InstanceId) (address : Cell) (argument : Argument) :
    nameAt w id address argument = calm (w.nameAt id address argument) := by
  rw [nameAt, textAt_eq hw]
  exact calm_bind fun name _ => calm_bind fun _ _ => rfl

theorem store_eq (hw : w.Sound) (id : InstanceId) (address : Cell) (values : List Cell) :
    store w id address values = calm (w.store id address values) := by
  refine calm_bind fun m hm => ?_
  rw [store?_eq (wellFormed_of_machine hw hm), run_calm?, trial_lift_ok_bind]
  cases m.store? address.toInt values <;> rfl

theorem writeName_eq (hw : w.Sound) (id : InstanceId) (name : String) (buffer size : Cell) :
    writeName w id name buffer size = calm (w.writeName id name buffer size) := by
  refine calm_bind fun m hm => ?_
  rw [writeText?_eq (wellFormed_of_machine hw hm), run_calm?, trial_lift_ok_bind]
  rcases m.writeText? buffer.toInt name size.toInt with _ | ⟨_ | _, _⟩ <;> rfl

/-! ### References -/

def createVar (w : World σ) (owner : InstanceId) (address count : Int) :
    Trial (Cell × World σ) := do
  let v ← calm (Var.ofRange owner address count)
  match ← (insert? w.vars v).run with
  | some (id, vars) => return (id, { w with vars })
  | none => throw (.poolFull .vars w.vars.capacity)

def createHandle (w : World σ) (k : Handle) : Trial (Cell × World σ) := do
  match ← (insert? w.handles k).run with
  | some (id, handles) => return (id, { w with handles })
  | none => throw (.poolFull .handles w.handles.capacity)

def var (w : World σ) (id : Cell) : Trial Var := do
  match ← (get? w.vars id).run with
  | some v => return v
  | none => throw (.dangling .var id)

def releaseVar (w : World σ) (id : Cell) : Trapping (Bool × World σ) := do
  match ← (remove? w.vars id).run with
  | some (_, vars) => return (true, { w with vars })
  | none => return (false, w)

def varRegion? (w : World σ) (v : Var) : Search Region := do
  let m ← calm? (w.machine? v.owner)
  region? m v.address v.size

def element (v : Var) (index : Int) : Trial Int := do
  if 0 ≤ index ∧ index < v.size then
    let offset ← word (4 * index)
    word (v.address + offset)
  else
    throw (.badIndex index v.size)

def readVar (w : World σ) (v : Var) (index : Int) : Trial Cell := do
  let address ← element v index
  let m ← calm (w.machine v.owner)
  match ← (cell? m address).run with
  | some value => return value
  | none => throw (.badAddress address)

def writeVar (w : World σ) (v : Var) (index : Int) (value : Cell) : Trial (Cell × World σ) := do
  let address ← element v index
  let m ← calm (w.machine v.owner)
  match ← (exchange? m address value).run with
  | some (previous, m) => return (previous, w.putMachine v.owner m)
  | none => throw (.badAddress address)

/-- The distance from an address to a variable of an instance. The difference may wrap. -/
def varOffset (w : World σ) (id : Cell) (owner : InstanceId) (origin : Int) : Trial Cell := do
  let v ← var w id
  if w.isOwner v owner then
    return Int32.ofInt (v.address - origin)
  else
    throw (.unsupported id)

def freeVar? (w : World σ) (v : Var) : Search (Int × World σ) := do
  let m ← calm? (w.machine? v.owner)
  let (base, m) ← releaseBlock? m v.address
  return (base, w.putMachine v.owner m)

theorem createVar_eq (hw : w.PoolsInOrder) (owner : InstanceId) (address count : Int) :
    createVar w owner address count = calm (w.createVar owner address count) := by
  refine calm_bind fun v _ => ?_
  rw [insert?_eq hw.vars, run_calm?, trial_lift_ok_bind]
  cases w.vars.insert? v <;> rfl

theorem createHandle_eq (hw : w.PoolsInOrder) (k : Handle) :
    createHandle w k = calm (w.createHandle k) := by
  rw [createHandle, insert?_eq hw.handles, run_calm?, trial_lift_ok_bind, World.createHandle]
  cases w.handles.insert? k <;> rfl

theorem var_eq (w : World σ) (id : Cell) : var w id = calm (w.var id) := by
  rw [var, get?_eq, run_calm?, trial_lift_ok_bind, World.var]
  cases w.vars.get? id <;> rfl

theorem releaseVar_eq (hw : w.PoolsInOrder) (id : Cell) :
    releaseVar w id = .ok (w.releaseVar id) := by
  rw [releaseVar, remove?_eq hw.vars, run_calm?, ok_bind, World.releaseVar]
  cases w.vars.remove? id <;> rfl

theorem varRegion?_eq (hw : w.Sound) (v : Var) : varRegion? w v = calm? (w.varRegion? v) :=
  calm?_bind fun _ hm => region?_eq (hw.machine? hm).wellFormed _ _

/-- The end of a variable is still an address, and so is that of each element before it. -/
theorem element_eq (v : Var) (index : Int) : element v index = calm (v.element index) := by
  rw [element, Var.element]
  split
  · next hindex =>
    have hlow := v.address_nonneg
    have hhigh := v.limit_le
    rw [word_eq (by omega) (by omega), trial_lift_ok_bind, word_eq (by omega) (by omega)]
    rfl
  · rfl

theorem readVar_eq (hw : w.Sound) (v : Var) (index : Int) :
    readVar w v index = calm (w.readVar v index) := by
  rw [readVar, element_eq]
  refine calm_bind fun address _ => calm_bind fun m hm => ?_
  rw [cell?_eq (wellFormed_of_machine hw hm), run_calm?, trial_lift_ok_bind]
  cases m.cell? address <;> rfl

theorem writeVar_eq (hw : w.Sound) (v : Var) (index : Int) (value : Cell) :
    writeVar w v index value = calm (w.writeVar v index value) := by
  rw [writeVar, element_eq]
  refine calm_bind fun address _ => calm_bind fun m hm => ?_
  rw [exchange?_eq (wellFormed_of_machine hw hm), run_calm?, trial_lift_ok_bind]
  cases m.exchange? address value <;> rfl

theorem varOffset_eq (w : World σ) (id : Cell) (owner : InstanceId) (origin : Int) :
    varOffset w id owner origin = calm (w.varOffset id owner origin) := by
  rw [varOffset, var_eq]
  refine calm_bind fun v _ => ?_
  split <;> rfl

theorem freeVar?_eq (hw : w.Sound) (v : Var) : freeVar? w v = calm? (w.freeVar? v) := by
  refine calm?_bind fun m hm => ?_
  rw [releaseBlock?_eq (hw.machine? hm).wellFormed]
  exact calm?_bind fun _ _ => rfl

/-! ### Functions and public variables by name -/

def publicVar (w : World σ) (id : InstanceId) (name : String) : Trial (Cell × World σ) := do
  calm (World.nonEmpty .name name)
  let m ← calm (w.machine id)
  match m.publicVar? name with
  | some address => createVar w id address 1
  | none => throw (.unknownVariable name)

def storePublicToken (w : World σ) (id : InstanceId) (index dest : Cell) :
    Trial (World.Outcome σ Unit) :=
  match Token.ofPublic index with
  | .ok token => store w id dest [token]
  | .error _ => throw (.outOfRange .index)

def storeNativeToken (w : World σ) (id : InstanceId) (name : String) (dest : Cell) :
    Trial (World.Outcome σ Unit) := do
  calm (World.nonEmpty .function name)
  let m ← calm (w.machine id)
  match m.nativeAddress? name with
  | none => throw (.unknownFunction .native name)
  | some address =>
    match Token.ofNative address with
    | .ok (first, second) => store w id dest [first, second]
    | .error _ => throw (.outOfRange .function)

theorem publicVar_eq (hw : w.PoolsInOrder) (id : InstanceId) (name : String) :
    publicVar w id name = calm (w.publicVar id name) := by
  refine calm_bind fun _ _ => calm_bind fun m _ => ?_
  cases m.publicVar? name with
  | none => rfl
  | some address => exact createVar_eq hw id address 1

theorem storePublicToken_eq (hw : w.Sound) (id : InstanceId) (index dest : Cell) :
    storePublicToken w id index dest = calm (w.storePublicToken id index dest) := by
  unfold storePublicToken World.storePublicToken
  cases Token.ofPublic index with
  | error _ => rfl
  | ok token => exact store_eq hw id dest [token]

theorem storeNativeToken_eq (hw : w.Sound) (id : InstanceId) (name : String) (dest : Cell) :
    storeNativeToken w id name dest = calm (w.storeNativeToken id name dest) := by
  refine calm_bind fun _ _ => calm_bind fun m _ => ?_
  cases m.nativeAddress? name with
  | none => rfl
  | some address =>
    simp only
    cases Token.ofNative address with
    | error _ => rfl
    | ok token => exact store_eq hw id dest [token.1, token.2]

end ScriptNatives.Bounded
