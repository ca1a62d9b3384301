import ScriptNatives.Machine.Basic

/-!
# Steps on a machine

A machine can be driven by hand: an embedding program pushes arguments, lays out script memory and
reads results back. A step is one such act, and its answer is all that can be seen of it.
-/
namespace ScriptNatives.Scenario

structure MachineSpec where
  name : String := "m"
  dataCells : Nat := 64
  heapStackCells : Nat := 256
  publics : List String := []
  publicVars : List (String × Int) := []
  natives : List (String × Nat) := []

/-- The machine with these declarations, made in the order given. -/
def MachineSpec.build (s : MachineSpec) : Machine :=
  let m := Machine.ofLayout s.name s.dataCells s.heapStackCells
  let m := s.publics.foldl Machine.declarePublic m
  let m := s.publicVars.foldl (fun m (name, address) => m.declarePublicVar name address) m
  s.natives.foldl (fun m (name, address) => m.declareNative name address) m

inductive MachineStep where
  | push (value : Cell)
  | pop
  | heapAlloc (cells : Int)
  | heapRelease (address : Int)
  | allocBlock (cells : Int)
  | releaseBlock (address : Int)
  | countBlocks
  | dataEnd
  | region (address count : Int)
  | cell (address : Int)
  | setCell (address : Int) (value : Cell)
  | poke (address : Int) (values : List Cell)
  | scan (first last : Int)
  | readText (address : Int) (limit : Nat)
  | writeText (address : Int) (text : String) (size : Option Int)
  | name
  | countPublics
  | publicIndex (name : String)
  | publicName (index : Int)
  | publicVar (name : String)
  | nativeAddress (name : String)
  | raise (status : Status)
  | status
  | takeStatus
  deriving Repr

/-- What can be seen of a step on a machine. -/
inductive MachineAnswer where
  | nothing
  | number (n : Int)
  | text (s : String)
  | region (r : Region)
  | cells (values : List (Option Cell))
  | refused (fault : MachineFault)
  deriving DecidableEq, Repr

namespace MachineAnswer

def ofNumber? (n : Option Int) : MachineAnswer := n.elim nothing number

def ofCell? (c : Option Cell) : MachineAnswer := ofNumber? (c.map Int32.toInt)

def ofNat? (n : Option Nat) : MachineAnswer := ofNumber? (n.map Int.ofNat)

def ofText? (s : Option String) : MachineAnswer := s.elim nothing text

end MachineAnswer

/-- Exchanges one cell after the other, passing over those that are not live. -/
def exchangeAll (m : Machine) (address : Int) : List Cell → List (Option Cell) × Machine
  | [] => ([], m)
  | value :: values =>
    match m.exchange? address value with
    | some (previous, m) =>
      let (others, m) := exchangeAll m (address + 4) values
      (some previous :: others, m)
    | none =>
      let (others, m) := exchangeAll m (address + 4) values
      (none :: others, m)

/-- The addresses `first`, `first + 4`, .. below `last`. -/
def addresses (first last : Int) : List Int :=
  (List.range ((last - first + 3) / 4).toNat).map fun (i : Nat) => first + 4 * (i : Int)

/-- Carries out a step that may be refused. -/
def attempted {α : Type} (m : Machine) (answer : α → MachineAnswer) :
    Except MachineFault (α × Machine) → MachineAnswer × Machine
  | .ok (a, m) => (answer a, m)
  | .error fault => (.refused fault, m)

/-- Carries out a step that may come to nothing. -/
def attempted? {α : Type} (m : Machine) (answer : α → MachineAnswer) :
    Option (α × Machine) → MachineAnswer × Machine
  | some (a, m) => (answer a, m)
  | none => (.nothing, m)

def MachineStep.perform (m : Machine) : MachineStep → MachineAnswer × Machine
  | push value => attempted m .number (m.push value)
  | pop => attempted m (.number ·.toInt) m.pop
  | heapAlloc cells => attempted m .number (m.heapAlloc cells)
  | heapRelease address =>
    attempted m (fun _ => .nothing) ((m.heapRelease address).map fun m => ((), m))
  | allocBlock cells => attempted? m .number (m.allocBlock? cells)
  | releaseBlock address => attempted? m .number (m.releaseBlock? address)
  | countBlocks => (.number m.blocks.length, m)
  | dataEnd => (.number m.dataEnd, m)
  | region address count => ((m.region? address count).elim .nothing .region, m)
  | cell address => (.ofCell? (m.cell? address), m)
  | setCell address value => attempted? m (.number ·.toInt) (m.exchange? address value)
  | poke address values =>
    let (previous, m) := exchangeAll m address values
    (.cells previous, m)
  | scan first last => (.cells ((addresses first last).map m.cell?), m)
  | readText address limit => (.ofText? (m.readText? address limit), m)
  | writeText address text size =>
    attempted? m .ofNat? (m.writeText? address text (size.getD (text.length + 1)))
  | name => (.text m.name, m)
  | countPublics => (.number m.publics.length, m)
  | publicIndex s => (.ofNat? (m.publicIndex? s), m)
  | publicName index => (.ofText? (m.publicName? index), m)
  | publicVar s => (.ofNumber? (m.publicVar? s), m)
  | nativeAddress s => (.ofNat? (m.nativeAddress? s), m)
  | raise s => (.nothing, m.raise s)
  | status => (.number m.status.code.toInt, m)
  | takeStatus => (.number m.status.code.toInt, m.raise .clear)

def MachineStep.performAll (m : Machine) : List MachineStep → List MachineAnswer
  | [] => []
  | step :: steps =>
    let (answer, m) := step.perform m
    answer :: performAll m steps

end ScriptNatives.Scenario
