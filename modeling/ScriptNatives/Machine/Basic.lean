import ScriptNatives.Status
import ScriptNatives.Storage

/-!
# Machines

A machine owns a data block and any number of dynamic blocks beyond it, in one space of byte
addresses. The data block holds static data and the heap from the bottom up, the stack from
the top down, and dead space in between:

    0 .. heapBase .. heapTop          stackTop .. dataEnd | block | block | ..  nextBlock

Storage is live below `heapTop`, from `stackTop` to `dataEnd`, and in the dynamic blocks. Dynamic
blocks are laid out one after the other, and an address is never handed out a second time.
-/
namespace ScriptNatives

/-- Where live storage lies. -/
inductive Region where
  /-- The data block: static data, heap or stack. -/
  | data
  /-- A dynamic block. -/
  | dynamic
  deriving DecidableEq, Repr

/-- Why the stack or the heap refused. -/
inductive MachineFault where
  | stackOverflow (stackTop heapTop : Int)
  | stackUnderflow
  | heapOverflow (cells : Int)
  | badHeapRelease (address : Int)
  deriving DecidableEq, Repr

def MachineFault.message : MachineFault → String
  | stackOverflow stackTop heapTop =>
    "stack overflow (stk " ++ hexAddress stackTop ++ ", hea " ++ hexAddress heapTop ++ ")"
  | stackUnderflow => "stack underflow"
  | heapOverflow cells => "heap overflow (requested " ++ toString cells ++ " cells)"
  | badHeapRelease address => "heap release at " ++ hexAddress address ++ " outside the heap"

/-- A dynamic block and the address of its first cell. -/
structure Block where
  base : Int
  cells : Storage
  deriving DecidableEq, Repr

/-- The address after the last cell of a block. -/
def Block.limit (b : Block) : Int := b.base + 4 * b.cells.size

/-- A machine: its storage, what it declares, and its status. -/
structure Machine where
  name : String
  /-- The data block. -/
  data : Storage
  /-- Where static data ends and the heap begins. -/
  heapBase : Int
  /-- Where the heap ends. -/
  heapTop : Int
  /-- The address of the cell pushed last. -/
  stackTop : Int
  /-- Where the data block ends. -/
  dataEnd : Int
  /-- The base of the next dynamic block. -/
  nextBlock : Int
  /-- The dynamic blocks, newest and therefore highest first. -/
  blocks : List Block := []
  /-- The public functions by index. -/
  publics : List String := []
  /-- The public variables and their addresses, the last declared first. -/
  publicVars : List (String × Int) := []
  /-- The registered natives and their host addresses, the last declared first. -/
  natives : List (String × Nat) := []
  status : Status := .clear
  deriving DecidableEq, Repr

namespace Machine

/-- A machine with a zeroed data block, an empty heap and an empty stack. -/
def ofLayout (name : String) (dataCells heapStackCells : Nat) : Machine where
  name
  data := ⟨dataCells + heapStackCells, []⟩
  heapBase := 4 * dataCells
  heapTop := 4 * dataCells
  stackTop := 4 * (dataCells + heapStackCells)
  dataEnd := 4 * (dataCells + heapStackCells)
  nextBlock := 4 * (dataCells + heapStackCells)

def declarePublic (m : Machine) (name : String) : Machine :=
  { m with publics := m.publics ++ [name] }

/-- Declares a public variable; a later declaration of the same name takes its place. -/
def declarePublicVar (m : Machine) (name : String) (address : Int) : Machine :=
  { m with publicVars := (name, address) :: m.publicVars }

/-- Registers a native; a later registration of the same name takes its place. -/
def declareNative (m : Machine) (name : String) (address : Nat) : Machine :=
  { m with natives := (name, address) :: m.natives }

/-- The index of the first public function of that name. -/
def publicIndex? (m : Machine) (name : String) : Option Nat := m.publics.findIdx? (· == name)

def publicName? (m : Machine) (index : Int) : Option String :=
  if 0 ≤ index then m.publics[index.toNat]? else none

def publicVar? (m : Machine) (name : String) : Option Int := m.publicVars.lookup name

def nativeAddress? (m : Machine) (name : String) : Option Nat := m.natives.lookup name

def raise (m : Machine) (status : Status) : Machine := { m with status }

/-! ### Live storage -/

/-- The dynamic block that holds all of the `bytes` bytes from `address` on. Blocks do not overlap,
so the one with the highest base not above the address is the only one that can. -/
def blockAt? (m : Machine) (address bytes : Int) : Option Block :=
  (m.blocks.find? fun b => b.base ≤ address).filter fun b => address + bytes ≤ b.limit

/-- The region that `count` cells from `address` on lie in, if all of them are live, aligned
storage of the same region. -/
def region? (m : Machine) (address count : Int) : Option Region :=
  if address < 0 ∨ address % 4 ≠ 0 ∨ count ≤ 0 then
    none
  else
    let limit := address + 4 * count
    if limit ≤ m.heapTop ∨ (m.stackTop ≤ address ∧ limit ≤ m.dataEnd) then
      some .data
    else if m.dataEnd ≤ address then
      (m.blockAt? address (4 * count)).map fun _ => .dynamic
    else
      none

/-- The value of the live cell at an address. -/
def cell? (m : Machine) (address : Int) : Option Cell := do
  match ← m.region? address 1 with
  | .data => m.data.get? (address / 4).toNat
  | .dynamic =>
    let block ← m.blockAt? address 4
    block.cells.get? ((address - block.base) / 4).toNat

def setCell? (m : Machine) (address : Int) (value : Cell) : Option Machine := do
  match ← m.region? address 1 with
  | .data => return { m with data := m.data.set (address / 4).toNat value }
  | .dynamic =>
    let block ← m.blockAt? address 4
    let i := ((address - block.base) / 4).toNat
    return { m with blocks := m.blocks.map fun b =>
      if b.base = block.base then { b with cells := b.cells.set i value } else b }

/-- Writes the live cell at an address and returns its value before. -/
def exchange? (m : Machine) (address : Int) (value : Cell) : Option (Cell × Machine) := do
  return (← m.cell? address, ← m.setCell? address value)

/-- Writes cells one after the other from an address on, up to the first that is not live. Those
before it stay written; its address is returned, if there is one. -/
def setCells (m : Machine) (address : Int) : List Cell → Option Int × Machine
  | [] => (none, m)
  | value :: values =>
    match m.setCell? address value with
    | some m => m.setCells (address + 4) values
    | none => (some address, m)

/-- Writes cells from an address on, if together they lie in one region. -/
def store? (m : Machine) (address : Int) (values : List Cell) :
    Option (Option Int × Machine) := do
  let _ ← m.region? address values.length
  return m.setCells address values

/-! ### Stack and heap -/

/-- Pushes a value and returns its address. -/
def push (m : Machine) (value : Cell) : Except MachineFault (Int × Machine) :=
  if m.stackTop - 4 < m.heapTop then
    .error (.stackOverflow m.stackTop m.heapTop)
  else
    let stackTop := m.stackTop - 4
    .ok (stackTop, { m with stackTop, data := m.data.set (stackTop / 4).toNat value })

/-- Pops a value. Its cell is dead from then on. -/
def pop (m : Machine) : Except MachineFault (Cell × Machine) :=
  if m.dataEnd ≤ m.stackTop then
    .error .stackUnderflow
  else
    .ok ((m.data.get? (m.stackTop / 4).toNat).getD 0, { m with stackTop := m.stackTop + 4 })

/-- Reserves zeroed cells at the top of the heap and returns their address. The new end of the heap
is compared as a number: a request that would end beyond what a cell holds, where
`m.heapTop + 4 * cells` exceeds `2 ^ 31 - 1`, is refused like any other that is too large, while a
sum of 32 bits would overflow and trap there. -/
def heapAlloc (m : Machine) (cells : Int) : Except MachineFault (Int × Machine) :=
  match Cell.span? cells with
  | some bytes =>
    if 0 < bytes ∧ m.heapTop + bytes ≤ m.stackTop then
      let heapTop := m.heapTop + bytes
      .ok (m.heapTop, { m with
        heapTop
        data := m.data.clear (m.heapTop / 4).toNat (heapTop / 4).toNat })
    else
      .error (.heapOverflow cells)
  | none => .error (.heapOverflow cells)

/-- Moves the top of the heap down to an address in it, aligned or not. -/
def heapRelease (m : Machine) (address : Int) : Except MachineFault Machine :=
  if address < m.heapBase ∨ m.heapTop < address then
    .error (.badHeapRelease address)
  else
    .ok { m with heapTop := address }

/-! ### Dynamic blocks -/

/-- Adds a zeroed dynamic block and returns its base, as long as addresses last. -/
def allocBlock? (m : Machine) (cells : Int) : Option (Int × Machine) := do
  let bytes ← Cell.span? cells
  if 0 < bytes ∧ m.nextBlock + bytes ≤ Cell.maxValue then
    return (m.nextBlock, { m with
      nextBlock := m.nextBlock + bytes
      blocks := ⟨m.nextBlock, ⟨cells.toNat, []⟩⟩ :: m.blocks })
  else
    none

/-- Drops the dynamic block around an address and returns its base. -/
def releaseBlock? (m : Machine) (address : Int) : Option (Int × Machine) := do
  if address < m.dataEnd then
    none
  else
    let block ← m.blockAt? address 4
    return (block.base, { m with blocks := m.blocks.filter fun b => b.base != block.base })

/-! ### Text

A text is stored one character to a cell and ends at a zero cell. Reading goes cell by cell and
may run on from one region into the next; writing needs the whole buffer to be live in one. -/

/-- The characters from an address on, up to a zero cell, but at most `limit` of them. The cell
behind the last one is looked at too, so it has to be live. -/
def readChars? (m : Machine) (address : Int) (limit : Nat) : Option (List Char) := do
  let c ← m.cell? address
  if c = 0 then
    return []
  else
    match limit with
    | 0 => return []
    | limit + 1 => return c.toChar :: (← m.readChars? (address + 4) limit)

/-- The text from an address on, at most `limit` characters. -/
def readText? (m : Machine) (address : Int) (limit : Nat) : Option String :=
  (m.readChars? address limit).map String.ofList

/-- Writes a text and a zero cell into a buffer of `size` cells, leaving out the characters that
do not fit. Returns how many characters were written, unless a cell on the way was not live. -/
def writeText? (m : Machine) (address : Int) (text : String) (size : Int) :
    Option (Option Nat × Machine) := do
  let _ ← m.region? address size
  let chars := text.toList.take (size - 1).toNat
  let (dead, m) := m.setCells address (chars.map Cell.ofChar ++ [0])
  return (if dead.isNone then some chars.length else none, m)

end Machine

end ScriptNatives
