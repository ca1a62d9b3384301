import ScriptNatives.Proofs.Machine.Ranges

/-!
# Machine memory with bounded numbers

Addresses are computed in `Int`, and no sum is too large for that. A program whose addresses are
cells, and whose lists have an end, may come to a step that it cannot carry out; then it traps.
Here the operations on memory are carried out once more as such a program does it, step by step.
On a well-formed machine none of them traps, whatever it is asked for, so each comes to what it
comes to without bounds: all live storage, and even the address behind it, is within reach of a
cell.
-/
namespace ScriptNatives.Bounded

variable {α β : Type}

/-! ### Traps -/

/-- Why a step could not be carried out. -/
inductive Trap where
  /-- A number that no cell holds was computed. -/
  | overflow (n : Int)
  /-- A count went below zero, or beyond the bits of a cell. -/
  | badCount (n : Int)
  /-- A position was looked at that the list does not have. -/
  | badIndex (i length : Nat)
  /-- A value was taken out of an empty slot. -/
  | emptySlot (i : Nat)
  /-- An id was asked for of a slot that ids cannot tell apart from others. -/
  | unnamedSlot (i : Nat)
  deriving DecidableEq, Repr

/-- A computation that may trap. -/
abbrev Trapping (α : Type) := Except Trap α

/-- A search that may trap, and may find nothing. -/
abbrev Search (α : Type) := OptionT Trapping α

/-- A search that does not trap. -/
def calm? (x : Option α) : Search α := OptionT.mk (.ok x)

/-- A number that has to fit a cell. -/
def word (n : Int) : Trapping Int :=
  if -0x80000000 ≤ n ∧ n ≤ Cell.maxValue then .ok n else .error (.overflow n)

/-- A number that has to be a count. -/
def count (n : Int) : Trapping Nat :=
  if 0 ≤ n ∧ n ≤ 0xFFFFFFFF then .ok n.toNat else .error (.badCount n)

/-- The value at a position of a list, which has to be there. -/
def item (l : List α) (i : Nat) : Trapping α :=
  match l[i]? with
  | some a => .ok a
  | none => .error (.badIndex i l.length)

/-- The values from a position of a list on, which may also be the position behind the last. -/
def itemsFrom (l : List α) (i : Nat) : Trapping (List α) :=
  if i ≤ l.length then .ok (l.drop i) else .error (.badIndex i l.length)

/-- A sum, if it fits a cell. To ask for it does not trap. -/
def sum? (a b : Int) : Option Int :=
  if -0x80000000 ≤ a + b ∧ a + b ≤ Cell.maxValue then some (a + b) else none

theorem word_eq {n : Int} (hlow : -0x80000000 ≤ n) (hhigh : n ≤ Cell.maxValue) :
    word n = .ok n := if_pos ⟨hlow, hhigh⟩

theorem count_eq (n : Nat) (hhigh : n ≤ 0xFFFFFFFF) : count n = .ok n := by
  rw [count, if_pos (by omega), Int.toNat_natCast]

theorem item_eq {l : List α} {i : Nat} {a : α} (h : l[i]? = some a) : item l i = .ok a := by
  rw [item, h]

theorem itemsFrom_eq {l : List α} {i : Nat} (h : i ≤ l.length) :
    itemsFrom l i = .ok (l.drop i) := if_pos h

theorem sum?_eq {a b : Int} (hlow : -0x80000000 ≤ a + b) (hhigh : a + b ≤ Cell.maxValue) :
    sum? a b = some (a + b) := if_pos ⟨hlow, hhigh⟩

/-- A step that does not trap is as good as its result. -/
@[simp] theorem ok_bind (a : α) (f : α → Trapping β) : (Except.ok a : Trapping α) >>= f = f a := rfl

@[simp] theorem lift_ok_bind (a : α) (f : α → Search β) :
    (liftM (Except.ok a : Trapping α) : Search α) >>= f = f a := rfl

@[simp] theorem calm?_none_bind (f : α → Search β) : calm? none >>= f = calm? none := rfl

@[simp] theorem calm?_some_bind (a : α) (f : α → Search β) : calm? (some a) >>= f = f a := rfl

@[simp] theorem pure_eq_calm? (a : α) : (pure a : Search α) = calm? (some a) := rfl

@[simp] theorem failure_eq_calm? : (failure : Search α) = calm? none := rfl

@[simp] theorem run_calm? (x : Option α) : (calm? x).run = .ok x := rfl

/-- A search goes on without a trap if it does from everything that can be found. -/
theorem calm?_bind {x : Option α} {f : α → Search β} {g : α → Option β}
    (h : ∀ a, x = some a → f a = calm? (g a)) : calm? x >>= f = calm? (x.bind g) := by
  cases x with
  | none => rfl
  | some a => exact h a rfl

/-! ### Live storage -/

def blockAt? (m : Machine) (address bytes : Int) : Search Block := do
  let b ← calm? (m.blocks.find? fun b => b.base ≤ address)
  let span ← word (4 * b.cells.size)
  let limit ← word (b.base + span)
  let last ← calm? (sum? address bytes)
  if last ≤ limit then return b else failure

def region? (m : Machine) (address cells : Int) : Search Region :=
  if address < 0 ∨ address % 4 ≠ 0 ∨ cells ≤ 0 then
    failure
  else do
    let bytes ← calm? (Cell.span? cells)
    let limit ← calm? (sum? address bytes)
    if limit ≤ m.heapTop ∨ (m.stackTop ≤ address ∧ limit ≤ m.dataEnd) then
      return .data
    else if m.dataEnd ≤ address then
      let _ ← blockAt? m address bytes
      return .dynamic
    else
      failure

def inBlock? (m : Machine) (address : Int) : Search (Block × Nat) := do
  let block ← blockAt? m address 4
  let offset ← word (address - block.base)
  return (block, (offset / 4).toNat)

def cell? (m : Machine) (address : Int) : Search Cell := do
  match ← region? m address 1 with
  | .data => calm? (m.data.get? (address / 4).toNat)
  | .dynamic =>
    let (block, i) ← inBlock? m address
    calm? (block.cells.get? i)

def setCell? (m : Machine) (address : Int) (value : Cell) : Search Machine := do
  match ← region? m address 1 with
  | .data => return { m with data := m.data.set (address / 4).toNat value }
  | .dynamic =>
    let (block, i) ← inBlock? m address
    return { m with blocks := m.blocks.map fun b =>
      if b.base = block.base then { b with cells := b.cells.set i value } else b }

variable {m : Machine} {address bytes cells : Int} {value : Cell}

/-- A block lies behind the data block and ends at an address. -/
theorem within_reach (hm : m.WellFormed) {b : Block} (hb : b ∈ m.blocks) :
    0 ≤ b.base ∧ b.limit ≤ Cell.maxValue := by
  have hend := hm.dataEnd_le_base b hb
  have hlimit := hm.limit_le_nextBlock b hb
  have hnext := hm.nextBlock_le
  have hsize := hm.dataEnd_eq
  exact ⟨by omega, by omega⟩

theorem blockAt?_eq (hm : m.WellFormed) (hbytes : 0 ≤ bytes) :
    blockAt? m address bytes = calm? (m.blockAt? address bytes) := by
  unfold blockAt? Machine.blockAt?
  cases hfind : m.blocks.find? fun b => b.base ≤ address with
  | none => rfl
  | some b =>
    have hbase : b.base ≤ address := by simpa using List.find?_some hfind
    obtain ⟨hlow, hhigh⟩ := within_reach hm (List.mem_of_find?_eq_some hfind)
    rw [Block.limit] at hhigh
    have hspan : word (4 * b.cells.size) = .ok (4 * b.cells.size) := word_eq (by omega) (by omega)
    have hlimit : word (b.base + 4 * b.cells.size) = .ok b.limit := word_eq (by omega) hhigh
    simp only [calm?_some_bind, hspan, lift_ok_bind, hlimit]
    by_cases hlast : address + bytes ≤ Cell.maxValue
    · rw [sum?_eq (by omega) hlast]
      by_cases hin : address + bytes ≤ b.limit <;> simp [Option.filter, hin]
    · have hout : ¬ address + bytes ≤ b.limit := by
        rw [Block.limit]
        omega
      simp [sum?, hlast, Option.filter, hout]

/-- A block of one cell at the last aligned address would end beyond the last number. -/
example : (blockAt? { Machine.ofLayout "m" 0 0 with blocks := [⟨0x7FFFFFFC, ⟨1, []⟩⟩] }
    0x7FFFFFFC 4).run = .error (.overflow 0x80000000) := rfl

theorem region?_eq (hm : m.WellFormed) (address cells : Int) :
    region? m address cells = calm? (m.region? address cells) := by
  unfold region?
  by_cases hshape : address < 0 ∨ address % 4 ≠ 0 ∨ cells ≤ 0
  · rw [if_pos hshape, Machine.region?, if_pos hshape]
    rfl
  · rw [if_neg hshape]
    by_cases hreach : address + 4 * cells ≤ Cell.maxValue
    · have hspan : Cell.span? cells = some (4 * cells) := if_pos ⟨by omega, by omega⟩
      simp only [hspan, calm?_some_bind, sum?_eq (a := address) (by omega) hreach,
        blockAt?_eq hm (show 0 ≤ 4 * cells by omega), Machine.region?, if_neg hshape]
      split
      · rfl
      · split
        · cases m.blockAt? address (4 * cells) <;> rfl
        · rfl
    · have hnone : m.region? address cells = none :=
        Option.eq_none_iff_forall_ne_some.mpr fun r hr => hreach (hm.in_reach hr).2
      have hsum : sum? address (4 * cells) = none := if_neg fun h => hreach h.2
      rw [hnone, Cell.span?]
      split
      · rw [calm?_some_bind, hsum]
        rfl
      · rfl

/-- The distance of a cell from the base of its block is a cell, too. -/
theorem inBlock?_eq (hm : m.WellFormed) (address : Int) : inBlock? m address =
    calm? ((m.blockAt? address 4).map fun b => (b, ((address - b.base) / 4).toNat)) := by
  rw [inBlock?, blockAt?_eq hm (by decide)]
  cases hblock : m.blockAt? address 4 with
  | none => rfl
  | some b =>
    obtain ⟨hb, hbase, hlimit⟩ := Machine.mem_of_blockAt? hblock
    obtain ⟨hlow, hhigh⟩ := within_reach hm hb
    have hoffset : word (address - b.base) = .ok (address - b.base) :=
      word_eq (by omega) (by omega)
    rw [calm?_some_bind, hoffset]
    rfl

theorem cell?_eq (hm : m.WellFormed) (address : Int) :
    cell? m address = calm? (m.cell? address) := by
  rw [cell?, region?_eq hm]
  refine calm?_bind fun r _ => ?_
  cases r with
  | data => rfl
  | dynamic =>
    simp only [inBlock?_eq hm]
    cases m.blockAt? address 4 <;> rfl

theorem setCell?_eq (hm : m.WellFormed) (address : Int) (value : Cell) :
    setCell? m address value = calm? (m.setCell? address value) := by
  rw [setCell?, region?_eq hm]
  refine calm?_bind fun r _ => ?_
  cases r with
  | data => rfl
  | dynamic =>
    simp only [inBlock?_eq hm]
    cases m.blockAt? address 4 <;> rfl

/-! ### Cells one after the other -/

def exchange? (m : Machine) (address : Int) (value : Cell) : Search (Cell × Machine) := do
  return (← cell? m address, ← setCell? m address value)

/-- The next address of a counter, which skips some bytes, hands the address out, and then stands
one byte behind it. -/
def pull (counter skip : Int) : Trapping (Int × Int) := do
  let address ← word (counter + skip)
  return (address, ← word (address + 1))

/-- Writes cells to the addresses of a counter, up to the first that is not live. The counter is
asked for an address before it is seen that no cell is left. -/
def setCells (m : Machine) (counter skip : Int) : List Cell → Trapping (Option Int × Machine)
  | [] => do
    let _ ← pull counter skip
    return (none, m)
  | value :: values => do
    let (address, counter) ← pull counter skip
    match ← (setCell? m address value).run with
    | some m => setCells m counter 3 values
    | none => return (some address, m)

def store? (m : Machine) (address : Int) (values : List Cell) :
    Search (Option Int × Machine) := do
  let _ ← region? m address values.length
  setCells m address 0 values

/-- Writes cells up to the first that is not live. Where each goes is computed from the first
address and its number. -/
def fillFrom (m : Machine) (address : Int) (i : Nat) :
    List Cell → Trapping (Option Int × Machine)
  | [] => return (none, m)
  | value :: values => do
    let offset ← word (4 * i)
    let place ← word (address + offset)
    match ← (setCell? m place value).run with
    | some m => fillFrom m address (i + 1) values
    | none => return (some place, m)

def writeText? (m : Machine) (address : Int) (text : String) (size : Int) :
    Search (Option Nat × Machine) := do
  let _ ← region? m address size
  let capacity ← count (size - 1)
  let chars := text.toList.take capacity
  let (dead, m) ← fillFrom m address 0 (chars.map Cell.ofChar ++ [0])
  return (if dead.isNone then some chars.length else none, m)

def readChars? (m : Machine) (address : Int) (limit : Nat) : Search (List Char) := do
  let c ← cell? m address
  if c = 0 then
    return []
  else
    match limit with
    | 0 => return []
    | limit + 1 =>
      let next ← calm? (sum? address 4)
      return c.toChar :: (← readChars? m next limit)

def readText? (m : Machine) (address : Int) (limit : Nat) : Search String :=
  String.ofList <$> readChars? m address limit

def releaseBlock? (m : Machine) (address : Int) : Search (Int × Machine) := do
  if address < m.dataEnd then
    failure
  else
    let block ← blockAt? m address 4
    return (block.base, { m with blocks := m.blocks.filter fun b => b.base != block.base })

theorem exchange?_eq (hm : m.WellFormed) (address : Int) (value : Cell) :
    exchange? m address value = calm? (m.exchange? address value) := by
  rw [exchange?, cell?_eq hm, setCell?_eq hm]
  unfold Machine.exchange?
  cases m.cell? address <;> cases m.setCell? address value <;> rfl

theorem pull_eq {counter skip : Int} (hlow : 0 ≤ counter + skip)
    (haligned : (counter + skip) % 4 = 0) (hhigh : counter + skip ≤ Cell.maxValue) :
    pull counter skip = .ok (counter + skip, counter + skip + 1) := by
  have hmax : Cell.maxValue = 0x7FFFFFFF := rfl
  rw [pull, word_eq (by omega) hhigh, ok_bind, word_eq (by omega) (by omega)]
  rfl

/-- A counter is asked for one address more than there are cells. Addresses are aligned, and a cell
holds one number more than the largest of them, so the counter can move behind it, too. -/
theorem setCells_eq (hm : m.WellFormed) (counter skip : Int) {values : List Cell}
    (hlow : 0 ≤ counter + skip) (haligned : (counter + skip) % 4 = 0)
    (hreach : counter + skip + 4 * values.length ≤ Cell.maxValue) :
    setCells m counter skip values = .ok (m.setCells (counter + skip) values) := by
  induction values generalizing m counter skip with
  | nil =>
    rw [setCells, pull_eq hlow haligned (by simpa using hreach)]
    rfl
  | cons value values ih =>
    rw [List.length_cons] at hreach
    simp only [setCells, pull_eq hlow haligned (by omega), ok_bind, setCell?_eq hm, run_calm?,
      Machine.setCells]
    cases hset : m.setCell? (counter + skip) value with
    | none => rfl
    | some m₁ =>
      have hwf := hm.congr (Machine.layout_eq_of_blank_eq (Machine.blank_setCell? hset))
      have hnext : counter + skip + 1 + 3 = counter + skip + 4 := by omega
      have hrest := ih hwf (counter + skip + 1) 3 (by omega) (by omega) (by omega)
      rwa [hnext] at hrest

theorem aligned_of_region? (hm : m.WellFormed) {r : Region} (h : m.region? address cells = some r) :
    address % 4 = 0 := by
  cases r with
  | data => exact (Machine.region?_eq_data_iff.mp h).2.1
  | dynamic => exact (hm.region?_eq_dynamic_iff.mp h).1

theorem store?_eq (hm : m.WellFormed) (address : Int) (values : List Cell) :
    store? m address values = calm? (m.store? address values) := by
  rw [store?, region?_eq hm]
  refine calm?_bind fun r hr => ?_
  obtain ⟨hlow, hhigh⟩ := hm.in_reach hr
  have haligned := aligned_of_region? hm hr
  rw [setCells_eq hm address 0 (by omega) (by omega) (by omega), Int.add_zero]
  rfl

theorem fillFrom_eq (hm : m.WellFormed) (hlow : 0 ≤ address) (i : Nat) (values : List Cell)
    (hreach : address + 4 * (i + values.length) ≤ Cell.maxValue) :
    fillFrom m address i values = .ok (m.setCells (address + 4 * i) values) := by
  induction values generalizing m i with
  | nil => rfl
  | cons value values ih =>
    rw [List.length_cons] at hreach
    have hoffset : word (4 * i) = .ok (4 * (i : Int)) := word_eq (by omega) (by omega)
    have hplace : word (address + 4 * i) = .ok (address + 4 * i) := word_eq (by omega) (by omega)
    simp only [fillFrom, hoffset, hplace, ok_bind, setCell?_eq hm, run_calm?, Machine.setCells]
    cases hset : m.setCell? (address + 4 * i) value with
    | none => rfl
    | some m₁ =>
      have hwf := hm.congr (Machine.layout_eq_of_blank_eq (Machine.blank_setCell? hset))
      have hnext : address + 4 * ((i + 1 : Nat) : Int) = address + 4 * i + 4 := by omega
      have hrest := ih hwf (i + 1) (by omega)
      rwa [hnext] at hrest

/-- A text that is cut off fits the buffer, with the zero cell behind it, and the buffer is within
reach. -/
theorem writeText?_eq (hm : m.WellFormed) (address : Int) (text : String) (size : Int) :
    writeText? m address text size = calm? (m.writeText? address text size) := by
  rw [writeText?, region?_eq hm]
  refine calm?_bind fun r hr => ?_
  obtain ⟨hlow, hhigh⟩ := hm.in_reach hr
  have hlength := Machine.length_textCells_le hr text
  have hmax : Cell.maxValue = 0x7FFFFFFF := rfl
  have hsize : 1 ≤ size := by
    rw [Machine.textCells, List.length_append, List.length_singleton] at hlength
    omega
  have hcapacity : count (size - 1) = .ok (size - 1).toNat := if_pos ⟨by omega, by omega⟩
  have hfill := fillFrom_eq hm hlow 0 (Machine.textCells text size) (by omega)
  rw [Machine.textCells, Int.natCast_zero, Int.mul_zero, Int.add_zero] at hfill
  simp only [hcapacity, lift_ok_bind, hfill]
  rfl

/-- Behind a cell that is live there is an address, be it live or not. -/
theorem readChars?_eq (hm : m.WellFormed) (address : Int) (limit : Nat) :
    readChars? m address limit = calm? (m.readChars? address limit) := by
  induction limit generalizing address with
  | zero =>
    rw [readChars?, cell?_eq hm, Machine.readChars?]
    refine calm?_bind fun c _ => ?_
    split <;> rfl
  | succ limit ih =>
    rw [readChars?, cell?_eq hm, Machine.readChars?]
    refine calm?_bind fun c hc => ?_
    have hlive : (m.region? address 1).isSome := by simp [← hm.isSome_cell?, hc]
    obtain ⟨r, hr⟩ := Option.isSome_iff_exists.mp hlive
    obtain ⟨hlow, hhigh⟩ := hm.in_reach hr
    simp only [sum?_eq (a := address) (b := 4) (by omega) (by omega), calm?_some_bind, ih]
    split
    · rfl
    · cases m.readChars? (address + 4) limit <;> rfl

theorem readText?_eq (hm : m.WellFormed) (address : Int) (limit : Nat) :
    readText? m address limit = calm? (m.readText? address limit) := by
  rw [readText?, readChars?_eq hm, Machine.readText?]
  cases m.readChars? address limit <;> rfl

theorem releaseBlock?_eq (hm : m.WellFormed) (address : Int) :
    releaseBlock? m address = calm? (m.releaseBlock? address) := by
  rw [releaseBlock?, Machine.releaseBlock?, blockAt?_eq hm (by decide)]
  split
  · rfl
  · cases m.blockAt? address 4 <;> rfl

end ScriptNatives.Bounded
