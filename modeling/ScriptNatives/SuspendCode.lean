import ScriptNatives.Cell

/-!
# Suspend codes

A native asks the scheduler for something by putting its instance to sleep and returning a
suspend code: a cell whose highest byte says what is asked for and whose low 24 bits carry an
argument. Kinds without an argument leave those bits zero, and a cell that has any of them set
under such a kind is no suspend code.
-/
namespace ScriptNatives

/-- What the scheduler is asked to do. -/
inductive SuspendKind where
  | fork
  | forkCommit
  | forkEnd
  | allocVar
  | allocVarZero
  | freeVar
  | parallel
  | parallelEnd
  | tailCall
  deriving DecidableEq, Repr

namespace SuspendKind

/-- Every kind, by ascending tag. -/
def all : List SuspendKind :=
  [fork, forkCommit, forkEnd, allocVar, allocVarZero, freeVar, parallel, parallelEnd, tailCall]

def name : SuspendKind → String
  | fork => "Fork"
  | forkCommit => "ForkCommit"
  | forkEnd => "ForkEnd"
  | allocVar => "AllocVar"
  | allocVarZero => "AllocVarZero"
  | freeVar => "FreeVar"
  | parallel => "Parallel"
  | parallelEnd => "ParallelEnd"
  | tailCall => "TailCall"

def ofName? (name : String) : Option SuspendKind := all.find? (·.name == name)

/-- The highest byte of the codes of a kind. -/
def tagByte : SuspendKind → Nat
  | fork => 0x8A
  | forkCommit => 0x8B
  | forkEnd => 0x8C
  | allocVar => 0x8D
  | allocVarZero => 0x8E
  | freeVar => 0x8F
  | parallel => 0x90
  | parallelEnd => 0x91
  | tailCall => 0x92

/-- The tag as a word of its own, with all payload bits zero. -/
def tag (k : SuspendKind) : Nat := k.tagByte * 0x1000000

/-- The kind whose tag is exactly that word. -/
def ofTag? (word : Nat) : Option SuspendKind := all.find? (·.tag == word)

/-- Whether the codes of a kind carry an argument. -/
def hasPayload : SuspendKind → Bool
  | forkEnd | parallelEnd | tailCall => false
  | _ => true

theorem ofTag?_tag (k : SuspendKind) : ofTag? k.tag = some k := by cases k <;> decide

theorem tag_of_ofTag? {word : Nat} {k : SuspendKind} (h : ofTag? word = some k) : k.tag = word := by
  simpa using List.find?_some h

end SuspendKind

/-- A request to the scheduler. The payload fits 24 bits, and is zero where the kind takes none. -/
structure SuspendCode where
  kind : SuspendKind
  payload : Nat
  payload_lt : payload < 0x1000000
  payload_eq_zero : kind.hasPayload = false → payload = 0
  deriving DecidableEq, Repr

namespace SuspendCode

def defaultForkLevel : Cell := 2

/-- The bits of a fork's payload that hold its level. -/
def forkLevelMask : Nat := 15

/-- The bit of a fork's payload that asks for a copy of the caller's data. -/
def forkCopyBit : Nat := 16

/-- The low 24 bits of a word, where the payload is. -/
def payloadMask : Nat := 0x1000000 - 1

/-- The high 8 bits of a word, where the tag is. -/
def tagMask : Nat := 0x100000000 - 0x1000000

/-- A request with no argument. -/
def ofKind (kind : SuspendKind) : SuspendCode := ⟨kind, 0, by decide, fun _ => rfl⟩

/-- A request whose argument is kept modulo `2 ^ 24`, and dropped if the kind takes none. -/
def ofCell (kind : SuspendKind) (argument : Cell) : SuspendCode :=
  if h : kind.hasPayload = true then
    ⟨kind, argument.bits % 0x1000000, Nat.mod_lt _ (by decide), fun h' => by simp [h] at h'⟩
  else
    ofKind kind

/-- A fork of the given level, of which four bits are kept, with or without a copy of the data. -/
def fork (level : Cell) (copyData : Bool) : SuspendCode :=
  ⟨.fork, level.bits % 16 + (if copyData then forkCopyBit else 0),
    by unfold forkCopyBit; split <;> omega, fun h => by cases h⟩

/-- A request for `size` cells of dynamic storage, zeroed or not. -/
def alloc (size : Cell) (zero : Bool) : SuspendCode :=
  ofCell (if zero then .allocVarZero else .allocVar) size

/-- The payload read as a signed number of 24 bits. -/
def signedPayload (code : SuspendCode) : Int :=
  if code.payload < 0x800000 then code.payload else code.payload - 0x1000000

def encode (code : SuspendCode) : Cell := Cell.ofBits (code.kind.tag + code.payload)

/-- The request of that kind and payload, if the kind can have that payload. -/
def ofParts? (kind : SuspendKind) (payload : Nat) : Option SuspendCode :=
  if h : payload < 0x1000000 ∧ (kind.hasPayload = false → payload = 0) then
    some ⟨kind, payload, h.1, h.2⟩
  else
    none

def decode (c : Cell) : Option SuspendCode := do
  let kind ← SuspendKind.ofTag? (c.bits / 0x1000000 * 0x1000000)
  ofParts? kind (c.bits % 0x1000000)

theorem ofParts?_self (code : SuspendCode) : ofParts? code.kind code.payload = some code :=
  dif_pos ⟨code.payload_lt, code.payload_eq_zero⟩

theorem eq_of_ofParts? {kind : SuspendKind} {payload : Nat} {code : SuspendCode}
    (h : ofParts? kind payload = some code) : code.kind = kind ∧ code.payload = payload := by
  unfold ofParts? at h
  split at h
  · obtain rfl := Option.some.inj h
    exact ⟨rfl, rfl⟩
  · cases h

theorem bits_encode (code : SuspendCode) : code.encode.bits = code.kind.tag + code.payload := by
  have hp := code.payload_lt
  have hk : code.kind.tagByte < 256 := by cases code.kind <;> decide
  rw [encode, Cell.bits_ofBits, SuspendKind.tag]
  omega

theorem decode_encode (code : SuspendCode) : decode code.encode = some code := by
  have hp := code.payload_lt
  have tag : (code.kind.tag + code.payload) / 0x1000000 * 0x1000000 = code.kind.tag := by
    rw [SuspendKind.tag]
    omega
  have payload : (code.kind.tag + code.payload) % 0x1000000 = code.payload := by
    rw [SuspendKind.tag]
    omega
  rw [decode, bits_encode, tag, payload, SuspendKind.ofTag?_tag]
  exact ofParts?_self code

theorem encode_of_decode {c : Cell} {code : SuspendCode} (h : decode c = some code) :
    code.encode = c := by
  obtain ⟨kind, hkind, hparts⟩ := Option.bind_eq_some_iff.1 h
  obtain ⟨rfl, hpayload⟩ := eq_of_ofParts? hparts
  rw [encode, SuspendKind.tag_of_ofTag? hkind, hpayload,
    show c.bits / 0x1000000 * 0x1000000 + c.bits % 0x1000000 = c.bits by omega, Cell.ofBits_bits]

end SuspendCode

end ScriptNatives
