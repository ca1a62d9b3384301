/-!
# Cells

A cell is the machine word of a script: a signed number of 32 bits. A cell that is
stored or passed around is a `Cell`. Addresses, counts and registers are computed in `Int`
and read off a cell with `toInt`, so no computation below wraps unless its name says so.
Wire formats read a cell as four bytes; `Cell.bits` is that unsigned reading.
-/
namespace ScriptNatives

/-- The machine word of a script. -/
abbrev Cell := Int32

namespace Cell

/-- The number of bytes between the addresses of two neighbouring cells. -/
def size : Nat := 4

/-- The largest number a cell holds; no address of live storage ends beyond it. -/
def maxValue : Int := 0x7FFFFFFF

/-- The unsigned reading of a cell. -/
def bits (c : Cell) : Nat := (c.toInt % 0x100000000).toNat

/-- The cell whose unsigned reading is `n` modulo `2 ^ 32`. -/
def ofBits (n : Nat) : Cell := Int32.ofInt n

/-- Byte `i` of a cell, the lowest first. -/
def byte (c : Cell) (i : Nat) : Nat := (c.bits >>> (8 * i)) % 256

/-- The cell with the given four bytes, the highest first. -/
def ofBytes (b₃ b₂ b₁ b₀ : Nat) : Cell :=
  ofBits (((b₃ * 256 + b₂) * 256 + b₁) * 256 + b₀)

/-- The bytes that `count` cells span, if that number fits a cell itself. -/
def span? (count : Int) : Option Int :=
  if -0x80000000 ≤ 4 * count ∧ 4 * count ≤ maxValue then some (4 * count) else none

def ofBool (b : Bool) : Cell := if b then 1 else 0

/-- The character of a cell; a cell that is no Unicode scalar value reads as U+FFFD. -/
def toChar (c : Cell) : Char :=
  if c.bits.isValidChar then Char.ofNat c.bits else '\uFFFD'

/-- The cell that holds the code point of a character. -/
def ofChar (ch : Char) : Cell := ofBits ch.toNat

theorem bits_lt (c : Cell) : c.bits < 0x100000000 := by
  unfold bits
  omega

theorem ofBits_bits (c : Cell) : ofBits c.bits = c := by
  have h : ((c.bits : Nat) : Int) = c.toInt % 0x100000000 := by
    unfold bits
    omega
  rw [ofBits, h, ← Int32.toInt_inj, Int32.toInt_ofInt]
  have low := Int32.le_toInt c
  have high := Int32.toInt_lt c
  rw [show Int32.size = 0x100000000 from rfl, Int.bmod_def]
  split <;> omega

theorem bits_ofBits (n : Nat) : (ofBits n).bits = n % 0x100000000 := by
  rw [bits, ofBits, Int32.toInt_ofInt, show Int32.size = 0x100000000 from rfl, Int.bmod_def]
  split <;> omega

theorem toInt_eq (c : Cell) :
    c.toInt = if c.bits < 0x80000000 then (c.bits : Int) else c.bits - 0x100000000 := by
  have low := Int32.le_toInt c
  have high := Int32.toInt_lt c
  unfold bits
  split <;> omega

theorem byte_ofBytes {b₃ b₂ b₁ b₀ : Nat} (h₃ : b₃ < 256) (h₂ : b₂ < 256) (h₁ : b₁ < 256)
    (h₀ : b₀ < 256) :
    (ofBytes b₃ b₂ b₁ b₀).byte 3 = b₃ ∧ (ofBytes b₃ b₂ b₁ b₀).byte 2 = b₂ ∧
      (ofBytes b₃ b₂ b₁ b₀).byte 1 = b₁ ∧ (ofBytes b₃ b₂ b₁ b₀).byte 0 = b₀ := by
  simp only [byte, ofBytes, bits_ofBits]
  omega

theorem ofBytes_byte (c : Cell) : ofBytes (c.byte 3) (c.byte 2) (c.byte 1) (c.byte 0) = c := by
  have h : ((c.byte 3 * 256 + c.byte 2) * 256 + c.byte 1) * 256 + c.byte 0 = c.bits := by
    have := c.bits_lt
    simp only [byte]
    omega
  rw [ofBytes, h, ofBits_bits]

end Cell

/-- Lower-case hexadecimal digits after `0x`. -/
def hex (n : Nat) : String := "0x" ++ String.ofList (Nat.toDigits 16 n)

/-- Lower-case hexadecimal after `0x`, filled with zeros to the eight digits of a cell. -/
def hexWord (n : Nat) : String :=
  let digits := Nat.toDigits 16 n
  "0x" ++ String.ofList (List.replicate (8 - digits.length) '0' ++ digits)

/-- The hexadecimal text of an address; a negative one shows its 32-bit two's complement. -/
def hexAddress (a : Int) : String := hex (a % 0x100000000).toNat

end ScriptNatives
