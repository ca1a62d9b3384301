import ScriptNatives.Cell

/-!
# Callback tokens

A token names a function inside script memory, where it has to survive being handled as
text: apart from the tag in the first byte and the unused bytes at the end, none of its bytes is
zero. A number is therefore written in base 255, and each digit stored one higher than it is.
A public index takes two digits and leaves the last byte zero; a native address takes five
digits over two cells and leaves the last two bytes zero. The two cannot be confused: the last
byte of the first cell is zero in one and never zero in the other.
-/
namespace ScriptNatives

namespace Token

/-- Why a number has no token, or a cell is none. -/
inductive Error where
  | publicIndexOutOfRange (index : Cell)
  | nativeAddressOutOfRange (address : Nat)
  | notAToken (bits : Nat)
  | zeroDigit
  deriving DecidableEq, Repr

def Error.message : Error → String
  | publicIndexOutOfRange index => "public index " ++ toString index.toInt ++ " out of range"
  | nativeAddressOutOfRange address => "native address " ++ hex address ++ " out of range"
  | notAToken bits => "cell " ++ hexWord bits ++ " is not an address token"
  | zeroDigit => "address token contains a zero digit"

/-- The byte that starts every token. -/
def tag : Nat := 0x1B

/-- The number of values a byte other than zero takes. -/
def base : Nat := 255

/-- Public indices from here on have no token: two digits end here. -/
def publicLimit : Nat := 65025

/-- Native addresses from here on have no token: five digits end here. -/
def nativeLimit : Nat := 1078203909375

/-- The byte for the digit of `n` at `place`, the lowest place being 0. -/
def digitByte (n : Nat) : Nat → Nat
  | 0 => n % base + 1
  | place + 1 => digitByte (n / base) place

/-- The number whose digits are stored in `bytes`, the lowest place first. -/
def value : List Nat → Except Error Nat
  | [] => .ok 0
  | b :: bytes =>
    if b = 0 then .error .zeroDigit
    else do
      let high ← value bytes
      return b - 1 + base * high

/-- The first `k` digit bytes of a number read back as the number modulo `255 ^ k`. -/
theorem value_digitBytes (k n : Nat) :
    value ((List.range k).map (digitByte n)) = .ok (n % base.pow k) := by
  induction k generalizing n with
  | zero => simp [value, Nat.mod_one]
  | succ k ih =>
    have tail : (List.range k).map (digitByte n ∘ Nat.succ) =
        (List.range k).map (digitByte (n / base)) := rfl
    have power : base.pow (k + 1) = base * base.pow k := Nat.pow_succ'
    rw [List.range_succ_eq_map, List.map_cons, List.map_map, tail, value, ih]
    have head : digitByte n 0 = n % base + 1 := rfl
    rw [if_neg (by omega), head, power, Nat.mod_mul]
    rfl

/-- The token of a public function, given its index. -/
def ofPublic (index : Cell) : Except Error Cell :=
  if 0 ≤ index.toInt ∧ index.toInt < publicLimit then
    let n := index.toInt.toNat
    .ok (Cell.ofBytes tag (digitByte n 0) (digitByte n 1) 0)
  else
    .error (.publicIndexOutOfRange index)

/-- The index of the public function that a token names. -/
def toPublic (token : Cell) : Except Error Nat :=
  if token.byte 3 = tag ∧ token.byte 0 = 0 then
    value [token.byte 2, token.byte 1]
  else
    .error (.notAToken token.bits)

/-- The two cells of the token of a native, given its host address. -/
def ofNative (address : Nat) : Except Error (Cell × Cell) :=
  if address < nativeLimit then
    .ok (Cell.ofBytes tag (digitByte address 0) (digitByte address 1) (digitByte address 2),
      Cell.ofBytes (digitByte address 3) (digitByte address 4) 0 0)
  else
    .error (.nativeAddressOutOfRange address)

/-- The host address that the two cells of a token name. -/
def toNative (first second : Cell) : Except Error Nat :=
  if first.byte 3 = tag ∧ second.byte 1 = 0 ∧ second.byte 0 = 0 then
    value [first.byte 2, first.byte 1, first.byte 0, second.byte 3, second.byte 2]
  else
    .error (.notAToken first.bits)

end Token

end ScriptNatives
