import ScriptNatives.SuspendCode

/-!
# Suspend codes as cells

A request is read back from its cell, and a cell that reads as a request is the cell of that
request, so the two determine each other. A cell is no request for one of two reasons: its highest
byte is the tag of no kind, or it is the tag of a kind without an argument and some other bit is
set. All kinds have the sign bit in their tags, which tells requests from small return values.
-/
namespace ScriptNatives

/-- The low 24 bits of a number do not depend on whether it fits a cell. -/
theorem Cell.toInt_ofInt_mod (n : Int) : (Int32.ofInt n).toInt % 0x1000000 = n % 0x1000000 := by
  rw [Int32.toInt_ofInt, show Int32.size = 0x100000000 from rfl, Int.bmod_def]
  split <;> omega

namespace SuspendKind

theorem tagByte_bounds (k : SuspendKind) : 0x80 ≤ k.tagByte ∧ k.tagByte < 0x100 := by
  cases k <;> decide

theorem ofTag?_eq_some_iff {word : Nat} {k : SuspendKind} : ofTag? word = some k ↔ k.tag = word :=
  ⟨tag_of_ofTag?, fun h => h ▸ ofTag?_tag k⟩

/-- The high bits of a cell are the tag of a kind if its highest byte is the kind's. -/
theorem tag_eq_iff (k : SuspendKind) (c : Cell) :
    k.tag = c.bits / 0x1000000 * 0x1000000 ↔ k.tagByte = c.byte 3 := by
  have hbits := c.bits_lt
  rw [tag, Cell.byte]
  omega

end SuspendKind

namespace SuspendCode

variable {kind : SuspendKind} {c : Cell} {code : SuspendCode}

/-! ### Arguments -/

theorem kind_ofCell (kind : SuspendKind) (c : Cell) : (ofCell kind c).kind = kind := by
  unfold ofCell
  split <;> rfl

/-- The argument of a suspend code is the cell it was made from, modulo `2 ^ 24`. -/
theorem payload_ofCell_eq (hkind : kind.hasPayload = true) (c : Cell) :
    ((ofCell kind c).payload : Int) = c.toInt % 0x1000000 := by
  rw [ofCell, dif_pos hkind]
  simp only [Cell.bits]
  omega

/-- A number that does not fit a cell comes to the same argument. -/
theorem payload_ofCell_ofInt (kind : SuspendKind) (hkind : kind.hasPayload = true) (n : Int) :
    ((ofCell kind (Int32.ofInt n)).payload : Int) = n % 0x1000000 :=
  (payload_ofCell_eq hkind _).trans (Cell.toInt_ofInt_mod n)

theorem payload_fork (level : Cell) (copyData : Bool) :
    ((fork level copyData).payload : Int) = level.toInt % 16 + if copyData then 16 else 0 := by
  simp only [fork, forkCopyBit, Cell.bits]
  split <;> omega

/-- A signed argument survives if it fits 24 bits. -/
theorem signedPayload_ofCell_eq_iff (hkind : kind.hasPayload = true) (c : Cell) :
    (ofCell kind c).signedPayload = c.toInt ↔ -0x800000 ≤ c.toInt ∧ c.toInt < 0x800000 := by
  have hpayload := payload_ofCell_eq hkind c
  rw [signedPayload]
  split <;> omega

/-! ### Cells -/

theorem encode_neg (code : SuspendCode) : code.encode.toInt < 0 := by
  obtain ⟨hlow, _⟩ := code.kind.tagByte_bounds
  have hlt := code.encode.bits_lt
  rw [Cell.toInt_eq, bits_encode, SuspendKind.tag]
  rw [bits_encode, SuspendKind.tag] at hlt
  rw [if_neg (by omega)]
  omega

/-- A kind may have no such argument. -/
theorem ofParts?_eq_none_iff {payload : Nat} (hpayload : payload < 0x1000000) :
    ofParts? kind payload = none ↔ kind.hasPayload = false ∧ payload ≠ 0 := by
  simp [ofParts?, hpayload]

theorem decode_eq_none_iff : decode c = none ↔
    (∀ kind : SuspendKind, kind.tagByte ≠ c.byte 3) ∨
      ∃ kind : SuspendKind,
        kind.tagByte = c.byte 3 ∧ kind.hasPayload = false ∧ c.bits % 0x1000000 ≠ 0 := by
  have hparts (kind : SuspendKind) : ofParts? kind (c.bits % 0x1000000) = none ↔
      kind.hasPayload = false ∧ c.bits % 0x1000000 ≠ 0 :=
    ofParts?_eq_none_iff (Nat.mod_lt _ (by decide))
  have htag (kind : SuspendKind) :
      SuspendKind.ofTag? (c.bits / 0x1000000 * 0x1000000) = some kind ↔ kind.tagByte = c.byte 3 :=
    SuspendKind.ofTag?_eq_some_iff.trans (kind.tag_eq_iff c)
  cases hfound : SuspendKind.ofTag? (c.bits / 0x1000000 * 0x1000000) with
  | none =>
    have hnone : ∀ kind : SuspendKind, kind.tagByte ≠ c.byte 3 := by
      intro kind hkind
      rw [← htag, hfound] at hkind
      cases hkind
    simp [decode, hfound, hnone]
  | some found =>
    have hbyte := (htag found).mp hfound
    -- the byte belongs to one kind only, so the cell is refused for its argument or not at all
    have honly : ∀ kind : SuspendKind, kind.tagByte = c.byte 3 → kind = found := by
      intro kind hkind
      rw [← htag, hfound] at hkind
      exact (Option.some.inj hkind).symm
    simp only [decode, hfound, Option.bind_eq_bind, Option.bind_some, hparts]
    constructor
    · rintro ⟨hplain, hset⟩
      exact .inr ⟨found, hbyte, hplain, hset⟩
    · rintro (hnone | ⟨kind, hkind, hplain, hset⟩)
      · exact absurd hbyte (hnone found)
      · exact ⟨honly kind hkind ▸ hplain, hset⟩

/-- Suspend codes and their cells determine each other: a code, however it was made, is read from
its cell, which is negative, and from no other. The cells that are read as no code are those with the
tag of no kind in the highest byte, and those with further bits set under the tag of a kind that
takes no argument. An argument is kept modulo `2 ^ 24`, and as a signed number if it fits. -/
theorem decode_inverts_encode :
    (∀ code : SuspendCode, decode code.encode = some code ∧ code.encode.toInt < 0) ∧
      (∀ (c : Cell) (code : SuspendCode), decode c = some code → code.encode = c) ∧
      (∀ c : Cell, decode c = none ↔
        (∀ kind : SuspendKind, kind.tagByte ≠ c.byte 3) ∨
          ∃ kind : SuspendKind,
            kind.tagByte = c.byte 3 ∧ kind.hasPayload = false ∧ c.bits % 0x1000000 ≠ 0) ∧
      ∀ kind : SuspendKind, kind.hasPayload = true → ∀ argument : Cell,
        ((ofCell kind argument).payload : Int) = argument.toInt % 0x1000000 ∧
        ((ofCell kind argument).signedPayload = argument.toInt ↔
          -0x800000 ≤ argument.toInt ∧ argument.toInt < 0x800000) := by
  refine ⟨fun code => ⟨decode_encode code, encode_neg code⟩, fun c code => encode_of_decode,
    fun c => decode_eq_none_iff, fun kind hkind argument => ?_⟩
  exact ⟨payload_ofCell_eq hkind argument, signedPayload_ofCell_eq_iff hkind argument⟩

/-- A commit of -2 and one of `2 ^ 23`: both are read back from their cells, but only the first has
its value for a signed argument. -/
theorem commit_of_negative :
    let negative := ofCell .forkCommit (-2)
    let large := ofCell .forkCommit 0x800000
    SuspendKind.forkCommit.hasPayload = true ∧ decode (-0x74000002) = some negative ∧
      negative.encode = -0x74000002 ∧ (negative.payload : Int) = 0xFFFFFE ∧
      negative.signedPayload = -2 ∧ decode large.encode = some large ∧
      large.signedPayload ≠ 0x800000 := by
  intro negative large
  obtain ⟨hcodes, hcells, _, harguments⟩ := decode_inverts_encode
  have hread : decode (-0x74000002) = some negative := by decide +kernel
  obtain ⟨hpayload, hsigned⟩ := harguments .forkCommit rfl (-2)
  obtain ⟨_, hlarge⟩ := harguments .forkCommit rfl 0x800000
  refine ⟨rfl, hread, hcells _ _ hread, hpayload.trans (by decide), hsigned.mpr (by decide),
    (hcodes large).1, fun h => ?_⟩
  exact absurd (hlarge.mp h) (by decide)

end SuspendCode

end ScriptNatives
