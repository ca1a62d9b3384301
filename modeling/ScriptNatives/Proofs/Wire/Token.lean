import Mathlib.Algebra.Group.Int.Defs
import Mathlib.Algebra.Group.Nat.Defs
import ScriptNatives.Token

/-!
# Callback tokens are exact

A digit is stored one higher than it is. So a number is written without a zero among its digit
bytes, and bytes without a zero among them are the digits of just one number. This makes both kinds
of token exact: a number that is in range is read back from its token, and no other token is read
as that number. Nor is a token of one kind ever taken for one of the other, since the last digit of
the first cell of a native token is where a public token has its zero byte.
-/
namespace ScriptNatives

theorem Cell.byte_lt (c : Cell) (i : Nat) : c.byte i < 256 := Nat.mod_lt _ (by decide)

namespace Token

/-- What is written is read back, and what is read is just what is written. -/
structure Exact {α β : Type} (write : α → Except Error β) (read : β → Except Error α)
    (inRange : α → Prop) : Prop where
  writes_iff : ∀ a, (∃ b, write a = .ok b) ↔ inRange a
  read_of_write : ∀ a b, write a = .ok b → read b = .ok a
  write_of_read : ∀ b a, read b = .ok a → inRange a ∧ write a = .ok b

/-- What is read from two tokens is not the same. -/
theorem Exact.eq_of_read {α β : Type} {write : α → Except Error β} {read : β → Except Error α}
    {inRange : α → Prop} (exact : Exact write read inRange) {b b' : β} {a : α}
    (hb : read b = .ok a) (hb' : read b' = .ok a) : b = b' := by
  have hwrite := (exact.write_of_read b a hb).2
  have hwrite' := (exact.write_of_read b' a hb').2
  exact Except.ok.inj (hwrite.symm.trans hwrite')

/-! ### Digits -/

theorem digitByte_bounds (n place : Nat) : 0 < digitByte n place ∧ digitByte n place < 256 := by
  induction place generalizing n with
  | zero =>
    simp only [digitByte, base]
    omega
  | succ place ih => exact ih (n / base)

theorem value_cons_eq_ok {b n : Nat} {bytes : List Nat} (h : value (b :: bytes) = .ok n) :
    b ≠ 0 ∧ ∃ high, value bytes = .ok high ∧ n = b - 1 + base * high := by
  rw [value] at h
  split at h
  · cases h
  · next hb =>
    cases hhigh : value bytes with
    | error fault =>
      rw [hhigh] at h
      cases h
    | ok high =>
      rw [hhigh] at h
      exact ⟨hb, high, rfl, (Except.ok.inj h).symm⟩

/-- Bytes that are read as a number are its digit bytes. -/
theorem digits_of_value {bytes : List Nat} {n : Nat} (hbytes : ∀ b ∈ bytes, b < 256)
    (h : value bytes = .ok n) :
    n < base ^ bytes.length ∧ (List.range bytes.length).map (digitByte n) = bytes := by
  induction bytes generalizing n with
  | nil =>
    obtain rfl := Except.ok.inj h
    exact ⟨Nat.one_pos, rfl⟩
  | cons b bytes ih =>
    obtain ⟨hb, high, hhigh, rfl⟩ := value_cons_eq_ok h
    have hlt := hbytes b List.mem_cons_self
    obtain ⟨hbound, hdigits⟩ := ih (fun c hc => hbytes c (List.mem_cons_of_mem _ hc)) hhigh
    have hdiv : (b - 1 + base * high) / base = high := by
      simp only [base]
      omega
    have hmod : (b - 1 + base * high) % base + 1 = b := by
      simp only [base]
      omega
    constructor
    · have hnext : b - 1 + base * high < base * (high + 1) := by
        simp only [base]
        omega
      rw [List.length_cons, Nat.pow_succ']
      exact Nat.lt_of_lt_of_le hnext (Nat.mul_le_mul_left _ hbound)
    · have htail : (List.range bytes.length).map (digitByte (b - 1 + base * high) ∘ Nat.succ) =
          (List.range bytes.length).map (digitByte high) :=
        List.map_congr_left fun place _ => by rw [Function.comp_apply, digitByte, hdiv]
      rw [List.length_cons, List.range_succ_eq_map, List.map_cons, List.map_map, htail, hdigits,
        digitByte, hmod]

/-! ### Tokens of natives -/

theorem ofNative_eq_ok_iff {address : Nat} {first second : Cell} :
    ofNative address = .ok (first, second) ↔ address < 255 ^ 5 ∧
      first = Cell.ofBytes tag (digitByte address 0) (digitByte address 1) (digitByte address 2) ∧
      second = Cell.ofBytes (digitByte address 3) (digitByte address 4) 0 0 := by
  have hlimit : nativeLimit = 255 ^ 5 := by decide
  rw [ofNative, hlimit]
  split
  · next hin => simp only [hin, true_and, Except.ok.injEq, Prod.mk.injEq, eq_comm]
  · next hout => simp only [hout, false_and, reduceCtorEq]

theorem bytes_of_ofNative {address : Nat} {first second : Cell}
    (h : ofNative address = .ok (first, second)) :
    (first.byte 3 = tag ∧ first.byte 2 = digitByte address 0 ∧
        first.byte 1 = digitByte address 1 ∧ first.byte 0 = digitByte address 2) ∧
      second.byte 3 = digitByte address 3 ∧ second.byte 2 = digitByte address 4 ∧
        second.byte 1 = 0 ∧ second.byte 0 = 0 := by
  obtain ⟨_, rfl, rfl⟩ := ofNative_eq_ok_iff.mp h
  have hlt (place : Nat) := (digitByte_bounds address place).2
  exact ⟨Cell.byte_ofBytes (by decide) (hlt 0) (hlt 1) (hlt 2),
    Cell.byte_ofBytes (hlt 3) (hlt 4) (by decide) (by decide)⟩

theorem bytes_ne_zero_of_ofNative {address : Nat} {first second : Cell}
    (h : ofNative address = .ok (first, second)) :
    first.byte 2 ≠ 0 ∧ first.byte 1 ≠ 0 ∧ first.byte 0 ≠ 0 ∧
      second.byte 3 ≠ 0 ∧ second.byte 2 ≠ 0 := by
  obtain ⟨⟨_, h₂, h₁, h₀⟩, h₃', h₂', _⟩ := bytes_of_ofNative h
  have hpos (place : Nat) := Nat.ne_of_gt (digitByte_bounds address place).1
  rw [h₂, h₁, h₀, h₃', h₂']
  exact ⟨hpos 0, hpos 1, hpos 2, hpos 3, hpos 4⟩

theorem toNative_of_ofNative {address : Nat} {first second : Cell}
    (h : ofNative address = .ok (first, second)) : toNative first second = .ok address := by
  obtain ⟨⟨h₃, h₂, h₁, h₀⟩, h₃', h₂', h₁', h₀'⟩ := bytes_of_ofNative h
  have hin := (ofNative_eq_ok_iff.mp h).1
  have hvalue := value_digitBytes 5 address
  rw [toNative, h₃, h₂, h₁, h₀, h₃', h₂', h₁', h₀', if_pos ⟨rfl, rfl, rfl⟩]
  exact hvalue.trans (congrArg _ (Nat.mod_eq_of_lt hin))

theorem ofNative_of_toNative {address : Nat} {first second : Cell}
    (h : toNative first second = .ok address) : ofNative address = .ok (first, second) := by
  unfold toNative at h
  split at h
  · next hform =>
    obtain ⟨htag, hzero₁, hzero₀⟩ := hform
    obtain ⟨hin, hdigits⟩ := digits_of_value (by simp [Cell.byte_lt]) h
    simp only [List.length_cons, List.length_nil, List.range_succ_eq_map, List.range_zero,
      List.map_cons, List.map_nil, List.cons.injEq] at hdigits
    obtain ⟨h₀, h₁, h₂, h₃, h₄, _⟩ := hdigits
    have hfirst := first.ofBytes_byte
    have hsecond := second.ofBytes_byte
    rw [htag, ← h₀, ← h₁, ← h₂] at hfirst
    rw [hzero₁, hzero₀, ← h₃, ← h₄] at hsecond
    exact ofNative_eq_ok_iff.mpr ⟨hin, hfirst.symm, hsecond.symm⟩
  · cases h

theorem exact_native : Exact ofNative (fun token => toNative token.1 token.2) (· < 255 ^ 5) where
  writes_iff _ :=
    ⟨fun ⟨_, h⟩ => (ofNative_eq_ok_iff.mp h).1,
      fun hin => ⟨_, ofNative_eq_ok_iff.mpr ⟨hin, rfl, rfl⟩⟩⟩
  read_of_write _ _ := toNative_of_ofNative
  write_of_read _ _ h :=
    ⟨(ofNative_eq_ok_iff.mp (ofNative_of_toNative h)).1, ofNative_of_toNative h⟩

/-! ### Tokens of public functions -/

theorem ofPublic_eq_ok_iff {index token : Cell} : ofPublic index = .ok token ↔
    (0 ≤ index.toInt ∧ index.toInt < 255 ^ 2) ∧
      token =
        Cell.ofBytes tag (digitByte index.toInt.toNat 0) (digitByte index.toInt.toNat 1) 0 := by
  have hlimit : (publicLimit : Int) = 255 ^ 2 := by decide
  rw [ofPublic, hlimit]
  split
  · next hin => simp only [hin, and_self, true_and, Except.ok.injEq, eq_comm]
  · next hout => simp only [hout, false_and, reduceCtorEq]

theorem bytes_of_ofPublic {index token : Cell} (h : ofPublic index = .ok token) :
    token.byte 3 = tag ∧ token.byte 2 = digitByte index.toInt.toNat 0 ∧
      token.byte 1 = digitByte index.toInt.toNat 1 ∧ token.byte 0 = 0 := by
  obtain ⟨_, rfl⟩ := ofPublic_eq_ok_iff.mp h
  have hlt (place : Nat) := (digitByte_bounds index.toInt.toNat place).2
  exact Cell.byte_ofBytes (by decide) (hlt 0) (hlt 1) (by decide)

theorem bytes_ne_zero_of_ofPublic {index token : Cell} (h : ofPublic index = .ok token) :
    token.byte 2 ≠ 0 ∧ token.byte 1 ≠ 0 := by
  obtain ⟨_, h₂, h₁, _⟩ := bytes_of_ofPublic h
  have hpos (place : Nat) := Nat.ne_of_gt (digitByte_bounds index.toInt.toNat place).1
  rw [h₂, h₁]
  exact ⟨hpos 0, hpos 1⟩

theorem toPublic_of_ofPublic {index token : Cell} (h : ofPublic index = .ok token) :
    toPublic token = .ok index.toInt.toNat := by
  obtain ⟨h₃, h₂, h₁, h₀⟩ := bytes_of_ofPublic h
  have hin := (ofPublic_eq_ok_iff.mp h).1
  have hvalue := value_digitBytes 2 index.toInt.toNat
  have hsmall : index.toInt.toNat < base.pow 2 := by
    show index.toInt.toNat < 255 ^ 2
    omega
  rw [toPublic, h₃, h₂, h₁, h₀, if_pos ⟨rfl, rfl⟩]
  exact hvalue.trans (congrArg _ (Nat.mod_eq_of_lt hsmall))

/-- What is read fits a cell, which has the token that was read. -/
theorem ofPublic_of_toPublic {token : Cell} {n : Nat} (h : toPublic token = .ok n) :
    n < 255 ^ 2 ∧ (Int32.ofNat n).toInt = n ∧ ofPublic (Int32.ofNat n) = .ok token := by
  unfold toPublic at h
  split at h
  · next hform =>
    obtain ⟨htag, hzero⟩ := hform
    obtain ⟨hin, hdigits⟩ := digits_of_value (by simp [Cell.byte_lt]) h
    have hin : n < 255 ^ 2 := hin
    simp only [List.length_cons, List.length_nil, List.range_succ_eq_map, List.range_zero,
      List.map_cons, List.map_nil, List.cons.injEq] at hdigits
    obtain ⟨h₀, h₁, _⟩ := hdigits
    have htoken := token.ofBytes_byte
    rw [htag, hzero, ← h₀, ← h₁] at htoken
    have hcell : (Int32.ofNat n).toInt = n := Int32.toInt_ofNat_of_lt (by omega)
    refine ⟨hin, hcell, ofPublic_eq_ok_iff.mpr ?_⟩
    rw [hcell, Int.toNat_natCast]
    exact ⟨⟨Int.natCast_nonneg n, by omega⟩, htoken.symm⟩
  · cases h

theorem exact_public : Exact ofPublic (fun token => (toPublic token).map Int32.ofNat)
    fun index => 0 ≤ index.toInt ∧ index.toInt < 255 ^ 2 where
  writes_iff _ :=
    ⟨fun ⟨_, h⟩ => (ofPublic_eq_ok_iff.mp h).1, fun hin => ⟨_, ofPublic_eq_ok_iff.mpr ⟨hin, rfl⟩⟩⟩
  read_of_write index token h := by
    obtain ⟨hin, _⟩ := ofPublic_eq_ok_iff.mp h
    have hcell : Int32.ofNat index.toInt.toNat = index := by
      rw [← Int32.toInt_inj, Int32.toInt_ofNat_of_lt (by omega)]
      exact Int.toNat_of_nonneg hin.1
    rw [toPublic_of_ofPublic h, Except.map, hcell]
  write_of_read token index h := by
    cases hread : toPublic token with
    | error fault =>
      rw [hread] at h
      cases h
    | ok n =>
      rw [hread] at h
      obtain rfl := Except.ok.inj h
      obtain ⟨_, _, hwrite⟩ := ofPublic_of_toPublic hread
      exact ⟨(ofPublic_eq_ok_iff.mp hwrite).1, hwrite⟩

/-! ### Both kinds -/

/-- No cell is both a public token and the first cell of a native one. -/
theorem toPublic_ne_ok_of_toNative {first second : Cell} {address : Nat}
    (h : toNative first second = .ok address) (index : Nat) : toPublic first ≠ .ok index := by
  intro hpublic
  obtain ⟨_, _, hzero, _⟩ := bytes_ne_zero_of_ofNative (ofNative_of_toNative h)
  unfold toPublic at hpublic
  split at hpublic
  · next hform => exact hzero hform.2
  · cases hpublic

/-- Both kinds of token are exact: the addresses below `255 ^ 5` and the indices below `255 ^ 2`
have a token, they are read back from it and from no other, and no digit byte of it is zero. And the
two kinds are told apart by the first cell: none is read as both. -/
theorem tokens_exact :
    Exact ofNative (fun token => toNative token.1 token.2) (· < 255 ^ 5) ∧
      (∀ address first second, ofNative address = .ok (first, second) →
        first.byte 2 ≠ 0 ∧ first.byte 1 ≠ 0 ∧ first.byte 0 ≠ 0 ∧
          second.byte 3 ≠ 0 ∧ second.byte 2 ≠ 0) ∧
      (∀ (token token' : Cell × Cell) address, toNative token.1 token.2 = .ok address →
        toNative token'.1 token'.2 = .ok address → token = token') ∧
      Exact ofPublic (fun token => (toPublic token).map Int32.ofNat)
        (fun index => 0 ≤ index.toInt ∧ index.toInt < 255 ^ 2) ∧
      (∀ index token, ofPublic index = .ok token → token.byte 2 ≠ 0 ∧ token.byte 1 ≠ 0) ∧
      (∀ token token' n, toPublic token = .ok n → toPublic token' = .ok n →
        n < 255 ^ 2 ∧ token = token') ∧
      (∀ index token, ofPublic index = .ok token →
        ∀ second address, toNative token second ≠ .ok address) ∧
      ∀ address first second, ofNative address = .ok (first, second) →
        ∀ index, toPublic first ≠ .ok index := by
  refine ⟨exact_native, fun _ _ _ => bytes_ne_zero_of_ofNative,
    fun token token' address => exact_native.eq_of_read, exact_public,
    fun _ _ => bytes_ne_zero_of_ofPublic, fun token token' n h h' => ?_,
    fun index token h second address hnative => ?_, fun address first second h => ?_⟩
  · obtain ⟨hin, _, hwrite⟩ := ofPublic_of_toPublic h
    obtain ⟨_, _, hwrite'⟩ := ofPublic_of_toPublic h'
    exact ⟨hin, Except.ok.inj (hwrite.symm.trans hwrite')⟩
  · exact toPublic_ne_ok_of_toNative hnative _ (toPublic_of_ofPublic h)
  · exact toPublic_ne_ok_of_toNative (toNative_of_ofNative h)

/-- The tokens of the last address and of the last index. The second cell of the former is
negative. -/
theorem tokens_of_last :
    ofNative (255 ^ 5 - 1) = .ok (0x1BFFFFFF, -0x10000) ∧
      toNative 0x1BFFFFFF (-0x10000) = .ok (255 ^ 5 - 1) ∧
      Cell.byte (-0x10000) 2 ≠ 0 ∧ (∀ index, toPublic 0x1BFFFFFF ≠ .ok index) ∧
      ofPublic 65024 = .ok 0x1BFFFF00 ∧ toPublic 0x1BFFFF00 = .ok 65024 ∧
      Cell.byte 0x1BFFFF00 1 ≠ 0 ∧
      (∀ token, toPublic token = .ok 65024 → token = 0x1BFFFF00) ∧
      ∀ second address, toNative 0x1BFFFF00 second ≠ .ok address := by
  obtain ⟨hnative, hbytes, _, hpublic, hbytes', hone, hnoNative, hnoPublic⟩ := tokens_exact
  have haddress : ofNative (255 ^ 5 - 1) = .ok (0x1BFFFFFF, -0x10000) :=
    ofNative_eq_ok_iff.mpr ⟨by decide, by decide +kernel, by decide +kernel⟩
  have hback := hnative.read_of_write _ _ haddress
  have hindex : ofPublic 65024 = .ok 0x1BFFFF00 :=
    ofPublic_eq_ok_iff.mpr ⟨by decide, by decide +kernel⟩
  have hread : toPublic 0x1BFFFF00 = .ok 65024 := toPublic_of_ofPublic hindex
  refine ⟨haddress, hback, (hbytes _ _ _ haddress).2.2.2.2,
    hnoPublic _ _ _ haddress, hindex, hread, (hbytes' _ _ hindex).2, fun token htoken => ?_,
    hnoNative _ _ hindex⟩
  exact (hone _ _ _ htoken hread).2

end Token

end ScriptNatives
