import ScriptNatives.Proofs.Machine.Moves
import ScriptNatives.Proofs.Machine.Ranges

/-!
# Strings in machine memory

A string lies one character to a cell and ends at the first zero cell. A reader goes from cell to
cell and gives up at a dead one; it stops at a zero, or when it has as many characters as it was
asked for. It finds out about the second only after it has looked at one more cell, which
therefore has to be live. What was written is read back as far as it was written, and up to the
first zero in it.
-/
namespace ScriptNatives

open Scenario (MachineSpec MachineStep)

/-! ### Characters in cells -/

namespace Cell

theorem bits_ofChar (ch : Char) : (ofChar ch).bits = ch.toNat := by
  have hvalid : ch.toNat.isValidChar := ch.valid
  rw [ofChar, bits_ofBits]
  rcases hvalid with hlow | ⟨_, hhigh⟩ <;> omega

/-- Every character has a cell of its own. -/
theorem toChar_ofChar (ch : Char) : (ofChar ch).toChar = ch := by
  have hvalid : ch.toNat.isValidChar := ch.valid
  rw [toChar, bits_ofChar, if_pos hvalid, Char.ofNat_toNat]

theorem ofChar_eq_zero_iff {ch : Char} : ofChar ch = 0 ↔ ch = '\x00' := by
  constructor
  · intro h
    rw [← toChar_ofChar ch, h]
    rfl
  · rintro rfl
    rfl

/-- A cell that does not read as U+FFFD is the cell of the character that it reads as. -/
theorem ofChar_toChar {c : Cell} (h : c.toChar ≠ '\uFFFD') : ofChar c.toChar = c := by
  unfold toChar at h ⊢
  split at h
  · next hvalid =>
    have hnat : (Char.ofNat c.bits).toNat = c.bits := by
      rw [Char.ofNat, dif_pos hvalid]
      rfl
    rw [if_pos hvalid, ofChar, hnat, ofBits_bits]
  · exact absurd rfl h

end Cell

namespace Machine

variable {m m' : Machine} {address : Int} {cells : List Cell} {limit : Nat} {text : String}

/-! ### Reading -/

/-- The string at an address begins with these cells, of which none is zero. -/
structure Begins (m : Machine) (address : Int) (cells : List Cell) : Prop where
  nonzero : ∀ c ∈ cells, c ≠ 0
  cell?_eq : ∀ i : Nat, i < cells.length → m.cell? (address + 4 * i) = cells[i]?

/-- These are the cells from an address up to the first zero cell. -/
structure StringAt (m : Machine) (address : Int) (cells : List Cell) : Prop
    extends Begins m address cells where
  ends : m.cell? (address + 4 * cells.length) = some 0

theorem Begins.nil (m : Machine) (address : Int) : m.Begins address [] := ⟨nofun, nofun⟩

theorem begins_cons_iff {c : Cell} : m.Begins address (c :: cells) ↔
    c ≠ 0 ∧ m.cell? address = some c ∧ m.Begins (address + 4) cells := by
  constructor
  · intro h
    refine ⟨h.nonzero c List.mem_cons_self, by simpa using h.cell?_eq 0 (Nat.succ_pos _),
      fun d hd => h.nonzero d (List.mem_cons_of_mem c hd), fun i hi => ?_⟩
    rw [← List.getElem?_cons_succ (a := c), ← h.cell?_eq (i + 1) (Nat.succ_lt_succ hi)]
    congr 1
    omega
  · rintro ⟨hc, hfirst, hrest⟩
    refine ⟨List.forall_mem_cons.mpr ⟨hc, hrest.nonzero⟩, fun i hi => ?_⟩
    cases i with
    | zero => simpa using hfirst
    | succ i =>
      rw [List.getElem?_cons_succ, ← hrest.cell?_eq i (Nat.lt_of_succ_lt_succ hi)]
      congr 1
      omega

/-- Whether a string begins with given cells can be seen cell by cell. -/
instance decidableBegins (m : Machine) :
    (cells : List Cell) → (address : Int) → Decidable (m.Begins address cells)
  | [], address => isTrue (.nil m address)
  | _ :: cells, address =>
    haveI := decidableBegins m cells (address + 4)
    decidable_of_iff _ begins_cons_iff.symm

theorem stringAt_iff : m.StringAt address cells ↔
    m.Begins address cells ∧ m.cell? (address + 4 * cells.length) = some 0 :=
  ⟨fun h => ⟨h.toBegins, h.ends⟩, fun ⟨hbegins, hends⟩ => ⟨hbegins, hends⟩⟩

instance : Decidable (m.StringAt address cells) := decidable_of_iff _ stringAt_iff.symm

theorem Begins.take (h : m.Begins address cells) (n : Nat) : m.Begins address (cells.take n) where
  nonzero c hc := h.nonzero c (List.mem_of_mem_take hc)
  cell?_eq i hi := by
    rw [List.length_take] at hi
    rw [h.cell?_eq i (by omega), List.getElem?_take_of_lt (by omega)]

/-- The reader takes in the cells that a string begins with, and goes on behind them. -/
theorem Begins.readChars?_eq (h : m.Begins address cells) (rest : Nat) :
    m.readChars? address (cells.length + rest) =
      (m.readChars? (address + 4 * cells.length) rest).map (cells.map Cell.toChar ++ ·) := by
  induction cells generalizing address with
  | nil => simp
  | cons c cells ih =>
    obtain ⟨hc, hfirst, hrest⟩ := begins_cons_iff.mp h
    have hbehind : address + 4 + 4 * (cells.length : Int) =
        address + 4 * ((c :: cells).length : Int) := by
      rw [List.length_cons]
      omega
    rw [List.length_cons, Nat.add_right_comm, readChars?, hfirst, ← List.length_cons, ← hbehind]
    simp only [Option.bind_eq_bind, Option.bind_some, if_neg hc, ih hrest]
    cases m.readChars? (address + 4 + 4 * cells.length) rest <;> rfl

/-- With nothing left to be read the reader still looks at the next cell. -/
theorem readChars?_zero (m : Machine) (address : Int) :
    m.readChars? address 0 = (m.cell? address).map fun _ => [] := by
  rw [readChars?]
  cases hc : m.cell? address with
  | none => rfl
  | some c => simp

theorem readChars?_of_zero (h : m.cell? address = some 0) (limit : Nat) :
    m.readChars? address limit = some [] := by
  unfold readChars?
  simp [h]

/-- A string that ends is read up to its end, or as far as was asked for. -/
theorem StringAt.readText?_eq (h : m.StringAt address cells) (limit : Nat) :
    m.readText? address limit = some (String.ofList ((cells.take limit).map Cell.toChar)) := by
  rw [readText?, Option.map_eq_some_iff]
  refine ⟨_, ?_, rfl⟩
  by_cases hlimit : cells.length ≤ limit
  · obtain ⟨rest, rfl⟩ := Nat.exists_eq_add_of_le hlimit
    rw [h.readChars?_eq, readChars?_of_zero h.ends, List.take_of_length_le hlimit]
    simp
  · have hlength : (cells.take limit).length = limit := List.length_take_of_le (by omega)
    have hread := (h.take limit).readChars?_eq 0
    rw [hlength, Nat.add_zero, readChars?_zero, h.cell?_eq limit (by omega),
      List.getElem?_eq_getElem (by omega)] at hread
    simpa using hread

/-- A text is what a reader makes of these cells, which the string at an address begins with: it
ends with the string, or where no more is read. -/
structure Spells (m : Machine) (address : Int) (limit : Nat) (cells : List Cell) (text : String) :
    Prop where
  begins : m.Begins address cells
  toList_eq : text.toList = cells.map Cell.toChar
  length_le : cells.length ≤ limit
  ends : cells.length < limit → m.StringAt address cells

/-- What is read are the cells that the string begins with; if these are fewer than were asked for,
the string ends with them. -/
theorem exists_begins_of_readChars? {chars : List Char}
    (h : m.readChars? address limit = some chars) :
    ∃ cells, m.Begins address cells ∧ chars = cells.map Cell.toChar ∧ cells.length ≤ limit ∧
      (cells.length < limit → m.cell? (address + 4 * cells.length) = some 0) := by
  induction limit generalizing address chars with
  | zero =>
    rw [readChars?_zero, Option.map_eq_some_iff] at h
    obtain ⟨_, _, rfl⟩ := h
    exact ⟨[], .nil m address, rfl, Nat.le_refl 0, nofun⟩
  | succ limit ih =>
    obtain ⟨c, hc, h⟩ := Option.bind_eq_some_iff.mp h
    split at h
    · next hzero =>
      obtain rfl := Option.some.inj h
      exact ⟨[], .nil m address, rfl, Nat.zero_le _, fun _ => by simpa [hzero] using hc⟩
    · next hne =>
      obtain ⟨rest, hrest, h⟩ := Option.bind_eq_some_iff.mp h
      obtain rfl := Option.some.inj h
      obtain ⟨cells, hbegins, rfl, hlength, hends⟩ := ih hrest
      refine ⟨c :: cells, begins_cons_iff.mpr ⟨hne, hc, hbegins⟩, rfl,
        Nat.succ_le_succ hlength, fun hlt => ?_⟩
      rw [← hends (Nat.lt_of_succ_lt_succ hlt), List.length_cons]
      congr 1
      omega

/-- What is read is spelled by the cells at the address. -/
theorem exists_spells_of_readText? (h : m.readText? address limit = some text) :
    ∃ cells, m.Spells address limit cells text := by
  obtain ⟨chars, hchars, rfl⟩ := Option.map_eq_some_iff.mp h
  obtain ⟨cells, hbegins, hread, hlength, hends⟩ := exists_begins_of_readChars? hchars
  exact ⟨cells, hbegins, by rw [String.toList_ofList, hread], hlength,
    fun hlt => ⟨hbegins, hends hlt⟩⟩

/-- A text in which no cell was replaced is spelled by its own code points. -/
theorem Spells.cells_eq (h : m.Spells address limit cells text) (hclean : '\uFFFD' ∉ text.toList) :
    cells = text.toList.map Cell.ofChar := by
  rw [h.toList_eq] at hclean ⊢
  rw [List.map_map]
  refine (List.map_id cells).symm.trans (List.map_congr_left fun c hc => ?_)
  have hne : c.toChar ≠ '\uFFFD' := fun heq => hclean (heq ▸ List.mem_map_of_mem hc)
  exact (Cell.ofChar_toChar hne).symm

/-- What is read of the string at an address: its cells up to the first zero, but at most `limit`
of them, one character each. A text that has fewer characters, none of which is U+FFFD, is exactly
what the string says. -/
structure ReadsAs (m : Machine) (address : Int) (limit : Nat) (text : String) : Prop where
  spelled : ∃ cells, m.Spells address limit cells text
  of_stringAt : ∀ cells, m.StringAt address cells →
    text.toList = (cells.take limit).map Cell.toChar
  stringAt : text.length < limit → '\uFFFD' ∉ text.toList →
    m.StringAt address (text.toList.map Cell.ofChar)

theorem readsAs_of_readText? (h : m.readText? address limit = some text) :
    m.ReadsAs address limit text := by
  obtain ⟨cells, hspells⟩ := exists_spells_of_readText? h
  refine ⟨⟨cells, hspells⟩, fun string hstring => ?_, fun hshort hclean => ?_⟩
  · obtain rfl := Option.some.inj ((hstring.readText?_eq limit).symm.trans h)
    rw [String.toList_ofList]
  · have hlength : text.length = cells.length := by
      rw [← String.length_toList, hspells.toList_eq, List.length_map]
    rw [← hspells.cells_eq hclean]
    exact hspells.ends (by omega)

/-! ### A string that is as long as was asked for -/

/-- A string of which as many characters are asked for as it has is read if there is a live cell
behind it, and is not read at all if there is none. -/
theorem readText?_of_full_length (hm : m.Reachable) (begins : m.Begins address cells) :
    m.readText? address cells.length =
      if m.Live (address + 4 * cells.length) then
        some (String.ofList (cells.map Cell.toChar))
      else
        none := by
  have hread := begins.readChars?_eq 0
  have hbehind := hm.wellFormed.isSome_cell? (address + 4 * cells.length)
  -- the reader has gone over all the cells and now looks at the one behind
  rw [Nat.add_zero, readChars?_zero] at hread
  rw [readText?, hread]
  by_cases live : m.Live (address + 4 * cells.length)
  · obtain ⟨c, hc⟩ := Option.isSome_iff_exists.mp (hbehind.trans live)
    simp [live, hc]
  · have hdead : m.cell? (address + 4 * cells.length) = none := by
      rw [← Option.not_isSome_iff_eq_none, hbehind]
      exact live
    simp [live, hdead]

/-- Two strings of two cells fill two blocks, one right behind the other. The first is read whole,
whatever the other block holds, and the second is not. -/
theorem readText?_of_full_blocks :
    let steps : List MachineStep :=
      [.allocBlock 2, .allocBlock 2, .poke 0 [104, 0xD800], .poke 8 [104, 105]]
    let m := steps.foldl (fun m step => (step.perform m).2)
      (MachineSpec.build { dataCells := 0, heapStackCells := 0 })
    m.Reachable ∧ m.Begins 0 [104, 0xD800] ∧ m.readText? 0 2 = some "h\uFFFD" ∧
      m.Begins 8 [104, 105] ∧ m.readText? 8 2 = none := by
  intro steps m
  have hm : m.Reachable :=
    ((((Reachable.built _ (by decide)).step _).step _).step _).step _
  have hfirst : m.Begins 0 [104, 0xD800] := by decide
  have hsecond : m.Begins 8 [104, 105] := by decide
  refine ⟨hm, hfirst, ?_, hsecond, ?_⟩
  · rw [show 2 = [(104 : Cell), 0xD800].length from rfl, readText?_of_full_length hm hfirst,
      if_pos (by decide)]
    decide
  · rw [show 2 = [(104 : Cell), 105].length from rfl, readText?_of_full_length hm hsecond,
      if_neg (by decide)]

/-- So a string that is no longer than what is asked for may get lost: here it fills the data. -/
theorem full_length_text_lost :
    ¬ ∀ (m : Machine) (address : Int) (cells : List Cell), m.Reachable → m.Begins address cells →
      m.readText? address cells.length = some (String.ofList (cells.map Cell.toChar)) := by
  intro h
  let m := ((MachineStep.poke 0 [104, 105]).perform
    (MachineSpec.build { dataCells := 2, heapStackCells := 0 })).2
  have hm : m.Reachable := (Reachable.built _ (by decide)).step _
  have hread := h m 0 [104, 105] hm (by decide)
  rw [show m.readText? 0 [(104 : Cell), 105].length = none by decide] at hread
  cases hread

/-! ### Writing -/

/-- A text with a zero behind it, taken apart at its first zero. -/
theorem exists_append_takeWhile (chars : List Char) :
    ∃ rest, chars ++ ['\x00'] = chars.takeWhile (· ≠ '\x00') ++ '\x00' :: rest := by
  induction chars with
  | nil => exact ⟨[], rfl⟩
  | cons ch chars ih =>
    by_cases hch : ch = '\x00'
    · exact ⟨chars ++ ['\x00'], by simp [hch]⟩
    · obtain ⟨rest, hrest⟩ := ih
      refine ⟨rest, ?_⟩
      rw [List.cons_append, hrest, List.takeWhile_cons_of_pos (by simpa using hch),
        List.cons_append]

/-- The first zero that was written ends the string that is found afterwards. -/
theorem Written.stringAt {rest : List Cell} (h : Written m m' address (cells ++ 0 :: rest))
    (hcells : ∀ c ∈ cells, c ≠ 0) : m'.StringAt address cells where
  nonzero := hcells
  cell?_eq i hi := by
    have hlt : i < (cells ++ 0 :: rest).length := by
      rw [List.length_append]
      omega
    rw [h.cell?_inside i hlt, List.getElem?_append_left hi]
  ends := by
    rw [h.cell?_inside cells.length (by simp), List.getElem?_append_right (Nat.le_refl _),
      Nat.sub_self]
    rfl

/-- From the machine `m` to the machine `m'`, the first `count` characters of a text were written
to the cells from an address on, and a zero behind them; everything else is as it was. What is
read there now is what was written, up to the first zero. -/
structure Inscribed (m m' : Machine) (address : Int) (text : String) (count : Nat) : Prop where
  written : Written m m' address ((text.toList.take count).map Cell.ofChar ++ [0])
  blank_eq : m'.blank = m.blank
  agrees : AgreesOutside (InCells address (count + 1)) m m'
  readText?_eq : ∀ limit, m'.readText? address limit =
    some (String.ofList (((text.toList.take count).takeWhile (· ≠ '\x00')).take limit))

/-- What is read of a text that was written. -/
theorem Written.readText?_eq {chars : List Char}
    (h : Written m m' address (chars.map Cell.ofChar ++ [0])) (limit : Nat) :
    m'.readText? address limit =
      some (String.ofList ((chars.takeWhile (· ≠ '\x00')).take limit)) := by
  obtain ⟨rest, hrest⟩ := exists_append_takeWhile chars
  have hvalues : chars.map Cell.ofChar ++ [0] =
      (chars.takeWhile (· ≠ '\x00')).map Cell.ofChar ++ 0 :: rest.map Cell.ofChar := by
    simpa [Cell.ofChar_eq_zero_iff.mpr rfl] using congrArg (List.map Cell.ofChar) hrest
  have hnonzero : ∀ c ∈ (chars.takeWhile (· ≠ '\x00')).map Cell.ofChar, c ≠ 0 := by
    intro c hc
    obtain ⟨ch, hch, rfl⟩ := List.mem_map.mp hc
    have hne : ch ≠ '\x00' := by simpa using List.all_eq_true.mp List.all_takeWhile ch hch
    exact mt Cell.ofChar_eq_zero_iff.mp hne
  rw [hvalues] at h
  rw [(h.stringAt hnonzero).readText?_eq, List.map_take, List.map_map,
    show Cell.toChar ∘ Cell.ofChar = id from funext Cell.toChar_ofChar, List.map_id]

/-- A text that is written to a live buffer is cut off where the buffer ends. -/
theorem WellFormed.inscribed (hm : m.WellFormed) {size : Int} {r : Region}
    (h : m.region? address size = some r) (text : String) :
    let count := min text.length (size - 1).toNat
    ∃ m', m.writeText? address text size = some (some count, m') ∧
      Inscribed m m' address text count := by
  intro count
  have htake : text.toList.take (size - 1).toNat = text.toList.take count := by
    rw [List.take_eq_take_min, String.length_toList, Nat.min_comm]
  have hcells : textCells text size = (text.toList.take count).map Cell.ofChar ++ [0] := by
    rw [textCells, htake]
  have hcount : (text.toList.take count).length = count :=
    List.length_take_of_le (by rw [String.length_toList]; exact Nat.min_le_left _ _)
  have hlength : (textCells text size).length = count + 1 := by
    rw [hcells, List.length_append, List.length_map, hcount]
    rfl
  have hfits := length_textCells_le h text
  have hdone := hm.setCells_of_region? h hfits
  have hlive (i : Nat) (hi : i < (textCells text size).length) :
      m.region? (address + 4 * i) 1 = some r :=
    hm.region?_part h i 1 (by omega) (by omega) (by omega)
  have hwritten := hm.written_setCells hlive
  have hagrees := hm.agreesOutside_setCells address (textCells text size)
  rw [hlength] at hagrees
  rw [hcells] at hwritten
  have hwrite : m.writeText? address text size =
      some (if (m.setCells address (textCells text size)).1.isNone then
          some (text.toList.take (size - 1).toNat).length else none,
        (m.setCells address (textCells text size)).2) := by
    rw [writeText?, h]
    rfl
  refine ⟨(m.setCells address (textCells text size)).2, ?_, ?_⟩
  · rw [hwrite, hdone, htake, hcount]
    rfl
  · rw [hcells] at hagrees ⊢
    exact ⟨hwritten, blank_setCells address _, hagrees, hwritten.readText?_eq⟩

/-- Writing is the inverse of reading, as far as the buffer goes. A text is written if and only if
its whole buffer is live in one region, and otherwise nothing happens. As much of it is written as
fits the buffer together with a zero, and that much is read afterwards, up to the first zero in it
and as far as is asked for. -/
theorem writeText?_exact (hm : m.Reachable) (address : Int) (text : String) (size : Int) :
    let out := (MachineStep.writeText address text (some size)).perform m
    (out.1 = .nothing ↔ m.region? address size = none) ∧
      (m.region? address size = none → m.writeText? address text size = none ∧ out.2 = m) ∧
      ∀ r, m.region? address size = some r →
        let count := min text.length (size - 1).toNat
        ∃ m', m.writeText? address text size = some (some count, m') ∧
          Inscribed m m' address text count := by
  intro out
  have hlive {r : Region} (h : m.region? address size = some r) :=
    hm.wellFormed.inscribed h text
  have hdead (h : m.region? address size = none) : m.writeText? address text size = none := by
    simp [writeText?, h]
  have hout : out = Scenario.attempted? m .ofNat? (m.writeText? address text size) := rfl
  refine ⟨?_, fun h => ⟨hdead h, by rw [hout, hdead h]; rfl⟩, fun r h => hlive h⟩
  cases hr : m.region? address size with
  | none => simp [hout, hdead hr, Scenario.attempted?]
  | some r =>
    obtain ⟨m', hwrite, _⟩ := hlive hr
    simp [hout, hwrite, Scenario.attempted?, Scenario.MachineAnswer.ofNat?,
      Scenario.MachineAnswer.ofNumber?]

/-- A text with a zero in it and a character beyond the first plane, in a buffer that is too short
for its last character; and a buffer that the data end in. -/
theorem writeText?_cut_off :
    let m := MachineSpec.build { dataCells := 6, heapStackCells := 2 }
    m.Reachable ∧ m.region? 4 5 = some .data ∧ m.region? 4 6 = none ∧
      m.writeText? 4 "😀a\x00b!" 6 = none ∧
      ∃ m', m.writeText? 4 "😀a\x00b!" 5 = some (some 4, m') ∧
        m'.readText? 4 10 = some "😀a" ∧ m'.readText? 4 1 = some "😀" := by
  intro m
  have hm : m.Reachable := .built _ (by decide)
  have hdead : m.region? 4 6 = none := by decide
  have hlive : m.region? 4 5 = some .data := by decide
  have hnone := ((writeText?_exact hm 4 "😀a\x00b!" 6).2.1 hdead).1
  obtain ⟨m', hwrite, hinscribed⟩ := (writeText?_exact hm 4 "😀a\x00b!" 5).2.2 .data hlive
  exact ⟨hm, hlive, hdead, hnone, m', hwrite, hinscribed.readText?_eq 10,
    hinscribed.readText?_eq 1⟩

end Machine

end ScriptNatives
