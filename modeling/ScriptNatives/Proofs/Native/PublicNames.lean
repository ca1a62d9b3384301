import Mathlib.Data.List.TakeWhile
import ScriptNatives.Proofs.Native.Lookups

/-!
# Public names through script memory

A script gets the name of a public function in a buffer of its own, and may ask for the index that
goes with a name in its memory. The length that it is told counts bytes, the buffer is filled with
characters, and what is read back ends at a zero or at the limit. Where none of these cuts a name
off, the second answers the first: it finds the first function of that name.
-/
namespace ScriptNatives

variable {σ : Type}

/-- No character takes more than four bytes. -/
theorem utf8ByteSize_le (s : String) : s.utf8ByteSize ≤ 4 * s.length := by
  have hchars (chars : List Char) : (String.ofList chars).utf8ByteSize ≤ 4 * chars.length := by
    induction chars with
    | nil => simp
    | cons ch chars ih =>
      have hsplit : String.ofList (ch :: chars) = String.singleton ch ++ String.ofList chars := by
        rw [String.singleton_eq_ofList, ← String.ofList_append, List.singleton_append]
      have hfirst := ch.utf8Size_le_four
      rw [hsplit, String.utf8ByteSize_append, String.utf8ByteSize_singleton, List.length_cons]
      omega
  have hs := hchars s.toList
  rwa [String.ofList_toList, String.length_toList] at hs

namespace Machine

variable {m : Machine} {name : String}

theorem publicName?_eq_some {index : Int} (h : m.publicName? index = some name) :
    0 ≤ index ∧ m.publics[index.toNat]? = some name := by
  rw [publicName?] at h
  split at h
  · next hnonneg => exact ⟨hnonneg, h⟩
  · cases h

/-- What a machine declares is no matter of what its cells hold. -/
theorem publics_eq_of_blank_eq {m' : Machine} (h : m'.blank = m.blank) : m'.publics = m.publics :=
  congrArg (·.publics) h

/-- A name that is declared is found under the first index at which it is. -/
theorem exists_publicIndex?_eq (hmem : name ∈ m.publics) :
    ∃ least, m.publicIndex? name = some least ∧ IsLeast {i | m.publics[i]? = some name} least := by
  cases hfound : m.publicIndex? name with
  | none =>
    have hnone := List.findIdx?_eq_none_iff.mp hfound name hmem
    simp at hnone
  | some least =>
    obtain ⟨hnamed, hfirst⟩ := publicIndex?_eq_some_iff.mp hfound
    refine ⟨least, rfl, hnamed, fun i hi => ?_⟩
    exact Nat.not_lt.mp fun hlt => hfirst i hlt hi

/-- A text of which the buffer takes all is read back whole, as long as there is no zero in it. -/
theorem Inscribed.readText?_whole {m' : Machine} {address : Int} {text : String} {count limit : Nat}
    (h : Inscribed m m' address text count) (hcount : text.length ≤ count)
    (hlimit : text.length ≤ limit) (hzero : '\x00' ∉ text.toList) :
    m'.readText? address limit = some text := by
  have hlength := text.length_toList
  have hall : text.toList.takeWhile (· ≠ '\x00') = text.toList :=
    List.takeWhile_eq_self_iff.mpr fun ch hch =>
      decide_eq_true fun heq => hzero (heq ▸ hch)
  rw [h.readText?_eq, List.take_of_length_le (hlength.trans_le hcount), hall,
    List.take_of_length_le (hlength.trans_le hlimit), String.ofList_toList]

end Machine

namespace World

variable {w u : World σ} {h : Host σ} {id : InstanceId} {m : Machine} {name : String}
  {index buffer size v : Cell} {rest : Params}

theorem steady_limits : Steady (limits (σ := σ)) where
  setMachine _ _ _ := rfl
  vars _ _ := rfl
  handles _ _ := rfl
  source _ _ := rfl
  host _ _ := rfl

/-- What the native has done that puts the name of a public function into a buffer. -/
theorem inscribed_of_publicName (sound : w.Sound) (hm : w.machine? id = some m)
    (hrun : w.runNative h id "amx_public_name" (index :: buffer :: size :: rest) = (.ok v, u)) :
    ∃ name r m', m.publicName? index.toInt = some name ∧
      m.region? buffer.toInt size.toInt = some r ∧
      m.Inscribed m' buffer.toInt name (min name.length (size.toInt - 1).toNat) ∧
      v = Cell.ofBits name.utf8ByteSize ∧ u = w.putMachine id m' := by
  obtain ⟨out, hout, hsettle⟩ := exists_performPlain_of_ok .publicName hrun
  obtain ⟨i, hi, hout⟩ := bind_eq_ok hout
  obtain rfl := Except.ok.inj hi
  obtain ⟨name, hname, hout⟩ := bind_eq_ok hout
  obtain ⟨a, ha, hout⟩ := bind_eq_ok hout
  obtain rfl := Except.ok.inj ha
  obtain ⟨n, hn, hout⟩ := bind_eq_ok hout
  obtain rfl := Except.ok.inj hn
  obtain ⟨⟨done, u'⟩, hwrite, rfl⟩ := wrote_eq_ok hout
  have hfound := of_machine_bind hm hname
  obtain ⟨m₁, ⟨written, m'⟩, hm₁, hwritten, hdone⟩ := writeName_eq_ok hwrite
  obtain rfl : m = m₁ := Option.some.inj (hm.symm.trans hm₁)
  obtain ⟨⟨r, hr⟩, _⟩ := Machine.writeText?_eq_some hwritten
  obtain ⟨m₂, hcomplete, hinscribed⟩ := (sound.machine? hm).wellFormed.inscribed hr name
  -- the buffer is live, so the write has come to its end
  obtain ⟨rfl, rfl⟩ := Prod.mk.inj (Option.some.inj (hwritten.symm.trans hcomplete))
  obtain ⟨rfl, rfl⟩ := Prod.mk.inj hdone
  obtain ⟨_, rfl, rfl⟩ := settle_returns_eq_ok_iff.mp hsettle
  split at hfound
  · next found hnamed =>
    obtain rfl := Except.ok.inj hfound
    exact ⟨found, r, m', hnamed, hr, hinscribed, rfl, rfl⟩
  · cases hfound

/-- The index of a name that can be read is the one under which the caller's machine finds it. -/
theorem runNative_publicIndex (hm : w.machine? id = some m) {a : Cell}
    (hread : m.readText? a.toInt w.limits.maxNameLength = some name) (hnonempty : name ≠ "")
    {i : Nat} (hindex : m.publicIndex? name = some i) (h : Host σ) (rest : Params) :
    w.runNative h id "amx_public_index" (a :: rest) = (.ok (Cell.ofBits i), w) := by
  have hname : w.nameAt id a .function = .ok name :=
    nameAt_eq_ok_iff.mpr ⟨textAt_eq_ok_iff.mpr ⟨m, hm, hread⟩, hnonempty⟩
  have hfound : w.publicIndex id name = .ok (Cell.ofBits i) := by
    simp [publicIndex, nonEmpty, hnonempty, machine_eq_ok_iff.mpr hm, hindex]
  have hperform : w.performPlain h id (a :: rest) .publicIndex =
      .ok (.ok (.returns (Cell.ofBits i)), w) := by
    simp [performPlain, Params.need, hname, hfound, answer, ends]
  exact runNative_of_returns .publicIndex (Nat.succ_pos _) hperform (isLive_of_machine? hm)

/-- A text that together with its zero fits a live buffer has as many bytes as a cell can count. -/
theorem toInt_byteSize (hm : m.WellFormed) {r : Region} {address : Int}
    (hr : m.region? address size.toInt = some r) (hfits : (name.length : Int) < size.toInt) :
    (Cell.ofBits name.utf8ByteSize).toInt = name.utf8ByteSize := by
  have hbytes := utf8ByteSize_le name
  have hreach := hm.in_reach hr
  exact Int32.toInt_ofInt_of_le (by omega) (by simp only [Cell.maxValue] at hreach; omega)

/-- What a public name that a script was given leads back to. Where a name is not empty, has no zero
in it, fits its buffer and is no longer than what is read, the script is told its number of bytes,
and if it asks for the index of the name in that buffer right then, it is told the first index of a
function of that name; this is the index it had asked for, if no name is there twice. -/
theorem publicName_round_trip (sound : w.Sound) (hm : w.machine? id = some m)
    (hrun : w.runNative h id "amx_public_name" (index :: buffer :: size :: rest) = (.ok v, u)) :
    ∃ name, m.publicName? index.toInt = some name ∧
      (name ≠ "" → '\x00' ∉ name.toList → (name.length : Int) < size.toInt →
        name.length ≤ w.limits.maxNameLength →
        v.toInt = name.utf8ByteSize ∧
          ∃ (least : Nat) (first : Cell), IsLeast {i | m.publics[i]? = some name} least ∧
            first.toInt = least ∧ (m.publics.Nodup → first = index) ∧
            ∀ (h' : Host σ) (rest' : Params),
              u.runNative h' id "amx_public_index" (buffer :: rest') = (.ok first, u)) := by
  obtain ⟨name, r, m', hname, hr, hinscribed, rfl, rfl⟩ := inscribed_of_publicName sound hm hrun
  refine ⟨name, hname, fun hnonempty hzero hfits hlimit => ?_⟩
  refine ⟨toInt_byteSize (sound.machine? hm).wellFormed hr hfits, ?_⟩
  have hread : m'.readText? buffer.toInt w.limits.maxNameLength = some name :=
    hinscribed.readText?_whole (by omega) hlimit hzero
  have hlimits : (w.putMachine id m').limits = w.limits := steady_limits.putMachine w id m'
  obtain ⟨hnonneg, hindex⟩ := Machine.publicName?_eq_some hname
  obtain ⟨least, hfound, hleast⟩ := Machine.exists_publicIndex?_eq (List.mem_of_getElem? hindex)
  have hfound' : m'.publicIndex? name = some least := by
    rw [← hfound, Machine.publicIndex?, Machine.publicIndex?,
      Machine.publics_eq_of_blank_eq hinscribed.blank_eq]
  have hbelow : least ≤ index.toInt.toNat := hleast.2 hindex
  have htoInt : (Cell.ofBits least).toInt = least := by
    have hindex := index.toInt_lt
    exact Int32.toInt_ofInt_of_le (by omega) (by omega)
  refine ⟨least, Cell.ofBits least, hleast, htoInt, fun hnodup => ?_, fun h' rest' => ?_⟩
  · have hlt : least < m.publics.length := (List.getElem?_eq_some_iff.mp hleast.1).1
    have hsame : least = index.toInt.toNat :=
      (List.getElem?_inj hlt hnodup).mp (hleast.1.trans hindex.symm)
    rw [← Int32.toInt_inj, htoInt]
    omega
  · rw [← hlimits] at hread
    exact runNative_publicIndex (machine?_putMachine hm m') hread hnonempty hfound' h' rest'

/-- A machine with two functions of one name, which has one character and two bytes. -/
def twiceNamed : Machine :=
  Scenario.MachineSpec.build { dataCells := 3, heapStackCells := 1, publics := ["é", "f", "é"] }

/-- A world in which names are read no further than their first character. -/
def twiceNames : World Unit := ((World.create { maxNameLength := 1 } ()).register twiceNamed).2

theorem sound_twiceNames : twiceNames.Sound := by
  intro m hmem
  obtain rfl : m = twiceNamed := by
    simpa [twiceNames, register, registerShared, addMachine, create] using hmem
  exact .built _ (by decide)

/-- The name of the last function just fits a buffer of two cells. It takes two bytes, and leads to
the first function. -/
theorem repeated_name_leads_to_first :
    let id : InstanceId := ⟨1, by decide⟩
    let h : Host Unit := ⟨fun _ w => (.ok 0, w), fun _ _ => (0, ())⟩
    let run := twiceNames.runNative h id "amx_public_name" [2, 4, 2]
    twiceNames.Sound ∧ twiceNames.machine? id = some twiceNamed ∧ run.1 = .ok 2 ∧
      "é".length = twiceNames.limits.maxNameLength ∧ "é".utf8ByteSize = 2 ∧
      run.2.runNative h id "amx_public_index" [4] = (.ok 0, run.2) := by
  intro id h run
  have hm : twiceNames.machine? id = some twiceNamed := by rfl
  have hrun : run.1 = .ok 2 := by rfl
  obtain ⟨name, hname, hround⟩ :=
    publicName_round_trip sound_twiceNames hm (Prod.ext hrun rfl : run = (.ok 2, _))
  obtain rfl : "é" = name := Option.some.inj ((by rfl : _ = some "é").symm.trans hname)
  obtain ⟨_, least, first, hleast, hfirst, _, hindex⟩ :=
    hround (by decide) (by decide) (by decide) (by decide)
  have hzero : least ≤ 0 := hleast.2 (by rfl : twiceNamed.publics[0]? = some "é")
  obtain rfl : first = 0 := Int32.toInt_inj.mp (by rw [hfirst, Nat.le_zero.mp hzero]; rfl)
  exact ⟨sound_twiceNames, hm, hrun, by decide, by decide, hindex h []⟩

end World

end ScriptNatives
