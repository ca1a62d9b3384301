import ScriptNatives.Proofs.Machine.Ranges
import ScriptNatives.Proofs.Native.Failure
import ScriptNatives.Proofs.Native.Lookups
import ScriptNatives.Proofs.Native.Statuses
import ScriptNatives.Proofs.References.Linked
import ScriptNatives.Proofs.Wire.Token

/-!
# Storing the token of a native

The token of a native takes two cells, so there are more ways to fail than with one. The name has to
be read and found, its address needs a token, and both cells have to be live in one region. Then
the token is stored and nothing else; otherwise nothing is stored at all. Only where heap and stack
meet is a pair refused that is live.
-/
namespace ScriptNatives

open Scenario (MachineSpec MachineStep)

namespace Machine

variable {m m' : Machine} {address : Int}

/-- The cell at an address and the one behind it are live in one region: both in the data block, or
both in the same dynamic block. -/
inductive LivePair (m : Machine) (address : Int) : Prop where
  | data (live : m.LiveData address 2)
  | dynamic {b : Block} (mem : b ∈ m.blocks) (aligned : address % 4 = 0) (base_le : b.base ≤ address)
      (le_limit : address + 8 ≤ b.limit)

/-- A live pair counts for a live range, unless it lies across the place where heap and stack
meet. -/
theorem WellFormed.region?_two_iff (hm : m.WellFormed) :
    (∃ r, m.region? address 2 = some r) ↔ m.LivePair address ∧ ¬ m.Straddles address 2 := by
  constructor
  · rintro ⟨r, hr⟩
    refine ⟨?_, fun hs => by simp [hs.region?_eq_none hm] at hr⟩
    cases r with
    | data => exact .data fun i hnonneg hlt => hm.region?_part hr i 1 hnonneg Int.one_pos (by omega)
    | dynamic =>
      obtain ⟨haligned, _, b, hb, hbase, hlimit⟩ := hm.region?_eq_dynamic_iff.mp hr
      exact .dynamic hb haligned hbase hlimit
  · rintro ⟨pair, hclear⟩
    cases pair with
    | data live => exact ⟨.data, live.region?_eq_data hm (by decide) hclear⟩
    | dynamic hb haligned hbase hlimit =>
      exact ⟨.dynamic, hm.region?_eq_dynamic_iff.mpr ⟨haligned, by decide, _, hb, hbase, hlimit⟩⟩

/-- From the machine `m` to the machine `m'`, the token of a native address was stored in two cells,
and no other cell was changed, be it live or dead, and nothing else about the machine. -/
structure TokenStored (m m' : Machine) (dest : Int) (address : Nat) : Prop where
  token : ∃ first second, m'.cell? dest = some first ∧ m'.cell? (dest + 4) = some second ∧
    Token.toNative first second = .ok address
  stored?_eq : ∀ a, a ≠ dest → a ≠ dest + 4 → m'.stored? a = m.stored? a
  blank_eq : m'.blank = m.blank

/-- Two cells that are live in one region take a token. -/
theorem Reachable.exists_tokenStored (hm : m.Reachable) {r : Region} {dest : Int}
    (hr : m.region? dest 2 = some r) {native : Nat} {first second : Cell}
    (htoken : Token.ofNative native = .ok (first, second)) :
    ∃ m', m.store? dest [first, second] = some (none, m') ∧ m.TokenStored m' dest native := by
  obtain ⟨m', hstored, written⟩ :=
    hm.wellFormed.exists_store hr (List.cons_ne_nil first [second]) (Int.le_refl _)
  have hfirst := written.cell?_inside 0 Nat.two_pos
  have hsecond := written.cell?_inside 1 Nat.one_lt_two
  refine ⟨m', hstored, ⟨first, second, by simpa using hfirst, by simpa using hsecond,
    Token.toNative_of_ofNative htoken⟩, fun a hne hne' => ?_, blank_store? hstored⟩
  refine (hm.wellFormed.agreesOutside_store? hstored).stored?_eq a ?_
  rintro ⟨i, hnonneg, hlt, rfl⟩
  simp only [List.length_cons, List.length_nil] at hlt
  omega

end Machine

namespace World

variable {σ : Type} {w u : World σ} {h : Host σ} {id : InstanceId} {p : Params} {m : Machine}
  {native : Nat} {dest v : Cell}

/-- What a native asks for that is to store a token: the name of a native that the machine has, at an
address that has a token, and a place to put it. -/
structure AsksToken (w : World σ) (m : Machine) (p : Params) (native : Nat) (dest : Cell) :
    Prop where
  named : ∃ a name, p[0]? = some a ∧ m.readText? a.toInt w.limits.maxNameLength = some name ∧
    name ≠ "" ∧ m.Declares name .native (.native native)
  small : native < 255 ^ 5
  placed : p[1]? = some dest

/-- The token is stored that the name leads to. -/
theorem storeNativeToken_eq_ok_iff (hm : w.machine? id = some m) {name : String}
    {out : Outcome σ Unit} :
    w.storeNativeToken id name dest = .ok out ↔ name ≠ "" ∧ ∃ native first second,
      m.Declares name .native (.native native) ∧ Token.ofNative native = .ok (first, second) ∧
        w.store id dest [first, second] = .ok out := by
  have hdeclares (native : Nat) :
      m.Declares name .native (.native native) ↔ m.nativeAddress? name = some native := by
    simp [← Machine.entry?_eq_some_iff, Machine.entry?]
  simp only [hdeclares]
  by_cases hname : name = ""
  · simp [storeNativeToken, nonEmpty, hname]
  · cases hnative : m.nativeAddress? name with
    | none => simp [storeNativeToken, nonEmpty, hname, machine_eq_ok_iff.mpr hm, hnative]
    | some native =>
      cases htoken : Token.ofNative native with
      | error e =>
        simp [storeNativeToken, nonEmpty, hname, machine_eq_ok_iff.mpr hm, hnative, htoken]
      | ok token =>
        obtain ⟨first, second⟩ := token
        simp [storeNativeToken, nonEmpty, hname, machine_eq_ok_iff.mpr hm, hnative, htoken]

/-- A token that was asked for and has been stored. -/
theorem asksToken_of_ok (hm : w.machine? id = some m)
    (hrun : w.runNative h id "amx_encode_native" p = (.ok v, u)) :
    v = 1 ∧ ∃ native dest first second stored, w.AsksToken m p native dest ∧
      Token.ofNative native = .ok (first, second) ∧
      m.store? dest.toInt [first, second] = some stored ∧ u = w.putMachine id stored.2 := by
  obtain ⟨out, hout, hsettle⟩ := exists_performPlain_of_ok .encodeNative hrun
  obtain ⟨a, ha, hout⟩ := bind_eq_ok hout
  obtain ⟨name, hname, hout⟩ := bind_eq_ok hout
  obtain ⟨dest, hdest, hout⟩ := bind_eq_ok hout
  obtain ⟨⟨done, u'⟩, hdone, rfl⟩ := wrote_eq_ok hout
  obtain ⟨hread, hnonempty⟩ := nameAt_eq_ok_iff.mp hname
  obtain ⟨m₁, hm₁, hread⟩ := textAt_eq_ok_iff.mp hread
  obtain rfl : m = m₁ := Option.some.inj (hm.symm.trans hm₁)
  obtain ⟨_, native, first, second, hdeclares, htoken, hstore⟩ :=
    (storeNativeToken_eq_ok_iff hm).mp hdone
  obtain ⟨m₂, stored, hm₂, hstored, heq⟩ := store_eq_ok hstore
  obtain rfl : m = m₂ := Option.some.inj (hm.symm.trans hm₂)
  obtain ⟨rfl, rfl⟩ := Prod.mk.inj heq
  have asks : w.AsksToken m p native dest := {
    named := ⟨a, name, Params.need_eq_ok_iff.mp ha, hread, hnonempty, hdeclares⟩
    small := (Token.ofNative_eq_ok_iff.mp htoken).1
    placed := Params.need_eq_ok_iff.mp hdest }
  cases hdead : stored.1 with
  | some dead =>
    rw [hdead] at hsettle
    exact absurd hsettle settle_error_ne_ok
  | none =>
    rw [hdead] at hsettle
    obtain ⟨_, rfl, rfl⟩ := settle_returns_eq_ok_iff.mp hsettle
    exact ⟨rfl, native, dest, first, second, stored, asks, htoken, hstored, rfl⟩

/-- A token that is asked for is stored, if its cells are written. -/
theorem AsksToken.runNative_eq (asks : w.AsksToken m p native dest) (hm : w.machine? id = some m)
    {first second : Cell} (htoken : Token.ofNative native = .ok (first, second)) {m' : Machine}
    (hstored : m.store? dest.toInt [first, second] = some (none, m')) (h : Host σ) :
    w.runNative h id "amx_encode_native" p = (.ok 1, w.putMachine id m') := by
  obtain ⟨a, name, ha, hread, hnonempty, hdeclares⟩ := asks.named
  have hname : w.nameAt id a .function = .ok name :=
    nameAt_eq_ok_iff.mpr ⟨textAt_eq_ok_iff.mpr ⟨m, hm, hread⟩, hnonempty⟩
  have hstore : w.store id dest [first, second] = .ok (.ok (), w.putMachine id m') := by
    simp [store, machine_eq_ok_iff.mpr hm, hstored]
  have hdone : w.storeNativeToken id name dest = .ok (.ok (), w.putMachine id m') :=
    (storeNativeToken_eq_ok_iff hm).mpr ⟨hnonempty, native, first, second, hdeclares, htoken, hstore⟩
  have hlength : 2 ≤ p.length := (List.getElem?_eq_some_iff.mp asks.placed).1
  have hperform : w.performPlain h id p .encodeNative =
      .ok (.ok (.returns 1), w.putMachine id m') := by
    simp [performPlain, Params.need_eq_ok_iff.mpr ha, Params.need_eq_ok_iff.mpr asks.placed,
      hname, hdone, wrote, Except.map]
  have live := isLive_of_machine? (machine?_putMachine hm m')
  exact runNative_of_returns .encodeNative hlength hperform live

/-- What is asked for is settled by the memory of the caller. -/
theorem AsksToken.unique (asks : w.AsksToken m p native dest) {native' : Nat} {dest' : Cell}
    (asks' : w.AsksToken m p native' dest') : native = native' ∧ dest = dest' := by
  obtain ⟨a, name, ha, hread, _, hdeclares⟩ := asks.named
  obtain ⟨a', name', ha', hread', _, hdeclares'⟩ := asks'.named
  obtain rfl := Option.some.inj (ha.symm.trans ha')
  obtain rfl := Option.some.inj (hread.symm.trans hread')
  rw [← Machine.entry?_eq_some_iff] at hdeclares hdeclares'
  obtain rfl := EntryPoint.native.inj (Option.some.inj (hdeclares.symm.trans hdeclares'))
  exact ⟨rfl, Option.some.inj (asks.placed.symm.trans asks'.placed)⟩

/-- A token that is asked for is stored in two cells that are live in one region. -/
theorem AsksToken.exists_stored (asks : w.AsksToken m p native dest) (sound : w.Sound)
    (hm : w.machine? id = some m) {r : Region} (hr : m.region? dest.toInt 2 = some r)
    (h : Host σ) : ∃ m', m.TokenStored m' dest.toInt native ∧
      w.runNative h id "amx_encode_native" p = (.ok 1, w.putMachine id m') := by
  have htoken := Token.ofNative_eq_ok_iff.mpr ⟨asks.small, rfl, rfl⟩
  obtain ⟨m', hstored, hcells⟩ := (sound.machine? hm).exists_tokenStored hr htoken
  exact ⟨m', hcells, asks.runNative_eq hm htoken hstored h⟩

/-- A token is stored if one is asked for and its cells are live in one region, and only then. -/
theorem encodeNative_ok_iff (sound : w.Sound) (hm : w.machine? id = some m) (h : Host σ)
    (p : Params) : (w.runNative h id "amx_encode_native" p).1 = .ok 1 ↔
      ∃ native dest, w.AsksToken m p native dest ∧ ∃ r, m.region? dest.toInt 2 = some r := by
  constructor
  · intro hrun
    obtain ⟨_, native, dest, _, _, _, asks, _, hstored, _⟩ := asksToken_of_ok hm (Prod.ext hrun rfl)
    exact ⟨native, dest, asks, (Machine.store?_eq_some hstored).1⟩
  · rintro ⟨native, dest, asks, r, hr⟩
    obtain ⟨_, _, hstored⟩ := asks.exists_stored sound hm hr h
    exact congrArg Prod.fst hstored

/-- A token is stored if a native is named that has one, and there is a live pair of cells to put it
in, which does not lie across the place where heap and stack meet. Then the pair holds the token of
that native, and no other cell is changed, in this machine or in any other. In every other case the
native fails, and no cell is changed at all. -/
theorem encodeNative_stores_or_fails (sound : w.Sound) (hm : w.machine? id = some m) (h : Host σ)
    (p : Params) :
    let run := w.runNative h id "amx_encode_native" p
    (run.1 = .ok 1 ↔ ∃ native dest, w.AsksToken m p native dest ∧ m.LivePair dest.toInt ∧
        ¬ m.Straddles dest.toInt 2) ∧
      (run.1 = .ok 1 → ∀ native dest, w.AsksToken m p native dest →
        ∃ m', m.TokenStored m' dest.toInt native ∧ run.2 = w.putMachine id m') ∧
      (run.1 ≠ .ok 1 → ∃ fault, run = (.error fault, w.putMachine id (m.raise .native))) := by
  intro run
  have hok := encodeNative_ok_iff sound hm h p
  have hwf := (sound.machine? hm).wellFormed
  refine ⟨by simpa only [hwf.region?_two_iff] using hok, fun hrun native dest asks => ?_,
    fun hrun => ?_⟩
  · obtain ⟨native', dest', asks', r, hr⟩ := hok.mp hrun
    obtain ⟨rfl, rfl⟩ := asks.unique asks'
    obtain ⟨m', hcells, hstored⟩ := asks.exists_stored sound hm hr h
    exact ⟨m', hcells, congrArg Prod.snd hstored⟩
  · cases hvalue : run.1 with
    | ok v =>
      obtain ⟨rfl, _⟩ := asksToken_of_ok hm (Prod.ext hvalue rfl)
      exact absurd hvalue hrun
    | error fault =>
      obtain ⟨m', hm', hworld⟩ :=
        exists_raised sound (isLive_of_machine? hm) (by decide) hvalue
      obtain rfl := Option.some.inj (hm.symm.trans hm')
      exact ⟨fault, Prod.ext hvalue hworld⟩

/-- A machine of three cells. Two of them are data, and hold the name of its native. -/
def encoder : Machine :=
  ((MachineStep.writeText 0 "f" none).perform
    (MachineSpec.build { dataCells := 2, heapStackCells := 1, natives := [("f", 5)] })).2

theorem encoder_reachable : encoder.Reachable := (Machine.Reachable.built _ (by decide)).step _

def single (m : Machine) : World Unit := ((World.create {} ()).register m).2

theorem sound_single (hm : m.Reachable) : (single m).Sound := by
  intro m' hmem
  obtain rfl : m' = m := by simpa [single, register, registerShared, addMachine, create] using hmem
  exact hm

/-- The token is stored over the name. One cell further up there is only one cell left, and nothing
is stored. -/
theorem token_over_name :
    let id : InstanceId := ⟨1, by decide⟩
    let h : Host Unit := ⟨fun _ w => (.ok 0, w), fun _ _ => (0, ())⟩
    let run (dest : Cell) := (single encoder).runNative h id "amx_encode_native" [0, dest]
    (single encoder).Sound ∧ (single encoder).machine? id = some encoder ∧
      (∀ dest, (single encoder).AsksToken encoder [0, dest] 5 dest) ∧
      (run 0).1 = .ok 1 ∧
      (∃ m', encoder.TokenStored m' 0 5 ∧ (run 0).2 = (single encoder).putMachine id m') ∧
      ∃ fault, run 4 = (.error fault, (single encoder).putMachine id (encoder.raise .native)) := by
  intro id h run
  have sound := sound_single encoder_reachable
  have hm : (single encoder).machine? id = some encoder := by rfl
  have asks (dest : Cell) : (single encoder).AsksToken encoder [0, dest] 5 dest :=
    ⟨⟨0, "f", rfl, by rfl, by decide, Machine.entry?_eq_some_iff.mp rfl⟩, by decide, rfl⟩
  have hstores (dest : Cell) := encodeNative_stores_or_fails sound hm h [0, dest]
  have hdone : (run 0).1 = .ok 1 :=
    (hstores 0).1.mpr ⟨5, 0, asks 0, .data (Machine.liveData_two (by decide) (by decide)),
      fun hs => absurd hs.full (by decide)⟩
  have hrefused : (run 4).1 = .error (.badAddress 4) := by rfl
  have hfailed : (run 4).1 ≠ .ok 1 := by rw [hrefused]; exact nofun
  exact ⟨sound, hm, asks, hdone, (hstores 0).2.1 hdone 5 0 (asks 0), (hstores 4).2.2 hfailed⟩

/-- So it is not true that a token that is asked for is stored in every live pair of cells: with a
value on the stack, the last cell of data and the first one of the stack are a live pair that takes
none. -/
theorem live_pair_takes_no_token :
    ¬ ∀ (w : World Unit) (h : Host Unit) (id : InstanceId) (m : Machine) (p : Params)
      (native : Nat) (dest : Cell), w.Sound → w.machine? id = some m →
      w.AsksToken m p native dest → m.LivePair dest.toInt →
      (w.runNative h id "amx_encode_native" p).1 = .ok 1 := by
  intro hclaim
  let id : InstanceId := ⟨1, by decide⟩
  let h : Host Unit := ⟨fun _ w => (.ok 0, w), fun _ _ => (0, ())⟩
  let m := ((MachineStep.push 9).perform encoder).2
  have hm : m.Reachable := encoder_reachable.step _
  have asks : (single m).AsksToken m [0, 4] 5 4 :=
    ⟨⟨0, "f", rfl, by rfl, by decide, Machine.entry?_eq_some_iff.mp rfl⟩, by decide, rfl⟩
  have hstored := hclaim (single m) h id m [0, 4] 5 4 (sound_single hm) rfl asks
    (.data (Machine.liveData_two (by decide) (by decide)))
  have hfailed : ((single m).runNative h id "amx_encode_native" [0, 4]).1 =
    .error (.badAddress 4) := by rfl
  rw [hfailed] at hstored
  cases hstored

end World

end ScriptNatives
