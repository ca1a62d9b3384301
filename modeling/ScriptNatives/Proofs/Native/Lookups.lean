import ScriptNatives.Proofs.Machine.Strings
import ScriptNatives.Proofs.Runs.Sources

/-!
# Names in script memory

Some natives are told by name which function or variable they are to work on, and the name lies in
the memory of the caller. What is looked up is what is read there, and what is found is declared
under just that name. But a name is read only so far, and a cell that is no character reads as
U+FFFD, so a name that is too long or malformed may be found under what is left of it.
-/
namespace ScriptNatives

variable {σ : Type}

namespace Machine

variable {m : Machine} {name : String} {address : Int}

/-- The public variable of that name that a machine has is the one declared last. -/
def DeclaresVar (m : Machine) (name : String) (address : Int) : Prop :=
  ∃ newer older, m.publicVars = newer ++ (name, address) :: older ∧
    ∀ entry ∈ newer, entry.1 ≠ name

theorem publicVar?_eq_some_iff : m.publicVar? name = some address ↔ m.DeclaresVar name address := by
  simp only [publicVar?, DeclaresVar, List.lookup_eq_some_iff, bne_iff_ne, ne_comm]

end Machine

namespace World

variable {w found : World σ} {h : Host σ} {id : InstanceId} {p : Params} {m : Machine} {a : Cell}
  {k : HostCall} {name : String}

/-! ### Reading a name -/

/-- What is read at an address in the memory of a caller, as far as names are read. -/
def ReadsName (w : World σ) (m : Machine) (a : Cell) (name : String) : Prop :=
  m.ReadsAs a.toInt w.limits.maxNameLength name

/-- What needs the machine of a live instance goes on with it. -/
theorem of_machine_bind {α : Type} {f : Machine → Except Fault α} {b : α}
    (hm : w.machine? id = some m) (h : w.machine id >>= f = .ok b) : f m = .ok b := by
  rwa [machine_eq_ok_iff.mpr hm] at h

theorem readsName_of_nameAt (hm : w.machine? id = some m) {argument : Argument}
    (hname : w.nameAt id a argument = .ok name) : w.ReadsName m a name := by
  obtain ⟨m', hm', hread⟩ := textAt_eq_ok_iff.mp (nameAt_eq_ok_iff.mp hname).1
  obtain rfl : m = m' := Option.some.inj (hm.symm.trans hm')
  exact Machine.readsAs_of_readText? hread

/-- What a plain native has done that returned a value to its caller. -/
theorem exists_performPlain_of_ok (native : LocalNative) {v : Cell} {u : World σ}
    (hrun : w.runNative h id native.scriptName p = (.ok v, u)) :
    ∃ out, w.performPlain h id p native = .ok out ∧ out.2.settle id out.1 = (.ok v, u) := by
  rcases runNative_plain_cases h id p w native with ⟨fault, hfailed⟩ | ⟨out, hout, hdone⟩
  · exact absurd (hfailed.symm.trans hrun) settle_error_ne_ok
  · exact ⟨out, hout, hdone.symm.trans hrun⟩

/-! ### Finding what a name stands for -/

theorem publicIndex_of_ok (hm : w.machine? id = some m) {i : Cell} {u : World σ}
    (hrun : w.runNative h id "amx_public_index" p = (.ok i, u)) (hfound : 0 ≤ i.toInt) :
    ∃ a name index, p[0]? = some a ∧ w.ReadsName m a name ∧
      m.Declares name .exported (.exported index) ∧ i = Cell.ofBits index ∧ u = w := by
  obtain ⟨out, hout, hsettle⟩ := exists_performPlain_of_ok .publicIndex hrun
  obtain ⟨a, ha, hout⟩ := bind_eq_ok hout
  obtain ⟨name, hname, hout⟩ := bind_eq_ok hout
  obtain ⟨v, hv, hout⟩ := bind_eq_ok hout
  obtain rfl := Except.ok.inj hout
  obtain ⟨_, rfl, rfl⟩ := settle_returns_eq_ok_iff.mp hsettle
  obtain ⟨_, _, hv⟩ := bind_eq_ok hv
  have hv := of_machine_bind hm hv
  split at hv
  · next index hindex =>
    obtain rfl := Except.ok.inj hv
    exact ⟨a, name, index, Params.need_eq_ok_iff.mp ha, readsName_of_nameAt hm hname,
      .exported (Machine.publicIndex?_eq_some_iff.mp hindex).1
        (Machine.publicIndex?_eq_some_iff.mp hindex).2, rfl, rfl⟩
  · obtain rfl := Except.ok.inj hv
    exact absurd hfound (by decide)

theorem publicVar_of_ok (hm : w.machine? id = some m) {v : Cell} {u : World σ}
    (hrun : w.runNative h id "amx_public_var" p = (.ok v, u)) :
    ∃ a name address, p[0]? = some a ∧ w.ReadsName m a name ∧ m.DeclaresVar name address ∧
      w.createVar id address 1 = .ok (v, u) := by
  obtain ⟨out, hout, hsettle⟩ := exists_performPlain_of_ok .publicVar hrun
  obtain ⟨a, ha, hout⟩ := bind_eq_ok hout
  obtain ⟨name, hname, hout⟩ := bind_eq_ok hout
  obtain ⟨created, hvar, rfl⟩ := answered_eq_ok hout
  obtain ⟨_, rfl, rfl⟩ := settle_returns_eq_ok_iff.mp hsettle
  obtain ⟨_, _, hvar⟩ := bind_eq_ok hvar
  have hvar := of_machine_bind hm hvar
  split at hvar
  · next address haddress =>
    exact ⟨a, name, address, Params.need_eq_ok_iff.mp ha, readsName_of_nameAt hm hname,
      Machine.publicVar?_eq_some_iff.mp haddress, hvar⟩
  · cases hvar

theorem encodeNative_of_ok (hm : w.machine? id = some m) {v : Cell} {u : World σ}
    (hrun : w.runNative h id "amx_encode_native" p = (.ok v, u)) :
    ∃ a dest name address first second, p[0]? = some a ∧ p[1]? = some dest ∧
      w.ReadsName m a name ∧ m.Declares name .native (.native address) ∧
      Token.ofNative address = .ok (first, second) ∧
      w.store id dest [first, second] = .ok (.ok (), u) := by
  obtain ⟨out, hout, hsettle⟩ := exists_performPlain_of_ok .encodeNative hrun
  obtain ⟨a, ha, hout⟩ := bind_eq_ok hout
  obtain ⟨name, hname, hout⟩ := bind_eq_ok hout
  obtain ⟨dest, hdest, hout⟩ := bind_eq_ok hout
  obtain ⟨⟨done, u'⟩, hstored, rfl⟩ := wrote_eq_ok hout
  cases done with
  | error fault => exact absurd hsettle settle_error_ne_ok
  | ok done =>
    obtain ⟨_, rfl, rfl⟩ := settle_returns_eq_ok_iff.mp hsettle
    obtain ⟨_, _, hstored⟩ := bind_eq_ok hstored
    have hstored := of_machine_bind hm hstored
    split at hstored
    · cases hstored
    · next address haddress =>
      split at hstored
      · next first second htoken =>
        have hdeclares : m.Declares name .native (.native address) :=
          Machine.entry?_eq_some_iff.mp (by simp [Machine.entry?, haddress])
        exact ⟨a, dest, name, address, first, second, Params.need_eq_ok_iff.mp ha,
          Params.need_eq_ok_iff.mp hdest, readsName_of_nameAt hm hname, hdeclares, htoken, hstored⟩
      · cases hstored

theorem hostCall_of_mem (hm : w.machine? id = some m)
    (hmem : (k, found) ∈ w.nativeHostCalls h id name p) :
    ∃ kind a target,
      (name = (Native.call kind).scriptName ∨ name = (Native.tryCall kind).scriptName) ∧
      p[1]? = some a ∧ w.ReadsName m a k.function ∧ found.machine? k.target = some target ∧
      target.Declares k.function kind k.entry := by
  obtain ⟨kind, i, c, _, hname, hc, hk⟩ := exists_readCall_of_mem hmem
  obtain ⟨_, rfl, a, ha, hfunction⟩ := readCall_eq_ok hc
  obtain ⟨_, hsame, target, htarget, hdeclares⟩ := hostCall?_eq_some hk
  rw [hsame] at hdeclares ⊢
  exact ⟨c.kind, a, target, hname, ha, readsName_of_nameAt hm hfunction, htarget, hdeclares⟩

/-- What a name resolves to is declared under that name, and the name is what the string in the
memory of the caller reads as: the function whose index is returned, the variable to which a
reference is made, the native whose token is stored, and the function that the host is handed,
which is declared by the target as it is then. -/
theorem names_are_read_and_declared (hm : w.machine? id = some m) (h : Host σ) (p : Params) :
    (∀ i u, w.runNative h id "amx_public_index" p = (.ok i, u) → 0 ≤ i.toInt →
      ∃ a name index, p[0]? = some a ∧ w.ReadsName m a name ∧
        m.Declares name .exported (.exported index) ∧ i = Cell.ofBits index ∧ u = w) ∧
    (∀ v u, w.runNative h id "amx_public_var" p = (.ok v, u) →
      ∃ a name address, p[0]? = some a ∧ w.ReadsName m a name ∧ m.DeclaresVar name address ∧
        w.createVar id address 1 = .ok (v, u)) ∧
    (∀ v u, w.runNative h id "amx_encode_native" p = (.ok v, u) →
      ∃ a dest name address first second, p[0]? = some a ∧ p[1]? = some dest ∧
        w.ReadsName m a name ∧ m.Declares name .native (.native address) ∧
        Token.ofNative address = .ok (first, second) ∧
        w.store id dest [first, second] = .ok (.ok (), u)) ∧
    ∀ name k found, (k, found) ∈ w.nativeHostCalls h id name p →
      ∃ kind a target,
        (name = (Native.call kind).scriptName ∨ name = (Native.tryCall kind).scriptName) ∧
        p[1]? = some a ∧ w.ReadsName m a k.function ∧ found.machine? k.target = some target ∧
        target.Declares k.function kind k.entry :=
  ⟨fun _ _ => publicIndex_of_ok hm, fun _ _ => publicVar_of_ok hm,
    fun _ _ => encodeNative_of_ok hm, fun _ _ _ => hostCall_of_mem hm⟩

/-- A machine that has two functions with names of one character. In its memory there is a longer
name, and behind it one that is malformed. -/
def shortNamed : Machine :=
  ((Scenario.MachineStep.poke 0 [102, 103, 0, 0xD800, 0]).perform
    (Scenario.MachineSpec.build { publics := ["f", "\uFFFD"] })).2

/-- A world in which names are read no further than their first character. -/
def shortNames : World Unit :=
  ((World.create { maxNameLength := 1 } ()).register shortNamed).2

theorem shortNames_machine? : shortNames.machine? ⟨1, by decide⟩ = some shortNamed := by rfl

/-- The longer name resolves to the function whose name it begins with, and the malformed one to the
function whose name has U+FFFD in its place. -/
theorem shortNames_resolve :
    let id : InstanceId := ⟨1, by decide⟩
    let h : Host Unit := ⟨fun _ w => (.ok 0, w), fun _ _ => (0, ())⟩
    shortNames.machine? id = some shortNamed ∧
      shortNamed.StringAt 0 [102, 103] ∧
      (shortNames.runNative h id "amx_public_index" [0]).1 = .ok 0 ∧
      (∃ index, shortNamed.Declares "f" .exported (.exported index) ∧ 0 = Cell.ofBits index) ∧
      shortNamed.StringAt 12 [0xD800] ∧
      (shortNames.runNative h id "amx_public_index" [12]).1 = .ok 1 ∧
      ∃ index, shortNamed.Declares "\uFFFD" .exported (.exported index) ∧
        1 = Cell.ofBits index := by
  intro id h
  have hresolves (a i : Cell) (cells : List Cell) (name : String)
      (hstring : shortNamed.StringAt a.toInt cells)
      (hname : String.ofList ((cells.take 1).map Cell.toChar) = name)
      (hrun : (shortNames.runNative h id "amx_public_index" [a]).1 = .ok i) (hi : 0 ≤ i.toInt) :
      ∃ index, shortNamed.Declares name .exported (.exported index) ∧
        i = Cell.ofBits index := by
    obtain ⟨a', name', index, ha, hreads, hdeclares, hindex, _⟩ :=
      (names_are_read_and_declared shortNames_machine? h [a]).1 i _ (Prod.ext hrun rfl) hi
    obtain rfl : a = a' := Option.some.inj ha
    have htext : name'.toList = (cells.take 1).map Cell.toChar := hreads.of_stringAt _ hstring
    rw [← htext, String.ofList_toList] at hname
    exact ⟨index, hname ▸ hdeclares, hindex⟩
  have hlong : shortNamed.StringAt 0 [102, 103] := by decide
  have hmalformed : shortNamed.StringAt 12 [0xD800] := by decide
  have hfirst : (shortNames.runNative h id "amx_public_index" [0]).1 = .ok 0 := by rfl
  have hsecond : (shortNames.runNative h id "amx_public_index" [12]).1 = .ok 1 := by rfl
  exact ⟨shortNames_machine?, hlong, hfirst,
    hresolves 0 0 [102, 103] "f" hlong (by decide) hfirst (by decide), hmalformed, hsecond,
    hresolves 12 1 [0xD800] "\uFFFD" hmalformed (by decide) hsecond (by decide)⟩

/-- So it is not true that a name resolves only if the string in memory is that name. -/
theorem longer_name_resolves :
    ¬ ∀ (w : World Unit) (h : Host Unit) (id : InstanceId) (m : Machine) (a i : Cell)
      (u : World Unit), w.machine? id = some m →
      w.runNative h id "amx_public_index" [a] = (.ok i, u) → 0 ≤ i.toInt →
      ∃ name index, m.publics[index]? = some name ∧ i = Cell.ofBits index ∧
        m.StringAt a.toInt (name.toList.map Cell.ofChar) := by
  intro hclaim
  let id : InstanceId := ⟨1, by decide⟩
  let h : Host Unit := ⟨fun _ w => (.ok 0, w), fun _ _ => (0, ())⟩
  have hfound : (shortNames.runNative h id "amx_public_index" [0]).1 = .ok 0 := by rfl
  obtain ⟨name, index, hname, _, hstring⟩ :=
    hclaim shortNames h id shortNamed 0 0 _ shortNames_machine? (Prod.ext hfound rfl) (by decide)
  have hmem : name ∈ ["f", "\uFFFD"] := List.mem_of_getElem? hname
  simp only [List.mem_cons, List.not_mem_nil, or_false] at hmem
  -- the string goes on behind its first character, and both names end there
  rcases hmem with rfl | rfl <;> exact absurd hstring.ends (by decide)

end World

end ScriptNatives
