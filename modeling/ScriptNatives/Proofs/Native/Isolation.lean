import ScriptNatives.Proofs.Machine.Memory
import ScriptNatives.Proofs.Native.Release

/-!
# What natives leave alone in memory

A native that calls nobody may write to a buffer in the caller's memory, or to one cell through a
variable; which cells these are is settled by its parameters. It moves nothing, and what the
other cells hold stays as it is, on every machine. The one exception is a block that is released.
-/
namespace ScriptNatives

variable {σ : Type}

/-- The buffer that a native is given: where it begins, and how many cells it has. -/
def LocalNative.buffer? (p : Params) : LocalNative → Option (Int × Int)
  | name => do return ((← p[0]?).toInt, (← p[1]?).toInt)
  | publicName => do return ((← p[1]?).toInt, (← p[2]?).toInt)
  | encodePublic | toRef => do return ((← p[1]?).toInt, 1)
  | encodeNative => do return ((← p[1]?).toInt, 2)
  | _ => none

namespace World

variable {w u v : World σ} {h : Host σ} {id : InstanceId} {p : Params} {m m' : Machine}
  {s : Nat → Int → Prop}

/-- The cells that a native may write, each by its address on the machine of some number. -/
inductive MayWrite (w : World σ) (id : InstanceId) (p : Params) :
    LocalNative → Nat → Int → Prop where
  | inBuffer {native : LocalNative} {first count address : Int} {number : Nat}
      (buffer : native.buffer? p = some (first, count)) (caller : w.number? id = some number)
      (inside : Machine.InCells first count address) : MayWrite w id p native number address
  | throughVar {var : Cell} {v : Var} {number : Nat} (param : p[0]? = some var)
      (found : w.vars.get? var = some v) (owner : w.number? v.owner = some number) :
      MayWrite w id p .set number (v.address + 4 * (p.getD 2 0).toInt)

/-- From one world to the other, each machine is as it was, but for what is in some cells. -/
structure Confined (s : Nat → Int → Prop) (w u : World σ) : Prop where
  size_eq : u.machines.size = w.machines.size
  agrees : ∀ (number : Nat) (m : Machine), w.machines[number]? = some m →
    ∃ m', u.machines[number]? = some m' ∧ m.AgreesOutside (s number) m'

theorem Confined.of_machines_eq (h : u.machines = w.machines) : Confined s w u where
  size_eq := by rw [h]
  agrees number m hm := ⟨m, by rw [h, hm], .refl m⟩

theorem Confined.trans (first : Confined s w u) (second : Confined s u v) : Confined s w v where
  size_eq := second.size_eq.trans first.size_eq
  agrees number m hm := by
    obtain ⟨m', hm', hagrees⟩ := first.agrees number m hm
    obtain ⟨m'', hm'', hagrees'⟩ := second.agrees number m' hm'
    exact ⟨m'', hm'', hagrees.trans hagrees'⟩

theorem confined_putMachine (hm : w.machine? id = some m)
    (hagrees : ∀ number, w.number? id = some number → m.AgreesOutside (s number) m') :
    Confined s w (w.putMachine id m') where
  size_eq := size_putMachine w id m'
  agrees number n hn := by
    rw [machines_putMachine hm]
    by_cases hnumber : w.number? id = some number
    · rw [machine?_eq, hnumber, Option.bind_some, hn, Option.some.injEq] at hm
      rw [if_pos hnumber]
      exact ⟨m', rfl, hm ▸ hagrees number hnumber⟩
    · exact ⟨n, by rw [if_neg hnumber, hn], .refl n⟩

/-! ### What plain natives write -/

theorem confined_store (hw : w.Sound) {address : Cell} {values : List Cell} {out : Outcome σ Unit}
    (hstore : w.store id address values = .ok out)
    (hs : ∀ number, w.number? id = some number →
      ∀ a, Machine.InCells address.toInt values.length a → s number a) : Confined s w out.2 := by
  obtain ⟨m, stored, hm, hstored, rfl⟩ := store_eq_ok hstore
  refine confined_putMachine hm fun number hnumber => ?_
  exact ((hw.machine? hm).wellFormed.agreesOutside_store? hstored).mono (hs number hnumber)

theorem confined_writeName (hw : w.Sound) {name : String} {buffer size : Cell}
    {out : Outcome σ Cell} (hwrite : w.writeName id name buffer size = .ok out)
    (hs : ∀ number, w.number? id = some number →
      ∀ a, Machine.InCells buffer.toInt size.toInt a → s number a) : Confined s w out.2 := by
  obtain ⟨m, written, hm, hwritten, rfl⟩ := writeName_eq_ok hwrite
  refine confined_putMachine hm fun number hnumber => ?_
  exact ((hw.machine? hm).wellFormed.agreesOutside_writeText? hwritten).mono (hs number hnumber)

theorem confined_writeVar (hw : w.Sound) {v : Var} {index : Int} {value : Cell}
    {out : Cell × World σ} (hwrite : w.writeVar v index value = .ok out)
    (hs : ∀ number, w.number? v.owner = some number → s number (v.address + 4 * index)) :
    Confined s w out.2 := by
  obtain ⟨address, m, exchanged, helement, hm, hexchange, rfl⟩ := writeVar_eq_ok hwrite
  obtain ⟨_, _, rfl⟩ := Var.element_eq_ok_iff.mp helement
  refine confined_putMachine hm fun number hnumber => ?_
  refine ((hw.machine? hm).wellFormed.agreesOutside_exchange? hexchange).mono ?_
  rintro a rfl
  exact hs number hnumber

/-- A plain native that does not release a block writes to the cells that it may write, and moves
nothing. -/
theorem performPlain_confined (hw : w.Sound) {native : LocalNative} (hfree : native ≠ .free) :
    Ensures (w.performPlain h id p native)
      fun out => Confined (w.MayWrite id p native) w out.2 := by
  have hcaller {first count : Int} (hbuffer : native.buffer? p = some (first, count)) :
      ∀ number, w.number? id = some number →
        ∀ a, Machine.InCells first count a → w.MayWrite id p native number a :=
    fun number hnumber a hinside => .inBuffer hbuffer hnumber hinside
  cases native with
  | self | source | commit | forkEnd | parallelBegin | parallelEnd | tailCall =>
    exact ensures_ok (.of_machines_eq rfl)
  | numPublics | get | valid | linked | inside | sizeof | my | publicIndex | error | alloc
  | nameString | publicNameString =>
    repeat refine ensures_bind fun _ _ => ?_
    exact ensures_ok (.of_machines_eq rfl)
  | handle => exact ensures_answered fun _ hout => .of_machines_eq (createHandle_keeps hout).2
  | sourceHandle =>
    simp only [performPlain]
    split
    · exact ensures_answered fun _ hout => .of_machines_eq (createHandle_keeps hout).2
    · exact ensures_ok (.of_machines_eq rfl)
  | var =>
    refine ensures_bind fun address _ => ensures_answered fun out hcreate => ?_
    exact .of_machines_eq (createVar_keeps hcreate).2
  | varArray =>
    refine ensures_bind fun address _ => ensures_bind fun count _ => ?_
    exact ensures_answered fun out hcreate => .of_machines_eq (createVar_keeps hcreate).2
  | publicVar =>
    refine ensures_bind fun a _ => ensures_bind fun name _ => ensures_answered fun out hout => ?_
    obtain ⟨_, hcreate⟩ := publicVar_creates out hout
    exact .of_machines_eq (createVar_keeps hcreate).2
  | set =>
    refine ensures_bind fun var hvar => ensures_bind fun v hv => ensures_bind fun value _ => ?_
    refine ensures_answered fun out hwrite => confined_writeVar hw hwrite fun number hnumber => ?_
    exact .throughVar (Params.need_eq_ok_iff.mp hvar) (var_eq_ok_iff.mp hv) hnumber
  | delete =>
    refine ensures_bind fun var _ => ensures_bind fun _ _ => ?_
    exact ensures_ok (.of_machines_eq (releaseVar_keeps var).2)
  | name =>
    refine ensures_bind fun m _ => ensures_bind fun buffer hbuffer => ?_
    refine ensures_bind fun size hsize => ensures_wrote fun out hwrite => ?_
    refine confined_writeName hw hwrite (hcaller ?_)
    simp [LocalNative.buffer?, Params.need_eq_ok_iff.mp hbuffer, Params.need_eq_ok_iff.mp hsize]
  | publicName =>
    refine ensures_bind fun index _ => ensures_bind fun name _ => ?_
    refine ensures_bind fun buffer hbuffer => ensures_bind fun size hsize => ?_
    refine ensures_wrote fun out hwrite => confined_writeName hw hwrite (hcaller ?_)
    simp [LocalNative.buffer?, Params.need_eq_ok_iff.mp hbuffer, Params.need_eq_ok_iff.mp hsize]
  | encodePublic =>
    refine ensures_bind fun index _ => ensures_bind fun dest hdest => ?_
    refine ensures_wrote fun out hout => ?_
    obtain ⟨_, hstore⟩ := storePublicToken_stores out hout
    refine confined_store hw hstore (hcaller ?_)
    simp [LocalNative.buffer?, Params.need_eq_ok_iff.mp hdest]
  | encodeNative =>
    refine ensures_bind fun a _ => ensures_bind fun name _ => ensures_bind fun dest hdest => ?_
    refine ensures_wrote fun out hout => ?_
    obtain ⟨_, _, hstore⟩ := storeNativeToken_stores out hout
    refine confined_store hw hstore (hcaller ?_)
    simp [LocalNative.buffer?, Params.need_eq_ok_iff.mp hdest]
  | toRef =>
    refine ensures_bind fun dest hdest => ensures_bind fun _ _ => ensures_bind fun offset _ => ?_
    refine ensures_wrote fun out hstore => confined_store hw hstore (hcaller ?_)
    simp [LocalNative.buffer?, Params.need_eq_ok_iff.mp hdest]
  | fork => exact fun _ hout => .of_machines_eq (fork_keeps hout).2
  | free => exact absurd rfl hfree

/-! ### Running a plain native -/

theorem settle_confined (w : World σ) (id : InstanceId) (result : Except Fault Ending) :
    Confined s w (w.settle id result).2 := by
  unfold settle
  split
  · exact .of_machines_eq rfl
  · next m ending hm =>
    refine confined_putMachine hm fun _ _ => ?_
    cases ending with
    | returns v => exact .refl m
    | sleeps code => exact Machine.agreesOutside_raise m .sleep
    | raises status v => exact Machine.agreesOutside_raise m status
  · next m fault hm => exact confined_putMachine hm fun _ _ => Machine.agreesOutside_raise m .native

/-- A plain native that is run by name writes to the cells that it may write and moves nothing, or
it releases a block of the caller. -/
theorem runNative_confined (sound : w.Sound) (h : Host σ) (id : InstanceId) (p : Params)
    (native : LocalNative) :
    (Confined (w.MayWrite id p native) w (w.runNative h id native.scriptName p).2 ∧
        (native = .free → ∃ fault, (w.runNative h id native.scriptName p).1 = .error fault)) ∨
      native = .free ∧ ∃ m b c, w.machine? id = some m ∧ b ∈ m.blocks ∧
        w.runNative h id native.scriptName p =
          (.ok c, w.putMachine id ((m.withoutBlock b.base).raise .sleep)) := by
  rcases runNative_plain_cases h id p w native with ⟨fault, hrun⟩ | ⟨out, hperform, hrun⟩
  · rw [hrun]
    exact .inl ⟨settle_confined w id _, fun _ => settle_error w id fault⟩
  · by_cases hfree : native = .free
    · subst hfree
      obtain ⟨var, _, hfree⟩ := bind_eq_ok hperform
      obtain ⟨v, m, b, _, _, hm, hb, _, _, rfl⟩ := free_eq_ok sound hfree
      -- the caller has a machine, so telling it how the native ended cannot fail
      have hafter := machine?_putMachine hm (m.withoutBlock b.base)
      refine .inr ⟨rfl, m, b, (SuspendCode.ofCell .freeVar (Int32.ofInt b.base)).encode, hm, hb, ?_⟩
      simp only [hrun, settle, hafter, Ending.free, Ending.carryOut, putMachine_putMachine]
    · rw [hrun]
      have hconfined := performPlain_confined sound hfree out hperform
      exact .inl ⟨hconfined.trans (settle_confined _ id _), fun h => absurd h hfree⟩

/-- Whether a native releases a block of the machine of that number. -/
def Releases (w : World σ) (h : Host σ) (id : InstanceId) (p : Params) (native : LocalNative)
    (number : Nat) : Prop :=
  native = .free ∧ w.number? id = some number ∧
    ∃ c, (w.runNative h id native.scriptName p).1 = .ok c

/-- A native that calls nobody adds no machine and takes none away, and it moves no heap and no
stack. If it releases a block, then that block is gone from the caller's machine, and nothing
else has changed there but the status. On every other machine, and with every other native, all
parts of the machine lie where they did, and a cell that the native may not write holds what it
held, be it live or dead. -/
theorem runNative_isolated (sound : w.Sound) (h : Host σ) (id : InstanceId) (p : Params)
    (native : LocalNative) :
    (w.runNative h id native.scriptName p).2.machines.size = w.machines.size ∧
      ∀ (number : Nat) (m : Machine), w.machines[number]? = some m →
        ∃ m', (w.runNative h id native.scriptName p).2.machines[number]? = some m' ∧
          m'.heapTop = m.heapTop ∧ m'.stackTop = m.stackTop ∧
          (w.Releases h id p native number → ∃ b ∈ m.blocks,
            m' = (m.withoutBlock b.base).raise .sleep ∧
            ∀ other, other ∈ m'.blocks ↔ other ∈ m.blocks ∧ other ≠ b) ∧
          (¬ w.Releases h id p native number →
            m.AgreesOutside (w.MayWrite id p native number) m') := by
  rcases runNative_confined sound h id p native with
    ⟨hconfined, hfree⟩ | ⟨rfl, m₀, b, c, hm₀, hb, hrun⟩
  · refine ⟨hconfined.size_eq, fun number m hm => ?_⟩
    obtain ⟨m', hm', hagrees⟩ := hconfined.agrees number m hm
    refine ⟨m', hm', congrArg Machine.Layout.heapTop hagrees.layout_eq,
      congrArg Machine.Layout.stackTop hagrees.layout_eq, ?_, fun _ => hagrees⟩
    rintro ⟨hnative, _, c, hok⟩
    obtain ⟨fault, hfault⟩ := hfree hnative
    rw [hfault] at hok
    cases hok
  · have hwf := (sound.machine? hm₀).wellFormed
    refine ⟨by rw [hrun]; exact size_putMachine w id _, fun number m hm => ?_⟩
    have hafter := machines_putMachine hm₀ ((m₀.withoutBlock b.base).raise .sleep) number
    by_cases hnumber : w.number? id = some number
    · obtain rfl : m = m₀ := by
        rw [machine?_eq, hnumber, Option.bind_some, hm] at hm₀
        exact Option.some.inj hm₀
      rw [if_pos hnumber] at hafter
      refine ⟨(m.withoutBlock b.base).raise .sleep, by rw [hrun]; exact hafter, rfl, rfl,
        fun _ => ?_, fun hnot => ?_⟩
      · exact ⟨b, hb, rfl, hwf.mem_withoutBlock_iff hb⟩
      · exact absurd ⟨rfl, hnumber, c, congrArg Prod.fst hrun⟩ hnot
    · rw [if_neg hnumber, hm] at hafter
      refine ⟨m, by rw [hrun]; exact hafter, rfl, rfl, fun hreleases => ?_, fun _ => .refl m⟩
      exact absurd hreleases.2.1 hnumber

/-- The second instance of a machine writes through a variable of the first. The one cell that may
change is the element that is named. -/
theorem set_of_shared_machine :
    let m : Machine := Scenario.MachineSpec.build {}
    let acts : List (Act Unit) := [.register m, .share 0, .createVar ⟨1, by decide⟩ 8 2]
    let w := acts.foldl Act.apply (World.create {} ())
    let h : Host Unit := ⟨fun _ w => (.ok 0, w), fun _ _ => (0, ())⟩
    w.Sound ∧ ∃ m', (w.runNative h ⟨2, by decide⟩ "amx_set" [1, 7, 1]).2.machines[0]? = some m' ∧
      m'.cell? 12 = some 7 ∧ m'.stackTop = m.stackTop ∧
      ∀ a, a ≠ 12 → m'.stored? a = m.stored? a := by
  intro m acts w h
  have sound : w.Sound := by
    intro n hn
    obtain rfl : n = m := by simpa using (show n ∈ #[m] from hn)
    exact .built {} (by decide)
  obtain ⟨_, hmachines⟩ := runNative_isolated sound h ⟨2, by decide⟩ [1, 7, 1] .set
  obtain ⟨m', hm', _, hstack, _, hagrees⟩ := hmachines 0 m rfl
  have hother : ∀ a, a ≠ 12 → ¬ w.MayWrite ⟨2, by decide⟩ [1, 7, 1] .set 0 a := by
    rintro _ hne (⟨hbuffer, _, _⟩ | ⟨hparam, hfound, _⟩)
    · cases hbuffer
    · obtain rfl := Option.some.inj hparam
      have haddress : (w.vars.get? 1).map Var.address = some 8 := by rfl
      rw [hfound, Option.map_some, Option.some.injEq] at haddress
      exact hne (by rw [haddress]; rfl)
  have hkept : ¬ w.Releases h ⟨2, by decide⟩ [1, 7, 1] .set 0 := fun hreleases => by
    cases hreleases.1
  have hwritten : ((w.runNative h ⟨2, by decide⟩ LocalNative.set.scriptName
      [1, 7, 1]).2.machines[0]?.bind fun n => n.cell? 12) = some 7 := by decide +kernel
  rw [hm', Option.bind_some] at hwritten
  exact ⟨sound, m', hm', hwritten, hstack,
    fun a ha => (hagrees hkept).stored?_eq a (hother a ha)⟩

end World

end ScriptNatives
