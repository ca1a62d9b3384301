import ScriptNatives.Proofs.Machine.Release
import ScriptNatives.Proofs.Native.Release
import ScriptNatives.Proofs.References.Access
import ScriptNatives.Proofs.References.Names
import ScriptNatives.Proofs.References.Reach
import ScriptNatives.Proofs.Runs.Released

/-!
# Which storage a variable releases

A variable releases the block around its start, wherever in the block that is and wherever the
variable ends. The variable itself stays, and so do all others; of those on the same machine the
ones that meet the block are dead storage from then on, and the others do not notice.
-/
namespace ScriptNatives

/-- Some cell of a variable lies in a block, if they are on the same machine. -/
def Var.Meets (v : Var) (b : Block) : Prop := v.address < b.limit ∧ b.base < v.address + 4 * v.size

theorem Var.not_meets_iff {v : Var} {b : Block} :
    ¬ v.Meets b ↔ v.address + 4 * v.size ≤ b.base ∨ b.limit ≤ v.address := by
  rw [Meets]
  omega

/-- A machine that has released a block, and is asleep. -/
def Machine.freed (m : Machine) (b : Block) : Machine := (m.withoutBlock b.base).raise .sleep

namespace World

variable {σ : Type} {w u x : World σ} {id : InstanceId} {p : Params} {var : Cell} {v : Var}
  {m : Machine} {b : Block}

/-- What an instance needs to release the block `b` of its machine `m`: it is the live owner of a
variable that begins in the block. -/
structure MayFree (w : World σ) (id : InstanceId) (var : Cell) (v : Var) (m : Machine) (b : Block) :
    Prop where
  named : w.vars.get? var = some v
  owner : w.isOwner v id = true
  machine : w.machine? id = some m
  mem : b ∈ m.blocks
  base_le : b.base ≤ v.address
  lt_limit : v.address < b.limit

theorem isOwner_iff : w.isOwner v id = true ↔ v.owner = id ∧ w.isLive id = true := by
  simp [isOwner]

/-- A variable is released if and only if its owner may do so. -/
theorem free_eq_ok_iff (sound : w.Sound) {out : Outcome σ Ending} :
    w.free id var = .ok out ↔ ∃ v m b, w.MayFree id var v m b ∧
      out = (.ok (.free (Int32.ofInt b.base)), w.putMachine id (m.withoutBlock b.base)) := by
  constructor
  · intro hfree
    obtain ⟨v, m, b, hv, howner, hm, hb, hlow, hhigh, hout⟩ := free_eq_ok sound hfree
    have hmine : w.isOwner v id = true := isOwner_iff.mpr ⟨howner, isLive_of_machine? hm⟩
    exact ⟨v, m, b, ⟨hv, hmine, hm, hb, hlow, by omega⟩, hout⟩
  · rintro ⟨v, m, b, may, rfl⟩
    obtain ⟨rfl, _⟩ := isOwner_iff.mp may.owner
    have hwf := (sound.machine? may.machine).wellFormed
    have haligned := hwf.block_aligned b may.mem
    have haddress := v.address_aligned
    have hlimit := may.lt_limit
    have hrelease := hwf.releaseBlock?_eq may.mem may.base_le (by rw [Block.limit] at *; omega)
    have hfree : w.freeVar? v = some (b.base, w.putMachine v.owner (m.withoutBlock b.base)) := by
      simp [freeVar?, may.machine, hrelease]
    simp [free, var_eq_ok_iff.mpr may.named, may.owner, hfree]

/-- The native releases the block and puts its caller to sleep. -/
theorem MayFree.runNative_eq (may : w.MayFree id var v m b) (sound : w.Sound) (h : Host σ)
    (hvar : p[0]? = some var) : ∃ c, w.runNative h id "amx_free" p =
      (.ok c, w.putMachine id (m.freed b)) := by
  have hlength : 1 ≤ p.length := (List.getElem?_eq_some_iff.mp hvar).1
  have hfree := (free_eq_ok_iff sound).mpr ⟨v, m, b, may, rfl⟩
  have hrun := w.runNative_plain h id p .free hlength
  simp only [performPlain, Params.need_eq_ok_iff.mpr hvar, ok_bind, hfree,
    LocalNative.scriptName] at hrun
  have hafter := machine?_putMachine may.machine (m.withoutBlock b.base)
  exact ⟨_, by simp only [hrun, settle, hafter, Ending.free, Ending.carryOut,
    putMachine_putMachine]; rfl⟩

/-- It succeeds in no other case. -/
theorem exists_mayFree (sound : w.Sound) {h : Host σ} {c : Cell} (hvar : p[0]? = some var)
    (freed : (w.runNative h id "amx_free" p).1 = .ok c) : ∃ v m b, w.MayFree id var v m b := by
  rcases runNative_plain_cases h id p w .free with ⟨fault, hfailed⟩ | ⟨out, hperform, _⟩
  · obtain ⟨fault', hfault⟩ := settle_error w id fault
    rw [LocalNative.scriptName] at hfailed
    rw [hfailed, hfault] at freed
    cases freed
  · obtain ⟨var', hneed, hfree⟩ := bind_eq_ok hperform
    obtain rfl : var = var' := Option.some.inj (hvar.symm.trans (Params.need_eq_ok_iff.mp hneed))
    obtain ⟨v, m, b, may, _⟩ := (free_eq_ok_iff sound).mp hfree
    exact ⟨v, m, b, may⟩

/-! ### What becomes of other references -/

/-- From one world to another, an instance has lost the block `b` of its machine `m`, and is asleep.
Every cell but those of the block holds what it held. References to the block are dead; no other
reference notices. -/
structure Freed (w u : World σ) (id : InstanceId) (m : Machine) (b : Block) : Prop where
  world_eq : u = w.putMachine id (m.freed b)
  vars_eq : u.vars = w.vars
  others : ∀ number, w.number? id ≠ some number → u.machines[number]? = w.machines[number]?
  mem_blocks_iff : ∀ m', u.machine? id = some m' → ∀ c, c ∈ m'.blocks ↔ c ∈ m.blocks ∧ c ≠ b
  stored?_eq : ∀ m', u.machine? id = some m' → ∀ a,
    m'.stored? a = if b.base ≤ a ∧ a < b.limit then none else m.stored? a
  meets : ∀ r : Var, w.number? r.owner = w.number? id → r.Meets b → u.isLinked r = false
  apart : ∀ r : Var, ¬ (w.number? r.owner = w.number? id ∧ r.Meets b) →
    u.isLinked r = w.isLinked r ∧ u.isInside r = w.isInside r ∧
      ∀ index, u.readVar r index = w.readVar r index

/-- The owner of a reference has the machine without the block, or the one that it had. -/
theorem machine?_free_cases (hm : w.machine? id = some m) (m' : Machine) (other : InstanceId) :
    w.number? other = w.number? id ∧ w.machine? other = some m ∧
        (w.putMachine id m').machine? other = some m' ∨
      w.number? other ≠ w.number? id ∧ (w.putMachine id m').machine? other = w.machine? other := by
  rw [machine?_putMachine_of_number? hm]
  by_cases hnumber : w.number? other = w.number? id
  · exact .inl ⟨hnumber, by rw [machine?_eq, hnumber, ← machine?_eq, hm], if_pos hnumber⟩
  · exact .inr ⟨hnumber, if_neg hnumber⟩

/-- A range that does not meet the block stays in its region. -/
theorem varRegion?_free (hm : w.machine? id = some m) (hwf : m.WellFormed) (hb : b ∈ m.blocks)
    {r : Var} (hapart : ¬ (w.number? r.owner = w.number? id ∧ r.Meets b)) :
    (w.putMachine id (m.freed b)).varRegion? r = w.varRegion? r := by
  rw [varRegion?, varRegion?]
  rcases machine?_free_cases hm (m.freed b) r.owner with
    ⟨hnumber, hbefore, hafter⟩ | ⟨_, hsame⟩
  · have hclear := Var.not_meets_iff.mp fun hmeets => hapart ⟨hnumber, hmeets⟩
    rw [hafter, hbefore]
    exact hwf.region?_withoutBlock hb hclear
  · rw [hsame]

/-- And its elements have the values that they had. -/
theorem readVar_free (hm : w.machine? id = some m) (hwf : m.WellFormed) (hb : b ∈ m.blocks)
    {r : Var} (hapart : ¬ (w.number? r.owner = w.number? id ∧ r.Meets b)) (index : Int) :
    (w.putMachine id (m.freed b)).readVar r index = w.readVar r index := by
  rw [readVar_eq, readVar_eq]
  rcases machine?_free_cases hm (m.freed b) r.owner with
    ⟨hnumber, hbefore, hafter⟩ | ⟨_, hsame⟩
  · have hclear := Var.not_meets_iff.mp fun hmeets => hapart ⟨hnumber, hmeets⟩
    cases helement : r.element index with
    | error fault => rfl
    | ok a =>
      obtain ⟨hnonneg, hlt, rfl⟩ := Var.element_eq_ok_iff.mp helement
      have hcell := hwf.cell?_withoutBlock hb (r.address + 4 * index)
      rw [if_neg (by omega)] at hcell
      simp only [ok_bind, hafter, hbefore, ← hcell]
      rfl
  · rw [hsame]

/-- Where the block was there is vacated ground. -/
theorem vacated_free (hm : w.machine? id = some m) (hwf : m.WellFormed) (hb : b ∈ m.blocks) :
    ∃ number m', w.number? id = some number ∧
      (w.putMachine id (m.freed b)).machines[number]? = some m' ∧
      m'.Vacated b.base b.limit := by
  obtain ⟨number, hnumber⟩ : ∃ number, w.number? id = some number := by
    obtain ⟨entry, hentry, _⟩ := machines_of_machine? hm
    exact ⟨entry.machine, by rw [number?, hentry, Option.map_some]⟩
  refine ⟨number, m.freed b, hnumber, ?_, ?_⟩
  · rw [machines_putMachine hm, if_pos hnumber]
  · have hvacated := hwf.vacated_withoutBlock hb
    exact ⟨hvacated.dataEnd_le, hvacated.le_nextBlock, hvacated.apart⟩

theorem sound_free (sound : w.Sound) (hm : w.machine? id = some m) (hb : b ∈ m.blocks) :
    (w.putMachine id (m.freed b)).Sound := by
  have hdriven := (sound.machine? hm).wellFormed.drivenTo_withoutBlock hb
  exact (drives_putMachine hm (hdriven.trans (Machine.drivenTo_raise _ _))).sound sound

theorem freed_putMachine (sound : w.Sound) (hm : w.machine? id = some m) (hb : b ∈ m.blocks) :
    Freed w (w.putMachine id (m.freed b)) id m b := by
  have hwf := (sound.machine? hm).wellFormed
  have hafter {m' : Machine} (hm' : (w.putMachine id (m.freed b)).machine? id = some m') :
      m' = m.freed b :=
    Option.some.inj (hm'.symm.trans (machine?_putMachine hm _))
  refine {
    world_eq := rfl
    vars_eq := congrArg Outline.vars (outline_putMachine w id _)
    others := fun number hne => by rw [machines_putMachine hm, if_neg hne]
    mem_blocks_iff := ?_
    stored?_eq := ?_
    meets := fun r hnumber hmeets => ?_
    apart := fun r hapart => ?_ }
  · intro m' hm' c
    obtain rfl := hafter hm'
    exact hwf.mem_withoutBlock_iff hb c
  · intro m' hm' a
    obtain rfl := hafter hm'
    exact hwf.stored?_withoutBlock hb a
  · obtain ⟨number, m', hid, hat, hvacated⟩ := vacated_free hm hwf hb
    refine isLinked_of_vacated (sound_free sound hm hb) hat hvacated ?_ hmeets.1 hmeets.2
    intro n hn
    rw [number?_putMachine, hnumber, hid] at hn
    exact (Option.some.inj hn).symm
  · have hregion := varRegion?_free hm hwf hb hapart
    exact ⟨by rw [isLinked, hregion, isLinked], by rw [isInside, hregion, isInside],
      readVar_free hm hwf hb hapart⟩

/-! ### Releasing a variable again -/

/-- In no run from there on does the same variable release anything: it never begins in a block
again, and its id never names another. -/
theorem MayFree.not_again (may : w.MayFree id var v m b) (hw : w.Reachable)
    {log : List (Moment σ)}
    (run : Evolves (w.putMachine id (m.freed b)) log x)
    (registered : ∀ n y, .did (.register n) y ∈ log → n.Reachable) {caller : InstanceId} {v' : Var}
    {m' : Machine} {b' : Block} : ¬ x.MayFree caller var v' m' b' := by
  intro again
  have hwf := (hw.sound.machine? may.machine).wellFormed
  have hvars : (w.putMachine id (m.freed b)).vars = w.vars :=
    congrArg Outline.vars (outline_putMachine w id _)
  have hissued := Slots.issued_of_get? hw.wellFormed_vars may.named
  -- the id names the variable that it named
  have hkept := (run.later_vars (hvars ▸ hw.wellFormed_vars)).kept var v' (hvars ▸ hissued)
    again.named
  rw [hvars, may.named] at hkept
  obtain rfl : v = v' := Option.some.inj hkept
  obtain ⟨rfl, _⟩ := isOwner_iff.mp may.owner
  obtain ⟨rfl, _⟩ := isOwner_iff.mp again.owner
  -- its owner has the machine that it had, on which the ground stays vacated
  obtain ⟨number, vacant, hnumber, hat, hvacated⟩ := vacated_free may.machine hwf may.mem
  obtain ⟨sound, onward⟩ := run.onward (sound_free hw.sound may.machine may.mem) registered
  obtain ⟨last, hlast, hdriven⟩ := onward.driven number vacant hat
  have hordered := hw.ordered.congr (registry_putMachine w v.owner (m.freed b))
  have hmachine := again.machine
  rw [machine?_eq] at hmachine
  obtain ⟨n, hn, hmachine⟩ := Option.bind_eq_some_iff.mp hmachine
  rw [← number?_putMachine v.owner (m.freed b)] at hnumber
  obtain rfl := onward.number?_eq hordered (run.ordered hordered) hnumber hn
  obtain rfl : last = m' := Option.some.inj (hlast.symm.trans hmachine)
  have hapart := (hvacated.extends hdriven.extends).apart b' again.mem
  have hlow := may.base_le
  have hhigh := may.lt_limit
  have hlow' := again.base_le
  have hhigh' := again.lt_limit
  omega

/-- `amx_free` succeeds if and only if the caller is the live owner of the variable and the variable
begins in a dynamic block of the caller's machine. Then the caller has lost that block and no other,
every cell outside of it holds what it held, and the pool of variables is as it was. Of the
references to that machine those that meet the block are not linked; every other reference, to
whichever machine, answers as before. And in whatever run that follows, the same variable is
never released again, whoever tries. -/
theorem runNative_free_takes_block (hw : w.Reachable) (h : Host σ) (id : InstanceId)
    (hvar : p[0]? = some var) :
    ((∃ c, (w.runNative h id "amx_free" p).1 = .ok c) ↔ ∃ v m b, w.MayFree id var v m b) ∧
    ∀ v m b, w.MayFree id var v m b →
      Freed w (w.runNative h id "amx_free" p).2 id m b ∧
      ∀ x log, Evolves (w.runNative h id "amx_free" p).2 log x →
        (∀ n y, .did (.register n) y ∈ log → n.Reachable) →
        ∀ h' caller p', p'[0]? = some var →
          ∀ c, (x.runNative h' caller "amx_free" p').1 ≠ .ok c := by
  refine ⟨⟨fun ⟨c, freed⟩ => exists_mayFree hw.sound hvar freed, ?_⟩, ?_⟩
  · rintro ⟨v, m, b, may⟩
    obtain ⟨c, hrun⟩ := may.runNative_eq hw.sound h hvar
    exact ⟨c, by rw [hrun]⟩
  · intro v m b may
    obtain ⟨c, hrun⟩ := may.runNative_eq hw.sound h hvar
    rw [hrun]
    refine ⟨freed_putMachine hw.sound may.machine may.mem, ?_⟩
    intro x log run registered h' caller p' hvar' c' freed
    have sound := (run.onward (sound_free hw.sound may.machine may.mem) registered).1
    obtain ⟨v', m', b', again⟩ := exists_mayFree sound hvar' freed
    exact may.not_again hw run registered again

/-- A variable that begins in the second cell of a block and ends in the block behind releases the
first of the two. A variable of the first cell is dead then, one in the block behind is as before,
and nothing is left to release. -/
theorem free_by_second_cell :
    let id : InstanceId := ⟨1, by decide⟩
    let h : Host Unit := ⟨fun _ w => (.ok 0, w), fun _ _ => (0, ())⟩
    let w := (Act.createVar id 1284 2).apply twoBlocks
    let u := (w.runNative h id "amx_free" [2]).2
    let front : Var := ⟨id, 1280, 1, by decide, by decide, by decide, by decide⟩
    let behind : Var := ⟨id, 1288, 2, by decide, by decide, by decide, by decide⟩
    w.Reachable ∧ (∃ c, (w.runNative h id "amx_free" [2]).1 = .ok c) ∧
      w.isLinked front = true ∧ u.isLinked front = false ∧
      u.isLinked behind = true ∧ u.readVar behind 0 = .ok 7 ∧
      u.vars.contains 2 = true ∧ ∀ c, (u.runNative h id "amx_free" [2]).1 ≠ .ok c := by
  intro id h w u front behind
  let v : Var := ⟨id, 1284, 2, by decide, by decide, by decide, by decide⟩
  let b : Block := ⟨1280, ⟨2, []⟩⟩
  have hw : w.Reachable := twoBlocks_reachable.apply nofun
  obtain ⟨m, hm, hblocks⟩ : ∃ m, w.machine? id = some m ∧
      m.blocks = [⟨1288, ⟨2, [(0, 7)]⟩⟩, b] := Option.map_eq_some_iff.mp (by rfl)
  have may : w.MayFree id 2 v m b :=
    ⟨by rfl, by rfl, hm, by simp [hblocks], by decide, by decide⟩
  obtain ⟨hsucceeds, hafter⟩ := runNative_free_takes_block (p := [2]) hw h id rfl
  obtain ⟨freed, hagain⟩ := hafter v m b may
  have hclear : ¬ behind.Meets b := Var.not_meets_iff.mpr (.inr (by decide))
  obtain ⟨hlinked, _, hread⟩ := freed.apart behind fun hmeets => hclear hmeets.2
  refine ⟨hw, hsucceeds.mpr ⟨v, m, b, may⟩, by rfl, ?_, ?_, ?_, ?_, ?_⟩
  · exact freed.meets front rfl ⟨by decide, by decide⟩
  · exact hlinked.trans (by rfl)
  · exact (hread 0).trans (by rfl)
  · rw [freed.vars_eq]
    rfl
  · exact hagain u [] (.start u) (by simp) h id [2] rfl

end World

end ScriptNatives
