import ScriptNatives.Proofs.Machine.Blocks
import ScriptNatives.Proofs.Runs.Machines

/-!
# Released blocks stay away

The ground of a block that was released is vacated, and stays so whatever the machine is driven by.
So it does for every instance of that machine in a world, through every run: a variable that
reaches into that ground is not linked, whether it was made before or after.
-/
namespace ScriptNatives

open Scenario (MachineSpec MachineStep)

variable {σ : Type}

/-- A variable of a machine is not linked if it reaches into vacated ground. -/
theorem World.isLinked_of_vacated {w : World σ} (hw : w.Sound) {number : Nat} {m : Machine}
    {first limit : Int} (hat : w.machines[number]? = some m) (hv : m.Vacated first limit) {v : Var}
    (howner : ∀ n, w.number? v.owner = some n → n = number) (hlow : v.address < limit)
    (hhigh : first < v.address + 4 * v.size) : w.isLinked v = false := by
  rw [isLinked, varRegion?, machine?_eq]
  cases hn : w.number? v.owner with
  | none => rfl
  | some n =>
    obtain rfl := howner n hn
    have hwf := (hw m (Array.mem_of_getElem? hat)).wellFormed
    simp [hat, hv.region?_eq_none hwf hlow hhigh]

namespace Machine

/-- When a block was released, no range that reaches into its ground is live on any machine that
comes of this one, and none of its cells can be read or written. And in no run of a world that has
such a machine is a variable of that machine ever linked that reaches into that ground, whether
its owner was an instance of the machine to begin with or is one at the end. -/
theorem released_stays_away {m m' : Machine} {address base : Int} (reachable : m.Reachable)
    (released : m.releaseBlock? address = some (base, m')) :
    ∃ b ∈ m.blocks, b.base = base ∧ base ≤ address ∧ address + 4 ≤ b.limit ∧
      (∀ later, m'.DrivenTo later →
        (∀ start count, start < b.limit → base < start + 4 * count →
          later.region? start count = none) ∧
        ∀ a, base ≤ a → a < b.limit → later.cell? a = none ∧
          ∀ value, later.setCell? a value = none ∧ later.exchange? a value = none) ∧
      ∀ {σ : Type} (w u : World σ) (number : Nat) (later : Machine) (log : List (Moment σ)),
        w.Reachable → w.machines[number]? = some later → m'.DrivenTo later → Evolves w log u →
        (∀ n x, .did (.register n) x ∈ log → n.Reachable) →
        ∀ v : Var, v.address < b.limit → base < v.address + 4 * v.size →
          (w.number? v.owner = some number ∨ ∀ n, u.number? v.owner = some n → n = number) →
          u.isLinked v = false := by
  have hwf := reachable.wellFormed
  obtain ⟨b, hfound, rfl, hm'⟩ := releaseBlock?_eq_some released
  obtain ⟨hb, hlow, hhigh⟩ := (hwf.blockAt?_eq_some_iff (by decide)).mp hfound
  have hafter : m'.Reachable := (drivenTo_releaseBlock? released).reachable reachable
  have hvacated : m'.Vacated b.base b.limit := by
    rw [hm']
    exact hwf.vacated_withoutBlock hb
  refine ⟨b, hb, rfl, hlow, hhigh, fun later driven => ?_, ?_⟩
  · have hlater := (driven.reachable hafter).wellFormed
    have hv := hvacated.extends driven.extends
    refine ⟨fun start count => hv.region?_eq_none hlater, fun a hfirst hlast => ?_⟩
    obtain ⟨hcell, hset⟩ := hv.cell?_eq_none hlater hfirst hlast
    exact ⟨hcell, fun value => ⟨hset value, by simp [exchange?, hcell]⟩⟩
  · intro σ w u number later log hw hat driven run registered v hstart hend howner
    obtain ⟨hsound, honward⟩ := run.onward hw.sound registered
    obtain ⟨last, hlast, hdriven⟩ := honward.driven number later hat
    have hv := hvacated.extends (driven.trans hdriven).extends
    refine World.isLinked_of_vacated hsound hlast hv (fun n hn => ?_) hstart hend
    -- an instance does not change its machine as long as it is live
    rcases howner with hbefore | hafter
    · exact honward.number?_eq hw.ordered (run.ordered hw.ordered) hbefore hn
    · exact hafter n hn

/-- A block of four cells was released before its machine was registered. A block that is added then
lies behind, and a variable that reaches from one into the other is not linked. -/
theorem released_before_registration :
    let m := ((MachineStep.allocBlock 4).perform (MachineSpec.build {})).2
    let m' := m.withoutBlock 1280
    let w : World Unit := (Act.register m').apply (World.create {} ())
    let u := (Act.onMachine 0 (.allocBlock 4)).apply w
    let v : Var := ⟨⟨1, by decide⟩, 1288, 4, by decide, by decide, by decide, by decide⟩
    m.releaseBlock? 1288 = some (1280, m') ∧ w.Reachable ∧ u.isLive v.owner = true ∧
      (u.machines[0]?.map Machine.blocks) = some [⟨1296, ⟨4, []⟩⟩] ∧ u.isLinked v = false := by
  intro m m' w u v
  have built : Machine.Reachable (MachineSpec.build {}) := .built {} (by decide)
  have reachable : m.Reachable := built.step (.allocBlock 4)
  have released : m.releaseBlock? 1288 = some (1280, m') := by rfl
  have run : Evolves (World.create {} ()) [.did (.register m') _] w := .act (.start _) _
  have hw : w.Reachable := by
    refine ⟨{}, (), _, run, fun n x hmem => ?_⟩
    obtain ⟨rfl, _⟩ : n = m' ∧ x = World.create {} () := by simpa using hmem
    exact (drivenTo_releaseBlock? released).reachable reachable
  have later : Evolves w [.did (.onMachine 0 (.allocBlock 4)) w] u := .act (.start w) _
  obtain ⟨b, _, _, _, hlimit, _, hworlds⟩ := released_stays_away reachable released
  refine ⟨released, hw, by decide, by rfl, ?_⟩
  refine hworlds w u 0 m' _ hw (by rfl) .refl later (by simp) v ?_ (by decide) (.inl (by rfl))
  exact Int.lt_of_lt_of_le (by decide) hlimit

end Machine

end ScriptNatives
