import ScriptNatives.Proofs.Runs.Machines

/-!
# What an id names in the end

Values come into a pool under new ids only, and no value changes. So whatever a run does, an id
that named a variable names that variable afterwards, or nothing.
-/
namespace ScriptNatives

namespace Slots

variable {α : Type} {s t u : Slots α}

/-- From one pool to a later one, an id that was given out names what it named, or nothing. -/
structure Later (s t : Slots α) : Prop where
  wellFormed : t.WellFormed
  issued : ∀ c, s.Issued c → t.Issued c
  kept : ∀ c a, s.Issued c → t.get? c = some a → s.get? c = some a

theorem Later.refl (hs : s.WellFormed) : s.Later s := ⟨hs, fun _ h => h, fun _ _ _ h => h⟩

theorem Later.trans (first : s.Later t) (second : t.Later u) : s.Later u where
  wellFormed := second.wellFormed
  issued c hc := second.issued c (first.issued c hc)
  kept c a hc ha := first.kept c a hc (second.kept c a (first.issued c hc) ha)

theorem later_insert? (hs : s.WellFormed) {value : α} {c : Cell}
    (h : s.insert? value = some (c, t)) : s.Later t := by
  obtain ⟨hwf, _, hnew, hissued, hget⟩ := insert?_spec hs h
  refine ⟨hwf, fun d hd => (hissued d).mpr (.inr hd), fun d a hd ha => ?_⟩
  have hne : d ≠ c := fun heq => hnew (heq ▸ hd)
  rwa [hget, if_neg hne] at ha

theorem later_remove? (hs : s.WellFormed) {c : Cell} {a : α} (h : s.remove? c = some (a, t)) :
    s.Later t := by
  obtain ⟨hwf, _, hissued, hget⟩ := remove?_spec hs h
  refine ⟨hwf, fun d hd => (hissued d).mpr hd, fun d b _ hb => ?_⟩
  rw [hget] at hb
  split at hb
  · cases hb
  · exact hb

theorem later_filter (hs : s.WellFormed) (keep : α → Bool) : s.Later (s.filter keep).2 := by
  obtain ⟨hwf, hissued, hget⟩ := filter_spec hs keep
  refine ⟨hwf, fun d hd => (hissued d).mpr hd, fun d a _ ha => ?_⟩
  rw [hget] at ha
  exact (Option.filter_eq_some_iff.mp ha).1

end Slots

variable {σ : Type}

namespace World

theorem later_foldl_runHook {w : World σ} (hw : w.vars.WellFormed) (id : InstanceId)
    (hooks : List Hook) : w.vars.Later (hooks.foldl (runHook id) w).vars := by
  induction hooks generalizing w with
  | nil => exact .refl hw
  | cons hook hooks ih =>
    have hfirst : w.vars.Later (runHook id w hook).vars := by
      cases hook with
      | reclaimVars => exact Slots.later_filter hw _
      | reclaimHandles | observe => exact .refl hw
    exact hfirst.trans (ih hfirst.wellFormed)

theorem later_unload {w : World σ} (hw : w.vars.WellFormed) (id : InstanceId) :
    w.vars.Later (w.unload id).2.vars := by
  unfold unload
  split
  · exact later_foldl_runHook (w := w.without id) hw id w.hooks
  · exact .refl hw

end World

/-- An act puts a variable under a new id, takes some away, or does not touch the pool. -/
theorem Act.later_apply {w : World σ} (hw : w.vars.WellFormed) (a : Act σ) :
    w.vars.Later (a.apply w).vars := by
  have hsame {u : World σ} (hu : u.outline = w.outline) : w.vars.Later u.vars := by
    rw [show u.vars = w.vars from congrArg World.Outline.vars hu]
    exact .refl hw
  cases a with
  | createVar owner address count =>
    refine World.worldAfter_keeps (P := fun u => w.vars.Later u.vars) (.refl hw) fun out hout => ?_
    obtain ⟨v, vars, _, _, _, hinsert, hworld⟩ := World.createVar_eq_ok hout
    rw [hworld]
    exact Slots.later_insert? hw hinsert
  | releaseVar id =>
    simp only [apply, World.releaseVar]
    cases hremove : w.vars.remove? id with
    | none => exact .refl hw
    | some out => exact Slots.later_remove? hw hremove
  | reclaimVars owner => exact Slots.later_filter hw _
  | unload id => exact World.later_unload hw id
  | share number =>
    simp only [apply]
    split <;> exact .refl hw
  | createHandle k =>
    refine World.worldAfter_keeps (P := fun u => w.vars.Later u.vars) (.refl hw) fun out hout => ?_
    obtain ⟨_, _, hworld⟩ := World.createHandle_eq_ok hout
    rw [hworld]
    exact .refl hw
  | releaseHandle id =>
    rw [apply_releaseHandle]
    exact .refl hw
  | writeVar v index value => exact hsame (World.outline_writeVar v index value)
  | freeVar v => exact hsame (World.outline_freeVar v)
  | onMachine number step => exact hsame (World.outline_onMachine number step)
  | modifyContext id f => exact hsame (World.outline_modifyContext w id f)
  | register | observe | reclaimHandles | enterSource | leaveSource | changeHost => exact .refl hw

/-- Whatever happens in a run, an id that was given out before names what it named, or nothing. -/
theorem Evolves.later_vars {w u : World σ} {log : List (Moment σ)} (run : Evolves w log u)
    (hw : w.vars.WellFormed) : w.vars.Later u.vars := by
  refine run.keeps (fun _ v => w.vars.Later v.vars) ?congr ?act ?native [] (.refl hw)
  case congr =>
    intro _ v u houtline hv
    have hvars : u.vars = v.vars := congrArg World.Outline.vars houtline
    exact hvars ▸ hv
  case act => exact fun _ v a hv => hv.trans (a.later_apply hv.wellFormed)
  case native =>
    intro _ v h id name p hv
    cases v.nativeAct? id name p with
    | none => exact hv
    | some a => exact hv.trans (a.later_apply hv.wellFormed)

theorem World.Reachable.wellFormed_vars {w : World σ} (hw : w.Reachable) : w.vars.WellFormed := by
  obtain ⟨_, _, _, run, _⟩ := hw
  exact (run.later_vars (Slots.wellFormed_ofCapacity _)).wellFormed

end ScriptNatives
