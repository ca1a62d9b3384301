import ScriptNatives.Proofs.Runs.Evolves
import ScriptNatives.Proofs.World.Unload

/-!
# The history of references

What a run does to references is put down as events: a reference is made, it is taken back, or an
instance goes and takes with it what is its own. A reference stands as long as nothing that ends
it has come after it was made. Histories have the newest event first, as logs do.
-/
namespace ScriptNatives

variable {σ : Type}

/-- What can happen to references. -/
inductive Event where
  /-- A variable was made with these arguments and got that id. -/
  | madeVar (id : Cell) (owner : InstanceId) (address count : Int)
  | deletedVar (id : Cell)
  | reclaimedVars (owner : InstanceId)
  /-- A handle was stored and got that id. -/
  | madeHandle (id : Cell) (k : Handle)
  | releasedHandle (id : Cell)
  | reclaimedHandles (context : InstanceId)
  /-- An instance that was live was unloaded. -/
  | unloaded (id : InstanceId)
  deriving DecidableEq

/-- The event that an act in a world is, if it comes to one. To take a reference back by its id is
one whatever comes of it. -/
def Act.event? (w : World σ) : Act σ → Option Event
  | createVar owner address count =>
    match w.createVar owner address count with
    | .ok (id, _) => some (.madeVar id owner address count)
    | .error _ => none
  | releaseVar id => some (.deletedVar id)
  | reclaimVars owner => some (.reclaimedVars owner)
  | createHandle k =>
    match w.createHandle k with
    | .ok (id, _) => some (.madeHandle id k)
    | .error _ => none
  | releaseHandle id => some (.releasedHandle id)
  | reclaimHandles context => some (.reclaimedHandles context)
  | unload id => if w.isLive id then some (.unloaded id) else none
  | _ => none

/-- The event that an entry of a log is. A native has that of the act it comes down to. -/
def Moment.event? : Moment σ → Option Event
  | did a w => a.event? w
  | invoked _ id name p w => (w.nativeAct? id name p).bind (·.event? w)

def history (log : List (Moment σ)) : List Event := log.filterMap Moment.event?

/-- What was made stands if nothing that ends it came later. -/
def Stands (made : Event) (ends : Event → Prop) (es : List Event) : Prop :=
  ∃ later earlier, es = later ++ made :: earlier ∧ ∀ e ∈ later, ¬ ends e

/-- The events that end a variable: it is deleted, its owner's variables are reclaimed, or its owner
is unloaded. -/
def EndsVar (id : Cell) (v : Var) (e : Event) : Prop :=
  e = .deletedVar id ∨ e = .reclaimedVars v.owner ∨ e = .unloaded v.owner

/-- The events that end a handle: it is released, the handles of its context are reclaimed, or its
context is unloaded. -/
def EndsHandle (id : Cell) (k : Handle) (e : Event) : Prop :=
  e = .releasedHandle id ∨ e = .reclaimedHandles k.context ∨ e = .unloaded k.context

def Event.ofVar (id : Cell) (v : Var) : Event := .madeVar id v.owner v.address v.size

/-- An id stands for a variable: the variable was made under it and has not ended since. -/
def VarStands (es : List Event) (id : Cell) (v : Var) : Prop :=
  Stands (.ofVar id v) (EndsVar id v) es

/-- An id stands for a handle: the handle was stored under it and has not ended since. -/
def HandleStands (es : List Event) (id : Cell) (k : Handle) : Prop :=
  Stands (.madeHandle id k) (EndsHandle id k) es

theorem stands_cons {made e : Event} {ends : Event → Prop} {es : List Event} :
    Stands made ends (e :: es) ↔ e = made ∨ Stands made ends es ∧ ¬ ends e := by
  constructor
  · rintro ⟨later, earlier, heq, hlater⟩
    cases later with
    | nil => exact .inl (List.cons.inj heq).1
    | cons l later =>
      obtain ⟨rfl, rfl⟩ := List.cons.inj heq
      exact .inr ⟨⟨later, earlier, rfl, fun x hx => hlater x (List.mem_cons_of_mem _ hx)⟩,
        hlater e List.mem_cons_self⟩
  · rintro (rfl | ⟨⟨later, earlier, rfl, hlater⟩, hend⟩)
    · exact ⟨[], es, rfl, by simp⟩
    · refine ⟨e :: later, earlier, rfl, fun x hx => ?_⟩
      rcases List.mem_cons.mp hx with rfl | hx
      · exact hend
      · exact hlater x hx

/-- What stands goes on to stand as long as nothing ends it. -/
theorem Stands.append {made : Event} {ends : Event → Prop} {es : List Event}
    (h : Stands made ends es) {next : List Event} (hnext : ∀ e ∈ next, ¬ ends e) :
    Stands made ends (next ++ es) := by
  obtain ⟨later, earlier, rfl, hlater⟩ := h
  refine ⟨next ++ later, earlier, by simp, fun e he => ?_⟩
  rcases List.mem_append.mp he with he | he
  · exact hnext e he
  · exact hlater e he

/-! ### Pools that follow a history -/

/-- A pool follows a history: an id names just what stands under it. -/
structure Follows {α : Type} (s : Slots α) (made : Cell → α → Event)
    (ends : Cell → α → Event → Prop) (es : List Event) : Prop where
  wellFormed : s.WellFormed
  get?_iff : ∀ c a, s.get? c = some a ↔ Stands (made c a) (ends c a) es

namespace Follows

variable {α : Type} {s t : Slots α} {made : Cell → α → Event} {ends : Cell → α → Event → Prop}
  {es : List Event} {e : Event}

theorem cons (hs : Follows s made ends es) (ht : t.WellFormed)
    (hget : ∀ c a, t.get? c = some a ↔ e = made c a ∨ s.get? c = some a ∧ ¬ ends c a e) :
    Follows t made ends (e :: es) where
  wellFormed := ht
  get?_iff c a := by rw [hget, stands_cons, hs.get?_iff]

/-- An event that has nothing to do with a pool. -/
theorem other (hs : Follows s made ends es) (hmade : ∀ c a, e ≠ made c a)
    (hends : ∀ c a, ¬ ends c a e) : Follows s made ends (e :: es) := by
  refine hs.cons hs.wellFormed fun c a => ?_
  simp [hmade c a, hends c a]

/-- A new id gets its value, since it named nothing before. -/
theorem insert (hs : Follows s made ends es) {c : Cell} {a : α} (h : s.insert? a = some (c, t))
    (hmade : ∀ d b, e = made d b ↔ d = c ∧ b = a) (hends : ∀ d b, ¬ ends d b e) :
    Follows t made ends (e :: es) := by
  obtain ⟨hwf, _, hnew, _, hget⟩ := Slots.insert?_spec hs.wellFormed h
  refine hs.cons hwf fun d b => ?_
  rw [hget, hmade]
  by_cases hd : d = c
  · subst hd
    have hnone : ¬ s.get? d = some b := fun hb => hnew (Slots.issued_of_get? hs.wellFormed hb)
    simp [hnone, eq_comm]
  · simp [hd, hends d b]

/-- What an id named is gone once it is taken back. There may have been nothing to take. -/
theorem remove (hs : Follows s made ends es) (c : Cell) (hmade : ∀ d b, e ≠ made d b)
    (hends : ∀ d b, ends d b e ↔ d = c) :
    Follows ((s.remove? c).elim s (·.2)) made ends (e :: es) := by
  cases h : s.remove? c with
  | none =>
    have hnone := Slots.remove?_eq_none_iff.mp h
    refine hs.cons hs.wellFormed fun d b => ?_
    rw [hends]
    by_cases hd : d = c <;> simp [hd, hmade, hnone]
  | some out =>
    obtain ⟨hwf, _, _, hget⟩ := Slots.remove?_spec hs.wellFormed h
    refine hs.cons hwf fun d b => ?_
    rw [Option.elim_some, hget, hends]
    by_cases hd : d = c <;> simp [hd, hmade]

end Follows

end ScriptNatives
