import ScriptNatives.Proofs.Slots.Lookup

/-!
# Runs of a pool

A run starts from an empty pool and carries out operations in any order. No id is given out twice
in a run, and an id whose value was taken away names nothing in any later state, however often
its slot was filled again, and when the slot was retired as well.
-/
namespace ScriptNatives.Slots

variable {α : Type}

/-- One operation on a pool. A change through a mutable look-up is a `set`; the look-ups that change
nothing are left out. -/
inductive Op (α : Type) where
  | insert (value : α)
  | set (id : Cell) (value : α)
  | remove (id : Cell)
  | filter (keep : α → Bool)

namespace Op

def apply (s : Slots α) : Op α → Slots α
  | insert value => (s.insert? value).elim s (·.2)
  | set id value => s.set id value
  | remove id => (s.remove? id).elim s (·.2)
  | filter keep => (s.filter keep).2

def issued? (s : Slots α) : Op α → Option Cell
  | insert value => (s.insert? value).map (·.1)
  | _ => none

/-- Whether an operation takes away the value that an id names. -/
def Removes (s : Slots α) (c : Cell) : Op α → Prop
  | remove id => id = c ∧ s.contains c
  | filter keep => ∃ a, s.get? c = some a ∧ keep a = false
  | _ => False

end Op

def run (s : Slots α) (ops : List (Op α)) : Slots α := ops.foldl Op.apply s

/-- The ids that operations give out, in order. -/
def issuedBy (s : Slots α) : List (Op α) → List Cell
  | [] => []
  | op :: ops => (op.issued? s).toList ++ issuedBy (op.apply s) ops

/-! ### One operation -/

/-- An operation keeps a pool in order, and the ids issued afterwards are those issued before and
the one it gives out, which is positive and new. -/
theorem apply_spec {s : Slots α} (hs : s.WellFormed) (op : Op α) :
    (op.apply s).WellFormed ∧
      (∀ c, (op.apply s).Issued c ↔ op.issued? s = some c ∨ s.Issued c) ∧
      ∀ c, op.issued? s = some c → 0 < c.toInt ∧ ¬ s.Issued c := by
  cases op with
  | insert value =>
    cases h : s.insert? value with
    | none => simp [Op.apply, Op.issued?, h, hs]
    | some out =>
      obtain ⟨c, t⟩ := out
      obtain ⟨hwf, hpos, hnew, hissued, _⟩ := insert?_spec hs h
      simp only [Op.apply, Op.issued?, h, Option.elim_some, Option.map_some, Option.some.injEq]
      refine ⟨hwf, fun d => ?_, ?_⟩
      · rw [hissued, eq_comm]
      · rintro d rfl
        exact ⟨hpos, hnew⟩
  | set id value =>
    obtain ⟨hwf, hissued, _⟩ := set_spec hs id value
    exact ⟨hwf, by simpa [Op.apply, Op.issued?] using hissued, by simp [Op.issued?]⟩
  | remove id =>
    cases h : s.remove? id with
    | none => simp [Op.apply, Op.issued?, h, hs]
    | some out =>
      obtain ⟨a, t⟩ := out
      obtain ⟨hwf, _, hissued, _⟩ := remove?_spec hs h
      exact ⟨by simpa [Op.apply, h] using hwf, by simpa [Op.apply, Op.issued?, h] using hissued,
        by simp [Op.issued?]⟩
  | filter keep =>
    obtain ⟨hwf, hissued, _⟩ := filter_spec hs keep
    exact ⟨hwf, by simpa [Op.apply, Op.issued?] using hissued, by simp [Op.issued?]⟩

/-- An id that was given out and names nothing stays that way: no operation gives it out again. -/
theorem absent_apply {s : Slots α} (hs : s.WellFormed) (op : Op α) {c : Cell}
    (hc : s.Issued c) (habsent : s.get? c = none) : (op.apply s).get? c = none := by
  cases op with
  | insert value =>
    cases h : s.insert? value with
    | none => simpa [Op.apply, h] using habsent
    | some out =>
      obtain ⟨d, t⟩ := out
      obtain ⟨_, _, hnew, _, hget⟩ := insert?_spec hs h
      have hne : c ≠ d := by
        rintro rfl
        exact hnew hc
      simp [Op.apply, h, hget, hne, habsent]
  | set id value =>
    obtain ⟨_, _, hget⟩ := set_spec hs id value
    simp only [Op.apply, hget]
    by_cases hid : c = id
    · subst hid
      simp [habsent]
    · simp [hid, habsent]
  | remove id =>
    cases h : s.remove? id with
    | none => simpa [Op.apply, h] using habsent
    | some out =>
      obtain ⟨a, t⟩ := out
      obtain ⟨_, _, _, hget⟩ := remove?_spec hs h
      simp [Op.apply, h, hget, habsent]
  | filter keep =>
    obtain ⟨_, _, hget⟩ := filter_spec hs keep
    simp [Op.apply, hget, habsent]

/-- An operation that takes a value away leaves its id issued and without a value. -/
theorem absent_of_removes {s : Slots α} (hs : s.WellFormed) {op : Op α} {c : Cell}
    (h : op.Removes s c) : s.Issued c ∧ (op.apply s).get? c = none := by
  cases op with
  | insert value => exact h.elim
  | set id value => exact h.elim
  | remove id =>
    obtain ⟨rfl, hc⟩ := h
    rw [contains_eq, Option.isSome_iff_exists] at hc
    obtain ⟨a, ha⟩ := hc
    refine ⟨issued_of_get? hs ha, ?_⟩
    cases hr : s.remove? id with
    | none => simp [remove?_eq_none_iff.mp hr] at ha
    | some out =>
      obtain ⟨b, t⟩ := out
      obtain ⟨_, _, _, hget⟩ := remove?_spec hs hr
      simp [Op.apply, hr, hget]
  | filter keep =>
    obtain ⟨a, ha, hk⟩ := h
    obtain ⟨_, _, hget⟩ := filter_spec hs keep
    refine ⟨issued_of_get? hs ha, ?_⟩
    simp [Op.apply, hget, ha, hk, Option.filter]

/-! ### Runs -/

theorem wellFormed_run {s : Slots α} (hs : s.WellFormed) (ops : List (Op α)) :
    (run s ops).WellFormed := by
  induction ops generalizing s with
  | nil => exact hs
  | cons op ops ih => exact ih (apply_spec hs op).1

theorem absent_run {s : Slots α} (hs : s.WellFormed) (ops : List (Op α)) {c : Cell}
    (hc : s.Issued c) (habsent : s.get? c = none) : (run s ops).get? c = none := by
  induction ops generalizing s with
  | nil => exact habsent
  | cons op ops ih =>
    obtain ⟨hwf, hissued, _⟩ := apply_spec hs op
    exact ih hwf ((hissued c).mpr (Or.inr hc)) (absent_apply hs op hc habsent)

/-- The ids given out in a run are positive, and none was issued before the run. -/
theorem new_of_mem_issuedBy {s : Slots α} (hs : s.WellFormed) (ops : List (Op α)) {c : Cell}
    (hc : c ∈ issuedBy s ops) : 0 < c.toInt ∧ ¬ s.Issued c := by
  induction ops generalizing s with
  | nil => simp [issuedBy] at hc
  | cons op ops ih =>
    obtain ⟨hwf, hissued, hnew⟩ := apply_spec hs op
    simp only [issuedBy, List.mem_append, Option.mem_toList] at hc
    rcases hc with hc | hc
    · exact hnew c hc
    · obtain ⟨hpos, hlater⟩ := ih hwf hc
      exact ⟨hpos, fun h => hlater ((hissued c).mpr (Or.inr h))⟩

theorem nodup_issuedBy {s : Slots α} (hs : s.WellFormed) (ops : List (Op α)) :
    (issuedBy s ops).Nodup := by
  induction ops generalizing s with
  | nil => exact List.nodup_nil
  | cons op ops ih =>
    obtain ⟨hwf, hissued, _⟩ := apply_spec hs op
    have htail := ih hwf
    cases hop : op.issued? s with
    | none => simpa [issuedBy, hop] using htail
    | some c =>
      have hc : c ∉ issuedBy (op.apply s) ops := fun h =>
        (new_of_mem_issuedBy hwf ops h).2 ((hissued c).mpr (Or.inl hop))
      simpa [issuedBy, hop] using List.nodup_cons.mpr ⟨hc, htail⟩

/-- The ids issued after a run are those that it gives out and those issued before. -/
theorem issued_run_iff {s : Slots α} (hs : s.WellFormed) (ops : List (Op α)) (c : Cell) :
    (run s ops).Issued c ↔ c ∈ issuedBy s ops ∨ s.Issued c := by
  induction ops generalizing s with
  | nil => simp [run, issuedBy]
  | cons op ops ih =>
    obtain ⟨hwf, hissued, _⟩ := apply_spec hs op
    show (run (op.apply s) ops).Issued c ↔ _
    rw [ih hwf, hissued, issuedBy, List.mem_append, Option.mem_toList, or_assoc, or_left_comm]

/-- In every run of every pool the ids given out are positive and differ from each other, and an
id whose value an operation takes away names nothing in any state after that operation: there is
nothing to look up, to change or to remove under it. -/
theorem ids_name_one_value (capacity : Nat) (ops : List (Op α)) :
    (∀ c ∈ issuedBy (ofCapacity capacity) ops, 0 < c.toInt) ∧
      (issuedBy (ofCapacity capacity) ops).Nodup ∧
      ∀ before op after c, ops = before ++ op :: after →
        op.Removes (run (ofCapacity capacity) before) c →
        (run (ofCapacity capacity) ops).get? c = none ∧
          (∀ value, (run (ofCapacity capacity) ops).set c value = run (ofCapacity capacity) ops) ∧
          (run (ofCapacity capacity) ops).contains c = false ∧
          (run (ofCapacity capacity) ops).remove? c = none := by
  have hs : (ofCapacity capacity : Slots α).WellFormed := wellFormed_ofCapacity capacity
  refine ⟨fun c hc => (new_of_mem_issuedBy hs ops hc).1, nodup_issuedBy hs ops, ?_⟩
  rintro before op after c rfl hremoves
  have hbefore := wellFormed_run hs before
  obtain ⟨hissued, habsent⟩ := absent_of_removes hbefore hremoves
  obtain ⟨hwf, hmore, _⟩ := apply_spec hbefore op
  have hend : (run (ofCapacity capacity) (before ++ op :: after)).get? c = none := by
    rw [run, List.foldl_append]
    exact absent_run hwf after ((hmore c).mpr (Or.inr hissued)) habsent
  refine ⟨hend, fun value => ?_, ?_, remove?_eq_none_iff.mpr hend⟩
  · simp [set, find?_eq_none_iff.mpr hend]
  · simp [contains_eq, hend]

/-- A slot that is filled three times goes through three ids; the second stays empty after it was
filtered out. -/
theorem second_id_stays_empty :
    let ops : List (Op Nat) := [.insert 7, .remove 1, .insert 8, .filter (· != 8), .insert 9]
    issuedBy (ofCapacity 1) ops = [1, 1048577, 2097153] ∧
      (run (ofCapacity 1) ops).get? 1048577 = none := by
  refine ⟨by decide, ?_⟩
  exact ((ids_name_one_value 1 _).2.2 [.insert 7, .remove 1, .insert 8] (.filter (· != 8))
    [.insert 9] 1048577 rfl ⟨8, by decide, by decide⟩).1

end ScriptNatives.Slots
