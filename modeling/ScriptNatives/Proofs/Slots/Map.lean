import Mathlib.Data.Finmap
import ScriptNatives.Proofs.Slots.Runs

/-!
# A pool is a finite map

The map of a pool is read off its slots: every slot that holds a value binds the id that it goes by
to the value. No two slots go by the same id, so each operation on a pool is the operation of that
name on its map. What a slot held before, and whether it waits to be filled or is retired, does not
show in the map.
-/
namespace ScriptNatives.Slots

variable {α : Type} {s t : Slots α} {c : Cell} {a : α}

/-- A finite map from ids to values. -/
abbrev Bindings (α : Type) := Finmap fun _ : Cell => α

/-- The binding that slot `i` makes, if it holds a value. -/
def binding? (s : Slots α) (i : Nat) : Option (Σ _ : Cell, α) :=
  (s.slots[i]?.bind Slot.value).map fun value => ⟨(s.idAt i).toCell, value⟩

def toMap (s : Slots α) : Bindings α :=
  ((List.range s.slots.size).filterMap s.binding?).toFinmap

theorem binding?_eq_some_iff {i : Nat} : s.binding? i = some ⟨c, a⟩ ↔
    ∃ g, s.slots[i]? = some ⟨g, some a⟩ ∧ (SlotId.mk i g).toCell = c := by
  unfold binding? idAt
  cases s.slots[i]? with
  | none => simp
  | some slot =>
    obtain ⟨g, value⟩ := slot
    cases value with
    | none => simp
    | some b => simp [and_comm]

/-- What a binding says is what the look-up says. -/
theorem mem_bindings_iff (hs : s.WellFormed) :
    ⟨c, a⟩ ∈ (List.range s.slots.size).filterMap s.binding? ↔ s.get? c = some a := by
  simp only [List.mem_filterMap, List.mem_range, binding?_eq_some_iff]
  constructor
  · rintro ⟨i, _, g, hi, rfl⟩
    exact (hs.named hi).2.2
  · intro h
    rw [get?_eq] at h
    obtain ⟨id, hc, hv⟩ := Option.bind_eq_some_iff.mp h
    have hi := valueAt?_eq_some_iff.mp hv
    exact ⟨id.slot, (Array.getElem?_eq_some_iff.mp hi).1, id.generation, hi,
      (SlotId.toCell_of_ofCell? hc).2.2⟩

/-- No two slots go by the same id. -/
theorem nodupKeys_bindings (hs : s.WellFormed) :
    ((List.range s.slots.size).filterMap s.binding?).NodupKeys := by
  rw [List.nodupKeys_iff_pairwise, List.pairwise_filterMap]
  refine List.nodup_range.imp fun {i j} hij => ?_
  rintro ⟨c, a⟩ hi ⟨d, b⟩ hj (rfl : c = d)
  obtain ⟨g, hi, hc⟩ := binding?_eq_some_iff.mp hi
  obtain ⟨k, hj, hd⟩ := binding?_eq_some_iff.mp hj
  obtain ⟨hislot, higen, _⟩ := hs.named hi
  obtain ⟨hjslot, hjgen, _⟩ := hs.named hj
  -- an id is read back as the slot that it was made for
  have hfirst := (SlotId.ofCell?_toCell (show (SlotId.mk i g).slot < _ from hislot) higen).2
  have hsecond := (SlotId.ofCell?_toCell (show (SlotId.mk j k).slot < _ from hjslot) hjgen).2
  rw [hc] at hfirst
  rw [hd, hfirst] at hsecond
  exact hij (SlotId.mk.inj (Option.some.inj hsecond)).1

/-- A pool answers what its map answers. -/
theorem lookup_toMap (hs : s.WellFormed) (c : Cell) : s.toMap.lookup c = s.get? c := by
  rw [toMap, Finmap.dlookup_list_toFinmap]
  refine Option.ext fun a => ?_
  exact (List.mem_dlookup_iff (nodupKeys_bindings hs)).trans (mem_bindings_iff hs)

theorem mem_toMap_iff (hs : s.WellFormed) : c ∈ s.toMap ↔ (s.get? c).isSome = true := by
  rw [← lookup_toMap hs, Finmap.lookup_isSome]

/-- The map of a pool is the one that answers what the pool does. -/
theorem toMap_eq_of_lookup (hs : s.WellFormed) {m : Bindings α}
    (h : ∀ d, s.get? d = m.lookup d) : s.toMap = m :=
  Finmap.ext_lookup fun d => (lookup_toMap hs d).trans (h d)

/-! ### Each operation on the map -/

/-- A value that comes in makes one new binding. -/
theorem toMap_insert? (hs : s.WellFormed) {value : α} (h : s.insert? value = some (c, t)) :
    c ∉ s.toMap ∧ t.toMap = s.toMap.insert c value := by
  obtain ⟨hwf, _, hnew, _, hget⟩ := insert?_spec hs h
  constructor
  · intro hmem
    obtain ⟨a, ha⟩ := Option.isSome_iff_exists.mp ((mem_toMap_iff hs).mp hmem)
    exact hnew (issued_of_get? hs ha)
  · refine toMap_eq_of_lookup hwf fun d => ?_
    rw [hget]
    by_cases hd : d = c
    · rw [if_pos hd, hd, Finmap.lookup_insert]
    · rw [if_neg hd, Finmap.lookup_insert_of_ne _ hd, lookup_toMap hs]

/-- Writing through a look-up changes the one binding that is written through. -/
theorem toMap_set (hs : s.WellFormed) (c : Cell) (value : α) :
    (s.set c value).toMap = if c ∈ s.toMap then s.toMap.insert c value else s.toMap := by
  obtain ⟨hwf, _, hget⟩ := set_spec hs c value
  refine toMap_eq_of_lookup hwf fun d => ?_
  rw [hget]
  by_cases hc : c ∈ s.toMap
  · obtain ⟨a, ha⟩ := Option.isSome_iff_exists.mp ((mem_toMap_iff hs).mp hc)
    rw [if_pos hc, ha]
    by_cases hd : d = c
    · rw [if_pos hd, hd, Finmap.lookup_insert]
      rfl
    · rw [if_neg hd, Finmap.lookup_insert_of_ne _ hd, lookup_toMap hs]
  · have hnone : s.get? c = none := by rwa [← lookup_toMap hs, Finmap.lookup_eq_none]
    rw [if_neg hc, lookup_toMap hs, hnone]
    by_cases hd : d = c
    · rw [if_pos hd, hd, hnone]
      rfl
    · rw [if_neg hd]

/-- Taking the value out of a slot takes its binding away. -/
theorem Removal.toMap_eq (hs : s.WellFormed) {i g : Nat} (hr : Removal s t i g) :
    (SlotId.mk i g).toCell ∈ s.toMap ∧ t.toMap = s.toMap.erase (SlotId.mk i g).toCell := by
  obtain ⟨a, hi⟩ := hr.occupied
  refine ⟨by rw [mem_toMap_iff hs, (hs.named hi).2.2]; rfl, ?_⟩
  refine toMap_eq_of_lookup (hr.wellFormed hs) fun d => ?_
  rw [hr.get?_eq hs]
  by_cases hd : d = (SlotId.mk i g).toCell
  · rw [if_pos hd, hd, Finmap.lookup_erase]
  · rw [if_neg hd, Finmap.lookup_erase_ne hd, lookup_toMap hs]

theorem toMap_remove? (hs : s.WellFormed) (h : s.remove? c = some (a, t)) :
    s.toMap.lookup c = some a ∧ t.toMap = s.toMap.erase c := by
  obtain ⟨i, g, hi, rfl, rfl⟩ := remove?_eq_some h
  exact ⟨(lookup_toMap hs _).trans (hs.named hi).2.2, ((removal_clear hi).toMap_eq hs).2⟩

theorem lookup_toMap_filter (hs : s.WellFormed) (keep : α → Bool) (c : Cell) :
    (s.filter keep).2.toMap.lookup c = (s.toMap.lookup c).filter keep := by
  obtain ⟨hwf, _, hget⟩ := filter_spec hs keep
  rw [lookup_toMap hwf, hget, lookup_toMap hs]

/-! ### The number of values -/

/-- The number of values that a pool keeps count of is the size of its map. -/
def Counted (s : Slots α) : Prop := s.live = s.toMap.keys.card

theorem live_clear (s : Slots α) (i : Nat) : (s.clear i).live = s.live - 1 := by
  unfold clear
  split <;> rfl

theorem live_insert? {value : α} (h : s.insert? value = some (c, t)) : t.live = s.live + 1 := by
  unfold insert? at h
  split at h
  · obtain ⟨_, rfl⟩ := Prod.mk.inj (Option.some.inj h)
    rfl
  · split at h
    · obtain ⟨_, rfl⟩ := Prod.mk.inj (Option.some.inj h)
      rfl
    · cases h

theorem live_set (s : Slots α) (c : Cell) (value : α) : (s.set c value).live = s.live := by
  unfold set
  split <;> rfl

theorem Counted.insert? (hs : s.WellFormed) (hc : s.Counted) {value : α}
    (h : s.insert? value = some (c, t)) : t.Counted := by
  obtain ⟨hnew, hmap⟩ := toMap_insert? hs h
  have hkeys : t.toMap.keys = Insert.insert c s.toMap.keys := by
    ext d
    simp [hmap, Finmap.mem_keys]
  rw [Counted, live_insert? h, hkeys, Finset.card_insert_of_notMem, hc]
  rwa [Finmap.mem_keys]

theorem Counted.set (hs : s.WellFormed) (hc : s.Counted) (c : Cell) (value : α) :
    (s.set c value).Counted := by
  have hkeys : (s.set c value).toMap.keys = s.toMap.keys := by
    ext d
    rw [toMap_set hs]
    split
    · next hmem =>
      rw [Finmap.mem_keys, Finmap.mem_keys, Finmap.mem_insert]
      exact ⟨fun h => h.elim (· ▸ hmem) id, .inr⟩
    · rfl
  rw [Counted, live_set, hkeys, hc]

/-- Clearing occupied slots makes the map smaller by as many bindings, and the count with it. -/
theorem Counted.foldl_clear (hs : s.WellFormed) (hc : s.Counted) (l : List Nat) (hl : l.Nodup)
    (ho : ∀ i ∈ l, s.Occupied i) : (l.foldl clear s).Counted ∧
      (l.foldl clear s).toMap.keys.card + l.length = s.toMap.keys.card := by
  induction l generalizing s with
  | nil => exact ⟨hc, rfl⟩
  | cons i l ih =>
    rw [List.nodup_cons] at hl
    obtain ⟨g, a, hi⟩ := ho i List.mem_cons_self
    have hr := removal_clear hi
    obtain ⟨hmem, hmap⟩ := hr.toMap_eq hs
    have hcard : (s.clear i).toMap.keys.card + 1 = s.toMap.keys.card := by
      rw [hmap, Finmap.keys_erase, Finset.card_erase_add_one (Finmap.mem_keys.mpr hmem)]
    have hfirst : (s.clear i).Counted := by
      rw [Counted] at hc ⊢
      rw [live_clear]
      omega
    have hrest : ∀ j ∈ l, (s.clear i).Occupied j := fun j hj =>
      hr.occupied_of_ne (fun he => hl.1 (he ▸ hj)) (ho j (List.mem_cons_of_mem _ hj))
    obtain ⟨hcounted, hlength⟩ := ih (hr.wellFormed hs) hfirst hl.2 hrest
    refine ⟨hcounted, ?_⟩
    rw [List.foldl_cons, List.length_cons]
    omega

def failingIds (m : Bindings α) (keep : α → Bool) : Finset Cell :=
  m.keys.filter fun c => (m.lookup c).any (! keep ·)

/-- A filter counts the bindings that it takes away. -/
theorem Counted.filter (hs : s.WellFormed) (hc : s.Counted) (keep : α → Bool) :
    (s.filter keep).2.Counted ∧ (s.filter keep).1 = (failingIds s.toMap keep).card := by
  have hl : (s.failing keep).Nodup := List.nodup_range.filter _
  obtain ⟨hcounted, hlength⟩ := hc.foldl_clear hs _ hl fun i => occupied_of_mem_failing
  refine ⟨hcounted, ?_⟩
  -- what fails and what is kept make up the map, and what is cleared is what is not kept
  have hkept : (s.filter keep).2.toMap.keys =
      s.toMap.keys.filter fun c => ¬ (s.toMap.lookup c).any (! keep ·) := by
    ext c
    rw [Finset.mem_filter, Finmap.mem_keys, Finmap.mem_keys, ← Finmap.lookup_isSome,
      ← Finmap.lookup_isSome, lookup_toMap_filter hs]
    cases s.toMap.lookup c with
    | none => simp
    | some a => cases hk : keep a <;> simp [Option.filter, hk]
  have hsplit := Finset.card_filter_add_card_filter_not (s := s.toMap.keys)
    fun c => (s.toMap.lookup c).any (! keep ·) = true
  rw [← hkept] at hsplit
  show (s.failing keep).length = _
  change ((s.filter keep).2.toMap.keys.card + _ = _) at hlength
  rw [failingIds]
  omega

/-- An operation keeps a pool counted. -/
theorem Counted.apply (hs : s.WellFormed) (hc : s.Counted) (op : Op α) : (op.apply s).Counted := by
  cases op with
  | insert value =>
    cases h : s.insert? value with
    | none => simpa [Op.apply, h] using hc
    | some out => simpa [Op.apply, h] using hc.insert? hs h
  | set id value => exact hc.set hs id value
  | remove id =>
    cases h : s.remove? id with
    | none => simpa [Op.apply, h] using hc
    | some out =>
      obtain ⟨i, g, hi, _, ht⟩ := remove?_eq_some h
      have hcleared := (hc.foldl_clear hs [i] (List.nodup_singleton i) (by simp [Occupied, hi])).1
      simpa [Op.apply, h, ht] using hcleared
  | filter keep => exact (hc.filter hs keep).1

theorem counted_ofCapacity (capacity : Nat) : (ofCapacity capacity : Slots α).Counted := rfl

theorem counted_run (hs : s.WellFormed) (hc : s.Counted) (ops : List (Op α)) :
    (run s ops).Counted := by
  induction ops generalizing s with
  | nil => exact hc
  | cons op ops ih => exact ih (apply_spec hs op).1 (hc.apply hs op)

/-! ### Every pool is its map -/

/-- A pool does what its map does, whatever is asked of it next. -/
structure ActsAsMap (s : Slots α) : Prop where
  get?_eq : ∀ c, s.get? c = s.toMap.lookup c
  contains_iff : ∀ c, s.contains c = true ↔ c ∈ s.toMap
  wellFormed_id : ∀ c ∈ s.toMap, 0 < c.toInt ∧ (SlotId.ofCell? c).isSome
  insert? : ∀ value c t, s.insert? value = some (c, t) →
    c ∉ s.toMap ∧ t.toMap = s.toMap.insert c value
  set : ∀ c value, (s.set c value).toMap =
    if c ∈ s.toMap then s.toMap.insert c value else s.toMap
  remove?_eq_none : ∀ c, s.remove? c = none ↔ c ∉ s.toMap
  remove? : ∀ c a t, s.remove? c = some (a, t) →
    s.toMap.lookup c = some a ∧ t.toMap = s.toMap.erase c
  filter : ∀ keep c, (s.filter keep).2.toMap.lookup c = (s.toMap.lookup c).filter keep
  filter_count : ∀ keep, (s.filter keep).1 = (failingIds s.toMap keep).card
  live_eq : s.live = s.toMap.keys.card
  isEmpty_iff : s.isEmpty = true ↔ s.toMap = ∅

theorem actsAsMap (hs : s.WellFormed) (hc : s.Counted) : s.ActsAsMap where
  get?_eq c := (lookup_toMap hs c).symm
  contains_iff c := by rw [contains_eq, mem_toMap_iff hs]
  wellFormed_id c hmem := by
    obtain ⟨a, ha⟩ := Option.isSome_iff_exists.mp ((mem_toMap_iff hs).mp hmem)
    rw [get?_eq] at ha
    obtain ⟨id, hid, _⟩ := Option.bind_eq_some_iff.mp ha
    obtain ⟨hslot, hgen, rfl⟩ := SlotId.toCell_of_ofCell? hid
    exact ⟨(SlotId.ofCell?_toCell hslot hgen).1, by rw [hid]; rfl⟩
  insert? _ _ _ h := toMap_insert? hs h
  set c value := toMap_set hs c value
  remove?_eq_none c := by
    rw [remove?_eq_none_iff, ← lookup_toMap hs, Finmap.lookup_eq_none]
  remove? _ _ _ h := toMap_remove? hs h
  filter keep c := lookup_toMap_filter hs keep c
  filter_count keep := (hc.filter hs keep).2
  live_eq := hc
  isEmpty_iff := by
    rw [isEmpty, beq_iff_eq, hc, Finset.card_eq_zero]
    constructor
    · intro h
      refine Finmap.ext_lookup fun c => ?_
      rw [Finmap.lookup_empty, Finmap.lookup_eq_none, ← Finmap.mem_keys, h]
      exact Finset.notMem_empty c
    · intro h
      rw [h, Finmap.keys_empty]

/-- A pool acts as its map after every run, and only ids that the run gave out are bound in it. -/
theorem run_actsAsMap (capacity : Nat) (ops : List (Op α)) :
    (run (ofCapacity capacity) ops).ActsAsMap ∧
      ∀ c ∈ (run (ofCapacity capacity) ops).toMap, c ∈ issuedBy (ofCapacity capacity) ops := by
  have hempty : (ofCapacity capacity : Slots α).WellFormed := wellFormed_ofCapacity capacity
  have hs := wellFormed_run hempty ops
  refine ⟨actsAsMap hs (counted_run hempty (counted_ofCapacity capacity) ops), fun c hmem => ?_⟩
  obtain ⟨a, ha⟩ := Option.isSome_iff_exists.mp ((mem_toMap_iff hs).mp hmem)
  have hissued := (issued_run_iff hempty ops c).mp (issued_of_get? hs ha)
  exact hissued.resolve_right (not_issued_ofCapacity capacity c)

/-- Slot 0 is bound under its second id only, and a filter reports the one binding that it takes
away. -/
theorem refilled_pool_is_map :
    let s : Slots Nat := run (ofCapacity 2) [.insert 7, .insert 8, .remove 1, .insert 9]
    s.toMap.lookup 1048577 = some 9 ∧ 1 ∉ s.toMap ∧ (failingIds s.toMap (· != 8)).card = 1 ∧
      (s.filter (· != 8)).2.toMap.lookup 2 = none := by
  intro s
  have h : s.ActsAsMap :=
    (run_actsAsMap 2 ([.insert 7, .insert 8, .remove 1, .insert 9] : List (Op Nat))).1
  have hgone : ¬ s.contains 1 = true := by decide
  have htwo : s.toMap.lookup 2 = some 8 := (h.get?_eq 2).symm.trans (by decide)
  refine ⟨(h.get?_eq 1048577).symm.trans (by decide), fun hmem => ?_, ?_, ?_⟩
  · exact hgone ((h.contains_iff 1).mpr hmem)
  · exact (h.filter_count (· != 8)).symm.trans (by decide)
  · rw [h.filter, htwo]
    rfl

end ScriptNatives.Slots
