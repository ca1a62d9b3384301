import Mathlib.Data.Finset.Prod
import ScriptNatives.Proofs.Slots.Map

/-!
# The places of a pool

Every slot that was allocated holds a value, waits to be filled again, or is retired. A pool keeps
count of the first and of the last, so it knows without looking when no place is left: when values
and retired slots together are as many as its capacity. Since a retired slot stays retired, a
pool wears out, and the ids that its slots can go by are a bound for the values it ever takes.
-/
namespace ScriptNatives.Slots

variable {α : Type} {s t u : Slots α} {i g : Nat} {a value : α} {c : Cell}

/-! ### Occupied and retired slots -/

def occupiedSlots (s : Slots α) : Finset Nat :=
  (Finset.range s.slots.size).filter fun i => (s.slots[i]?.bind Slot.value).isSome

/-- The slots that are empty in their last generation and do not wait to be filled in it. -/
def retiredSlots (s : Slots α) : Finset Nat :=
  (Finset.range s.slots.size).filter fun i => i ∉ s.free ∧
    s.slots[i]?.any fun slot => slot.generation == SlotId.lastGeneration && slot.value.isNone

theorem mem_occupiedSlots_iff : i ∈ s.occupiedSlots ↔ s.Occupied i := by
  rw [occupiedSlots, Finset.mem_filter, Finset.mem_range, Occupied]
  constructor
  · rintro ⟨_, h⟩
    obtain ⟨a, ha⟩ := Option.isSome_iff_exists.mp h
    obtain ⟨⟨g, _⟩, hi, rfl⟩ := Option.bind_eq_some_iff.mp ha
    exact ⟨g, a, hi⟩
  · rintro ⟨g, a, hi⟩
    exact ⟨(Array.getElem?_eq_some_iff.mp hi).1, by simp [hi]⟩

theorem mem_retiredSlots_iff : i ∈ s.retiredSlots ↔
    i ∉ s.free ∧ s.slots[i]? = some ⟨SlotId.lastGeneration, none⟩ := by
  rw [retiredSlots, Finset.mem_filter, Finset.mem_range]
  constructor
  · rintro ⟨hlt, hfree, h⟩
    obtain ⟨⟨g, value⟩, hi⟩ : ∃ slot, s.slots[i]? = some slot := ⟨_, Array.getElem?_eq_getElem hlt⟩
    rw [hi] at h ⊢
    obtain ⟨rfl, rfl⟩ : g = SlotId.lastGeneration ∧ value = none := by simpa using h
    exact ⟨hfree, rfl⟩
  · rintro ⟨hfree, hi⟩
    exact ⟨(Array.getElem?_eq_some_iff.mp hi).1, hfree, by simp [hi]⟩

/-- A slot is retired if and only if it is empty and every id that it can go by was given out. -/
theorem WellFormed.mem_retiredSlots_iff_usedUp (hs : s.WellFormed) : i ∈ s.retiredSlots ↔
    (∃ g, s.slots[i]? = some ⟨g, none⟩) ∧ ∀ g ≤ SlotId.lastGeneration, s.UsedUp ⟨i, g⟩ := by
  rw [mem_retiredSlots_iff]
  constructor
  · rintro ⟨hfree, hi⟩
    refine ⟨⟨_, hi⟩, fun g hg => ⟨_, hi, ?_⟩⟩
    rcases Nat.lt_or_eq_of_le hg with hlt | heq
    · exact .inl hlt
    · exact .inr ⟨heq, hfree⟩
  · rintro ⟨⟨g, hi⟩, hused⟩
    obtain ⟨slot, hslot, hlast⟩ := hused SlotId.lastGeneration (Nat.le_refl _)
    obtain rfl : ⟨g, none⟩ = slot := Option.some.inj (hi.symm.trans hslot)
    have hle := hs.generation_le i _ hi
    rcases hlast with hlt | ⟨heq, hfree⟩
    · exact absurd hlt (Nat.not_lt.mpr hle)
    · obtain rfl : SlotId.lastGeneration = g := heq
      exact ⟨hfree, hi⟩

/-! ### The accounts of a pool -/

/-- Every slot is occupied, free or retired, and the counts are right. -/
structure Accounted (s : Slots α) : Prop where
  live_eq : s.live = s.occupiedSlots.card
  retired_eq : s.retired = s.retiredSlots.card
  placed : ∀ i < s.slots.size, i ∈ s.occupiedSlots ∨ i ∈ s.free ∨ i ∈ s.retiredSlots

theorem accounted_ofCapacity (capacity : Nat) : (ofCapacity capacity : Slots α).Accounted where
  live_eq := rfl
  retired_eq := rfl
  placed _ hi := absurd hi (Nat.not_lt_zero _)

theorem insert?_keeps (h : s.insert? value = some (c, t)) :
    t.capacity = s.capacity ∧ t.retired = s.retired := by
  unfold insert? at h
  split at h
  · obtain ⟨_, rfl⟩ := Prod.mk.inj (Option.some.inj h)
    exact ⟨rfl, rfl⟩
  · split at h
    · obtain ⟨_, rfl⟩ := Prod.mk.inj (Option.some.inj h)
      exact ⟨rfl, rfl⟩
    · cases h

/-- A slot that is filled was free or is new, so it becomes occupied and no slot is retired. -/
theorem Accounted.insert? (hs : s.WellFormed) (ha : s.Accounted)
    (h : s.insert? value = some (c, t)) : t.Accounted := by
  obtain ⟨i, g, _, hi⟩ := insertion_of_insert? hs h
  have hempty : i ∉ s.occupiedSlots ∧ i ∉ s.retiredSlots := by
    rw [mem_occupiedSlots_iff, mem_retiredSlots_iff, Occupied]
    rcases hi.fresh with ⟨hslot, hfree⟩ | ⟨hslot, _⟩
    · simp [hslot, hfree]
    · simp [hslot]
  have hoccupied : t.occupiedSlots = Insert.insert i s.occupiedSlots := by
    ext j
    rw [Finset.mem_insert, mem_occupiedSlots_iff, mem_occupiedSlots_iff, Occupied, hi.slots_eq]
    by_cases hij : i = j
    · simp [hij]
    · simp [hij, Ne.symm hij, Occupied]
  have hretired : t.retiredSlots = s.retiredSlots := by
    ext j
    by_cases hij : i = j
    · subst hij
      simp [hempty.2, mem_retiredSlots_iff, hi.slots_eq]
    · simp [mem_retiredSlots_iff, hi.slots_eq, hi.mem_free_iff, hij, Ne.symm hij]
  refine ⟨?_, ?_, fun j hj => ?_⟩
  · rw [live_insert? h, hoccupied, Finset.card_insert_of_notMem hempty.1, ha.live_eq]
  · rw [(insert?_keeps h).2, hretired, ha.retired_eq]
  · rw [hoccupied, hretired, Finset.mem_insert, hi.mem_free_iff]
    by_cases hij : j = i
    · exact .inl (.inl hij)
    · have hslot : j < s.slots.size := by
        have hfound := Array.getElem?_eq_getElem hj
        rw [hi.slots_eq, if_neg (Ne.symm hij)] at hfound
        exact (Array.getElem?_eq_some_iff.mp hfound).1
      rcases ha.placed j hslot with h | h | h
      · exact .inl (.inr h)
      · exact .inr (.inl ⟨h, hij⟩)
      · exact .inr (.inr h)

/-- A value in the place of another: no slot changes sides. -/
theorem Accounted.fill (ha : s.Accounted) (hi : s.slots[i]? = some ⟨g, some a⟩) (value : α) :
    (s.fill i value).Accounted := by
  have hoccupied : (s.fill i value).occupiedSlots = s.occupiedSlots := by
    ext j
    rw [mem_occupiedSlots_iff, mem_occupiedSlots_iff, Occupied, Occupied, slots_fill]
    by_cases hij : i = j
    · simp [← hij, hi]
    · simp [hij]
  have hretired : (s.fill i value).retiredSlots = s.retiredSlots := by
    ext j
    have hfree : (s.fill i value).free = s.free := rfl
    rw [mem_retiredSlots_iff, mem_retiredSlots_iff, slots_fill, hfree]
    by_cases hij : i = j
    · simp [← hij, hi]
    · simp [hij]
  refine ⟨?_, ?_, fun j hj => ?_⟩
  · rw [hoccupied]
    exact ha.live_eq
  · rw [hretired]
    exact ha.retired_eq
  · rw [hoccupied, hretired]
    exact ha.placed j (by simpa [Slots.fill] using hj)

/-- A slot that is cleared is free in its next generation, as long as it has one. -/
theorem clear_of_lt (hi : s.slots[i]? = some ⟨g, some a⟩) (hlt : g < SlotId.lastGeneration) :
    (s.clear i).free = i :: s.free ∧ (s.clear i).retired = s.retired := by
  have hg : (s.idAt i).generation = g := by simp [idAt, hi]
  simp [clear, hg, SlotId.generationAfter?, hlt]

/-- A slot that is cleared in its last generation is retired. -/
theorem clear_of_last (hi : s.slots[i]? = some ⟨SlotId.lastGeneration, some a⟩) :
    (s.clear i).slots[i]? = some ⟨SlotId.lastGeneration, none⟩ ∧ (s.clear i).free = s.free ∧
      (s.clear i).retired = s.retired + 1 := by
  have hg : (s.idAt i).generation = SlotId.lastGeneration := by simp [idAt, hi]
  simp [clear, hg, SlotId.generationAfter?, Array.getElem?_modify, hi]

theorem occupiedSlots_clear (hi : s.slots[i]? = some ⟨g, some a⟩) :
    (s.clear i).occupiedSlots = s.occupiedSlots.erase i := by
  have hr := removal_clear hi
  ext j
  rw [Finset.mem_erase, mem_occupiedSlots_iff, mem_occupiedSlots_iff, Occupied, Occupied]
  by_cases hij : j = i
  · subst hij
    rcases hr.emptied with ⟨he, _⟩ | ⟨he, _⟩ <;> simp [he]
  · simp [hr.slots_eq j hij, hij]

theorem retiredSlots_clear_of_lt (hi : s.slots[i]? = some ⟨g, some a⟩)
    (hlt : g < SlotId.lastGeneration) : (s.clear i).retiredSlots = s.retiredSlots := by
  have hr := removal_clear hi
  ext j
  rw [mem_retiredSlots_iff, mem_retiredSlots_iff, (clear_of_lt hi hlt).1, List.mem_cons]
  by_cases hij : j = i
  · simp [hij, hi]
  · simp [hr.slots_eq j hij, hij]

theorem retiredSlots_clear_of_last (hs : s.WellFormed)
    (hi : s.slots[i]? = some ⟨SlotId.lastGeneration, some a⟩) :
    (s.clear i).retiredSlots = Insert.insert i s.retiredSlots := by
  have hr := removal_clear hi
  obtain ⟨hslot, hfree, _⟩ := clear_of_last hi
  ext j
  rw [Finset.mem_insert, mem_retiredSlots_iff, mem_retiredSlots_iff, hfree]
  by_cases hij : j = i
  · subst hij
    simp [hslot, hr.not_mem_free hs]
  · simp [hr.slots_eq j hij, hij]

/-- A slot that is cleared goes to the free ones or to the retired ones. -/
theorem Accounted.clear (hs : s.WellFormed) (ha : s.Accounted)
    (hi : s.slots[i]? = some ⟨g, some a⟩) : (s.clear i).Accounted := by
  have hr := removal_clear hi
  have hoccupied : i ∈ s.occupiedSlots := mem_occupiedSlots_iff.mpr ⟨g, a, hi⟩
  have hlive : (s.clear i).live = (s.clear i).occupiedSlots.card := by
    rw [live_clear, occupiedSlots_clear hi, Finset.card_erase_of_mem hoccupied, ha.live_eq]
  have hplaced (j : Nat) (hj : j < (s.clear i).slots.size) := ha.placed j (hr.size_eq ▸ hj)
  rcases Nat.lt_or_eq_of_le (hs.generation_le i _ hi) with hlt | heq
  · obtain ⟨hfree, hcount⟩ := clear_of_lt hi hlt
    have hretired := retiredSlots_clear_of_lt hi hlt
    refine ⟨hlive, by rw [hcount, hretired, ha.retired_eq], fun j hj => ?_⟩
    rw [occupiedSlots_clear hi, hretired, hfree, Finset.mem_erase, List.mem_cons]
    have hbefore := hplaced j hj
    tauto
  · obtain rfl : g = SlotId.lastGeneration := heq
    obtain ⟨_, hfree, hcount⟩ := clear_of_last hi
    have hretired := retiredSlots_clear_of_last hs hi
    have hnew : i ∉ s.retiredSlots := by simp [mem_retiredSlots_iff, hi]
    refine ⟨hlive, ?_, fun j hj => ?_⟩
    · rw [hcount, hretired, Finset.card_insert_of_notMem hnew, ha.retired_eq]
    · rw [occupiedSlots_clear hi, hretired, hfree, Finset.mem_erase, Finset.mem_insert]
      have hbefore := hplaced j hj
      tauto

theorem Accounted.foldl_clear (hs : s.WellFormed) (ha : s.Accounted) (l : List Nat) (hl : l.Nodup)
    (ho : ∀ i ∈ l, s.Occupied i) : (l.foldl Slots.clear s).Accounted := by
  induction l generalizing s with
  | nil => exact ha
  | cons i l ih =>
    rw [List.nodup_cons] at hl
    obtain ⟨g, a, hi⟩ := ho i List.mem_cons_self
    have hr := removal_clear hi
    refine ih (hr.wellFormed hs) (ha.clear hs hi) hl.2 fun j hj => ?_
    exact hr.occupied_of_ne (fun he => hl.1 (he ▸ hj)) (ho j (List.mem_cons_of_mem _ hj))

/-- An operation keeps the accounts in order. -/
theorem Accounted.apply (hs : s.WellFormed) (ha : s.Accounted) (op : Op α) :
    (op.apply s).Accounted := by
  cases op with
  | insert value =>
    cases h : s.insert? value with
    | none => simpa [Op.apply, h] using ha
    | some out => simpa [Op.apply, h] using ha.insert? hs h
  | set id value =>
    cases h : s.find? id with
    | none => simpa [Op.apply, Slots.set, h] using ha
    | some found =>
      obtain ⟨g, _, hi⟩ := find?_eq_some_iff.mp h
      simpa [Op.apply, Slots.set, h] using ha.fill hi value
  | remove id =>
    cases h : s.remove? id with
    | none => simpa [Op.apply, h] using ha
    | some out =>
      obtain ⟨i, g, hi, _, ht⟩ := remove?_eq_some h
      simpa [Op.apply, h, ht] using ha.clear hs hi
  | filter keep =>
    exact ha.foldl_clear hs _ (List.nodup_range.filter _) fun i => occupied_of_mem_failing

theorem accounted_run (hs : s.WellFormed) (ha : s.Accounted) (ops : List (Op α)) :
    (run s ops).Accounted := by
  induction ops generalizing s with
  | nil => exact ha
  | cons op ops ih => exact ih (apply_spec hs op).1 (ha.apply hs op)

/-- A pool that is in order, as every pool is that comes from an empty one. -/
structure InOrder (s : Slots α) : Prop where
  wellFormed : s.WellFormed
  accounted : s.Accounted

theorem inOrder_ofCapacity (capacity : Nat) : (ofCapacity capacity : Slots α).InOrder where
  wellFormed := wellFormed_ofCapacity capacity
  accounted := accounted_ofCapacity capacity

theorem InOrder.run (hs : s.InOrder) (ops : List (Op α)) : (s.run ops).InOrder where
  wellFormed := wellFormed_run hs.wellFormed ops
  accounted := accounted_run hs.wellFormed hs.accounted ops

theorem InOrder.clear (hs : s.InOrder) (hi : s.slots[i]? = some ⟨g, some a⟩) :
    (s.clear i).InOrder where
  wellFormed := (removal_clear hi).wellFormed hs.wellFormed
  accounted := hs.accounted.clear hs.wellFormed hi

theorem InOrder.slots_size_le (hs : s.InOrder) : s.slots.size ≤ SlotId.maxSlots :=
  Nat.le_trans hs.wellFormed.size_le hs.wellFormed.capacity_le

theorem InOrder.live_le (hs : s.InOrder) : s.live ≤ s.slots.size := by
  rw [hs.accounted.live_eq, ← Finset.card_range s.slots.size]
  exact Finset.card_filter_le _ _

theorem InOrder.retired_le (hs : s.InOrder) : s.retired ≤ s.slots.size := by
  rw [hs.accounted.retired_eq, ← Finset.card_range s.slots.size]
  exact Finset.card_filter_le _ _

/-- While a slot holds a value, values are counted. -/
theorem InOrder.live_pos (hs : s.InOrder) (hi : s.slots[i]? = some ⟨g, some a⟩) : 0 < s.live := by
  rw [hs.accounted.live_eq]
  exact Finset.card_pos.mpr ⟨i, mem_occupiedSlots_iff.mpr ⟨g, a, hi⟩⟩

/-! ### A pool wears out -/

/-- From one pool to a later one, the capacity is the same, and no slot is taken out of
retirement. -/
structure WearsTo (s t : Slots α) : Prop where
  capacity_eq : t.capacity = s.capacity
  retired_le : s.retired ≤ t.retired

theorem WearsTo.refl (s : Slots α) : s.WearsTo s := ⟨rfl, Nat.le_refl _⟩

theorem WearsTo.trans (first : s.WearsTo t) (second : t.WearsTo u) : s.WearsTo u where
  capacity_eq := second.capacity_eq.trans first.capacity_eq
  retired_le := Nat.le_trans first.retired_le second.retired_le

theorem wearsTo_insert? (h : s.insert? value = some (c, t)) : s.WearsTo t :=
  ⟨(insert?_keeps h).1, Nat.le_of_eq (insert?_keeps h).2.symm⟩

theorem wearsTo_clear (s : Slots α) (i : Nat) : s.WearsTo (s.clear i) := by
  unfold clear
  split
  · exact ⟨rfl, Nat.le_refl _⟩
  · exact ⟨rfl, Nat.le_succ _⟩

theorem wearsTo_foldl_clear (s : Slots α) (l : List Nat) : s.WearsTo (l.foldl clear s) := by
  induction l generalizing s with
  | nil => exact .refl s
  | cons i l ih => exact (wearsTo_clear s i).trans (ih _)

theorem wearsTo_apply (s : Slots α) (op : Op α) : s.WearsTo (op.apply s) := by
  cases op with
  | insert value =>
    cases h : s.insert? value with
    | none => simpa [Op.apply, h] using WearsTo.refl s
    | some out => simpa [Op.apply, h] using wearsTo_insert? h
  | set id value =>
    cases h : s.find? id with
    | none => simpa [Op.apply, set, h] using WearsTo.refl s
    | some found =>
      simp only [Op.apply, set, h]
      exact ⟨rfl, Nat.le_refl _⟩
  | remove id =>
    cases h : s.remove? id with
    | none => simpa [Op.apply, h] using WearsTo.refl s
    | some out =>
      obtain ⟨i, _, _, _, ht⟩ := remove?_eq_some h
      simpa [Op.apply, h, ht] using wearsTo_clear s i
  | filter keep => exact wearsTo_foldl_clear s _

theorem wearsTo_run (s : Slots α) (ops : List (Op α)) : s.WearsTo (run s ops) := by
  induction ops generalizing s with
  | nil => exact .refl s
  | cons op ops ih => exact (wearsTo_apply s op).trans (ih _)

/-- A pool has given out no more ids than its slots can go by. -/
theorem WellFormed.card_le_of_issued (hs : s.WellFormed) (ids : Finset Cell)
    (hissued : ∀ c ∈ ids, s.Issued c) : ids.card ≤ 2048 * s.capacity := by
  let named : Finset (Nat × Nat) := Finset.range s.capacity ×ˢ Finset.range 2048
  have hsubset : ids ⊆ named.image fun id => (SlotId.mk id.1 id.2).toCell := by
    intro c hc
    obtain ⟨⟨i, g⟩, hid, slot, hslot, hused⟩ := hissued c hc
    have hlt : i < s.capacity :=
      Nat.lt_of_lt_of_le (Array.getElem?_eq_some_iff.mp hslot).1 hs.size_le
    obtain ⟨_, hgen, hcell⟩ := SlotId.toCell_of_ofCell? hid
    refine Finset.mem_image.mpr ⟨(i, g), ?_, hcell⟩
    have hlast : g < 2048 := Nat.lt_succ_of_le hgen
    exact Finset.mem_product.mpr ⟨Finset.mem_range.mpr hlt, Finset.mem_range.mpr hlast⟩
  calc ids.card
    _ ≤ (named.image fun id => (SlotId.mk id.1 id.2).toCell).card := Finset.card_le_card hsubset
    _ ≤ named.card := Finset.card_image_le
    _ = 2048 * s.capacity := by
      rw [Finset.card_product, Finset.card_range, Finset.card_range, Nat.mul_comm]

/-! ### Every pool -/

/-- The slots of a pool fall into those that hold a value, those that wait to be filled, each of
them once, and those that are retired. There are no more of them than its capacity, the pool knows
how many hold a value and how many are retired, and it takes a value unless these two are all that
it may have. -/
structure Balanced (s : Slots α) : Prop where
  places : s.occupiedSlots ∪ s.free.toFinset ∪ s.retiredSlots = Finset.range s.slots.size
  occupied_free : Disjoint s.occupiedSlots s.free.toFinset
  occupied_retired : Disjoint s.occupiedSlots s.retiredSlots
  free_retired : Disjoint s.free.toFinset s.retiredSlots
  free_nodup : s.free.Nodup
  free_empty : ∀ i ∈ s.free, ∃ g, s.slots[i]? = some ⟨g, none⟩
  size_le : s.slots.size ≤ s.capacity
  live_eq : s.live = s.occupiedSlots.card
  retired_eq : s.retired = s.retiredSlots.card
  retired_iff : ∀ i, i ∈ s.retiredSlots ↔
    (∃ g, s.slots[i]? = some ⟨g, none⟩) ∧ ∀ g ≤ SlotId.lastGeneration, s.UsedUp ⟨i, g⟩
  insert?_eq_none_iff : ∀ value, s.insert? value = none ↔ s.live + s.retired = s.capacity

theorem insert?_eq_none_iff (value : α) :
    s.insert? value = none ↔ s.free = [] ∧ s.capacity ≤ s.slots.size := by
  unfold insert?
  split
  · next h => simp [h]
  · next h => split <;> simp [h] <;> omega

theorem Accounted.balanced (hs : s.WellFormed) (ha : s.Accounted) : s.Balanced := by
  have hoccupied_free : Disjoint s.occupiedSlots s.free.toFinset := by
    refine Finset.disjoint_left.mpr fun i hi hfree => ?_
    obtain ⟨g, a, hslot⟩ := mem_occupiedSlots_iff.mp hi
    obtain ⟨k, hempty⟩ := hs.free_empty i (List.mem_toFinset.mp hfree)
    simp [hslot] at hempty
  have hoccupied_retired : Disjoint s.occupiedSlots s.retiredSlots := by
    refine Finset.disjoint_left.mpr fun i hi hretired => ?_
    obtain ⟨g, a, hslot⟩ := mem_occupiedSlots_iff.mp hi
    simp [mem_retiredSlots_iff, hslot] at hretired
  have hfree_retired : Disjoint s.free.toFinset s.retiredSlots :=
    Finset.disjoint_left.mpr fun i hfree hretired =>
      (mem_retiredSlots_iff.mp hretired).1 (List.mem_toFinset.mp hfree)
  have hplaces : s.occupiedSlots ∪ s.free.toFinset ∪ s.retiredSlots =
      Finset.range s.slots.size := by
    ext i
    rw [Finset.mem_union, Finset.mem_union, Finset.mem_range, List.mem_toFinset]
    constructor
    · rintro ((hi | hi) | hi)
      · exact Finset.mem_range.mp (Finset.mem_filter.mp hi).1
      · obtain ⟨g, hslot⟩ := hs.free_empty i hi
        exact (Array.getElem?_eq_some_iff.mp hslot).1
      · exact Finset.mem_range.mp (Finset.mem_filter.mp hi).1
    · intro hi
      rcases ha.placed i hi with h | h | h
      · exact .inl (.inl h)
      · exact .inl (.inr h)
      · exact .inr h
  have hsize : s.live + s.free.length + s.retired = s.slots.size := by
    have hcard := congrArg Finset.card hplaces
    rwa [Finset.card_union_of_disjoint (Finset.disjoint_union_left.mpr
      ⟨hoccupied_retired, hfree_retired⟩), Finset.card_union_of_disjoint hoccupied_free,
      List.toFinset_card_of_nodup hs.free_nodup, Finset.card_range, ← ha.live_eq,
      ← ha.retired_eq] at hcard
  refine ⟨hplaces, hoccupied_free, hoccupied_retired, hfree_retired, hs.free_nodup, hs.free_empty,
    hs.size_le, ha.live_eq, ha.retired_eq, fun i => hs.mem_retiredSlots_iff_usedUp, fun value => ?_⟩
  have hle := hs.size_le
  rw [insert?_eq_none_iff, ← List.length_eq_zero_iff]
  omega

/-- Every pool is balanced after every run. It never has more than 2²⁰ - 1 slots, even if more are
asked for. A value that finds no place changes nothing, no slot is taken out of retirement
whatever comes next, and a pool takes at most 2048 values for each place in its whole life. -/
theorem run_balanced (capacity : Nat) (ops : List (Op α)) :
    (run (ofCapacity capacity) ops).Balanced ∧
      (run (ofCapacity capacity) ops).capacity = min capacity (2 ^ 20 - 1) ∧
      (∀ value, (run (ofCapacity capacity) ops).insert? value = none →
        (Op.insert value).apply (run (ofCapacity capacity) ops) = run (ofCapacity capacity) ops) ∧
      (∀ more, (run (ofCapacity capacity) ops).retired ≤
        (run (run (ofCapacity capacity) ops) more).retired) ∧
      (issuedBy (ofCapacity capacity) ops).length ≤ 2048 * min capacity (2 ^ 20 - 1) := by
  have hempty : (ofCapacity capacity : Slots α).WellFormed := wellFormed_ofCapacity capacity
  have hs := wellFormed_run hempty ops
  have ha := accounted_run hempty (accounted_ofCapacity capacity) ops
  have hcapacity : (run (ofCapacity capacity) ops).capacity = min capacity (2 ^ 20 - 1) :=
    (wearsTo_run _ ops).capacity_eq
  refine ⟨ha.balanced hs, hcapacity, fun value h => ?_,
    fun more => (wearsTo_run _ more).retired_le, ?_⟩
  · rw [Op.apply, h]
    rfl
  · rw [← List.toFinset_card_of_nodup (nodup_issuedBy hempty ops), ← hcapacity]
    refine hs.card_le_of_issued _ fun c hc => ?_
    exact (issued_run_iff hempty ops c).mpr (.inl (List.mem_toFinset.mp hc))

end ScriptNatives.Slots
