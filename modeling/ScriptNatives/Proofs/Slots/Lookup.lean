import ScriptNatives.Slots.Basic

/-!
# What the operations on a pool do to its look-up

A pool is seen through `get?`. For each operation there is one statement of what it does to the
value of every id, and of which ids count as issued afterwards. The ids issued so far can be read
off the slots: they are those of the generations that a slot has left, and the one of its present
generation unless the slot waits to be filled in it.
-/
namespace ScriptNatives.Slots

variable {α : Type} {s t : Slots α}

/-- What holds of a pool at all times. A slot that waits to be filled is empty and waits once. -/
structure WellFormed (s : Slots α) : Prop where
  capacity_le : s.capacity ≤ SlotId.maxSlots
  size_le : s.slots.size ≤ s.capacity
  generation_le : ∀ (i : Nat) (slot : Slot α), s.slots[i]? = some slot →
    slot.generation ≤ SlotId.lastGeneration
  free_nodup : s.free.Nodup
  free_empty : ∀ i ∈ s.free, ∃ g, s.slots[i]? = some ⟨g, none⟩

def Occupied (s : Slots α) (i : Nat) : Prop := ∃ g a, s.slots[i]? = some ⟨g, some a⟩

/-- Whether an id was given out before, be it in use or not. -/
def UsedUp (s : Slots α) (id : SlotId) : Prop :=
  ∃ slot, s.slots[id.slot]? = some slot ∧
    (id.generation < slot.generation ∨ id.generation = slot.generation ∧ id.slot ∉ s.free)

/-- Whether the id that a cell names was given out before. -/
def Issued (s : Slots α) (c : Cell) : Prop := ∃ id, SlotId.ofCell? c = some id ∧ s.UsedUp id

/-- The value in a slot, as long as the slot is in the generation of the id. -/
def valueAt? (s : Slots α) (id : SlotId) : Option α := do
  let slot ← s.slots[id.slot]?
  if slot.generation = id.generation then slot.value else none

theorem valueAt?_eq_some_iff {id : SlotId} {a : α} :
    s.valueAt? id = some a ↔ s.slots[id.slot]? = some ⟨id.generation, some a⟩ := by
  unfold valueAt?
  cases s.slots[id.slot]? with
  | none => simp
  | some slot =>
    obtain ⟨g, value⟩ := slot
    by_cases hg : g = id.generation <;> simp [hg]

theorem find?_eq (s : Slots α) (c : Cell) :
    s.find? c = (SlotId.ofCell? c).bind fun id => (s.valueAt? id).map (id.slot, ·) := by
  unfold find? valueAt?
  cases SlotId.ofCell? c with
  | none => rfl
  | some id =>
    cases hs : s.slots[id.slot]? with
    | none => simp [hs]
    | some slot =>
      obtain ⟨g, value⟩ := slot
      cases value <;> by_cases hg : g = id.generation <;> simp [hs, hg]

theorem get?_eq (s : Slots α) (c : Cell) : s.get? c = (SlotId.ofCell? c).bind s.valueAt? := by
  rw [get?, find?_eq]
  cases SlotId.ofCell? c with
  | none => rfl
  | some id => simp [Option.map_map, Function.comp_def]

theorem find?_eq_none_iff {c : Cell} : s.find? c = none ↔ s.get? c = none := by simp [get?]

theorem contains_eq (s : Slots α) (c : Cell) : s.contains c = (s.get? c).isSome := by
  simp [contains, get?]

/-- An id that names a value was given out, and its slot does not wait to be filled. -/
theorem issued_of_get? (hs : s.WellFormed) {c : Cell} {a : α} (h : s.get? c = some a) :
    s.Issued c := by
  rw [get?_eq] at h
  obtain ⟨id, hc, hv⟩ := Option.bind_eq_some_iff.mp h
  rw [valueAt?_eq_some_iff] at hv
  refine ⟨id, hc, _, hv, Or.inr ⟨rfl, ?_⟩⟩
  intro hf
  obtain ⟨g, he⟩ := hs.free_empty id.slot hf
  simp [hv] at he

theorem wellFormed_ofCapacity (capacity : Nat) : (ofCapacity capacity : Slots α).WellFormed where
  capacity_le := Nat.min_le_right _ _
  size_le := Nat.zero_le _
  generation_le := by simp [ofCapacity]
  free_nodup := List.nodup_nil
  free_empty := by simp [ofCapacity]

theorem not_issued_ofCapacity (capacity : Nat) (c : Cell) :
    ¬ (ofCapacity capacity : Slots α).Issued c := by
  rintro ⟨id, _, slot, h, _⟩
  simp [ofCapacity] at h

/-! ### Filling slots -/

theorem slots_fill (s : Slots α) (i j : Nat) (value : α) :
    (s.fill i value).slots[j]? =
      if i = j then s.slots[j]?.map fun slot => { slot with value := some value }
      else s.slots[j]? := by
  simp [fill, Array.getElem?_modify]

/-- The pool `t` is `s` with one more value, in generation `g` of slot `i`, which was free
or not yet allocated. -/
structure Insertion (s t : Slots α) (i g : Nat) (value : α) : Prop where
  slot_lt : i < s.capacity
  fresh : s.slots[i]? = some ⟨g, none⟩ ∧ i ∈ s.free ∨ s.slots[i]? = none ∧ g = 0
  slots_eq : ∀ j, t.slots[j]? = if i = j then some ⟨g, some value⟩ else s.slots[j]?
  size_le : t.slots.size ≤ s.capacity
  mem_free_iff : ∀ j, j ∈ t.free ↔ j ∈ s.free ∧ j ≠ i
  free_nodup : t.free.Nodup
  capacity_eq : t.capacity = s.capacity

theorem insertion_of_insert? (hs : s.WellFormed) {value : α} {c : Cell}
    (h : s.insert? value = some (c, t)) :
    ∃ i g, c = (SlotId.mk i g).toCell ∧ Insertion s t i g value := by
  unfold insert? at h
  split at h
  · next i free hf =>
    obtain ⟨rfl, rfl⟩ := Prod.mk.inj (Option.some.inj h)
    obtain ⟨g, hg⟩ := hs.free_empty i (by simp [hf])
    have hi : i < s.slots.size := (Array.getElem?_eq_some_iff.mp hg).1
    have hn := hs.free_nodup
    rw [hf, List.nodup_cons] at hn
    refine ⟨i, g, by simp [idAt, hg], ?_⟩
    exact {
      slot_lt := Nat.lt_of_lt_of_le hi hs.size_le
      fresh := Or.inl ⟨hg, by simp [hf]⟩
      slots_eq := by
        intro j
        show (s.fill i value).slots[j]? = _
        rw [slots_fill]
        split
        · next hij => simp [← hij, hg]
        · rfl
      size_le := by simpa [fill] using hs.size_le
      mem_free_iff := by
        intro j
        simp only [hf, List.mem_cons]
        constructor
        · intro hj
          exact ⟨Or.inr hj, fun he => hn.1 (he ▸ hj)⟩
        · rintro ⟨hj | hj, hne⟩
          · exact absurd hj hne
          · exact hj
      free_nodup := hn.2
      capacity_eq := rfl }
  · next hf =>
    split at h
    · next hlt =>
      obtain ⟨rfl, rfl⟩ := Prod.mk.inj (Option.some.inj h)
      refine ⟨s.slots.size, 0, by simp [idAt], ?_⟩
      exact {
        slot_lt := hlt
        fresh := Or.inr ⟨by simp, rfl⟩
        slots_eq := by
          intro j
          simp only [Array.getElem?_push, eq_comm]
        size_le := by
          rw [Array.size_push]
          omega
        mem_free_iff := by simp [hf]
        free_nodup := by simp [hf]
        capacity_eq := rfl }
    · cases h


theorem Insertion.generation_le (hs : s.WellFormed) {i g : Nat} {value : α}
    (hi : Insertion s t i g value) : g ≤ SlotId.lastGeneration := by
  rcases hi.fresh with ⟨hf, _⟩ | ⟨_, rfl⟩
  · exact hs.generation_le i _ hf
  · exact Nat.zero_le _

theorem Insertion.valueAt?_eq {i g : Nat} {value : α} (hi : Insertion s t i g value)
    (id : SlotId) : t.valueAt? id = if id = ⟨i, g⟩ then some value else s.valueAt? id := by
  obtain ⟨j, k⟩ := id
  simp only [valueAt?, hi.slots_eq, SlotId.mk.injEq]
  by_cases hij : i = j
  · subst hij
    by_cases hk : g = k
    · simp [hk]
    · have hk' : ¬ k = g := fun h => hk h.symm
      rcases hi.fresh with ⟨hf, _⟩ | ⟨hf, _⟩ <;> simp [hf, hk, hk']
  · simp [hij, Ne.symm hij]

theorem Insertion.not_usedUp {i g : Nat} {value : α} (hi : Insertion s t i g value) :
    ¬ s.UsedUp ⟨i, g⟩ := by
  rintro ⟨slot, hslot, hused⟩
  rcases hi.fresh with ⟨hf, hfree⟩ | ⟨hf, _⟩
  · obtain rfl : ⟨g, none⟩ = slot := by simpa [hf] using hslot
    rcases hused with hlt | ⟨_, hn⟩
    · exact Nat.lt_irrefl _ hlt
    · exact hn hfree
  · simp [hf] at hslot

theorem Insertion.usedUp_iff {i g : Nat} {value : α} (hi : Insertion s t i g value)
    (id : SlotId) : t.UsedUp id ↔ id = ⟨i, g⟩ ∨ s.UsedUp id := by
  obtain ⟨j, k⟩ := id
  simp only [UsedUp, hi.slots_eq, hi.mem_free_iff, SlotId.mk.injEq]
  by_cases hij : i = j
  · subst hij
    rcases hi.fresh with ⟨hf, hfree⟩ | ⟨hf, rfl⟩
    · simp [hf, hfree]
      omega
    · simp [hf]
  · simp [hij, Ne.symm hij]

theorem Insertion.wellFormed (hs : s.WellFormed) {i g : Nat} {value : α}
    (hi : Insertion s t i g value) : t.WellFormed where
  capacity_le := hi.capacity_eq ▸ hs.capacity_le
  size_le := hi.capacity_eq ▸ hi.size_le
  generation_le := by
    intro j slot h
    rw [hi.slots_eq] at h
    split at h
    · obtain rfl := Option.some.inj h
      exact hi.generation_le hs
    · exact hs.generation_le j slot h
  free_nodup := hi.free_nodup
  free_empty := by
    intro j hj
    obtain ⟨hj, hne⟩ := (hi.mem_free_iff j).mp hj
    rw [hi.slots_eq, if_neg (Ne.symm hne)]
    exact hs.free_empty j hj


/-! ### Clearing slots -/

/-- The pool `t` is `s` without the value in slot `i`, which was in generation `g`. The slot is
free in its next generation, or retired if there is none. -/
structure Removal (s t : Slots α) (i g : Nat) : Prop where
  occupied : ∃ a, s.slots[i]? = some ⟨g, some a⟩
  emptied : t.slots[i]? = some ⟨g + 1, none⟩ ∧ g < SlotId.lastGeneration ∧ t.free = i :: s.free ∨
    t.slots[i]? = some ⟨g, none⟩ ∧ t.free = s.free
  slots_eq : ∀ j, j ≠ i → t.slots[j]? = s.slots[j]?
  size_eq : t.slots.size = s.slots.size
  capacity_eq : t.capacity = s.capacity

theorem removal_clear {i g : Nat} {a : α} (h : s.slots[i]? = some ⟨g, some a⟩) :
    Removal s (s.clear i) i g := by
  have hg : (s.idAt i).generation = g := by simp [idAt, h]
  unfold clear
  rw [hg, SlotId.generationAfter?]
  by_cases hlt : g < SlotId.lastGeneration
  · rw [if_pos hlt]
    exact {
      occupied := ⟨a, h⟩
      emptied := Or.inl ⟨by simp [Array.getElem?_modify, h], hlt, rfl⟩
      slots_eq := fun j hj => by simp [Array.getElem?_modify, Ne.symm hj]
      size_eq := by simp
      capacity_eq := rfl }
  · rw [if_neg hlt]
    exact {
      occupied := ⟨a, h⟩
      emptied := Or.inr ⟨by simp [Array.getElem?_modify, h], rfl⟩
      slots_eq := fun j hj => by simp [Array.getElem?_modify, Ne.symm hj]
      size_eq := by simp
      capacity_eq := rfl }

namespace Removal

variable {i g : Nat}

/-- A slot that holds a value does not wait to be filled. -/
theorem not_mem_free (hs : s.WellFormed) (hr : Removal s t i g) : i ∉ s.free := by
  intro hf
  obtain ⟨a, ha⟩ := hr.occupied
  obtain ⟨g', hg'⟩ := hs.free_empty i hf
  simp [ha] at hg'

/-- Every other slot that holds a value goes on to do so. -/
theorem occupied_of_ne (hr : Removal s t i g) {j : Nat} (hij : j ≠ i) (h : s.Occupied j) :
    t.Occupied j := by
  obtain ⟨k, a, hj⟩ := h
  exact ⟨k, a, by rw [hr.slots_eq j hij, hj]⟩

theorem valueAt?_eq (hr : Removal s t i g) (id : SlotId) :
    t.valueAt? id = if id.slot = i then none else s.valueAt? id := by
  obtain ⟨j, k⟩ := id
  by_cases hij : j = i
  · subst hij
    rcases hr.emptied with ⟨he, _⟩ | ⟨he, _⟩ <;> simp [valueAt?, he]
  · simp [valueAt?, hr.slots_eq j hij, hij]

theorem usedUp_iff (hs : s.WellFormed) (hr : Removal s t i g) (id : SlotId) :
    t.UsedUp id ↔ s.UsedUp id := by
  obtain ⟨j, k⟩ := id
  obtain ⟨a, ha⟩ := hr.occupied
  have hi := hr.not_mem_free hs
  rcases hr.emptied with ⟨he, _, hf⟩ | ⟨he, hf⟩
  · by_cases hij : j = i
    · subst hij
      simp [UsedUp, he, ha, hf, hi]
      omega
    · simp [UsedUp, hr.slots_eq j hij, hf, hij]
  · by_cases hij : j = i
    · subst hij
      simp [UsedUp, he, ha, hf]
    · simp [UsedUp, hr.slots_eq j hij, hf]

theorem wellFormed (hs : s.WellFormed) (hr : Removal s t i g) : t.WellFormed where
  capacity_le := hr.capacity_eq ▸ hs.capacity_le
  size_le := by
    rw [hr.size_eq, hr.capacity_eq]
    exact hs.size_le
  generation_le := by
    intro j slot h
    by_cases hij : j = i
    · subst hij
      obtain ⟨a, ha⟩ := hr.occupied
      rcases hr.emptied with ⟨he, hlt, _⟩ | ⟨he, _⟩
      · obtain rfl : ⟨g + 1, none⟩ = slot := by simpa [he] using h
        exact hlt
      · obtain rfl : ⟨g, none⟩ = slot := by simpa [he] using h
        exact hs.generation_le j ⟨g, some a⟩ ha
    · exact hs.generation_le j slot (hr.slots_eq j hij ▸ h)
  free_nodup := by
    rcases hr.emptied with ⟨_, _, hf⟩ | ⟨_, hf⟩
    · rw [hf]
      exact List.nodup_cons.mpr ⟨hr.not_mem_free hs, hs.free_nodup⟩
    · exact hf ▸ hs.free_nodup
  free_empty := by
    intro j hj
    by_cases hij : j = i
    · subst hij
      rcases hr.emptied with ⟨he, _⟩ | ⟨he, _⟩ <;> exact ⟨_, he⟩
    · rw [hr.slots_eq j hij]
      refine hs.free_empty j ?_
      rcases hr.emptied with ⟨_, _, hf⟩ | ⟨_, hf⟩
      · simpa [hf, hij] using hj
      · exact hf ▸ hj

end Removal

/-- Clearing one occupied slot after the other takes exactly their values away, and gives out
no id. -/
theorem foldl_clear (hs : s.WellFormed) (l : List Nat) (hl : l.Nodup)
    (ho : ∀ i ∈ l, s.Occupied i) :
    (l.foldl clear s).WellFormed ∧ (∀ id, (l.foldl clear s).UsedUp id ↔ s.UsedUp id) ∧
      ∀ id, (l.foldl clear s).valueAt? id = if id.slot ∈ l then none else s.valueAt? id := by
  induction l generalizing s with
  | nil => simp [hs]
  | cons i l ih =>
    rw [List.nodup_cons] at hl
    obtain ⟨g, a, hi⟩ := ho i (by simp)
    have hr := removal_clear hi
    have ho' : ∀ j ∈ l, (s.clear i).Occupied j := fun j hj =>
      hr.occupied_of_ne (fun he => hl.1 (he ▸ hj)) (ho j (by simp [hj]))
    obtain ⟨hwf, hused, hvalue⟩ := ih (hr.wellFormed hs) hl.2 ho'
    refine ⟨hwf, fun id => (hused id).trans (hr.usedUp_iff hs id), ?_⟩
    intro id
    rw [List.foldl_cons, hvalue, hr.valueAt?_eq]
    by_cases hid : id.slot = i <;> simp [hid]


/-- A change at one id is a change at the cell that names it. -/
theorem get?_of_valueAt? {id : SlotId} (hs : id.slot < SlotId.maxSlots)
    (hg : id.generation ≤ SlotId.lastGeneration) {x : Option α}
    (h : ∀ k, t.valueAt? k = if k = id then x else s.valueAt? k) (d : Cell) :
    t.get? d = if d = id.toCell then x else s.get? d := by
  rw [get?_eq, get?_eq]
  by_cases hd : d = id.toCell
  · subst hd
    simp [(SlotId.ofCell?_toCell hs hg).2, h]
  · rw [if_neg hd]
    cases hk : SlotId.ofCell? d with
    | none => rfl
    | some k =>
      have hne : k ≠ id := by
        rintro rfl
        exact hd (SlotId.toCell_of_ofCell? hk).2.2.symm
      simp [h, hne]

/-- A slot that holds a value goes by an id that is read back from its cell and names the value. -/
theorem WellFormed.named (hs : s.WellFormed) {i g : Nat} {a : α}
    (h : s.slots[i]? = some ⟨g, some a⟩) : i < SlotId.maxSlots ∧ g ≤ SlotId.lastGeneration ∧
      s.get? (SlotId.mk i g).toCell = some a := by
  have hsize : i < s.slots.size := (Array.getElem?_eq_some_iff.mp h).1
  have hslot : i < SlotId.maxSlots :=
    Nat.lt_of_lt_of_le hsize (Nat.le_trans hs.size_le hs.capacity_le)
  have hgen : g ≤ SlotId.lastGeneration := hs.generation_le i _ h
  refine ⟨hslot, hgen, ?_⟩
  rw [get?_eq, (SlotId.ofCell?_toCell (show (SlotId.mk i g).slot < _ from hslot) hgen).2]
  exact valueAt?_eq_some_iff.mpr h

/-- A removal takes the value away under the id that its slot went by, and leaves every other id
alone. -/
theorem Removal.get?_eq (hs : s.WellFormed) {i g : Nat} (hr : Removal s t i g) (d : Cell) :
    t.get? d = if d = (SlotId.mk i g).toCell then none else s.get? d := by
  obtain ⟨a, hi⟩ := hr.occupied
  obtain ⟨hslot, hgen, _⟩ := hs.named hi
  refine get?_of_valueAt? hslot hgen (fun id => ?_) d
  obtain ⟨j, k⟩ := id
  rw [hr.valueAt?_eq]
  simp only [SlotId.mk.injEq]
  by_cases hij : j = i
  · subst hij
    by_cases hk : k = g
    · simp [hk]
    · simp [hk, valueAt?, hi, Ne.symm hk]
  · simp [hij]

theorem issued_congr (h : ∀ id, t.UsedUp id ↔ s.UsedUp id) (d : Cell) :
    t.Issued d ↔ s.Issued d := by
  simp only [Issued, h]

/-! ### What each operation does, cell by cell -/

/-- A value that comes in gets a positive id that was never given out before. It adds the value
to the look-up under this id and leaves every other id alone. -/
theorem insert?_spec (hs : s.WellFormed) {value : α} {c : Cell}
    (h : s.insert? value = some (c, t)) :
    t.WellFormed ∧ 0 < c.toInt ∧ ¬ s.Issued c ∧ (∀ d, t.Issued d ↔ d = c ∨ s.Issued d) ∧
      ∀ d, t.get? d = if d = c then some value else s.get? d := by
  obtain ⟨i, g, rfl, hi⟩ := insertion_of_insert? hs h
  have hlt : i < SlotId.maxSlots := Nat.lt_of_lt_of_le hi.slot_lt hs.capacity_le
  have hle := hi.generation_le hs
  have hc := SlotId.ofCell?_toCell (show (SlotId.mk i g).slot < SlotId.maxSlots from hlt) hle
  refine ⟨hi.wellFormed hs, hc.1, ?_, ?_, get?_of_valueAt? hlt hle hi.valueAt?_eq⟩
  · rintro ⟨id, hid, hused⟩
    obtain rfl : (⟨i, g⟩ : SlotId) = id := by simpa [hc.2] using hid
    exact hi.not_usedUp hused
  · intro d
    simp only [Issued, hi.usedUp_iff]
    constructor
    · rintro ⟨id, hid, rfl | hused⟩
      · exact Or.inl (SlotId.toCell_of_ofCell? hid).2.2.symm
      · exact Or.inr ⟨id, hid, hused⟩
    · rintro (rfl | ⟨id, hid, hused⟩)
      · exact ⟨_, hc.2, Or.inl rfl⟩
      · exact ⟨id, hid, Or.inr hused⟩

theorem find?_eq_some_iff {c : Cell} {i : Nat} {a : α} :
    s.find? c = some (i, a) ↔
      ∃ g, SlotId.ofCell? c = some ⟨i, g⟩ ∧ s.slots[i]? = some ⟨g, some a⟩ := by
  rw [find?_eq]
  constructor
  · intro h
    obtain ⟨id, hc, hv⟩ := Option.bind_eq_some_iff.mp h
    obtain ⟨b, hb, he⟩ := Option.map_eq_some_iff.mp hv
    obtain ⟨rfl, rfl⟩ := Prod.mk.inj he
    exact ⟨id.generation, hc, valueAt?_eq_some_iff.mp hb⟩
  · rintro ⟨g, hc, hv⟩
    simp [hc, valueAt?_eq_some_iff.mpr (show s.slots[(SlotId.mk i g).slot]? = _ from hv)]

theorem valueAt?_fill {i g : Nat} {a : α} (h : s.slots[i]? = some ⟨g, some a⟩) (value : α)
    (id : SlotId) :
    (s.fill i value).valueAt? id = if id = ⟨i, g⟩ then some value else s.valueAt? id := by
  obtain ⟨j, k⟩ := id
  simp only [valueAt?, slots_fill, SlotId.mk.injEq]
  by_cases hij : i = j
  · subst hij
    by_cases hk : g = k
    · simp [h, hk]
    · simp [h, hk, Ne.symm hk]
  · simp [hij, Ne.symm hij]

theorem usedUp_fill (i : Nat) (value : α) (id : SlotId) :
    (s.fill i value).UsedUp id ↔ s.UsedUp id := by
  have hfree : (s.fill i value).free = s.free := rfl
  simp only [UsedUp, slots_fill, hfree]
  by_cases hi : i = id.slot
  · simp only [hi, if_true, Option.map_eq_some_iff]
    constructor
    · rintro ⟨_, ⟨slot, hslot, rfl⟩, hused⟩
      exact ⟨slot, hslot, hused⟩
    · rintro ⟨slot, hslot, hused⟩
      exact ⟨_, ⟨slot, hslot, rfl⟩, hused⟩
  · simp only [hi, if_false]

theorem wellFormed_fill (hs : s.WellFormed) {i g : Nat} {a : α}
    (h : s.slots[i]? = some ⟨g, some a⟩) (value : α) : (s.fill i value).WellFormed where
  capacity_le := hs.capacity_le
  size_le := by simpa [fill] using hs.size_le
  generation_le := by
    intro j slot hj
    rw [slots_fill] at hj
    split at hj
    · obtain ⟨before, hb, rfl⟩ := Option.map_eq_some_iff.mp hj
      exact hs.generation_le j before hb
    · exact hs.generation_le j slot hj
  free_nodup := hs.free_nodup
  free_empty := by
    intro j hj
    obtain ⟨k, hk⟩ := hs.free_empty j hj
    have hij : i ≠ j := by
      rintro rfl
      simp [h] at hk
    exact ⟨k, by rw [slots_fill, if_neg hij, hk]⟩

/-- A value put in the place of another changes the look-up of its id only. An id that names
nothing cannot be given a value. -/
theorem set_spec (hs : s.WellFormed) (c : Cell) (value : α) :
    (s.set c value).WellFormed ∧ (∀ d, (s.set c value).Issued d ↔ s.Issued d) ∧
      ∀ d, (s.set c value).get? d = if d = c then (s.get? c).map fun _ => value else s.get? d := by
  cases hf : s.find? c with
  | none =>
    have hc : s.get? c = none := find?_eq_none_iff.mp hf
    have he : s.set c value = s := by simp [set, hf]
    rw [he, hc]
    refine ⟨hs, fun _ => Iff.rfl, fun d => ?_⟩
    by_cases hd : d = c
    · rw [if_pos hd, hd, hc]
      rfl
    · rw [if_neg hd]
  | some found =>
    obtain ⟨i, a⟩ := found
    obtain ⟨g, hc, hi⟩ := find?_eq_some_iff.mp hf
    obtain ⟨hslot, hgen, he⟩ := SlotId.toCell_of_ofCell? hc
    have hget : (s.get? c).map (fun _ => value) = some value := by simp [get?, hf]
    have hset : s.set c value = s.fill i value := by simp [set, hf]
    rw [hset, hget, ← he]
    exact ⟨wellFormed_fill hs hi value, issued_congr (usedUp_fill i value),
      get?_of_valueAt? hslot hgen (valueAt?_fill hi value)⟩

/-- A removal clears the slot that the id names, which holds the value. -/
theorem remove?_eq_some {c : Cell} {a : α} (h : s.remove? c = some (a, t)) :
    ∃ i g, s.slots[i]? = some ⟨g, some a⟩ ∧ (SlotId.mk i g).toCell = c ∧ t = s.clear i := by
  obtain ⟨⟨i, b⟩, hf, he⟩ := Option.map_eq_some_iff.mp h
  obtain ⟨rfl, rfl⟩ := Prod.mk.inj he
  obtain ⟨g, hc, hi⟩ := find?_eq_some_iff.mp hf
  exact ⟨i, g, hi, (SlotId.toCell_of_ofCell? hc).2.2, rfl⟩

/-- A value that is removed leaves the look-up under its id, and every other id alone. -/
theorem remove?_spec (hs : s.WellFormed) {c : Cell} {a : α} (h : s.remove? c = some (a, t)) :
    t.WellFormed ∧ s.get? c = some a ∧ (∀ d, t.Issued d ↔ s.Issued d) ∧
      ∀ d, t.get? d = if d = c then none else s.get? d := by
  obtain ⟨i, g, hi, rfl, rfl⟩ := remove?_eq_some h
  have hr := removal_clear hi
  exact ⟨hr.wellFormed hs, (hs.named hi).2.2, issued_congr (hr.usedUp_iff hs), hr.get?_eq hs⟩

theorem remove?_eq_none_iff {c : Cell} : s.remove? c = none ↔ s.get? c = none := by
  simp [remove?, get?]

theorem mem_failing_iff {keep : α → Bool} {i g : Nat} {a : α}
    (h : s.slots[i]? = some ⟨g, some a⟩) : i ∈ s.failing keep ↔ keep a = false := by
  have hi : i < s.slots.size := (Array.getElem?_eq_some_iff.mp h).1
  simp only [failing, List.mem_filter, List.mem_range, h]
  simp [hi]

theorem occupied_of_mem_failing {keep : α → Bool} {i : Nat} (h : i ∈ s.failing keep) :
    s.Occupied i := by
  simp only [failing, List.mem_filter] at h
  cases hi : s.slots[i]? with
  | none => simp [hi] at h
  | some slot =>
    obtain ⟨g, value⟩ := slot
    cases value with
    | none => simp [hi] at h
    | some a => exact ⟨g, a, hi⟩

/-- A filter leaves the look-up of the values it keeps and takes the others away. -/
theorem filter_spec (hs : s.WellFormed) (keep : α → Bool) :
    (s.filter keep).2.WellFormed ∧ (∀ d, (s.filter keep).2.Issued d ↔ s.Issued d) ∧
      ∀ d, (s.filter keep).2.get? d = (s.get? d).filter keep := by
  have hl : (s.failing keep).Nodup := List.nodup_range.filter _
  obtain ⟨hwf, hused, hvalue⟩ := foldl_clear hs _ hl fun i => occupied_of_mem_failing
  refine ⟨hwf, issued_congr hused, fun d => ?_⟩
  rw [get?_eq, get?_eq]
  cases SlotId.ofCell? d with
  | none => rfl
  | some id =>
    show ((s.failing keep).foldl clear s).valueAt? id = (s.valueAt? id).filter keep
    rw [hvalue]
    cases hv : s.valueAt? id with
    | none => simp
    | some a =>
      have hi := valueAt?_eq_some_iff.mp hv
      cases hk : keep a <;> simp [mem_failing_iff hi, hk, Option.filter]

end ScriptNatives.Slots
