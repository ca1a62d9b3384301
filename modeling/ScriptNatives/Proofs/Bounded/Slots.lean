import ScriptNatives.Proofs.Bounded.Machine
import ScriptNatives.Proofs.Slots.Accounts

/-!
# Pools with bounded numbers

The operations on a pool, carried out by a program that looks a slot up by its position, counts in
words and takes a value out of a slot only if there is one. In a pool that is in order, as every
pool is that was once empty, none of this traps: a free slot is a slot, an id that names a value
leads to a slot that holds it, no slot is emptied twice in one go, and the counts add up.
-/
namespace ScriptNatives.Bounded

variable {α : Type} {s : Slots α} {i g : Nat} {a value : α}

theorem count_pred {n : Nat} (hpos : 0 < n) (hhigh : n ≤ 0xFFFFFFFF) :
    count (n - 1) = .ok (n - 1) := by
  rw [← count_eq (n - 1) (by omega)]
  congr 1
  omega

/-! ### One slot -/

/-- Slot `i`, which has to be there. -/
def slotAt (s : Slots α) (i : Nat) : Trapping (Slot α) := item s.slots.toList i

/-- Puts a value into slot `i`, and returns the cell that names it. -/
def place (s : Slots α) (i : Nat) (value : α) : Trapping (Cell × Slots α) := do
  let slot ← slotAt s i
  let live ← count (s.live + 1)
  if i < SlotId.maxSlots then
    return ((SlotId.mk i slot.generation).toCell, { s.fill i value with live })
  else
    .error (.unnamedSlot i)

def vacate (s : Slots α) (i : Nat) : Trapping (α × Slots α) := do
  let slot ← slotAt s i
  match slot.value with
  | none => .error (.emptySlot i)
  | some value =>
    let live ← count (s.live - 1)
    match SlotId.generationAfter? slot.generation with
    | some generation =>
      return (value, { s with
        slots := s.slots.modify i fun _ => ⟨generation, none⟩
        free := i :: s.free
        live })
    | none =>
      let retired ← count (s.retired + 1)
      return (value, { s with
        slots := s.slots.modify i fun slot => { slot with value := none }
        live
        retired })

theorem slotAt_eq {slot : Slot α} (hi : s.slots[i]? = some slot) : slotAt s i = .ok slot :=
  item_eq (by simpa using hi)

theorem place_eq {slot : Slot α} (hi : s.slots[i]? = some slot) (hlive : s.live ≤ SlotId.maxSlots)
    (hslot : i < SlotId.maxSlots) (value : α) : place s i value =
      .ok ((SlotId.mk i slot.generation).toCell,
        { s.fill i value with live := s.live + 1 }) := by
  have hcount : count (s.live + 1) = .ok (s.live + 1) :=
    count_eq (s.live + 1) (Nat.le_trans (Nat.succ_le_succ hlive) (by decide))
  rw [place, slotAt_eq hi, ok_bind, hcount, ok_bind, if_pos hslot]
  rfl

theorem vacate_eq (hs : s.InOrder) (hi : s.slots[i]? = some ⟨g, some a⟩) :
    vacate s i = .ok (a, s.clear i) := by
  have hsize := hs.slots_size_le
  have hmax : SlotId.maxSlots = 0xFFFFF := rfl
  have hlive : count (s.live - 1) = .ok (s.live - 1) := by
    have hle := hs.live_le
    exact count_pred (hs.live_pos hi) (by omega)
  have hretired : count (s.retired + 1) = .ok (s.retired + 1) := by
    have hle := hs.retired_le
    exact count_eq (s.retired + 1) (by omega)
  have hgeneration : (s.idAt i).generation = g := by simp [Slots.idAt, hi]
  simp only [vacate, slotAt_eq hi, ok_bind, hlive, hretired, Slots.clear, hgeneration]
  cases SlotId.generationAfter? g <;> rfl

/-- A slot that holds no value traps. -/
example : vacate { capacity := 1, slots := #[(⟨0, none⟩ : Slot Nat)] } 0 = .error (.emptySlot 0) :=
  rfl

/-! ### The operations on a pool -/

def insert? (s : Slots α) (value : α) : Search (Cell × Slots α) := do
  match s.free with
  | i :: free => place { s with free } i value
  | [] =>
    if s.slots.size < s.capacity then
      let slots := s.slots.push ⟨0, none⟩
      let last ← count (slots.size - 1)
      place { s with slots } last value
    else
      failure

def locate? (s : Slots α) (c : Cell) : Search Nat := calm? ((s.find? c).map (·.1))

def get? (s : Slots α) (c : Cell) : Search α := do
  let i ← locate? s c
  let slot ← slotAt s i
  calm? slot.value

def remove? (s : Slots α) (c : Cell) : Search (α × Slots α) := do
  let i ← locate? s c
  vacate s i

def filter (s : Slots α) (keep : α → Bool) : Trapping (Nat × Slots α) := do
  let s' ← (s.failing keep).foldlM (fun s i => (·.2) <$> vacate s i) s
  return ((s.failing keep).length, s')

theorem modify_push (l : Array α) (a : α) (f : α → α) :
    (l.push a).modify l.size f = l.push (f a) := by
  refine Array.ext_getElem? fun j => ?_
  rw [Array.getElem?_modify, Array.getElem?_push, Array.getElem?_push]
  by_cases hj : j = l.size
  · subst hj
    simp
  · simp [hj, Ne.symm hj]

theorem insert?_eq (hs : s.InOrder) (value : α) :
    insert? s value = calm? (s.insert? value) := by
  have hlive := Nat.le_trans hs.live_le hs.slots_size_le
  cases hfree : s.free with
  | cons i free =>
    obtain ⟨g, hg⟩ := hs.wellFormed.free_empty i (by simp [hfree])
    have hslot : i < SlotId.maxSlots :=
      Nat.lt_of_lt_of_le (Array.getElem?_eq_some_iff.mp hg).1 hs.slots_size_le
    simp only [insert?, Slots.insert?, hfree, place_eq (s := { s with free }) hg hlive hslot,
      Slots.idAt, hg]
    rfl
  | nil =>
    simp only [insert?, Slots.insert?, hfree]
    split
    · next hsize =>
      have hslot : s.slots.size < SlotId.maxSlots :=
        Nat.lt_of_lt_of_le hsize hs.wellFormed.capacity_le
      have hmax : SlotId.maxSlots = 0xFFFFF := rfl
      have hlast : count ((s.slots.push ⟨0, none⟩).size - 1) = .ok s.slots.size := by
        rw [Array.size_push]
        exact count_pred (Nat.succ_pos _) (by omega)
      have hnew : (s.slots.push ⟨0, none⟩)[s.slots.size]? = some ⟨0, none⟩ := by simp
      have hplace := place_eq (s := { s with slots := s.slots.push ⟨0, none⟩ }) hnew hlive hslot
        value
      simp only [hfree, Slots.fill, modify_push] at hplace
      simp only [hlast, lift_ok_bind, hplace, Slots.idAt, Array.getElem?_eq_none (Nat.le_refl _)]
      rfl
    · rfl

theorem get?_eq (s : Slots α) (c : Cell) : get? s c = calm? (s.get? c) := by
  unfold get? locate? Slots.get?
  cases hfind : s.find? c with
  | none => rfl
  | some found =>
    obtain ⟨i, a⟩ := found
    obtain ⟨g, _, hi⟩ := Slots.find?_eq_some_iff.mp hfind
    simp [slotAt_eq hi]

theorem remove?_eq (hs : s.InOrder) (c : Cell) : remove? s c = calm? (s.remove? c) := by
  unfold remove? locate? Slots.remove?
  cases hfind : s.find? c with
  | none => rfl
  | some found =>
    obtain ⟨i, a⟩ := found
    obtain ⟨g, _, hi⟩ := Slots.find?_eq_some_iff.mp hfind
    simp [vacate_eq hs hi]
    rfl

/-- The slots that fail are emptied one after the other. Each is named once, so it still holds its
value when its turn comes. -/
theorem foldlM_vacate (hs : s.InOrder) (l : List Nat) (hl : l.Nodup) (ho : ∀ i ∈ l, s.Occupied i) :
    l.foldlM (fun s i => (·.2) <$> vacate s i) s = .ok (l.foldl Slots.clear s) := by
  induction l generalizing s with
  | nil => rfl
  | cons i l ih =>
    rw [List.nodup_cons] at hl
    obtain ⟨g, a, hi⟩ := ho i List.mem_cons_self
    rw [List.foldlM_cons, vacate_eq hs hi, List.foldl_cons]
    refine ih (hs.clear hi) hl.2 fun j hj => ?_
    exact (Slots.removal_clear hi).occupied_of_ne (fun he => hl.1 (he ▸ hj))
      (ho j (List.mem_cons_of_mem _ hj))

theorem filter_eq (hs : s.InOrder) (keep : α → Bool) : filter s keep = .ok (s.filter keep) := by
  have hnodup : (s.failing keep).Nodup := List.nodup_range.filter _
  rw [filter, foldlM_vacate hs _ hnodup fun i => Slots.occupied_of_mem_failing]
  rfl

end ScriptNatives.Bounded
