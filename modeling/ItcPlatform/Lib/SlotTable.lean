import Mathlib.Data.Fin.Basic

/-! A table of `n` places. An object stays where it is when its place is given free, so what is
registered is not the same as what the places hold. -/

namespace ItcPlatform

structure SlotTable (n : ℕ) (α : Type*) where
  objects : Fin n → α
  isActive : Fin n → Bool

namespace SlotTable
variable {n : ℕ} {α : Type*} (t : SlotTable n α) {t' : SlotTable n α} {i : Fin n} {a : α}

def entry (i : Fin n) : Option α := if t.isActive i then some (t.objects i) else none

/-- A new object at the place proposed for it, if there is one and it is free. -/
def emplace (place : Option (Fin n)) (a : α) : Option (SlotTable n α × Fin n) :=
  place.bind fun i =>
    if t.isActive i then none
    else some (⟨Function.update t.objects i a, Function.update t.isActive i true⟩, i)

def modify (i : Fin n) (f : α → α) : SlotTable n α :=
  { t with objects := Function.update t.objects i (f (t.objects i)) }

/-- `clear` is what is left of the object at a place that is given free. -/
def remove (clear : α → α) (index : ℕ) : SlotTable n α :=
  if h : index < n then
    if t.isActive ⟨index, h⟩ then
      ⟨Function.update t.objects ⟨index, h⟩ (clear (t.objects ⟨index, h⟩)),
        Function.update t.isActive ⟨index, h⟩ false⟩
    else t
  else t

variable {t}

theorem entry_eq_none_iff : t.entry i = none ↔ t.isActive i = false := by
  unfold entry
  split_ifs with h
  · simp [h]
  · simp [h]

theorem emplace_eq_some_iff {place : Option (Fin n)} : t.emplace place a = some (t', i) ↔
    place = some i ∧ t.entry i = none ∧
      t' = ⟨Function.update t.objects i a, Function.update t.isActive i true⟩ := by
  rw [emplace, Option.bind_eq_some_iff, entry_eq_none_iff]
  constructor
  · rintro ⟨j, rfl, h⟩
    split_ifs at h with hactive
    cases h
    exact ⟨rfl, by simpa using hactive, rfl⟩
  · rintro ⟨rfl, hfree, rfl⟩
    exact ⟨i, rfl, by simp [hfree]⟩

theorem emplace_eq_none_iff {place : Option (Fin n)} :
    t.emplace place a = none ↔ ∀ i ∈ place, t.entry i ≠ none := by
  cases place with
  | none => simp [emplace]
  | some i => simp [emplace, entry_eq_none_iff]

theorem entry_emplaced : entry ⟨Function.update t.objects i a, Function.update t.isActive i true⟩ =
    Function.update t.entry i (some a) := by
  funext j
  by_cases h : j = i
  · subst h
    simp [entry]
  · simp [entry, h]

theorem entry_remove (clear : α → α) (i : Fin n) :
    (t.remove clear i).entry = Function.update t.entry i none := by
  unfold remove
  rw [dif_pos i.isLt]
  split_ifs with hactive
  · funext j
    by_cases h : j = i
    · subst h
      simp [entry]
    · simp [entry, h]
  · have hfree : t.entry i = none := entry_eq_none_iff.mpr (by simpa using hactive)
    exact (Function.update_eq_self_iff.mpr hfree.symm).symm

theorem remove_of_le (clear : α → α) {index : ℕ} (h : n ≤ index) : t.remove clear index = t :=
  dif_neg (Nat.not_lt.mpr h)

theorem objects_remove_of_ne (clear : α → α) {index : ℕ} (h : (i : ℕ) ≠ index) :
    (t.remove clear index).objects i = t.objects i := by
  have hne (hlt : index < n) : i ≠ ⟨index, hlt⟩ := fun heq => h (congrArg Fin.val heq)
  unfold remove
  split_ifs with hlt
  · exact Function.update_of_ne (hne hlt) _ _
  · rfl
  · rfl

theorem entry_remove_eq_iff (clear : α → α) (index : ℕ) :
    (t.remove clear index).entry = t.entry ↔ ∀ i : Fin n, (i : ℕ) = index → t.entry i = none := by
  by_cases h : index < n
  · rw [show index = ((⟨index, h⟩ : Fin n) : ℕ) from rfl, entry_remove, Function.update_eq_self_iff]
    refine ⟨fun hnone i hi => ?_, fun hall => (hall _ rfl).symm⟩
    rw [Fin.ext hi, ← hnone]
  · rw [remove_of_le clear (Nat.le_of_not_lt h)]
    exact iff_of_true rfl fun i hi => absurd (hi ▸ i.isLt) h

theorem entry_remove_emplaced_iff (clear : α → α) {index : ℕ} (hfree : t.entry i = none)
    (h : t'.entry = Function.update t.entry i (some a)) :
    (t'.remove clear index).entry = t.entry ↔ index = i := by
  constructor
  · intro heq
    by_contra hne
    have hkept : (t'.remove clear index).entry i = t'.entry i := by
      by_cases hlt : index < n
      · have hi : i ≠ ⟨index, hlt⟩ := fun h => hne (congrArg Fin.val h).symm
        rw [show index = ((⟨index, hlt⟩ : Fin n) : ℕ) from rfl, entry_remove,
          Function.update_of_ne hi]
      · rw [remove_of_le clear (Nat.le_of_not_lt hlt)]
    rw [heq, hfree, h, Function.update_self] at hkept
    cases hkept
  · rintro rfl
    rw [entry_remove, h, Function.update_idem]
    exact Function.update_eq_self_iff.mpr hfree.symm

/-- Every owner of a place has one of its own, and what is registered has an owner. -/
structure Tenants {ι : Type*} (t : SlotTable n α) (owns : ι → Option (Fin n)) : Prop where
  registered : ∀ o i, owns o = some i → t.entry i ≠ none
  owned : ∀ i, t.entry i ≠ none → ∃ o, owns o = some i
  apart : ∀ o o' i, owns o = some i → owns o' = some i → o = o'

namespace Tenants
variable {ι : Type*} [DecidableEq ι] {owns : ι → Option (Fin n)} {o : ι}

theorem enter (h : t.Tenants owns) (ho : owns o = none) (hfree : t.entry i = none)
    (ht : t'.entry = Function.update t.entry i (some a)) :
    t'.Tenants (Function.update owns o (some i)) := by
  have hother (o' : ι) (j : Fin n) (hj : owns o' = some j) : j ≠ i := by
    rintro rfl
    exact h.registered o' j hj hfree
  refine ⟨fun o' j hj => ?_, fun j hj => ?_, fun o₁ o₂ j h₁ h₂ => ?_⟩
  · rw [ht]
    by_cases ho' : o' = o
    · subst ho'
      obtain rfl : i = j := by simpa using hj
      simp
    · rw [Function.update_of_ne ho'] at hj
      rw [Function.update_of_ne (hother o' j hj)]
      exact h.registered o' j hj
  · by_cases hji : j = i
    · exact ⟨o, by rw [Function.update_self, hji]⟩
    · rw [ht, Function.update_of_ne hji] at hj
      obtain ⟨o', ho'⟩ := h.owned j hj
      have hne : o' ≠ o := fun heq => by simp [heq, ho] at ho'
      exact ⟨o', by rwa [Function.update_of_ne hne]⟩
  · by_cases h₁o : o₁ = o <;> by_cases h₂o : o₂ = o
    · exact h₁o.trans h₂o.symm
    · subst h₁o
      rw [Function.update_of_ne h₂o] at h₂
      exact absurd (by simpa using h₁.symm) (hother o₂ j h₂)
    · subst h₂o
      rw [Function.update_of_ne h₁o] at h₁
      exact absurd (by simpa using h₂.symm) (hother o₁ j h₁)
    · rw [Function.update_of_ne h₁o] at h₁
      rw [Function.update_of_ne h₂o] at h₂
      exact h.apart o₁ o₂ j h₁ h₂

theorem leave (h : t.Tenants owns) (ho : owns o = some i)
    (ht : t'.entry = Function.update t.entry i none) :
    t'.Tenants (Function.update owns o none) := by
  have hothers (o' : ι) (j : Fin n) (hj : Function.update owns o none o' = some j) :
      owns o' = some j ∧ j ≠ i := by
    have hne : o' ≠ o := by
      rintro rfl
      simp at hj
    rw [Function.update_of_ne hne] at hj
    refine ⟨hj, ?_⟩
    rintro rfl
    exact hne (h.apart o' o j hj ho)
  refine ⟨fun o' j hj => ?_, fun j hj => ?_, fun o₁ o₂ j h₁ h₂ => ?_⟩
  · obtain ⟨hj, hne⟩ := hothers o' j hj
    rw [ht, Function.update_of_ne hne]
    exact h.registered o' j hj
  · have hne : j ≠ i := by
      rintro rfl
      simp [ht] at hj
    rw [ht, Function.update_of_ne hne] at hj
    obtain ⟨o', ho'⟩ := h.owned j hj
    have ho'o : o' ≠ o := by
      rintro rfl
      exact hne (Option.some.inj (ho'.symm.trans ho))
    exact ⟨o', by rwa [Function.update_of_ne ho'o]⟩
  · exact h.apart o₁ o₂ j (hothers o₁ j h₁).1 (hothers o₂ j h₂).1

end Tenants

end SlotTable

end ItcPlatform
