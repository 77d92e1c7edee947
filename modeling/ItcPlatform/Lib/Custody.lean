import Mathlib.Data.Multiset.AddSub
import Mathlib.Data.Multiset.Count

/-! Resources in the custody of one holder, each to be released once. -/

variable {α : Type*}

/-- `stray` is set by a release of what is not held. -/
structure Custody (α : Type*) where
  held : Multiset α
  stray : Bool

namespace Custody

def empty : Custody α := ⟨0, false⟩

def acquire (c : Custody α) (x : α) : Custody α := { c with held := x ::ₘ c.held }

def release [DecidableEq α] (c : Custody α) (x : α) : Custody α :=
  if x ∈ c.held then { c with held := c.held.erase x } else { c with stray := true }

def due (p : α → Prop) [DecidablePred p] (c : Custody α) : ℕ := c.held.countP p

/-- Every resource of the kind is back, and nothing was released twice. -/
def Settled (p : α → Prop) [DecidablePred p] (c : Custody α) : Prop :=
  c.due p = 0 ∧ c.stray = false

section
variable (p : α → Prop) [DecidablePred p]

@[simp] theorem held_empty : (empty : Custody α).held = 0 := rfl

@[simp] theorem due_empty : (empty : Custody α).due p = 0 := rfl

@[simp] theorem held_acquire (c : Custody α) (x : α) : (c.acquire x).held = x ::ₘ c.held := rfl

@[simp] theorem due_acquire (c : Custody α) (x : α) :
    (c.acquire x).due p = c.due p + if p x then 1 else 0 :=
  Multiset.countP_cons p x c.held

variable [DecidableEq α]

@[simp] theorem release_acquire (c : Custody α) (x : α) : (c.acquire x).release x = c := by
  simp [release, acquire]

theorem release_of_notMem {c : Custody α} {x : α} (h : x ∉ c.held) :
    c.release x = { c with stray := true } := if_neg h

theorem release_of_cons {c : Custody α} {x : α} {rest : Multiset α} (h : c.held = x ::ₘ rest) :
    c.release x = { c with held := rest } := by
  simp [release, h]

@[simp] theorem held_release (c : Custody α) (x : α) : (c.release x).held = c.held.erase x := by
  unfold release
  split
  · rfl
  · next h => exact (Multiset.erase_of_notMem h).symm

theorem notMem_release {c : Custody α} {x : α} (h : x ∉ c.held) (y : α) :
    x ∉ (c.release y).held := by
  rw [held_release]
  exact fun hx => h (Multiset.mem_of_mem_erase hx)

theorem due_release_le (c : Custody α) (x : α) : c.due p ≤ (c.release x).due p + 1 := by
  change c.held.countP p ≤ (c.release x).held.countP p + 1
  rw [held_release]
  by_cases h : x ∈ c.held
  · conv_lhs => rw [← Multiset.cons_erase h, Multiset.countP_cons]
    split <;> omega
  · rw [Multiset.erase_of_notMem h]
    omega

theorem due_release_of_not (c : Custody α) {x : α} (hx : ¬p x) : (c.release x).due p = c.due p := by
  change (c.release x).held.countP p = c.held.countP p
  rw [held_release]
  by_cases h : x ∈ c.held
  · conv_rhs => rw [← Multiset.cons_erase h, Multiset.countP_cons_of_neg _ hx]
  · rw [Multiset.erase_of_notMem h]

end

end Custody
