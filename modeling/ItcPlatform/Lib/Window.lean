import Mathlib.Data.List.Basic
import Mathlib.Logic.Function.Basic
import Mathlib.Tactic.TypeStar

/-! A window of elements laid out over cells. The `k`-th element ever written goes to the cell
`addr k`, for an address function that may come back to a cell at any time; a cell is written
only while it is free, and the elements are read in the order they were written. -/

variable {S E : Type*}

/-- The elements `l` lie in their cells from address `r` on, and all other cells are free. -/
structure Window (addr : ℕ → S) (nil : E) (cells : S → E) (r : ℕ) (l : List E) : Prop where
  holds : ∀ k e, l[k]? = some e → cells (addr (r + k)) = e
  proper : ∀ e ∈ l, e ≠ nil
  distinct : ∀ j k, j < k → k < l.length → addr (r + j) ≠ addr (r + k)
  free : ∀ s, (∀ k < l.length, addr (r + k) ≠ s) → cells s = nil

namespace Window
variable {addr : ℕ → S} {nil : E} {cells : S → E} {r : ℕ} {l : List E}

theorem empty (hfree : ∀ s, cells s = nil) : Window addr nil cells r [] :=
  ⟨fun _ _ h => by simp at h, fun _ h => absurd h List.not_mem_nil,
    fun _ _ _ h => absurd h (Nat.not_lt_zero _), fun s _ => hfree s⟩

theorem first_eq_nil_iff (h : Window addr nil cells r l) : cells (addr r) = nil ↔ l = [] := by
  constructor
  · intro hnil
    cases l with
    | nil => rfl
    | cons e rest =>
      have he := h.holds 0 e rfl
      exact absurd (he.symm.trans hnil) (h.proper e List.mem_cons_self)
  · rintro rfl
    exact h.free _ fun _ hk => absurd hk (Nat.not_lt_zero _)

variable [DecidableEq S]

theorem write (h : Window addr nil cells r l) {e : E} (hfree : cells (addr (r + l.length)) = nil)
    (he : e ≠ nil) :
    Window addr nil (Function.update cells (addr (r + l.length)) e) r (l ++ [e]) := by
  have hne : ∀ k < l.length, addr (r + k) ≠ addr (r + l.length) := fun k hk heq => by
    have hk' := h.holds k l[k] (List.getElem?_eq_getElem hk)
    rw [heq, hfree] at hk'
    exact h.proper _ (List.getElem_mem hk) hk'.symm
  refine ⟨fun k x hx => ?_, fun x hx => ?_, fun j k hjk hk => ?_, fun s hs => ?_⟩
  · rcases Nat.lt_trichotomy k l.length with hk | rfl | hk
    · rw [List.getElem?_append_left hk] at hx
      rw [Function.update_of_ne (hne k hk), h.holds k x hx]
    · obtain rfl : e = x := by simpa using hx
      exact Function.update_self _ _ _
    · rw [List.getElem?_eq_none (by simp; omega)] at hx
      cases hx
  · rcases List.mem_append.mp hx with hx | hx
    · exact h.proper x hx
    · rw [List.mem_singleton.mp hx]
      exact he
  · rw [List.length_append, List.length_singleton] at hk
    rcases Nat.lt_or_ge k l.length with hlt | hge
    · exact h.distinct j k hjk hlt
    · obtain rfl : k = l.length := by omega
      exact hne j hjk
  · simp only [List.length_append, List.length_singleton] at hs
    rw [Function.update_of_ne (hs l.length (by omega)).symm]
    exact h.free s fun k hk => hs k (by omega)

theorem read (h : Window addr nil cells r l) (hfull : cells (addr r) ≠ nil) :
    ∃ rest, l = cells (addr r) :: rest ∧
      Window addr nil (Function.update cells (addr r) nil) (r + 1) rest := by
  cases l with
  | nil => exact absurd (h.first_eq_nil_iff.mpr rfl) hfull
  | cons e rest =>
    have he : cells (addr r) = e := h.holds 0 e rfl
    have hshift : ∀ k, r + 1 + k = r + (k + 1) := fun k => by omega
    have hne : ∀ k < rest.length, addr (r + 1 + k) ≠ addr r := fun k hk => by
      rw [hshift]
      exact (h.distinct 0 (k + 1) (by omega) (by simpa using hk)).symm
    refine ⟨rest, by rw [he], fun k x hx => ?_, fun x hx => ?_, fun j k hjk hk => ?_,
      fun s hs => ?_⟩
    · have hk : k < rest.length := (List.getElem?_eq_some_iff.mp hx).1
      rw [Function.update_of_ne (hne k hk), hshift]
      exact h.holds (k + 1) x hx
    · exact h.proper x (List.mem_cons_of_mem _ hx)
    · rw [hshift, hshift]
      exact h.distinct (j + 1) (k + 1) (by omega) (by simpa using hk)
    · by_cases hs' : s = addr r
      · rw [hs', Function.update_self]
      · rw [Function.update_of_ne hs']
        refine h.free s fun k hk => ?_
        cases k with
        | zero => exact fun h0 => hs' h0.symm
        | succ k =>
          rw [← hshift]
          exact hs k (by simpa using hk)

end Window
