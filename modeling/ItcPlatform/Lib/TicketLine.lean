import Mathlib.Data.List.Basic
import Mathlib.Data.Nat.Count

/-! Callers that draw numbered tickets and wait for the slots of their tickets, some to fill them
and some to empty them. While no two of a kind wait for the same slot, each slot serves its tickets
in their order, and what a ticket put into it is what the ticket of that number gets out of it. -/

namespace TicketLine
variable {ι S E : Type*} [DecidableEq S]

def turns (slot : ℕ → S) (n : ℕ) (s : S) : ℕ := Nat.count (fun k => slot k = s) n

theorem turns_succ (slot : ℕ → S) (n : ℕ) (s : S) :
    turns slot (n + 1) s = turns slot n s + if slot n = s then 1 else 0 :=
  Nat.count_succ _ n

theorem eq_of_turns_eq {slot : ℕ → S} {n m : ℕ} (hslot : slot n = slot m)
    (h : turns slot n (slot m) = turns slot m (slot m)) : n = m :=
  Nat.count_injective (p := fun k => slot k = slot m) hslot rfl h

/-- `drawn` tickets were handed out, `served` of them at each slot, and the others are held. -/
structure Line (slot : ℕ → S) (drawn : ℕ) (served : S → ℕ) (held : ι → Option ℕ) : Prop where
  lt_drawn : ∀ i, ∀ n ∈ held i, n < drawn
  turn : ∀ i, ∀ n ∈ held i, turns slot n (slot n) = served (slot n)
  idle : ∀ s, (∀ i, ∀ n ∈ held i, slot n ≠ s) → turns slot drawn s = served s
  ahead : ∀ s, turns slot drawn s ≤ served s + 1

/-- No two callers wait for one slot. -/
def Apart (slot : ℕ → S) (held : ι → Option ℕ) : Prop :=
  ∀ i j, ∀ n ∈ held i, ∀ m ∈ held j, slot n = slot m → i = j

variable {slot : ℕ → S} {drawn n : ℕ} {served : S → ℕ} {held held' : ι → Option ℕ} {i : ι}

theorem line_start : Line slot 0 (fun _ => 0) (fun _ : ι => none) :=
  ⟨nofun, nofun, fun _ _ => Nat.count_zero _, fun _ => (Nat.count_zero _).le.trans (Nat.zero_le _)⟩

namespace Line
variable (h : Line slot drawn served held)
include h

theorem draw (hi : held' i = some drawn) (hothers : ∀ j ≠ i, held' j = held j)
    (hnone : held i = none) (hapart : Apart slot held') : Line slot (drawn + 1) served held' := by
  have hfree : turns slot drawn (slot drawn) = served (slot drawn) := by
    refine h.idle _ fun j m hm hslot => ?_
    have hj : j ≠ i := by
      rintro rfl
      cases hnone.symm.trans hm
    exact hj (hapart j i m (by rwa [hothers j hj]) drawn hi hslot)
  refine ⟨fun j m hm => ?_, fun j m hm => ?_, fun s hs => ?_, fun s => ?_⟩
  · by_cases hj : j = i
    · obtain rfl : drawn = m := Option.some.inj (hi.symm.trans (hj ▸ hm))
      exact Nat.lt_succ_self _
    · exact (h.lt_drawn j m (hothers j hj ▸ hm)).trans (Nat.lt_succ_self _)
  · by_cases hj : j = i
    · obtain rfl : drawn = m := Option.some.inj (hi.symm.trans (hj ▸ hm))
      exact hfree
    · exact h.turn j m (hothers j hj ▸ hm)
  · have hne : slot drawn ≠ s := hs i drawn hi
    rw [turns_succ, if_neg hne, Nat.add_zero]
    refine h.idle s fun j m hm => ?_
    have hj : j ≠ i := by
      rintro rfl
      cases hnone.symm.trans hm
    exact hs j m (by rwa [hothers j hj])
  · rw [turns_succ]
    split_ifs with hslot
    · subst hslot
      exact Nat.succ_le_succ hfree.le
    · exact h.ahead s

theorem serve (hi : held i = some n) (hnone : held' i = none) (hothers : ∀ j ≠ i, held' j = held j)
    (hapart : Apart slot held) :
    Line slot drawn (Function.update served (slot n) (served (slot n) + 1)) held' := by
  have hheld (j : ι) (m : ℕ) (hm : m ∈ held' j) : j ≠ i ∧ m ∈ held j := by
    have hj : j ≠ i := by
      rintro rfl
      cases hnone.symm.trans hm
    exact ⟨hj, hothers j hj ▸ hm⟩
  refine ⟨fun j m hm => h.lt_drawn j m (hheld j m hm).2, fun j m hm => ?_, fun s hs => ?_,
    fun s => ?_⟩
  · obtain ⟨hj, hm⟩ := hheld j m hm
    have hne : slot m ≠ slot n := fun hslot => hj (hapart j i m hm n hi hslot)
    rw [Function.update_of_ne hne]
    exact h.turn j m hm
  · by_cases hslot : s = slot n
    · subst hslot
      rw [Function.update_self]
      -- the tickets up to this one are as many as were served before, and this one comes next
      have hlt : turns slot (n + 1) (slot n) ≤ turns slot drawn (slot n) :=
        Nat.count_monotone _ (h.lt_drawn i n hi)
      have hturn := h.turn i n hi
      have hahead := h.ahead (slot n)
      rw [turns_succ, if_pos rfl] at hlt
      omega
    · rw [Function.update_of_ne hslot]
      refine h.idle s fun j m hm => ?_
      by_cases hj : j = i
      · obtain rfl : n = m := Option.some.inj (hi.symm.trans (hj ▸ hm))
        exact Ne.symm hslot
      · exact hs j m (by rwa [hothers j hj])
  · have hahead := h.ahead s
    by_cases hslot : s = slot n
    · subst hslot
      rw [Function.update_self]
      omega
    · rwa [Function.update_of_ne hslot]

end Line

/-- What lies in a slot was put there under the ticket whose turn it is to be emptied. -/
def Stocked (slot : ℕ → S) (nil : E) (pushed : List E) (filled emptied : S → ℕ) (slots : S → E) :
    Prop :=
  ∀ s, slots s = nil ∧ filled s = emptied s ∨ slots s ≠ nil ∧ filled s = emptied s + 1 ∧
    ∃ n, slot n = s ∧ turns slot n s = emptied s ∧ pushed[n]? = some (slots s)

section Stocked
variable {nil e : E} {pushed pushed' : List E} {filled emptied : S → ℕ} {slots : S → E}

theorem stocked_start : Stocked slot nil [] (fun _ => 0) (fun _ => 0) (fun _ => nil) :=
  fun _ => .inl ⟨rfl, rfl⟩

namespace Stocked
variable (h : Stocked slot nil pushed filled emptied slots)
include h

theorem mono (hpushed : ∀ (n : ℕ) e, pushed[n]? = some e → pushed'[n]? = some e) :
    Stocked slot nil pushed' filled emptied slots := fun s => by
  obtain hempty | ⟨hfull, hcount, n, hslot, hturn, hn⟩ := h s
  · exact .inl hempty
  · exact .inr ⟨hfull, hcount, n, hslot, hturn, hpushed n _ hn⟩

theorem fill (hturn : turns slot n (slot n) = filled (slot n)) (hfree : slots (slot n) = nil)
    (he : e ≠ nil) (hpushed : pushed[n]? = some e) :
    Stocked slot nil pushed (Function.update filled (slot n) (filled (slot n) + 1)) emptied
      (Function.update slots (slot n) e) := fun s => by
  by_cases hs : s = slot n
  · subst hs
    obtain ⟨-, hcount⟩ | ⟨hfull, -⟩ := h (slot n)
    · refine .inr ⟨?_, ?_, n, rfl, hturn.trans hcount, ?_⟩
      · rwa [Function.update_self]
      · rw [Function.update_self, hcount]
      · rwa [Function.update_self]
    · exact absurd hfree hfull
  · rw [Function.update_of_ne hs, Function.update_of_ne hs]
    exact h s

theorem getElem?_of_turn (hturn : turns slot n (slot n) = emptied (slot n))
    (hfull : slots (slot n) ≠ nil) : pushed[n]? = some (slots (slot n)) := by
  obtain ⟨hempty, -⟩ | ⟨-, -, m, hslot, hm, hpushed⟩ := h (slot n)
  · exact absurd hempty hfull
  · obtain rfl : m = n := eq_of_turns_eq hslot (hm.trans hturn.symm)
    exact hpushed

theorem empty (hfull : slots (slot n) ≠ nil) :
    Stocked slot nil pushed filled (Function.update emptied (slot n) (emptied (slot n) + 1))
      (Function.update slots (slot n) nil) := fun s => by
  by_cases hs : s = slot n
  · subst hs
    obtain ⟨hempty, -⟩ | ⟨-, hcount, -⟩ := h (slot n)
    · exact absurd hempty hfull
    · refine .inl ⟨Function.update_self .., ?_⟩
      rw [Function.update_self, hcount]
  · rw [Function.update_of_ne hs, Function.update_of_ne hs]
    exact h s

end Stocked

end Stocked

end TicketLine
