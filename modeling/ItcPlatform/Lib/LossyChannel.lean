import Mathlib.Data.List.Infix
import Mathlib.Logic.Relation

/-! A channel that hands out in order what it took, and may at times lose all it holds. -/

namespace LossyChannel
variable {M : Type*}

@[ext] structure Channel (M : Type*) where
  accepted : List M
  delivered : List M
  pending : List M

def Channel.empty : Channel M := ⟨[], [], []⟩

/-- Only a lossy channel drops what is pending. -/
inductive Step (lossy : Prop) (c : Channel M) : Channel M → Prop
  | accept (m : M) : Step lossy c ⟨c.accepted ++ [m], c.delivered, c.pending ++ [m]⟩
  | deliver {m : M} {rest : List M} (h : c.pending = m :: rest) :
      Step lossy c ⟨c.accepted, c.delivered ++ [m], rest⟩
  | drop (h : lossy) : Step lossy c { c with pending := [] }

abbrev Reaches (lossy : Prop) : Channel M → Channel M → Prop :=
  Relation.ReflTransGen (Step lossy)

structure Extends (c c' : Channel M) (taken given : List M) : Prop where
  accepted : c'.accepted = c.accepted ++ taken
  delivered : c'.delivered = c.delivered ++ given
  sublist : (given ++ c'.pending).Sublist (c.pending ++ taken)

variable {lossy : Prop} {c c' : Channel M} {taken given : List M}

theorem Step.length_le (h : Step lossy c c') : c.accepted.length ≤ c'.accepted.length := by
  cases h with
  | accept m => simp
  | deliver | drop => exact le_rfl

theorem Step.extends (h : Extends c c' taken given) {c'' : Channel M} (hstep : Step lossy c' c'') :
    ∃ taken' given', Extends c c'' taken' given' := by
  obtain ⟨haccepted, hdelivered, hsub⟩ := h
  cases hstep with
  | accept m =>
    refine ⟨taken ++ [m], given, ?_, hdelivered, ?_⟩
    · rw [haccepted, List.append_assoc]
    · rw [← List.append_assoc, ← List.append_assoc]
      exact hsub.append_right [m]
  | @deliver m rest hpending =>
    refine ⟨taken, given ++ [m], haccepted, ?_, ?_⟩
    · rw [hdelivered, List.append_assoc]
    · rw [hpending] at hsub
      rwa [List.append_assoc]
  | drop =>
    refine ⟨taken, given, haccepted, hdelivered, ?_⟩
    rw [List.append_nil]
    exact (List.sublist_append_left _ _).trans hsub

theorem Reaches.extends (h : Reaches lossy c c') : ∃ taken given, Extends c c' taken given := by
  induction h with
  | refl => exact ⟨[], [], by simp, by simp, by simp⟩
  | tail _ hstep ih =>
    obtain ⟨taken, given, hext⟩ := ih
    exact hstep.extends hext

/-- At most once and in order, from an empty channel. -/
theorem Reaches.sublist (h : Reaches lossy .empty c) :
    (c.delivered ++ c.pending).Sublist c.accepted := by
  obtain ⟨taken, given, haccepted, hdelivered, hsub⟩ := h.extends
  rw [hdelivered, haccepted]
  exact hsub

/-- A channel that drops nothing has delivered all it took but for what is pending. -/
theorem Reaches.lossless (h : Reaches lossy .empty c) (hnot : ¬ lossy) :
    c.accepted = c.delivered ++ c.pending := by
  induction h with
  | refl => rfl
  | tail _ hstep ih =>
    cases hstep with
    | accept m => simp only [ih, List.append_assoc]
    | deliver hpending => simp only [ih, hpending, List.append_assoc, List.singleton_append]
    | drop h => exact absurd h hnot

structure FreshSince (n : ℕ) (c : Channel M) : Prop where
  length_le : n ≤ c.accepted.length
  pending : c.pending.Sublist (c.accepted.drop n)

theorem freshSince_of_pending_nil {n : ℕ} (h : n ≤ c.accepted.length) (hempty : c.pending = []) :
    FreshSince n c :=
  ⟨h, hempty ▸ List.nil_sublist _⟩

theorem FreshSince.step {n : ℕ} (h : FreshSince n c) (hstep : Step lossy c c') :
    FreshSince n c' := by
  obtain ⟨hle, hsub⟩ := h
  cases hstep with
  | accept m =>
    refine ⟨by simp only [List.length_append]; omega, ?_⟩
    rw [List.drop_append_of_le_length hle]
    exact hsub.append_right [m]
  | deliver hpending =>
    rw [hpending] at hsub
    exact ⟨hle, (List.sublist_cons_self _ _).trans hsub⟩
  | drop => exact ⟨hle, List.nil_sublist _⟩

end LossyChannel
