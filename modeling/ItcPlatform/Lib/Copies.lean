import Mathlib.Data.List.Forall2
import Mathlib.Data.List.Perm.Basic
import Mathlib.Data.List.Perm.Subperm

/-! What comes out of a relay as copies of what went in. `R` tells what is a copy of what. -/

namespace Copies
open List
variable {α β : Type*} {R : α → β → Prop} {sent sent' : List α} {got got' : List β}

variable (R) in
/-- All of `got` are copies of different things sent. -/
def Once (sent : List α) (got : List β) : Prop := ∃ l, l.Subperm sent ∧ Forall₂ R l got

variable (R) in
def InOrder (sent : List α) (got : List β) : Prop := ∃ l, l.Sublist sent ∧ Forall₂ R l got

theorem InOrder.once (h : InOrder R sent got) : Once R sent got := by
  obtain ⟨l, hl, hcopies⟩ := h
  exact ⟨l, hl.subperm, hcopies⟩

theorem inOrder_nil : InOrder R sent [] := ⟨[], nil_sublist _, .nil⟩

theorem InOrder.mono (h : InOrder R sent got) (hsent : sent.Sublist sent') :
    InOrder R sent' got := by
  obtain ⟨l, hl, hcopies⟩ := h
  exact ⟨l, hl.trans hsent, hcopies⟩

theorem InOrder.concat {a : α} {b : β} (h : InOrder R sent got) (hab : R a b) :
    InOrder R (sent ++ [a]) (got ++ [b]) := by
  obtain ⟨l, hl, hcopies⟩ := h
  exact ⟨l ++ [a], hl.append (.refl _), rel_append hcopies (.cons hab .nil)⟩

theorem InOrder.of_sublist (h : InOrder R sent got) (hgot : got'.Sublist got) :
    InOrder R sent got' := by
  obtain ⟨l, hl, hcopies⟩ := h
  suffices InOrder R l got' from this.mono hl
  clear hl
  induction hgot generalizing l with
  | slnil => exact inOrder_nil
  | cons _ _ ih =>
    obtain - | ⟨-, hrest⟩ := hcopies
    exact (ih _ hrest).mono (sublist_cons_self _ _)
  | cons_cons _ _ ih =>
    obtain - | ⟨hab, hrest⟩ := hcopies
    obtain ⟨l', hl', hcopies'⟩ := ih _ hrest
    exact ⟨_ :: l', hl'.cons_cons _, .cons hab hcopies'⟩

theorem Once.of_subperm (h : Once R sent got) (hgot : got'.Subperm got) : Once R sent got' := by
  obtain ⟨l, hl, hcopies⟩ := h
  obtain ⟨g, hperm, hsub⟩ := hgot
  obtain ⟨l', hl', hcopies'⟩ := InOrder.of_sublist ⟨l, .refl l, hcopies⟩ hsub
  have hcomp : Relation.Comp (Forall₂ R) Perm l' got' := ⟨g, hcopies', hperm⟩
  rw [forall₂_comp_perm_eq_perm_comp_forall₂] at hcomp
  obtain ⟨l'', hperm', hcopies''⟩ := hcomp
  exact ⟨l'', hperm'.symm.subperm.trans (hl'.subperm.trans hl), hcopies''⟩

end Copies
