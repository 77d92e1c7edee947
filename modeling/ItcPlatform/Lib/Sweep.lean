import Mathlib.Data.Nat.Notation
import Mathlib.Tactic.TypeStar

/-! Loops over the entries of a list that share a state. A step changes its entry and the
state; it may end the loop with a result, or never return. -/

namespace Sweep
variable {α κ ε ρ : Type*}

section Defs
variable (step : α → κ → ε → Option (κ × ε × Option ρ))

/-- Visit the entries in order, entry `n` with the answer `answer n`, until a step gives a
result. -/
def sweep : (ℕ → α) → κ → List ε → Option (κ × List ε × Option ρ)
  | _, k, [] => some (k, [], none)
  | answer, k, e :: es =>
    match step (answer 0) k e with
    | none => none
    | some (k, e, some r) => some (k, e :: es, some r)
    | some (k, e, none) =>
      (sweep (fun n => answer (n + 1)) k es).map fun s => (s.1, e :: s.2.1, s.2.2)

/-- Every entry that is visited meets `ok` then. -/
def Visits (ok : α → κ → ε → Prop) : (ℕ → α) → κ → List ε → Prop
  | _, _, [] => True
  | answer, k, e :: es => ok (answer 0) k e ∧ ∀ k' e', step (answer 0) k e = some (k', e', none) →
      Visits ok (fun n => answer (n + 1)) k' es

end Defs

variable {step : α → κ → ε → Option (κ × ε × Option ρ)} {answer : ℕ → α} {k k' : κ}
  {pre es es' : List ε} {r : Option ρ}

theorem sweep_cons {e : ε} (h : sweep step answer k (e :: es) = some (k', es', r)) :
    (∃ e' r', step (answer 0) k e = some (k', e', some r') ∧ es' = e' :: es ∧ r = some r') ∨
      ∃ k₁ e' es₁, step (answer 0) k e = some (k₁, e', none) ∧ es' = e' :: es₁ ∧
        sweep step (fun n => answer (n + 1)) k₁ es = some (k', es₁, r) := by
  rw [sweep] at h
  split at h
  · cases h
  · rename_i k₁ e' r' hstep
    cases h
    exact .inl ⟨e', r', hstep, rfl, rfl⟩
  · rename_i k₁ e' hstep
    obtain ⟨⟨k₂, es₁, r₁⟩, hrest, hs⟩ := Option.map_eq_some_iff.mp h
    cases hs
    exact .inr ⟨k₁, e', es₁, hstep, rfl, hrest⟩

theorem visits_of_forall {ok : α → κ → ε → Prop} (h : ∀ a k e, ok a k e) :
    Visits step ok answer k es := by
  induction es generalizing answer k with
  | nil => trivial
  | cons e es ih => exact ⟨h _ _ _, fun _ _ _ => ih⟩

theorem isSome_sweep_iff {ok : α → κ → ε → Prop} (h : ∀ a k e, (step a k e).isSome ↔ ok a k e) :
    (sweep step answer k es).isSome ↔ Visits step ok answer k es := by
  induction es generalizing answer k with
  | nil => exact iff_of_true rfl trivial
  | cons e es ih =>
    have hok := h (answer 0) k e
    rw [sweep, Visits]
    cases hstep : step (answer 0) k e with
    | none =>
      rw [hstep] at hok
      exact iff_of_false Bool.false_ne_true fun hand => Bool.false_ne_true (hok.mpr hand.1)
    | some s =>
      obtain ⟨k₁, e₁, r₁⟩ := s
      rw [hstep] at hok
      cases r₁ with
      | some r₁ => exact iff_of_true rfl ⟨hok.mp rfl, nofun⟩
      | none =>
        rw [Option.isSome_map, ih, and_iff_right (hok.mp rfl)]
        refine ⟨fun hrest => ?_, fun hrest => hrest _ _ rfl⟩
        rintro _ _ ⟨⟩
        exact hrest

theorem sweep_view {γ δ : Type*} (loop : (ℕ → α) → List γ → List γ × δ) (out : Option ρ → δ)
    (fits : α → (ε → γ) → Prop) (nil : ∀ answer, loop answer [] = ([], out none))
    (ends : ∀ answer k e k' e' r v vs, fits (answer 0) v →
      step (answer 0) k e = some (k', e', some r) → loop answer (v e :: vs) = (v e' :: vs, out r))
    (goesOn : ∀ answer k e k' e' v vs, fits (answer 0) v →
      step (answer 0) k e = some (k', e', none) → loop answer (v e :: vs) =
        (v e' :: (loop (fun n => answer (n + 1)) vs).1, (loop (fun n => answer (n + 1)) vs).2))
    {view : ℕ → ε → γ} (hfits : ∀ n, fits (answer n) (view n))
    (h : sweep step answer k es = some (k', es', r)) :
    loop answer (es.mapIdx view) = (es'.mapIdx view, out r) := by
  induction es generalizing answer k es' view with
  | nil =>
    cases h
    exact nil answer
  | cons e es ih =>
    rw [List.mapIdx_cons]
    obtain ⟨e', r', hstep, rfl, rfl⟩ | ⟨k₁, e', es₁, hstep, rfl, hrest⟩ := sweep_cons h
    · rw [ends _ _ _ _ _ _ _ _ (hfits 0) hstep, List.mapIdx_cons]
    · rw [goesOn _ _ _ _ _ _ _ (hfits 0) hstep, ih (fun n => hfits (n + 1)) hrest,
        List.mapIdx_cons]

section Keeps
variable {I Bad : κ → List ε → Prop} {ok : α → κ → ε → Prop}
  (keeps : ∀ a k e k' e' r pre es, I k (pre ++ e :: es) → step a k e = some (k', e', r) →
    I k' (pre ++ e' :: es))
include keeps

theorem sweep_keeps_append (h : I k (pre ++ es))
    (hs : sweep step answer k es = some (k', es', r)) : I k' (pre ++ es') := by
  induction es generalizing answer k pre es' with
  | nil =>
    cases hs
    exact h
  | cons e es ih =>
    obtain ⟨e', r', hstep, rfl, -⟩ | ⟨k₁, e', es₁, hstep, rfl, hrest⟩ := sweep_cons hs
    · exact keeps _ _ _ _ _ _ _ _ h hstep
    · have h₁ := keeps _ _ _ _ _ _ _ _ h hstep
      rw [List.append_cons] at h₁ ⊢
      exact ih h₁ hrest

theorem sweep_keeps (h : I k es) (hs : sweep step answer k es = some (k', es', r)) : I k' es' :=
  sweep_keeps_append keeps (show I k ([] ++ es) from h) hs

-- harm stays, and what a step does of it is told by `ok`
variable (stays : ∀ a k e k' e' r pre es, I k (pre ++ e :: es) → Bad k (pre ++ e :: es) →
    step a k e = some (k', e', r) → Bad k' (pre ++ e' :: es))
  (tells : ∀ a k e k' e' r pre es, I k (pre ++ e :: es) → ¬ Bad k (pre ++ e :: es) →
    step a k e = some (k', e', r) → (ok a k e ↔ ¬ Bad k' (pre ++ e' :: es)))
include stays tells

theorem visits_iff_append (h : I k (pre ++ es)) (hgood : ¬ Bad k (pre ++ es))
    (hs : sweep step answer k es = some (k', es', r)) :
    Visits step ok answer k es ↔ ¬ Bad k' (pre ++ es') := by
  induction es generalizing answer k pre es' with
  | nil =>
    cases hs
    exact iff_of_true trivial hgood
  | cons e es ih =>
    obtain ⟨e', r', hstep, rfl, -⟩ | ⟨k₁, e', es₁, hstep, rfl, hrest⟩ := sweep_cons hs
    · refine Iff.trans ?_ (tells _ _ _ _ _ _ _ _ h hgood hstep)
      refine and_iff_left fun k'' e'' hgoes => ?_
      cases hstep.symm.trans hgoes
    · have h₁ := keeps _ _ _ _ _ _ _ _ h hstep
      have hok := tells _ _ _ _ _ _ _ _ h hgood hstep
      have hvisits : Visits step ok answer k (e :: es) ↔
          ok (answer 0) k e ∧ Visits step ok (fun n => answer (n + 1)) k₁ es := by
        refine and_congr_right fun _ => ⟨fun hall => hall _ _ hstep, fun hall k'' e'' hgoes => ?_⟩
        cases hstep.symm.trans hgoes
        exact hall
      rw [hvisits, hok]
      by_cases hbad : Bad k₁ (pre ++ e' :: es)
      · refine iff_of_false (fun hand => hand.1 hbad) (not_not_intro ?_)
        rw [List.append_cons] at h₁ hbad ⊢
        refine (sweep_keeps_append (I := fun k es => I k es ∧ Bad k es) ?_ ⟨h₁, hbad⟩ hrest).2
        exact fun a k e k' e' r pre es hand hs =>
          ⟨keeps _ _ _ _ _ _ _ _ hand.1 hs, stays _ _ _ _ _ _ _ _ hand.1 hand.2 hs⟩
      · rw [and_iff_right hbad]
        rw [List.append_cons] at h₁ hbad ⊢
        exact ih h₁ hbad hrest

/-- Harm that no later step undoes: a sweep does none exactly when no entry it visits does. -/
theorem visits_iff (h : I k es) (hgood : ¬ Bad k es)
    (hs : sweep step answer k es = some (k', es', r)) :
    Visits step ok answer k es ↔ ¬ Bad k' es' :=
  visits_iff_append keeps stays tells (show I k ([] ++ es) from h)
    (show ¬ Bad k ([] ++ es) from hgood) hs

end Keeps

end Sweep
