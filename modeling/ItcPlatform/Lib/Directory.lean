import Mathlib.Logic.Function.Basic

/-! A directory that knows a table of places from notices only. Whoever takes a place announces it
afterwards, and whoever has left one withdraws it afterwards. -/

namespace Directory
variable {ι I K V : Type*}

inductive Notice (K V : Type*)
  | added (k : K) (v : V)
  | removed (k : K)
  deriving DecidableEq

section Replay
variable [DecidableEq K]

def Notice.apply (entries : K → Option V) : Notice K V → K → Option V
  | .added k v => Function.update entries k (some v)
  | .removed k => Function.update entries k none

/-- What the notices come to in their order. -/
def replay (log : List (Notice K V)) : K → Option V := log.foldl Notice.apply fun _ => none

variable {log : List (Notice K V)} {k k' : K} {v : V}

theorem replay_added : replay (log ++ [.added k v]) = Function.update (replay log) k (some v) := by
  rw [replay, List.foldl_append]
  rfl

theorem replay_removed : replay (log ++ [.removed k]) = Function.update (replay log) k none := by
  rw [replay, List.foldl_append]
  rfl

end Replay

inductive Stage (I V : Type*)
  | idle
  | announcing (i : I) (v : V)
  | listed (i : I)
  | withdrawing (i : I)
  deriving DecidableEq

def Stage.place? : Stage I V → Option I
  | .idle => none
  | .announcing i _ | .listed i | .withdrawing i => some i

variable [DecidableEq K] {key : I → K} {table table' : I → Option V}
  {log log' : List (Notice K V)}

def Stage.Fits (key : I → K) (table : I → Option V) (log : List (Notice K V)) : Stage I V → Prop
  | .idle => True
  | .announcing i v => table i = some v ∧ replay log (key i) = none
  | .listed i => table i ≠ none ∧ replay log (key i) = table i
  | .withdrawing i => table i = none ∧ replay log (key i) ≠ none

theorem Stage.Fits.congr {stage : Stage I V} (h : stage.Fits key table log)
    (hsame : ∀ i, stage.place? = some i →
      table' i = table i ∧ replay log' (key i) = replay log (key i)) :
    stage.Fits key table' log' := by
  cases stage with
  | idle => trivial
  | announcing i v | listed i | withdrawing i =>
    obtain ⟨htable, hreplay⟩ := hsame i rfl
    simpa only [Fits, htable, hreplay] using h

/-- The directory mirrors the table but for what is being announced or withdrawn. -/
structure Mirrors (key : I → K) (table : I → Option V) (log : List (Notice K V))
    (stage : ι → Stage I V) : Prop where
  fits : ∀ t, (stage t).Fits key table log
  apart : ∀ t t' i, (stage t).place? = some i → (stage t').place? = some i → t = t'
  owned : ∀ i, table i ≠ none ∨ replay log (key i) ≠ none → ∃ t, (stage t).place? = some i
  known : ∀ k, (∀ i, key i ≠ k) → replay log k = none

namespace Mirrors
variable {stage : ι → Stage I V}

theorem start (h : ∀ t, stage t = .idle) :
    Mirrors key (fun _ => none) ([] : List (Notice K V)) stage := by
  refine ⟨fun t => ?_, fun t _ i ht => ?_, fun i hi => ?_, fun _ _ => rfl⟩
  · rw [h t]
    trivial
  · rw [h t] at ht
    cases ht
  · simp [replay] at hi

theorem vacant (h : Mirrors key table log stage) {i : I} (hi : ∀ t, (stage t).place? ≠ some i) :
    table i = none ∧ replay log (key i) = none := by
  have hnot := mt (h.owned i) fun ⟨t, ht⟩ => hi t ht
  exact ⟨not_not.mp fun hne => hnot (.inl hne), not_not.mp fun hne => hnot (.inr hne)⟩

theorem agrees (h : Mirrors key table log stage) {i : I}
    (hannouncing : ∀ t v, stage t ≠ .announcing i v)
    (hwithdrawing : ∀ t, stage t ≠ .withdrawing i) : replay log (key i) = table i := by
  by_cases hi : ∀ t, (stage t).place? ≠ some i
  · obtain ⟨htable, hreplay⟩ := h.vacant hi
    rw [htable, hreplay]
  · obtain ⟨t, ht⟩ := not_forall_not.mp hi
    have hfits := h.fits t
    cases hstage : stage t with
    | idle => simp [hstage, Stage.place?] at ht
    | announcing j v =>
      obtain rfl : j = i := by simpa [hstage, Stage.place?] using ht
      exact absurd hstage (hannouncing t v)
    | listed j =>
      obtain rfl : j = i := by simpa [hstage, Stage.place?] using ht
      rw [hstage] at hfits
      exact hfits.2
    | withdrawing j =>
      obtain rfl : j = i := by simpa [hstage, Stage.place?] using ht
      exact absurd hstage (hwithdrawing t)

variable [DecidableEq ι] {t : ι} {i : I} {v : V}

theorem change (h : Mirrors key table log stage) (hkey : Function.Injective key) {next : Stage I V}
    (hothers : ∀ t' ≠ t, (stage t').place? ≠ some i)
    (hold : ∀ j, (stage t).place? = some j → j = i) (hnew : ∀ j, next.place? = some j → j = i)
    (htable : ∀ j ≠ i, table' j = table j) (hlog : ∀ k ≠ key i, replay log' k = replay log k)
    (hfits : next.Fits key table' log')
    (howned : table' i ≠ none ∨ replay log' (key i) ≠ none → next.place? = some i) :
    Mirrors key table' log' (Function.update stage t next) := by
  have helse (t' : ι) (ht' : t' ≠ t) (j : I) (hj : (stage t').place? = some j) : j ≠ i :=
    fun hji => hothers t' ht' (hji ▸ hj)
  refine ⟨fun t' => ?_, fun t₁ t₂ j h₁ h₂ => ?_, fun j hj => ?_, fun k hk => ?_⟩
  · by_cases ht' : t' = t
    · subst ht'
      rwa [Function.update_self]
    · rw [Function.update_of_ne ht']
      refine (h.fits t').congr fun j hj => ?_
      have hne := helse t' ht' j hj
      exact ⟨htable j hne, hlog _ fun heq => hne (hkey heq)⟩
  · by_cases ht₁ : t₁ = t <;> by_cases ht₂ : t₂ = t
    · exact ht₁.trans ht₂.symm
    · subst ht₁
      rw [Function.update_self] at h₁
      rw [Function.update_of_ne ht₂] at h₂
      exact absurd (hnew j h₁) (helse t₂ ht₂ j h₂)
    · subst ht₂
      rw [Function.update_self] at h₂
      rw [Function.update_of_ne ht₁] at h₁
      exact absurd (hnew j h₂) (helse t₁ ht₁ j h₁)
    · rw [Function.update_of_ne ht₁] at h₁
      rw [Function.update_of_ne ht₂] at h₂
      exact h.apart t₁ t₂ j h₁ h₂
  · by_cases hji : j = i
    · subst hji
      exact ⟨t, by rw [Function.update_self, howned hj]⟩
    · rw [htable j hji, hlog _ fun heq => hji (hkey heq)] at hj
      obtain ⟨t', ht'⟩ := h.owned j hj
      have hne : t' ≠ t := fun heq => hji (hold j (heq ▸ ht'))
      exact ⟨t', by rwa [Function.update_of_ne hne]⟩
  · rw [hlog k fun heq => hk i heq.symm]
    exact h.known k hk

theorem move (h : Mirrors key table log stage) (hkey : Function.Injective key)
    (hi : (stage t).place? = some i) {next : Stage I V}
    (hnew : ∀ j, next.place? = some j → j = i)
    (htable : ∀ j ≠ i, table' j = table j) (hlog : ∀ k ≠ key i, replay log' k = replay log k)
    (hfits : next.Fits key table' log')
    (howned : table' i ≠ none ∨ replay log' (key i) ≠ none → next.place? = some i) :
    Mirrors key table' log' (Function.update stage t next) :=
  h.change hkey (fun t' ht' hi' => ht' (h.apart t' t i hi' hi))
    (fun _ hj => Option.some.inj (hj.symm.trans hi)) hnew htable hlog hfits howned

theorem announce (h : Mirrors key table log stage) (hkey : Function.Injective key)
    (ht : stage t = .announcing i v) :
    Mirrors key table (log ++ [.added (key i) v]) (Function.update stage t (.listed i)) := by
  have hfits := h.fits t
  rw [ht] at hfits
  refine h.move hkey (by rw [ht]; rfl) (fun j hj => (Option.some.inj hj).symm) (fun _ _ => rfl)
    (fun k hk => ?_) ⟨by simp [hfits.1], ?_⟩ fun _ => rfl
  · rw [replay_added, Function.update_of_ne hk]
  · rw [replay_added, Function.update_self, hfits.1]

theorem withdraw (h : Mirrors key table log stage) (hkey : Function.Injective key)
    (ht : stage t = .withdrawing i) :
    Mirrors key table (log ++ [.removed (key i)]) (Function.update stage t .idle) := by
  have hfits := h.fits t
  rw [ht] at hfits
  refine h.move hkey (by rw [ht]; rfl) nofun (fun _ _ => rfl) (fun k hk => ?_) trivial fun hi => ?_
  · rw [replay_removed, Function.update_of_ne hk]
  · rw [replay_removed, Function.update_self, hfits.1] at hi
    exact absurd hi (by simp)

variable [DecidableEq I]

theorem leave (h : Mirrors key table log stage) (hkey : Function.Injective key)
    (ht : stage t = .listed i) :
    Mirrors key (Function.update table i none) log (Function.update stage t (.withdrawing i)) := by
  have hfits := h.fits t
  rw [ht] at hfits
  refine h.move hkey (by rw [ht]; rfl) (fun j hj => (Option.some.inj hj).symm)
    (fun j hj => Function.update_of_ne hj _ _) (fun _ _ => rfl) ⟨Function.update_self _ _ _, ?_⟩
    fun _ => rfl
  rw [hfits.2]
  exact hfits.1

theorem enter (h : Mirrors key table log stage) (hkey : Function.Injective key)
    (ht : stage t = .idle) (hfree : table i = none) (hleft : ∀ t', stage t' ≠ .withdrawing i)
    (v : V) : Mirrors key (Function.update table i (some v)) log
      (Function.update stage t (.announcing i v)) := by
  have hvacant (t' : ι) : (stage t').place? ≠ some i := by
    intro hi
    have hfits := h.fits t'
    cases hstage : stage t' with
    | idle => simp [hstage, Stage.place?] at hi
    | announcing j | listed j =>
      obtain rfl : j = i := by simpa [hstage, Stage.place?] using hi
      simp [hstage, Stage.Fits, hfree] at hfits
    | withdrawing j =>
      obtain rfl : j = i := by simpa [hstage, Stage.place?] using hi
      exact hleft t' hstage
  refine h.change hkey (fun t' _ => hvacant t') (fun j hj => ?_)
    (fun j hj => (Option.some.inj hj).symm) (fun j hj => Function.update_of_ne hj _ _)
    (fun _ _ => rfl) ⟨Function.update_self _ _ _, (h.vacant hvacant).2⟩ fun _ => rfl
  rw [ht] at hj
  cases hj

end Mirrors

end Directory
