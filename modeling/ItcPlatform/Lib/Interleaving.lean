import Mathlib.Algebra.BigOperators.Group.Finset.Piecewise
import Mathlib.Data.Fintype.Basic
import Mathlib.Tactic.Abel

/-! Threads taking turns on one shared state. A program gives one atomic step of one
thread; a run fires one thread at a time, in any order. The rules below lift what one
step of one thread does to what every run does. -/

namespace Interleaving
variable {ι α σ L M : Type*}

/-- One atomic step of thread `i` under the label `a`, `none` where it has none. -/
abbrev Program (ι α σ L : Type*) := ι → α → σ → L → Option (σ × L)

@[ext] structure State (ι σ L : Type*) where
  shared : σ
  locals : ι → L

variable [DecidableEq ι] {P : Program ι α σ L}

def fire (P : Program ι α σ L) (i : ι) (a : α) (s : State ι σ L) : Option (State ι σ L) :=
  (P i a s.shared (s.locals i)).map fun r => ⟨r.1, Function.update s.locals i r.2⟩

theorem fire_eq_some {i : ι} {a : α} {s s' : State ι σ L} :
    fire P i a s = some s' ↔ ∃ x l, P i a s.shared (s.locals i) = some (x, l) ∧
      s' = ⟨x, Function.update s.locals i l⟩ := by
  simp only [fire, Option.map_eq_some_iff, Prod.exists]
  constructor <;> rintro ⟨x, l, h, rfl⟩ <;> exact ⟨x, l, h, rfl⟩

/-- The states of the runs from `s₀` all of whose steps meet `ok`, a condition on the
state before the step, the thread that takes it and its label. -/
inductive Run (P : Program ι α σ L) (ok : State ι σ L → ι → α → Prop) (s₀ : State ι σ L) :
    State ι σ L → Prop
  | start : Run P ok s₀ s₀
  | step {s s' : State ι σ L} {i : ι} {a : α} : Run P ok s₀ s → ok s i a →
      fire P i a s = some s' → Run P ok s₀ s'

def anyStep : State ι σ L → ι → α → Prop := fun _ _ _ => True

/-- The induction over runs: what holds at the start and is kept by every step holds throughout. -/
@[elab_as_elim] theorem Run.invariant {ok : State ι σ L → ι → α → Prop} {s₀ s : State ι σ L}
    {I : State ι σ L → Prop} (h : Run P ok s₀ s) (h₀ : I s₀)
    (hstep : ∀ s i a x l, I s → ok s i a → P i a s.shared (s.locals i) = some (x, l) →
      I ⟨x, Function.update s.locals i l⟩) : I s := by
  induction h with
  | start => exact h₀
  | step _ hok hf ih =>
    obtain ⟨x, l, hP, rfl⟩ := fire_eq_some.mp hf
    exact hstep _ _ _ _ _ ih hok hP

theorem Run.mono {ok ok' : State ι σ L → ι → α → Prop} {s₀ s : State ι σ L}
    (h : Run P ok s₀ s) (himp : ∀ s i a, ok s i a → ok' s i a) : Run P ok' s₀ s := by
  induction h with
  | start => exact .start
  | step _ hok hf ih => exact .step ih (himp _ _ _ hok) hf

theorem Run.trans {ok : State ι σ L → ι → α → Prop} {s₀ s s' : State ι σ L}
    (h : Run P ok s₀ s) (h' : Run P ok s s') : Run P ok s₀ s' := by
  induction h' with
  | start => exact h
  | step _ hok hf ih => exact .step ih hok hf

/-- Where every state that is not done can go on to a smaller one, a run goes on until it is. -/
theorem exists_run_done {ok : State ι σ L → ι → α → Prop} {I done : State ι σ L → Prop}
    (measure : State ι σ L → ℕ)
    (hstep : ∀ s, I s → ¬ done s → ∃ s', Run P ok s s' ∧ I s' ∧ measure s' < measure s)
    {s : State ι σ L} (hs : I s) : ∃ s', Run P ok s s' ∧ I s' ∧ done s' := by
  induction hn : measure s using Nat.strong_induction_on generalizing s with
  | h n ih =>
    by_cases hdone : done s
    · exact ⟨s, .start, hs, hdone⟩
    · obtain ⟨s₁, hrun₁, hs₁, hlt⟩ := hstep s hs hdone
      obtain ⟨s', hrun, hs', hdone'⟩ := ih _ (hn ▸ hlt) hs₁ rfl
      exact ⟨s', hrun₁.trans hrun, hs', hdone'⟩

def State.map {σ' L' : Type*} (f : σ → σ') (g : L → L') (s : State ι σ L) : State ι σ' L' :=
  ⟨f s.shared, fun i => g (s.locals i)⟩

/-- Where every step is seen as a step of another program, or not seen, a run is seen as a run of
that program. -/
theorem Run.project {α' σ' L' : Type*} {P' : Program ι α' σ' L'}
    {ok : State ι σ L → ι → α → Prop} {ok' : State ι σ' L' → ι → α' → Prop} {f : σ → σ'}
    {g : L → L'} {s₀ s : State ι σ L} (h : Run P ok s₀ s)
    (hstep : ∀ s i a x l, ok s i a → P i a s.shared (s.locals i) = some (x, l) →
      (f x = f s.shared ∧ g l = g (s.locals i)) ∨
      ∃ a', ok' (s.map f g) i a' ∧ P' i a' (f s.shared) (g (s.locals i)) = some (f x, g l)) :
    Run P' ok' (s₀.map f g) (s.map f g) := by
  refine h.invariant .start fun s i a x l ih hok hP => ?_
  have hlocals : (fun j => g (Function.update s.locals i l j)) =
      Function.update (fun j => g (s.locals j)) i (g l) := Function.comp_update g s.locals i l
  obtain ⟨hx, hl⟩ | ⟨a', hok', hP'⟩ := hstep s i a x l hok hP
  · have hsame : (⟨x, Function.update s.locals i l⟩ : State ι σ L).map f g = s.map f g := by
      refine State.ext hx (hlocals.trans ?_)
      rw [hl]
      exact Function.update_eq_self i _
    rwa [hsame]
  · exact .step ih hok' (fire_eq_some.mpr ⟨_, _, hP', State.ext rfl hlocals⟩)

theorem forall_update {J K : ι → L → Prop} {f : ι → L} {i : ι} {l : L} (h : ∀ j, J j (f j))
    (own : K i l) (stable : ∀ j, j ≠ i → J j (f j) → K j (f j)) (j : ι) :
    K j (Function.update f i l j) := by
  by_cases hj : j = i
  · subst hj
    simpa using own
  · simpa [hj] using stable j hj (h j)

theorem exists_update {K : L → Prop} {f : ι → L} {i : ι} {l : L} (h : ∃ j, K (f j))
    (hi : ¬ K (f i)) : ∃ j, K (Function.update f i l j) := by
  obtain ⟨j, hj⟩ := h
  have hne : j ≠ i := fun heq => hi (heq ▸ hj)
  exact ⟨j, by rwa [Function.update_of_ne hne]⟩

theorem pairwise_update {R : L → L → Prop} {f : ι → L} {i : ι} {l : L}
    (hsymm : ∀ l l', R l l' → R l' l) (h : Pairwise fun j k => R (f j) (f k))
    (own : ∀ j ≠ i, R l (f j)) :
    Pairwise fun j k => R (Function.update f i l j) (Function.update f i l k) := by
  intro j k hne
  by_cases hj : j = i
  · subst hj
    rw [Function.update_self, Function.update_of_ne hne.symm]
    exact own k hne.symm
  · rw [Function.update_of_ne hj]
    by_cases hk : k = i
    · subst hk
      rw [Function.update_self]
      exact hsymm _ _ (own j hj)
    · rw [Function.update_of_ne hk]
      exact h hne

section Balance
variable [Fintype ι] [AddCancelCommMonoid M]

theorem sum_update (g : L → M) (f : ι → L) (i : ι) (l : L) :
    ∑ j, g (Function.update f i l j) + g (f i) = ∑ j, g (f j) + g l := by
  have h := Finset.sum_erase_add Finset.univ (fun j => g (f j)) (Finset.mem_univ i)
  have h' := Finset.sum_erase_add Finset.univ (fun j => g (Function.update f i l j))
    (Finset.mem_univ i)
  have he : ∑ j ∈ Finset.univ.erase i, g (Function.update f i l j) =
      ∑ j ∈ Finset.univ.erase i, g (f j) :=
    Finset.sum_congr rfl fun j hj => by simp [Finset.ne_of_mem_erase hj]
  simp only [Function.update_self] at h'
  rw [← h', ← h, he]
  exact add_right_comm _ _ _

/-- A law of conservation: if a step moves nothing between the two sides of the account
but what the stepping thread itself gains or loses, the account stays balanced. -/
theorem balance_update {g : L → M} {f : ι → L} {i : ι} {l : L} {a b a' b' : M}
    (h : a = b + ∑ j, g (f j)) (hstep : a' + (b + g (f i)) = a + (b' + g l)) :
    a' = b' + ∑ j, g (Function.update f i l j) := by
  have hs := sum_update g f i l
  rw [h] at hstep
  have : a' + (b + g (f i)) =
      b' + ∑ j, g (Function.update f i l j) + (b + g (f i)) := by
    calc a' + (b + g (f i)) = b + b' + (∑ j, g (f j) + g l) := by rw [hstep]; abel
      _ = b + b' + (∑ j, g (Function.update f i l j) + g (f i)) := by rw [hs]
      _ = _ := by abel
  exact add_right_cancel this

end Balance

instance (s : State ι σ L) (i : ι) (a : α) : Decidable (anyStep s i a) := .isTrue trivial

/-- Fire a schedule, thread by thread, as far as every step meets `ok`. -/
def exec (P : Program ι α σ L) (ok : State ι σ L → ι → α → Prop)
    [∀ s i a, Decidable (ok s i a)] : List (ι × α) → State ι σ L → Option (State ι σ L)
  | [], s => some s
  | (i, a) :: rest, s => if ok s i a then (fire P i a s).bind (exec P ok rest) else none

theorem exec_cons {i : ι} {a : α} {rest : List (ι × α)} {s : State ι σ L} {x : σ} {l : L}
    (h : P i a s.shared (s.locals i) = some (x, l)) :
    exec P anyStep ((i, a) :: rest) s = exec P anyStep rest ⟨x, Function.update s.locals i l⟩ := by
  have hfire : fire P i a s = some ⟨x, Function.update s.locals i l⟩ := by rw [fire, h]; rfl
  exact (if_pos trivial).trans (by rw [hfire]; rfl)

theorem exec_cons_update {i : ι} {a : α} {rest : List (ι × α)} {f : ι → L} {x x' : σ} {l l' : L}
    (h : P i a x l = some (x', l')) :
    exec P anyStep ((i, a) :: rest) ⟨x, Function.update f i l⟩ =
      exec P anyStep rest ⟨x', Function.update f i l'⟩ := by
  rw [exec_cons (by simpa using h), Function.update_idem]

theorem exec_run {ok : State ι σ L → ι → α → Prop} [∀ s i a, Decidable (ok s i a)]
    {s₀ s s' : State ι σ L} {sched : List (ι × α)} (h : exec P ok sched s = some s')
    (hs : Run P ok s₀ s) : Run P ok s₀ s' := by
  induction sched generalizing s with
  | nil =>
    obtain rfl : s = s' := by simpa [exec] using h
    exact hs
  | cons p rest ih =>
    obtain ⟨i, a⟩ := p
    rw [exec] at h
    split_ifs at h with hok
    obtain ⟨t, ht, hrest⟩ := Option.bind_eq_some_iff.mp h
    exact ih hrest (.step hs hok ht)

end Interleaving
