import Mathlib.Tactic.TypeStar
import Mathlib.Tactic.ByContra

/-! Sequences of operations on one state. The operations come one after the other, in any
order and number; a condition on the operations and the states they meet is compared with
what holds of every state, or of every result, on the way. -/

namespace History
variable {α σ τ β : Type*}

section States
variable (next : σ → α → Option σ)

/-- `P` holds of every state the operations lead through. -/
def Always (P : σ → Prop) : List α → σ → Prop
  | [], s => P s
  | a :: as, s => P s ∧ ∀ s' ∈ next s a, Always P as s'

/-- Every operation meets `ok` in the state it comes to. -/
def Each (ok : σ → α → Prop) : List α → σ → Prop
  | [], _ => True
  | a :: as, s => ok s a ∧ ∀ s' ∈ next s a, Each ok as s'

/-- The state after all operations, `none` where one of them leads nowhere. -/
def after : List α → σ → Option σ
  | [], s => some s
  | a :: as, s => (next s a).bind (after as)

variable {next}

theorem Each.and {ok : σ → α → Prop} {p : α → Prop} {as : List α} {s : σ} (h : Each next ok as s)
    (hp : ∀ a ∈ as, p a) : Each next (fun s a => ok s a ∧ p a) as s := by
  induction as generalizing s with
  | nil => trivial
  | cons a as ih =>
    exact ⟨⟨h.1, hp a List.mem_cons_self⟩, fun s' hs' =>
      ih (h.2 s' hs') fun b hb => hp b (List.mem_cons_of_mem _ hb)⟩

theorem Each.concat {ok : σ → α → Prop} {as : List α} {a : α} {s : σ} (h : Each next ok as s)
    (ha : ∀ s, ok s a) : Each next ok (as ++ [a]) s := by
  induction as generalizing s with
  | nil => exact ⟨ha s, fun _ _ => trivial⟩
  | cons b as ih => exact ⟨h.1, fun s' hs' => ih (h.2 s' hs')⟩

theorem each_iff_each {I : σ → Prop} {p q : σ → α → Prop} (agree : ∀ s a, I s → (p s a ↔ q s a))
    (keeps : ∀ s a s', I s → next s a = some s' → I s') {as : List α} {s : σ} (h : I s) :
    Each next p as s ↔ Each next q as s := by
  induction as generalizing s with
  | nil => exact Iff.rfl
  | cons a as ih =>
    exact and_congr (agree s a h)
      (forall_congr' fun s' => forall_congr' fun hs' => ih (keeps s a s' h hs'))

theorem always_of_keeps {I : σ → Prop} (keeps : ∀ s a s', I s → next s a = some s' → I s')
    {as : List α} {s : σ} (h : I s) : Always next I as s := by
  induction as generalizing s with
  | nil => exact h
  | cons a as ih => exact ⟨h, fun s' hs' => ih (keeps s a s' h hs')⟩

theorem Always.head {P : σ → Prop} {as : List α} {s : σ} (h : Always next P as s) : P s := by
  cases as with
  | nil => exact h
  | cons => exact h.1

theorem Always.of_after {P : σ → Prop} {as : List α} {s s' : σ} (h : Always next P as s)
    (hs : after next as s = some s') : P s' := by
  induction as generalizing s with
  | nil => exact Option.some.inj hs ▸ h
  | cons a as ih =>
    obtain ⟨t, ht, hrest⟩ := Option.bind_eq_some_iff.mp hs
    exact ih (h.2 t ht) hrest

theorem Always.mono {P Q : σ → Prop} {as : List α} {s : σ} (h : Always next P as s)
    (himp : ∀ s, P s → Q s) : Always next Q as s := by
  induction as generalizing s with
  | nil => exact himp s h
  | cons a as ih => exact ⟨himp s h.1, fun s' hs' => ih (h.2 s' hs')⟩

/-- If operations that meet `ok` keep an invariant that gives `P`, and those that do not lose
`P`, then `P` holds throughout exactly when every operation meets `ok`. -/
theorem always_iff_each {I P : σ → Prop} {ok : σ → α → Prop} (gives : ∀ s, I s → P s)
    (keeps : ∀ s a s', I s → ok s a → next s a = some s' → I s')
    (loses : ∀ s a, I s → ¬ ok s a → ∃ s', next s a = some s' ∧ ¬ P s') {as : List α} {s : σ}
    (h : I s) : Always next P as s ↔ Each next ok as s := by
  induction as generalizing s with
  | nil => exact ⟨fun _ => trivial, fun _ => gives s h⟩
  | cons a as ih =>
    constructor
    · intro hP
      have hok : ok s a := by
        by_contra hnot
        obtain ⟨s', hs', hlost⟩ := loses s a h hnot
        exact hlost (hP.2 s' hs').head
      exact ⟨hok, fun s' hs' => (ih (keeps s a s' h hok hs')).mp (hP.2 s' hs')⟩
    · rintro ⟨hok, hrest⟩
      exact ⟨gives s h, fun s' hs' => (ih (keeps s a s' h hok hs')).mpr (hrest s' hs')⟩

theorem after_keeps {I : σ → Prop} (keeps : ∀ s a s', I s → next s a = some s' → I s')
    {as : List α} {s s' : σ} (h : I s) (hs : after next as s = some s') : I s' :=
  (always_of_keeps keeps h).of_after hs

theorem isSome_after_iff {ok : σ → α → Prop} (h : ∀ s a, (next s a).isSome ↔ ok s a) {as : List α}
    {s : σ} : (after next as s).isSome ↔ Each next ok as s := by
  induction as generalizing s with
  | nil => exact iff_of_true rfl trivial
  | cons a as ih =>
    have hok := h s a
    rw [after, Each]
    cases hnext : next s a with
    | none =>
      rw [hnext] at hok
      exact iff_of_false Bool.false_ne_true fun hand => Bool.false_ne_true (hok.mpr hand.1)
    | some s' =>
      rw [hnext] at hok
      rw [Option.bind_some, ih, and_iff_right (hok.mp rfl)]
      refine ⟨fun hrest => ?_, fun hrest => hrest _ rfl⟩
      rintro _ ⟨⟩
      exact hrest

/-- Harm that no operation undoes: it is absent at the end exactly when no operation did it. -/
theorem each_iff_of_after {I Bad : σ → Prop} {ok : σ → α → Prop}
    (keeps : ∀ s a s', I s → next s a = some s' → I s')
    (stays : ∀ s a s', I s → Bad s → next s a = some s' → Bad s')
    (tells : ∀ s a s', I s → ¬ Bad s → next s a = some s' → (ok s a ↔ ¬ Bad s'))
    {as : List α} {s s' : σ} (h : I s) (hgood : ¬ Bad s) (hs : after next as s = some s') :
    Each next ok as s ↔ ¬ Bad s' := by
  induction as generalizing s with
  | nil => exact iff_of_true trivial (Option.some.inj hs ▸ hgood)
  | cons a as ih =>
    obtain ⟨t, ht, hrest⟩ := Option.bind_eq_some_iff.mp hs
    by_cases hbad : Bad t
    · have hend := after_keeps (I := fun s => I s ∧ Bad s)
        (fun s a s' h hs => ⟨keeps s a s' h.1 hs, stays s a s' h.1 h.2 hs⟩)
        ⟨keeps s a t h ht, hbad⟩ hrest
      exact iff_of_false (fun heach => (tells s a t h hgood ht).mp heach.1 hbad)
        (not_not_intro hend.2)
    · refine Iff.trans ?_ (ih (keeps s a t h ht) hbad hrest)
      refine ⟨fun heach => heach.2 t ht, fun heach =>
        ⟨(tells s a t h hgood ht).mpr hbad, fun s'' hs'' => ?_⟩⟩
      exact Option.some.inj (ht.symm.trans hs'') ▸ heach

end States

section Results
variable (impl : σ → α → Option (σ × β)) (spec : τ → α → τ × β)

/-- The results of an implementation, `none` where it has no defined behaviour. -/
def results : List α → σ → Option (List β)
  | [], _ => some []
  | a :: as, s => (impl s a).bind fun r => (results as r.1).map (r.2 :: ·)

def expected : List α → τ → List β
  | [], _ => []
  | a :: as, t => (spec t a).2 :: expected as (spec t a).1

variable {impl spec}

theorem expected_map {γ : Type*} (f : γ → α) (cs : List γ) (t : τ) :
    expected (fun t c => spec t (f c)) cs t = expected spec (cs.map f) t := by
  induction cs generalizing t with
  | nil => rfl
  | cons c cs ih => exact congrArg (_ :: ·) (ih _)

theorem results_sound {R : σ → τ → Prop} {ok : τ → α → Prop}
    (agrees : ∀ s t a s' b, R s t → ok t a → impl s a = some (s', b) →
      b = (spec t a).2 ∧ R s' (spec t a).1) {as : List α} {s : σ} {t : τ} (h : R s t)
    (hok : Each (fun t a => some (spec t a).1) ok as t) {bs : List β}
    (hbs : results impl as s = some bs) : bs = expected spec as t := by
  induction as generalizing s t bs with
  | nil => exact (Option.some.inj hbs).symm
  | cons a as ih =>
    obtain ⟨⟨s', b⟩, himpl, hmap⟩ := Option.bind_eq_some_iff.mp hbs
    obtain ⟨bs', hbs', rfl⟩ := Option.map_eq_some_iff.mp hmap
    obtain ⟨rfl, hR⟩ := agrees s t a s' b h hok.1 himpl
    rw [expected, ih hR (hok.2 _ rfl) hbs']

/-- Of the operations that may come, an implementation follows its reference on those that meet
`ok`, and has another result or none on the others. Then all its results are the expected ones
exactly when every operation meets `ok` in the state of the reference. -/
theorem results_eq_iff_of_each {R : σ → τ → Prop} {allowed ok : τ → α → Prop}
    (follows : ∀ s t a, R s t → allowed t a → ok t a →
      ∃ s', impl s a = some (s', (spec t a).2) ∧ R s' (spec t a).1)
    (differs : ∀ s t a, R s t → allowed t a → ¬ ok t a → ∀ s', impl s a ≠ some (s', (spec t a).2))
    {as : List α} {s : σ} {t : τ} (h : R s t)
    (hallowed : Each (fun t a => some (spec t a).1) allowed as t) :
    results impl as s = some (expected spec as t) ↔
      Each (fun t a => some (spec t a).1) ok as t := by
  induction as generalizing s t with
  | nil => exact iff_of_true rfl trivial
  | cons a as ih =>
    by_cases hok : ok t a
    · obtain ⟨s', himpl, hR⟩ := follows s t a h hallowed.1 hok
      have hrest := ih hR (hallowed.2 _ rfl)
      rw [results, himpl, Option.bind_some, expected]
      constructor
      · intro heq
        obtain ⟨bs, hbs, hcons⟩ := Option.map_eq_some_iff.mp heq
        refine ⟨hok, ?_⟩
        rintro _ ⟨⟩
        exact hrest.mp (hbs.trans (congrArg some (List.cons.inj hcons).2))
      · intro heach
        rw [hrest.mpr (heach.2 _ rfl)]
        rfl
    · refine iff_of_false (fun heq => ?_) fun heach => hok heach.1
      obtain ⟨⟨s', b⟩, himpl, hmap⟩ := Option.bind_eq_some_iff.mp heq
      obtain ⟨bs, -, hcons⟩ := Option.map_eq_some_iff.mp hmap
      obtain ⟨rfl, -⟩ := List.cons.inj hcons
      exact differs s t a h hallowed.1 hok s' himpl

theorem results_of_each {R : σ → τ → Prop} {ok : τ → α → Prop}
    (follows : ∀ s t a, R s t → ok t a →
      ∃ s', impl s a = some (s', (spec t a).2) ∧ R s' (spec t a).1) {as : List α} {s : σ} {t : τ}
    (h : R s t) (hok : Each (fun t a => some (spec t a).1) ok as t) :
    results impl as s = some (expected spec as t) := by
  refine (results_eq_iff_of_each (fun s t a hR _ => follows s t a hR) ?_ h hok).mpr hok
  exact fun s t a _ hmeets hnot => absurd hmeets hnot

theorem each_of_forall {next : τ → α → Option τ} {ok : τ → α → Prop} (h : ∀ t a, ok t a)
    (as : List α) (t : τ) : Each next ok as t := by
  induction as generalizing t with
  | nil => trivial
  | cons a as ih => exact ⟨h t a, fun t' _ => ih t'⟩

theorem results_eq_iff {R : σ → τ → Prop} {ok : τ → α → Prop}
    (follows : ∀ s t a, R s t → ok t a →
      ∃ s', impl s a = some (s', (spec t a).2) ∧ R s' (spec t a).1)
    (differs : ∀ s t a, R s t → ¬ ok t a → ∀ s', impl s a ≠ some (s', (spec t a).2)) {as : List α}
    {s : σ} {t : τ} (h : R s t) : results impl as s = some (expected spec as t) ↔
      Each (fun t a => some (spec t a).1) ok as t :=
  @results_eq_iff_of_each _ _ _ _ _ _ R (fun _ _ => True) ok (fun s t a hR _ => follows s t a hR)
    (fun s t a hR _ => differs s t a hR) as s t h (each_of_forall (fun _ _ => trivial) as t)

end Results

end History
