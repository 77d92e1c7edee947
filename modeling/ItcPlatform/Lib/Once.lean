import ItcPlatform.Lib.Interleaving

/-! Objects that are made by the first call that asks for one of their class, each class under a
lock of its own. Making one may ask for objects of lower classes, with the lock held. -/

namespace Once
open Interleaving
variable {κ ι : Type*}

structure Makers (κ : Type*) where
  calls : κ → List κ
  rank : κ → ℕ
  rank_lt : ∀ c, ∀ d ∈ calls c, rank d < rank c

inductive Stage (κ : Type*)
  | locking
  /-- the object under construction, and the classes it still asks for -/
  | making (object : ℕ) (rest : List κ)
  | returning

structure Frame (κ : Type*) where
  cls : κ
  stage : Stage κ

/-- The holders of the locks, the objects by class, and the classes of the objects in the order in
which they were begun. -/
structure Objects (κ ι : Type*) where
  holder : κ → Option ι
  instanceOf : κ → Option ℕ
  made : List κ

structure Caller (κ : Type*) where
  stack : List (Frame κ)
  results : List (κ × Option ℕ)

inductive Action (κ : Type*)
  | call (c : κ)
  | step
  deriving DecidableEq

def Caller.at (th : Caller κ) (stack : List (Frame κ)) : Caller κ := { th with stack }

def noObjects : State ι (Objects κ ι) (Caller κ) :=
  ⟨⟨fun _ => none, fun _ => none, []⟩, fun _ => ⟨[], []⟩⟩

variable [DecidableEq κ]

def Objects.lock (o : Objects κ ι) (i : ι) (c : κ) : Objects κ ι :=
  { o with holder := Function.update o.holder c (some i) }

/-- A call locks its class, makes the object if there is none, and returns it. -/
def once (K : Makers κ) : Program ι (Action κ) (Objects κ ι) (Caller κ) := fun i a o th =>
  match a, th.stack with
  | .call c, [] => some (o, th.at [⟨c, .locking⟩])
  | .step, ⟨c, .locking⟩ :: rest =>
    if (o.holder c).isSome then none
    else if (o.instanceOf c).isSome then some (o.lock i c, th.at (⟨c, .returning⟩ :: rest))
    else
      some ({ o.lock i c with made := o.made ++ [c] },
        th.at (⟨c, .making o.made.length (K.calls c)⟩ :: rest))
  | .step, ⟨c, .making n (d :: ds)⟩ :: rest =>
    some (o, th.at (⟨d, .locking⟩ :: ⟨c, .making n ds⟩ :: rest))
  | .step, ⟨c, .making n []⟩ :: rest =>
    some ({ o with instanceOf := Function.update o.instanceOf c (some n) },
      th.at (⟨c, .returning⟩ :: rest))
  | .step, ⟨c, .returning⟩ :: rest =>
    some ({ o with holder := Function.update o.holder c none },
      ⟨rest, th.results ++ [(c, o.instanceOf c)]⟩)
  | _, _ => none

inductive Move (K : Makers κ) (i : ι) (o : Objects κ ι) (th : Caller κ) :
    Objects κ ι → Caller κ → Prop
  | called {c : κ} (h : th.stack = []) : Move K i o th o (th.at [⟨c, .locking⟩])
  | found {c : κ} {rest : List (Frame κ)} (h : th.stack = ⟨c, .locking⟩ :: rest)
      (hfree : o.holder c = none) (hmade : o.instanceOf c ≠ none) :
      Move K i o th (o.lock i c) (th.at (⟨c, .returning⟩ :: rest))
  | begun {c : κ} {rest : List (Frame κ)} (h : th.stack = ⟨c, .locking⟩ :: rest)
      (hfree : o.holder c = none) (hnew : o.instanceOf c = none) :
      Move K i o th { o.lock i c with made := o.made ++ [c] }
        (th.at (⟨c, .making o.made.length (K.calls c)⟩ :: rest))
  | asked {c d : κ} {n : ℕ} {ds : List κ} {rest : List (Frame κ)}
      (h : th.stack = ⟨c, .making n (d :: ds)⟩ :: rest) :
      Move K i o th o (th.at (⟨d, .locking⟩ :: ⟨c, .making n ds⟩ :: rest))
  | finished {c : κ} {n : ℕ} {rest : List (Frame κ)} (h : th.stack = ⟨c, .making n []⟩ :: rest) :
      Move K i o th { o with instanceOf := Function.update o.instanceOf c (some n) }
        (th.at (⟨c, .returning⟩ :: rest))
  | returned {c : κ} {rest : List (Frame κ)} (h : th.stack = ⟨c, .returning⟩ :: rest) :
      Move K i o th { o with holder := Function.update o.holder c none }
        ⟨rest, th.results ++ [(c, o.instanceOf c)]⟩

variable {K : Makers κ} {i : ι} {a : Action κ} {o o' : Objects κ ι} {th th' : Caller κ}

theorem once_move (h : once K i a o th = some (o', th')) : Move K i o th o' th' := by
  unfold once at h
  split at h
  · rename_i hstack
    obtain ⟨rfl, rfl⟩ := Prod.mk.inj (Option.some.inj h)
    exact .called hstack
  · rename_i hstack
    split_ifs at h with hheld hmade
    · obtain ⟨rfl, rfl⟩ := Prod.mk.inj (Option.some.inj h)
      exact .found hstack (by simpa using hheld) (Option.isSome_iff_ne_none.mp hmade)
    · obtain ⟨rfl, rfl⟩ := Prod.mk.inj (Option.some.inj h)
      exact .begun hstack (by simpa using hheld) (by simpa using hmade)
  · rename_i hstack
    obtain ⟨rfl, rfl⟩ := Prod.mk.inj (Option.some.inj h)
    exact .asked hstack
  · rename_i hstack
    obtain ⟨rfl, rfl⟩ := Prod.mk.inj (Option.some.inj h)
    exact .finished hstack
  · rename_i hstack
    obtain ⟨rfl, rfl⟩ := Prod.mk.inj (Option.some.inj h)
    exact .returned hstack
  · cases h

def Holds (stack : List (Frame κ)) (c : κ) : Prop := ∃ f ∈ stack, f.cls = c ∧ f.stage ≠ .locking

section Holds
omit [DecidableEq κ]
variable {f : Frame κ} {stack : List (Frame κ)} {c : κ}

@[simp] theorem not_holds_nil : ¬ Holds [] c := by simp [Holds]

@[simp] theorem holds_cons :
    Holds (f :: stack) c ↔ (f.cls = c ∧ f.stage ≠ .locking) ∨ Holds stack c := by
  simp [Holds]

end Holds

inductive Fits (K : Makers κ) (o : Objects κ ι) : Frame κ → Prop
  | locking {c : κ} : Fits K o ⟨c, .locking⟩
  | making {c : κ} {n : ℕ} {rest : List κ} (new : o.instanceOf c = none)
      (begun : o.made[n]? = some c) (lower : ∀ d ∈ rest, K.rank d < K.rank c) :
      Fits K o ⟨c, .making n rest⟩
  | returning {c : κ} (made : o.instanceOf c ≠ none) : Fits K o ⟨c, .returning⟩

/-- A thread climbs down the ranks, holds the locks of its frames, and was given the objects that
there are. -/
structure Good (K : Makers κ) (o : Objects κ ι) (i : ι) (th : Caller κ) : Prop where
  climbs : th.stack.Pairwise fun f g => K.rank f.cls < K.rank g.cls
  holder : ∀ c, o.holder c = some i ↔ Holds th.stack c
  fits : ∀ f ∈ th.stack, Fits K o f
  results : ∀ r ∈ th.results, ∃ n, r.2 = some n ∧ o.instanceOf r.1 = some n

structure Sound (K : Makers κ) (s : State ι (Objects κ ι) (Caller κ)) : Prop where
  good : ∀ i, Good K s.shared i (s.locals i)
  nodup : s.shared.made.Nodup
  objects : ∀ c (n : ℕ), s.shared.instanceOf c = some n → s.shared.made[n]? = some c
  begun : ∀ c ∈ s.shared.made, s.shared.instanceOf c = none → s.shared.holder c ≠ none

structure Undisturbed (o o' : Objects κ ι) (j : ι) : Prop where
  holder : ∀ c, o'.holder c = some j ↔ o.holder c = some j
  made : ∀ (n : ℕ) c, o.made[n]? = some c → o'.made[n]? = some c
  instanceOf : ∀ c, o'.instanceOf c = o.instanceOf c ∨
    o.instanceOf c = none ∧ o.holder c ≠ some j

section Good
omit [DecidableEq κ]
variable {j : ι} {f : Frame κ}

theorem Fits.mono (h : Fits K o f)
    (hmade : ∀ (n : ℕ) c, o.made[n]? = some c → o'.made[n]? = some c)
    (hinstance : f.stage ≠ .locking → o'.instanceOf f.cls = o.instanceOf f.cls) :
    Fits K o' f := by
  cases h with
  | locking => exact .locking
  | making new begun lower => exact .making ((hinstance nofun).trans new) (hmade _ _ begun) lower
  | returning made => exact .returning ((hinstance nofun).symm ▸ made)

theorem Good.undisturbed (h : Good K o j th) (hkept : Undisturbed o o' j) : Good K o' j th := by
  refine ⟨h.climbs, fun c => (hkept.holder c).trans (h.holder c), fun f hf => ?_, fun r hr => ?_⟩
  · refine (h.fits f hf).mono hkept.made fun hholds => ?_
    exact (hkept.instanceOf f.cls).resolve_right fun hnot =>
      hnot.2 ((h.holder f.cls).mpr ⟨f, hf, rfl, hholds⟩)
  · obtain ⟨n, hn, hinstance⟩ := h.results r hr
    refine ⟨n, hn, ?_⟩
    obtain hsame | ⟨hnone, -⟩ := hkept.instanceOf r.1
    · exact hsame.trans hinstance
    · cases hnone.symm.trans hinstance

end Good

section Step
variable {j : ι}

theorem update_holder_iff {holder : κ → Option ι} {c : κ} {h : Option ι} (hold : holder c ≠ some j)
    (hnew : h ≠ some j) (d : κ) : Function.update holder c h d = some j ↔ holder d = some j := by
  by_cases hd : d = c
  · subst hd
    rw [Function.update_self]
    exact iff_of_false hnew hold
  · rw [Function.update_of_ne hd]

theorem Move.undisturbed (h : Move K i o th o' th') (hi : Good K o i th) (hj : j ≠ i) :
    Undisturbed o o' j := by
  have hother : some i ≠ some j := fun heq => hj (Option.some.inj heq).symm
  have hfree {c : κ} (hfree : o.holder c = none) : o.holder c ≠ some j := hfree ▸ nofun
  have hmine {c : κ} {f : Frame κ} {rest : List (Frame κ)} (hstack : th.stack = f :: rest)
      (hc : f.cls = c) (hholds : f.stage ≠ .locking) : o.holder c ≠ some j := by
    have hheld : o.holder c = some i := (hi.holder c).mpr ⟨f, by simp [hstack], hc, hholds⟩
    exact hheld ▸ hother
  have hmade (c : κ) (n : ℕ) (d : κ) (hd : o.made[n]? = some d) : (o.made ++ [c])[n]? = some d := by
    rw [List.getElem?_append_left (List.getElem?_eq_some_iff.mp hd).1, hd]
  cases h with
  | called | asked => exact ⟨fun _ => Iff.rfl, fun _ _ hn => hn, fun _ => .inl rfl⟩
  | found hstack hfree' hmade =>
    exact ⟨update_holder_iff (hfree hfree') hother, fun _ _ hn => hn, fun _ => .inl rfl⟩
  | @begun c _ hstack hfree' hnew =>
    exact ⟨update_holder_iff (hfree hfree') hother, hmade c, fun _ => .inl rfl⟩
  | @finished c n _ hstack =>
    refine ⟨fun _ => Iff.rfl, fun _ _ hn => hn, fun d => ?_⟩
    by_cases hd : d = c
    · subst hd
      have hfits := hi.fits ⟨d, .making n []⟩ (by simp [hstack])
      cases hfits with
      | making new => exact .inr ⟨new, hmine hstack rfl nofun⟩
    · exact .inl (Function.update_of_ne hd _ _)
  | returned hstack =>
    exact ⟨update_holder_iff (hmine hstack rfl nofun) nofun, fun _ _ hn => hn, fun _ => .inl rfl⟩

omit [DecidableEq κ] in
theorem Good.rest {c : κ} {stage : Stage κ} {rest : List (Frame κ)} (h : Good K o i th)
    (hstack : th.stack = ⟨c, stage⟩ :: rest) :
    (∀ f ∈ rest, K.rank c < K.rank f.cls) ∧
      rest.Pairwise (fun f g => K.rank f.cls < K.rank g.cls) ∧
      Fits K o ⟨c, stage⟩ ∧ (∀ f ∈ rest, Fits K o f) ∧ ¬ Holds rest c := by
  have hclimbs := h.climbs
  have hfits := h.fits
  rw [hstack] at hclimbs hfits
  obtain ⟨hlower, hrest⟩ := List.pairwise_cons.mp hclimbs
  refine ⟨hlower, hrest, hfits _ (List.mem_cons_self ..), fun f hf =>
    hfits f (List.mem_cons_of_mem _ hf), ?_⟩
  rintro ⟨f, hf, rfl, -⟩
  exact Nat.lt_irrefl _ (hlower f hf)

theorem Good.locked {c : κ} {stage : Stage κ} {rest : List (Frame κ)} {made : List κ}
    (h : Good K o i th) (hstack : th.stack = ⟨c, .locking⟩ :: rest)
    (hmade : ∀ (n : ℕ) c, o.made[n]? = some c → made[n]? = some c) (hstage : stage ≠ .locking)
    (hfits : Fits K { o with made } ⟨c, stage⟩) :
    Good K { o.lock i c with made } i (th.at (⟨c, stage⟩ :: rest)) := by
  obtain ⟨hlower, hpairwise, -, hrest, -⟩ := h.rest hstack
  refine ⟨List.pairwise_cons.mpr ⟨hlower, hpairwise⟩, fun d => ?_, fun f hf => ?_, h.results⟩
  · have hholder := h.holder d
    rw [hstack] at hholder
    by_cases hd : d = c
    · subst hd
      simp [Objects.lock, Caller.at, hstage]
    · simpa [Objects.lock, Caller.at, hd, Ne.symm hd] using hholder
  · obtain rfl | hf := List.mem_cons.mp hf
    · exact hfits.mono (fun _ _ hn => hn) fun _ => rfl
    · exact (hrest f hf).mono hmade fun _ => rfl

theorem Move.good (h : Move K i o th o' th') (hi : Good K o i th) : Good K o' i th' := by
  cases h with
  | @called c hstack =>
    refine ⟨List.pairwise_singleton _ _, fun d => ?_, fun f hf => ?_, hi.results⟩
    · rw [hi.holder d, hstack]
      simp [Caller.at]
    · obtain rfl := List.mem_singleton.mp hf
      exact .locking
  | found hstack _ hmade =>
    exact hi.locked hstack (fun _ _ hn => hn) nofun (.returning hmade)
  | @begun c rest hstack _ hnew =>
    refine hi.locked hstack (fun n d hn => ?_) nofun
      (.making hnew (by simp) (K.rank_lt c))
    rw [List.getElem?_append_left (List.getElem?_eq_some_iff.mp hn).1, hn]
  | @asked c d n ds rest hstack =>
    obtain ⟨hlower, hpairwise, hfits, hrest, -⟩ := hi.rest hstack
    cases hfits with
    | making new begun lower =>
      have hd := lower d (List.mem_cons_self ..)
      refine ⟨?_, fun e => ?_, fun f hf => ?_, hi.results⟩
      · refine List.pairwise_cons.mpr ⟨fun f hf => ?_, List.pairwise_cons.mpr ⟨hlower, hpairwise⟩⟩
        obtain rfl | hf := List.mem_cons.mp hf
        · exact hd
        · exact hd.trans (hlower f hf)
      · rw [hi.holder e, hstack]
        simp [Caller.at]
      · obtain rfl | hf := List.mem_cons.mp hf
        · exact .locking
        obtain rfl | hf := List.mem_cons.mp hf
        · exact .making new begun fun e he => lower e (List.mem_cons_of_mem _ he)
        · exact hrest f hf
  | @finished c n rest hstack =>
    obtain ⟨hlower, hpairwise, hfits, hrest, -⟩ := hi.rest hstack
    refine ⟨List.pairwise_cons.mpr ⟨hlower, hpairwise⟩, fun d => ?_, fun f hf => ?_, fun r hr => ?_⟩
    · rw [hi.holder d, hstack]
      simp [Caller.at]
    · obtain rfl | hin := List.mem_cons.mp hf
      · exact .returning (by simp)
      · refine (hrest f hin).mono (fun _ _ hn => hn) fun _ => Function.update_of_ne ?_ _ _
        rintro rfl
        exact Nat.lt_irrefl _ (hlower f hin)
    · obtain ⟨m, hm, hinstance⟩ := hi.results r hr
      refine ⟨m, hm, (Function.update_of_ne ?_ _ _).trans hinstance⟩
      rintro rfl
      cases hfits with
      | making new => cases new.symm.trans hinstance
  | @returned c rest hstack =>
    obtain ⟨-, hpairwise, hfits, hrest, hnot⟩ := hi.rest hstack
    refine ⟨hpairwise, fun d => ?_, fun f hf => (hrest f hf).mono (fun _ _ hn => hn) fun _ => rfl,
      fun r hr => ?_⟩
    · have hholder := hi.holder d
      rw [hstack] at hholder
      by_cases hd : d = c
      · subst hd
        simpa using hnot
      · simpa [hd, Ne.symm hd] using hholder
    · obtain hr | hr := List.mem_append.mp hr
      · exact hi.results r hr
      · obtain rfl := List.mem_singleton.mp hr
        cases hfits with
        | returning made =>
          obtain ⟨n, hn⟩ := Option.ne_none_iff_exists'.mp made
          exact ⟨n, hn, hn⟩

theorem Sound.step {s : State ι (Objects κ ι) (Caller κ)} [DecidableEq ι] (h : Sound K s)
    (hmove : Move K i s.shared (s.locals i) o' th') :
    Sound K ⟨o', Function.update s.locals i th'⟩ := by
  have hgood (j : ι) : Good K o' j (Function.update s.locals i th' j) :=
    forall_update h.good (hmove.good (h.good i)) (fun j hj hgood =>
      hgood.undisturbed (hmove.undisturbed (h.good i) hj)) j
  cases hmove with
  | called | asked => exact ⟨hgood, h.nodup, h.objects, h.begun⟩
  | @found c _ _ _ hmade =>
    refine ⟨hgood, h.nodup, h.objects, fun d hd hnone => ?_⟩
    have hne : d ≠ c := fun heq => hmade (heq ▸ hnone)
    exact (Function.update_of_ne hne _ _).trans_ne (h.begun d hd hnone)
  | @begun c _ _ hfree hnew =>
    have hfresh : c ∉ s.shared.made := fun hc => h.begun c hc hnew hfree
    refine ⟨hgood, ?_, fun d n hd => ?_, fun d hd hnone => ?_⟩
    · refine List.nodup_append.mpr ⟨h.nodup, List.nodup_singleton c, ?_⟩
      rintro d hd _ hc rfl
      exact hfresh (List.mem_singleton.mp hc ▸ hd)
    · have hn := h.objects d n hd
      rw [List.getElem?_append_left (List.getElem?_eq_some_iff.mp hn).1, hn]
    · by_cases hdc : d = c
      · subst hdc
        simp [Objects.lock]
      · have hd' : d ∈ s.shared.made := by simpa [hdc] using hd
        exact (Function.update_of_ne hdc _ _).trans_ne (h.begun d hd' hnone)
  | @finished c n rest hstack =>
    obtain ⟨-, -, hfits, -, -⟩ := (h.good i).rest hstack
    refine ⟨hgood, h.nodup, fun d m hd => ?_, fun d hd hnone => ?_⟩
    · by_cases hdc : d = c
      · subst hdc
        obtain rfl : n = m := by simpa using hd
        cases hfits with
        | making _ begun => exact begun
      · exact h.objects d m (by simpa [hdc] using hd)
    · have hdc : d ≠ c := by
        rintro rfl
        simp at hnone
      exact h.begun d hd (by simpa [hdc] using hnone)
  | @returned c rest hstack =>
    obtain ⟨-, -, hfits, -, -⟩ := (h.good i).rest hstack
    refine ⟨hgood, h.nodup, h.objects, fun d hd hnone => ?_⟩
    have hdc : d ≠ c := by
      rintro rfl
      cases hfits with
      | returning made => exact made hnone
    exact (Function.update_of_ne hdc _ _).trans_ne (h.begun d hd hnone)

end Step

theorem Sound.of_run [DecidableEq ι] {s : State ι (Objects κ ι) (Caller κ)}
    {ok : State ι (Objects κ ι) (Caller κ) → ι → Action κ → Prop}
    (h : Run (once K) ok noObjects s) : Sound K s := by
  refine h.invariant ⟨fun i => ?_, .nil, nofun, nofun⟩ fun s i a o' th' ih _ hstep =>
    ih.step (once_move hstep)
  exact ⟨.nil, fun c => by simp [noObjects], nofun, nofun⟩

section Progress
variable [DecidableEq ι] {s s' : State ι (Objects κ ι) (Caller κ)}

def stepOnly : State ι (Objects κ ι) (Caller κ) → ι → Action κ → Prop := fun _ _ a => a = .step

omit [DecidableEq ι] in
theorem exists_step {f : Frame κ} {rest : List (Frame κ)} (h : th.stack = f :: rest)
    (hfree : f.stage = .locking → o.holder f.cls = none) :
    ∃ r, once K i .step o th = some r := by
  obtain ⟨c, stage⟩ := f
  unfold once
  rw [h]
  cases stage with
  | locking =>
    have hholder : o.holder c = none := hfree rfl
    dsimp only
    rw [hholder]
    split_ifs
    · exact absurd ‹_› (by simp)
    · exact ⟨_, rfl⟩
    · exact ⟨_, rfl⟩
  | making n rest =>
    cases rest with
    | nil => exact ⟨_, rfl⟩
    | cons d ds => exact ⟨_, rfl⟩
  | returning => exact ⟨_, rfl⟩

omit [DecidableEq ι] in
theorem Sound.exists_step_of_locking (h : Sound K s) (n : ℕ) {i : ι} {c : κ}
    {rest : List (Frame κ)} (hstack : (s.locals i).stack = ⟨c, .locking⟩ :: rest)
    (hn : K.rank c = n) : ∃ j r, once K j .step s.shared (s.locals j) = some r := by
  induction n using Nat.strong_induction_on generalizing i c rest with
  | h n ih =>
    cases hholder : s.shared.holder c with
    | none => exact ⟨i, exists_step hstack fun _ => hholder⟩
    | some j =>
      have hholds := ((h.good j).holder c).mp hholder
      obtain ⟨f, rest', hj⟩ : ∃ f rest', (s.locals j).stack = f :: rest' := by
        cases hj : (s.locals j).stack with
        | nil => simp [hj] at hholds
        | cons f rest' => exact ⟨f, rest', rfl⟩
      by_cases hwaits : f.stage = .locking
      · obtain ⟨d, stage⟩ := f
        obtain rfl : stage = .locking := hwaits
        obtain ⟨hlower, -⟩ := (h.good j).rest hj
        obtain ⟨g, hg, rfl, hstage⟩ : Holds rest' c := by simpa [hj] using hholds
        exact ih _ (hn ▸ hlower g hg) hj rfl
      · exact ⟨j, exists_step hj fun hlocking => absurd hlocking hwaits⟩

omit [DecidableEq ι] in
theorem Sound.exists_step (h : Sound K s) (hbusy : ∃ i, (s.locals i).stack ≠ []) :
    ∃ j r, once K j .step s.shared (s.locals j) = some r := by
  obtain ⟨i, hi⟩ := hbusy
  obtain ⟨⟨c, stage⟩, rest, hstack⟩ := List.exists_cons_of_ne_nil hi
  cases stage with
  | locking => exact h.exists_step_of_locking _ hstack rfl
  | making | returning => exact ⟨i, Once.exists_step hstack nofun⟩

def Makers.work (K : Makers κ) (c : κ) : ℕ :=
  3 + ((K.calls c).attach.map fun d => 1 + K.work d.1).sum
termination_by K.rank c
decreasing_by exact K.rank_lt c d.1 d.2

omit [DecidableEq κ] in
theorem Makers.work_eq (c : κ) : K.work c = 3 + ((K.calls c).map fun d => 1 + K.work d).sum := by
  rw [work]
  exact congrArg (3 + List.sum ·) (List.attach_map_val (f := fun d => 1 + K.work d))

def Stage.work (K : Makers κ) (c : κ) : Stage κ → ℕ
  | .locking => K.work c
  | .making _ rest => 2 + (rest.map fun d => 1 + K.work d).sum
  | .returning => 1

def Caller.work (K : Makers κ) (th : Caller κ) : ℕ :=
  (th.stack.map fun f => f.stage.work K f.cls).sum

omit [DecidableEq ι] in
theorem work_lt (h : once K i .step o th = some (o', th')) : th'.work K < th.work K := by
  cases once_move h with
  | called hstack => simp [once, hstack] at h
  | @found c _ hstack | @begun c _ hstack =>
    have hwork := K.work_eq c
    simp only [Caller.work, Caller.at, hstack, Stage.work, List.map_cons, List.sum_cons]
    omega
  | asked hstack | finished hstack | returned hstack =>
    simp [Caller.work, Caller.at, hstack, Stage.work] <;> omega

variable [Fintype ι]

/-- From wherever a run stands, the calls it is in can be completed without another call. -/
theorem Sound.completes (h : Sound K s) :
    ∃ s', Run (once K) stepOnly s s' ∧ ∀ i, (s'.locals i).stack = [] := by
  have hstep (s : State ι (Objects κ ι) (Caller κ)) (hs : Sound K s)
      (hbusy : ¬ ∀ i, (s.locals i).stack = []) : ∃ s', Run (once K) stepOnly s s' ∧ Sound K s' ∧
        ∑ i, (s'.locals i).work K < ∑ i, (s.locals i).work K := by
    obtain ⟨i, ⟨o, th⟩, hmove⟩ := hs.exists_step (not_forall.mp hbusy)
    refine ⟨⟨o, Function.update s.locals i th⟩, ?_, hs.step (once_move hmove), ?_⟩
    · exact .step .start rfl (fire_eq_some.mpr ⟨_, _, hmove, rfl⟩)
    · have hsum := sum_update (Caller.work K) s.locals i th
      have hlt := work_lt hmove
      dsimp only
      omega
  obtain ⟨s', hrun, -, hdone⟩ := exists_run_done _ hstep h
  exact ⟨s', hrun, hdone⟩

end Progress

end Once
