import ItcPlatform.LockFreeQueue.Conservation

/-! `size` while other threads push and pop. Its two loads bound the size from one side, and the
order of the loads, which the code leaves open, says from which. -/

namespace ItcPlatform.LockFreeQueue
open Interleaving
variable {T : Type*} {P : Params T} {ι : Type*} [DecidableEq T]

section Step
variable {i : ι} {a : Act T} {t t' : Traced P} {l l' : Option (Pc T)}
  (h : threads P i a t l = some (t', l'))
include h

theorem threads_account :
    t'.pushTickets + (t.stored.length + (callPhase l).toStore) =
        t.pushTickets + (t'.stored.length + (callPhase l').toStore) ∧
      t'.popTickets + (t.taken.length + (callPhase l).toTake) =
        t.popTickets + (t'.taken.length + (callPhase l').toTake) := by
  unfold threads at h
  split at h
  · rename_i c
    split_ifs at h
    obtain ⟨rfl, rfl⟩ := by simpa using h
    cases c <;> exact ⟨rfl, rfl⟩
  · obtain ⟨rfl, rfl⟩ := by simpa using h
    exact ⟨rfl, rfl⟩
  · obtain ⟨⟨q, pc', ev⟩, hstep, heq⟩ := Option.map_eq_some_iff.mp h
    obtain ⟨rfl, rfl⟩ := by simpa using heq
    have heff := step_effect hstep
    exact ⟨heff.push_account, heff.pop_account⟩
  · cases h

theorem threads_tickets_le : t.pushTickets ≤ t'.pushTickets ∧ t.popTickets ≤ t'.popTickets := by
  obtain ⟨rfl, -⟩ | ⟨pc, q, pc', ev, -, -, rfl, -⟩ := threads_cases h
  · exact ⟨le_rfl, le_rfl⟩
  · cases ev <;> simp [Traced.record]

end Step

section Backlog
variable [Fintype ι]

/-- The elements in the slots and those that a push has a ticket for, less the pops that have a
ticket for one. -/
def backlog (s : State ι (Traced P) (Option (Pc T))) : ℤ :=
  s.shared.queue.contents.card + ∑ i, (callPhase (s.locals i)).toStore -
    ∑ i, (callPhase (s.locals i)).toTake

variable [DecidableEq ι] {s s' : State ι (Traced P) (Option (Pc T))}

theorem backlog_eq (h : Run (threads P) anyStep (idleThreads P) s) :
    backlog s = s.shared.pushTickets - s.shared.popTickets := by
  have haccounts : s.shared.pushTickets = s.shared.stored.length +
        ∑ i, (callPhase (s.locals i)).toStore ∧
      s.shared.popTickets = s.shared.taken.length + ∑ i, (callPhase (s.locals i)).toTake := by
    refine h.invariant ?_ ?_
    · simp [idleThreads, Traced.new, callPhase, Phase.toStore, Phase.toTake]
    · rintro s i a t l ⟨hpush, hpop⟩ - hstep
      obtain ⟨hpush', hpop'⟩ := threads_account hstep
      exact ⟨balance_update (g := fun l => (callPhase l).toStore) hpush hpush',
        balance_update (g := fun l => (callPhase l).toTake) hpop hpop'⟩
  have hcard := congrArg Multiset.card (threads_invariant h).1.balance
  rw [Multiset.card_add, Multiset.coe_card, Multiset.coe_card] at hcard
  obtain ⟨hpush, hpop⟩ := haccounts
  rw [backlog, hpush, hpop, hcard]
  push_cast
  ring

end Backlog

section Run
variable [DecidableEq ι] {ok : State ι (Traced P) (Option (Pc T)) → ι → Act T → Prop}
  {s s₁ s₂ s' : State ι (Traced P) (Option (Pc T))} {i : ι} {tailFirst : Bool} {n : BitVec 32}

theorem tickets_mono (h : Run (threads P) ok s s') :
    s.shared.pushTickets ≤ s'.shared.pushTickets ∧
      s.shared.popTickets ≤ s'.shared.popTickets := by
  refine h.invariant ⟨le_rfl, le_rfl⟩ ?_
  rintro s i a t l ⟨hpush, hpop⟩ - hstep
  obtain ⟨hpush', hpop'⟩ := threads_tickets_le hstep
  exact ⟨hpush.trans hpush', hpop.trans hpop'⟩

def butFor (i : ι) : State ι (Traced P) (Option (Pc T)) → ι → Act T → Prop := fun _ j _ => j ≠ i

theorem locals_butFor (h : Run (threads P) (butFor i) s s') : s'.locals i = s.locals i := by
  refine h.invariant rfl ?_
  rintro s j a t l hkept hne -
  exact (Function.update_of_ne (Ne.symm hne) _ _).trans hkept

/-- A call of `size` by thread `i`: its first load leads to `s₁`, the second one is made in `s₂`,
and the other threads take steps in between. -/
structure Sizes (i : ι) (tailFirst : Bool) (s₁ s₂ : State ι (Traced P) (Option (Pc T)))
    (n : BitVec 32) : Prop where
  first : ∃ s₀, Run (threads P) anyStep (idleThreads P) s₀ ∧ s₀.locals i = some .sizeLoad ∧
    fire (threads P) i (.access tailFirst) s₀ = some s₁
  between : Run (threads P) (butFor i) s₁ s₂
  second : ∃ choice s₃, fire (threads P) i (.access choice) s₂ = some s₃ ∧
    s₃.locals i = some (.returned (.sized n))

/-- The counters do not run away from each other during the call. -/
structure InRange (s₁ s₂ : State ι (Traced P) (Option (Pc T))) : Prop where
  ahead : s₂.shared.pushTickets < s₁.shared.popTickets + 2 ^ 31
  behind : s₂.shared.popTickets ≤ s₁.shared.pushTickets + 2 ^ 31

theorem sizeOf_ofNat {a b : ℕ} (h : a < b + 2 ^ 31) (h' : b ≤ a + 2 ^ 31) :
    ((sizeOf (BitVec.ofNat 32 a) (BitVec.ofNat 32 b)).toNat : ℤ) = max (a - b) 0 := by
  have hint := toInt_ofNat_sub h h'
  rw [sizeOf]
  split_ifs with hneg
  · have hlt := BitVec.slt_iff_toInt_lt.mp hneg
    rw [hint] at hlt
    change (a - b : ℤ) < 0 at hlt
    change (0 : ℤ) = _
    omega
  · have hmsb := BitVec.slt_zero_eq_msb.symm.trans (Bool.eq_false_iff.mpr hneg)
    rw [BitVec.toInt_eq_toNat_of_msb hmsb] at hint
    rw [hint]
    omega

section Call
variable (h : Sizes i tailFirst s₁ s₂ n)
include h

theorem Sizes.run : Run (threads P) anyStep (idleThreads P) s₁ := by
  obtain ⟨s₀, hrun, -, hfire⟩ := h.first
  exact .step hrun trivial hfire

theorem Sizes.run_of_between (hs : Run (threads P) (butFor i) s₁ s) :
    Run (threads P) anyStep (idleThreads P) s :=
  h.run.trans (hs.mono fun _ _ _ _ => trivial)

theorem Sizes.loaded : s₁.locals i = some (if tailFirst then .sizeLoadHead s₁.shared.queue.mTail
    else .sizeLoadTail s₁.shared.queue.mHead) := by
  obtain ⟨s₀, -, hload, hfire⟩ := h.first
  obtain ⟨t, l, hstep, rfl⟩ := fire_eq_some.mp hfire
  rw [hload] at hstep
  cases tailFirst
  all_goals
    obtain ⟨rfl, rfl⟩ := Prod.mk.inj (Option.some.inj hstep)
    exact Function.update_self _ _ _

theorem Sizes.eq_sizeOf : n = if tailFirst
    then sizeOf s₂.shared.queue.mHead s₁.shared.queue.mTail
    else sizeOf s₁.shared.queue.mHead s₂.shared.queue.mTail := by
  obtain ⟨choice, s₃, hfire, hreturned⟩ := h.second
  obtain ⟨t, l, hstep, rfl⟩ := fire_eq_some.mp hfire
  rw [locals_butFor h.between, h.loaded] at hstep
  dsimp only at hreturned
  rw [Function.update_self] at hreturned
  subst hreturned
  cases tailFirst
  all_goals
    have hsized := congrArg Prod.snd (Option.some.inj hstep)
    simpa [eq_comm] using hsized

theorem Sizes.toNat_eq (hrange : InRange s₁ s₂) :
    (n.toNat : ℤ) = max (if tailFirst then s₂.shared.pushTickets - s₁.shared.popTickets
      else s₁.shared.pushTickets - s₂.shared.popTickets) 0 := by
  obtain ⟨hahead, hbehind⟩ := hrange
  obtain ⟨hpush, hpop⟩ := tickets_mono h.between
  have hsound₁ := (threads_invariant h.run).1
  have hsound₂ := (threads_invariant (h.run_of_between h.between)).1
  rw [h.eq_sizeOf]
  cases tailFirst with
  | false =>
    simp only [Bool.false_eq_true, if_false, hsound₁.head, hsound₂.tail]
    exact sizeOf_ofNat (by omega) (by omega)
  | true =>
    simp only [if_true, hsound₂.head, hsound₁.tail]
    exact sizeOf_ofNat (by omega) (by omega)

variable [Fintype ι]

/-- Where `size` loads the head first, there were at no moment between its loads fewer elements
than it returns; where it loads the tail first, there were at no moment more. -/
theorem size_bounds_backlog (hrange : InRange s₁ s₂) (hs : Run (threads P) (butFor i) s₁ s)
    (hs' : Run (threads P) (butFor i) s s₂) :
    if tailFirst then max (backlog s) 0 ≤ n.toNat else n.toNat ≤ max (backlog s) 0 := by
  have hvalue := h.toNat_eq hrange
  obtain ⟨hpush, hpop⟩ := tickets_mono hs
  obtain ⟨hpush', hpop'⟩ := tickets_mono hs'
  have hbacklog := backlog_eq (h.run_of_between hs)
  cases tailFirst with
  | false =>
    simp only [Bool.false_eq_true, if_false] at hvalue ⊢
    omega
  | true =>
    simp only [if_true] at hvalue ⊢
    omega

end Call
end Run

def pushingThenSizing : List (Fin 2 × Act ℕ) :=
  [(0, .call (.push 7)), (0, .access false), (1, .call .size)]

def pushingOn : List (Fin 2 × Act ℕ) :=
  [(0, .access false), (0, .access false), (0, .call (.push 8)), (0, .access false)]

instance (i : ι) [DecidableEq ι] (s : State ι (Traced P) (Option (Pc T))) (j : ι) (a : Act T) :
    Decidable (butFor i s j a) := inferInstanceAs (Decidable (j ≠ i))

theorem size_bounds_backlog_pushingOn :
    ∃ s₁ s₂ : State (Fin 2) (Traced fourSlots) (Option (Pc ℕ)), Sizes 1 false s₁ s₂ 1 ∧
      backlog s₂ = 2 ∧ ((1 : BitVec 32).toNat : ℤ) ≤ max (backlog s₂) 0 := by
  obtain ⟨s₀, s₁, s₂, s₃, hexec, hload, hfirst, hbetween, hsecond, hreturned, hbacklog, hpushes,
      hpops⟩ : ∃ s₀ s₁ s₂ s₃ : State (Fin 2) (Traced fourSlots) (Option (Pc ℕ)),
      exec (threads fourSlots) anyStep pushingThenSizing (idleThreads fourSlots) = some s₀ ∧
      s₀.locals 1 = some .sizeLoad ∧
      fire (threads fourSlots) 1 (.access false) s₀ = some s₁ ∧
      exec (threads fourSlots) (butFor 1) pushingOn s₁ = some s₂ ∧
      fire (threads fourSlots) 1 (.access false) s₂ = some s₃ ∧
      s₃.locals 1 = some (.returned (.sized 1)) ∧ backlog s₂ = 2 ∧
      s₂.shared.pushTickets = 2 ∧ s₂.shared.popTickets = 0 :=
    ⟨_, _, _, _, rfl, rfl, rfl, rfl, rfl, rfl, by decide, rfl, rfl⟩
  have hsizes : Sizes 1 false s₁ s₂ 1 :=
    ⟨⟨s₀, exec_run hexec .start, hload, hfirst⟩, exec_run hbetween .start, ⟨_, s₃, hsecond,
      hreturned⟩⟩
  have hrange : InRange s₁ s₂ := ⟨by omega, by omega⟩
  exact ⟨s₁, s₂, hsizes, hbacklog,
    size_bounds_backlog hsizes hrange (exec_run hbetween .start) .start⟩

end ItcPlatform.LockFreeQueue
