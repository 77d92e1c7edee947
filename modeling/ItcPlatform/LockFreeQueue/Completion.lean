import ItcPlatform.LockFreeQueue.Progress

/-! Where as many pushes as pops were issued, the blocking calls can all run to their end, and leave
the queue empty. -/

namespace ItcPlatform.LockFreeQueue
open Interleaving
variable {T : Type*} {P : Params T}

def Phase.weight : Phase T → ℕ
  | wantsPush _ | wantsPop => 3
  | storing _ _ | emptying _ | measuring => 2
  | returned _ => 1

def weight (l : Option (Pc T)) : ℕ := l.elim 0 fun pc => pc.phase.weight

def accessOnly {σ L ι : Type*} : State ι σ L → ι → Act T → Prop :=
  fun _ _ a => ∃ choice, a = .access choice

section Step
variable {q q' : Queue P} {f f' : Phase T} {ev : Event T}

theorem Effect.weight_lt (h : Effect P q f ev q' f') (hev : ev ≠ .silent) :
    f'.weight < f.weight := by
  cases h <;> first | exact absurd rfl hev | exact Nat.lt_of_sub_eq_succ rfl

end Step

section Run
variable [DecidableEq T] {ι : Type*}

theorem blocking_access {i : ι} {choice : Bool} {st : Issued P} {q : Queue P} {pc pc' : Pc T}
    {ev : Event T} (h : step P choice st.traced.queue pc = some (q, pc', ev)) :
    blocking P i (.access choice) st (some pc) =
      some ({ st with traced := st.traced.record q ev }, some pc') := by
  cases pc with
  | returned ret => cases h
  | _ => simp only [blocking, h, Option.map_some]

variable [DecidableEq ι] {s s' : State ι (Issued P) (Option (Pc T))} {i : ι}

theorem run_access {choice : Bool} {q : Queue P} {pc pc' : Pc T} {ev : Event T}
    (hpc : s.locals i = some pc)
    (h : step P choice s.shared.traced.queue pc = some (q, pc', ev)) :
    Run (blocking P) accessOnly s
      ⟨{ s.shared with traced := s.shared.traced.record q ev },
        Function.update s.locals i (some pc')⟩ := by
  refine .step .start ⟨choice, rfl⟩ (fire_eq_some.mpr ⟨_, _, ?_, rfl⟩)
  rw [hpc]
  exact blocking_access h

structure Lighter [Fintype ι] (s s' : State ι (Issued P) (Option (Pc T))) : Prop where
  run : Run (blocking P) accessOnly s s'
  pushes : s'.shared.pushes = s.shared.pushes
  pops : s'.shared.pops = s.shared.pops
  weight_lt : ∑ i, weight (s'.locals i) < ∑ i, weight (s.locals i)

variable [Fintype ι]

omit [DecidableEq T] in
theorem sum_weight_lt {l : Option (Pc T)} {x : Issued P} (h : weight l < weight (s.locals i)) :
    ∑ j, weight ((⟨x, Function.update s.locals i l⟩ : State ι _ _).locals j) <
      ∑ j, weight (s.locals j) := by
  have hsum := sum_update weight s.locals i l
  dsimp only
  omega

theorem lighter_of_takesEffect {pc : Pc T} (hpc : s.locals i = some pc)
    (h : TakesEffect P s.shared.traced.queue pc) : ∃ s', Lighter s s' := by
  obtain ⟨q, pc', ev, hev, heffect, hstep | ⟨pc₁, hsilent, hstep⟩⟩ := h
  · refine ⟨_, run_access hpc hstep, rfl, rfl, sum_weight_lt ?_⟩
    rw [hpc]
    exact heffect.weight_lt hev
  · have hrun := run_access hpc hsilent
    have hrun' := hrun.trans (run_access (i := i) (Function.update_self _ _ _) hstep)
    rw [Function.update_idem] at hrun'
    refine ⟨_, hrun', rfl, rfl, sum_weight_lt ?_⟩
    rw [hpc]
    exact heffect.weight_lt hev

theorem lighter_of_returned {ret : Ret T} (hpc : s.locals i = some (.returned ret)) :
    ∃ s', Lighter s s' := by
  have hfire : fire (blocking P) i (.access false) s =
      some ⟨s.shared, Function.update s.locals i none⟩ := by
    refine fire_eq_some.mpr ⟨_, _, ?_, rfl⟩
    rw [hpc]
    rfl
  refine ⟨_, .step .start ⟨false, rfl⟩ hfire, rfl, rfl, sum_weight_lt ?_⟩
  rw [hpc]
  exact Nat.one_pos

theorem Matched.lighter (hs : Matched s) (hmatched : s.shared.pushes = s.shared.pops)
    (hbusy : ∃ i, s.locals i ≠ none) : ∃ s', Lighter s s' := by
  by_contra hstuck
  have hwants (j : ι) : (callPhase (s.locals j)).undrawn = (0, 0) := by
    cases hphase : callPhase (s.locals j) with
    | wantsPush e =>
      obtain ⟨pc, hpc, heq⟩ := phase_of_callPhase hphase nofun
      exact absurd (lighter_of_takesEffect hpc (takesEffect_wantsPush (hs.places j pc hpc) heq))
        hstuck
    | wantsPop =>
      obtain ⟨pc, hpc, heq⟩ := phase_of_callPhase hphase nofun
      exact absurd (lighter_of_takesEffect hpc (takesEffect_wantsPop (hs.places j pc hpc) heq))
        hstuck
    | _ => rfl
  have htickets : s.shared.traced.pushTickets = s.shared.traced.popTickets := by
    have hpushes := hs.pushes
    have hpops := hs.pops
    simp only [hwants, Finset.sum_const_zero] at hpushes hpops
    omega
  have hidle (j : ι) (k : Fin P.mSize) : (callPhase (s.locals j)).pending P k = 0 := by
    by_contra hpending
    obtain ⟨j', pc, hpc, heffect⟩ := hs.slot_progress htickets hpending
    exact hstuck (lighter_of_takesEffect hpc heffect)
  -- what is left for a thread in a call is the return
  obtain ⟨i, hi⟩ := hbusy
  obtain ⟨pc, hpc⟩ := Option.ne_none_iff_exists'.mp hi
  have hundrawn := hwants i
  have hplace := hs.places i pc hpc
  rw [hpc] at hundrawn
  have hslot := hidle i
  rw [hpc] at hslot
  cases pc with
  | returned ret => exact hstuck (lighter_of_returned hpc)
  | pushFetchAdd | popFetchAdd => simp [callPhase, Pc.phase, Phase.undrawn] at hundrawn
  | doPushCas e k | doPushLoad e k | doPopExchange k | doPopLoad k =>
    simpa [callPhase, Pc.phase, Phase.pending] using hslot (P.slot k)
  | _ => exact hplace.elim

structure Completed (s : State ι (Issued P) (Option (Pc T))) : Prop where
  idle : ∀ i, s.locals i = none
  contents : s.shared.traced.queue.contents = 0
  balance : (s.shared.traced.stored : Multiset T) = (s.shared.traced.taken : Multiset T)

omit [DecidableEq ι] in
theorem Matched.completed (hs : Matched s) (hmatched : s.shared.pushes = s.shared.pops)
    (hidle : ∀ i, s.locals i = none) : Completed s := by
  have htickets : s.shared.traced.pushTickets = s.shared.traced.popTickets := by
    have hpushes := hs.pushes
    have hpops := hs.pops
    simp only [hidle, callPhase, Option.elim_none, Phase.undrawn, Finset.sum_const_zero]
      at hpushes hpops
    omega
  have hcontents : s.shared.traced.queue.contents = 0 := by
    refine (Queue.contents_eq_zero_iff _).mpr fun k => ?_
    have hslot := hs.slots k
    simp only [htickets, sub_self, hidle, callPhase, Option.elim_none, Phase.pending,
      Finset.sum_const_zero, add_zero, Queue.occupied] at hslot
    by_contra hne
    rw [if_neg hne] at hslot
    cases hslot
  refine ⟨hidle, hcontents, ?_⟩
  rw [hs.sound.balance, hcontents, add_zero]

/-- Wherever a run stands with as many pushes as pops issued, its calls can be completed without
another call, and then every element stored was taken. -/
theorem matched_calls_complete (h : Run (blocking P) anyStep (noneIssued P) s)
    (hmatched : s.shared.pushes = s.shared.pops) :
    ∃ s', Run (blocking P) accessOnly s s' ∧ Completed s' := by
  have hstep (s : State ι (Issued P) (Option (Pc T)))
      (hs : Run (blocking P) anyStep (noneIssued P) s ∧ s.shared.pushes = s.shared.pops)
      (hbusy : ¬ ∀ i, s.locals i = none) : ∃ s', Run (blocking P) accessOnly s s' ∧
        (Run (blocking P) anyStep (noneIssued P) s' ∧ s'.shared.pushes = s'.shared.pops) ∧
        ∑ i, weight (s'.locals i) < ∑ i, weight (s.locals i) := by
    obtain ⟨s₁, hlighter⟩ := (blocking_matched hs.1).lighter hs.2 (not_forall.mp hbusy)
    have hrun := hs.1.trans (hlighter.run.mono fun _ _ _ _ => trivial)
    exact ⟨s₁, hlighter.run, ⟨hrun, by rw [hlighter.pushes, hlighter.pops, hs.2]⟩,
      hlighter.weight_lt⟩
  obtain ⟨s', hrun, ⟨hreached, heq⟩, hidle⟩ := exists_run_done _ hstep ⟨h, hmatched⟩
  exact ⟨s', hrun, (blocking_matched hreached).completed heq hidle⟩

end Run

theorem matched_calls_complete_waitingForPush :
    ∃ s : State (Fin 2) (Issued fourSlots) (Option (Pc ℕ)),
      exec (blocking fourSlots) anyStep (waitingForPush 0 1) (noneIssued fourSlots) = some s ∧
      s.locals 0 = some (.doPopLoad 0) ∧
      ∃ s', Run (blocking fourSlots) accessOnly s s' ∧ Completed s' := by
  obtain ⟨s, hs, hmatched, hwaits⟩ : ∃ s : State (Fin 2) (Issued fourSlots) (Option (Pc ℕ)),
      exec (blocking fourSlots) anyStep (waitingForPush 0 1) (noneIssued fourSlots) = some s ∧
        s.shared.pushes = s.shared.pops ∧ s.locals 0 = some (.doPopLoad 0) := ⟨_, rfl, rfl, rfl⟩
  exact ⟨s, hs, hwaits, matched_calls_complete (exec_run hs .start) hmatched⟩

end ItcPlatform.LockFreeQueue
