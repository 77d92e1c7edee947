import Mathlib.Algebra.Order.BigOperators.Group.Finset
import Mathlib.Data.Nat.Count
import ItcPlatform.LockFreeQueue.Conservation

/-! Blocking calls. Pushes and pops are bound to slots by the tickets they drew; where as many of
either were issued, every slot is due as many stores as takes, so not all of them wait. -/

namespace ItcPlatform.LockFreeQueue
open Interleaving
variable {T : Type*} {P : Params T}

structure Issued (P : Params T) where
  traced : Traced P
  pushes : ℕ
  pops : ℕ

def ticketsOf (P : Params T) (n : ℕ) (i : Fin P.mSize) : ℕ :=
  Nat.count (fun c => P.ticketSlot c = i) n

theorem ticketsOf_succ (n : ℕ) (i : Fin P.mSize) : (ticketsOf P (n + 1) i : ℤ) =
    ticketsOf P n i + if P.slot (BitVec.ofNat 32 n) = i then 1 else 0 := by
  rw [ticketsOf, Nat.count_succ]
  push_cast
  rfl

def Blocking (P : Params T) : Pc T → Prop
  | .pushFetchAdd e | .doPushCas e _ | .doPushLoad e _ => e ≠ P.nil
  | .popFetchAdd | .doPopExchange _ | .doPopLoad _ | .returned .pushed
  | .returned (.popped _) => True
  | _ => False

def Placed (P : Params T) (l : Option (Pc T)) : Prop := ∀ pc ∈ l, Blocking P pc

def Phase.pending (P : Params T) (i : Fin P.mSize) : Phase T → ℤ
  | storing _ k => if P.slot k = i then 1 else 0
  | emptying k => if P.slot k = i then -1 else 0
  | _ => 0

theorem Blocking.legal {pc : Pc T} (hb : Blocking P pc) : pc.phase.Legal P := by
  cases pc <;> first | exact hb | exact trivial | exact hb.elim

theorem Phase.storing_of_pending {f : Phase T} {i : Fin P.mSize} (h : 0 < f.pending P i) :
    ∃ e k, f = .storing e k ∧ P.slot k = i := by
  cases f <;> simp only [Phase.pending, lt_irrefl] at h
  · split_ifs at h with hk
    · exact ⟨_, _, rfl, hk⟩
    · exact absurd h (lt_irrefl 0)
  · split_ifs at h <;> omega

theorem Phase.emptying_of_pending {f : Phase T} {i : Fin P.mSize} (h : f.pending P i < 0) :
    ∃ k, f = .emptying k ∧ P.slot k = i := by
  cases f <;> simp only [Phase.pending, lt_irrefl] at h
  · split_ifs at h <;> omega
  · split_ifs at h with hk
    · exact ⟨_, rfl, hk⟩
    · exact absurd h (lt_irrefl 0)

theorem phase_of_callPhase {l : Option (Pc T)} {f : Phase T} (h : callPhase l = f)
    (hf : f ≠ .measuring) : ∃ pc, l = some pc ∧ pc.phase = f := by
  cases l with
  | none => exact absurd h.symm hf
  | some pc => exact ⟨pc, rfl, h⟩

variable [DecidableEq T]

def Queue.occupied (q : Queue P) (i : Fin P.mSize) : ℤ := if q.mQueue i = P.nil then 0 else 1

def blocking (P : Params T) {ι : Type*} : Program ι (Act T) (Issued P) (Option (Pc T)) :=
  fun _ a st l =>
    match a, l with
    | .call (.push e), none =>
      if e ≠ P.nil then some ({ st with pushes := st.pushes + 1 }, some (Call.start (.push e)))
      else none
    | .call .pop, none => some ({ st with pops := st.pops + 1 }, some (Call.start .pop))
    | .access _, some (.returned _) => some (st, none)
    | .access choice, some pc => (step P choice st.traced.queue pc).map fun r =>
        ({ st with traced := st.traced.record r.1 r.2.2 }, some r.2.1)
    | _, _ => none

def noneIssued (P : Params T) {ι : Type*} : State ι (Issued P) (Option (Pc T)) :=
  ⟨⟨.new P, 0, 0⟩, fun _ => none⟩

/-- The next access of the call draws a ticket, exchanges its element into a NIL slot or takes
another out of its slot, or else the one after it does, where the call comes out of its waiting
loop. -/
def TakesEffect (P : Params T) (q : Queue P) (pc : Pc T) : Prop :=
  ∃ q' pc' ev, ev ≠ .silent ∧ Effect P q pc.phase ev q' pc'.phase ∧
    (step P false q pc = some (q', pc', ev) ∨
      ∃ pc₁, step P false q pc = some (q, pc₁, .silent) ∧ step P false q pc₁ = some (q', pc', ev))

section Step
variable {t : Traced P} {q : Queue P} {pc pc' : Pc T} {f f' : Phase T} {ev : Event T}

theorem Blocking.step {choice : Bool} (hb : Blocking P pc)
    (h : step P choice t.queue pc = some (q, pc', ev)) : Blocking P pc' := by
  cases pc <;> try exact hb.elim
  case returned => cases h
  all_goals
    simp only [LockFreeQueue.step] at h
    (try split_ifs at h) <;> obtain ⟨-, rfl, -⟩ := by simpa using h
  all_goals first | exact hb | exact trivial

theorem Effect.slot_account (h : Effect P t.queue f ev q f') (hf : f.Legal P) (ht : t.Sound)
    (i : Fin P.mSize) :
    (ticketsOf P (t.record q ev).pushTickets i - ticketsOf P (t.record q ev).popTickets i : ℤ) +
        (t.queue.occupied i + f.pending P i) =
      (ticketsOf P t.pushTickets i - ticketsOf P t.popTickets i) +
        ((t.record q ev).queue.occupied i + f'.pending P i) := by
  cases h with
  | pushTicket e =>
    simp only [Traced.record, ticketsOf_succ, ht.head, Phase.pending, Queue.occupied]
    ring
  | popTicket =>
    simp only [Traced.record, ticketsOf_succ, ht.tail, Phase.pending, Queue.occupied]
    split_ifs <;> ring
  | stored e k hnil =>
    have he : e ≠ P.nil := hf
    by_cases hi : P.slot k = i
    · subst hi
      simp [Traced.record, Phase.pending, Queue.occupied, hnil, he]
    · simp [Traced.record, Phase.pending, Queue.occupied, hi, Ne.symm hi]
  | taken e k hx hne =>
    by_cases hi : P.slot k = i
    · subst hi
      simp [Traced.record, Phase.pending, Queue.occupied, hx, hne]
    · simp [Traced.record, Phase.pending, Queue.occupied, hi, Ne.symm hi]
  | _ => rfl

theorem takesEffect_wantsPush {e : T} (hb : Blocking P pc) (h : pc.phase = .wantsPush e) :
    TakesEffect P q pc := by
  cases pc <;> cases h
  case pushFetchAdd => exact ⟨_, _, .pushTicket, nofun, .pushTicket e, .inl rfl⟩
  all_goals exact hb.elim

theorem takesEffect_wantsPop (hb : Blocking P pc) (h : pc.phase = .wantsPop) :
    TakesEffect P q pc := by
  cases pc <;> cases h
  case popFetchAdd => exact ⟨_, _, .popTicket, nofun, .popTicket, .inl rfl⟩
  all_goals exact hb.elim

theorem takesEffect_storing {e : T} {k : BitVec 32} (h : pc.phase = .storing e k)
    (hnil : q.mQueue (P.slot k) = P.nil) : TakesEffect P q pc := by
  have hcas := step_stores e hnil
  have heffect := step_effect hcas
  cases pc <;> cases h
  case doPushCas => exact ⟨_, _, .stored e, by simp, heffect, .inl hcas⟩
  case doPushLoad =>
    exact ⟨_, _, .stored e, by simp, heffect,
      .inr ⟨.doPushCas e k, by simp [step, hnil], hcas⟩⟩

theorem takesEffect_emptying {k : BitVec 32} (h : pc.phase = .emptying k)
    (hne : q.mQueue (P.slot k) ≠ P.nil) : TakesEffect P q pc := by
  have hexchange := @step_takes _ _ P false q _ k rfl hne
  have heffect := step_effect hexchange
  cases pc <;> cases h
  case doPopExchange => exact ⟨_, _, .taken _, by simp, heffect, .inl hexchange⟩
  case doPopLoad =>
    exact ⟨_, _, .taken _, by simp, heffect,
      .inr ⟨.doPopExchange k, by simp [step, hne], hexchange⟩⟩

end Step

section Run

structure Accounted (st : Issued P) (l : Option (Pc T)) (st' : Issued P) (l' : Option (Pc T)) :
    Prop where
  sound : st'.traced.Sound
  places : Placed P l'
  pushes : st'.pushes + (st.traced.pushTickets + (callPhase l).undrawn.1) =
    st.pushes + (st'.traced.pushTickets + (callPhase l').undrawn.1)
  pops : st'.pops + (st.traced.popTickets + (callPhase l).undrawn.2) =
    st.pops + (st'.traced.popTickets + (callPhase l').undrawn.2)
  slots : ∀ k, (ticketsOf P st'.traced.pushTickets k - ticketsOf P st'.traced.popTickets k : ℤ) +
      (st.traced.queue.occupied k + (callPhase l).pending P k) =
    (ticketsOf P st.traced.pushTickets k - ticketsOf P st.traced.popTickets k) +
      (st'.traced.queue.occupied k + (callPhase l').pending P k)

theorem blocking_accounted {ι : Type*} {i : ι} {a : Act T} {st st' : Issued P}
    {l l' : Option (Pc T)} (h : blocking P i a st l = some (st', l')) (ht : st.traced.Sound)
    (hb : Placed P l) : Accounted st l st' l' := by
  unfold blocking at h
  split at h
  · rename_i e
    split_ifs at h with he
    obtain ⟨rfl, rfl⟩ := by simpa using h
    refine ⟨ht, by rintro _ ⟨⟩; exact he, ?_, rfl, fun k => rfl⟩
    show st.pushes + 1 + (st.traced.pushTickets + 0) = st.pushes + (st.traced.pushTickets + 1)
    omega
  · obtain ⟨rfl, rfl⟩ := by simpa using h
    refine ⟨ht, by rintro _ ⟨⟩; trivial, rfl, ?_, fun k => rfl⟩
    show st.pops + 1 + (st.traced.popTickets + 0) = st.pops + (st.traced.popTickets + 1)
    omega
  · obtain ⟨rfl, rfl⟩ := by simpa using h
    exact ⟨ht, by simp [Placed], rfl, rfl, fun k => rfl⟩
  · rename_i choice pc _
    obtain ⟨⟨q, pc', ev⟩, hstep, heq⟩ := Option.map_eq_some_iff.mp h
    obtain ⟨rfl, rfl⟩ := by simpa using heq
    have hpc := hb pc rfl
    have heff := step_effect hstep
    have hb' := hpc.step hstep
    have hnot : pc'.phase ≠ .returned .refused := by
      rintro hret
      cases pc' <;> cases hret
      exact hb'
    obtain ⟨hpush, hpop⟩ := heff.issue_account hnot
    refine ⟨heff.sound hpc.legal ht, by rintro _ ⟨⟩; exact hb', ?_, ?_,
      heff.slot_account hpc.legal ht⟩
    · exact congrArg (st.pushes + ·) hpush.symm
    · exact congrArg (st.pops + ·) hpop.symm
  · cases h

variable {ι : Type*} [Fintype ι] {s : State ι (Issued P) (Option (Pc T))}

structure Matched (s : State ι (Issued P) (Option (Pc T))) : Prop where
  sound : s.shared.traced.Sound
  places : ∀ i, Placed P (s.locals i)
  pushes : s.shared.pushes =
    s.shared.traced.pushTickets + ∑ i, (callPhase (s.locals i)).undrawn.1
  pops : s.shared.pops =
    s.shared.traced.popTickets + ∑ i, (callPhase (s.locals i)).undrawn.2
  slots : ∀ k, (ticketsOf P s.shared.traced.pushTickets k -
      ticketsOf P s.shared.traced.popTickets k : ℤ) =
    s.shared.traced.queue.occupied k + ∑ i, (callPhase (s.locals i)).pending P k

theorem matched_noneIssued : Matched (noneIssued P : State ι (Issued P) (Option (Pc T))) := by
  refine ⟨Traced.sound_new, by simp [noneIssued, Placed], ?_, ?_, fun k => ?_⟩
  all_goals simp [noneIssued, Traced.new, callPhase, Phase.undrawn, Phase.pending, Queue.occupied,
    Queue.new]

theorem Matched.slot_progress (hs : Matched s) {k : Fin P.mSize}
    (htickets : s.shared.traced.pushTickets = s.shared.traced.popTickets) {i : ι}
    (hi : (callPhase (s.locals i)).pending P k ≠ 0) :
    ∃ j pc, s.locals j = some pc ∧ TakesEffect P s.shared.traced.queue pc := by
  have hzero := hs.slots k
  rw [htickets, sub_self] at hzero
  by_cases hnil : s.shared.traced.queue.mQueue k = P.nil
  · obtain ⟨j, hj⟩ : ∃ j, 0 < (callPhase (s.locals j)).pending P k := by
      by_contra! hnone
      have hneg := Finset.sum_neg' (fun j _ => hnone j)
        ⟨i, Finset.mem_univ i, lt_of_le_of_ne (hnone i) hi⟩
      rw [Queue.occupied, if_pos hnil] at hzero
      omega
    obtain ⟨e, t, hphase, rfl⟩ := Phase.storing_of_pending hj
    obtain ⟨pc, hpc, hstoring⟩ := phase_of_callPhase hphase nofun
    exact ⟨j, pc, hpc, takesEffect_storing hstoring hnil⟩
  · obtain ⟨j, hj⟩ : ∃ j, (callPhase (s.locals j)).pending P k < 0 := by
      by_contra! hnone
      have hnonneg := Finset.sum_nonneg fun j (_ : j ∈ Finset.univ) => hnone j
      rw [Queue.occupied, if_neg hnil] at hzero
      omega
    obtain ⟨t, hphase, rfl⟩ := Phase.emptying_of_pending hj
    obtain ⟨pc, hpc, hemptying⟩ := phase_of_callPhase hphase nofun
    exact ⟨j, pc, hpc, takesEffect_emptying hemptying hnil⟩

variable [DecidableEq ι]

theorem blocking_matched (h : Run (blocking P) anyStep (noneIssued P) s) : Matched s := by
  refine h.invariant matched_noneIssued ?_
  rintro s i a st l hs - hstep
  have hacc := blocking_accounted hstep hs.sound (hs.places i)
  exact ⟨hacc.sound,
    @forall_update _ _ _ _ (fun _ => Placed P) _ _ _ hs.places hacc.places fun _ _ hk => hk,
    balance_update (g := fun l => (callPhase l).undrawn.1) hs.pushes hacc.pushes,
    balance_update (g := fun l => (callPhase l).undrawn.2) hs.pops hacc.pops,
    fun k => balance_update (g := fun l => (callPhase l).pending P k) (hs.slots k) (hacc.slots k)⟩

/-- Where as many pushes as pops were issued and one call has not returned, some call draws its
ticket, stores into a free slot or takes from a full one. -/
theorem takesEffect_of_unfinished (h : Run (blocking P) anyStep (noneIssued P) s)
    (hmatched : s.shared.pushes = s.shared.pops)
    (hunfinished : ∃ i pc, s.locals i = some pc ∧ ∀ ret, pc ≠ .returned ret) :
    ∃ i pc, s.locals i = some pc ∧ TakesEffect P s.shared.traced.queue pc := by
  have hs := blocking_matched h
  by_contra hstuck
  -- every ticket is drawn, so either side drew as many
  have hdrawn : ∀ j, (callPhase (s.locals j)).undrawn = (0, 0) := by
    intro j
    cases hphase : callPhase (s.locals j) with
    | wantsPush e =>
      obtain ⟨pc, hpc, heq⟩ := phase_of_callPhase hphase nofun
      exact absurd ⟨j, pc, hpc, takesEffect_wantsPush (hs.places j pc hpc) heq⟩ hstuck
    | wantsPop =>
      obtain ⟨pc, hpc, heq⟩ := phase_of_callPhase hphase nofun
      exact absurd ⟨j, pc, hpc, takesEffect_wantsPop (hs.places j pc hpc) heq⟩ hstuck
    | _ => rfl
  have htickets : s.shared.traced.pushTickets = s.shared.traced.popTickets := by
    have hpushes := hs.pushes
    have hpops := hs.pops
    simp only [hdrawn, Finset.sum_const_zero] at hpushes hpops
    omega
  obtain ⟨i, pc, hpc, hnot⟩ := hunfinished
  have hb := hs.places i pc hpc
  have hphase : callPhase (s.locals i) = pc.phase := by rw [hpc]; rfl
  obtain ⟨k, hk⟩ : ∃ k, (callPhase (s.locals i)).pending P k ≠ 0 := by
    rw [hphase]
    cases pc <;> try exact hb.elim
    case pushFetchAdd e => exact absurd ⟨i, _, hpc, takesEffect_wantsPush hb rfl⟩ hstuck
    case popFetchAdd => exact absurd ⟨i, _, hpc, takesEffect_wantsPop hb rfl⟩ hstuck
    case returned ret => exact absurd rfl (hnot ret)
    all_goals exact ⟨P.slot _, by simp [Pc.phase, Phase.pending]; rfl⟩
  exact hstuck (hs.slot_progress htickets hk)

end Run

def waitingForPush {ι : Type*} (i j : ι) : List (ι × Act ℕ) :=
  [(i, .call .pop), (i, .access false), (i, .access false), (j, .call (.push 7)),
    (j, .access false)]

theorem takesEffect_of_unfinished_waitingForPush :
    ∃ s : State (Fin 2) (Issued fourSlots) (Option (Pc ℕ)),
      exec (blocking fourSlots) anyStep (waitingForPush 0 1) (noneIssued fourSlots) = some s ∧
      s.locals 0 = some (.doPopLoad 0) ∧
      ∃ i pc, s.locals i = some pc ∧ TakesEffect fourSlots s.shared.traced.queue pc := by
  obtain ⟨s, hs, hmatched, hwaits⟩ : ∃ s : State (Fin 2) (Issued fourSlots) (Option (Pc ℕ)),
      exec (blocking fourSlots) anyStep (waitingForPush 0 1) (noneIssued fourSlots) = some s ∧
        s.shared.pushes = s.shared.pops ∧ s.locals 0 = some (.doPopLoad 0) := ⟨_, rfl, rfl, rfl⟩
  exact ⟨s, hs, hwaits, takesEffect_of_unfinished (exec_run hs .start) hmatched
    ⟨0, _, hwaits, nofun⟩⟩

end ItcPlatform.LockFreeQueue
