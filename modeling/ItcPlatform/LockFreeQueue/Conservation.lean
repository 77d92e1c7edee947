import ItcPlatform.LockFreeQueue.Machine

/-! The queue with its history, shared by any number of threads that issue any calls.
Every element stored is either taken or still in a slot. -/

namespace ItcPlatform.LockFreeQueue
open Interleaving
variable {T : Type*}

/-- A queue with what its accesses did so far: the tickets handed out to either side, and
the elements stored and taken, oldest first. -/
structure Traced (P : Params T) where
  queue : Queue P
  pushTickets : ℕ
  popTickets : ℕ
  stored : List T
  taken : List T

namespace Traced
variable {P : Params T}

def new (P : Params T) : Traced P := ⟨Queue.new P, 0, 0, [], []⟩

def record (t : Traced P) (q : Queue P) : Event T → Traced P
  | .silent => { t with queue := q }
  | .pushTicket => { t with queue := q, pushTickets := t.pushTickets + 1 }
  | .popTicket => { t with queue := q, popTickets := t.popTickets + 1 }
  | .stored e => { t with queue := q, stored := t.stored ++ [e] }
  | .taken e => { t with queue := q, taken := t.taken ++ [e] }

@[simp] theorem record_queue (t : Traced P) (q : Queue P) (ev : Event T) :
    (t.record q ev).queue = q := by
  cases ev <;> rfl

@[simp] theorem record_silent (t : Traced P) : t.record t.queue .silent = t := rfl

variable [DecidableEq T]

structure Sound (t : Traced P) : Prop where
  head : t.queue.mHead = BitVec.ofNat 32 t.pushTickets
  tail : t.queue.mTail = BitVec.ofNat 32 t.popTickets
  balance : (t.stored : Multiset T) = (t.taken : Multiset T) + t.queue.contents

theorem sound_new : (new P).Sound := ⟨rfl, rfl, by simp [new]⟩

theorem Sound.sizeOf_toNat {t : Traced P} (ht : t.Sound) (hsize : P.size ≤ 2 ^ 30)
    (hpush : t.pushTickets = t.stored.length) (hpop : t.popTickets = t.taken.length) :
    (sizeOf t.queue.mHead t.queue.mTail).toNat = t.queue.contents.card := by
  have hcard := congrArg Multiset.card ht.balance
  rw [Multiset.card_add, Multiset.coe_card, Multiset.coe_card] at hcard
  have hle := t.queue.card_contents_le.trans (P.mSize_le hsize)
  have hsub : t.queue.mHead - t.queue.mTail = BitVec.ofNat 32 t.queue.contents.card := by
    rw [ht.head, ht.tail, hpush, hpop, hcard, BitVec.ofNat_add, BitVec.add_comm,
      BitVec.add_sub_cancel]
  have hmod : t.queue.contents.card % 2 ^ 32 = t.queue.contents.card :=
    Nat.mod_eq_of_lt (by omega)
  have hmsb : (BitVec.ofNat 32 t.queue.contents.card).slt 0#32 = false := by
    rw [BitVec.slt_zero_eq_msb, BitVec.msb_eq_false_iff_two_mul_lt, BitVec.toNat_ofNat, hmod]
    omega
  rw [sizeOf, hsub, if_neg (by simpa using hmsb), BitVec.toNat_ofNat, hmod]

end Traced

def Phase.Legal (P : Params T) : Phase T → Prop
  | wantsPush e | storing e _ => e ≠ P.nil
  | _ => True

def Phase.toStore : Phase T → ℕ
  | storing _ _ => 1
  | _ => 0

def Phase.toTake : Phase T → ℕ
  | emptying _ => 1
  | _ => 0

def Phase.undrawn : Phase T → ℕ × ℕ
  | wantsPush _ => (1, 0)
  | wantsPop => (0, 1)
  | _ => (0, 0)

def callPhase (l : Option (Pc T)) : Phase T := l.elim .measuring Pc.phase

section Step
variable {P : Params T} {t : Traced P} {q : Queue P} {f f' : Phase T} {ev : Event T}

theorem Effect.legal (h : Effect P t.queue f ev q f') (hf : f.Legal P) : f'.Legal P := by
  cases h with
  | stay => exact hf
  | pushTicket => exact hf
  | _ => trivial

theorem Effect.push_account (h : Effect P t.queue f ev q f') :
    (t.record q ev).pushTickets + (t.stored.length + f.toStore) =
      t.pushTickets + ((t.record q ev).stored.length + f'.toStore) := by
  cases h <;> simp only [Traced.record, Phase.toStore, List.length_append, List.length_singleton]
  all_goals omega

theorem Effect.pop_account (h : Effect P t.queue f ev q f') :
    (t.record q ev).popTickets + (t.taken.length + f.toTake) =
      t.popTickets + ((t.record q ev).taken.length + f'.toTake) := by
  cases h <;> simp only [Traced.record, Phase.toTake, List.length_append, List.length_singleton]
  all_goals omega

theorem Effect.issue_account (h : Effect P t.queue f ev q f') (hnot : f' ≠ .returned .refused) :
    (t.record q ev).pushTickets + f'.undrawn.1 = t.pushTickets + f.undrawn.1 ∧
      (t.record q ev).popTickets + f'.undrawn.2 = t.popTickets + f.undrawn.2 := by
  cases h with
  | refusePush | refusePop => exact absurd rfl hnot
  | _ => exact ⟨rfl, rfl⟩

theorem Effect.sound [DecidableEq T] (h : Effect P t.queue f ev q f') (hf : f.Legal P)
    (ht : t.Sound) : (t.record q ev).Sound := by
  cases h with
  | pushTicket =>
    refine ⟨?_, ht.tail, ht.balance⟩
    simp only [Traced.record, ht.head, BitVec.ofNat_add]
    rfl
  | popTicket =>
    refine ⟨ht.head, ?_, ht.balance⟩
    simp only [Traced.record, ht.tail, BitVec.ofNat_add]
    rfl
  | stored e k h =>
    refine ⟨ht.head, ht.tail, ?_⟩
    simp only [Traced.record, t.queue.contents_store h hf, ← Multiset.coe_add, ht.balance,
      Multiset.coe_singleton, add_assoc]
  | taken e k h hne =>
    refine ⟨ht.head, ht.tail, ?_⟩
    simp only [Traced.record, ht.balance, ← t.queue.contents_take h hne, ← Multiset.coe_add,
      Multiset.coe_singleton]
    abel
  | _ => exact ht

end Step

/-- What a thread may be made to do next: begin a call, or make its next access. -/
inductive Act (T : Type*)
  | call (c : Call T)
  | access (choice : Bool)

/-- `assert(element != NIL)`: the element that marks a free slot is not pushed. -/
def Call.Proper (P : Params T) : Call T → Prop
  | push e | tryPush e => e ≠ P.nil
  | _ => True

theorem Call.start_legal {P : Params T} {c : Call T} (h : c.Proper P) : c.start.phase.Legal P := by
  cases c <;> exact h

def Sane (P : Params T) (l : Option (Pc T)) : Prop := ∀ pc ∈ l, pc.phase.Legal P

def Traced.alone {P : Params T} [DecidableEq T] : ℕ → Traced P → Pc T → Traced P × Pc T
  | 0, t, pc => (t, pc)
  | n + 1, t, pc =>
    match step P false t.queue pc with
    | none => (t, pc)
    | some (q, pc', ev) => (t.record q ev).alone n pc'

theorem Traced.Sound.alone {P : Params T} [DecidableEq T] {t : Traced P} (ht : t.Sound) {n : ℕ}
    {pc : Pc T} (hf : pc.phase.Legal P) : (t.alone n pc).1.Sound := by
  induction n generalizing t pc with
  | zero => exact ht
  | succ n ih =>
    rw [Traced.alone]
    split
    · exact ht
    · rename_i q pc' ev hstep
      have heff := step_effect hstep
      exact ih (heff.sound hf ht) (heff.legal hf)

section Alone
variable [DecidableEq T] {P : Params T} {t : Traced P}

theorem alone_push {e : T} (hslot : t.queue.mQueue (P.slot t.queue.mHead) = P.nil) :
    t.alone 4 (Call.start (.push e)) =
      (⟨⟨t.queue.mHead + 1, t.queue.mTail,
          Function.update t.queue.mQueue (P.slot t.queue.mHead) e⟩,
        t.pushTickets + 1, t.popTickets, t.stored ++ [e], t.taken⟩, .returned .pushed) := by
  simp [Traced.alone, Call.start, step, Traced.record, hslot]

theorem alone_push_waits {e : T} (hslot : t.queue.mQueue (P.slot t.queue.mHead) ≠ P.nil)
    (ret : Ret T) : (t.alone 4 (Call.start (.push e))).2 ≠ .returned ret := by
  cases hmax : P.maximizeThroughput <;>
    simp [Traced.alone, Call.start, step, Traced.record, hslot, hmax]

theorem alone_tryPush {e : T}
    (hroom : (BitVec.ofNat 32 P.mSize).sle (t.queue.mHead - t.queue.mTail) = false)
    (hslot : t.queue.mQueue (P.slot t.queue.mHead) = P.nil) :
    t.alone 4 (Call.start (.tryPush e)) =
      (⟨⟨t.queue.mHead + 1, t.queue.mTail,
          Function.update t.queue.mQueue (P.slot t.queue.mHead) e⟩,
        t.pushTickets + 1, t.popTickets, t.stored ++ [e], t.taken⟩, .returned .pushed) := by
  simp [Traced.alone, Call.start, step, Traced.record, hroom, hslot]

theorem alone_pop_of_ne (hslot : t.queue.mQueue (P.slot t.queue.mTail) ≠ P.nil) :
    t.alone 4 (Call.start .pop) =
      (⟨⟨t.queue.mHead, t.queue.mTail + 1,
          Function.update t.queue.mQueue (P.slot t.queue.mTail) P.nil⟩,
        t.pushTickets, t.popTickets + 1, t.stored,
        t.taken ++ [t.queue.mQueue (P.slot t.queue.mTail)]⟩,
        .returned (.popped (t.queue.mQueue (P.slot t.queue.mTail)))) := by
  simp [Traced.alone, Call.start, step, Traced.record, hslot]

theorem alone_emptying_waits {n : ℕ} {tail : BitVec 32} {pc : Pc T}
    (hslot : t.queue.mQueue (P.slot tail) = P.nil)
    (hpc : pc = .doPopExchange tail ∨ pc = .doPopLoad tail) (ret : Ret T) :
    (t.alone n pc).2 ≠ .returned ret := by
  induction n generalizing t pc with
  | zero => rcases hpc with rfl | rfl <;> nofun
  | succ n ih =>
    rw [Traced.alone]
    rcases hpc with rfl | rfl
    · simp only [step, hslot, ne_eq, not_true_eq_false, if_false]
      cases P.maximizeThroughput
      · exact ih hslot (.inl rfl)
      · exact ih hslot (.inr rfl)
    · simp only [step, hslot, if_true]
      exact ih hslot (.inr rfl)

theorem alone_pop_waits (hslot : t.queue.mQueue (P.slot t.queue.mTail) = P.nil) (n : ℕ)
    (ret : Ret T) : (t.alone n (Call.start .pop)).2 ≠ .returned ret := by
  cases n with
  | zero => nofun
  | succ n =>
    exact alone_emptying_waits
      (t := t.record { t.queue with mTail := t.queue.mTail + 1 } .popTicket) hslot (.inl rfl) ret

end Alone

section Threads
variable [DecidableEq T] {ι : Type*}

instance (P : Params T) (c : Call T) : Decidable (c.Proper P) := by
  cases c <;> unfold Call.Proper <;> infer_instance

def threads (P : Params T) : Program ι (Act T) (Traced P) (Option (Pc T))
  | _, .call c, t, none => if c.Proper P then some (t, some c.start) else none
  | _, .access _, t, some (.returned _) => some (t, none)
  | _, .access choice, t, some pc =>
    (step P choice t.queue pc).map fun r => (t.record r.1 r.2.2, some r.2.1)
  | _, _, _, _ => none

def idleThreads (P : Params T) : State ι (Traced P) (Option (Pc T)) := ⟨.new P, fun _ => none⟩

theorem threads_cases {P : Params T} {i : ι} {a : Act T} {t t' : Traced P}
    {l l' : Option (Pc T)} (h : threads P i a t l = some (t', l')) :
    (t' = t ∧ Sane P l') ∨
      ∃ pc q pc' ev, l = some pc ∧ l' = some pc' ∧ t' = t.record q ev ∧
        Effect P t.queue pc.phase ev q pc'.phase := by
  unfold threads at h
  split at h
  · split_ifs at h with hc
    obtain ⟨rfl, rfl⟩ := by simpa using h
    refine .inl ⟨rfl, ?_⟩
    rintro _ ⟨⟩
    exact Call.start_legal hc
  · obtain ⟨rfl, rfl⟩ := by simpa using h
    exact .inl ⟨rfl, by simp [Sane]⟩
  · rename_i pc _
    obtain ⟨⟨q, pc', ev⟩, hstep, heq⟩ := Option.map_eq_some_iff.mp h
    obtain ⟨rfl, rfl⟩ := by simpa using heq
    exact .inr ⟨pc, q, pc', ev, rfl, rfl, rfl, step_effect hstep⟩
  · cases h

variable [DecidableEq ι] {P : Params T} {s : State ι (Traced P) (Option (Pc T))}

theorem threads_invariant (h : Run (threads P) anyStep (idleThreads P) s) :
    s.shared.Sound ∧ ∀ i, Sane P (s.locals i) := by
  refine h.invariant ⟨Traced.sound_new, by simp [idleThreads, Sane]⟩ ?_
  rintro s i a t l ⟨hsound, hsane⟩ - hstep
  rcases threads_cases hstep with ⟨rfl, hl⟩ | ⟨pc, q, pc', ev, hpc, rfl, rfl, heff⟩
  · exact ⟨hsound, @forall_update _ _ _ _ (fun _ => Sane P) _ _ _ hsane hl fun _ _ hk => hk⟩
  · have hlegal := hsane i pc hpc
    refine ⟨heff.sound hlegal hsound,
      @forall_update _ _ _ _ (fun _ => Sane P) _ _ _ hsane ?_ fun _ _ hk => hk⟩
    rintro _ ⟨⟩
    exact heff.legal hlegal

/-- No loss, no duplication, no invention: in every reachable state the elements stored are
those already taken together with those in the slots. -/
theorem stored_eq_taken_add_contents (h : Run (threads P) anyStep (idleThreads P) s) :
    (s.shared.stored : Multiset T) = (s.shared.taken : Multiset T) + s.shared.queue.contents :=
  (threads_invariant h).1.balance

end Threads

def fourSlots : Params ℕ :=
  { size := 3, nil := 0, minimizeContention := true, maximizeThroughput := true, sizeofElem := 8,
    size_pos := by decide, size_lt := by decide, size_le := by decide }

def spinningPop {ι : Type*} (i j : ι) : List (ι × Act ℕ) :=
  [(i, .call (.push 7)), (j, .call .pop), (j, .access false), (j, .access false),
    (j, .access false), (i, .access false), (i, .access true), (i, .access false),
    (i, .access false), (j, .access false), (j, .access false), (j, .access false)]

theorem stored_eq_taken_add_contents_spinningPop :
    ∃ s : State (Fin 2) (Traced fourSlots) (Option (Pc ℕ)),
      exec (threads fourSlots) anyStep (spinningPop 0 1) (idleThreads fourSlots) = some s ∧
      s.shared.taken = [7] ∧
      (s.shared.stored : Multiset ℕ) = (s.shared.taken : Multiset ℕ) + s.shared.queue.contents := by
  obtain ⟨s, hs, htaken⟩ : ∃ s : State (Fin 2) (Traced fourSlots) (Option (Pc ℕ)),
      exec (threads fourSlots) anyStep (spinningPop 0 1) (idleThreads fourSlots) = some s ∧
        s.shared.taken = [7] := ⟨_, rfl, rfl⟩
  exact ⟨s, hs, htaken, stored_eq_taken_add_contents (exec_run hs .start)⟩

end ItcPlatform.LockFreeQueue
