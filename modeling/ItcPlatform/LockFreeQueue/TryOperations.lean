import ItcPlatform.LockFreeQueue.Conservation

/-! Threads that only try. A loaded counter may be stale, but the counters never move back, so the
capacity test and the compare-exchange together keep `m_head` within the capacity of `m_tail`. -/

namespace ItcPlatform.LockFreeQueue
open Interleaving
variable {T : Type*} {P : Params T}

structure Attempts (P : Params T) where
  traced : Traced P
  operations : ℕ

def draws (l : Option (Pc T)) : ℕ := (callPhase l).undrawn.1 + (callPhase l).undrawn.2

def Loaded (base n : ℕ) (word : BitVec 32) (c : ℕ) : Prop :=
  base ≤ c ∧ c ≤ n ∧ word = BitVec.ofNat 32 c

/-- The places of a try operation and what its loaded counter may be, where `m_head` came from
`base` to `heads` and `m_tail` from `base` to `tails`. -/
def Trying (P : Params T) (base heads tails : ℕ) : Pc T → Prop
  | .tryPushLoadTail _ head => ∃ c, Loaded base heads head c
  | .tryPushCasHead _ head => ∃ c, Loaded base heads head c ∧ c < tails + P.mSize
  | .tryPopLoadHead tail => ∃ c, Loaded base tails tail c
  | .tryPopCasTail tail => ∃ c, Loaded base tails tail c ∧ c < heads
  | .pushFetchAdd _ | .popFetchAdd | .sizeLoad | .sizeLoadHead _ | .sizeLoadTail _ => False
  | _ => True

theorem Trying.mono {base heads tails heads' tails' : ℕ} {pc : Pc T}
    (h : Trying P base heads tails pc) (hheads : heads ≤ heads') (htails : tails ≤ tails') :
    Trying P base heads' tails' pc := by
  cases pc <;> try exact h
  case tryPushLoadTail =>
    obtain ⟨c, hle, hc, rfl⟩ := h
    exact ⟨c, hle, hc.trans hheads, rfl⟩
  case tryPushCasHead =>
    obtain ⟨c, ⟨hle, hc, rfl⟩, hlt⟩ := h
    exact ⟨c, ⟨hle, hc.trans hheads, rfl⟩, by omega⟩
  case tryPopLoadHead =>
    obtain ⟨c, hle, hc, rfl⟩ := h
    exact ⟨c, hle, hc.trans htails, rfl⟩
  case tryPopCasTail =>
    obtain ⟨c, ⟨hle, hc, rfl⟩, hlt⟩ := h
    exact ⟨c, ⟨hle, hc.trans htails, rfl⟩, by omega⟩

structure Counters (base : ℕ) (t : Traced P) : Prop where
  head : t.queue.mHead = BitVec.ofNat 32 t.pushTickets
  tail : t.queue.mTail = BitVec.ofNat 32 t.popTickets
  base_le : base ≤ t.popTickets
  popTickets_le : t.popTickets ≤ t.pushTickets
  pushTickets_le : t.pushTickets ≤ t.popTickets + P.mSize

section Step
variable {base : ℕ} {t : Traced P} {q : Queue P} {f f' : Phase T} {ev : Event T}

theorem Effect.ticket_le (h : Effect P t.queue f ev q f') :
    (t.record q ev).pushTickets + (t.record q ev).popTickets +
        (f'.undrawn.1 + f'.undrawn.2) ≤
      t.pushTickets + t.popTickets + (f.undrawn.1 + f.undrawn.2) := by
  cases h <;> simp only [Traced.record, Phase.undrawn] <;> omega

/-- Within `2 ^ 31` tickets a word tells the counter it stands for. -/
theorem Loaded.eq_of_word {n c : ℕ} {word : BitVec 32} (h : Loaded base n word c)
    (hn : n < base + 2 ^ 31) (hword : BitVec.ofNat 32 n = word) : c = n := by
  obtain ⟨hle, hc, rfl⟩ := h
  have := congrArg BitVec.toNat hword
  simp only [BitVec.toNat_ofNat] at this
  omega

theorem Counters.refuses_tryPush (hc : Counters base t) (hsize : P.mSize ≤ 2 ^ 30)
    (hsmall : t.pushTickets < base + 2 ^ 31) {word : BitVec 32} {c : ℕ}
    (h : Loaded base t.pushTickets word c) :
    (BitVec.ofNat 32 P.mSize).sle (word - t.queue.mTail) = true ↔
      t.popTickets + P.mSize ≤ c := by
  obtain ⟨hle, hc', rfl⟩ := h
  have hbase := hc.base_le
  have hpop := hc.popTickets_le
  rw [hc.tail, BitVec.sle_eq_decide, decide_eq_true_iff, toInt_ofNat_sub (by omega) (by omega),
    toInt_ofNat_of_lt (by omega)]
  omega

theorem Counters.refuses_tryPop (hc : Counters base t) (hsmall : t.pushTickets < base + 2 ^ 31)
    {word : BitVec 32} {c : ℕ} (h : Loaded base t.popTickets word c) :
    (t.queue.mHead - word).sle 0 = true ↔ t.pushTickets ≤ c := by
  obtain ⟨hle, hc', rfl⟩ := h
  have hpop := hc.popTickets_le
  rw [hc.head, BitVec.sle_eq_decide, decide_eq_true_iff, toInt_ofNat_sub (by omega) (by omega)]
  change (t.pushTickets - c : ℤ) ≤ 0 ↔ _
  omega

end Step

def emptyAt (P : Params T) (start : BitVec 32) {ι : Type*} :
    State ι (Attempts P) (Option (Pc T)) :=
  ⟨⟨⟨⟨start, start, fun _ => P.nil⟩, start.toNat, start.toNat, [], []⟩, 0⟩, fun _ => none⟩

section Start
variable {ι : Type*} [Fintype ι] {start : BitVec 32} {s : State ι (Attempts P) (Option (Pc T))}

structure Attempting (base : ℕ) (s : State ι (Attempts P) (Option (Pc T))) : Prop where
  counters : Counters base s.shared.traced
  trying : ∀ i, ∀ pc ∈ s.locals i, Trying P base s.shared.traced.pushTickets
    s.shared.traced.popTickets pc
  tickets_le : s.shared.traced.pushTickets + s.shared.traced.popTickets +
    ∑ i, draws (s.locals i) ≤ 2 * base + s.shared.operations

theorem attempting_emptyAt :
    Attempting start.toNat (emptyAt P start : State ι (Attempts P) (Option (Pc T))) := by
  refine ⟨⟨?_, ?_, le_rfl, le_rfl, Nat.le_add_right _ _⟩, nofun, ?_⟩
  · simp [emptyAt]
  · simp [emptyAt]
  · simp [emptyAt, draws, callPhase, Phase.undrawn]
    omega

theorem Attempting.pushTickets_lt {base : ℕ} (hs : Attempting base s)
    (hops : s.shared.operations < 2 ^ 31) : s.shared.traced.pushTickets < base + 2 ^ 31 := by
  have hbase := hs.counters.base_le
  have htickets := hs.tickets_le
  omega

structure Attempted (base : ℕ) (st : Attempts P) (l : Option (Pc T)) (st' : Attempts P)
    (l' : Option (Pc T)) : Prop where
  counters : Counters base st'.traced
  trying : ∀ pc ∈ l', Trying P base st'.traced.pushTickets st'.traced.popTickets pc
  heads_le : st.traced.pushTickets ≤ st'.traced.pushTickets
  tails_le : st.traced.popTickets ≤ st'.traced.popTickets
  operations_le : st.operations ≤ st'.operations
  tickets_le : st'.traced.pushTickets + st'.traced.popTickets + draws l' + st.operations ≤
    st.traced.pushTickets + st.traced.popTickets + draws l + st'.operations

theorem Attempted.begun {base : ℕ} {st : Attempts P} {pc : Pc T}
    (hc : Counters base st.traced)
    (ht : Trying P base st.traced.pushTickets st.traced.popTickets pc)
    (hdraw : draws (some pc) = 1) :
    Attempted base st none { st with operations := st.operations + 1 } (some pc) := by
  refine ⟨hc, ?_, le_rfl, le_rfl, Nat.le_succ _, ?_⟩
  · rintro _ ⟨⟩
    exact ht
  · rw [hdraw]
    exact (Nat.add_right_comm _ 1 _).le

end Start

variable [DecidableEq T]

def tries (P : Params T) {ι : Type*} : Program ι (Act T) (Attempts P) (Option (Pc T)) :=
  fun _ a st l =>
    match a, l with
    | .call (.tryPush e), none =>
      some ({ st with operations := st.operations + 1 }, some (Call.start (.tryPush e)))
    | .call .tryPop, none =>
      some ({ st with operations := st.operations + 1 }, some (Call.start .tryPop))
    | .access _, some (.returned _) => some (st, none)
    | .access choice, some pc => (step P choice st.traced.queue pc).map fun r =>
        ({ st with traced := st.traced.record r.1 r.2.2 }, some r.2.1)
    | _, _ => none

section Step
variable {base : ℕ} {t : Traced P} {q : Queue P} {pc pc' : Pc T} {ev : Event T} {choice : Bool}

theorem Counters.step (hc : Counters base t) (hsize : P.mSize ≤ 2 ^ 30)
    (hsmall : t.pushTickets < base + 2 ^ 31)
    (ht : Trying P base t.pushTickets t.popTickets pc)
    (h : step P choice t.queue pc = some (q, pc', ev)) : Counters base (t.record q ev) ∧
      Trying P base (t.record q ev).pushTickets (t.record q ev).popTickets pc' := by
  obtain ⟨hhead, htail, hbase, hpop, hpush⟩ := id hc
  cases pc <;> try exact ht.elim
  all_goals simp only [LockFreeQueue.step] at h
  case tryPushLoadHead e =>
    obtain ⟨rfl, rfl, rfl⟩ := by simpa using h
    exact ⟨hc, _, hbase.trans hpop, le_rfl, hhead⟩
  case tryPushLoadTail e head =>
    obtain ⟨c, hloaded⟩ := ht
    split_ifs at h with hfull <;> obtain ⟨rfl, rfl, rfl⟩ := by simpa using h
    · exact ⟨hc, trivial⟩
    · rw [hc.refuses_tryPush hsize hsmall hloaded, not_le] at hfull
      exact ⟨hc, c, hloaded, hfull⟩
  case tryPushCasHead e head =>
    obtain ⟨c, hloaded, hroom⟩ := ht
    split_ifs at h with hcas <;> obtain ⟨rfl, rfl, rfl⟩ := by simpa using h
    · -- the head loaded is still the head, so the room seen then is there now
      obtain rfl := hloaded.eq_of_word hsmall (hhead.symm.trans hcas.2)
      refine ⟨⟨?_, htail, hbase, Nat.le_succ_of_le hpop, hroom⟩, trivial⟩
      rw [hloaded.2.2]
      exact (BitVec.ofNat_add _ 1).symm
    · exact ⟨hc, _, hbase.trans hpop, le_rfl, hhead⟩
  case tryPopLoadTail =>
    obtain ⟨rfl, rfl, rfl⟩ := by simpa using h
    exact ⟨hc, _, hbase, le_rfl, htail⟩
  case tryPopLoadHead tail =>
    obtain ⟨c, hloaded⟩ := ht
    split_ifs at h with hempty <;> obtain ⟨rfl, rfl, rfl⟩ := by simpa using h
    · exact ⟨hc, trivial⟩
    · rw [hc.refuses_tryPop hsmall hloaded, not_le] at hempty
      exact ⟨hc, c, hloaded, hempty⟩
  case tryPopCasTail tail =>
    obtain ⟨c, hloaded, hpushed⟩ := ht
    split_ifs at h with hcas <;> obtain ⟨rfl, rfl, rfl⟩ := by simpa using h
    · obtain rfl := hloaded.eq_of_word (by omega) (htail.symm.trans hcas.2)
      refine ⟨⟨hhead, ?_, Nat.le_succ_of_le hbase, hpushed, ?_⟩, trivial⟩
      · rw [hloaded.2.2]
        exact (BitVec.ofNat_add _ 1).symm
      · exact hpush.trans (by simp only [Traced.record]; omega)
    · exact ⟨hc, _, hbase, le_rfl, htail⟩
  case returned => cases h
  all_goals
    split_ifs at h <;> obtain ⟨rfl, rfl, rfl⟩ := by simpa using h
  all_goals exact ⟨⟨hhead, htail, hbase, hpop, hpush⟩, trivial⟩

end Step

section Run
variable {ι : Type*} {base : ℕ} {start : BitVec 32}

theorem tries_attempted {i : ι} {a : Act T} {st st' : Attempts P} {l l' : Option (Pc T)}
    (hc : Counters base st.traced) (hsize : P.mSize ≤ 2 ^ 30)
    (hsmall : st.traced.pushTickets < base + 2 ^ 31)
    (ht : ∀ pc ∈ l, Trying P base st.traced.pushTickets st.traced.popTickets pc)
    (h : tries P i a st l = some (st', l')) : Attempted base st l st' l' := by
  unfold tries at h
  split at h
  · obtain ⟨rfl, rfl⟩ := by simpa using h
    exact .begun hc trivial rfl
  · obtain ⟨rfl, rfl⟩ := by simpa using h
    exact .begun hc trivial rfl
  · obtain ⟨rfl, rfl⟩ := by simpa using h
    exact ⟨hc, by rintro _ ⟨⟩, le_rfl, le_rfl, le_rfl, le_rfl⟩
  · rename_i choice pc _
    obtain ⟨⟨q, pc', ev⟩, hstep, heq⟩ := Option.map_eq_some_iff.mp h
    obtain ⟨rfl, rfl⟩ := by simpa using heq
    obtain ⟨hc', ht'⟩ := hc.step hsize hsmall (ht pc rfl) hstep
    refine ⟨hc', by rintro _ ⟨⟩; exact ht', ?_, ?_, le_rfl,
      Nat.add_le_add_right (step_effect hstep).ticket_le _⟩
    · cases ev <;> first | exact le_rfl | exact Nat.le_succ _
    · cases ev <;> first | exact le_rfl | exact Nat.le_succ _
  · cases h

variable [Fintype ι] [DecidableEq ι] {s : State ι (Attempts P) (Option (Pc T))}

theorem tries_attempting (hsize : P.mSize ≤ 2 ^ 30)
    (h : Run (tries P) anyStep (emptyAt P start) s) (hops : s.shared.operations < 2 ^ 31) :
    Attempting start.toNat s := by
  refine h.invariant (I := fun s => s.shared.operations < 2 ^ 31 → Attempting start.toNat s)
    (fun _ => attempting_emptyAt) ?_ hops
  -- the operations are only counted up, so the bound at the end is one on the way
  rintro s i a st l hs - hstep hops'
  have hle : s.shared.operations ≤ st.operations := by
    unfold tries at hstep
    split at hstep
    case h_4 =>
      obtain ⟨r, -, heq⟩ := Option.map_eq_some_iff.mp hstep
      exact (congrArg (fun x => x.1.operations) heq).le
    case h_5 => cases hstep
    all_goals
      obtain ⟨rfl, -⟩ := by simpa using hstep
    · exact Nat.le_succ _
    · exact Nat.le_succ _
    · exact le_rfl
  have hops := hle.trans_lt hops'
  obtain ⟨hcounters, htrying, htickets⟩ := hs hops
  have hatt := tries_attempted hcounters hsize ((hs hops).pushTickets_lt hops) (htrying i) hstep
  refine ⟨hatt.counters, ?_, ?_⟩
  · exact forall_update
      (J := fun _ l => ∀ pc ∈ l, Trying P _ s.shared.traced.pushTickets _ pc)
      (K := fun _ l => ∀ pc ∈ l, Trying P _ st.traced.pushTickets _ pc) htrying hatt.trying
      fun _ _ hk pc hpc => (hk pc hpc).mono hatt.heads_le hatt.tails_le
  · have hsum := sum_update draws s.locals i l
    have hkept := hatt.tickets_le
    simp only
    omega

/-- The queue keeps its capacity, and the access with which a try operation gives up is made
while the queue is full, or empty. -/
structure Honest (s : State ι (Attempts P) (Option (Pc T))) : Prop where
  nonneg : 0 ≤ (s.shared.traced.queue.mHead - s.shared.traced.queue.mTail).toInt
  le_mSize : (s.shared.traced.queue.mHead - s.shared.traced.queue.mTail).toInt ≤ P.mSize
  tryPush_refused : ∀ i pc e choice q ev, s.locals i = some pc → pc.phase = .wantsPush e →
    step P choice s.shared.traced.queue pc = some (q, .returned .refused, ev) →
      (s.shared.traced.queue.mHead - s.shared.traced.queue.mTail).toInt = P.mSize
  tryPop_refused : ∀ i pc choice q ev, s.locals i = some pc → pc.phase = .wantsPop →
    step P choice s.shared.traced.queue pc = some (q, .returned .refused, ev) →
      s.shared.traced.queue.mHead = s.shared.traced.queue.mTail

theorem honest (hsize : P.mSize ≤ 2 ^ 30) (h : Run (tries P) anyStep (emptyAt P start) s)
    (hops : s.shared.operations < 2 ^ 31) : Honest s := by
  have hs := tries_attempting hsize h hops
  have hsmall := hs.pushTickets_lt hops
  obtain ⟨hhead, htail, hbase, hpop, hpush⟩ := id hs.counters
  have hsub : (s.shared.traced.queue.mHead - s.shared.traced.queue.mTail).toInt =
      s.shared.traced.pushTickets - s.shared.traced.popTickets := by
    rw [hhead, htail, toInt_ofNat_sub (by omega) (by omega)]
  refine ⟨by omega, by omega, ?_, ?_⟩
  · intro i pc e choice q ev hpc hphase hstep
    have ht := hs.trying i pc hpc
    cases pc <;> cases hphase <;> simp only [step] at hstep
    case tryPushLoadTail.refl head =>
      obtain ⟨c, hloaded⟩ := ht
      split_ifs at hstep with hfull
      · rw [hs.counters.refuses_tryPush hsize hsmall hloaded] at hfull
        obtain ⟨-, hle, -⟩ := hloaded
        omega
      · simp at hstep
    all_goals (try split_ifs at hstep) <;> simp at hstep
  · intro i pc choice q ev hpc hphase hstep
    have ht := hs.trying i pc hpc
    cases pc <;> cases hphase <;> simp only [step] at hstep
    case tryPopLoadHead.refl tail =>
      obtain ⟨c, hloaded⟩ := ht
      split_ifs at hstep with hempty
      · rw [hs.counters.refuses_tryPop hsmall hloaded] at hempty
        obtain ⟨-, hle, -⟩ := hloaded
        rw [hhead, htail, le_antisymm (hempty.trans hle) hpop]
      · simp at hstep
    all_goals (try split_ifs at hstep) <;> simp at hstep

end Run

def fillingUp {ι : Type*} (i j : ι) : List (ι × Act ℕ) :=
  (List.replicate 4 ((i, .call (.tryPush 7)) :: List.replicate 5 (i, .access false))).flatten ++
    [(j, .call (.tryPush 8)), (j, .access false)]

theorem honest_fillingUp :
    ∃ s : State (Fin 2) (Attempts fourSlots) (Option (Pc ℕ)),
      exec (tries fourSlots) anyStep (fillingUp 0 1) (emptyAt fourSlots 0xFFFFFFFE) = some s ∧
      s.locals 1 = some (.tryPushLoadTail 8 2) ∧
      step fourSlots false s.shared.traced.queue (.tryPushLoadTail 8 2) =
        some (s.shared.traced.queue, .returned .refused, .silent) ∧
      (s.shared.traced.queue.mHead - s.shared.traced.queue.mTail).toInt = 4 := by
  obtain ⟨s, hs, hops, hcall, hstep⟩ : ∃ s : State (Fin 2) (Attempts fourSlots) (Option (Pc ℕ)),
      exec (tries fourSlots) anyStep (fillingUp 0 1) (emptyAt fourSlots 0xFFFFFFFE) = some s ∧
        s.shared.operations < 2 ^ 31 ∧ s.locals 1 = some (.tryPushLoadTail 8 2) ∧
          step fourSlots false s.shared.traced.queue (.tryPushLoadTail 8 2) =
            some (s.shared.traced.queue, .returned .refused, .silent) :=
    ⟨_, rfl, by decide, rfl, rfl⟩
  have hsize : fourSlots.mSize = 4 := by decide
  have hhonest := honest (by rw [hsize]; decide) (exec_run hs .start) hops
  refine ⟨s, hs, hcall, hstep, ?_⟩
  rw [hhonest.tryPush_refused 1 _ 8 false _ _ hcall rfl hstep, hsize]
  rfl

end ItcPlatform.LockFreeQueue
