import ItcPlatform.Lib.History
import ItcPlatform.Lib.Window
import ItcPlatform.LockFreeQueue.Spsc

/-! The queue in the hands of one thread: in either mode, and from any value of the counters, it
is a FIFO list bounded by the capacity. -/

namespace ItcPlatform.LockFreeQueue
open History Interleaving
variable {T : Type*} {P : Params T}

/-- The queue is at rest and holds the list, no longer than signed differences can tell. -/
structure Queue.Holds (q : Queue P) (l : List T) : Prop where
  size_le : P.size ≤ 2 ^ 30
  length_le : l.length ≤ P.mSize
  window : ∃ r, q.mTail = BitVec.ofNat 32 r ∧ q.mHead = BitVec.ofNat 32 (r + l.length) ∧
    Window P.ticketSlot P.nil q.mQueue r l

namespace Queue.Holds
variable {q : Queue P} {l : List T} {e : T}

theorem of_free (hsize : P.size ≤ 2 ^ 30) (heq : q.mHead = q.mTail)
    (hfree : ∀ i, q.mQueue i = P.nil) : q.Holds [] :=
  ⟨hsize, Nat.zero_le _, q.mTail.toNat, by simp, by simp [heq], .empty hfree⟩

theorem sub (h : q.Holds l) : q.mHead - q.mTail = BitVec.ofNat 32 l.length := by
  obtain ⟨-, -, r, htail, hhead, -⟩ := h
  rw [htail, hhead, BitVec.ofNat_add, BitVec.add_comm, BitVec.add_sub_cancel]

theorem toNat_length (h : q.Holds l) : (BitVec.ofNat 32 l.length).toNat = l.length := by
  have hle := h.length_le
  have hsize := P.mSize_le h.size_le
  rw [BitVec.toNat_ofNat, Nat.mod_eq_of_lt (by omega)]

theorem toInt_length (h : q.Holds l) : (BitVec.ofNat 32 l.length).toInt = l.length := by
  have hle := h.length_le
  have hsize := P.mSize_le h.size_le
  exact toInt_ofNat_of_lt (by omega)

theorem toInt_mSize (h : q.Holds l) : (BitVec.ofNat 32 P.mSize).toInt = P.mSize := by
  have hsize := P.mSize_le h.size_le
  exact toInt_ofNat_of_lt (by omega)

theorem full_iff (h : q.Holds l) :
    (BitVec.ofNat 32 P.mSize).sle (q.mHead - q.mTail) = true ↔ l.length = P.mSize := by
  have hle := h.length_le
  rw [h.sub, BitVec.sle_eq_decide, decide_eq_true_iff, h.toInt_length, h.toInt_mSize]
  omega

theorem empty_iff (h : q.Holds l) : (q.mHead - q.mTail).sle 0 = true ↔ l = [] := by
  rw [h.sub, BitVec.sle_eq_decide, decide_eq_true_iff, h.toInt_length, ← List.length_eq_zero_iff]
  simp

theorem sizeOf (h : q.Holds l) : sizeOf q.mHead q.mTail = BitVec.ofNat 32 l.length := by
  rw [LockFreeQueue.sizeOf, h.sub, if_neg]
  rw [BitVec.slt_eq_decide, decide_eq_true_iff, h.toInt_length]
  simp

theorem sizeOf_ne_zero (h : q.Holds (e :: l)) : ¬ LockFreeQueue.sizeOf q.mHead q.mTail = 0 :=
  fun hzero => by
    have := congrArg BitVec.toNat (h.sizeOf.symm.trans hzero)
    rw [h.toNat_length] at this
    cases this

theorem free (h : q.Holds l) (hmin : P.minimizeContention = true) (hroom : l.length < P.mSize) :
    q.mQueue (P.slot q.mHead) = P.nil := by
  obtain ⟨-, -, r, -, hhead, hwindow⟩ := h
  rw [hhead]
  refine hwindow.free _ fun k hk => ?_
  exact ((P.ring (P.mSize_dvd hmin)).slot_ne_of_lt (show r + k < r + l.length by omega)
    (show r + l.length < r + k + P.mSize by omega)).symm

theorem push (h : q.Holds l) (hmin : P.minimizeContention = true) (hroom : l.length < P.mSize)
    (he : e ≠ P.nil) : Holds { q with
      mHead := q.mHead + 1
      mQueue := Function.update q.mQueue (P.slot q.mHead) e } (l ++ [e]) := by
  have hfree := h.free hmin hroom
  obtain ⟨hsize, -, r, htail, hhead, hwindow⟩ := h
  rw [hhead] at hfree ⊢
  refine ⟨hsize, by simpa using Nat.succ_le_of_lt hroom, r, htail, ?_, hwindow.write hfree he⟩
  rw [List.length_append, List.length_singleton, ← Nat.add_assoc, BitVec.ofNat_add _ 1]
  rfl

theorem first (h : q.Holds (e :: l)) : q.mQueue (P.slot q.mTail) = e ∧ e ≠ P.nil := by
  obtain ⟨-, -, r, htail, -, hwindow⟩ := h
  rw [htail]
  exact ⟨hwindow.holds 0 e rfl, hwindow.proper e List.mem_cons_self⟩

theorem pop (h : q.Holds (e :: l)) : Holds { q with
    mTail := q.mTail + 1
    mQueue := Function.update q.mQueue (P.slot q.mTail) P.nil } l := by
  obtain ⟨hslot, hne⟩ := h.first
  obtain ⟨hsize, hle, r, htail, hhead, hwindow⟩ := h
  rw [htail] at hslot ⊢
  obtain ⟨rest, hrest, hwindow'⟩ := hwindow.read (show q.mQueue (P.ticketSlot r) ≠ P.nil from
    fun hnil => hne (hslot.symm.trans hnil))
  obtain ⟨-, rfl⟩ := List.cons.inj hrest
  refine ⟨hsize, Nat.le_of_succ_le hle, r + 1, (BitVec.ofNat_add r 1).symm, ?_, hwindow'⟩
  rw [hhead, List.length_cons]
  congr 1
  omega

theorem free_of_empty (h : q.Holds []) : q.mQueue (P.slot q.mTail) = P.nil := by
  obtain ⟨-, -, r, htail, -, hwindow⟩ := h
  rw [htail]
  exact hwindow.first_eq_nil_iff.mpr rfl

end Queue.Holds

section Alone
variable [DecidableEq T] {t : Traced P}

theorem alone_pop {e : T} {l : List T} (h : t.queue.Holds (e :: l)) :
    t.alone 4 (Call.start .pop) =
      (⟨⟨t.queue.mHead, t.queue.mTail + 1,
          Function.update t.queue.mQueue (P.slot t.queue.mTail) P.nil⟩,
        t.pushTickets, t.popTickets + 1, t.stored, t.taken ++ [e]⟩,
        .returned (.popped e)) := by
  obtain ⟨hfirst, hne⟩ := h.first
  rw [alone_pop_of_ne (hfirst ▸ hne), hfirst]

theorem alone_tryPop {e : T} {l : List T} (h : t.queue.Holds (e :: l)) :
    t.alone 4 (Call.start .tryPop) =
      (⟨⟨t.queue.mHead, t.queue.mTail + 1,
          Function.update t.queue.mQueue (P.slot t.queue.mTail) P.nil⟩,
        t.pushTickets, t.popTickets + 1, t.stored, t.taken ++ [e]⟩,
        .returned (.popped e)) := by
  obtain ⟨hfirst, hne⟩ := h.first
  have hsome : (t.queue.mHead - t.queue.mTail).sle 0#32 = false :=
    Bool.eq_false_iff.mpr fun hempty => List.cons_ne_nil _ _ (h.empty_iff.mp hempty)
  simp [Traced.alone, Call.start, step, Traced.record, hfirst, hne, hsome]

theorem alone_tryPop_empty (h : t.queue.Holds []) :
    t.alone 4 (Call.start .tryPop) = (t, .returned .refused) := by
  have hempty : (t.queue.mHead - t.queue.mTail).sle 0#32 = true := h.empty_iff.mpr rfl
  simp [Traced.alone, Call.start, step, Traced.record, hempty]

end Alone

/-- The reference: a list of at most `capacity` elements, oldest first. -/
def Call.reference (capacity : ℕ) : List T → Call T → List T × Ret T
  | l, .push e => (l ++ [e], .pushed)
  | l, .tryPush e => if l.length < capacity then (l ++ [e], .pushed) else (l, .refused)
  | [], .pop | [], .tryPop => ([], .refused)
  | e :: l, .pop | e :: l, .tryPop => (l, .popped e)
  | l, .size => (l, .sized (BitVec.ofNat 32 l.length))

def Call.Allowed (P : Params T) (l : List T) : Call T → Prop
  | .push e => e ≠ P.nil ∧ l.length < P.mSize
  | .tryPush e => e ≠ P.nil
  | .pop => l ≠ []
  | _ => True

def ModePc.Serving (P : Params T) (q : Queue P) (l : List T) (out : List T × Ret T) :
    ModePc T → Prop
  | .inl (.tryPushLoadHead e) | .inr (.tryPushLoadHead e) =>
    q.Holds l ∧ e ≠ P.nil ∧ out = (Call.tryPush e).reference P.mSize l
  | .inl (.tryPushLoadTail e head) | .inr (.tryPushLoadTail e head) =>
    q.Holds l ∧ e ≠ P.nil ∧ out = (Call.tryPush e).reference P.mSize l ∧ head = q.mHead
  | .inl (.tryPushCasHead e head) | .inr (.tryPushStoreHead e head)
  | .inr (.pushStoreHead e head) =>
    q.Holds l ∧ e ≠ P.nil ∧ l.length < P.mSize ∧ out = (l ++ [e], .pushed) ∧ head = q.mHead
  | .inl (.pushFetchAdd e) | .inr (.pushLoadHead e) =>
    q.Holds l ∧ e ≠ P.nil ∧ l.length < P.mSize ∧ out = (l ++ [e], .pushed)
  | .inl (.doPushCas e head) | .inl (.doPushLoad e head) | .inr (.doPushLoad e head)
  | .inr (.doPushStore e head) =>
    Queue.Holds { q with mHead := head } l ∧ e ≠ P.nil ∧ l.length < P.mSize ∧
      out = (l ++ [e], .pushed) ∧ q.mHead = head + 1
  | .inl .tryPopLoadTail | .inr .tryPopLoadTail =>
    q.Holds l ∧ out = Call.tryPop.reference P.mSize l
  | .inl (.tryPopLoadHead tail) | .inr (.tryPopLoadHead tail) =>
    q.Holds l ∧ out = Call.tryPop.reference P.mSize l ∧ tail = q.mTail
  | .inl (.tryPopCasTail tail) | .inr (.tryPopStoreTail tail) | .inr (.popStoreTail tail) =>
    q.Holds l ∧ l ≠ [] ∧ out = Call.tryPop.reference P.mSize l ∧ tail = q.mTail
  | .inl .popFetchAdd | .inr .popLoadTail =>
    q.Holds l ∧ l ≠ [] ∧ out = Call.tryPop.reference P.mSize l
  | .inl (.doPopExchange tail) | .inl (.doPopLoad tail) | .inr (.doPopLoad tail) =>
    Queue.Holds { q with mTail := tail } l ∧ l ≠ [] ∧
      out = Call.tryPop.reference P.mSize l ∧ q.mTail = tail + 1
  | .inr (.doPopStore tail e) =>
    Queue.Holds { q with mTail := tail } l ∧ l = e :: out.1 ∧ out.2 = .popped e ∧
      q.mTail = tail + 1
  | .inl .sizeLoad | .inr .sizeLoad =>
    q.Holds l ∧ out = (l, .sized (BitVec.ofNat 32 l.length))
  | .inl (.sizeLoadHead tail) | .inr (.sizeLoadHead tail) =>
    q.Holds l ∧ out = (l, .sized (BitVec.ofNat 32 l.length)) ∧ tail = q.mTail
  | .inl (.sizeLoadTail head) | .inr (.sizeLoadTail head) =>
    q.Holds l ∧ out = (l, .sized (BitVec.ofNat 32 l.length)) ∧ head = q.mHead
  | .inl (.returned ret) | .inr (.returned ret) => q.Holds out.1 ∧ out.2 = ret

def ModePc.left : ModePc T → ℕ
  | .inl (.tryPushLoadHead _) | .inl .tryPopLoadTail | .inr (.pushLoadHead _)
  | .inr .popLoadTail | .inr (.tryPushLoadTail _ _) | .inr (.tryPopLoadHead _) => 4
  | .inl (.tryPushLoadTail _ _) | .inl (.tryPopLoadHead _) | .inr (.tryPushStoreHead _ _)
  | .inr (.pushStoreHead _ _) | .inr (.tryPopStoreTail _) | .inr (.popStoreTail _) => 3
  | .inl (.tryPushCasHead _ _) | .inl (.pushFetchAdd _) | .inl (.doPushLoad _ _)
  | .inl (.tryPopCasTail _) | .inl .popFetchAdd | .inl (.doPopLoad _) | .inl .sizeLoad
  | .inr (.doPushLoad _ _) | .inr (.doPopLoad _) | .inr .sizeLoad => 2
  | .inl (.returned _) | .inr (.returned _) => 0
  | .inr (.tryPushLoadHead _) | .inr .tryPopLoadTail => 5
  | _ => 1

namespace Queue.Holds
variable {q : Queue P} {l : List T}

theorem first_ne (h : q.Holds l) (hne : l ≠ []) : q.mQueue (P.slot q.mTail) ≠ P.nil := by
  obtain ⟨e, rest, rfl⟩ := List.exists_cons_of_ne_nil hne
  rw [h.first.1]
  exact h.first.2

theorem tryPush_of_full (h : q.Holds l) (e : T)
    (hfull : (BitVec.ofNat 32 P.mSize).sle (q.mHead - q.mTail) = true) :
    (Call.tryPush e).reference P.mSize l = (l, .refused) :=
  if_neg (h.full_iff.mp hfull).not_lt

theorem store_drawn {e : T} {head : BitVec 32} (h : Queue.Holds { q with mHead := head } l)
    (hmin : P.minimizeContention = true) (hroom : l.length < P.mSize) (he : e ≠ P.nil)
    (hhead : q.mHead = head + 1) :
    Holds { q with mQueue := Function.update q.mQueue (P.slot head) e } (l ++ [e]) := by
  have hpush := h.push hmin hroom he
  simp only [← hhead] at hpush
  exact hpush

theorem take_drawn {e : T} {tail : BitVec 32} (h : Queue.Holds { q with mTail := tail } (e :: l))
    (htail : q.mTail = tail + 1) :
    Holds { q with mQueue := Function.update q.mQueue (P.slot tail) P.nil } l := by
  have hpop := h.pop
  simp only [← htail] at hpop
  exact hpop

theorem room (h : q.Holds l)
    (hfull : ¬ (BitVec.ofNat 32 P.mSize).sle (q.mHead - q.mTail) = true) : l.length < P.mSize :=
  lt_of_le_of_ne h.length_le fun heq => hfull (h.full_iff.mpr heq)

end Queue.Holds

theorem tryPush_of_room {l : List T} (e : T) (hroom : l.length < P.mSize) :
    (Call.tryPush e).reference P.mSize l = (l ++ [e], .pushed) := by
  cases l <;> exact if_pos hroom

theorem begin_serving {q : Queue P} {l : List T} (isSpsc : Bool) {c : Call T} (hq : q.Holds l)
    (hc : c.Allowed P l) : (c.begin isSpsc).Serving P q l (c.reference P.mSize l) := by
  cases isSpsc <;> cases c with
  | push e => exact ⟨hq, hc.1, hc.2, by cases l <;> rfl⟩
  | tryPush e => exact ⟨hq, hc, rfl⟩
  | pop => exact ⟨hq, hc, by cases l <;> rfl⟩
  | tryPop => exact ⟨hq, rfl⟩
  | size => exact ⟨hq, by cases l <;> rfl⟩

theorem begin_left (isSpsc : Bool) (c : Call T) : (c.begin isSpsc).left ≤ 5 := by
  cases isSpsc <;> cases c <;> exact Nat.le_of_ble_eq_true rfl

section Step
variable [DecidableEq T] {q q' : Queue P} {l : List T} {out : List T × Ret T} {choice : Bool}
  {ev : Event T} (hmin : P.minimizeContention = true)
include hmin

theorem step_serving {pc pc' : Pc T} (h : step P choice q pc = some (q', pc', ev))
    (hs : ModePc.Serving P q l out (.inl pc)) : ModePc.Serving P q' l out (.inl pc') := by
  cases pc <;> simp only [step] at h
  case tryPushLoadHead e =>
    obtain ⟨rfl, rfl, rfl⟩ := by simpa using h
    exact ⟨hs.1, hs.2.1, hs.2.2, rfl⟩
  case tryPushLoadTail e head =>
    obtain ⟨hq, he, rfl, rfl⟩ := hs
    split_ifs at h with hfull <;> obtain ⟨rfl, rfl, rfl⟩ := by simpa using h
    · rw [hq.tryPush_of_full e hfull]
      exact ⟨hq, rfl⟩
    · exact ⟨hq, he, hq.room hfull, tryPush_of_room e (hq.room hfull), rfl⟩
  case tryPushCasHead e head =>
    obtain ⟨hq, he, hroom, rfl, rfl⟩ := hs
    split_ifs at h with hc <;> obtain ⟨rfl, rfl, rfl⟩ := by simpa using h
    · exact ⟨hq, he, hroom, rfl, rfl⟩
    · exact ⟨hq, he, (tryPush_of_room e hroom).symm, rfl⟩
  case pushFetchAdd e =>
    obtain ⟨hq, he, hroom, rfl⟩ := hs
    obtain ⟨rfl, rfl, rfl⟩ := by simpa using h
    exact ⟨hq, he, hroom, rfl, rfl⟩
  case doPushCas e head =>
    obtain ⟨hq, he, hroom, rfl, hhead⟩ := hs
    split_ifs at h <;> obtain ⟨rfl, rfl, rfl⟩ := by simpa using h
    · exact ⟨hq.store_drawn hmin hroom he hhead, rfl⟩
    all_goals exact ⟨hq, he, hroom, rfl, hhead⟩
  case doPushLoad e head =>
    split_ifs at h <;> obtain ⟨rfl, rfl, rfl⟩ := by simpa using h
    all_goals exact hs
  case tryPopLoadTail =>
    obtain ⟨rfl, rfl, rfl⟩ := by simpa using h
    exact ⟨hs.1, hs.2, rfl⟩
  case tryPopLoadHead tail =>
    obtain ⟨hq, rfl, rfl⟩ := hs
    split_ifs at h with hempty <;> obtain ⟨rfl, rfl, rfl⟩ := by simpa using h
    · obtain rfl := hq.empty_iff.mp hempty
      exact ⟨hq, rfl⟩
    · exact ⟨hq, fun hl => hempty (hq.empty_iff.mpr hl), rfl, rfl⟩
  case tryPopCasTail tail =>
    obtain ⟨hq, hne, rfl, rfl⟩ := hs
    split_ifs at h with hc <;> obtain ⟨rfl, rfl, rfl⟩ := by simpa using h
    · exact ⟨hq, hne, rfl, rfl⟩
    · exact ⟨hq, rfl, rfl⟩
  case popFetchAdd =>
    obtain ⟨hq, hne, rfl⟩ := hs
    obtain ⟨rfl, rfl, rfl⟩ := by simpa using h
    exact ⟨hq, hne, rfl, rfl⟩
  case doPopExchange tail =>
    obtain ⟨hq, hne, rfl, htail⟩ := hs
    split_ifs at h <;> obtain ⟨rfl, rfl, rfl⟩ := by simpa using h
    · obtain ⟨x, rest, rfl⟩ := List.exists_cons_of_ne_nil hne
      exact ⟨hq.take_drawn htail, congrArg Ret.popped hq.first.1.symm⟩
    all_goals exact ⟨hq, hne, rfl, htail⟩
  case doPopLoad tail =>
    split_ifs at h <;> obtain ⟨rfl, rfl, rfl⟩ := by simpa using h
    all_goals exact hs
  case sizeLoad =>
    split_ifs at h <;> obtain ⟨rfl, rfl, rfl⟩ := by simpa using h
    all_goals exact ⟨hs.1, hs.2, rfl⟩
  case sizeLoadHead tail =>
    obtain ⟨hq, rfl, rfl⟩ := hs
    obtain ⟨rfl, rfl, rfl⟩ := by simpa using h
    exact ⟨hq, congrArg Ret.sized hq.sizeOf.symm⟩
  case sizeLoadTail head =>
    obtain ⟨hq, rfl, rfl⟩ := hs
    obtain ⟨rfl, rfl, rfl⟩ := by simpa using h
    exact ⟨hq, congrArg Ret.sized hq.sizeOf.symm⟩
  case returned => cases h

theorem spscStep_serving {pc pc' : SpscPc T} (h : spscStep P choice q pc = some (q', pc', ev))
    (hs : ModePc.Serving P q l out (.inr pc)) : ModePc.Serving P q' l out (.inr pc') := by
  cases pc <;> simp only [spscStep] at h
  case tryPushLoadHead e =>
    obtain ⟨rfl, rfl, rfl⟩ := by simpa using h
    exact ⟨hs.1, hs.2.1, hs.2.2, rfl⟩
  case tryPushLoadTail e head =>
    obtain ⟨hq, he, rfl, rfl⟩ := hs
    split_ifs at h with hfull <;> obtain ⟨rfl, rfl, rfl⟩ := by simpa using h
    · rw [hq.tryPush_of_full e hfull]
      exact ⟨hq, rfl⟩
    · exact ⟨hq, he, hq.room hfull, tryPush_of_room e (hq.room hfull), rfl⟩
  case tryPushStoreHead e head | pushStoreHead e head =>
    obtain ⟨hq, he, hroom, rfl, rfl⟩ := hs
    obtain ⟨rfl, rfl, rfl⟩ := by simpa using h
    exact ⟨hq, he, hroom, rfl, rfl⟩
  case pushLoadHead e =>
    obtain ⟨hq, he, hroom, rfl⟩ := hs
    obtain ⟨rfl, rfl, rfl⟩ := by simpa using h
    exact ⟨hq, he, hroom, rfl, rfl⟩
  case doPushLoad e head =>
    split_ifs at h <;> obtain ⟨rfl, rfl, rfl⟩ := by simpa using h
    all_goals exact hs
  case doPushStore e head =>
    obtain ⟨hq, he, hroom, rfl, hhead⟩ := hs
    obtain ⟨rfl, rfl, rfl⟩ := by simpa using h
    exact ⟨hq.store_drawn hmin hroom he hhead, rfl⟩
  case tryPopLoadTail =>
    obtain ⟨rfl, rfl, rfl⟩ := by simpa using h
    exact ⟨hs.1, hs.2, rfl⟩
  case tryPopLoadHead tail =>
    obtain ⟨hq, rfl, rfl⟩ := hs
    split_ifs at h with hempty <;> obtain ⟨rfl, rfl, rfl⟩ := by simpa using h
    · obtain rfl := hq.empty_iff.mp hempty
      exact ⟨hq, rfl⟩
    · exact ⟨hq, fun hl => hempty (hq.empty_iff.mpr hl), rfl, rfl⟩
  case tryPopStoreTail tail | popStoreTail tail =>
    obtain ⟨hq, hne, rfl, rfl⟩ := hs
    obtain ⟨rfl, rfl, rfl⟩ := by simpa using h
    exact ⟨hq, hne, rfl, rfl⟩
  case popLoadTail =>
    obtain ⟨hq, hne, rfl⟩ := hs
    obtain ⟨rfl, rfl, rfl⟩ := by simpa using h
    exact ⟨hq, hne, rfl, rfl⟩
  case doPopLoad tail =>
    split_ifs at h <;> obtain ⟨rfl, rfl, rfl⟩ := by simpa using h
    · obtain ⟨hq, hne, rfl, htail⟩ := hs
      obtain ⟨x, rest, rfl⟩ := List.exists_cons_of_ne_nil hne
      have hx : q.mQueue (P.slot tail) = x := hq.first.1
      exact ⟨hq, by rw [hx]; rfl, by rw [hx]; rfl, htail⟩
    · exact hs
  case doPopStore tail e =>
    obtain ⟨hq, rfl, hret, htail⟩ := hs
    obtain ⟨rfl, rfl, rfl⟩ := by simpa using h
    exact ⟨hq.take_drawn htail, hret⟩
  case sizeLoad =>
    split_ifs at h <;> obtain ⟨rfl, rfl, rfl⟩ := by simpa using h
    all_goals exact ⟨hs.1, hs.2, rfl⟩
  case sizeLoadHead tail | sizeLoadTail head =>
    obtain ⟨hq, rfl, rfl⟩ := hs
    obtain ⟨rfl, rfl, rfl⟩ := by simpa using h
    exact ⟨hq, congrArg Ret.sized hq.sizeOf.symm⟩
  case returned => cases h

theorem modeStep_serving {pc pc' : ModePc T} (h : modeStep P choice q pc = some (q', pc', ev))
    (hs : pc.Serving P q l out) : pc'.Serving P q' l out := by
  cases pc with
  | inl pc =>
    obtain ⟨r, hstep, heq⟩ := Option.map_eq_some_iff.mp h
    obtain ⟨rfl, rfl, rfl⟩ := by simpa using heq
    exact step_serving hmin hstep hs
  | inr pc =>
    obtain ⟨r, hstep, heq⟩ := Option.map_eq_some_iff.mp h
    obtain ⟨rfl, rfl, rfl⟩ := by simpa using heq
    exact spscStep_serving hmin hstep hs

theorem step_left {pc pc' : Pc T} (h : step P choice q pc = some (q', pc', ev))
    (hs : ModePc.Serving P q l out (.inl pc)) (hcalm : choice = false ∨ pc.phase = .measuring) :
    ModePc.left (.inl pc') < ModePc.left (.inl pc) := by
  have hcalm' : pc.phase ≠ .measuring → choice = false := hcalm.resolve_right
  cases pc <;> simp only [step] at h
  case tryPushCasHead e head =>
    obtain rfl := hcalm' (by simp [Pc.phase])
    rw [if_pos ⟨rfl, hs.2.2.2.2.symm⟩] at h
    obtain ⟨rfl, rfl, rfl⟩ := by simpa using h
    exact Nat.le_of_ble_eq_true rfl
  case doPushCas e head =>
    obtain rfl := hcalm' (by simp [Pc.phase])
    rw [if_pos ⟨rfl, hs.1.free hmin hs.2.2.1⟩] at h
    obtain ⟨rfl, rfl, rfl⟩ := by simpa using h
    exact Nat.le_of_ble_eq_true rfl
  case doPushLoad e head =>
    rw [if_neg (not_not.mpr (hs.1.free hmin hs.2.2.1))] at h
    obtain ⟨rfl, rfl, rfl⟩ := by simpa using h
    exact Nat.le_of_ble_eq_true rfl
  case tryPopCasTail tail =>
    obtain rfl := hcalm' (by simp [Pc.phase])
    rw [if_pos ⟨rfl, hs.2.2.2.symm⟩] at h
    obtain ⟨rfl, rfl, rfl⟩ := by simpa using h
    exact Nat.le_of_ble_eq_true rfl
  case doPopExchange tail =>
    rw [if_pos (hs.1.first_ne hs.2.1)] at h
    obtain ⟨rfl, rfl, rfl⟩ := by simpa using h
    exact Nat.le_of_ble_eq_true rfl
  case doPopLoad tail =>
    rw [if_neg (hs.1.first_ne hs.2.1)] at h
    obtain ⟨rfl, rfl, rfl⟩ := by simpa using h
    exact Nat.le_of_ble_eq_true rfl
  case returned => cases h
  all_goals
    (try split_ifs at h) <;> obtain ⟨rfl, rfl, rfl⟩ := by simpa using h
  all_goals exact Nat.le_of_ble_eq_true rfl

theorem spscStep_left {pc pc' : SpscPc T} (h : spscStep P choice q pc = some (q', pc', ev))
    (hs : ModePc.Serving P q l out (.inr pc)) :
    ModePc.left (.inr pc') < ModePc.left (.inr pc) := by
  cases pc <;> simp only [spscStep] at h
  case doPushLoad e head =>
    rw [if_neg (not_not.mpr (hs.1.free hmin hs.2.2.1))] at h
    obtain ⟨rfl, rfl, rfl⟩ := by simpa using h
    exact Nat.le_of_ble_eq_true rfl
  case doPopLoad tail =>
    rw [if_pos (hs.1.first_ne hs.2.1)] at h
    obtain ⟨rfl, rfl, rfl⟩ := by simpa using h
    exact Nat.le_of_ble_eq_true rfl
  case returned => cases h
  all_goals
    (try split_ifs at h) <;> obtain ⟨rfl, rfl, rfl⟩ := by simpa using h
  all_goals exact Nat.le_of_ble_eq_true rfl

theorem modeStep_left {pc pc' : ModePc T} (h : modeStep P choice q pc = some (q', pc', ev))
    (hs : pc.Serving P q l out) (hcalm : choice = false ∨ pc.phase = .measuring) :
    pc'.left < pc.left := by
  cases pc with
  | inl pc =>
    obtain ⟨r, hstep, heq⟩ := Option.map_eq_some_iff.mp h
    obtain ⟨rfl, rfl, rfl⟩ := by simpa using heq
    exact step_left hmin hstep hs hcalm
  | inr pc =>
    obtain ⟨r, hstep, heq⟩ := Option.map_eq_some_iff.mp h
    obtain ⟨rfl, rfl, rfl⟩ := by simpa using heq
    exact spscStep_left hmin hstep hs

end Step

section Call
variable {q : Queue P} {l : List T} {out : List T × Ret T} {pc : ModePc T} {choices : List Bool}

theorem ret_of_left (h : pc.left = 0) : ∃ ret, pc.ret? = some ret := by
  rcases pc with pc | pc <;> cases pc <;> first | exact ⟨_, rfl⟩ | cases h

theorem ModePc.Serving.returned {ret : Ret T} (hs : pc.Serving P q l out) (h : pc.ret? = some ret) :
    q.Holds out.1 ∧ out.2 = ret := by
  rcases pc with pc | pc <;> cases pc <;> cases h <;> exact hs

variable [DecidableEq T]

def solo (P : Params T) : List Bool → Queue P → ModePc T → Queue P × ModePc T
  | [], q, pc => (q, pc)
  | choice :: choices, q, pc =>
    match modeStep P choice q pc with
    | none => (q, pc)
    | some (q', pc', _) => solo P choices q' pc'

theorem solo_serving (choices : List Bool) (hmin : P.minimizeContention = true)
    (hs : pc.Serving P q l out) :
    (solo P choices q pc).2.Serving P (solo P choices q pc).1 l out := by
  induction choices generalizing q pc with
  | nil => exact hs
  | cons choice choices ih =>
    rw [solo]
    split
    · exact hs
    · rename_i hstep
      exact ih (modeStep_serving hmin hstep hs)

theorem modeStep_measuring {q' : Queue P} {pc' : ModePc T} {ev : Event T} {choice : Bool}
    (h : modeStep P choice q pc = some (q', pc', ev)) (hpc : pc.phase = .measuring) :
    pc'.phase = .measuring ∨ pc'.left = 0 := by
  rcases pc with pc | pc <;> cases pc <;> try cases hpc
  all_goals
    simp only [modeStep, step, spscStep, apply_ite (Option.map _), Option.map_some] at h
    (try split_ifs at h) <;> obtain ⟨-, rfl, -⟩ := by simpa using h
  all_goals first | exact .inl rfl | exact .inr rfl

theorem solo_left (hmin : P.minimizeContention = true) (hs : pc.Serving P q l out)
    (hcalm : true ∉ choices ∨ pc.phase = .measuring ∨ pc.left = 0)
    (hle : pc.left ≤ choices.length) : (solo P choices q pc).2.left = 0 := by
  induction choices generalizing q pc with
  | nil => exact Nat.le_zero.mp hle
  | cons choice choices ih =>
    rw [solo]
    split
    · rename_i hnone
      by_contra hleft
      rcases pc with pc | pc <;> cases pc <;>
        simp only [modeStep, step, spscStep, Option.map_eq_none_iff] at hnone
      all_goals first | exact hleft rfl | (split_ifs at hnone) | cases hnone
    · rename_i q' pc' ev hstep
      have hs' := modeStep_serving hmin hstep hs
      by_cases hzero : pc.left = 0
      · obtain ⟨ret, hret⟩ := ret_of_left hzero
        rcases pc with pc | pc <;> cases pc <;> cases hret <;> cases hstep
      · have hlt := modeStep_left hmin hstep hs (by
          rcases hcalm with h | h | h
          · exact .inl (by cases choice <;> simp_all)
          · exact .inr h
          · exact absurd h hzero)
        refine ih hs' ?_ (by simp only [List.length_cons] at hle; omega)
        rcases hcalm with h | h | h
        · exact .inl fun hmem => h (List.mem_cons_of_mem _ hmem)
        · exact .inr (modeStep_measuring hstep h)
        · exact absurd h hzero

end Call

/-- What the thread asks of the queue; `empty` and `full` look at the result of `size`. -/
inductive Request (T : Type*)
  | call (c : Call T)
  | empty
  | full

inductive Reply (T : Type*)
  | ret (ret : Ret T)
  | answer (b : Bool)

namespace Request

def asked : Request T → Call T
  | call c => c
  | empty | full => .size

def reply (P : Params T) : Request T → Ret T → Reply T
  | empty, .sized n => .answer (n = 0)
  | full, .sized n => .answer (BitVec.ofNat 32 P.mSize ≤ n)
  | _, ret => .ret ret

def reference (capacity : ℕ) (l : List T) : Request T → List T × Reply T
  | call c => ((c.reference capacity l).1, .ret (c.reference capacity l).2)
  | empty => (l, .answer l.isEmpty)
  | full => (l, .answer (l.length = capacity))

/-- At least the five accesses that a call ever needs, and no spurious failure among them. -/
def Undisturbed (r : Request T × List Bool) : Prop :=
  5 ≤ r.2.length ∧ (true ∉ r.2 ∨ r.1.asked = .size)

theorem reference_eq {q : Queue P} {l : List T} (h : q.Holds l) (r : Request T) :
    r.reference P.mSize l = ((r.asked.reference P.mSize l).1,
      r.reply P (r.asked.reference P.mSize l).2) := by
  have hlen := h.toNat_length
  have hsize : (BitVec.ofNat 32 P.mSize).toNat = P.mSize := by
    rw [BitVec.toNat_ofNat, Nat.mod_eq_of_lt P.mSize_lt]
  have hmeasured : Call.size.reference P.mSize l = (l, .sized (BitVec.ofNat 32 l.length)) := by
    cases l <;> rfl
  cases r with
  | call c => rfl
  | empty =>
    rw [asked, hmeasured]
    simp only [reference, reply, Prod.mk.injEq, Reply.answer.injEq, true_and]
    rw [Bool.eq_iff_iff, decide_eq_true_iff, List.isEmpty_iff, ← List.length_eq_zero_iff,
      ← BitVec.toNat_inj, hlen]
    rfl
  | full =>
    rw [asked, hmeasured]
    simp only [reference, reply, Prod.mk.injEq, Reply.answer.injEq, true_and]
    rw [decide_eq_decide, BitVec.le_def, hlen, hsize]
    exact ⟨fun heq => heq.ge, fun hle => le_antisymm h.length_le hle⟩

end Request

section Requests
variable [DecidableEq T]

/-- A request served along the choices, `none` where the call has not returned by their end. -/
def serve (P : Params T) (isSpsc : Bool) (q : Queue P) (r : Request T × List Bool) :
    Option (Queue P × Reply T) :=
  let served := solo P r.2 q (r.1.asked.begin isSpsc)
  served.2.ret?.map fun ret => (served.1, r.1.reply P ret)

variable {isSpsc : Bool} {q q' : Queue P} {l : List T} {r : Request T × List Bool} {b : Reply T}

theorem serve_agrees (hmin : P.minimizeContention = true) (hq : q.Holds l)
    (hr : r.1.asked.Allowed P l) (h : serve P isSpsc q r = some (q', b)) :
    b = (r.1.reference P.mSize l).2 ∧ q'.Holds (r.1.reference P.mSize l).1 := by
  obtain ⟨ret, hret, heq⟩ := Option.map_eq_some_iff.mp h
  obtain ⟨rfl, rfl⟩ := Prod.mk.inj heq
  have hserving := solo_serving r.2 hmin (begin_serving isSpsc hq hr)
  obtain ⟨hholds, rfl⟩ := ModePc.Serving.returned hserving hret
  rw [Request.reference_eq hq]
  exact ⟨rfl, hholds⟩

theorem serve_isSome (hmin : P.minimizeContention = true) (hq : q.Holds l)
    (hr : r.1.asked.Allowed P l) (hcalm : Request.Undisturbed r) :
    ∃ q' b, serve P isSpsc q r = some (q', b) := by
  have hleft := solo_left hmin (begin_serving isSpsc hq hr) (by
    refine hcalm.2.imp_right fun hsize => .inl ?_
    rw [begin_phase, hsize]
    rfl) ((begin_left isSpsc r.1.asked).trans hcalm.1)
  obtain ⟨ret, hret⟩ := ret_of_left hleft
  exact ⟨_, _, by rw [serve, hret]; rfl⟩

/-- In the hands of one thread the queue replies like a list bounded by the least power of two
that covers `SIZE`; and no undisturbed call waits. -/
theorem replies_eq_reference (isSpsc : Bool) (hmin : P.minimizeContention = true)
    (hsize : P.size ≤ 2 ^ 30) (heq : q.mHead = q.mTail) (hfree : ∀ i, q.mQueue i = P.nil)
    {requests : List (Request T × List Bool)}
    (hallowed : Each (fun l r => some (r.1.reference P.mSize l).1)
      (fun l r => r.1.asked.Allowed P l) requests []) :
    IsLeast {n | (∃ k, n = 2 ^ k) ∧ P.size ≤ n} P.mSize ∧
    (∀ replies, results (serve P isSpsc) requests q = some replies →
      replies = expected (fun l r => r.1.reference P.mSize l) requests []) ∧
    ((∀ r ∈ requests, Request.Undisturbed r) → results (serve P isSpsc) requests q =
      some (expected (fun l r => r.1.reference P.mSize l) requests [])) := by
  have hq := Queue.Holds.of_free hsize heq hfree
  refine ⟨P.mSize_isLeast hmin, fun replies => results_sound ?_ hq hallowed, fun hcalm =>
    results_of_each ?_ hq (hallowed.and hcalm)⟩
  · rintro q l r q' b hq hr hserve
    exact serve_agrees hmin hq hr hserve
  · rintro q l r hq ⟨hr, hcalm⟩
    obtain ⟨q', b, hserve⟩ := @serve_isSome _ _ _ isSpsc _ _ _ hmin hq hr hcalm
    obtain ⟨rfl, hholds⟩ := serve_agrees hmin hq hr hserve
    exact ⟨q', hserve, hholds⟩

end Requests

def wrapping : Queue fourSlots := ⟨0xFFFFFFFE, 0xFFFFFFFE, fun _ => 0⟩

def overfull : List (Request ℕ × List Bool) :=
  [.call (.push 1), .call (.tryPush 2), .call (.tryPush 3), .call (.push 4), .full,
    .call (.tryPush 5), .call .pop, .call .size].map fun r => (r, List.replicate 5 false)

theorem replies_eq_reference_overfull :
    results (serve fourSlots true) overfull wrapping = some [.ret .pushed, .ret .pushed,
      .ret .pushed, .ret .pushed, .answer true, .ret .refused, .ret (.popped 1),
      .ret (.sized 3)] := by
  have hsize : fourSlots.mSize = 4 := by decide
  have hnil : fourSlots.nil = 0 := rfl
  have hallowed : Each (fun l r => some (Request.reference fourSlots.mSize l r.1).1)
      (fun l r => r.1.asked.Allowed fourSlots l) overfull [] := by
    simp [overfull, Each, Request.asked, Request.reference, Call.reference, Call.Allowed, hsize,
      hnil]
  exact (replies_eq_reference true rfl (by decide) rfl (fun _ => rfl) hallowed).2.2
    (by simp [overfull, Request.Undisturbed])

end ItcPlatform.LockFreeQueue
