import ItcPlatform.LockFreeQueue.Conservation

/-! The queue with `IS_SPSC_VALUE = 1`, one atomic access at a time. Its counters and slots are
loaded and stored in separate accesses; as long as what was loaded still holds, each access has
one of the effects of the shared queue. -/

namespace ItcPlatform.LockFreeQueue
open Interleaving
variable {T : Type*}

inductive SpscPc (T : Type*)
  | tryPushLoadHead (element : T)
  | tryPushLoadTail (element : T) (head : BitVec 32)
  | tryPushStoreHead (element : T) (head : BitVec 32)
  | pushLoadHead (element : T)
  | pushStoreHead (element : T) (head : BitVec 32)
  | doPushLoad (element : T) (head : BitVec 32)
  | doPushStore (element : T) (head : BitVec 32)
  | tryPopLoadTail
  | tryPopLoadHead (tail : BitVec 32)
  | tryPopStoreTail (tail : BitVec 32)
  | popLoadTail
  | popStoreTail (tail : BitVec 32)
  | doPopLoad (tail : BitVec 32)
  | doPopStore (tail : BitVec 32) (element : T)
  | sizeLoad
  | sizeLoadHead (tail : BitVec 32)
  | sizeLoadTail (head : BitVec 32)
  | returned (ret : Ret T)

def Call.spscStart : Call T → SpscPc T
  | push element => .pushLoadHead element
  | tryPush element => .tryPushLoadHead element
  | pop => .popLoadTail
  | tryPop => .tryPopLoadTail
  | size => .sizeLoad

def SpscPc.phase : SpscPc T → Phase T
  | tryPushLoadHead e | tryPushLoadTail e _ | tryPushStoreHead e _ | pushLoadHead e
  | pushStoreHead e _ => .wantsPush e
  | doPushLoad e t | doPushStore e t => .storing e t
  | tryPopLoadTail | tryPopLoadHead _ | tryPopStoreTail _ | popLoadTail | popStoreTail _ =>
    .wantsPop
  | doPopLoad t | doPopStore t _ => .emptying t
  | sizeLoad | sizeLoadHead _ | sizeLoadTail _ => .measuring
  | returned r => .returned r

def SpscPc.Fresh {P : Params T} (q : Queue P) : SpscPc T → Prop
  | tryPushLoadTail _ head | tryPushStoreHead _ head | pushStoreHead _ head => q.mHead = head
  | doPushStore _ head => q.mQueue (P.slot head) = P.nil
  | tryPopLoadHead tail | tryPopStoreTail tail | popStoreTail tail => q.mTail = tail
  | doPopStore tail element => q.mQueue (P.slot tail) = element ∧ element ≠ P.nil
  | _ => True

abbrev ModePc (T : Type*) := Pc T ⊕ SpscPc T

def Call.begin (isSpsc : Bool) (c : Call T) : ModePc T :=
  if isSpsc then .inr c.spscStart else .inl c.start

namespace ModePc

def phase : ModePc T → Phase T
  | .inl pc => pc.phase
  | .inr pc => pc.phase

def Fresh {P : Params T} (q : Queue P) : ModePc T → Prop
  | .inl _ => True
  | .inr pc => pc.Fresh q

def ret? : ModePc T → Option (Ret T)
  | .inl (.returned ret) | .inr (.returned ret) => some ret
  | _ => none

theorem phase_of_ret? {pc : ModePc T} {ret : Ret T} (h : pc.ret? = some ret) :
    pc.phase = .returned ret := by
  unfold ret? at h
  split at h
  · exact congrArg Phase.returned (Option.some.inj h)
  · exact congrArg Phase.returned (Option.some.inj h)
  · cases h

end ModePc

theorem begin_fresh {P : Params T} (q : Queue P) (isSpsc : Bool) (c : Call T) :
    (c.begin isSpsc).Fresh q := by
  cases isSpsc <;> cases c <;> exact trivial

theorem begin_phase (isSpsc : Bool) (c : Call T) : (c.begin isSpsc).phase = c.start.phase := by
  cases isSpsc <;> cases c <;> rfl

variable [DecidableEq T]

/-- The next atomic access of a call. `choice` makes `size` load `m_tail` first. -/
def spscStep (P : Params T) (choice : Bool) (q : Queue P) :
    SpscPc T → Option (Queue P × SpscPc T × Event T)
  | .tryPushLoadHead element => some (q, .tryPushLoadTail element q.mHead, .silent)
  | .tryPushLoadTail element head =>
    if (BitVec.ofNat 32 P.mSize).sle (head - q.mTail) then some (q, .returned .refused, .silent)
    else some (q, .tryPushStoreHead element head, .silent)
  | .tryPushStoreHead element head =>
    some ({ q with mHead := head + 1 }, .doPushLoad element head, .pushTicket)
  | .pushLoadHead element => some (q, .pushStoreHead element q.mHead, .silent)
  | .pushStoreHead element head =>
    some ({ q with mHead := head + 1 }, .doPushLoad element head, .pushTicket)
  | .doPushLoad element head =>
    if q.mQueue (P.slot head) ≠ P.nil then some (q, .doPushLoad element head, .silent)
    else some (q, .doPushStore element head, .silent)
  | .doPushStore element head =>
    some ({ q with mQueue := Function.update q.mQueue (P.slot head) element },
      .returned .pushed, .stored element)
  | .tryPopLoadTail => some (q, .tryPopLoadHead q.mTail, .silent)
  | .tryPopLoadHead tail =>
    if (q.mHead - tail).sle 0 then some (q, .returned .refused, .silent)
    else some (q, .tryPopStoreTail tail, .silent)
  | .tryPopStoreTail tail => some ({ q with mTail := tail + 1 }, .doPopLoad tail, .popTicket)
  | .popLoadTail => some (q, .popStoreTail q.mTail, .silent)
  | .popStoreTail tail => some ({ q with mTail := tail + 1 }, .doPopLoad tail, .popTicket)
  | .doPopLoad tail =>
    if q.mQueue (P.slot tail) ≠ P.nil then
      some (q, .doPopStore tail (q.mQueue (P.slot tail)), .silent)
    else some (q, .doPopLoad tail, .silent)
  | .doPopStore tail element =>
    some ({ q with mQueue := Function.update q.mQueue (P.slot tail) P.nil },
      .returned (.popped element), .taken element)
  | .sizeLoad =>
    if choice then some (q, .sizeLoadHead q.mTail, .silent)
    else some (q, .sizeLoadTail q.mHead, .silent)
  | .sizeLoadHead tail => some (q, .returned (.sized (sizeOf q.mHead tail)), .silent)
  | .sizeLoadTail head => some (q, .returned (.sized (sizeOf head q.mTail)), .silent)
  | .returned _ => none

section Step
variable {P : Params T} {choice : Bool} {q q' : Queue P} {pc pc' : SpscPc T} {ev : Event T}

theorem spscStep_effect (h : spscStep P choice q pc = some (q', pc', ev)) (hf : pc.Fresh q) :
    Effect P q pc.phase ev q' pc'.phase := by
  cases pc <;> simp only [spscStep] at h <;> (repeat' split at h) <;>
    simp only [Option.some.injEq, Prod.mk.injEq, reduceCtorEq] at h
  all_goals obtain ⟨rfl, rfl, rfl⟩ := h
  case tryPushStoreHead | pushStoreHead =>
    obtain rfl : q.mHead = _ := hf
    exact .pushTicket _
  case tryPopStoreTail | popStoreTail =>
    obtain rfl : q.mTail = _ := hf
    exact .popTicket
  case doPushStore => exact .stored _ _ hf
  case doPopStore => exact .taken _ _ hf.1 hf.2
  all_goals first | exact .stay _ | constructor

theorem spscStep_fresh (h : spscStep P choice q pc = some (q', pc', ev)) (hf : pc.Fresh q) :
    pc'.Fresh q' := by
  cases pc <;> simp only [spscStep] at h <;> (repeat' split at h) <;>
    simp only [Option.some.injEq, Prod.mk.injEq, reduceCtorEq] at h
  all_goals obtain ⟨rfl, rfl, rfl⟩ := h
  case doPushLoad.isFalse hnil => exact not_not.mp hnil
  case doPopLoad.isTrue hne => exact ⟨rfl, hne⟩
  all_goals first | exact trivial | exact hf | rfl

end Step

def modeStep (P : Params T) (choice : Bool) (q : Queue P) :
    ModePc T → Option (Queue P × ModePc T × Event T)
  | .inl pc => (step P choice q pc).map fun r => (r.1, .inl r.2.1, r.2.2)
  | .inr pc => (spscStep P choice q pc).map fun r => (r.1, .inr r.2.1, r.2.2)

section Mode
variable {P : Params T} {choice : Bool} {q q' : Queue P} {pc pc' : ModePc T} {ev : Event T}

theorem modeStep_effect (h : modeStep P choice q pc = some (q', pc', ev)) (hf : pc.Fresh q) :
    Effect P q pc.phase ev q' pc'.phase ∧ pc'.Fresh q' := by
  cases pc with
  | inl pc =>
    obtain ⟨r, hstep, heq⟩ := Option.map_eq_some_iff.mp h
    obtain ⟨rfl, rfl, rfl⟩ := by simpa using heq
    exact ⟨step_effect hstep, trivial⟩
  | inr pc =>
    obtain ⟨r, hstep, heq⟩ := Option.map_eq_some_iff.mp h
    obtain ⟨rfl, rfl, rfl⟩ := by simpa using heq
    exact ⟨spscStep_effect hstep hf, spscStep_fresh hstep hf⟩

end Mode

end ItcPlatform.LockFreeQueue
