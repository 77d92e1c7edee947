import ItcPlatform.Lib.Interleaving
import ItcPlatform.LockFreeQueue.Index

/-! The queue with `IS_SPSC_VALUE = 0`, one atomic access at a time, and what one access can do. -/

namespace ItcPlatform.LockFreeQueue
open Interleaving
variable {T : Type*}

structure Queue (P : Params T) where
  mHead : BitVec 32
  mTail : BitVec 32
  mQueue : Fin P.mSize → T

def Queue.new (P : Params T) : Queue P := ⟨0, 0, fun _ => P.nil⟩

inductive Call (T : Type*)
  | push (element : T)
  | tryPush (element : T)
  | pop
  | tryPop
  | size

/-- `tryPush` and `push` return `pushed`, `tryPop` and `pop` return `popped`; a try
operation that gives up returns `refused`. -/
inductive Ret (T : Type*)
  | pushed
  | popped (element : T)
  | refused
  | sized (size : BitVec 32)

/-- Where a call stands: the atomic access it makes next, with its local variables. -/
inductive Pc (T : Type*)
  | tryPushLoadHead (element : T)
  | tryPushLoadTail (element : T) (head : BitVec 32)
  | tryPushCasHead (element : T) (head : BitVec 32)
  | pushFetchAdd (element : T)
  | doPushCas (element : T) (head : BitVec 32)
  | doPushLoad (element : T) (head : BitVec 32)
  | tryPopLoadTail
  | tryPopLoadHead (tail : BitVec 32)
  | tryPopCasTail (tail : BitVec 32)
  | popFetchAdd
  | doPopExchange (tail : BitVec 32)
  | doPopLoad (tail : BitVec 32)
  | sizeLoad
  | sizeLoadHead (tail : BitVec 32)
  | sizeLoadTail (head : BitVec 32)
  | returned (ret : Ret T)

def Call.start : Call T → Pc T
  | push element => .pushFetchAdd element
  | tryPush element => .tryPushLoadHead element
  | pop => .popFetchAdd
  | tryPop => .tryPopLoadTail
  | size => .sizeLoad

/-- What an access contributes to the history of the queue. -/
inductive Event (T : Type*)
  | silent
  | pushTicket
  | popTicket
  | stored (element : T)
  | taken (element : T)

def sizeOf (head tail : BitVec 32) : BitVec 32 := if (head - tail).slt 0 then 0 else head - tail

theorem toInt_ofNat_sub {a b : ℕ} (h : a < b + 2 ^ 31) (h' : b ≤ a + 2 ^ 31) :
    (BitVec.ofNat 32 a - BitVec.ofNat 32 b).toInt = a - b := by
  rw [BitVec.toInt_sub, BitVec.toInt_ofNat', BitVec.toInt_ofNat', ← Int.sub_bmod,
    Int.bmod_eq_of_le (by omega) (by omega)]

theorem toInt_ofNat_of_lt {a : ℕ} (h : a < 2 ^ 31) : (BitVec.ofNat 32 a).toInt = a := by
  rw [BitVec.toInt_ofNat', Int.bmod_eq_of_le (by omega) (by omega)]

variable [DecidableEq T]

/-- The next atomic access of a call. `choice` makes a weak compare-exchange fail spuriously,
and makes `size`, whose two loads C++ leaves unordered, load `m_tail` first. -/
def step (P : Params T) (choice : Bool) (q : Queue P) : Pc T → Option (Queue P × Pc T × Event T)
  | .tryPushLoadHead element => some (q, .tryPushLoadTail element q.mHead, .silent)
  | .tryPushLoadTail element head =>
    if (BitVec.ofNat 32 P.mSize).sle (head - q.mTail) then some (q, .returned .refused, .silent)
    else some (q, .tryPushCasHead element head, .silent)
  | .tryPushCasHead element head =>
    if choice = false ∧ q.mHead = head then
      some ({ q with mHead := head + 1 }, .doPushCas element head, .pushTicket)
    else some (q, .tryPushLoadTail element q.mHead, .silent)
  | .pushFetchAdd element =>
    some ({ q with mHead := q.mHead + 1 }, .doPushCas element q.mHead, .pushTicket)
  | .doPushCas element head =>
    if choice = false ∧ q.mQueue (P.slot head) = P.nil then
      some ({ q with mQueue := Function.update q.mQueue (P.slot head) element },
        .returned .pushed, .stored element)
    else if P.maximizeThroughput then some (q, .doPushLoad element head, .silent)
    else some (q, .doPushCas element head, .silent)
  | .doPushLoad element head =>
    if q.mQueue (P.slot head) ≠ P.nil then some (q, .doPushLoad element head, .silent)
    else some (q, .doPushCas element head, .silent)
  | .tryPopLoadTail => some (q, .tryPopLoadHead q.mTail, .silent)
  | .tryPopLoadHead tail =>
    if (q.mHead - tail).sle 0 then some (q, .returned .refused, .silent)
    else some (q, .tryPopCasTail tail, .silent)
  | .tryPopCasTail tail =>
    if choice = false ∧ q.mTail = tail then
      some ({ q with mTail := tail + 1 }, .doPopExchange tail, .popTicket)
    else some (q, .tryPopLoadHead q.mTail, .silent)
  | .popFetchAdd => some ({ q with mTail := q.mTail + 1 }, .doPopExchange q.mTail, .popTicket)
  | .doPopExchange tail =>
    if q.mQueue (P.slot tail) ≠ P.nil then
      some ({ q with mQueue := Function.update q.mQueue (P.slot tail) P.nil },
        .returned (.popped (q.mQueue (P.slot tail))), .taken (q.mQueue (P.slot tail)))
    else if P.maximizeThroughput then some (q, .doPopLoad tail, .silent)
    else some (q, .doPopExchange tail, .silent)
  | .doPopLoad tail =>
    if q.mQueue (P.slot tail) = P.nil then some (q, .doPopLoad tail, .silent)
    else some (q, .doPopExchange tail, .silent)
  | .sizeLoad =>
    if choice then some (q, .sizeLoadHead q.mTail, .silent)
    else some (q, .sizeLoadTail q.mHead, .silent)
  | .sizeLoadHead tail => some (q, .returned (.sized (sizeOf q.mHead tail)), .silent)
  | .sizeLoadTail head => some (q, .returned (.sized (sizeOf head q.mTail)), .silent)
  | .returned _ => none

section Slot
variable {P : Params T} {choice : Bool} {q : Queue P} {e : T} {t : BitVec 32}

theorem step_stores (e : T) (h : q.mQueue (P.slot t) = P.nil) :
    step P false q (.doPushCas e t) = some ({ q with
      mQueue := Function.update q.mQueue (P.slot t) e }, .returned .pushed, .stored e) :=
  if_pos ⟨rfl, h⟩

theorem step_takes (h : q.mQueue (P.slot t) = e) (hne : e ≠ P.nil) :
    step P choice q (.doPopExchange t) = some ({ q with
      mQueue := Function.update q.mQueue (P.slot t) P.nil }, .returned (.popped e), .taken e) := by
  subst h
  exact if_pos hne

end Slot

inductive Phase (T : Type*)
  | wantsPush (element : T)
  | storing (element : T) (ticket : BitVec 32)
  | wantsPop
  | emptying (ticket : BitVec 32)
  | measuring
  | returned (ret : Ret T)

def Pc.phase : Pc T → Phase T
  | tryPushLoadHead e | tryPushLoadTail e _ | tryPushCasHead e _ | pushFetchAdd e => .wantsPush e
  | doPushCas e t | doPushLoad e t => .storing e t
  | tryPopLoadTail | tryPopLoadHead _ | tryPopCasTail _ | popFetchAdd => .wantsPop
  | doPopExchange t | doPopLoad t => .emptying t
  | sizeLoad | sizeLoadHead _ | sizeLoadTail _ => .measuring
  | returned r => .returned r

/-- Everything one access can do to the queue and to the phase of the call. -/
inductive Effect (P : Params T) (q : Queue P) : Phase T → Event T → Queue P → Phase T → Prop
  | stay (f : Phase T) : Effect P q f .silent q f
  | refusePush (e : T) : Effect P q (.wantsPush e) .silent q (.returned .refused)
  | refusePop : Effect P q .wantsPop .silent q (.returned .refused)
  | measured (n : BitVec 32) : Effect P q .measuring .silent q (.returned (.sized n))
  | pushTicket (e : T) : Effect P q (.wantsPush e) .pushTicket { q with mHead := q.mHead + 1 }
      (.storing e q.mHead)
  | popTicket : Effect P q .wantsPop .popTicket { q with mTail := q.mTail + 1 } (.emptying q.mTail)
  | stored (e : T) (t : BitVec 32) (h : q.mQueue (P.slot t) = P.nil) :
      Effect P q (.storing e t) (.stored e)
        { q with mQueue := Function.update q.mQueue (P.slot t) e } (.returned .pushed)
  | taken (e : T) (t : BitVec 32) (h : q.mQueue (P.slot t) = e) (hne : e ≠ P.nil) :
      Effect P q (.emptying t) (.taken e)
        { q with mQueue := Function.update q.mQueue (P.slot t) P.nil } (.returned (.popped e))

theorem step_effect {P : Params T} {choice : Bool} {q q' : Queue P} {pc pc' : Pc T} {ev : Event T}
    (h : step P choice q pc = some (q', pc', ev)) : Effect P q pc.phase ev q' pc'.phase := by
  cases pc <;> simp only [step] at h <;> (repeat' split at h) <;>
    simp only [Option.some.injEq, Prod.mk.injEq, reduceCtorEq] at h
  all_goals obtain ⟨rfl, rfl, rfl⟩ := h
  case tryPushCasHead.isTrue hc =>
    obtain ⟨-, rfl⟩ := hc
    exact .pushTicket _
  case tryPopCasTail.isTrue hc =>
    obtain ⟨-, rfl⟩ := hc
    exact .popTicket
  case doPushCas.isTrue hc => exact .stored _ _ hc.2
  case doPopExchange.isTrue hc => exact .taken _ _ rfl hc
  all_goals first | exact .stay _ | constructor

namespace Queue
variable {P : Params T} (q : Queue P)

def contents : Multiset T := (Finset.univ.val.map q.mQueue).filter (· ≠ P.nil)

theorem contents_eq_sum :
    q.contents = ∑ i, if q.mQueue i = P.nil then (0 : Multiset T) else {q.mQueue i} := by
  have h : ∀ s : Multiset (Fin P.mSize), (s.map q.mQueue).filter (· ≠ P.nil) =
      (s.map fun i => if q.mQueue i = P.nil then (0 : Multiset T) else {q.mQueue i}).sum := by
    intro s
    induction s using Multiset.induction_on with
    | empty => rfl
    | cons i s ih =>
      rw [Multiset.map_cons, Multiset.map_cons, Multiset.sum_cons, ← ih]
      by_cases hi : q.mQueue i = P.nil
      · simp [hi]
      · simp [hi, Multiset.singleton_add]
  exact h _

theorem contents_store {i : Fin P.mSize} {e : T} (h : q.mQueue i = P.nil) (he : e ≠ P.nil) :
    ({ q with mQueue := Function.update q.mQueue i e } : Queue P).contents = q.contents + {e} := by
  rw [contents_eq_sum, contents_eq_sum]
  simpa only [h, if_true, add_zero, he, if_false] using
    sum_update (fun x => if x = P.nil then (0 : Multiset T) else {x}) q.mQueue i e

theorem contents_take {i : Fin P.mSize} {e : T} (h : q.mQueue i = e) (he : e ≠ P.nil) :
    ({ q with mQueue := Function.update q.mQueue i P.nil } : Queue P).contents + {e} =
      q.contents := by
  rw [contents_eq_sum, contents_eq_sum]
  simpa only [h, if_true, add_zero, he, if_false] using
    sum_update (fun x => if x = P.nil then (0 : Multiset T) else {x}) q.mQueue i P.nil

theorem card_contents_le : q.contents.card ≤ P.mSize := by
  refine (Multiset.card_le_card (Multiset.filter_le _ _)).trans ?_
  simp

theorem contents_eq_zero_iff : q.contents = 0 ↔ ∀ i, q.mQueue i = P.nil := by
  simp [contents]

@[simp] theorem contents_new : (Queue.new P).contents = 0 := by simp [contents_eq_sum, new]

end Queue

end ItcPlatform.LockFreeQueue
