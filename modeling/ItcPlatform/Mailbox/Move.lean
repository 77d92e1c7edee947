import ItcPlatform.Mailbox.Accounting

/-! Move construction and move assignment of a mailbox, which take its queue away from it. -/

namespace ItcPlatform.Mailbox
open LockFreeQueue AdminMessageHelper
variable {ι : Type*} [DecidableEq ι]

/-- A mailbox in the hands of one thread; its queue is null once it was moved out. -/
structure Movable (ι : Type*) where
  mMailboxId : MailboxId
  mFlags : BitVec 32
  mIsActive : Bool
  mRxMsgQueue : Option (Traced (rxMsgQueueParams ι))

inductive Outcome (ι : Type*)
  | returned (m : Movable ι) (reply : SwitchedFifo.Reply (Envelope ι))
  | waits
  | dereferencesNull

inductive Ending
  | returned
  | waits
  | dereferencesNull
  deriving DecidableEq

namespace Movable

def withQueue (m : Movable ι) (q : Traced (rxMsgQueueParams ι)) : ItcMailbox ι :=
  ⟨m.mMailboxId, m.mFlags, m.mIsActive, q, 0, [], [], ∅, []⟩

def ofMailbox (m : ItcMailbox ι) : Movable ι :=
  ⟨m.mMailboxId, m.mFlags, m.mIsActive, some m.mRxMsgQueue⟩

/-- Without a queue a call gets as far as its first access to it. -/
def serve (m : Movable ι) (c : OwnerCall ι) : Outcome ι :=
  match m.mRxMsgQueue with
  | some q =>
    match (m.withQueue q).serve c with
    | some (m, reply) => .returned (ofMailbox m) reply
    | none => .waits
  | none =>
    match c with
    | .push _ => if m.mIsActive then .dereferencesNull else .returned m (.pushed false)
    | .pop _ => if m.mIsActive then .dereferencesNull else .returned m (.popped none)
    | .setState newState =>
      if m.mIsActive = newState then .returned m (.switched [])
      else if newState then .returned { m with mIsActive := true } (.switched [])
      else .dereferencesNull

def moveConstruct (other : Movable ι) : Movable ι × Movable ι :=
  (⟨other.mMailboxId, other.mFlags, false, other.mRxMsgQueue⟩, { other with mRxMsgQueue := none })

/-- `operator=(ItcMailbox &&other)` for another mailbox, with the messages it frees; `none` where
it dereferences null. The queue it had goes with the messages in it. -/
def moveAssign (m other : Movable ι) : Option ((Movable ι × Movable ι) × List (Envelope ι)) :=
  match m.serve (.setState false) with
  | .returned m (.switched freed) =>
    some (({ m with
      mMailboxId := other.mMailboxId
      mFlags := other.mFlags
      mRxMsgQueue := other.mRxMsgQueue }, { other with mRxMsgQueue := none }), freed)
  | _ => none

/-- The replies to a sequence of calls, each with the id and the flags after it, and how it
ends. -/
def behaviour : List (OwnerCall ι) → Movable ι →
    List (SwitchedFifo.Reply (Envelope ι) × MailboxId × BitVec 32) × Ending
  | [], _ => ([], .returned)
  | c :: calls, m =>
    match m.serve c with
    | .returned m reply =>
      let r := behaviour calls m
      ((reply, m.mMailboxId, m.mFlags) :: r.1, r.2)
    | .waits => ([], .waits)
    | .dereferencesNull => ([], .dereferencesNull)

structure Moves (source : Movable ι) (moved : Movable ι × Movable ι) : Prop where
  behaviour : ∀ calls, moved.1.behaviour calls = source.behaviour calls
  destroyable : ∃ m, moved.2.serve (.setState false) = .returned m (.switched [])

def Holds (m : Movable ι) (l : List (Envelope ι)) : Prop :=
  m.mRxMsgQueue.elim (l = []) fun q => q.queue.Holds (l.map some)

def Assigns (m source : Movable ι) (former : List (Envelope ι)) : Prop :=
  ∃ moved, m.moveAssign source = some (moved, former) ∧ Moves source moved

def Frees (m : Movable ι) (former : List (Envelope ι)) : Prop :=
  if m.mIsActive then
    m.mRxMsgQueue ≠ none ∧ ∀ msg ∈ former, deallocate (some msg.adminMsg) = true
  else former = []

section Serve
variable {m m' source : Movable ι} {l : List (Envelope ι)} {c : OwnerCall ι}

omit [DecidableEq ι] in
@[simp] theorem ofMailbox_withQueue {q : Traced (rxMsgQueueParams ι)} (h : m.mRxMsgQueue = some q) :
    ofMailbox (m.withQueue q) = m := by
  cases m
  cases h
  rfl

theorem serve_ofMailbox (m : ItcMailbox ι) (c : OwnerCall ι) : (ofMailbox m).serve c =
    match m.serve c with
    | some (m, reply) => .returned (ofMailbox m) reply
    | none => .waits := by
  obtain ⟨mMailboxId, mFlags, mIsActive, q, life, gone, deallocated, unstored, overtaking⟩ := m
  cases mIsActive with
  | false =>
    cases c with
    | setState newState => cases newState <;> rfl
    | _ => rfl
  | true =>
    cases c with
    | setState newState => cases newState <;> rfl
    | push msg =>
      dsimp only [serve, ofMailbox, withQueue, ItcMailbox.serve, ItcMailbox.push]
      rw [if_neg Bool.noConfusion, if_neg Bool.noConfusion]
      generalize q.alone 4 _ = r
      obtain ⟨q, pc⟩ := r
      cases pc <;> rfl
    | pop mode =>
      dsimp only [serve, ofMailbox, withQueue, ItcMailbox.serve, ItcMailbox.pop]
      rw [if_neg Bool.noConfusion, if_neg Bool.noConfusion]
      generalize q.alone 4 _ = r
      obtain ⟨q, pc⟩ := r
      cases pc with
      | returned ret => cases ret <;> rfl
      | _ => rfl

theorem serve_pop_of_inactive (h : m.mIsActive = false) (mode : BitVec 32) :
    m.serve (.pop mode) = .returned m (.popped none) := by
  cases hq : m.mRxMsgQueue with
  | none => simp [serve, hq, h]
  | some q =>
    have hpop : (m.withQueue q).serve (.pop mode) = some (m.withQueue q, .popped none) := by
      have hoff : (m.withQueue q).mIsActive = false := h
      rw [ItcMailbox.serve, ItcMailbox.pop, if_pos hoff]
      rfl
    simp only [serve, hq, hpop, ofMailbox_withQueue hq]

theorem serve_pop_ne_of_active (h : m.mIsActive = true) :
    m.serve (.pop 0) ≠ .returned m' (.popped none) := by
  cases hq : m.mRxMsgQueue with
  | none => simp [serve, hq, h]
  | some q =>
    intro heq
    cases hpop : (m.withQueue q).pop 0 with
    | none =>
      simp only [serve, hq, ItcMailbox.serve, hpop, Option.map_none, reduceCtorEq] at heq
    | some popped =>
      have hnone : popped.2 = none := by
        simp only [serve, hq, ItcMailbox.serve, hpop, Option.map_some, Outcome.returned.injEq,
          SwitchedFifo.Reply.popped.injEq] at heq
        exact heq.2
      have hactive : (m.withQueue q).mIsActive = true := h
      refine ItcMailbox.pop_blocking_ne (r := popped.1) hactive ?_
      rw [hpop, ← hnone]

theorem serve_setState_of_inactive (h : m.mIsActive = false) :
    m.serve (.setState false) = .returned m (.switched []) := by
  cases hq : m.mRxMsgQueue with
  | none => simp [serve, hq, h]
  | some q =>
    have hset : (m.withQueue q).serve (.setState false) = some (m.withQueue q, .switched []) := by
      have hoff : (m.withQueue q).mIsActive = false := h
      rw [ItcMailbox.serve, setStateDeallocating_of_eq hoff]
    simp only [serve, hq, hset, ofMailbox_withQueue hq]

theorem serve_setState_of_active {q : Traced (rxMsgQueueParams ι)} (h : m.mIsActive = true)
    (hq : m.mRxMsgQueue = some q) (hl : q.queue.Holds (l.map some)) :
    ∃ m', m.serve (.setState false) = .returned m'
      (.switched (l.filter fun msg => deallocate (some msg.adminMsg))) ∧ m'.mIsActive = false := by
  have hactive : (m.withQueue q).mIsActive = true := h
  have hlen : l.length ≤ (rxMsgQueueParams ι).mSize := by simpa using hl.length_le
  have hswitch : (m.withQueue q).setState false = (m.withQueue q).switch false :=
    if_pos (by simp [hactive])
  have hset : (m.withQueue q).setStateDeallocating false =
      ((m.withQueue q).setStateDeallocating false |>.1,
        l.filter fun msg => deallocate (some msg.adminMsg)) := by
    rw [← drainDeallocating_snd hl hlen]
    simp only [ItcMailbox.setStateDeallocating, hswitch, hactive, true_and, if_true]
    rfl
  refine ⟨ofMailbox ((m.withQueue q).setStateDeallocating false).1, ?_, ?_⟩
  · simp only [serve, hq, ItcMailbox.serve]
    rw [hset]
  · simp only [ItcMailbox.setStateDeallocating, hswitch, hactive, true_and, if_true]
    rfl

theorem moves_iff : Moves source source.moveConstruct ↔ source.mIsActive = false := by
  constructor
  · intro h
    by_contra hoff
    have hactive : source.mIsActive = true := by simpa using hoff
    have hpop := h.behaviour [.pop 0]
    have hdest : source.moveConstruct.1.serve (.pop 0) =
        .returned source.moveConstruct.1 (.popped none) := serve_pop_of_inactive rfl 0
    simp only [behaviour, hdest] at hpop
    -- the source waits or receives, the destination comes back at once without a message
    cases hserve : source.serve (.pop 0) with
    | returned m' reply =>
      simp only [hserve, Prod.mk.injEq, List.cons.injEq] at hpop
      exact serve_pop_ne_of_active hactive (hpop.1.1.1 ▸ hserve)
    | waits => simp only [hserve, Prod.mk.injEq, reduceCtorEq, false_and] at hpop
    | dereferencesNull => simp only [hserve, Prod.mk.injEq, reduceCtorEq, false_and] at hpop
  · intro hoff
    have hsame : source.moveConstruct.1 = source := by
      rw [moveConstruct, ← hoff]
    exact ⟨fun calls => by rw [hsame], _, serve_setState_of_inactive hoff⟩

theorem moveAssign_eq {freed : List (Envelope ι)}
    (h : m.serve (.setState false) = .returned m' (.switched freed)) (hoff : m'.mIsActive = false) :
    m.moveAssign source = some (source.moveConstruct, freed) := by
  simp only [moveAssign, h, moveConstruct, hoff]

theorem assigns_iff_of_serve {freed : List (Envelope ι)}
    (h : m.serve (.setState false) = .returned m' (.switched freed)) (hoff : m'.mIsActive = false) :
    m.Assigns source l ↔ source.mIsActive = false ∧ freed = l := by
  rw [Assigns, moveAssign_eq h hoff, ← moves_iff]
  constructor
  · rintro ⟨moved, hmoved, hmoves⟩
    obtain ⟨rfl, hfreed⟩ : source.moveConstruct = moved ∧ freed = l := by simpa using hmoved
    exact ⟨hmoves, hfreed⟩
  · rintro ⟨hmoves, rfl⟩
    exact ⟨_, rfl, hmoves⟩

theorem assigns_iff (hl : m.Holds l) :
    m.Assigns source l ↔ source.mIsActive = false ∧ m.Frees l := by
  cases hactive : m.mIsActive with
  | false =>
    rw [assigns_iff_of_serve (serve_setState_of_inactive hactive) hactive, Frees, hactive]
    exact and_congr_right fun _ => eq_comm
  | true =>
    rw [Frees, hactive, if_pos rfl]
    cases hq : m.mRxMsgQueue with
    | none =>
      refine iff_of_false ?_ fun h => h.2.1 rfl
      rintro ⟨moved, hmoved, -⟩
      simp [moveAssign, serve, hq, hactive] at hmoved
    | some q =>
      rw [Holds, hq, Option.elim_some] at hl
      obtain ⟨m', hserve, hoff⟩ := serve_setState_of_active hactive hq hl
      rw [assigns_iff_of_serve hserve hoff, List.filter_eq_self]
      simp

/-- A move leaves the active state behind: it keeps the mailbox working, and the source
destroyable, exactly when the source was inactive. An assignment frees what the destination held
exactly when that is drained or nothing. -/
theorem keeps_working_iff (source : Movable ι) :
    (Moves source source.moveConstruct ↔ source.mIsActive = false) ∧
    ∀ (m : Movable ι) (l : List (Envelope ι)), m.Holds l →
      (m.Assigns source l ↔ source.mIsActive = false ∧ m.Frees l) :=
  ⟨moves_iff, fun _ _ hl => assigns_iff hl⟩

def activated : Movable Unit := ofMailbox ((ItcMailbox.new 0x00300005 0).setState true)

theorem not_moves_activated :
    activated.moveConstruct.2.serve (.setState false) = .dereferencesNull ∧
      ¬ Moves activated activated.moveConstruct := by
  have hnull : activated.moveConstruct.2.serve (.setState false) = .dereferencesNull := rfl
  refine ⟨hnull, fun h => ?_⟩
  obtain ⟨m', hdestroyed⟩ := h.destroyable
  rw [hnull] at hdestroyed
  cases hdestroyed

end Serve

end Movable

end ItcPlatform.Mailbox
