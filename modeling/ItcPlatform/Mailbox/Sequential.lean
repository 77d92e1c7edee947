import ItcPlatform.LockFreeQueue.Sequential
import ItcPlatform.Mailbox.Identity

/-! The mailbox in the hands of one thread at a time: whole calls of `push`, `pop` and `setState`,
the last with its drain. -/

namespace ItcPlatform.LockFreeQueue
variable {T : Type*} {P : Params T} [DecidableEq T] {t : Traced P}

def Traced.drain : ℕ → Traced P → Traced P
  | 0, t => t
  | n + 1, t =>
    if sizeOf t.queue.mHead t.queue.mTail = 0 then t
    else (t.alone 4 (Call.start .tryPop)).1.drain n

theorem Traced.drain_holds {n : ℕ} {l : List T} (h : t.queue.Holds l) (hn : l.length ≤ n) :
    (t.drain n).queue.Holds [] := by
  induction l generalizing t n with
  | nil =>
    cases n with
    | zero => exact h
    | succ n =>
      rw [Traced.drain, if_pos (show _ = (0 : BitVec 32) from h.sizeOf)]
      exact h
  | cons e l ih =>
    cases n with
    | zero => exact absurd hn (Nat.not_succ_le_zero _)
    | succ n =>
      rw [Traced.drain, if_neg h.sizeOf_ne_zero, alone_tryPop h]
      exact ih h.pop (Nat.le_of_succ_le_succ hn)

end ItcPlatform.LockFreeQueue

namespace ItcPlatform.Mailbox
open LockFreeQueue
variable {ι : Type*}

namespace ItcMailbox
variable {m m' : ItcMailbox ι} {msg : Envelope ι}

def Accepts (m : ItcMailbox ι) : Prop :=
  m.mIsActive = true ∧ m.mRxMsgQueue.queue.mQueue
    ((rxMsgQueueParams ι).slot m.mRxMsgQueue.queue.mHead) = none

theorem accepts_of_holds {l : List (Message ι)} (hact : m.mIsActive = true)
    (hl : m.mRxMsgQueue.queue.Holds l) (hroom : l.length < (rxMsgQueueParams ι).mSize) :
    m.Accepts := ⟨hact, hl.free rfl hroom⟩

variable [DecidableEq ι]

/-- `none` where the push waits for a slot. -/
def push (m : ItcMailbox ι) (msg : Envelope ι) : Option (ItcMailbox ι × Bool) :=
  if m.mIsActive = false then some (m, false)
  else
    match m.mRxMsgQueue.alone 4 (Call.start (.push (some msg))) with
    | (q, .returned _) => some ({ m with mRxMsgQueue := q }, true)
    | _ => none

/-- `none` where the pop waits for a message. -/
def pop (m : ItcMailbox ι) (mode : BitVec 32) : Option (ItcMailbox ι × Message ι) :=
  if m.mIsActive = false then some (m, none)
  else
    match m.mRxMsgQueue.alone 4 (popCall mode).start with
    | (q, .returned (.popped msg)) => some ({ m with mRxMsgQueue := q }, msg)
    | (q, .returned _) => some ({ m with mRxMsgQueue := q }, none)
    | _ => none

def setStateDraining (m : ItcMailbox ι) (newState : Bool) : ItcMailbox ι :=
  let m' := m.setState newState
  if m.mIsActive ∧ newState = false then
    { m' with mRxMsgQueue := m'.mRxMsgQueue.drain (rxMsgQueueParams ι).mSize }
  else m'

theorem push_of_inactive (h : m.mIsActive = false) : m.push msg = some (m, false) := if_pos h

theorem push_of_accepts (h : m.Accepts) : m.push msg = some ({ m with mRxMsgQueue :=
    ⟨⟨m.mRxMsgQueue.queue.mHead + 1, m.mRxMsgQueue.queue.mTail,
      Function.update m.mRxMsgQueue.queue.mQueue
        ((rxMsgQueueParams ι).slot m.mRxMsgQueue.queue.mHead) (some msg)⟩,
      m.mRxMsgQueue.pushTickets + 1, m.mRxMsgQueue.popTickets,
      m.mRxMsgQueue.stored ++ [some msg], m.mRxMsgQueue.taken⟩ }, true) := by
  rw [push, if_neg (by simp [h.1]), alone_push h.2]

theorem push_of_not_accepts (hact : m.mIsActive = true) (h : ¬ m.Accepts) :
    m.push msg = none := by
  have hwaits := alone_push_waits (P := rxMsgQueueParams ι) (e := some msg) fun hslot =>
    h ⟨hact, hslot⟩
  rw [push, if_neg (by simp [hact])]
  split
  · rename_i hreturned
    exact absurd (congrArg Prod.snd hreturned) (hwaits _)
  · rfl

theorem pop_blocking_ne {r : ItcMailbox ι} (hact : m.mIsActive = true) :
    m.pop 0 ≠ some (r, none) := by
  intro h
  have hcall : (popCall 0 : LockFreeQueue.Call (Message ι)) = .pop := if_neg (by decide)
  rw [pop, if_neg (by simp [hact]), hcall] at h
  by_cases hslot : m.mRxMsgQueue.queue.mQueue
      ((rxMsgQueueParams ι).slot m.mRxMsgQueue.queue.mTail) = none
  · have hwaits := alone_pop_waits (P := rxMsgQueueParams ι) hslot 4
    split at h
    · next hreturned => exact hwaits _ (congrArg Prod.snd hreturned)
    · next hreturned => exact hwaits _ (congrArg Prod.snd hreturned)
    · cases h
  · rw [alone_pop_of_ne (P := rxMsgQueueParams ι) hslot] at h
    simp only [Option.some.injEq, Prod.mk.injEq] at h
    exact hslot h.2

theorem pop_of_pending {mode : BitVec 32} {msg : Message ι} {l : List (Message ι)}
    (hact : m.mIsActive = true) (h : m.mRxMsgQueue.queue.Holds (msg :: l)) :
    m.pop mode = some ({ m with mRxMsgQueue :=
      ⟨⟨m.mRxMsgQueue.queue.mHead, m.mRxMsgQueue.queue.mTail + 1,
        Function.update m.mRxMsgQueue.queue.mQueue
          ((rxMsgQueueParams ι).slot m.mRxMsgQueue.queue.mTail) none⟩,
        m.mRxMsgQueue.pushTickets, m.mRxMsgQueue.popTickets + 1, m.mRxMsgQueue.stored,
        m.mRxMsgQueue.taken ++ [msg]⟩ }, msg) := by
  have hcall : m.mRxMsgQueue.alone 4 (popCall mode).start =
      m.mRxMsgQueue.alone 4 (Call.start .tryPop) := by
    unfold popCall
    split_ifs
    · rfl
    · exact (alone_pop h).trans (alone_tryPop h).symm
  rw [pop, if_neg (by simp [hact]), hcall, alone_tryPop h]
  rfl

theorem pop_of_empty {mode : BitVec 32} (hact : m.mIsActive = true)
    (h : m.mRxMsgQueue.queue.Holds []) :
    m.pop mode = if mode &&& itcModeReceiveNonBlocking ≠ 0 then some (m, none) else none := by
  rw [pop, if_neg (by simp [hact]), popCall]
  split_ifs
  · rw [alone_tryPop_empty h]
  · have hwaits := alone_pop_waits h.free_of_empty 4
    split
    · rename_i hreturned
      exact absurd (congrArg Prod.snd hreturned) (hwaits _)
    · rename_i hreturned
      exact absurd (congrArg Prod.snd hreturned) (hwaits _)
    · rfl

theorem push_frame {ok : Bool} (h : m.push msg = some (m', ok)) :
    m'.mMailboxId = m.mMailboxId ∧ m'.mIsActive = m.mIsActive ∧ m'.life = m.life := by
  unfold push at h
  split_ifs at h
  · obtain ⟨rfl, -⟩ := by simpa using h
    exact ⟨rfl, rfl, rfl⟩
  · split at h
    · obtain ⟨rfl, -⟩ := by simpa using h
      exact ⟨rfl, rfl, rfl⟩
    · cases h

theorem pop_frame {mode : BitVec 32} {out : Message ι} (h : m.pop mode = some (m', out)) :
    m'.mMailboxId = m.mMailboxId ∧ m'.mIsActive = m.mIsActive ∧ m'.life = m.life := by
  unfold pop at h
  split_ifs at h
  · obtain ⟨rfl, -⟩ := by simpa using h
    exact ⟨rfl, rfl, rfl⟩
  · split at h
    · obtain ⟨rfl, -⟩ := by simpa using h
      exact ⟨rfl, rfl, rfl⟩
    · obtain ⟨rfl, -⟩ := by simpa using h
      exact ⟨rfl, rfl, rfl⟩
    · cases h

theorem setStateDraining_frame (newState : Bool) :
    (m.setStateDraining newState).mMailboxId = (m.setState newState).mMailboxId ∧
      (m.setStateDraining newState).mIsActive = (m.setState newState).mIsActive ∧
      (m.setStateDraining newState).life = (m.setState newState).life := by
  unfold setStateDraining
  split_ifs <;> exact ⟨rfl, rfl, rfl⟩

end ItcMailbox

end ItcPlatform.Mailbox
