import ItcPlatform.AdminMessage
import ItcPlatform.LockFreeQueue.Conservation

/-! A mailbox with its rx queue: threads that push to it, and the one owner that receives and
switches it on and off, one atomic access at a time. -/

namespace ItcPlatform.Mailbox
open Interleaving LockFreeQueue AdminMessageHelper
variable {ι : Type*}

/-- A pushed message with a stamp the code does not see: who pushes it, how many messages of
that sender were stored before, and the life of the mailbox that admitted it. -/
structure Envelope (ι : Type*) where
  sender : ι
  number : ℕ
  life : ℕ
  adminMsg : AdminMessage
  deriving DecidableEq

abbrev Message (ι : Type*) := Option (Envelope ι)

def rxMsgQueueParams (ι : Type*) : Params (Message ι) :=
  { size := itcMailboxRxMessageQueueSize, nil := none, minimizeContention := true,
    maximizeThroughput := true, sizeofElem := 8, size_pos := by decide, size_lt := by decide,
    size_le := by decide }

theorem mSize_rxMsgQueueParams : (rxMsgQueueParams ι).mSize = 1024 :=
  show (roundUpToPowerOf2 1024).toNat = 1024 by decide

/-- The call of the rx queue a thread is in: `push` of `push`, `tryPop` or `pop` of `pop`, and
the `empty` and `tryPop` of the loop in `setState`. -/
inductive Site
  | push
  | pop
  | empty
  | drain
  deriving DecidableEq

structure Departure (ι : Type*) where
  site : Site
  life : ℕ
  envelope : Envelope ι

/-- The mailbox and its history: the number of lives it began, the messages that left its
queue and those deallocated, the push tickets whose message is not stored yet, and the pushes that
stored theirs while an older ticket of the same slot was not. -/
structure ItcMailbox (ι : Type*) where
  mMailboxId : MailboxId
  mFlags : BitVec 32
  mIsActive : Bool
  mRxMsgQueue : Traced (rxMsgQueueParams ι)
  life : ℕ
  gone : List (Departure ι)
  deallocated : List (Envelope ι)
  unstored : Finset ℕ
  overtaking : List (ι × ℕ)

def ItcMailbox.new (mailboxId : MailboxId) (flags : BitVec 32) : ItcMailbox ι :=
  ⟨mailboxId, flags, false, .new _, 0, [], [], ∅, []⟩

inductive Stage (ι : Type*)
  | idle
  | pushLoad (adminMsg : AdminMessage)
  | popLoad (mode : BitVec 32)
  | setStateCas (newState : Bool)
  | inQueue (site : Site) (pc : Pc (Message ι))

structure Thread (ι : Type*) where
  stage : Stage ι
  pushed : ℕ
  ticket : ℕ

def Thread.new : Thread ι := ⟨.idle, 0, 0⟩

def Thread.at (th : Thread ι) (stage : Stage ι) : Thread ι := { th with stage }

inductive Action
  | push (adminMsg : AdminMessage)
  | pop (mode : BitVec 32)
  | setState (newState : Bool)
  | access (choice : Bool)

namespace ItcMailbox

def switch (m : ItcMailbox ι) : Bool → ItcMailbox ι
  | true => { m with mIsActive := true, life := m.life + 1 }
  | false =>
    { m with mIsActive := false, mMailboxId := itcMailboxIdDefault, mFlags := itcFlagDefault }

def departed (m : ItcMailbox ι) (site : Site) : Event (Message ι) → List (Departure ι)
  | .taken (some y) => [⟨site, m.life, y⟩]
  | _ => []

def awaited (m : ItcMailbox ι) (th : Thread ι) : Event (Message ι) → Finset ℕ
  | .pushTicket => insert m.mRxMsgQueue.pushTickets m.unstored
  | .stored _ => m.unstored.erase th.ticket
  | _ => m.unstored

/-- The push whose message an access stores before that of an older ticket of its slot. -/
def overtakes (m : ItcMailbox ι) (i : ι) (th : Thread ι) : Event (Message ι) → List (ι × ℕ)
  | .stored _ =>
    if ∃ t ∈ m.unstored, t < th.ticket ∧ (rxMsgQueueParams ι).slot (BitVec.ofNat 32 t) =
      (rxMsgQueueParams ι).slot (BitVec.ofNat 32 th.ticket) then [(i, th.pushed)] else []
  | _ => []

def record (m : ItcMailbox ι) (i : ι) (th : Thread ι) (site : Site)
    (q : Queue (rxMsgQueueParams ι)) (ev : Event (Message ι)) : ItcMailbox ι :=
  { m with
    mRxMsgQueue := m.mRxMsgQueue.record q ev
    gone := m.gone ++ m.departed site ev
    unstored := m.awaited th ev
    overtaking := m.overtaking ++ m.overtakes i th ev }

/-- What a thread deallocates with the result of its queue call: the drain what it popped. -/
def freed : Site → Ret (Message ι) → List (Envelope ι)
  | .drain, .popped (some y) => if deallocate (some y.adminMsg) then [y] else []
  | _, _ => []

def resume (m : ItcMailbox ι) (site : Site) (ret : Ret (Message ι)) : ItcMailbox ι :=
  { m with deallocated := m.deallocated ++ freed site ret }

end ItcMailbox

def Thread.note (th : Thread ι) (m : ItcMailbox ι) : Event (Message ι) → Thread ι
  | .pushTicket => { th with ticket := m.mRxMsgQueue.pushTickets }
  | .stored _ => { th with pushed := th.pushed + 1 }
  | _ => th

def Site.next : Site → Ret (Message ι) → Stage ι
  | .empty, .sized n => if n = 0 then .idle else .inQueue .drain (Call.start .tryPop)
  | .drain, _ => .inQueue .empty (Call.start .size)
  | _, _ => .idle

def popCall (mode : BitVec 32) : Call (Message ι) :=
  if mode &&& itcModeReceiveNonBlocking ≠ 0 then .tryPop else .pop

variable [DecidableEq ι]

/-- Any thread may push; only the owner receives and switches. -/
def mailbox (owner : ι) : Program ι Action (ItcMailbox ι) (Thread ι) := fun i a m th =>
  match a, th.stage with
  | .push adminMsg, .idle => some (m, th.at (.pushLoad adminMsg))
  | .pop mode, .idle => if i = owner then some (m, th.at (.popLoad mode)) else none
  | .setState newState, .idle =>
    if i = owner then some (m, th.at (.setStateCas newState)) else none
  | .access _, .pushLoad adminMsg =>
    if m.mIsActive then
      some (m, th.at (.inQueue .push (Call.start (.push (some ⟨i, th.pushed, m.life, adminMsg⟩)))))
    else some (m, th.at .idle)
  | .access _, .popLoad mode =>
    if m.mIsActive then some (m, th.at (.inQueue .pop (popCall mode).start))
    else some (m, th.at .idle)
  | .access _, .setStateCas newState =>
    if m.mIsActive = !newState then
      some (m.switch newState,
        th.at (if newState then .idle else .inQueue .empty (Call.start .size)))
    else some (m, th.at .idle)
  | .access _, .inQueue site (.returned ret) => some (m.resume site ret, th.at (site.next ret))
  | .access choice, .inQueue site pc =>
    (step (rxMsgQueueParams ι) choice m.mRxMsgQueue.queue pc).map fun r =>
      (m.record i th site r.1 r.2.2, (th.note m r.2.2).at (.inQueue site r.2.1))
  | _, _ => none

def idleMailbox (mailboxId : MailboxId) (flags : BitVec 32) :
    State ι (ItcMailbox ι) (Thread ι) := ⟨.new mailboxId flags, fun _ => .new⟩

inductive Move (owner i : ι) (a : Action) (m : ItcMailbox ι) (th : Thread ι) :
    ItcMailbox ι → Thread ι → Prop
  | called {stage : Stage ι} (h : th.stage = .idle) (hnew : (∃ msg, stage = .pushLoad msg) ∨
      i = owner ∧ ((∃ mode, stage = .popLoad mode) ∨ ∃ b, stage = .setStateCas b)) :
      Move owner i a m th m (th.at stage)
  | gaveUp (h : (∃ msg, th.stage = .pushLoad msg) ∨ (∃ mode, th.stage = .popLoad mode) ∨
      ∃ b, th.stage = .setStateCas b ∧ m.mIsActive = b) : Move owner i a m th m (th.at .idle)
  | admitted {msg : AdminMessage} (h : th.stage = .pushLoad msg) (hact : m.mIsActive = true) :
      Move owner i a m th m
        (th.at (.inQueue .push (Call.start (.push (some ⟨i, th.pushed, m.life, msg⟩)))))
  | receiving {mode : BitVec 32} (h : th.stage = .popLoad mode) (hact : m.mIsActive = true) :
      Move owner i a m th m (th.at (.inQueue .pop (popCall mode).start))
  | switchedOn (h : th.stage = .setStateCas true) (hact : m.mIsActive = false) :
      Move owner i a m th (m.switch true) (th.at .idle)
  | switchedOff (h : th.stage = .setStateCas false) (hact : m.mIsActive = true) :
      Move owner i a m th (m.switch false) (th.at (.inQueue .empty (Call.start .size)))
  | returned {site : Site} {ret : Ret (Message ι)} (h : th.stage = .inQueue site (.returned ret)) :
      Move owner i a m th (m.resume site ret) (th.at (site.next ret))
  | accessed {site : Site} {pc pc' : Pc (Message ι)} {choice : Bool}
      {q : Queue (rxMsgQueueParams ι)} {ev : Event (Message ι)} (h : th.stage = .inQueue site pc)
      (ha : a = .access choice)
      (hstep : step _ choice m.mRxMsgQueue.queue pc = some (q, pc', ev)) :
      Move owner i a m th (m.record i th site q ev) ((th.note m ev).at (.inQueue site pc'))

theorem mailbox_move {owner i : ι} {a : Action} {m m' : ItcMailbox ι} {th th' : Thread ι}
    (h : mailbox owner i a m th = some (m', th')) : Move owner i a m th m' th' := by
  unfold mailbox at h
  split at h
  · rename_i hstage
    obtain ⟨rfl, rfl⟩ := by simpa using h
    exact .called hstage (.inl ⟨_, rfl⟩)
  · rename_i hstage
    split_ifs at h with hi
    obtain ⟨rfl, rfl⟩ := by simpa using h
    exact .called hstage (.inr ⟨hi, .inl ⟨_, rfl⟩⟩)
  · rename_i hstage
    split_ifs at h with hi
    obtain ⟨rfl, rfl⟩ := by simpa using h
    exact .called hstage (.inr ⟨hi, .inr ⟨_, rfl⟩⟩)
  · rename_i hstage
    split_ifs at h with hact
    · obtain ⟨rfl, rfl⟩ := by simpa using h
      exact .admitted hstage hact
    · obtain ⟨rfl, rfl⟩ := by simpa using h
      exact .gaveUp (.inl ⟨_, hstage⟩)
  · rename_i hstage
    split_ifs at h with hact
    · obtain ⟨rfl, rfl⟩ := by simpa using h
      exact .receiving hstage hact
    · obtain ⟨rfl, rfl⟩ := by simpa using h
      exact .gaveUp (.inr (.inl ⟨_, hstage⟩))
  · rename_i newState hstage
    split_ifs at h with hact hnew
    · subst hnew
      obtain ⟨rfl, rfl⟩ := by simpa using h
      exact .switchedOn hstage hact
    · obtain rfl : newState = false := by simpa using hnew
      obtain ⟨rfl, rfl⟩ := by simpa using h
      exact .switchedOff hstage hact
    · obtain ⟨rfl, rfl⟩ := by simpa using h
      exact .gaveUp (.inr (.inr ⟨_, hstage, by cases newState <;> simpa using hact⟩))
  · rename_i hstage
    obtain ⟨rfl, rfl⟩ := by simpa using h
    exact .returned hstage
  · rename_i hstage
    obtain ⟨⟨q, pc', ev⟩, hstep, heq⟩ := Option.map_eq_some_iff.mp h
    obtain ⟨rfl, rfl⟩ := by simpa using heq
    exact .accessed hstage rfl hstep
  · cases h

def emptyMessage : AdminMessage :=
  ⟨List.replicate 12 0 ++ [4, 0, 0, 0] ++ List.replicate 4 0 ++ [0xAA], by decide⟩

def pushSteps (i : ι) (msg : AdminMessage) : List (ι × Action) :=
  [(i, .push msg), (i, .access false), (i, .access false), (i, .access false), (i, .access false)]

def popSteps (i : ι) : List (ι × Action) :=
  [(i, .pop 0), (i, .access false), (i, .access false), (i, .access false), (i, .access false)]

section Solo
variable {owner i : ι} {m : ItcMailbox ι} {th : Thread ι} {s : State ι (ItcMailbox ι) (Thread ι)}

omit [DecidableEq ι] in
@[simp] theorem record_silent (site : Site) :
    m.record i th site m.mRxMsgQueue.queue .silent = m := by
  simp [ItcMailbox.record, ItcMailbox.departed, ItcMailbox.awaited, ItcMailbox.overtakes]

theorem mailbox_inQueue {site : Site} {pc pc' : Pc (Message ι)} {choice : Bool}
    {q : Queue (rxMsgQueueParams ι)} {ev : Event (Message ι)} (h : th.stage = .inQueue site pc)
    (hstep : step _ choice m.mRxMsgQueue.queue pc = some (q, pc', ev)) :
    mailbox owner i (.access choice) m th =
      some (m.record i th site q ev, (th.note m ev).at (.inQueue site pc')) := by
  cases pc with
  | returned => cases hstep
  | _ => simp only [mailbox, h, hstep, Option.map_some]

theorem mailbox_returned {site : Site} {ret : Ret (Message ι)} {choice : Bool}
    (h : th.stage = .inQueue site (.returned ret)) :
    mailbox owner i (.access choice) m th = some (m.resume site ret, th.at (site.next ret)) := by
  simp only [mailbox, h]

theorem exec_pushSteps (hidle : (s.locals i).stage = .idle) (hact : s.shared.mIsActive = true)
    {msg : AdminMessage}
    (hempty : s.shared.mRxMsgQueue.queue.mQueue
      ((rxMsgQueueParams ι).slot s.shared.mRxMsgQueue.queue.mHead) = none) :
    let q := s.shared.mRxMsgQueue
    let y : Envelope ι := ⟨i, (s.locals i).pushed, s.shared.life, msg⟩
    ∃ unstored overtaking, exec (mailbox owner) anyStep (pushSteps i msg) s = some
      ⟨{ s.shared with
          mRxMsgQueue := ⟨⟨q.queue.mHead + 1, q.queue.mTail,
            Function.update q.queue.mQueue ((rxMsgQueueParams ι).slot q.queue.mHead) (some y)⟩,
            q.pushTickets + 1, q.popTickets, q.stored ++ [some y], q.taken⟩
          unstored := unstored
          overtaking := overtaking },
        Function.update s.locals i ⟨.idle, (s.locals i).pushed + 1, q.pushTickets⟩⟩ := by
  intro q y
  have hcalled : mailbox owner i (.push msg) s.shared (s.locals i) =
      some (s.shared, (s.locals i).at (.pushLoad msg)) := by simp only [mailbox, hidle]
  have hadmitted : mailbox owner i (.access false) s.shared ((s.locals i).at (.pushLoad msg)) =
      some (s.shared, (s.locals i).at (.inQueue .push (Call.start (.push (some y))))) := if_pos hact
  have hstored := @step_stores _ _ (rxMsgQueueParams ι)
    { q.queue with mHead := q.queue.mHead + 1 } _ (some y) hempty
  rw [pushSteps, exec_cons hcalled, exec_cons_update hadmitted,
    exec_cons_update (mailbox_inQueue rfl rfl), exec_cons_update (mailbox_inQueue rfl hstored),
    exec_cons_update (mailbox_returned rfl)]
  simp [exec, ItcMailbox.record, Traced.record, ItcMailbox.departed, ItcMailbox.resume,
    ItcMailbox.freed, Thread.at, Thread.note, Site.next, q]

theorem exec_popSteps (hidle : (s.locals i).stage = .idle) (hact : s.shared.mIsActive = true)
    {y : Envelope ι}
    (hfull : s.shared.mRxMsgQueue.queue.mQueue
      ((rxMsgQueueParams ι).slot s.shared.mRxMsgQueue.queue.mTail) = some y) :
    ∃ s', exec (mailbox i) anyStep (popSteps i) s = some s' ∧ (s'.locals i).stage = .idle ∧
      s'.shared.mIsActive = true ∧ s'.shared.life = s.shared.life ∧
      s'.shared.gone = s.shared.gone ++ [⟨.pop, s.shared.life, y⟩] ∧
      s'.shared.mRxMsgQueue.queue.mTail = s.shared.mRxMsgQueue.queue.mTail + 1 ∧
      s'.shared.mRxMsgQueue.queue.mQueue = Function.update s.shared.mRxMsgQueue.queue.mQueue
        ((rxMsgQueueParams ι).slot s.shared.mRxMsgQueue.queue.mTail) none := by
  let q := s.shared.mRxMsgQueue.queue
  have hcalled : mailbox i i (.pop 0) s.shared (s.locals i) =
      some (s.shared, (s.locals i).at (.popLoad 0)) := by simp only [mailbox, hidle, if_true]
  have hadmitted : mailbox i i (.access false) s.shared ((s.locals i).at (.popLoad 0)) =
      some (s.shared, (s.locals i).at (.inQueue .pop .popFetchAdd)) := if_pos hact
  have htaken := @step_takes _ _ (rxMsgQueueParams ι) false { q with mTail := q.mTail + 1 } _ _
    hfull (Option.some_ne_none y)
  rw [popSteps, exec_cons hcalled, exec_cons_update hadmitted,
    exec_cons_update (mailbox_inQueue rfl rfl), exec_cons_update (mailbox_inQueue rfl htaken),
    exec_cons_update (mailbox_returned rfl)]
  have hnil : (rxMsgQueueParams ι).nil = none := rfl
  refine ⟨_, rfl, ?_⟩
  simp [ItcMailbox.record, Traced.record, ItcMailbox.departed, ItcMailbox.resume, Thread.at,
    Site.next, hact, hnil, q]

end Solo

end ItcPlatform.Mailbox
