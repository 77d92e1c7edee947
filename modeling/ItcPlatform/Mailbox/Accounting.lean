import ItcPlatform.Lib.SwitchedFifo
import ItcPlatform.Mailbox.Sequential

/-! The mailbox in the hands of one thread as a FIFO list that is switched on and off, down to
the messages its deactivations deallocate. -/

namespace ItcPlatform.Mailbox
open History LockFreeQueue AdminMessageHelper SwitchedFifo
variable {ι : Type*} [DecidableEq ι]

def drainDeallocating : ℕ → Traced (rxMsgQueueParams ι) →
    Traced (rxMsgQueueParams ι) × List (Envelope ι)
  | 0, q => (q, [])
  | n + 1, q =>
    if sizeOf q.queue.mHead q.queue.mTail = 0 then (q, [])
    else
      match q.alone 4 (Call.start .tryPop) with
      | (q, .returned (.popped (some msg))) =>
        let r := drainDeallocating n q
        (r.1, if deallocate (some msg.adminMsg) then msg :: r.2 else r.2)
      | (q, _) => drainDeallocating n q

/-- The calls of one thread; the destructor is a `setState` to false. -/
inductive OwnerCall (ι : Type*)
  | push (msg : Envelope ι)
  | pop (mode : BitVec 32)
  | setState (newState : Bool)

def OwnerCall.asked : OwnerCall ι → SwitchedFifo.Call (Envelope ι)
  | .push msg => .push msg
  | .pop _ => .pop
  | .setState newState => .switch newState

namespace ItcMailbox

def setStateDeallocating (m : ItcMailbox ι) (newState : Bool) : ItcMailbox ι × List (Envelope ι) :=
  let m' := m.setState newState
  if m.mIsActive ∧ newState = false then
    let r := drainDeallocating (rxMsgQueueParams ι).mSize m'.mRxMsgQueue
    ({ m' with
      mRxMsgQueue := r.1
      deallocated := m'.deallocated ++ r.2 }, r.2)
  else (m', [])

/-- `none` where the call never returns. -/
def serve (m : ItcMailbox ι) :
    OwnerCall ι → Option (ItcMailbox ι × SwitchedFifo.Reply (Envelope ι))
  | .push msg => (m.push msg).map fun r => (r.1, .pushed r.2)
  | .pop mode => (m.pop mode).map fun r => (r.1, .popped r.2)
  | .setState newState =>
    let r := m.setStateDeallocating newState
    some (r.1, .switched r.2)

end ItcMailbox

section Drain
variable {n : ℕ} {q : Traced (rxMsgQueueParams ι)} {l : List (Envelope ι)}

theorem drainDeallocating_fst : (drainDeallocating n q).1 = q.drain n := by
  induction n generalizing q with
  | zero => rfl
  | succ n ih =>
    rw [drainDeallocating, Traced.drain]
    split_ifs
    · rfl
    · split <;> rename_i hpop <;> rw [hpop] <;> exact ih

theorem drainDeallocating_snd (h : q.queue.Holds (l.map some)) (hn : l.length ≤ n) :
    (drainDeallocating n q).2 = l.filter fun msg => deallocate (some msg.adminMsg) := by
  induction l generalizing q n with
  | nil =>
    cases n with
    | zero => rfl
    | succ n =>
      rw [drainDeallocating, if_pos (show _ = (0 : BitVec 32) from h.sizeOf)]
      rfl
  | cons msg l ih =>
    cases n with
    | zero => exact absurd hn (Nat.not_succ_le_zero _)
    | succ n =>
      have hpop := alone_tryPop h
      rw [drainDeallocating, if_neg h.sizeOf_ne_zero, List.filter_cons]
      simp only [hpop]
      rw [ih h.pop (Nat.le_of_succ_le_succ hn)]

end Drain

namespace OwnerCall

def Allowed (s : Fifo (Envelope ι)) : OwnerCall ι → Prop
  | push msg =>
    (msg.adminMsg.flags &&& itcFlagMessageInRxQueue = 0 ∧
      msg.adminMsg.endpoint? = some itcAdminMessageEndpoint) ∧
    (s.isOn = true → s.pending.length < itcMailboxRxMessageQueueSize)
  | pop mode => mode &&& itcModeReceiveNonBlocking ≠ 0
  | setState _ => True

end OwnerCall

structure Reflects (m : ItcMailbox ι) (s : Fifo (Envelope ι)) : Prop where
  isOn : m.mIsActive = s.isOn
  holds : m.mRxMsgQueue.queue.Holds (s.pending.map some)
  intact : ∀ msg ∈ s.pending, deallocate (some msg.adminMsg) = true

section Serve
variable {m : ItcMailbox ι} {s : Fifo (Envelope ι)} {c : OwnerCall ι}

theorem setStateDeallocating_of_eq {newState : Bool} (h : m.mIsActive = newState) :
    m.setStateDeallocating newState = (m, []) := by
  have hsame : m.setState newState = m := if_neg (by simp [h])
  rw [ItcMailbox.setStateDeallocating, hsame]
  exact if_neg fun hoff => by simp [h, hoff.2] at hoff

omit [DecidableEq ι] in
theorem reflects_new (mailboxId : MailboxId) (flags : BitVec 32) :
    Reflects (.new mailboxId flags : ItcMailbox ι) .new :=
  ⟨rfl, .of_free (Nat.le_of_ble_eq_true rfl) rfl fun _ => rfl, nofun⟩

theorem Reflects.push {msg : Envelope ι} (h : Reflects m s)
    (hallowed : (OwnerCall.push msg).Allowed s) :
    ∃ m', m.serve (.push msg) = some (m', (s.next (.push msg)).2) ∧
      Reflects m' (s.next (.push msg)).1 := by
  obtain ⟨hintact, hroom⟩ := hallowed
  obtain ⟨isOn, pending⟩ := s
  cases isOn with
  | false =>
    rw [ItcMailbox.serve, ItcMailbox.push_of_inactive h.isOn]
    exact ⟨m, rfl, h⟩
  | true =>
    have hlt : (pending.map some).length < (rxMsgQueueParams ι).mSize := by
      rw [List.length_map, mSize_rxMsgQueueParams]
      exact hroom rfl
    rw [ItcMailbox.serve,
      ItcMailbox.push_of_accepts (ItcMailbox.accepts_of_holds h.isOn h.holds hlt)]
    refine ⟨_, rfl, h.isOn, ?_, ?_⟩
    · rw [Fifo.next]
      simp only [if_true, List.map_append]
      exact h.holds.push rfl hlt (Option.some_ne_none _)
    · intro other hother
      rcases List.mem_append.mp hother with hother | hother
      · exact h.intact other hother
      · obtain rfl := List.mem_singleton.mp hother
        exact (deallocate_eq_true_iff _).mpr hintact

theorem Reflects.pop {mode : BitVec 32} (h : Reflects m s)
    (hallowed : (OwnerCall.pop mode : OwnerCall ι).Allowed s) :
    ∃ m', m.serve (.pop mode) = some (m', (s.next .pop).2) ∧ Reflects m' (s.next .pop).1 := by
  obtain ⟨isOn, pending⟩ := s
  have hcall : (popCall mode : LockFreeQueue.Call (Message ι)) = .tryPop := if_pos hallowed
  rw [ItcMailbox.serve, ItcMailbox.pop]
  cases isOn with
  | false =>
    rw [if_pos h.isOn]
    exact ⟨m, rfl, h⟩
  | true =>
    have hact : ¬ m.mIsActive = false := by simp [h.isOn]
    rw [if_neg hact, hcall]
    cases pending with
    | nil =>
      rw [alone_tryPop_empty h.holds]
      exact ⟨m, rfl, h⟩
    | cons msg pending =>
      rw [alone_tryPop h.holds]
      exact ⟨_, rfl, h.isOn, h.holds.pop, fun other hother =>
        h.intact other (List.mem_cons_of_mem _ hother)⟩

theorem Reflects.setState (h : Reflects m s) (newState : Bool) :
    ∃ m', m.serve (.setState newState) = some (m', (s.next (.switch newState)).2) ∧
      Reflects m' (s.next (.switch newState)).1 := by
  obtain ⟨isOn, pending⟩ := s
  have hact : m.mIsActive = isOn := h.isOn
  rw [ItcMailbox.serve]
  by_cases hsame : isOn = newState
  · subst hsame
    rw [setStateDeallocating_of_eq hact]
    cases isOn <;> exact ⟨m, rfl, h⟩
  have hswitch : m.setState newState = m.switch newState :=
    if_pos (by cases newState <;> cases isOn <;> simp_all)
  rw [ItcMailbox.setStateDeallocating, hswitch]
  cases newState with
  | true =>
    obtain rfl : isOn = false := by simpa using hsame
    rw [if_neg (by simp)]
    exact ⟨_, rfl, rfl, h.holds, h.intact⟩
  | false =>
    obtain rfl : isOn = true := by simpa using hsame
    have hlen : pending.length ≤ (rxMsgQueueParams ι).mSize := by
      simpa using h.holds.length_le
    have hdrained : (drainDeallocating (rxMsgQueueParams ι).mSize m.mRxMsgQueue).2 = pending :=
      (drainDeallocating_snd h.holds hlen).trans (List.filter_eq_self.mpr h.intact)
    rw [if_pos ⟨hact, rfl⟩]
    simp only [ItcMailbox.switch, drainDeallocating_fst, hdrained]
    exact ⟨_, rfl, rfl, Traced.drain_holds h.holds h.holds.length_le, fun _ hmsg =>
      absurd hmsg List.not_mem_nil⟩

theorem Reflects.serve (h : Reflects m s) (hallowed : c.Allowed s) :
    ∃ m', m.serve c = some (m', (s.next c.asked).2) ∧ Reflects m' (s.next c.asked).1 := by
  cases c with
  | push msg => exact h.push hallowed
  | pop mode => exact h.pop hallowed
  | setState newState => exact h.setState newState

/-- In the hands of one thread a mailbox replies like a FIFO list that is switched on and off,
and accounts for every message once it is destroyed. -/
theorem accounts_for_messages (mailboxId : MailboxId) (flags : BitVec 32)
    {calls : List (OwnerCall ι)} (hnodup : (pushes (calls.map OwnerCall.asked)).Nodup)
    (hallowed : Each (fun s c => some (Fifo.next s (OwnerCall.asked c)).1)
      (fun s c => OwnerCall.Allowed s c) calls .new) :
    results ItcMailbox.serve (calls ++ [.setState false]) (.new mailboxId flags) =
        some (expected Fifo.next (calls.map OwnerCall.asked ++ [.switch false]) .new) ∧
      Accounted (log (calls.map OwnerCall.asked ++ [.switch false]) .new) ∧
      ∀ m : ItcMailbox ι,
        (∀ msg, m.mIsActive = false → m.serve (.push msg) = some (m, .pushed false)) ∧
        ∀ newState, m.mIsActive = newState →
          m.serve (.setState newState) = some (m, .switched []) := by
  refine ⟨?_, accounted hnodup, fun m => ⟨fun msg hoff => ?_, fun newState hsame => ?_⟩⟩
  · have hlast (s : Fifo (Envelope ι)) : (OwnerCall.setState false : OwnerCall ι).Allowed s :=
      trivial
    have hserved : results ItcMailbox.serve (calls ++ [.setState false]) (.new mailboxId flags) =
        some (expected (fun s c => Fifo.next s (OwnerCall.asked c)) (calls ++ [.setState false])
          .new) := by
      refine results_of_each (R := Reflects) ?_ (reflects_new mailboxId flags)
        (hallowed.concat hlast)
      intro m s c h hok
      exact h.serve hok
    rw [hserved, expected_map, List.map_append]
    rfl
  · rw [ItcMailbox.serve, ItcMailbox.push_of_inactive hoff]
    rfl
  · rw [ItcMailbox.serve, setStateDeallocating_of_eq hsame]

end Serve

def numbered (n : ℕ) : Envelope Unit := ⟨(), n, 0, emptyMessage⟩

def toggling : List (OwnerCall Unit) :=
  [.push (numbered 0), .setState true, .push (numbered 1), .push (numbered 2),
    .pop itcModeReceiveNonBlocking, .setState true]

theorem accounts_for_messages_toggling :
    results ItcMailbox.serve (toggling ++ [.setState false]) (.new 0 0) = some
        [.pushed false, .switched [], .pushed true, .pushed true, .popped (some (numbered 1)),
          .switched [], .switched [numbered 2]] ∧
      Accounted (log (toggling.map OwnerCall.asked ++ [.switch false]) .new) := by
  have hendpoint : emptyMessage.endpoint? = some itcAdminMessageEndpoint := by decide
  have hnodup : (pushes (toggling.map OwnerCall.asked)).Nodup := by decide
  obtain ⟨hreplies, haccounted, -⟩ := accounts_for_messages 0 0 hnodup (by
    simp [toggling, Each, OwnerCall.Allowed, OwnerCall.asked, Fifo.next, Fifo.new, numbered,
      hendpoint]
    decide)
  exact ⟨hreplies, haccounted⟩

end ItcPlatform.Mailbox
