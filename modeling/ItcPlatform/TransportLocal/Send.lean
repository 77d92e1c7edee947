import ItcPlatform.Mailbox.Sequential

/-! Sending inside a region: the mailbox behind the unit part of the receiver's id is pushed to. -/

namespace ItcPlatform.TransportLocal
open ConcurrentContainer History LockFreeQueue Mailbox
variable {ι : Type*}

def unitOf (mboxId : MailboxId) : BitVec 32 := mboxId &&& itcMaskUnitId

theorem unitOf_lt (mboxId : MailboxId) : (unitOf mboxId).toNat < 2 ^ 16 := by
  rw [unitOf, BitVec.toNat_and]
  exact Nat.lt_of_le_of_lt Nat.and_le_right (by decide)

/-- `ConcurrentContainer::at`: whatever the index, a pointer that is not null. -/
def entryAt (index : BitVec 32) : RawPtr := some (getAlignedEntry index)

def mailboxAt (receiver : Entry) : Option (Fin itcMaxSupportedMailboxes) :=
  if h : receiver.toNat / 64 < itcMaxSupportedMailboxes then some ⟨receiver.toNat / 64, h⟩
  else none

/-- The entries a send accesses, and what comes of it: `none` where it accesses memory that is
not a mailbox, or waits in the rx queue. -/
structure Sent (ι : Type*) where
  accessed : List Entry
  result : Option (MboxList ι × ReturnCode)

theorem mailboxAt_getAlignedEntry {index : BitVec 32} (h : index.toNat < 2 ^ 16) :
    mailboxAt (getAlignedEntry index) =
      if h : index.toNat < itcMaxSupportedMailboxes then some ⟨index.toNat, h⟩ else none := by
  have hdiv : (getAlignedEntry index).toNat / 64 = index.toNat := by
    have hbytes : cacheLineBytes.toNat = 64 := rfl
    rw [getAlignedEntry, BitVec.toNat_mul, hbytes, Nat.mod_eq_of_lt (by omega)]
    exact Nat.mul_div_cancel _ (by decide)
  simp only [mailboxAt, hdiv]

variable [DecidableEq ι] {c c' : MboxList ι} {y : Envelope ι}

/-- The result of the push is not looked at. -/
def send (c : MboxList ι) (y : Envelope ι) : Sent ι :=
  let receiverIndex := unitOf y.adminMsg.receiver
  match entryAt receiverIndex with
  | some receiver =>
    { accessed := [receiver]
      result := (mailboxAt receiver).bind fun i => ((c.mRawEntries i).push y).map fun pushed =>
        ({ c with mRawEntries := Function.update c.mRawEntries i pushed.1 }, .itcOk) }
  | none => { accessed := [], result := some (c, .itcFailed) }

theorem accessed_send : (send c y).accessed =
    [getAlignedEntry (unitOf y.adminMsg.receiver)] := rfl

theorem send_result {i : Fin itcMaxSupportedMailboxes}
    (hi : (unitOf y.adminMsg.receiver).toNat = i) : (send c y).result =
      ((c.mRawEntries i).push y).map fun pushed =>
        ({ c with mRawEntries := Function.update c.mRawEntries i pushed.1 }, .itcOk) := by
  show (mailboxAt (getAlignedEntry (unitOf y.adminMsg.receiver))).bind _ = _
  rw [mailboxAt_getAlignedEntry (unitOf_lt _), dif_pos (hi ▸ i.isLt), Option.bind_some]
  simp only [hi, Fin.eta]

theorem send_result_none (h : ¬ (unitOf y.adminMsg.receiver).toNat < itcMaxSupportedMailboxes) :
    (send c y).result = none := by
  show (mailboxAt (getAlignedEntry (unitOf y.adminMsg.receiver))).bind _ = _
  rw [mailboxAt_getAlignedEntry (unitOf_lt _), dif_neg h, Option.bind_none]

theorem send_cases {rc : ReturnCode} (h : (send c y).result = some (c', rc)) :
    ∃ (i : Fin itcMaxSupportedMailboxes) (m : ItcMailbox ι) (pushed : Bool),
      (unitOf y.adminMsg.receiver).toNat = i ∧ (c.mRawEntries i).push y = some (m, pushed) ∧
      c' = { c with mRawEntries := Function.update c.mRawEntries i m } ∧ rc = .itcOk := by
  by_cases hunit : (unitOf y.adminMsg.receiver).toNat < itcMaxSupportedMailboxes
  · rw [send_result (i := ⟨_, hunit⟩) rfl] at h
    obtain ⟨⟨m, pushed⟩, hpush, heq⟩ := Option.map_eq_some_iff.mp h
    obtain ⟨rfl, rfl⟩ := Prod.mk.inj heq
    exact ⟨_, m, pushed, rfl, hpush, rfl, rfl⟩
  · rw [send_result_none hunit] at h
    cases h

section Memory

structure Confined (c : MboxList ι) (y : Envelope ι) : Prop where
  inside : ∀ e ∈ (send c y).accessed, ∃ i < itcMaxSupportedMailboxes, e = entry i
  refused : ¬ (unitOf y.adminMsg.receiver).toNat < itcMaxSupportedMailboxes →
    (send c y).accessed = [] ∧ (send c y).result = some (c, .itcFailed)

/-- `at` checks no bound and returns no null pointer, so a send stays inside the array exactly
when the unit part of the receiver's id does. -/
theorem confined_iff (c : MboxList ι) (y : Envelope ι) :
    Confined c y ↔ (unitOf y.adminMsg.receiver).toNat < itcMaxSupportedMailboxes := by
  refine ⟨fun h => ?_, fun hlt => ⟨?_, fun hnot => absurd hlt hnot⟩⟩
  · by_contra hnot
    exact List.cons_ne_nil _ _ (h.refused hnot).1
  · rintro e he
    rw [accessed_send, List.mem_singleton] at he
    refine ⟨_, hlt, he.trans ?_⟩
    rw [entry, BitVec.ofNat_toNat, BitVec.setWidth_eq]

def unaddressed : Envelope Unit := ⟨(), 0, 0, emptyMessage.setReceiver itcMailboxIdDefault⟩

theorem not_confined_unaddressed : ¬ Confined (newMboxList 0) unaddressed := fun h => by
  have hunit : ¬ (unitOf unaddressed.adminMsg.receiver).toNat < itcMaxSupportedMailboxes := by
    decide
  exact List.cons_ne_nil _ _ (h.refused hunit).1

end Memory

section Delivery

def Delivered (c : MboxList ι) (i : Fin itcMaxSupportedMailboxes) (l : List (Message ι))
    (y : Envelope ι) : Prop :=
  (c.mRawEntries i).mIsActive = true ∧
    (c.mRawEntries i).mRxMsgQueue.queue.Holds (l ++ [some y])

/-- The return code of a send to the mailbox `i`, whose rx queue held `l`, says whether the
message was delivered, and where it was not every mailbox is as before. -/
def Truthful (c : MboxList ι) (i : Fin itcMaxSupportedMailboxes) (l : List (Message ι))
    (y : Envelope ι) : Prop :=
  ∃ c' rc, (send c y).result = some (c', rc) ∧ (rc = .itcOk ↔ Delivered c' i l y) ∧
    (¬ Delivered c' i l y → rc = .itcFailed ∧ c' = c)

variable {i : Fin itcMaxSupportedMailboxes} {l : List (Message ι)}

theorem send_of_inactive (hunit : (unitOf y.adminMsg.receiver).toNat = i)
    (hoff : (c.mRawEntries i).mIsActive = false) : (send c y).result = some (c, .itcOk) := by
  rw [send_result hunit, ItcMailbox.push_of_inactive hoff]
  simp

theorem not_truthful_of_inactive (hunit : (unitOf y.adminMsg.receiver).toNat = i)
    (hoff : (c.mRawEntries i).mIsActive = false) : ¬ Truthful c i l y := by
  rintro ⟨c', rc, hsent, hok, -⟩
  rw [send_of_inactive hunit hoff] at hsent
  obtain ⟨rfl, rfl⟩ := by simpa using hsent
  exact Bool.false_ne_true (hoff.symm.trans (hok.mp rfl).1)

/-- The code returned is `ITC_OK` in any case, so it is true exactly of an active mailbox. -/
theorem truthful_iff (hunit : (unitOf y.adminMsg.receiver).toNat = i)
    (hl : (c.mRawEntries i).mRxMsgQueue.queue.Holds l)
    (hroom : l.length < itcMailboxRxMessageQueueSize) :
    Truthful c i l y ↔ (c.mRawEntries i).mIsActive = true := by
  constructor
  · intro h
    by_contra hoff
    exact not_truthful_of_inactive hunit (by simpa using hoff) h
  · intro hact
    have hroom' : l.length < (rxMsgQueueParams ι).mSize := by rwa [mSize_rxMsgQueueParams]
    have haccepts := ItcMailbox.accepts_of_holds hact hl hroom'
    rw [Truthful, send_result hunit, ItcMailbox.push_of_accepts haccepts]
    refine ⟨_, _, rfl, ?_⟩
    rw [iff_true_left rfl, and_iff_left_of_imp fun h hnot => absurd h hnot]
    exact ⟨by simpa using hact, by simpa using hl.push rfl hroom' (Option.some_ne_none y)⟩

theorem truthful_iff_activated : ∃ c : MboxList Unit,
    MboxList.next (newMboxList 0) (.setState 0 true) = some c ∧
      Truthful c 0 [] ⟨(), 0, 1, emptyMessage⟩ := by
  have hunit : (unitOf emptyMessage.receiver).toNat =
      ((0 : Fin itcMaxSupportedMailboxes) : ℕ) := by decide
  refine ⟨_, rfl, (truthful_iff (y := ⟨(), 0, 1, emptyMessage⟩) (l := []) hunit ?_
    (Nat.zero_lt_succ _)).mpr ?_⟩
  · simp only [Function.update_self]
    exact .of_free (Nat.le_of_ble_eq_true rfl) rfl fun _ => rfl
  · simp only [Function.update_self]
    rfl

/-- A send to a mailbox that was never activated returns `ITC_OK` and delivers nothing. -/
theorem not_truthful_inactive :
    (send (newMboxList 0) (⟨(), 0, 0, emptyMessage⟩ : Envelope Unit)).result =
        some (newMboxList 0, .itcOk) ∧
      ¬ Truthful (newMboxList 0) 0 [] (⟨(), 0, 0, emptyMessage⟩ : Envelope Unit) := by
  have hunit : (unitOf emptyMessage.receiver).toNat =
      ((0 : Fin itcMaxSupportedMailboxes) : ℕ) := by decide
  have hoff : ((newMboxList 0 : MboxList Unit).mRawEntries 0).mIsActive = false := rfl
  exact ⟨send_of_inactive hunit hoff, not_truthful_of_inactive hunit hoff⟩

end Delivery

end ItcPlatform.TransportLocal
