import ItcPlatform.SysvTransport.Frame

/-! Sending over the SysV queue of a region: the contact list, the retry loop around `msgsnd`
and the tail that gives the message up. -/

namespace ItcPlatform.SysvTransport
open LittleEndian AdminMessage AdminMessageHelper

inductive Errno
  | eintr
  | einval
  | eidrm
  | enoent
  | other
  deriving DecidableEq

structure SysvMsgQueueContactInfo where
  regionId : MailboxId := itcMailboxIdDefault
  msgQueueId : BitVec 32 := -1

abbrev ProjectId := Fin itcMaxSupportedRegions.toNat

abbrev ContactList := ProjectId → SysvMsgQueueContactInfo

abbrev MsgsndAnswer := BitVec 32 → List Byte → Option Errno

/-- The answers of `ftok` and `msgget`, call by call. -/
structure KeyAnswers where
  ftok : List (BitVec 32 → BitVec 32)
  msgGet : List (BitVec 32 → BitVec 32 × Errno)

def removeContactInfoAtIndex (mContactList : ContactList) (atIndex : ProjectId) : ContactList :=
  Function.update mContactList atIndex ⟨itcMailboxIdDefault, -1⟩

/-- `none` where an answer is still outstanding. -/
def getMsgQueueId (os : KeyAnswers) (mboxId : MailboxId) : Option (BitVec 32 × KeyAnswers) :=
  let newMboxId := mboxId &&& itcMaskRegionId
  let projectId := newMboxId >>> itcRegionIdShift
  match os.ftok with
  | [] => none
  | answer :: ftok =>
    let key := answer projectId
    if key = -1 then some (-1, { os with ftok })
    else
      match os.msgGet with
      | [] => none
      | answer :: msgGet =>
        let (msgQueueId, errno) := answer key
        if msgQueueId = -1 ∧ errno = .enoent then some (-1, { ftok, msgGet })
        else some (msgQueueId, { ftok, msgGet })

def addContactInfoAtIndex (mContactList : ContactList) (atIndex : ProjectId) (mboxId : MailboxId)
    (os : KeyAnswers) : Option (ContactList × KeyAnswers) :=
  match getMsgQueueId os mboxId with
  | none => none
  | some (msgQueueId, os) =>
    if msgQueueId ≠ -1 then
      some (Function.update mContactList atIndex ⟨mboxId &&& itcMaskRegionId, msgQueueId⟩, os)
    else some (mContactList, os)

/-- The loop of `send`, with the frames that `msgsnd` took; `none` where it is still waiting
for an answer. -/
def sendLoop (projectId : ProjectId) (receiver : MailboxId) (txMsg : List Byte) :
    List MsgsndAnswer → KeyAnswers → ContactList → Option (List (List Byte) × ContactList)
  | [], _, _ => none
  | msgsnd :: rest, os, mContactList =>
    match msgsnd (mContactList projectId).msgQueueId txMsg with
    | none => some ([txMsg], mContactList)
    | some .eintr => sendLoop projectId receiver txMsg rest os mContactList
    | some .einval | some .eidrm =>
      match addContactInfoAtIndex (removeContactInfoAtIndex mContactList projectId) projectId
          receiver os with
      | none => none
      | some (mContactList, os) =>
        if (mContactList projectId).regionId = 0 then some ([], mContactList)
        else sendLoop projectId receiver txMsg rest os mContactList
    | some _ => sendLoop projectId receiver txMsg rest os mContactList

structure Transport where
  mIsInitialised : Bool
  mContactList : ContactList

/-- What a finished `send` leaves: its result, the frames taken by `msgsnd`, the contact list,
and the caller's message unless it was deallocated. -/
structure SendResult where
  rc : ReturnCode
  sent : List (List Byte)
  mContactList : ContactList
  adminMsg : Option AdminMessage

def send (t : Transport) (msgsnd : List MsgsndAnswer) (os : KeyAnswers) (adminMsg : AdminMessage) :
    Option SendResult :=
  if t.mIsInitialised = false then some ⟨.itcFailed, [], t.mContactList, some adminMsg⟩
  else
    let projectId := (adminMsg.receiver &&& itcMaskRegionId) >>> itcRegionIdShift
    if h : projectId = 0 ∨ itcMaxSupportedRegions ≤ projectId then
      some ⟨.itcFailed, [], t.mContactList, some adminMsg⟩
    else
      match txFrame adminMsg with
      | none => none
      | some txMsg =>
        match sendLoop ⟨projectId.toNat, BitVec.lt_def.mp (BitVec.not_le.mp (not_or.mp h).2)⟩
            adminMsg.receiver txMsg msgsnd os t.mContactList with
        | none => none
        | some (sent, mContactList) =>
          if deallocate (some adminMsg) = false then
            some ⟨.itcFailed, sent, mContactList, some adminMsg⟩
          else some ⟨.itcOk, sent, mContactList, none⟩

theorem regionId_addContactInfoAtIndex {mContactList mContactList' : ContactList}
    {projectId : ProjectId} {receiver : MailboxId} {os os' : KeyAnswers}
    (hregion : (receiver &&& itcMaskRegionId) ≠ 0)
    (h : addContactInfoAtIndex (removeContactInfoAtIndex mContactList projectId) projectId receiver
      os = some (mContactList', os')) : (mContactList' projectId).regionId ≠ 0 := by
  -- A contact just re-made never looks failed to the loop: an absent queue leaves
  -- `ITC_MAILBOX_ID_DEFAULT`, a present one the region of a receiver that has one
  unfold addContactInfoAtIndex at h
  split at h
  · cases h
  · split_ifs at h
    · obtain ⟨rfl, -⟩ := by simpa using h
      simpa using hregion
    · obtain ⟨rfl, -⟩ := by simpa using h
      simp [removeContactInfoAtIndex]

theorem sendLoop_sent {projectId : ProjectId} {receiver : MailboxId} {txMsg : List Byte}
    {msgsnd : List MsgsndAnswer} {os : KeyAnswers} {mContactList mContactList' : ContactList}
    {sent : List (List Byte)} (hregion : (receiver &&& itcMaskRegionId) ≠ 0)
    (h : sendLoop projectId receiver txMsg msgsnd os mContactList = some (sent, mContactList')) :
    sent = [txMsg] ∧ ∃ answer ∈ msgsnd, ∃ msgQueueId, answer msgQueueId txMsg = none := by
  induction msgsnd generalizing os mContactList with
  | nil => cases h
  | cons answer rest ih =>
    have hlater {os' : KeyAnswers} {c : ContactList}
        (h : sendLoop projectId receiver txMsg rest os' c = some (sent, mContactList')) :
        sent = [txMsg] ∧ ∃ a ∈ answer :: rest, ∃ msgQueueId, a msgQueueId txMsg = none := by
      obtain ⟨hsent, a, hmem, htook⟩ := ih h
      exact ⟨hsent, a, List.mem_cons_of_mem _ hmem, htook⟩
    have hretry {c : ContactList} {os' : KeyAnswers}
        (hadd : addContactInfoAtIndex (removeContactInfoAtIndex mContactList projectId) projectId
          receiver os = some (c, os'))
        (h : (if (c projectId).regionId = 0 then some ([], c)
          else sendLoop projectId receiver txMsg rest os' c) = some (sent, mContactList')) :
        sent = [txMsg] ∧ ∃ a ∈ answer :: rest, ∃ msgQueueId, a msgQueueId txMsg = none := by
      rw [if_neg (regionId_addContactInfoAtIndex hregion hadd)] at h
      exact hlater h
    unfold sendLoop at h
    split at h
    · rename_i htook
      obtain ⟨rfl, -⟩ := by simpa using h
      exact ⟨rfl, answer, List.mem_cons_self, _, htook⟩
    · exact hlater h
    · split at h
      · cases h
      · rename_i hadd
        exact hretry hadd h
    · split at h
      · cases h
      · rename_i hadd
        exact hretry hadd h
    · exact hlater h

/-- `ITC_OK` exactly when `msgsnd` took the message, once; the caller's message is gone
exactly then, and otherwise untouched. -/
structure AllOrNothing (adminMsg : AdminMessage) (r : SendResult) : Prop where
  sent : r.rc = .itcOk ↔ ∃ txMsg, txFrame adminMsg = some txMsg ∧ r.sent = [txMsg]
  gone : r.rc = .itcOk → r.adminMsg = none
  kept : r.rc ≠ .itcOk → r.adminMsg = some adminMsg

def regionOf (receiver : MailboxId) : BitVec 32 :=
  (receiver &&& itcMaskRegionId) >>> itcRegionIdShift

section Send
variable {t : Transport} {msgsnd : List MsgsndAnswer} {os : KeyAnswers} {adminMsg : AdminMessage}
  {r : SendResult}

theorem send_spec (hinit : t.mIsInitialised = true)
    (hlow : 1 ≤ (regionOf adminMsg.receiver).toNat)
    (hhigh : (regionOf adminMsg.receiver).toNat ≤ 254)
    (hsend : send t msgsnd os adminMsg = some r) :
    ∃ txMsg, txFrame adminMsg = some txMsg ∧ r.sent = [txMsg] ∧
      if deallocate (some adminMsg) then r.rc = .itcOk ∧ r.adminMsg = none
      else r.rc = .itcFailed ∧ r.adminMsg = some adminMsg := by
  have hzero : regionOf adminMsg.receiver ≠ 0 := fun h => by simp [h] at hlow
  have hlt : ¬ itcMaxSupportedRegions ≤ regionOf adminMsg.receiver := by
    rw [BitVec.le_def]
    change ¬ 255 ≤ _
    omega
  have hregion : (adminMsg.receiver &&& itcMaskRegionId) ≠ 0 := fun h =>
    hzero (by rw [regionOf, h]; rfl)
  simp only [regionOf] at hzero hlt
  simp only [send, hinit, Bool.true_eq_false, if_false, dif_neg (not_or.mpr ⟨hzero, hlt⟩)] at hsend
  split at hsend
  · cases hsend
  rename_i txMsg hframe
  refine ⟨txMsg, hframe, ?_⟩
  split at hsend
  · cases hsend
  rename_i sent _ hloop
  obtain rfl := (sendLoop_sent hregion hloop).1
  split_ifs at hsend with hd
  · obtain rfl := Option.some.inj hsend
    simp [hd]
  · obtain rfl := Option.some.inj hsend
    simp [hd]

/-- Send is all-or-nothing exactly for the messages that can be deallocated: those outside
any receive queue whose endpoint stands where the size field says. -/
theorem allOrNothing_iff (hinit : t.mIsInitialised = true)
    (hlow : 1 ≤ (regionOf adminMsg.receiver).toNat)
    (hhigh : (regionOf adminMsg.receiver).toNat ≤ 254)
    (hsend : send t msgsnd os adminMsg = some r) :
    AllOrNothing adminMsg r ↔
      adminMsg.flags &&& itcFlagMessageInRxQueue = 0 ∧
        adminMsg.endpoint? = some itcAdminMessageEndpoint := by
  obtain ⟨txMsg, hframe, hsent, hres⟩ := send_spec hinit hlow hhigh hsend
  rw [← deallocate_eq_true_iff]
  split_ifs at hres with hd
  · obtain ⟨hrc, hmsg⟩ := hres
    exact iff_of_true
      ⟨iff_of_true hrc ⟨txMsg, hframe, hsent⟩, fun _ => hmsg, fun h => absurd hrc h⟩ hd
  · obtain ⟨hrc, hmsg⟩ := hres
    refine iff_of_false (fun h => ?_) hd
    have := h.sent.mpr ⟨txMsg, hframe, hsent⟩
    rw [hrc] at this
    cases this

end Send

def overrunMessage : AdminMessage :=
  ⟨encode 4 0x00100001 ++ encode 4 0x00200001 ++ encode 4 0 ++ encode 4 4 ++ encode 4 7 ++ [0],
    by decide⟩

def freshTransport : Transport := ⟨true, fun _ => {}⟩

/-- The overrun message leaves over the queue and is still reported as not sent. -/
theorem not_allOrNothing_overrunMessage :
    (1 ≤ (regionOf overrunMessage.receiver).toNat ∧ (regionOf overrunMessage.receiver).toNat ≤ 254 ∧
      overrunMessage.size.toNat < 2 ^ 31 - 17) ∧
    ∃ r, send freshTransport [fun _ _ => none] ⟨[], []⟩ overrunMessage = some r ∧
      ¬ AllOrNothing overrunMessage r := by
  refine ⟨by decide, _, rfl, fun h => ?_⟩
  have := h.sent.mpr ⟨_, rfl, rfl⟩
  cases this

def intactMessage : AdminMessage :=
  ⟨encode 4 0x00100001 ++ encode 4 0x00200001 ++ encode 4 0 ++ encode 4 4 ++ encode 4 7 ++ [0xAA],
    by decide⟩

def recreatedQueue : Option SendResult :=
  send freshTransport [fun _ _ => some .eidrm, fun q _ => if q = 5 then none else some .other]
    ⟨[fun _ => 0x01000002], [fun _ => (5, .other)]⟩ intactMessage

theorem allOrNothing_recreatedQueue : ∃ r, recreatedQueue = some r ∧
    AllOrNothing intactMessage r := by
  obtain ⟨r, hr⟩ : ∃ r, recreatedQueue = some r := ⟨_, rfl⟩
  exact ⟨r, hr, (allOrNothing_iff rfl (by decide) (by decide) hr).mpr (by decide)⟩

end ItcPlatform.SysvTransport
