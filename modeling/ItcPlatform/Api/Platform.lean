import Mathlib.Logic.Function.Basic
import ItcPlatform.AdminMessage

/-! The calls of the platform that make messages of their own, with the heap they put them on.
The mailbox list as these calls use it and the transports behind `send` are parameters. -/

namespace ItcPlatform.Api
open AdminMessageHelper LittleEndian

abbrev Name := List Byte

structure MailboxContactInfo where
  mailboxId : MailboxId := itcMailboxIdDefault
  worldId : BitVec 32 := 0

/-- The mailbox behind `m_myMailbox`. -/
structure Mailbox where
  mailboxId : MailboxId
  name : Name

structure LocateReply where
  msgno : BitVec 32
  locatedMbox : MailboxContactInfo

inductive Transport
  | itcTransportLocal
  | itcTransportSysvMsgQueue

/-- What a call meets: the bytes of fresh blocks, the answers of `m_mboxList` and of pthread,
which transport takes a message over, and what is received afterwards. -/
structure Env where
  heap : ℕ → Byte
  emplace : Name → BitVec 32 → Option (BitVec 32)
  hasValueAt : BitVec 32 → Bool
  data : BitVec 32 → Mailbox
  remove : Mailbox → Mailbox
  idOf : Name → Option MailboxId
  setSpecific : ℤ
  taken : Transport → Bool
  received : BitVec 32 → Option LocateReply
  itcMaskTimeout : BitVec 32

section Requests

def put (m : AdminMessage) (off : ℕ) (bs : List Byte) : AdminMessage :=
  if h : itcAdminMessagePreambleSize + off + bs.length ≤ m.bytes.length then m.write _ bs h else m

def putWord (m : AdminMessage) (off : ℕ) (v : BitVec 32) : AdminMessage :=
  put m off (encode 4 v.toNat)

def cStrcpy (m : AdminMessage) (off : ℕ) (name : Name) : AdminMessage :=
  put m off (name.takeWhile (· ≠ 0) ++ [0])

def allocated (heap : ℕ → Byte) (msgno : BitVec 32) (size : ℕ) (h : 4 ≤ size) : AdminMessage :=
  (allocate heap msgno size).get (Option.isSome_iff_ne_none.mpr fun he =>
    Nat.not_lt.mpr h (allocate_eq_none_iff.mp he))

/-- `itc_system_message_notify_mbox_creation_deletion_to_itc_server_request`; a deletion
leaves `isExternalCommunicationNeeded` as it is in the fresh block. -/
def notifyRequest (heap : ℕ → Byte) (isCreation : BitVec 32) (mboxId : MailboxId)
    (isExternalCommunicationNeeded : Option (BitVec 32)) (mboxName : Name) : AdminMessage :=
  let req := allocated heap itcSystemMessageNotifyMboxCreationDeletionToItcServerRequest
    (16 + mboxName.length + 1) (by omega)
  let req := putWord (putWord req 4 isCreation) 8 mboxId
  cStrcpy (isExternalCommunicationNeeded.elim req (putWord req 12)) 16 mboxName

def locateSyncRequest (heap : ℕ → Byte) (mode : BitVec 32) (mboxName : Name) : AdminMessage :=
  let req := allocated heap itcSystemMessageLocateMboxSyncInItcServerRequest
    (8 + mboxName.length + 1) (by omega)
  cStrcpy (putWord req 4 mode) 8 mboxName

def locateAsyncRequest (heap : ℕ → Byte) (mode : BitVec 32) (mboxName : Name)
    (mailboxId : Option MailboxId) : AdminMessage :=
  let req := allocated heap itcSystemMessageLocateMboxAsyncInItcServerRequest
    (16 + mboxName.length + 1) (by omega)
  let req := cStrcpy (putWord req 4 mode) 16 mboxName
  mailboxId.elim req fun mailboxId => putWord (putWord req 8 1) 12 mailboxId

def forwardRequest (heap : ℕ → Byte) (toWorldId : BitVec 32) (adminMsg : AdminMessage) :
    AdminMessage :=
  let flattenMsgLength := BitVec.ofNat 32 itcAdminMessagePreambleSize + adminMsg.size +
    BitVec.ofNat 32 itcAdminMessageEndpointSize
  let req := allocated heap itcSystemMessageForwardMessageToItcServerRequest
    (12 + flattenMsgLength.toNat) (by omega)
  put (putWord (putWord req 4 toWorldId) 8 flattenMsgLength) 12
    (adminMsg.bytes.take flattenMsgLength.toNat)

end Requests

/-- How a message is given up: to a transport that takes it over, or back to the heap. -/
inductive GiveUp
  | handedOver
  | deallocated
  deriving DecidableEq

/-- A message on the heap, with all that was done since its allocation to give it up. -/
structure Message where
  adminMsg : AdminMessage
  givenUp : List GiveUp

/-- The platform as the calling thread sees it, with the heap: messages in the order of their
allocation, up to `next`. -/
structure Platform where
  mRegionId : MailboxId
  mItcServerMboxId : MailboxId
  mIsInitialised : Bool
  mMyMailbox : Option Mailbox
  memory : ℕ → Message
  next : ℕ

namespace Platform
variable (env : Env) (p : Platform)

def allocateMessage (req : AdminMessage) : Platform × ℕ :=
  ({ p with memory := Function.update p.memory p.next ⟨req, []⟩, next := p.next + 1 }, p.next)

def address (msg : ℕ) (receiver sender : MailboxId) : Platform :=
  let m := p.memory msg
  let adminMsg := (m.adminMsg.setReceiver receiver).setSender sender
  { p with memory := Function.update p.memory msg { m with adminMsg } }

def giveUp (msg : ℕ) (how : GiveUp) : Platform :=
  let m := p.memory msg
  { p with memory := Function.update p.memory msg { m with givenUp := m.givenUp ++ [how] } }

/-- A message that was given up is not the caller's to look at: to deallocate it is to give it
up again. -/
def deallocateMessage (msg : ℕ) : Platform × ReturnCode :=
  if (p.memory msg).givenUp ≠ [] ∨ deallocate (some (p.memory msg).adminMsg) then
    (p.giveUp msg .deallocated, .itcOk)
  else (p, .itcFailed)

def transportSend (transport : Transport) (msg : ℕ) : Platform × ReturnCode :=
  if env.taken transport then (p.giveUp msg .handedOver, .itcOk) else (p, .itcFailed)

def transport (mailboxId : MailboxId) : Transport :=
  if mailboxId &&& itcMaskRegionId ≠ p.mRegionId then .itcTransportSysvMsgQueue
  else .itcTransportLocal

def sendWith (forward : Platform → ℕ → BitVec 32 → Platform × ReturnCode) (msg : ℕ)
    (toMbox : MailboxContactInfo) : Platform × ReturnCode :=
  if p.mIsInitialised = false then (p, .itcFailed)
  else
    match p.mMyMailbox with
    | none => (p, .itcFailed)
    | some my =>
      if toMbox.mailboxId = my.mailboxId ∧ toMbox.worldId = 0 then (p, .itcFailed)
      else
        let p := p.address msg toMbox.mailboxId my.mailboxId
        if toMbox.worldId ≠ 0 then forward p msg toMbox.worldId
        else p.transportSend env (p.transport toMbox.mailboxId) msg

/-- The request goes to this world, so its `send` forwards nothing. -/
def forwardMessageToItcServer (adminMsg : ℕ) (toWorldId : BitVec 32) : Platform × ReturnCode :=
  let (p, req) := p.allocateMessage (forwardRequest env.heap toWorldId (p.memory adminMsg).adminMsg)
  let (p, rc) := p.sendWith env (fun p _ _ => (p, .itcUndefined)) req ⟨p.mItcServerMboxId, 0⟩
  ((p.deallocateMessage adminMsg).1, rc)

def send (msg : ℕ) (toMbox : MailboxContactInfo) : Platform × ReturnCode :=
  p.sendWith env (forwardMessageToItcServer env) msg toMbox

theorem sendWith_eq_send {f : Platform → ℕ → BitVec 32 → Platform × ReturnCode} {msg : ℕ}
    {toMbox : MailboxContactInfo} (h : toMbox.worldId = 0) :
    p.sendWith env f msg toMbox = p.send env msg toMbox := by
  simp only [send, sendWith, h, ne_eq, not_true_eq_false, if_false]

theorem forwardMessageToItcServer_eq (adminMsg : ℕ) (toWorldId : BitVec 32) :
    p.forwardMessageToItcServer env adminMsg toWorldId =
      let r := p.allocateMessage (forwardRequest env.heap toWorldId (p.memory adminMsg).adminMsg)
      let r := r.1.send env r.2 ⟨r.1.mItcServerMboxId, 0⟩
      ((r.1.deallocateMessage adminMsg).1, r.2) := by
  simp only [forwardMessageToItcServer, sendWith_eq_send]

/-- `m_regionId != (m_itcServerMboxId | ITC_MASK_REGION_ID)` -/
def notifies : Bool := p.mRegionId ≠ (p.mItcServerMboxId ||| itcMaskRegionId)

def emplaced (index : BitVec 32) : Mailbox :=
  if env.hasValueAt index then
    { env.data index with mailboxId := p.mRegionId ||| (index &&& itcMaskUnitId) }
  else env.data index

def creationRequest (my : Mailbox) (name : Name) (flags : BitVec 32) : AdminMessage :=
  notifyRequest env.heap 1 my.mailboxId
    (some (if flags &&& itcFlagExternalCommunicationNeeded ≠ 0 then 1 else 0)) name

def deletionRequest (my : Mailbox) (mboxName : Name) : AdminMessage :=
  notifyRequest env.heap 2 my.mailboxId none mboxName

def createMailbox (name : Name) (flags : BitVec 32) : Platform × MailboxId :=
  if p.mIsInitialised = false then (p, itcMailboxIdDefault)
  else
    match p.mMyMailbox with
    | some my => (p, my.mailboxId)
    | none =>
      match env.emplace name flags with
      | none => (p, itcMailboxIdDefault)
      | some index =>
        let my := p.emplaced env index
        let p := { p with mMyMailbox := some my }
        if env.setSpecific ≠ 0 then (p, itcMailboxIdDefault)
        else if p.notifies then
          let (p, req) := p.allocateMessage (creationRequest env my name flags)
          let (p, rc) := p.send env req ⟨p.mItcServerMboxId, 0⟩
          if rc ≠ .itcOk then ((p.deallocateMessage req).1, itcMailboxIdDefault)
          else (p, my.mailboxId)
        else (p, my.mailboxId)

/-- `none` is the read through a null `m_myMailbox`. -/
def deleteMailbox (mboxId : MailboxId) : Option (Platform × ReturnCode) :=
  if p.mIsInitialised = false then some (p, .itcFailed)
  else
    p.mMyMailbox.map fun my =>
      if mboxId ≠ my.mailboxId then (p, .itcFailed)
      else
        let mboxName := my.name
        let my := env.remove my
        let p := { p with mMyMailbox := some my }
        if p.notifies then
          let (p, req) := p.allocateMessage (deletionRequest env my mboxName)
          let (p, rc) := p.send env req ⟨p.mItcServerMboxId, 0⟩
          if rc ≠ .itcOk then ((p.deallocateMessage req).1, .itcFailed)
          else ({ p with mMyMailbox := none }, .itcOk)
        else ({ p with mMyMailbox := none }, .itcOk)

def receive (mode : BitVec 32) : Option LocateReply :=
  if p.mIsInitialised = false then none
  else p.mMyMailbox.bind fun _ => env.received mode

def locateMailboxSync (mboxName : Name) (mode : BitVec 32) : Platform × MailboxContactInfo :=
  if p.mIsInitialised = false ∨ p.mMyMailbox.isNone then (p, {})
  else
    let locateMode := mode &&& itcMaskLocate
    match if locateMode &&& itcModeLocateInRegion ≠ 0 then env.idOf mboxName else none with
    | some mailboxId => (p, { mailboxId })
    | none =>
      if locateMode &&& itcModeLocateInWorld = 0 ∧ locateMode &&& itcModeLocateInUniverse = 0 then
        (p, {})
      else
        let (p, req) := p.allocateMessage (locateSyncRequest env.heap locateMode mboxName)
        let (p, rc) := p.send env req ⟨p.mItcServerMboxId, 0⟩
        let p := (p.deallocateMessage req).1
        if rc ≠ .itcOk then (p, {})
        else
          match p.receive env (mode &&& env.itcMaskTimeout) with
          | none => (p, {})
          | some rep =>
            if rep.msgno ≠ itcSystemMessageLocateMboxInItcServerReply then (p, {})
            else (p, rep.locatedMbox)

def locateMailboxAsync (mboxName : Name) (mode : BitVec 32) : Platform × ReturnCode :=
  if p.mIsInitialised = false ∨ p.mMyMailbox.isNone then (p, .itcFailed)
  else
    let (p, req) := p.allocateMessage
      (locateAsyncRequest env.heap (mode &&& itcMaskLocate) mboxName (env.idOf mboxName))
    let (p, rc) := p.send env req ⟨p.mItcServerMboxId, 0⟩
    ((p.deallocateMessage req).1, rc)

end Platform

end ItcPlatform.Api
