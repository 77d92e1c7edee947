import ItcPlatform.Api.Requests
import ItcPlatform.SysvTransport.Delivery

/-! A message to another world: flattened into a request to the itc-server, carried there by the
SysV transport, and recovered from what is handed over. -/

namespace ItcPlatform.Api
open AdminMessageHelper LittleEndian SysvTransport

/-- The fields of `itc_system_message_forward_message_to_itc_server_request` behind its message
number. -/
structure ForwardFields where
  toWorldId : BitVec 32
  flattenMsgLength : BitVec 32
  flattenMsg : List Byte

def forwardFields (m : AdminMessage) : ForwardFields :=
  let flattenMsgLength := BitVec.ofNat 32 (load m.payload 4 4)
  ⟨BitVec.ofNat 32 (load m.payload 0 4), flattenMsgLength,
    (m.payload.drop 8).take flattenMsgLength.toNat⟩

section Request
variable {heap : ℕ → Byte} {toWorldId : BitVec 32} {m : AdminMessage}

theorem userBytes_forwardRequest (h : (textSize m.size).toNat ≤ m.bytes.length) :
    userBytes (forwardRequest heap toWorldId m) =
      encode 4 itcSystemMessageForwardMessageToItcServerRequest.toNat ++
        (encode 4 toWorldId.toNat ++ (encode 4 (textSize m.size).toNat ++
          (m.bytes.take (textSize m.size).toNat ++ [itcAdminMessageEndpoint]))) := by
  have htake : (m.bytes.take (textSize m.size).toNat).length = (textSize m.size).toNat :=
    List.length_take_of_le h
  have hsize : 12 + (textSize m.size).toNat - 4 = 4 + (4 + (textSize m.size).toNat) := by omega
  change userBytes (put (putWord (putWord (allocated heap
    itcSystemMessageForwardMessageToItcServerRequest (12 + (textSize m.size).toNat) (by omega))
      4 toWorldId) 8 (textSize m.size)) 12 (m.bytes.take (textSize m.size).toNat)) = _
  rw [userBytes_put (by simp; omega), userBytes_putWord (by simp; omega),
    userBytes_putWord (by simp; omega), userBytes_allocated, hsize, fresh_add, fresh_add]
  simp [store_skip, store_append_left, htake]

theorem laidOut_forwardRequest : LaidOut (forwardRequest heap toWorldId m)
    itcSystemMessageForwardMessageToItcServerRequest (12 + (textSize m.size).toNat) := by
  have halloc := Platform.laidOut_allocated heap itcSystemMessageForwardMessageToItcServerRequest
    (show 4 ≤ 12 + (textSize m.size).toNat by omega)
  have hworld := Platform.laidOut_putWord halloc 4 toWorldId (by decide) (by omega)
  have hlength := Platform.laidOut_putWord hworld 8 (textSize m.size) (by decide) (by omega)
  refine Platform.laidOut_put hlength (by decide) ?_
  exact Nat.add_le_add_left (List.length_take_le _ _) 12

structure OnItsWay (req : AdminMessage) (receiver sender : MailboxId) (toWorldId : BitVec 32)
    (m : AdminMessage) : Prop where
  receiver : req.receiver = receiver
  sender : req.sender = sender
  msgno : req.msgno = itcSystemMessageForwardMessageToItcServerRequest
  size : req.size.toNat = 29 + m.size.toNat
  endpoint : req.endpoint? = some itcAdminMessageEndpoint
  payload : req.payload = encode 4 toWorldId.toNat ++ (encode 4 (17 + m.size.toNat) ++
    m.bytes.take (17 + m.size.toNat))

theorem onItsWay_forwardRequest {receiver sender : MailboxId}
    (hend : m.endpoint? = some itcAdminMessageEndpoint) (hlt : 46 + m.size.toNat < 2 ^ 32) :
    OnItsWay (((forwardRequest heap toWorldId m).setReceiver receiver).setSender sender)
      receiver sender toWorldId m := by
  have hlen := length_of_endpoint hend
  have htext : (textSize m.size).toNat = 17 + m.size.toNat := by
    rw [textSize_toNat]
    omega
  have hlaid := @laidOut_forwardRequest heap toWorldId m
  set req := forwardRequest heap toWorldId m with hreq
  have hword (k : Fin 5) (hk : 1 < k) :
      ((req.setReceiver receiver).setSender sender).word k = req.word k := by
    rw [AdminMessage.setSender, AdminMessage.word_setWord_of_ne _ _ _ (by omega),
      AdminMessage.setReceiver, AdminMessage.word_setWord_of_ne _ _ _ (by omega)]
  have hsize : ((req.setReceiver receiver).setSender sender).size.toNat = 29 + m.size.toNat := by
    rw [AdminMessage.size, hword 3 (by decide), ← AdminMessage.size, hlaid.size,
      BitVec.toNat_ofNat, htext]
    omega
  refine ⟨?_, AdminMessage.word_setWord_self _ _ _, (hword 4 (by decide)).trans hlaid.msgno, hsize,
    ?_, ?_⟩
  · rw [AdminMessage.receiver, AdminMessage.setSender,
      AdminMessage.word_setWord_of_ne _ _ _ (by decide), AdminMessage.setReceiver,
      AdminMessage.word_setWord_self]
  · rw [AdminMessage.endpoint?, hsize, ← hlaid.endpoint, htext, AdminMessage.setSender,
      AdminMessage.getElem?_setWord _ _ _ (by simp only [itcAdminMessagePreambleSize]; omega),
      AdminMessage.setReceiver,
      AdminMessage.getElem?_setWord _ _ _ (by simp only [itcAdminMessagePreambleSize]; omega)]
    congr 1
    simp only [itcAdminMessagePreambleSize]
    omega
  · have hbytes : ((req.setReceiver receiver).setSender sender).bytes.drop
        (itcAdminMessagePreambleSize + itcMessageMsgnoSize) = (userBytes req).drop 4 := by
      rw [← List.drop_drop]
      exact congrArg (List.drop 4) (userBytes_address receiver sender)
    have hskip : (userBytes req).drop 4 = (encode 4 toWorldId.toNat ++
        (encode 4 (17 + m.size.toNat) ++ m.bytes.take (17 + m.size.toNat))) ++
          [itcAdminMessageEndpoint] := by
      rw [hreq, userBytes_forwardRequest (htext.trans_le hlen), htext]
      simp [List.drop_left' (length_encode 4 _)]
    rw [AdminMessage.payload, hbytes, hskip, hsize]
    refine List.take_left' ?_
    simp only [List.length_append, length_encode, List.length_take_of_le hlen, itcMessageMsgnoSize]
    omega

theorem OnItsWay.fields {req got : AdminMessage} {receiver sender : MailboxId}
    (h : OnItsWay req receiver sender toWorldId m) (hgot : got.payload = req.payload)
    (hlt : 46 + m.size.toNat < 2 ^ 32) :
    forwardFields got = ⟨toWorldId, BitVec.ofNat 32 (17 + m.size.toNat),
      m.bytes.take (17 + m.size.toNat)⟩ := by
  have hworld : load got.payload 0 4 = toWorldId.toNat := by
    rw [hgot, h.payload]
    exact load_append_left (toWorldId.isLt) _
  have hlength : load got.payload 4 4 = 17 + m.size.toNat := by
    rw [hgot, h.payload]
    have hskip := load_append_right (encode 4 toWorldId.toNat) (encode 4 (17 + m.size.toNat) ++
      m.bytes.take (17 + m.size.toNat)) 0 4
    rw [length_encode] at hskip
    rw [hskip]
    exact load_append_left (by omega) _
  have hrest : got.payload.drop 8 = m.bytes.take (17 + m.size.toNat) := by
    rw [hgot, h.payload, ← List.append_assoc]
    exact List.drop_left' (by simp)
  have hnat : (BitVec.ofNat 32 (17 + m.size.toNat)).toNat = 17 + m.size.toNat := by
    rw [BitVec.toNat_ofNat]
    omega
  rw [forwardFields, hworld, hlength, hrest, hnat, List.take_take, min_self]
  simp

end Request

/-- A thread with a mailbox sends a message to another world. -/
structure ToOtherWorld (p : Platform) (msg : ℕ) (toMbox : MailboxContactInfo) (my : Mailbox) :
    Prop where
  initialised : p.mIsInitialised = true
  mine : p.mMyMailbox = some my
  world : toMbox.worldId ≠ 0
  server : p.mItcServerMboxId ≠ my.mailboxId

def addressed (p : Platform) (msg : ℕ) (toMbox : MailboxContactInfo) (my : Mailbox) :
    AdminMessage :=
  ((p.memory msg).adminMsg.setReceiver toMbox.mailboxId).setSender my.mailboxId

section Send
variable {env : Env} {p : Platform} {msg : ℕ} {toMbox : MailboxContactInfo} {my : Mailbox}
  {localSend : AdminMessage → ReturnCode} {heap : ℕ → Byte} {mMaxMsgSize : BitVec 64}

theorem adminMsg_forwardMessageToItcServer (hinit : p.mIsInitialised = true)
    (hmy : p.mMyMailbox = some my) (hserver : p.mItcServerMboxId ≠ my.mailboxId)
    (toWorldId : BitVec 32) :
    ((p.forwardMessageToItcServer env msg toWorldId).1.memory p.next).adminMsg =
      ((forwardRequest env.heap toWorldId (p.memory msg).adminMsg).setReceiver
        p.mItcServerMboxId).setSender my.mailboxId := by
  let q := (p.allocateMessage (forwardRequest env.heap toWorldId (p.memory msg).adminMsg)).1
  have hsent := @Platform.adminMsg_send env q p.next hinit my hmy
  have hreq : (q.memory p.next).adminMsg =
      forwardRequest env.heap toWorldId (p.memory msg).adminMsg := by
    simp [q, Platform.allocateMessage]
  rw [if_neg (by exact hserver), hreq] at hsent
  rw [Platform.forwardMessageToItcServer_eq]
  dsimp only
  rw [Platform.adminMsg_deallocateMessage]
  exact hsent

theorem ToOtherWorld.request (h : ToOtherWorld p msg toMbox my) :
    ((p.send env msg toMbox).1.memory p.next).adminMsg =
      ((forwardRequest env.heap toMbox.worldId (addressed p msg toMbox my)).setReceiver
        p.mItcServerMboxId).setSender my.mailboxId := by
  let q := p.address msg toMbox.mailboxId my.mailboxId
  have hsent : p.send env msg toMbox = q.forwardMessageToItcServer env msg toMbox.worldId := by
    unfold Platform.send Platform.sendWith
    rw [if_neg (by simp [h.initialised]), h.mine]
    dsimp only
    rw [if_neg fun hself => h.world hself.2, if_pos h.world]
  have hmsg : (q.memory msg).adminMsg = addressed p msg toMbox my := by
    simp [q, Platform.address, addressed]
  rw [hsent, ← hmsg]
  exact @adminMsg_forwardMessageToItcServer env q msg my h.initialised h.mine h.server _

theorem endpoint_addressed (hend : (p.memory msg).adminMsg.endpoint? = some itcAdminMessageEndpoint)
    (h4 : 4 ≤ (p.memory msg).adminMsg.size.toNat) :
    (addressed p msg toMbox my).size = (p.memory msg).adminMsg.size ∧
      (addressed p msg toMbox my).endpoint? = some itcAdminMessageEndpoint := by
  have hsize : (addressed p msg toMbox my).size = (p.memory msg).adminMsg.size := by
    rw [addressed, AdminMessage.size, AdminMessage.setSender,
      AdminMessage.word_setWord_of_ne _ _ _ (by decide), AdminMessage.setReceiver,
      AdminMessage.word_setWord_of_ne _ _ _ (by decide), AdminMessage.size]
  refine ⟨hsize, ?_⟩
  rw [← hend, AdminMessage.endpoint?, hsize, AdminMessage.endpoint?, addressed,
    AdminMessage.setSender, AdminMessage.getElem?_setWord _ _ _ (Nat.add_le_add_left h4 16),
    AdminMessage.setReceiver, AdminMessage.getElem?_setWord _ _ _ (Nat.add_le_add_left h4 16)]

structure Recovered (p : Platform) (msg : ℕ) (toMbox : MailboxContactInfo) (my : Mailbox)
    (got : AdminMessage) : Prop where
  receiver : got.receiver = p.mItcServerMboxId
  sender : got.sender = my.mailboxId
  msgno : got.msgno = itcSystemMessageForwardMessageToItcServerRequest
  fields : forwardFields got = ⟨toMbox.worldId,
    BitVec.ofNat 32 (17 + (p.memory msg).adminMsg.size.toNat),
    (addressed p msg toMbox my).bytes.take (17 + (p.memory msg).adminMsg.size.toNat)⟩

/-- A message to another world reaches the itc-server byte by byte, with the ids it was given on
its way, exactly when the request around it fits an `int32_t` and `msgrcv` takes it. -/
theorem forwarded_recovered_iff (h : ToOtherWorld p msg toMbox my)
    (hend : (p.memory msg).adminMsg.endpoint? = some itcAdminMessageEndpoint)
    (h4 : 4 ≤ (p.memory msg).adminMsg.size.toNat)
    (hlt : 46 + (p.memory msg).adminMsg.size.toNat < 2 ^ 32) :
    (∃ got, handedOver localSend heap mMaxMsgSize
        ((p.send env msg toMbox).1.memory p.next).adminMsg = some got ∧
      Recovered p msg toMbox my got) ↔
    46 + (p.memory msg).adminMsg.size.toNat < 2 ^ 31 ∧
      Receives (msgsz mMaxMsgSize) (46 + (p.memory msg).adminMsg.size.toNat) := by
  obtain ⟨hsize, hend'⟩ := @endpoint_addressed p msg toMbox my hend h4
  have hway := @onItsWay_forwardRequest env.heap toMbox.worldId (addressed p msg toMbox my)
    p.mItcServerMboxId my.mailboxId hend' (by rwa [hsize])
  rw [h.request]
  set req := ((forwardRequest env.heap toMbox.worldId (addressed p msg toMbox my)).setReceiver
    p.mItcServerMboxId).setSender my.mailboxId
  have hreq : req.size.toNat = 29 + (p.memory msg).adminMsg.size.toNat := by
    rw [hway.size, hsize]
  have hfits : Transportable mMaxMsgSize req ↔
      46 + (p.memory msg).adminMsg.size.toNat < 2 ^ 31 ∧
        Receives (msgsz mMaxMsgSize) (46 + (p.memory msg).adminMsg.size.toNat) := by
    have htext : 17 + req.size.toNat = 46 + (p.memory msg).adminMsg.size.toNat := by
      rw [hreq]
      omega
    constructor
    · rintro ⟨-, hlt', hroom, -⟩
      exact ⟨htext ▸ hlt', htext ▸ hroom⟩
    · rintro ⟨hlt', hroom⟩
      refine ⟨?_, htext.symm ▸ hlt', htext.symm ▸ hroom, hway.endpoint⟩
      omega
  rw [← hfits]
  constructor
  · rintro ⟨got, hgot, -⟩
    by_contra hnot
    rw [handedOver_eq_none hnot] at hgot
    cases hgot
  · intro hcarried
    obtain ⟨got, hgot, hdelivered⟩ :=
      @handedOver_of_transportable localSend heap mMaxMsgSize req hcarried
    refine ⟨got, hgot, hdelivered.receiver.trans hway.receiver,
      hdelivered.sender.trans hway.sender, hdelivered.msgno.trans hway.msgno, ?_⟩
    rw [hway.fields hdelivered.payload (by rwa [hsize]), hsize]

end Send

/-- A message of nothing but its message number, too short for the receive loop by itself. -/
theorem forwarded_recovered_iff_msgnoOnly :
    ∃ got, handedOver (fun _ => .itcOk) (fun _ => 0) 8192
        ((Platform.caller.send (Platform.answering true) 0 ⟨0x00200001, 7⟩).1.memory 1).adminMsg =
          some got ∧
      Recovered Platform.caller 0 ⟨0x00200001, 7⟩ ⟨0x00300000, []⟩ got := by
  have hsize : (Platform.caller.memory 0).adminMsg.size.toNat = 4 := by decide
  exact (forwarded_recovered_iff ⟨rfl, rfl, by decide, by decide⟩ (by decide) (by rw [hsize])
    (by rw [hsize]; decide)).mpr (by rw [hsize]; decide)

end ItcPlatform.Api
