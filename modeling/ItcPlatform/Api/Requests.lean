import Mathlib.Data.List.TakeWhile
import ItcPlatform.Api.GiveUp

/-! The requests to the itc-server byte by byte, from their message number to the endpoint, with
the bytes of the fresh block that no field is written to. -/

namespace ItcPlatform.Api
open AdminMessageHelper LittleEndian

def userBytes (m : AdminMessage) : List Byte := m.bytes.drop itcAdminMessagePreambleSize

/-- What the heap holds at `n` bytes of a fresh block. -/
def fresh (heap : ℕ → Byte) (off n : ℕ) : List Byte := (List.range' off n).map heap

def cString (name : Name) : List Byte := name.takeWhile (· ≠ 0) ++ [0]

section Bytes
variable {m : AdminMessage} {heap : ℕ → Byte} {off n : ℕ} {bs : List Byte}

@[simp] theorem length_fresh : (fresh heap off n).length = n := by simp [fresh]

theorem fresh_add (n' : ℕ) :
    fresh heap off (n + n') = fresh heap off n ++ fresh heap (off + n) n' := by
  rw [fresh, ← List.range'_append_1, List.map_append]
  rfl

theorem fresh_const (b : Byte) : fresh (fun _ => b) off n = List.replicate n b := by
  simp [fresh, List.map_const']

@[simp] theorem length_cString (name : Name) :
    (cString name).length = (name.takeWhile (· ≠ 0)).length + 1 := by simp [cString]

theorem length_cString_le (name : Name) : (cString name).length ≤ name.length + 1 := by
  rw [length_cString]
  exact Nat.succ_le_succ (List.takeWhile_sublist _).length_le

theorem length_cString_iff (name : Name) : (cString name).length = name.length + 1 ↔ 0 ∉ name := by
  rw [length_cString, Nat.succ_inj]
  constructor
  · intro h hmem
    have hall := (List.takeWhile_sublist (· ≠ (0 : Byte))).eq_of_length h
    simpa using List.takeWhile_eq_self_iff.mp hall 0 hmem
  · intro h
    rw [List.takeWhile_eq_self_iff.mpr]
    intro b hb
    have hne : b ≠ 0 := fun heq => h (heq ▸ hb)
    simpa using hne

theorem userBytes_setWord {k : Fin 5} (hk : (k : ℕ) < 4) (v : BitVec 32) :
    userBytes (m.setWord k v) = userBytes m := by
  apply List.ext_getElem?
  intro i
  rw [userBytes, userBytes, List.getElem?_drop, List.getElem?_drop,
    AdminMessage.getElem?_setWord_of_le]
  simp only [itcAdminMessagePreambleSize]
  omega

theorem userBytes_address (receiver sender : MailboxId) :
    userBytes ((m.setReceiver receiver).setSender sender) = userBytes m := by
  rw [AdminMessage.setSender, userBytes_setWord (by decide), AdminMessage.setReceiver,
    userBytes_setWord (by decide)]

theorem userBytes_write (h : 16 + off + bs.length ≤ m.bytes.length) :
    userBytes (m.write (16 + off) bs h) = store (userBytes m) off bs := by
  have hoff : itcAdminMessagePreambleSize + off ≤ m.bytes.length := Nat.le_of_add_right_le h
  exact drop_store hoff

theorem userBytes_put (h : off + bs.length ≤ (userBytes m).length) :
    userBytes (put m off bs) = store (userBytes m) off bs := by
  rw [userBytes, List.length_drop] at h
  have hlen := m.header_le
  rw [put, dif_pos (by simp only [itcAdminMessagePreambleSize] at h ⊢; omega)]
  exact userBytes_write _

theorem userBytes_setMsgno (v : BitVec 32) :
    userBytes (m.setMsgno v) = store (userBytes m) 0 (encode 4 v.toNat) := by
  have h : 16 + 0 + (encode 4 v.toNat).length ≤ m.bytes.length := m.word_bound 4 v
  exact userBytes_write h

theorem userBytes_allocate {msgno : BitVec 32} {size : ℕ} (h : allocate heap msgno size = some m) :
    userBytes m = encode 4 msgno.toNat ++
      (fresh heap 20 (size - 4) ++ [itcAdminMessageEndpoint]) := by
  unfold allocate at h
  split_ifs at h with hs
  obtain rfl := Option.some.inj h
  obtain ⟨n, rfl⟩ : ∃ n, size = 4 + n := Nat.exists_eq_add_of_le (Nat.le_of_not_lt hs)
  have hblock : ((List.range (itcAdminMessagePreambleSize + (4 + n) +
      itcAdminMessageEndpointSize)).map heap).drop itcAdminMessagePreambleSize =
        fresh heap 16 4 ++ (fresh heap 20 n ++ fresh heap (20 + n) 1) := by
    rw [← fresh_add, ← fresh_add, fresh, ← List.map_drop, List.range_eq_range', List.drop_range']
    congr 2
    simp only [itcAdminMessagePreambleSize, itcAdminMessageEndpointSize]
    omega
  rw [userBytes_write, AdminMessage.setFlags, userBytes_setWord (by decide), AdminMessage.setSize,
    userBytes_setWord (by decide), AdminMessage.setReceiver, userBytes_setWord (by decide),
    AdminMessage.setSender, userBytes_setWord (by decide), userBytes_setMsgno, userBytes, hblock,
    store_append_left (by simp), ← List.append_assoc, store_append_right (by simp) (by simp),
    List.append_assoc, Nat.add_sub_cancel_left]

theorem userBytes_allocated (msgno : BitVec 32) {size : ℕ} (h : 4 ≤ size) :
    userBytes (allocated heap msgno size h) = encode 4 msgno.toNat ++
      (fresh heap 20 (size - 4) ++ [itcAdminMessageEndpoint]) :=
  userBytes_allocate (Option.some_get _).symm

theorem length_put : (put m off bs).bytes.length = m.bytes.length := by
  unfold put
  split_ifs
  · exact m.length_write _
  · rfl

@[simp] theorem length_userBytes_put :
    (userBytes (put m off bs)).length = (userBytes m).length := by
  rw [userBytes, userBytes, List.length_drop, List.length_drop, length_put]

@[simp] theorem length_userBytes_putWord (v : BitVec 32) :
    (userBytes (putWord m off v)).length = (userBytes m).length := length_userBytes_put

@[simp] theorem length_userBytes_cStrcpy (name : Name) :
    (userBytes (cStrcpy m off name)).length = (userBytes m).length := length_userBytes_put

@[simp] theorem length_userBytes_allocated (msgno : BitVec 32) {size : ℕ} (h : 4 ≤ size) :
    (userBytes (allocated heap msgno size h)).length = size + 1 := by
  rw [userBytes_allocated]
  simp
  omega

theorem userBytes_putWord {v : BitVec 32} (h : off + 4 ≤ (userBytes m).length) :
    userBytes (putWord m off v) = store (userBytes m) off (encode 4 v.toNat) :=
  userBytes_put (by rwa [length_encode])

theorem userBytes_cStrcpy {name : Name} (h : off + name.length + 1 ≤ (userBytes m).length) :
    userBytes (cStrcpy m off name) = store (userBytes m) off (cString name) :=
  userBytes_put (le_trans (Nat.add_le_add_left (length_cString_le name) off) h)

end Bytes

section Layouts
variable {heap : ℕ → Byte} {name : Name}

theorem userBytes_notifyRequest (isCreation mboxId : BitVec 32) (ext : Option (BitVec 32)) :
    userBytes (notifyRequest heap isCreation mboxId ext name) =
      encode 4 itcSystemMessageNotifyMboxCreationDeletionToItcServerRequest.toNat ++
        (encode 4 isCreation.toNat ++ (encode 4 mboxId.toNat ++
          (ext.elim (fresh heap 28 4) (fun v => encode 4 v.toNat) ++ (cString name ++
            (fresh heap (32 + (cString name).length) (name.length + 1 - (cString name).length) ++
              [itcAdminMessageEndpoint]))))) := by
  obtain ⟨r, hr⟩ := Nat.exists_eq_add_of_le (length_cString_le name)
  have hsize : 16 + name.length + 1 - 4 = 4 + (4 + (4 + ((cString name).length + r))) := by omega
  have hids : userBytes (putWord (putWord (allocated heap
      itcSystemMessageNotifyMboxCreationDeletionToItcServerRequest (16 + name.length + 1)
        (by omega)) 4 isCreation) 8 mboxId) =
      encode 4 itcSystemMessageNotifyMboxCreationDeletionToItcServerRequest.toNat ++
        (encode 4 isCreation.toNat ++ (encode 4 mboxId.toNat ++ (fresh heap 28 4 ++
          (fresh heap 32 (cString name).length ++ (fresh heap (32 + (cString name).length) r ++
            [itcAdminMessageEndpoint]))))) := by
    rw [userBytes_putWord (by simp; omega), userBytes_putWord (by simp; omega),
      userBytes_allocated, hsize, fresh_add, fresh_add, fresh_add, fresh_add]
    simp [store_skip, store_append_left]
  rw [notifyRequest, userBytes_cStrcpy (by cases ext <;> simp), hr, Nat.add_sub_cancel_left]
  cases ext with
  | none =>
    rw [Option.elim_none, Option.elim_none, hids]
    simp [store_skip, store_append_left]
  | some v =>
    rw [Option.elim_some, Option.elim_some, userBytes_putWord (by simp; omega), hids]
    simp [store_skip, store_append_left]

theorem userBytes_locateAsyncRequest (mode : BitVec 32) (mailboxId : Option MailboxId) :
    userBytes (locateAsyncRequest heap mode name mailboxId) =
      encode 4 itcSystemMessageLocateMboxAsyncInItcServerRequest.toNat ++
        (encode 4 mode.toNat ++
          (mailboxId.elim (fresh heap 24 4 ++ fresh heap 28 4)
            (fun v => encode 4 1 ++ encode 4 v.toNat) ++ (cString name ++
              (fresh heap (32 + (cString name).length) (name.length + 1 - (cString name).length) ++
                [itcAdminMessageEndpoint])))) := by
  obtain ⟨r, hr⟩ := Nat.exists_eq_add_of_le (length_cString_le name)
  have hsize : 16 + name.length + 1 - 4 = 4 + (4 + (4 + ((cString name).length + r))) := by omega
  have hname : userBytes (cStrcpy (putWord (allocated heap
      itcSystemMessageLocateMboxAsyncInItcServerRequest (16 + name.length + 1) (by omega))
        4 mode) 16 name) =
      encode 4 itcSystemMessageLocateMboxAsyncInItcServerRequest.toNat ++
        (encode 4 mode.toNat ++ (fresh heap 24 4 ++ (fresh heap 28 4 ++ (cString name ++
          (fresh heap (32 + (cString name).length) r ++ [itcAdminMessageEndpoint]))))) := by
    rw [userBytes_cStrcpy (by simp), userBytes_putWord (by simp; omega), userBytes_allocated, hsize,
      fresh_add, fresh_add, fresh_add, fresh_add]
    simp [store_skip, store_append_left]
  rw [locateAsyncRequest, hr, Nat.add_sub_cancel_left]
  cases mailboxId with
  | none =>
    rw [Option.elim_none, Option.elim_none, hname]
    simp
  | some v =>
    rw [Option.elim_some, Option.elim_some, userBytes_putWord (by simp; omega),
      userBytes_putWord (by simp; omega), hname]
    simp [store_skip, store_append_left]

end Layouts

namespace Platform
variable {env : Env} {p p' : Platform} {req : AdminMessage} {msg m : ℕ}

def allocatedFrom (p p' : Platform) : List Message :=
  (List.range' p.next (p'.next - p.next)).map p'.memory

theorem allocatedFrom_of_next (h : p'.next = p.next) : allocatedFrom p p' = [] := by
  simp [allocatedFrom, h]

theorem allocatedFrom_one (h : p'.next = p.next + 1) :
    allocatedFrom p p' = [p'.memory p.next] := by
  simp [allocatedFrom, h, List.range'_one]

theorem allocatedFrom_congr {p'' : Platform} (hnext : p'.next = p''.next)
    (hmemory : p'.memory = p''.memory) : allocatedFrom p p' = allocatedFrom p p'' := by
  rw [allocatedFrom, allocatedFrom, hnext, hmemory]

theorem mMyMailbox_deallocateMessage :
    (p.deallocateMessage msg).1.mMyMailbox = p.mMyMailbox := by
  unfold deallocateMessage
  split_ifs <;> rfl

theorem mIsInitialised_deallocateMessage :
    (p.deallocateMessage msg).1.mIsInitialised = p.mIsInitialised := by
  unfold deallocateMessage
  split_ifs <;> rfl

theorem send_fst (mailboxId : MailboxId) :
    ∃ memory, (p.send env msg ⟨mailboxId, 0⟩).1 = { p with memory } := by
  unfold send sendWith
  split
  · exact ⟨p.memory, rfl⟩
  split
  · exact ⟨p.memory, rfl⟩
  split
  · exact ⟨p.memory, rfl⟩
  dsimp only
  rw [if_neg (by simp), transportSend]
  split <;> exact ⟨_, rfl⟩

theorem mMyMailbox_send (mailboxId : MailboxId) :
    (p.send env msg ⟨mailboxId, 0⟩).1.mMyMailbox = p.mMyMailbox := by
  obtain ⟨memory, h⟩ := @send_fst env p msg mailboxId
  rw [h]

theorem mIsInitialised_send (mailboxId : MailboxId) :
    (p.send env msg ⟨mailboxId, 0⟩).1.mIsInitialised = p.mIsInitialised := by
  obtain ⟨memory, h⟩ := @send_fst env p msg mailboxId
  rw [h]

theorem adminMsg_deallocateMessage :
    ((p.deallocateMessage msg).1.memory m).adminMsg = (p.memory m).adminMsg := by
  unfold deallocateMessage
  split_ifs
  · by_cases h : m = msg
    · simp [giveUp, h]
    · simp [giveUp, h]
  · rfl

theorem adminMsg_transportSend {t : Transport} :
    ((p.transportSend env t msg).1.memory m).adminMsg = (p.memory m).adminMsg := by
  unfold transportSend
  split_ifs
  · by_cases h : m = msg
    · simp [giveUp, h]
    · simp [giveUp, h]
  · rfl

theorem adminMsg_send (hinit : p.mIsInitialised = true) {my : Mailbox}
    (hmy : p.mMyMailbox = some my) :
    ((p.send env msg ⟨p.mItcServerMboxId, 0⟩).1.memory msg).adminMsg =
      if p.mItcServerMboxId = my.mailboxId then (p.memory msg).adminMsg
      else ((p.memory msg).adminMsg.setReceiver p.mItcServerMboxId).setSender my.mailboxId := by
  unfold send sendWith
  rw [if_neg (by simp [hinit]), hmy]
  dsimp only
  by_cases hself : p.mItcServerMboxId = my.mailboxId
  · rw [if_pos hself, if_pos ⟨hself, rfl⟩]
  · rw [if_neg hself, if_neg fun h => hself h.1, if_neg (by simp), adminMsg_transportSend]
    simp [address]

theorem userBytes_send :
    userBytes ((p.send env msg ⟨p.mItcServerMboxId, 0⟩).1.memory msg).adminMsg =
      userBytes (p.memory msg).adminMsg := by
  by_cases hinit : p.mIsInitialised = true
  · cases hmy : p.mMyMailbox with
    | none => simp [send, sendWith, hinit, hmy]
    | some my =>
      rw [adminMsg_send hinit hmy]
      split_ifs
      · rfl
      · exact userBytes_address _ _
  · simp [send, sendWith, hinit]

theorem userBytes_requested :
    userBytes ((requested env p req).1.memory p.next).adminMsg = userBytes req := by
  refine (@userBytes_send env (p.allocateMessage req).1 p.next).trans ?_
  simp [allocateMessage]

end Platform

end ItcPlatform.Api
