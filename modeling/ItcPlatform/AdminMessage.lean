import ItcPlatform.Constant
import ItcPlatform.Lib.LittleEndian

/-! The admin message in memory: four preamble words, the message number, the payload and
the endpoint byte, with the allocator that lays it out and the check before it is freed. -/

namespace ItcPlatform
open LittleEndian

/-- A message block as the heap holds it; the five words at its start are always there. -/
@[ext] structure AdminMessage where
  bytes : List Byte
  header_le : 20 ≤ bytes.length
  deriving DecidableEq

namespace AdminMessage

instance : NeZero 5 := ⟨by decide⟩

def word (m : AdminMessage) (k : Fin 5) : BitVec 32 := BitVec.ofNat 32 (load m.bytes (4 * k) 4)

def sender (m : AdminMessage) : MailboxId := m.word 0
def receiver (m : AdminMessage) : MailboxId := m.word 1
def flags (m : AdminMessage) : BitVec 32 := m.word 2
def size (m : AdminMessage) : BitVec 32 := m.word 3
def msgno (m : AdminMessage) : BitVec 32 := m.word 4

/-- `GET_ITC_ADMIN_MESSAGE_ENDPOINT`, `none` where the size field points past the block. -/
def endpoint? (m : AdminMessage) : Option Byte :=
  m.bytes[itcAdminMessagePreambleSize + m.size.toNat]?

def payload (m : AdminMessage) : List Byte :=
  (m.bytes.drop (itcAdminMessagePreambleSize + itcMessageMsgnoSize)).take
    (m.size.toNat - itcMessageMsgnoSize)

def write (m : AdminMessage) (off : ℕ) (bs : List Byte) (h : off + bs.length ≤ m.bytes.length) :
    AdminMessage :=
  ⟨store m.bytes off bs, (length_store h).symm ▸ m.header_le⟩

theorem word_bound (m : AdminMessage) (k : Fin 5) (v : BitVec 32) :
    4 * (k : ℕ) + (encode 4 v.toNat).length ≤ m.bytes.length := by
  have := m.header_le
  simp only [length_encode]
  omega

def setWord (m : AdminMessage) (k : Fin 5) (v : BitVec 32) : AdminMessage :=
  m.write (4 * k) (encode 4 v.toNat) (m.word_bound k v)

def setSender (m : AdminMessage) (v : MailboxId) : AdminMessage := m.setWord 0 v
def setReceiver (m : AdminMessage) (v : MailboxId) : AdminMessage := m.setWord 1 v
def setFlags (m : AdminMessage) (v : BitVec 32) : AdminMessage := m.setWord 2 v
def setSize (m : AdminMessage) (v : BitVec 32) : AdminMessage := m.setWord 3 v
def setMsgno (m : AdminMessage) (v : BitVec 32) : AdminMessage := m.setWord 4 v

section Fields
variable (m : AdminMessage) (k : Fin 5) (v : BitVec 32)

@[simp] theorem length_write {off : ℕ} {bs : List Byte} (h : off + bs.length ≤ m.bytes.length) :
    (m.write off bs h).bytes.length = m.bytes.length := length_store h

@[simp] theorem length_setWord : (m.setWord k v).bytes.length = m.bytes.length :=
  m.length_write _

@[simp] theorem word_setWord_self : (m.setWord k v).word k = v := by
  have h := load_store_self (m.word_bound k v)
  have hv := v.isLt
  rw [length_encode, decode_encode (by omega)] at h
  rw [word, setWord, write, h, BitVec.ofNat_toNat, BitVec.setWidth_eq]

theorem word_setWord_of_ne {k' : Fin 5} (hk : k' ≠ k) : (m.setWord k v).word k' = m.word k' := by
  have hne : (k' : ℕ) ≠ k := fun h => hk (Fin.ext h)
  rw [word, setWord, write, load_store_disjoint (m.word_bound k v), word]
  simp only [length_encode]
  omega

theorem word_write {off : ℕ} {bs : List Byte} (h : off + bs.length ≤ m.bytes.length)
    (hoff : 20 ≤ off) : (m.write off bs h).word k = m.word k := by
  rw [word, write, load_store_disjoint h (by omega), word]

theorem getElem?_setWord_of_le {i : ℕ} (h : 4 * (k : ℕ) + 4 ≤ i) :
    (m.setWord k v).bytes[i]? = m.bytes[i]? := by
  rw [setWord, write, getElem?_store (m.word_bound k v), if_neg]
  simp only [length_encode]
  omega

theorem getElem?_setWord {i : ℕ} (h : 20 ≤ i) : (m.setWord k v).bytes[i]? = m.bytes[i]? :=
  m.getElem?_setWord_of_le k v (by omega)

end Fields

end AdminMessage

namespace AdminMessageHelper
open AdminMessage

/-- `heap` is what the fresh block holds before it is laid out. -/
def allocate (heap : ℕ → Byte) (msgno : BitVec 32) (size : ℕ) : Option AdminMessage :=
  if h : size < itcMessageMsgnoSize then none else
    let length := itcAdminMessagePreambleSize + size + itcAdminMessageEndpointSize
    have hlength : 20 ≤ ((List.range length).map heap).length := by
      simp only [length, itcMessageMsgnoSize, itcAdminMessagePreambleSize,
        itcAdminMessageEndpointSize, List.length_map, List.length_range] at h ⊢
      omega
    let adminMsg := ((((AdminMessage.mk ((List.range length).map heap) hlength).setMsgno msgno
      |>.setSender itcMailboxIdDefault).setReceiver itcMailboxIdDefault).setSize
        (BitVec.ofNat 32 size)).setFlags itcFlagDefault
    some (adminMsg.write (itcAdminMessagePreambleSize + size) [itcAdminMessageEndpoint] (by
      simp [adminMsg, length, setMsgno, setSender, setReceiver, setSize, setFlags,
        itcAdminMessageEndpointSize]))

/-- Whether the block was freed. -/
def deallocate : Option AdminMessage → Bool
  | none => true
  | some adminMsg =>
    if adminMsg.flags &&& itcFlagMessageInRxQueue ≠ 0 then false
    else if adminMsg.endpoint? ≠ some itcAdminMessageEndpoint then false
    else true

structure LaidOut (m : AdminMessage) (msgno : BitVec 32) (n : ℕ) : Prop where
  length : m.bytes.length = 17 + n
  sender : m.sender = itcMailboxIdDefault
  receiver : m.receiver = itcMailboxIdDefault
  flags : m.flags = itcFlagDefault
  size : m.size = BitVec.ofNat 32 n
  msgno : m.msgno = msgno
  endpoint : m.bytes[16 + n]? = some itcAdminMessageEndpoint

theorem allocate_eq_none_iff {heap : ℕ → Byte} {msgno : BitVec 32} {size : ℕ} :
    allocate heap msgno size = none ↔ size < 4 := by
  unfold allocate
  split_ifs with h
  · simpa [itcMessageMsgnoSize] using h
  · simpa [itcMessageMsgnoSize] using h

theorem allocate_laidOut {heap : ℕ → Byte} {msgno : BitVec 32} {size : ℕ} {m : AdminMessage}
    (h : allocate heap msgno size = some m) : LaidOut m msgno size := by
  unfold allocate at h
  split_ifs at h with hs
  obtain rfl := Option.some.inj h
  have h20 : 20 ≤ itcAdminMessagePreambleSize + size := by
    simp only [itcMessageMsgnoSize, itcAdminMessagePreambleSize] at hs ⊢
    omega
  constructor
  case length =>
    simp [setMsgno, setSender, setReceiver, setSize, setFlags, itcAdminMessageEndpointSize,
      itcAdminMessagePreambleSize]
    omega
  case endpoint =>
    rw [write, getElem?_store (by
      simp [setMsgno, setSender, setReceiver, setSize, setFlags, itcAdminMessageEndpointSize])]
    simp [itcAdminMessagePreambleSize]
  all_goals
    simp only [AdminMessage.sender, AdminMessage.receiver, AdminMessage.flags, AdminMessage.size,
      AdminMessage.msgno, word_write _ _ _ h20]
    simp [setMsgno, setSender, setReceiver, setSize, setFlags, word_setWord_of_ne]

theorem deallocate_eq_true_iff (m : AdminMessage) : deallocate (some m) = true ↔
    m.flags &&& itcFlagMessageInRxQueue = 0 ∧ m.endpoint? = some itcAdminMessageEndpoint := by
  simp only [deallocate]
  split_ifs with h h' <;> simp_all

end AdminMessageHelper

end ItcPlatform
