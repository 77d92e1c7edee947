import ItcPlatform.Api.Requests
import ItcPlatform.SysvTransport.Frame

/-! The lengths of a message in `size_t`, `uint32_t` and `int32_t`, against those over the
integers. -/

namespace ItcPlatform.Lengths
open AdminMessageHelper LittleEndian SysvTransport

def blockLength (size : BitVec 64) : BitVec 64 :=
  BitVec.ofNat 64 itcAdminMessagePreambleSize + size + BitVec.ofNat 64 itcAdminMessageEndpointSize

/-- `allocate` of a size that is not too small; `none` where it writes fields outside the block,
since its length wrapped. -/
def allocateBlock (heap : ℕ → Byte) (msgno : BitVec 32) (size : BitVec 64) :
    Option (Option AdminMessage) :=
  if itcMessageMsgnoSize ≤ size.toNat ∧ (blockLength size).toNat < itcAdminMessageMinSize then none
  else some (allocate heap msgno size.toNat)

/-- The argument of `new` in `ItcTransportSysvMsgQueue::send`: the `int32_t` size is widened with
its sign. -/
def txBufferLength (size : BitVec 32) : BitVec 64 :=
  BitVec.ofNat 64 sizeofLong + (textSize size).signExtend 64

abbrev flattenMsgLength (size : BitVec 32) : BitVec 32 := textSize size

def forwardSize (size : BitVec 32) : BitVec 64 :=
  BitVec.ofNat 64 12 + (flattenMsgLength size).setWidth 64

/-- Every length computed for a message that was allocated with a size is the one over the
integers. -/
structure ExactLengths (m : AdminMessage) (size : ℕ) : Prop where
  block : m.bytes.length = 16 + size + 1
  getMsgSize : m.size.toNat = size
  deallocates : deallocate (some m) = true
  text : (textSize m.size).toInt = 17 + size
  txBuffer : (txBufferLength m.size).toNat = 8 + (17 + size)
  flattenMsg : (flattenMsgLength m.size).toNat = 17 + size
  forward : (forwardSize m.size).toNat = 12 + (17 + size)

def Exact (size : BitVec 64) : Prop := ∀ heap msgno, ∃ m,
  allocateBlock heap msgno size = some (some m) ∧ ExactLengths m size.toNat

section Lengths
variable {size : BitVec 64} {n : ℕ} {m : AdminMessage} {heap : ℕ → Byte} {msgno : BitVec 32}

theorem blockLength_toNat : (blockLength size).toNat = (17 + size.toNat) % 2 ^ 64 := by
  simp only [blockLength, itcAdminMessagePreambleSize, itcAdminMessageEndpointSize,
    BitVec.toNat_add, BitVec.toNat_ofNat]
  omega

theorem allocateBlock_eq_none_iff (h : 4 ≤ size.toNat) :
    allocateBlock heap msgno size = none ↔ 2 ^ 64 ≤ 17 + size.toNat := by
  have hsize := size.isLt
  have hmin : (blockLength size).toNat < itcAdminMessageMinSize ↔ 2 ^ 64 ≤ 17 + size.toNat := by
    rw [blockLength_toNat]
    simp only [itcAdminMessageMinSize, itcAdminMessagePreambleSize, itcMessageMsgnoSize,
      itcAdminMessageEndpointSize]
    omega
  rw [← hmin, allocateBlock]
  split_ifs with hwraps
  · exact iff_of_true rfl hwraps.2
  · exact iff_of_false not_false fun hlt => hwraps ⟨h, hlt⟩

theorem getMsgSize_exact_iff (h : LaidOut m msgno n) : m.size.toNat = n ↔ n < 2 ^ 32 := by
  rw [h.size, BitVec.toNat_ofNat]
  omega

theorem flattenMsg_exact_iff (h : LaidOut m msgno n) :
    (flattenMsgLength m.size).toNat = 17 + n ↔ 17 + n < 2 ^ 32 := by
  rw [textSize_toNat, h.size, BitVec.toNat_ofNat]
  omega

theorem forward_exact_iff (h : LaidOut m msgno n) :
    (forwardSize m.size).toNat = 12 + (17 + n) ↔ 17 + n < 2 ^ 32 := by
  have hlt := (flattenMsgLength m.size).isLt
  rw [← flattenMsg_exact_iff h, forwardSize, BitVec.toNat_add, BitVec.toNat_setWidth,
    BitVec.toNat_ofNat]
  omega

theorem text_exact_iff (h : LaidOut m msgno n) :
    (textSize m.size).toInt = 17 + n ↔ 17 + n < 2 ^ 31 := by
  rw [BitVec.toInt_eq_toNat_cond, textSize_toNat, h.size, BitVec.toNat_ofNat]
  split_ifs <;> omega

theorem txBuffer_exact_iff (h : LaidOut m msgno n) (hn : n < 2 ^ 63) :
    (txBufferLength m.size).toNat = 8 + (17 + n) ↔ 17 + n < 2 ^ 31 := by
  have hlt := (textSize m.size).isLt
  rw [txBufferLength, BitVec.toNat_add, BitVec.toNat_signExtend, BitVec.toNat_setWidth,
    BitVec.toNat_ofNat, BitVec.msb_eq_decide, textSize_toNat, h.size, BitVec.toNat_ofNat]
  simp only [decide_eq_true_eq, sizeofLong]
  split_ifs <;> omega

/-- The first length to fail is the `int32_t` one of `send`. -/
theorem exact_iff (size : BitVec 64) (h : 4 ≤ size.toNat) :
    Exact size ↔ size.toNat + 17 < 2 ^ 31 := by
  constructor
  · intro hexact
    obtain ⟨m, hm, hlengths⟩ := hexact (fun _ => 0) 0
    have htext := hlengths.text
    have hlt := (textSize m.size).toInt_lt
    omega
  · intro hlt heap msgno
    have hfits : ¬ 2 ^ 64 ≤ 17 + size.toNat := by omega
    have hblock := (@allocateBlock_eq_none_iff size heap msgno h).not.mpr hfits
    obtain ⟨m, hm⟩ := Option.ne_none_iff_exists'.mp
      (mt allocate_eq_none_iff.mp (Nat.not_lt.mpr h) : allocate heap msgno size.toNat ≠ none)
    have hlaid := allocate_laidOut hm
    refine ⟨m, ?_, ?_⟩
    · rw [allocateBlock] at hblock ⊢
      split_ifs at hblock ⊢
      · exact absurd rfl hblock
      · rw [hm]
    · exact ⟨by rw [hlaid.length]; omega, (getMsgSize_exact_iff hlaid).mpr (by omega),
        Api.Platform.sealed_of_laidOut hlaid (by omega),
        (text_exact_iff hlaid).mpr (by omega),
        (txBuffer_exact_iff hlaid (by omega)).mpr (by omega),
        (flattenMsg_exact_iff hlaid).mpr (by omega), (forward_exact_iff hlaid).mpr (by omega)⟩

theorem exact_iff_msgno : Exact 4 ↔ (4 : BitVec 64).toNat + 17 < 2 ^ 31 :=
  exact_iff 4 (by decide)

/-- A message of 2^31 bytes, whose `int32_t` size is negative. -/
theorem not_exact_two_gib : ¬ ∀ size : BitVec 64, 4 ≤ size.toNat → Exact size := by
  intro h
  obtain ⟨m, -, hlengths⟩ := h (BitVec.ofNat 64 (2 ^ 31 - 17)) (by decide) (fun _ => 0) 0
  have htext := hlengths.text
  have hsize : (BitVec.ofNat 64 (2 ^ 31 - 17)).toNat = 2 ^ 31 - 17 := rfl
  have hlt := (textSize m.size).toInt_lt
  rw [hsize] at htext
  omega

end Lengths

end ItcPlatform.Lengths
