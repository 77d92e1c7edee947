import ItcPlatform.SysvTransport.Frame

/-! The buffer of the receive thread: the maximum message size that it is given, and the length
handed to `msgrcv`. -/

namespace ItcPlatform.SysvTransport

structure MsgInfo where
  msgmax : BitVec 32
  msgmnb : BitVec 32

def MsgInfo.maxMsgSize (info : MsgInfo) : BitVec 32 :=
  if info.msgmnb.slt info.msgmax then info.msgmnb else info.msgmax

structure MaxMessageSize where
  result : BitVec 64
  mMaxMsgSize : BitVec 64
  isInfoRead : Bool

/-- `none` for an `msgctl` that fails. -/
def getMaxMessageSize (mMaxMsgSize : BitVec 64) (msgctl : Option MsgInfo) : MaxMessageSize :=
  if 0 < mMaxMsgSize then ⟨mMaxMsgSize, mMaxMsgSize, false⟩
  else
    match msgctl with
    | none => ⟨0, mMaxMsgSize, true⟩
    | some info =>
      let size := if info.maxMsgSize.slt 0 then 0 else info.maxMsgSize.signExtend 64
      ⟨size, size, true⟩

def newMaxMsgSize : BitVec 64 := -1

/-- The buffer fits the limits of the kernel: it is sized by them, what `msgrcv` may write fits
into it, and every text that `msgsnd` takes is received. -/
structure RxBufferFits (info : MsgInfo) (size : MaxMessageSize) : Prop where
  derived : size.isInfoRead = true
  room : (msgsz size.mMaxMsgSize).toNat + sizeofLong ≤ size.mMaxMsgSize.toNat
  received : ∀ rxLen : ℕ, rxLen ≤ info.msgmax.toInt → rxLen ≤ info.msgmnb.toInt →
    Receives (msgsz size.mMaxMsgSize) rxLen

theorem lt_of_room {mMaxMsgSize : BitVec 64}
    (h : (msgsz mMaxMsgSize).toNat + sizeofLong ≤ mMaxMsgSize.toNat) :
    0 < mMaxMsgSize.toNat ∧ ¬ Receives (msgsz mMaxMsgSize) mMaxMsgSize.toNat := by
  simp only [sizeofLong] at h
  exact ⟨by omega, fun hreceives => by have := hreceives.2; omega⟩

theorem MsgInfo.maxMsgSize_toInt (info : MsgInfo) :
    info.maxMsgSize.toInt = min info.msgmax.toInt info.msgmnb.toInt := by
  rw [MsgInfo.maxMsgSize]
  split_ifs with h
  · rw [BitVec.slt_iff_toInt_lt] at h
    omega
  · rw [BitVec.slt_iff_toInt_lt] at h
    omega

theorem mMaxMsgSize_of_isInfoRead {mMaxMsgSize : BitVec 64} {info : MsgInfo} {isMsgctlOk : Bool}
    {size : MaxMessageSize}
    (hsize : getMaxMessageSize mMaxMsgSize (if isMsgctlOk then some info else none) = size)
    (hread : size.isInfoRead = true) : size.mMaxMsgSize.toNat = 0 ∨
      (size.mMaxMsgSize.toNat : ℤ) ≤ min info.msgmax.toInt info.msgmnb.toInt := by
  subst hsize
  unfold getMaxMessageSize at hread ⊢
  by_cases hpos : 0 < mMaxMsgSize
  · rw [if_pos hpos] at hread
    cases hread
  rw [if_neg hpos]
  cases isMsgctlOk
  · exact .inl (by simpa [BitVec.lt_def] using hpos)
  simp only [if_true]
  split_ifs with hneg
  · exact .inl rfl
  · refine .inr (le_of_eq ?_)
    have hextend : (info.maxMsgSize.signExtend 64).toInt = info.maxMsgSize.toInt :=
      BitVec.toInt_signExtend_of_le (by decide)
    have hmsb : (info.maxMsgSize.signExtend 64).msb = false := by
      rw [BitVec.msb_eq_toInt, hextend]
      simpa [BitVec.slt_iff_toInt_lt] using hneg
    rw [← MsgInfo.maxMsgSize_toInt, ← hextend, BitVec.toInt_eq_toNat_of_msb hmsb]

/-- No value that the maximum size could start with makes the buffer fit. -/
theorem not_rxBufferFits (mMaxMsgSize : BitVec 64) (info : MsgInfo) (isMsgctlOk : Bool) :
    ¬ RxBufferFits info
      (getMaxMessageSize mMaxMsgSize (if isMsgctlOk then some info else none)) := by
  intro hfits
  obtain ⟨hpos, hrefused⟩ := lt_of_room hfits.room
  rcases mMaxMsgSize_of_isInfoRead rfl hfits.derived with hzero | hle
  · omega
  · exact hrefused (hfits.received _ (hle.trans (min_le_left _ _)) (hle.trans (min_le_right _ _)))

/-- A new transport under the default limits of the kernel never asks for them, and has no
length that `msgrcv` takes. -/
theorem not_rxBufferFits_newMaxMsgSize :
    (getMaxMessageSize newMaxMsgSize (some ⟨8192, 16384⟩)).isInfoRead = false ∧
      (∀ rxLen, ¬ Receives (msgsz newMaxMsgSize) rxLen) ∧
      ¬ RxBufferFits ⟨8192, 16384⟩ (getMaxMessageSize newMaxMsgSize (some ⟨8192, 16384⟩)) :=
  ⟨by decide, fun _ hreceives => absurd hreceives.1 (by decide),
    fun hfits => absurd hfits.derived (by decide)⟩

end ItcPlatform.SysvTransport
