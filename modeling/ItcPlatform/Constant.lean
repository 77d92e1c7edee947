import Mathlib.Data.BitVec

/-! The constants shared by the components, under the names of `itc.h`, `itcConstant.h`,
`itcAdminMessage.h` and `itcSystemProto.h`. -/

namespace ItcPlatform

abbrev MailboxId := BitVec 32

inductive ReturnCode
  | itcUndefined
  | itcOk
  | itcFailed
  deriving DecidableEq

abbrev itcMailboxIdDefault : MailboxId := 0xFFFFFFFF
abbrev itcFlagDefault : BitVec 32 := 0
abbrev itcModeReceiveNonBlocking : BitVec 32 := 1
abbrev itcFlagExternalCommunicationNeeded : BitVec 32 := 1
abbrev itcModeLocateInRegion : BitVec 32 := 0b10
abbrev itcModeLocateInWorld : BitVec 32 := 0b100
abbrev itcModeLocateInUniverse : BitVec 32 := 0b1000
abbrev itcMaskLocate : BitVec 32 := 0x1110
abbrev itcMaskUnitId : BitVec 32 := 0x0000FFFF
abbrev itcMaskRegionId : BitVec 32 := 0xFFF00000
abbrev itcRegionIdShift : ℕ := 20
abbrev itcSystemMessageNumberBase : BitVec 32 := 0x10
abbrev itcSystemMessageNotifyMboxCreationDeletionToItcServerRequest : BitVec 32 :=
  itcSystemMessageNumberBase + 0x1
abbrev itcSystemMessageLocateMboxSyncInItcServerRequest : BitVec 32 :=
  itcSystemMessageNumberBase + 0x3
abbrev itcSystemMessageLocateMboxAsyncInItcServerRequest : BitVec 32 :=
  itcSystemMessageNumberBase + 0x4
abbrev itcSystemMessageLocateMboxInItcServerReply : BitVec 32 := itcSystemMessageNumberBase + 0x5
abbrev itcSystemMessageForwardMessageToItcServerRequest : BitVec 32 :=
  itcSystemMessageNumberBase + 0x6
abbrev itcMaxSupportedRegions : BitVec 32 := 255
abbrev itcMaxSupportedMailboxes : ℕ := 1024
abbrev itcMailboxRxMessageQueueSize : ℕ := 1024
abbrev itcMessageMsgnoSize : ℕ := 4
abbrev itcAdminMessageEndpoint : BitVec 8 := 0xAA
abbrev itcAdminMessageEndpointSize : ℕ := 1
abbrev itcAdminMessagePreambleSize : ℕ := 16
abbrev itcFlagMessageInRxQueue : BitVec 32 := 1

abbrev itcAdminMessageMinSize : ℕ :=
  itcAdminMessagePreambleSize + itcMessageMsgnoSize + itcAdminMessageEndpointSize

theorem and_itcMaskRegionId (mboxId : MailboxId) :
    mboxId &&& itcMaskRegionId = mboxId >>> itcRegionIdShift <<< itcRegionIdShift := by
  have hmask : ∀ j < 32, itcMaskRegionId.getLsbD j = decide (20 ≤ j) := by decide
  apply BitVec.eq_of_getLsbD_eq
  intro j hj
  rw [BitVec.getLsbD_and, hmask j hj, BitVec.getLsbD_shiftLeft, BitVec.getLsbD_ushiftRight]
  by_cases h : 20 ≤ j
  · simp [h, hj]
  · simp [h, Nat.lt_of_not_le h]

end ItcPlatform
