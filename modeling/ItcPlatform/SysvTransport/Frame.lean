import ItcPlatform.AdminMessage

/-! The SysV wire: the frame `send` hands to `msgsnd`, the length filter of the receive loop
and the parser that turns a received frame into a message for the local transport. -/

namespace ItcPlatform.SysvTransport
open LittleEndian AdminMessage AdminMessageHelper

abbrev sizeofLong : ℕ := 8

abbrev itcSysvMessageQueueTxMsgno : ℕ := 1

def textSize (size : BitVec 32) : BitVec 32 :=
  BitVec.ofNat 32 itcAdminMessagePreambleSize + size + BitVec.ofNat 32 itcAdminMessageEndpointSize

/-- `txBuffer`, the mtype and the text. The size is an `int32_t`; where it is negative no frame is
made: `new uint8_t[sizeof(long) + size]` throws, or, from -8 on, `memcpy` overruns the block. -/
def txFrame (adminMsg : AdminMessage) : Option (List Byte) :=
  let size := textSize adminMsg.size
  if size.slt 0 then none
  else some (encode sizeofLong itcSysvMessageQueueTxMsgno ++ adminMsg.bytes.take size.toNat)

def msgsz (mMaxMsgSize : BitVec 64) : BitVec 64 := mMaxMsgSize - BitVec.ofNat 64 sizeofLong

/-- `msgrcv` takes no length that is negative as a `long`, and no text that is longer. -/
def Receives (msgsz : BitVec 64) (rxLen : ℕ) : Prop := msgsz.slt 0 = false ∧ rxLen ≤ msgsz.toNat

instance (msgsz : BitVec 64) (rxLen : ℕ) : Decidable (Receives msgsz rxLen) :=
  inferInstanceAs (Decidable (_ ∧ _))

inductive ParseOutcome
  /-- it returned, having allocated and forwarded at most one message -/
  | returned (result : Bool) (forwarded : Option AdminMessage)
  /-- it read past the received length, or wrote past a block -/
  | outOfBounds
  /-- it went on with the null pointer of a refused allocation -/
  | nullDereference

section Parse
variable (localSend : AdminMessage → ReturnCode) (heap : ℕ → Byte)

def rxWord (rxBuffer : List Byte) (k : Fin 5) : BitVec 32 :=
  BitVec.ofNat 32 (load rxBuffer (sizeofLong + 4 * k) 4)

/-- `rxBuffer` holds the `length` bytes received; every read is checked against them. -/
def parseAndForwardMessage (rxBuffer : List Byte) : ParseOutcome :=
  let length := rxBuffer.length
  if length < sizeofLong then .outOfBounds
  else if load rxBuffer 0 sizeofLong ≠ itcSysvMessageQueueTxMsgno then .returned false none
  else if length < sizeofLong + itcAdminMessagePreambleSize then .outOfBounds
  else
    let size := rxWord rxBuffer 3
    if length - sizeofLong < (textSize size).toNat then .returned false none
    else
      match rxBuffer[sizeofLong + itcAdminMessagePreambleSize + size.toNat]? with
      | none => .outOfBounds
      | some endpoint =>
        if endpoint ≠ itcAdminMessageEndpoint then .returned false none
        else if length < sizeofLong + 20 then .outOfBounds
        else
          match allocate heap (rxWord rxBuffer 4) size.toNat with
          | none => .nullDereference
          | some newAdminMsg =>
            let text := (rxBuffer.drop sizeofLong).take (textSize size).toNat
            if h : 0 + text.length ≤ newAdminMsg.bytes.length then
              let copied := (newAdminMsg.write 0 text h).setFlags newAdminMsg.flags
              .returned (localSend copied = .itcOk) (some copied)
            else .outOfBounds

/-- The turn of the receive loop after `msgrcv`, `none` where it drops the frame as too small. -/
def rxLoopTurn (frame : List Byte) : Option ParseOutcome :=
  let rxLen := frame.length - sizeofLong
  if rxLen ≤ sizeofLong + itcAdminMessageMinSize then none
  else some (parseAndForwardMessage localSend heap frame)

def sysvMsgQueueRxTurn (mMaxMsgSize : BitVec 64) (frame : List Byte) : Option ParseOutcome :=
  if Receives (msgsz mMaxMsgSize) (frame.length - sizeofLong) then rxLoopTurn localSend heap frame
  else none

theorem textSize_toNat (size : BitVec 32) : (textSize size).toNat = (17 + size.toNat) % 2 ^ 32 := by
  simp only [textSize, itcAdminMessagePreambleSize, itcAdminMessageEndpointSize, BitVec.toNat_add,
    BitVec.toNat_ofNat]
  omega

variable {localSend heap} {rxBuffer : List Byte}

structure WellFormed (rxBuffer : List Byte) : Prop where
  mtype : load rxBuffer 0 8 = 1
  four_le : 4 ≤ (rxWord rxBuffer 3).toNat
  fits : 16 + (rxWord rxBuffer 3).toNat + 1 ≤ rxBuffer.length - 8
  endpoint : rxBuffer[24 + (rxWord rxBuffer 3).toNat]? = some 0xAA

def ParsedExactly (localSend : AdminMessage → ReturnCode) (heap : ℕ → Byte)
    (rxBuffer : List Byte) : Prop :=
  (WellFormed rxBuffer → ∃ result m,
    parseAndForwardMessage localSend heap rxBuffer = .returned result (some m)) ∧
  (¬ WellFormed rxBuffer →
    parseAndForwardMessage localSend heap rxBuffer = .returned false none)

/-- Where the 32-bit sum does not wrap past the length check, and no size below that of the
message number carries an endpoint byte. -/
def SizePlausible (rxBuffer : List Byte) : Prop :=
  load rxBuffer 0 8 = 1 →
    (17 + (rxWord rxBuffer 3).toNat < 2 ^ 32 ∨
      17 + (rxWord rxBuffer 3).toNat ≤ rxBuffer.length - 8) ∧
    (4 ≤ (rxWord rxBuffer 3).toNat ∨ rxBuffer[24 + (rxWord rxBuffer 3).toNat]? ≠ some 0xAA)

theorem parse_of_mtype_ne (h : 29 < rxBuffer.length - 8) (hm : load rxBuffer 0 8 ≠ 1) :
    parseAndForwardMessage localSend heap rxBuffer = .returned false none := by
  simp only [parseAndForwardMessage, sizeofLong, itcSysvMessageQueueTxMsgno]
  rw [if_neg (by omega), if_pos hm]

theorem parse_of_short (h : 29 < rxBuffer.length - 8) (hm : load rxBuffer 0 8 = 1)
    (hs : rxBuffer.length - 8 < (17 + (rxWord rxBuffer 3).toNat) % 2 ^ 32) :
    parseAndForwardMessage localSend heap rxBuffer = .returned false none := by
  simp only [parseAndForwardMessage, sizeofLong, itcSysvMessageQueueTxMsgno,
    itcAdminMessagePreambleSize, textSize_toNat]
  rw [if_neg (by omega), if_neg (not_not_intro hm), if_neg (by omega), if_pos hs]

section Fits
variable (h : 29 < rxBuffer.length - 8) (hm : load rxBuffer 0 8 = 1)
  (hs : (17 + (rxWord rxBuffer 3).toNat) % 2 ^ 32 ≤ rxBuffer.length - 8)
include h hm hs

theorem parse_of_fits : parseAndForwardMessage localSend heap rxBuffer =
    match rxBuffer[24 + (rxWord rxBuffer 3).toNat]? with
    | none => .outOfBounds
    | some endpoint =>
      if endpoint ≠ itcAdminMessageEndpoint then .returned false none
      else
        match allocate heap (rxWord rxBuffer 4) (rxWord rxBuffer 3).toNat with
        | none => .nullDereference
        | some newAdminMsg =>
          let text := (rxBuffer.drop 8).take ((17 + (rxWord rxBuffer 3).toNat) % 2 ^ 32)
          if h : 0 + text.length ≤ newAdminMsg.bytes.length then
            let copied := (newAdminMsg.write 0 text h).setFlags newAdminMsg.flags
            .returned (localSend copied = .itcOk) (some copied)
          else .outOfBounds := by
  simp only [parseAndForwardMessage, sizeofLong, itcSysvMessageQueueTxMsgno,
    itcAdminMessagePreambleSize, textSize_toNat]
  rw [if_neg (by omega), if_neg (not_not_intro hm), if_neg (by omega), if_neg (by omega)]
  simp only [Nat.reduceAdd, if_neg (show ¬ rxBuffer.length < 28 by omega)]

theorem parse_of_endpoint_ne {endpoint : Byte}
    (he : rxBuffer[24 + (rxWord rxBuffer 3).toNat]? = some endpoint) (hne : endpoint ≠ 0xAA) :
    parseAndForwardMessage localSend heap rxBuffer = .returned false none := by
  rw [parse_of_fits h hm hs, he]
  exact if_pos hne

theorem parse_of_endpoint_outside (he : rxBuffer.length ≤ 24 + (rxWord rxBuffer 3).toNat) :
    parseAndForwardMessage localSend heap rxBuffer = .outOfBounds := by
  rw [parse_of_fits h hm hs, List.getElem?_eq_none he]

theorem parse_of_refused (he : rxBuffer[24 + (rxWord rxBuffer 3).toNat]? = some 0xAA)
    (h4 : (rxWord rxBuffer 3).toNat < 4) :
    parseAndForwardMessage localSend heap rxBuffer = .nullDereference := by
  rw [parse_of_fits h hm hs, he, allocate_eq_none_iff.mpr h4]
  rfl

theorem parse_of_accepted (he : rxBuffer[24 + (rxWord rxBuffer 3).toNat]? = some 0xAA)
    (h4 : 4 ≤ (rxWord rxBuffer 3).toNat) :
    ∃ (m copied : AdminMessage), LaidOut m (rxWord rxBuffer 4) (rxWord rxBuffer 3).toNat ∧
      copied.bytes = store m.bytes 0
        ((rxBuffer.drop 8).take ((17 + (rxWord rxBuffer 3).toNat) % 2 ^ 32)) ∧
      parseAndForwardMessage localSend heap rxBuffer =
        .returned (localSend (copied.setFlags m.flags) = .itcOk)
          (some (copied.setFlags m.flags)) := by
  obtain ⟨m, hm'⟩ : ∃ m, allocate heap (rxWord rxBuffer 4) (rxWord rxBuffer 3).toNat = some m :=
    Option.ne_none_iff_exists'.mp fun hnone => by
      have := allocate_eq_none_iff.mp hnone
      omega
  have hlaid := allocate_laidOut hm'
  have hlen : 0 + ((rxBuffer.drop 8).take ((17 + (rxWord rxBuffer 3).toNat) % 2 ^ 32)).length ≤
      m.bytes.length := by
    rw [hlaid.length, List.length_take]
    omega
  refine ⟨m, m.write 0 _ hlen, hlaid, rfl, ?_⟩
  rw [parse_of_fits h hm hs, he, hm']
  simp only [itcAdminMessageEndpoint, ne_eq, not_true, if_false, dif_pos hlen]

end Fits

/-- The parser accepts exactly the well-formed frames, inside its buffer, exactly where the
size field is plausible. -/
theorem parsedExactly_iff (h : sizeofLong + itcAdminMessageMinSize < rxBuffer.length - sizeofLong) :
    ParsedExactly localSend heap rxBuffer ↔ SizePlausible rxBuffer := by
  change 29 < rxBuffer.length - 8 at h
  have hlt := (rxWord rxBuffer 3).isLt
  by_cases hm : load rxBuffer 0 8 = 1
  swap
  · exact iff_of_true ⟨fun hwf => absurd hwf.mtype hm, fun _ => parse_of_mtype_ne h hm⟩
      fun hm' => absurd hm' hm
  rcases Nat.lt_or_ge (rxBuffer.length - 8) ((17 + (rxWord rxBuffer 3).toNat) % 2 ^ 32) with hs | hs
  · refine iff_of_true ⟨fun hwf => ?_, fun _ => parse_of_short h hm hs⟩ fun _ => ?_
    · have := hwf.fits
      omega
    · constructor <;> omega
  by_cases hout : rxBuffer.length ≤ 24 + (rxWord rxBuffer 3).toNat
  · -- the sum wrapped: the endpoint is looked up past the received bytes
    have hpast : ¬ 17 + (rxWord rxBuffer 3).toNat ≤ rxBuffer.length - 8 := by omega
    refine iff_of_false (fun hp => ?_) fun hp => by have := hp hm; omega
    have hrej := hp.2 fun hwf => hpast (by have := hwf.fits; omega)
    rw [parse_of_endpoint_outside h hm hs hout] at hrej
    cases hrej
  obtain ⟨endpoint, he⟩ : ∃ e, rxBuffer[24 + (rxWord rxBuffer 3).toNat]? = some e :=
    ⟨_, List.getElem?_eq_getElem (by omega)⟩
  by_cases hne : endpoint = 0xAA
  swap
  · refine iff_of_true ⟨fun hwf => ?_, fun _ => parse_of_endpoint_ne h hm hs he hne⟩ fun _ => ?_
    · exact absurd (Option.some.inj (he.symm.trans hwf.endpoint)) hne
    · exact ⟨by omega, .inr (by simpa [he] using hne)⟩
  subst hne
  by_cases h4 : 4 ≤ (rxWord rxBuffer 3).toNat
  · obtain ⟨_, _, _, _, hacc⟩ := @parse_of_accepted localSend heap rxBuffer h hm hs he h4
    exact iff_of_true ⟨fun _ => ⟨_, _, hacc⟩, fun hwf => absurd ⟨hm, h4, by omega, he⟩ hwf⟩
      fun _ => ⟨by omega, .inl h4⟩
  · -- `allocate` refuses and its null result is written through
    refine iff_of_false (fun hp => ?_) fun hp => (hp hm).2.resolve_left h4 he
    have hrej := hp.2 fun hwf => h4 hwf.four_le
    rw [parse_of_refused h hm hs he (by omega)] at hrej
    cases hrej

end Parse

def wrappingFrame : List Byte :=
  encode 8 1 ++ (encode 4 0x00100001 ++ encode 4 0x00100002 ++ encode 4 0 ++ encode 4 0xFFFFFFFF ++
    encode 4 0x12345678 ++ List.replicate 10 0)

/-- The wrapping frame passes the length check and is read far past its end. -/
theorem not_parsedExactly_wrappingFrame :
    sizeofLong + itcAdminMessageMinSize < wrappingFrame.length - sizeofLong ∧
      ¬ ParsedExactly (fun _ => .itcOk) (fun _ => 0) wrappingFrame := by
  refine ⟨by decide, fun h => ?_⟩
  have hrej := h.2 fun hwf => absurd hwf.fits (by decide)
  rw [parse_of_endpoint_outside (by decide) (by decide) (by decide) (by decide)] at hrej
  cases hrej

def shortestFrame : List Byte :=
  encode 8 1 ++ (encode 4 0x00100001 ++ encode 4 0x00100002 ++ encode 4 0 ++ encode 4 13 ++
    encode 4 0x12345678 ++ List.replicate 9 7 ++ [0xAA])

theorem parsedExactly_shortestFrame :
    ParsedExactly (fun _ => .itcOk) (fun _ => 0) shortestFrame :=
  (parsedExactly_iff (by decide)).mpr fun _ => ⟨by decide, .inl (by decide)⟩

section RoundTrip

def sentMessage (heap : ℕ → Byte) (msgno : BitVec 32) (size : ℕ) (sender receiver : MailboxId) :
    Option AdminMessage :=
  (allocate heap msgno size).map fun m => (m.setSender sender).setReceiver receiver

structure Delivered (sent got : AdminMessage) : Prop where
  sender : got.sender = sent.sender
  receiver : got.receiver = sent.receiver
  size : got.size = sent.size
  msgno : got.msgno = sent.msgno
  payload : got.payload = sent.payload
  endpoint : got.endpoint? = sent.endpoint?
  flags : got.flags = itcFlagDefault

/-- Sent and, once `msgrcv` delivers it unchanged as a text of `17 + s` bytes, let through and
forwarded. -/
def RoundTrips (localSend : AdminMessage → ReturnCode) (heap : ℕ → Byte) (sent : AdminMessage)
    (s : ℕ) : Prop :=
  ∃ frame, txFrame sent = some frame ∧ frame.length - sizeofLong = 17 + s ∧
    ∃ result got, rxLoopTurn localSend heap frame = some (.returned result (some got)) ∧
      Delivered sent got

theorem delivered_setFlags {m : AdminMessage} (h : 4 ≤ m.size.toNat) :
    Delivered m (m.setFlags itcFlagDefault) := by
  have hsize : (m.setFlags itcFlagDefault).size = m.size :=
    m.word_setWord_of_ne 2 _ (by decide)
  refine ⟨m.word_setWord_of_ne 2 _ (by decide), m.word_setWord_of_ne 2 _ (by decide), hsize,
    m.word_setWord_of_ne 2 _ (by decide), ?_, ?_, m.word_setWord_self 2 _⟩
  · apply List.ext_getElem?
    intro i
    rw [payload, payload, getElem?_drop_take, getElem?_drop_take, hsize]
    split_ifs
    · exact m.getElem?_setWord 2 _ (Nat.le_add_right 20 i)
    · rfl
  · rw [endpoint?, endpoint?, hsize]
    exact m.getElem?_setWord 2 _ (Nat.add_le_add_left h 16)

theorem slt_zero_iff {x : BitVec 32} : x.slt 0 = true ↔ 2 ^ 31 ≤ x.toNat := by
  have hmsb : x.slt 0#32 = true ↔ x.msb = true := by rw [BitVec.slt_zero_eq_msb]
  refine hmsb.trans (x.msb_eq_true_iff_two_mul_ge.trans ?_)
  omega

theorem txFrame_eq_some {m : AdminMessage} {frame : List Byte} (h : txFrame m = some frame) :
    (textSize m.size).toNat < 2 ^ 31 ∧ frame =
      encode sizeofLong itcSysvMessageQueueTxMsgno ++ m.bytes.take (textSize m.size).toNat := by
  simp only [txFrame] at h
  split_ifs at h with hneg
  rw [slt_zero_iff] at hneg
  exact ⟨by omega, (Option.some.inj h).symm⟩

theorem rxWord_frame (m : AdminMessage) (k : Fin 5) :
    rxWord (encode sizeofLong itcSysvMessageQueueTxMsgno ++ m.bytes) k = m.word k := by
  have h := load_append_right (encode sizeofLong itcSysvMessageQueueTxMsgno) m.bytes (4 * k) 4
  rw [length_encode] at h
  rw [rxWord, h, word]

variable {localSend : AdminMessage → ReturnCode} {heap heap' : ℕ → Byte} {msgno : BitVec 32}
  {s : ℕ} {sender receiver : MailboxId} {sent : AdminMessage}

theorem sentMessage_spec (h : sentMessage heap msgno s sender receiver = some sent) :
    sent.bytes.length = 17 + s ∧ sent.size = BitVec.ofNat 32 s ∧
      sent.bytes[16 + s]? = some 0xAA := by
  obtain ⟨m, hm, rfl⟩ := Option.map_eq_some_iff.mp h
  have h4 : ¬ s < 4 := fun hlt => by simp [allocate_eq_none_iff.mpr hlt] at hm
  have hlaid := allocate_laidOut hm
  refine ⟨by simp [setSender, setReceiver, hlaid.length], ?_, ?_⟩
  · rw [← hlaid.size, AdminMessage.size, setReceiver, word_setWord_of_ne _ _ _ (by decide),
      setSender, word_setWord_of_ne _ _ _ (by decide), AdminMessage.size]
  · rw [← hlaid.endpoint, setReceiver, getElem?_setWord _ _ _ (by omega), setSender,
      getElem?_setWord _ _ _ (by omega)]

/-- The wire round trip works exactly for the sizes that pass the receive loop's filter and
keep the sender's `int32_t` length positive. -/
theorem roundTrips_iff (hsent : sentMessage heap msgno s sender receiver = some sent) :
    RoundTrips localSend heap' sent s ↔ 13 ≤ s ∧ 17 + s < 2 ^ 31 := by
  obtain ⟨hlen, hsize, hend⟩ := sentMessage_spec hsent
  have htext : (textSize sent.size).toNat = (17 + s % 2 ^ 32) % 2 ^ 32 := by
    rw [textSize_toNat, hsize, BitVec.toNat_ofNat]
  constructor
  · rintro ⟨frame, hframe, hflen, result, got, hturn, -⟩
    have hfits : 17 + s < 2 ^ 31 := by
      obtain ⟨hpos, rfl⟩ := txFrame_eq_some hframe
      rw [List.length_append, length_encode, List.length_take] at hflen
      omega
    simp only [rxLoopTurn, hflen] at hturn
    split_ifs at hturn with hdrop
    change ¬ 17 + s ≤ 29 at hdrop
    exact ⟨by omega, hfits⟩
  · rintro ⟨h13, h31⟩
    have hs : (textSize sent.size).toNat = 17 + s := by omega
    have hsize' : sent.size.toNat = s := by rw [hsize, BitVec.toNat_ofNat]; omega
    have hframe : txFrame sent =
        some (encode sizeofLong itcSysvMessageQueueTxMsgno ++ sent.bytes) := by
      have hpos : ¬ (textSize sent.size).slt 0 = true := by
        rw [slt_zero_iff]
        omega
      rw [txFrame, if_neg hpos, hs, ← hlen, List.take_length]
    set frame := encode sizeofLong itcSysvMessageQueueTxMsgno ++ sent.bytes with hdef
    have hflen : frame.length = 8 + (17 + s) := by
      rw [hdef, List.length_append, length_encode, hlen]
    have hword := rxWord_frame sent 3
    have hdrop : frame.drop 8 = sent.bytes := List.drop_left' (length_encode _ _)
    have hn : (rxWord frame 3).toNat = s := by rw [hword]; exact hsize'
    have hsum : (17 + (rxWord frame 3).toNat) % 2 ^ 32 = 17 + s := by rw [hn]; omega
    obtain ⟨m, copied, hlaid, hcopied, hparse⟩ :=
      @parse_of_accepted localSend heap' frame (by omega) (load_append_left (by decide) _)
        (by omega) (by
          rw [hn, ← hend, ← hdrop, List.getElem?_drop]
          congr 1
          omega) (by omega)
    have hsame : copied = sent := by
      ext1
      rw [hcopied, hsum, hdrop, ← hlen, List.take_length, store_zero]
      rw [hlaid.length, hlen, hn]
    have hrx : frame.length - sizeofLong = 17 + s := by
      rw [hflen]
      exact Nat.add_sub_cancel_left 8 _
    refine ⟨frame, hframe, hrx, decide (localSend (copied.setFlags m.flags) = .itcOk),
      copied.setFlags m.flags, ?_, ?_⟩
    · simp only [rxLoopTurn, hrx]
      rw [if_neg, hparse]
      change ¬ 17 + s ≤ 29
      omega
    · rw [hsame, hlaid.flags]
      exact delivered_setFlags (by omega)

end RoundTrip

/-- A request for nothing but its message number, dropped by the filter of the receive loop. -/
theorem not_roundTrips_msgnoOnly : Receives (msgsz 8192) (17 + 4) ∧ ∃ sent,
    sentMessage (fun _ => 0) 0x12345678 4 0x00100001 0x00200001 = some sent ∧
      ¬ RoundTrips (fun _ => .itcOk) (fun _ => 0) sent 4 := by
  refine ⟨by decide, _, rfl, ?_⟩
  rintro ⟨frame, -, hlen, _, _, hturn, -⟩
  rw [rxLoopTurn, hlen, if_pos (by decide)] at hturn
  cases hturn

theorem roundTrips_nineBytePayload : ∃ sent,
    sentMessage (fun _ => 7) 0x12345678 13 0x00100001 0x00200001 = some sent ∧
      RoundTrips (fun _ => .itcOk) (fun _ => 0) sent 13 :=
  ⟨_, rfl, (roundTrips_iff rfl).mpr (by decide)⟩

end ItcPlatform.SysvTransport
