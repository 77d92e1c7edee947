import ItcPlatform.SysvTransport.Channel

/-! From the queue to the local transport: what the receive loop makes of a message that was
placed, and what a run hands over of all that was. -/

namespace ItcPlatform.SysvTransport
open Interleaving MessageQueues LossyChannel LittleEndian AdminMessage AdminMessageHelper

def ParseOutcome.forwarded? : ParseOutcome → Option AdminMessage
  | .returned _ forwarded => forwarded
  | .outOfBounds | .nullDereference => none

/-- What one turn of the receive loop gives to the local transport for a message that `send`
framed. -/
def handedOver (localSend : AdminMessage → ReturnCode) (heap : ℕ → Byte)
    (mMaxMsgSize : BitVec 64) (adminMsg : AdminMessage) : Option AdminMessage := do
  let frame ← txFrame adminMsg
  let outcome ← sysvMsgQueueRxTurn localSend heap mMaxMsgSize frame
  outcome.forwarded?

/-- A message that the wire can carry: above the filter of the receive loop, with a length that
an `int32_t` holds and `msgrcv` takes, and whole. -/
structure Transportable (mMaxMsgSize : BitVec 64) (m : AdminMessage) : Prop where
  min_le : 13 ≤ m.size.toNat
  lt : 17 + m.size.toNat < 2 ^ 31
  room : Receives (msgsz mMaxMsgSize) (17 + m.size.toNat)
  endpoint : m.endpoint? = some itcAdminMessageEndpoint

instance (mMaxMsgSize : BitVec 64) (m : AdminMessage) : Decidable (Transportable mMaxMsgSize m) :=
  decidable_of_iff (13 ≤ m.size.toNat ∧ 17 + m.size.toNat < 2 ^ 31 ∧
    Receives (msgsz mMaxMsgSize) (17 + m.size.toNat) ∧
    m.endpoint? = some itcAdminMessageEndpoint)
    ⟨fun ⟨hmin, hlt, hroom, hend⟩ => ⟨hmin, hlt, hroom, hend⟩,
      fun ⟨hmin, hlt, hroom, hend⟩ => ⟨hmin, hlt, hroom, hend⟩⟩

section Message
variable {localSend : AdminMessage → ReturnCode} {heap : ℕ → Byte} {mMaxMsgSize : BitVec 64}
  {m copied : AdminMessage}

theorem length_of_endpoint {endpoint : Byte} (h : m.endpoint? = some endpoint) :
    17 + m.size.toNat ≤ m.bytes.length := by
  obtain ⟨hlt, -⟩ := List.getElem?_eq_some_iff.mp h
  simp only [itcAdminMessagePreambleSize] at hlt
  omega

theorem delivered_of_take (h4 : 4 ≤ m.size.toNat)
    (hcopied : copied.bytes = m.bytes.take (17 + m.size.toNat)) :
    Delivered m (copied.setFlags itcFlagDefault) := by
  have hword (k : Fin 5) : copied.word k = m.word k := by
    rw [word, word, hcopied, load_take (by omega)]
  have hbyte {i : ℕ} (hi : i < 17 + m.size.toNat) : copied.bytes[i]? = m.bytes[i]? := by
    rw [hcopied, List.getElem?_take_of_lt hi]
  have hsize : copied.size = m.size := hword 3
  have hset := delivered_setFlags (m := copied) (hsize ▸ h4)
  refine ⟨hset.sender.trans (hword 0), hset.receiver.trans (hword 1), hset.size.trans hsize,
    hset.msgno.trans (hword 4), hset.payload.trans ?_, hset.endpoint.trans ?_, hset.flags⟩
  · apply List.ext_getElem?
    intro i
    rw [payload, payload, getElem?_drop_take, getElem?_drop_take, hsize]
    split_ifs with hi
    · refine hbyte ?_
      simp only [itcAdminMessagePreambleSize, itcMessageMsgnoSize] at hi ⊢
      omega
    · rfl
  · rw [endpoint?, endpoint?, hsize]
    exact hbyte (by simp only [itcAdminMessagePreambleSize]; omega)

theorem rxWord_txFrame {n : ℕ} (hn : 20 ≤ n) (k : Fin 5) :
    rxWord (encode sizeofLong itcSysvMessageQueueTxMsgno ++ m.bytes.take n) k = m.word k := by
  have h := load_append_right (encode sizeofLong itcSysvMessageQueueTxMsgno) (m.bytes.take n)
    (4 * k) 4
  rw [length_encode] at h
  rw [rxWord, h, load_take (by omega), word]

theorem handedOver_of_transportable (h : Transportable mMaxMsgSize m) :
    ∃ got, handedOver localSend heap mMaxMsgSize m = some got ∧ Delivered m got := by
  obtain ⟨hmin, hlt, hroom, hend⟩ := h
  have hlen := length_of_endpoint hend
  have htext : (textSize m.size).toNat = 17 + m.size.toNat := by
    rw [textSize_toNat]
    omega
  have hframe : txFrame m = some (encode sizeofLong itcSysvMessageQueueTxMsgno ++
      m.bytes.take (17 + m.size.toNat)) := by
    have hpos : ¬ (textSize m.size).slt 0 = true := by
      rw [slt_zero_iff]
      omega
    rw [txFrame, if_neg hpos, htext]
  set frame := encode sizeofLong itcSysvMessageQueueTxMsgno ++
    m.bytes.take (17 + m.size.toNat) with hdef
  have hdrop : frame.drop 8 = m.bytes.take (17 + m.size.toNat) :=
    List.drop_left' (length_encode _ _)
  have hflen : frame.length = 8 + (17 + m.size.toNat) := by
    rw [hdef, List.length_append, length_encode, List.length_take_of_le hlen]
  have hrx : frame.length - sizeofLong = 17 + m.size.toNat := by
    rw [hflen]
    exact Nat.add_sub_cancel_left 8 _
  have hn : (rxWord frame 3).toNat = m.size.toNat := by
    rw [hdef, rxWord_txFrame (by omega)]
    rfl
  have hat : frame[24 + (rxWord frame 3).toNat]? = some 0xAA := by
    have hbyte : (m.bytes.take (17 + m.size.toNat))[16 + m.size.toNat]? = some 0xAA := by
      rw [List.getElem?_take_of_lt (by omega)]
      exact hend
    rw [← hbyte, ← hdrop, List.getElem?_drop, hn]
    congr 1
    omega
  obtain ⟨new, copied, hlaid, hcopied, hparse⟩ :=
    @parse_of_accepted localSend heap frame (by omega) (load_append_left (by decide) _)
      (by omega) hat (by omega)
  have hturn : sysvMsgQueueRxTurn localSend heap mMaxMsgSize frame =
      some (.returned (localSend (copied.setFlags new.flags) = .itcOk)
        (some (copied.setFlags new.flags))) := by
    rw [sysvMsgQueueRxTurn, hrx, if_pos hroom, rxLoopTurn, hrx, if_neg, hparse]
    change ¬ 17 + m.size.toNat ≤ 29
    omega
  refine ⟨copied.setFlags new.flags, ?_, ?_⟩
  · rw [handedOver, hframe, Option.bind_eq_bind, Option.bind_some, hturn]
    rfl
  · rw [hlaid.flags]
    refine delivered_of_take (by omega) ?_
    have hsum : (17 + (rxWord frame 3).toNat) % 2 ^ 32 = 17 + m.size.toNat := by
      rw [hn]
      omega
    rw [hcopied, hsum, hdrop, List.take_take, min_self, store_zero]
    rw [hlaid.length, hn, List.length_take_of_le hlen]

theorem handedOver_eq_none (h : ¬ Transportable mMaxMsgSize m) :
    handedOver localSend heap mMaxMsgSize m = none := by
  unfold handedOver
  cases hframe : txFrame m with
  | none => rfl
  | some frame =>
    obtain ⟨hpos, hdef⟩ := txFrame_eq_some hframe
    have hlen : frame.length - 8 = min (textSize m.size).toNat m.bytes.length := by
      rw [hdef, List.length_append, length_encode, List.length_take]
      exact Nat.add_sub_cancel_left 8 _
    rw [Option.bind_eq_bind, Option.bind_some, sysvMsgQueueRxTurn]
    by_cases hreceives : Receives (msgsz mMaxMsgSize) (frame.length - sizeofLong)
    case neg =>
      rw [if_neg hreceives]
      rfl
    rw [if_pos hreceives, rxLoopTurn]
    by_cases hsmall : frame.length - sizeofLong ≤ sizeofLong + itcAdminMessageMinSize
    case pos =>
      rw [if_pos hsmall]
      rfl
    rw [if_neg hsmall]
    -- no length that wrapped is above the filter
    have hrx : 29 < frame.length - 8 := Nat.lt_of_not_le hsmall
    have hsize := textSize_toNat m.size
    have hlt := m.size.isLt
    have hword : rxWord frame 3 = m.size := by
      rw [hdef, rxWord_txFrame (by omega)]
      rfl
    have hplausible : SizePlausible frame := fun _ => by
      rw [hword]
      exact ⟨.inl (by omega), .inl (by omega)⟩
    have hparsed := (@parsedExactly_iff localSend heap frame hrx).mpr hplausible
    have hnot : ¬ WellFormed frame := fun hwf => by
      have hfits := hwf.fits
      have hend := hwf.endpoint
      rw [hword] at hfits hend
      have hskip : frame.drop 8 = m.bytes.take (textSize m.size).toNat := by
        rw [hdef]
        exact List.drop_left' (length_encode _ _)
      refine h ⟨by omega, by omega, ?_, ?_⟩
      · exact ⟨hreceives.1, (by omega : 17 + m.size.toNat ≤ frame.length - 8).trans hreceives.2⟩
      · have hat : (frame.drop 8)[16 + m.size.toNat]? = some 0xAA := by
          rw [List.getElem?_drop, ← hend]
          congr 1
          omega
        rw [hskip, List.getElem?_take_of_lt (by omega)] at hat
        exact hat
    rw [hparsed.2 hnot]
    rfl

end Message

structure Turn where
  localSend : AdminMessage → ReturnCode
  heap : ℕ → Byte

/-- What the turns, from the `n`-th on, make of the messages read; `none` for a turn that is stopped
between `msgrcv` and its hand-over. Each has `m_rxBuffer` for itself, which two receive threads of
one process would share. -/
def handed (mMaxMsgSize : BitVec 64) (turns : ℕ → Option Turn) :
    ℕ → List AdminMessage → List AdminMessage
  | _, [] => []
  | n, m :: read =>
    ((turns n).bind fun turn => handedOver turn.localSend turn.heap mMaxMsgSize m).toList ++
      handed mMaxMsgSize turns (n + 1) read

def completed (turns : ℕ → Option Turn) : ℕ → List AdminMessage → List AdminMessage
  | _, [] => []
  | n, m :: read =>
    if (turns n).isSome then m :: completed turns (n + 1) read else completed turns (n + 1) read

variable {mMaxMsgSize : BitVec 64} {turns : ℕ → Option Turn}

theorem completed_sublist (n : ℕ) (read : List AdminMessage) :
    (completed turns n read).Sublist read := by
  induction read generalizing n with
  | nil => exact .slnil
  | cons m read ih =>
    rw [completed]
    split
    · exact (ih (n + 1)).cons_cons m
    · exact (ih (n + 1)).cons m

theorem forall₂_handed (n : ℕ) (read : List AdminMessage) :
    List.Forall₂ Delivered ((completed turns n read).filter (Transportable mMaxMsgSize))
      (handed mMaxMsgSize turns n read) := by
  induction read generalizing n with
  | nil => exact .nil
  | cons m read ih =>
    rw [completed, handed]
    cases turns n with
    | none => exact ih (n + 1)
    | some turn =>
      rw [if_pos Option.isSome_some, Option.bind_some]
      by_cases hm : Transportable mMaxMsgSize m
      · obtain ⟨got, hgot, hdelivered⟩ :=
          @handedOver_of_transportable turn.localSend turn.heap mMaxMsgSize m hm
        rw [List.filter_cons_of_pos (by simpa using hm), hgot]
        exact .cons hdelivered (ih (n + 1))
      · rw [List.filter_cons_of_neg (by simpa using hm), handedOver_eq_none hm]
        exact ih (n + 1)

section Run
variable {ι : Type*} [DecidableEq ι] {ftok : BitVec 32 → Key} {regionId : ι → MailboxId}
  {st : State ι (System ι) Process}

/-- Whatever the processes do, what the receive threads of a key hand over are messages that were
placed for the key, each at most once, in their order and with their contents. -/
theorem handed_delivered_sublist
    (h : Run (sysvProcesses ftok regionId) anyStep (noProcesses ι) st) (key : Key) :
    ∃ sent, List.Forall₂ Delivered sent
        (handed mMaxMsgSize turns 0 (readFor ftok regionId key st.shared)) ∧
      sent.Sublist (placedFor ftok key st.shared) := by
  have hchannel := (carrying_noProcesses.reaches True h (fun _ _ _ _ _ => trivial) key).2.sublist
  exact ⟨_, forall₂_handed 0 _, ((List.filter_sublist.trans (completed_sublist 0 _)).trans
    (List.sublist_append_left _ _)).trans hchannel⟩

/-- As long as no queue is removed, every message that the wire can carry was read, once and in
order, or still waits; and of those read the turns that are not stopped hand over all. -/
theorem transportable_handed_or_waiting
    (h : Run (sysvProcesses ftok regionId) (fun st i a => removes (st.locals i) a = false)
      (noProcesses ι) st) (key : Key) :
    (placedFor ftok key st.shared).filter (Transportable mMaxMsgSize) =
        (readFor ftok regionId key st.shared).filter (Transportable mMaxMsgSize) ++
          (st.shared.kernel.pending key).filter (Transportable mMaxMsgSize) ∧
      List.Forall₂ Delivered
        ((completed turns 0 (readFor ftok regionId key st.shared)).filter
          (Transportable mMaxMsgSize))
        (handed mMaxMsgSize turns 0 (readFor ftok regionId key st.shared)) := by
  have hchannel := (carrying_noProcesses.reaches False h (fun _ _ _ hkept hremoved =>
    Bool.false_ne_true (hkept.symm.trans hremoved)) key).2.lossless id
  refine ⟨?_, forall₂_handed 0 _⟩
  rw [← List.filter_append]
  exact congrArg _ hchannel

end Run

def payloadMessage : AdminMessage :=
  ⟨encode 4 0x00100001 ++ encode 4 0x00200001 ++ encode 4 0 ++ encode 4 13 ++ encode 4 7 ++
    List.replicate 9 5 ++ [0xAA], by decide⟩

def waitAndSendTwo : List (Bool × Action) :=
  waitAndSend 2 ++ [(false, .send 1 payloadMessage), (false, .access 1 false 0),
    (false, .access 1 false 0), (true, .access 0 false 0), (true, .access 0 false 0)]

def anyTurn : Turn := ⟨fun _ => .itcOk, fun _ => 0⟩

def anyTurns : ℕ → Option Turn := fun _ => some anyTurn

def firstTurn : ℕ → Option Turn := fun n => if n = 0 then some anyTurn else none

theorem handed_delivered_sublist_waitAndSendTwo : ∃ st, exec (sysvProcesses lowByteFtok
    adjacentRegions) anyStep waitAndSendTwo (noProcesses Bool) = some st ∧
      (handed 8192 anyTurns 0 (readFor lowByteFtok adjacentRegions 2 st.shared)).length = 1 ∧
      ∃ sent, List.Forall₂ Delivered sent
          (handed 8192 anyTurns 0 (readFor lowByteFtok adjacentRegions 2 st.shared)) ∧
        sent.Sublist (placedFor lowByteFtok 2 st.shared) := by
  obtain ⟨st, hexec, hlength⟩ : ∃ st, exec (sysvProcesses lowByteFtok adjacentRegions) anyStep
      waitAndSendTwo (noProcesses Bool) = some st ∧
        (handed 8192 anyTurns 0 (readFor lowByteFtok adjacentRegions 2 st.shared)).length = 1 :=
    ⟨_, rfl, by decide⟩
  exact ⟨st, hexec, hlength, handed_delivered_sublist (exec_run hexec .start) 2⟩

theorem transportable_handed_or_waiting_waitAndSendTwo : ∃ st, exec (sysvProcesses lowByteFtok
    adjacentRegions) (fun st i a => removes (st.locals i) a = false) waitAndSendTwo
      (noProcesses Bool) = some st ∧
      (handed 8192 firstTurn 0 (readFor lowByteFtok adjacentRegions 2 st.shared)).length = 0 ∧
      (placedFor lowByteFtok 2 st.shared).filter (Transportable 8192) =
        (readFor lowByteFtok adjacentRegions 2 st.shared).filter (Transportable 8192) ++
          (st.shared.kernel.pending 2).filter (Transportable 8192) ∧
      List.Forall₂ Delivered
        ((completed firstTurn 0 (readFor lowByteFtok adjacentRegions 2 st.shared)).filter
          (Transportable 8192))
        (handed 8192 firstTurn 0 (readFor lowByteFtok adjacentRegions 2 st.shared)) := by
  obtain ⟨st, hexec, hlength⟩ : ∃ st, exec (sysvProcesses lowByteFtok adjacentRegions)
      (fun st i a => removes (st.locals i) a = false) waitAndSendTwo (noProcesses Bool) =
        some st ∧ (handed 8192 firstTurn 0
          (readFor lowByteFtok adjacentRegions 2 st.shared)).length = 0 :=
    ⟨_, rfl, by decide⟩
  exact ⟨st, hexec, hlength, transportable_handed_or_waiting (exec_run hexec .start) 2⟩

end ItcPlatform.SysvTransport
