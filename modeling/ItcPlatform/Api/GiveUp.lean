import ItcPlatform.Api.Platform

/-! Who gives up the messages the platform makes itself. A transport that takes a message over
ends the caller's duty; one that refuses it leaves the message to the caller. -/

namespace ItcPlatform.Api.Platform
open AdminMessageHelper LittleEndian
variable {env : Env} {p p' : Platform} {req : AdminMessage} {msg : ℕ}

abbrev Sealed (req : AdminMessage) : Prop := deallocate (some req) = true

section Requests

theorem laidOut_put {m : AdminMessage} {msgno : BitVec 32} {n off : ℕ} {bs : List Byte}
    (h : LaidOut m msgno n) (hoff : 4 ≤ off) (hlen : off + bs.length ≤ n) :
    LaidOut (put m off bs) msgno n := by
  have hlength := h.length
  have hin : itcAdminMessagePreambleSize + off + bs.length ≤ m.bytes.length := by
    simp only [itcAdminMessagePreambleSize]
    omega
  have hword : ∀ k, (put m off bs).word k = m.word k := fun k => by
    rw [put, dif_pos hin, AdminMessage.word_write]
    simp only [itcAdminMessagePreambleSize]
    omega
  refine ⟨?_, (hword 0).trans h.sender, (hword 1).trans h.receiver, (hword 2).trans h.flags,
    (hword 3).trans h.size, (hword 4).trans h.msgno, ?_⟩
  · rw [put, dif_pos hin, AdminMessage.length_write, hlength]
  · rw [put, dif_pos hin, AdminMessage.write, getElem?_store hin, if_neg, h.endpoint]
    simp only [itcAdminMessagePreambleSize]
    omega

theorem laidOut_allocated (heap : ℕ → Byte) (msgno : BitVec 32) {size : ℕ} (h : 4 ≤ size) :
    LaidOut (allocated heap msgno size h) msgno size := allocate_laidOut (Option.some_get _).symm

theorem laidOut_putWord {m : AdminMessage} {msgno : BitVec 32} {n : ℕ} (h : LaidOut m msgno n)
    (off : ℕ) (v : BitVec 32) (hoff : 4 ≤ off) (hlen : off + 4 ≤ n) :
    LaidOut (putWord m off v) msgno n :=
  laidOut_put h hoff (by rwa [length_encode])

theorem laidOut_cStrcpy {m : AdminMessage} {msgno : BitVec 32} {off : ℕ} (name : Name)
    (h : LaidOut m msgno (off + name.length + 1)) (hoff : 4 ≤ off) :
    LaidOut (cStrcpy m off name) msgno (off + name.length + 1) := by
  have hle : (name.takeWhile (· ≠ 0)).length ≤ name.length := (List.takeWhile_sublist _).length_le
  refine laidOut_put h hoff ?_
  rw [List.length_append, List.length_singleton]
  omega

theorem laidOut_notifyRequest (heap : ℕ → Byte) (isCreation : BitVec 32) (mboxId : MailboxId)
    (isExternalCommunicationNeeded : Option (BitVec 32)) (mboxName : Name) :
    LaidOut (notifyRequest heap isCreation mboxId isExternalCommunicationNeeded mboxName)
      itcSystemMessageNotifyMboxCreationDeletionToItcServerRequest (16 + mboxName.length + 1) := by
  have halloc := laidOut_allocated heap itcSystemMessageNotifyMboxCreationDeletionToItcServerRequest
    (show 4 ≤ 16 + mboxName.length + 1 by omega)
  have hcreation := laidOut_putWord halloc 4 isCreation (by decide) (by omega)
  have hid := laidOut_putWord hcreation 8 mboxId (by decide) (by omega)
  refine laidOut_cStrcpy mboxName ?_ (by decide)
  cases isExternalCommunicationNeeded with
  | none =>
    rw [Option.elim_none]
    exact hid
  | some v =>
    rw [Option.elim_some]
    exact laidOut_putWord hid 12 v (by decide) (by omega)

theorem laidOut_locateAsyncRequest (heap : ℕ → Byte) (mode : BitVec 32) (mboxName : Name)
    (mailboxId : Option MailboxId) :
    LaidOut (locateAsyncRequest heap mode mboxName mailboxId)
      itcSystemMessageLocateMboxAsyncInItcServerRequest (16 + mboxName.length + 1) := by
  have halloc := laidOut_allocated heap itcSystemMessageLocateMboxAsyncInItcServerRequest
    (show 4 ≤ 16 + mboxName.length + 1 by omega)
  have hmode := laidOut_putWord halloc 4 mode (by decide) (by omega)
  have hname := laidOut_cStrcpy mboxName hmode (by decide)
  cases mailboxId with
  | none => exact hname
  | some v =>
    have himmediately := laidOut_putWord hname 8 1 (by decide) (by omega)
    exact laidOut_putWord himmediately 12 v (by decide) (by omega)

theorem sealed_of_laidOut {m : AdminMessage} {msgno : BitVec 32} {n : ℕ} (h : LaidOut m msgno n)
    (hn : n < 2 ^ 32) : Sealed m := by
  rw [Sealed, deallocate_eq_true_iff, h.flags, AdminMessage.endpoint?, h.size, BitVec.toNat_ofNat,
    Nat.mod_eq_of_lt hn]
  exact ⟨rfl, h.endpoint⟩

end Requests

section Heap

def Sends (env : Env) (p : Platform) : Prop :=
  p.mIsInitialised = true ∧ ∃ my ∈ p.mMyMailbox, p.mItcServerMboxId ≠ my.mailboxId ∧
    env.taken (p.transport p.mItcServerMboxId) = true

structure Sent (env : Env) (p : Platform) (msg : ℕ) (p' : Platform) (rc : ReturnCode) : Prop where
  next : p'.next = p.next
  others : ∀ m ≠ msg, p'.memory m = p.memory m
  sealed : Sealed (p'.memory msg).adminMsg ↔ Sealed (p.memory msg).adminMsg
  taken : p.Sends env → rc = .itcOk ∧
    (p'.memory msg).givenUp = (p.memory msg).givenUp ++ [.handedOver]
  refused : ¬ p.Sends env → rc = .itcFailed ∧ (p'.memory msg).givenUp = (p.memory msg).givenUp

theorem sealed_addressed {m : AdminMessage} {r s : MailboxId} :
    Sealed ((m.setReceiver r).setSender s) ↔ Sealed m := by
  have hword : ∀ k : Fin 5, 2 ≤ k →
      ((m.setWord 1 r).setWord 0 s).word k = m.word k := fun k hk => by
    rw [AdminMessage.word_setWord_of_ne _ _ _ (by rintro rfl; exact absurd hk (by decide)),
      AdminMessage.word_setWord_of_ne _ _ _ (by rintro rfl; exact absurd hk (by decide))]
  have hendpoint : ((m.setWord 1 r).setWord 0 s).endpoint? = m.endpoint? := by
    rw [AdminMessage.endpoint?, AdminMessage.size, hword 3 (by decide),
      AdminMessage.getElem?_setWord_of_le _ _ _ (le_add_right (by decide)),
      AdminMessage.getElem?_setWord_of_le _ _ _ (le_add_right (by decide))]
    rfl
  rw [Sealed, Sealed, deallocate_eq_true_iff, deallocate_eq_true_iff, AdminMessage.flags,
    AdminMessage.setReceiver, AdminMessage.setSender, hword 2 (by decide), hendpoint]
  rfl

theorem sent (env : Env) (p : Platform) (msg : ℕ) :
    Sent env p msg (p.send env msg ⟨p.mItcServerMboxId, 0⟩).1
      (p.send env msg ⟨p.mItcServerMboxId, 0⟩).2 := by
  unfold send sendWith
  split
  · rename_i hinit
    exact ⟨rfl, fun _ _ => rfl, Iff.rfl, fun h => absurd h.1 (by simp [hinit]), fun _ => ⟨rfl, rfl⟩⟩
  · rename_i hinit
    split
    · rename_i hmy
      refine ⟨rfl, fun _ _ => rfl, Iff.rfl, fun h => ?_, fun _ => ⟨rfl, rfl⟩⟩
      obtain ⟨-, my, hmem, -⟩ := h
      rw [hmy] at hmem
      cases hmem
    · rename_i my hmy
      have hsends : p.Sends env ↔ p.mItcServerMboxId ≠ my.mailboxId ∧
          env.taken (p.transport p.mItcServerMboxId) = true := by
        simp [Sends, hmy, hinit]
      split_ifs with hown hworld
      · exact ⟨rfl, fun _ _ => rfl, Iff.rfl, fun h => absurd hown.1 (hsends.mp h).1,
          fun _ => ⟨rfl, rfl⟩⟩
      · exact absurd rfl hworld
      · have hneither : p.mItcServerMboxId ≠ my.mailboxId := fun h => hown ⟨h, rfl⟩
        unfold transportSend
        dsimp only
        split_ifs with htaken
        · refine ⟨rfl, fun m hm => ?_, ?_, fun _ => ⟨rfl, ?_⟩, fun h => ?_⟩
          · simp [giveUp, address, hm]
          · simpa [giveUp, address] using sealed_addressed
          · simp [giveUp, address]
          · exact absurd (hsends.mpr ⟨hneither, htaken⟩) h
        · refine ⟨rfl, fun m hm => ?_, ?_, fun h => ?_, fun _ => ⟨rfl, ?_⟩⟩
          · simp [address, hm]
          · simpa [address] using sealed_addressed
          · exact absurd (hsends.mp h).2 htaken
          · simp [address]

theorem deallocateMessage_next : (p.deallocateMessage msg).1.next = p.next := by
  unfold deallocateMessage
  split_ifs <;> rfl

theorem deallocateMessage_others {m : ℕ} (h : m ≠ msg) :
    (p.deallocateMessage msg).1.memory m = p.memory m := by
  unfold deallocateMessage
  split_ifs
  · exact Function.update_of_ne h _ _
  · rfl

theorem deallocateMessage_givenUp :
    ((p.deallocateMessage msg).1.memory msg).givenUp =
      if (p.memory msg).givenUp ≠ [] ∨ Sealed (p.memory msg).adminMsg then
        (p.memory msg).givenUp ++ [.deallocated]
      else (p.memory msg).givenUp := by
  unfold deallocateMessage
  split_ifs
  · simp [giveUp]
  · rfl

end Heap

section Settled

/-- Every message allocated from `p` to `p'` was given up once, one way or the other. -/
def Settled (p p' : Platform) : Prop := ∀ req, p.next ≤ req → req < p'.next →
  (p'.memory req).givenUp = [.handedOver] ∨ (p'.memory req).givenUp = [.deallocated]

theorem settled_of_next (h : p'.next = p.next) : Settled p p' := fun req hle hlt => by omega

theorem settled_congr {p'' : Platform} (hnext : p'.next = p''.next)
    (hmemory : p'.memory = p''.memory) : Settled p p' ↔ Settled p p'' := by
  rw [Settled, Settled, hnext, hmemory]

theorem settled_iff_of_next (h : p'.next = p.next + 1) : Settled p p' ↔
    (p'.memory p.next).givenUp = [.handedOver] ∨ (p'.memory p.next).givenUp = [.deallocated] := by
  refine ⟨fun hs => hs p.next le_rfl (by omega), fun hone req hle hlt => ?_⟩
  obtain rfl : req = p.next := by omega
  exact hone

end Settled

section Duty
variable (env p req)

def requested : Platform × ReturnCode :=
  (p.allocateMessage req).1.send env p.next ⟨p.mItcServerMboxId, 0⟩

theorem requested_next : (requested env p req).1.next = p.next + 1 :=
  (sent env (p.allocateMessage req).1 p.next).next

variable {env p}

theorem requested_taken (h : p.Sends env) : (requested env p req).2 = .itcOk ∧
    ((requested env p req).1.memory p.next).givenUp = [.handedOver] := by
  obtain ⟨hrc, hgiven⟩ := (sent env (p.allocateMessage req).1 p.next).taken h
  refine ⟨hrc, hgiven.trans ?_⟩
  simp [allocateMessage]

theorem requested_refused (h : ¬ p.Sends env) : (requested env p req).2 = .itcFailed ∧
    ((requested env p req).1.memory p.next).givenUp = [] := by
  obtain ⟨hrc, hgiven⟩ := (sent env (p.allocateMessage req).1 p.next).refused h
  refine ⟨hrc, hgiven.trans ?_⟩
  simp [allocateMessage]

theorem requested_sealed :
    Sealed ((requested env p req).1.memory p.next).adminMsg ↔ Sealed req := by
  refine (sent env (p.allocateMessage req).1 p.next).sealed.trans ?_
  simp [allocateMessage]

theorem settled_deallocate_of_refused (h : ¬ p.Sends env) :
    Settled p ((requested env p req).1.deallocateMessage p.next).1 ↔ Sealed req := by
  have hgiven := (requested_refused req h).2
  rw [settled_iff_of_next (deallocateMessage_next.trans (requested_next env p req)),
    deallocateMessage_givenUp]
  by_cases hseal : Sealed req
  · rw [if_pos (.inr ((requested_sealed req).mpr hseal)), hgiven]
    exact ⟨fun _ => hseal, fun _ => .inr rfl⟩
  · rw [if_neg (not_or.mpr ⟨not_not.mpr hgiven, mt (requested_sealed req).mp hseal⟩), hgiven]
    exact ⟨nofun, fun h => absurd h hseal⟩

theorem settled_deallocate_refused : Settled p (if (requested env p req).2 ≠ .itcOk then
    ((requested env p req).1.deallocateMessage p.next).1 else (requested env p req).1) ↔
      p.Sends env ∨ Sealed req := by
  by_cases h : p.Sends env
  · obtain ⟨hrc, hgiven⟩ := requested_taken req h
    rw [if_neg (not_not.mpr hrc), settled_iff_of_next (requested_next env p req)]
    exact ⟨fun _ => .inl h, fun _ => .inl hgiven⟩
  · rw [if_pos (by rw [(requested_refused req h).1]; decide), settled_deallocate_of_refused req h]
    exact ⟨.inr, fun hor => hor.resolve_left h⟩

theorem settled_deallocate_always :
    Settled p ((requested env p req).1.deallocateMessage p.next).1 ↔
      ¬ p.Sends env ∧ Sealed req := by
  -- the caller deallocates in any case: a request that was taken over is given up twice
  by_cases h : p.Sends env
  · rw [settled_iff_of_next (deallocateMessage_next.trans (requested_next env p req)),
      deallocateMessage_givenUp]
    simp [(requested_taken req h).2, h]
  · rw [settled_deallocate_of_refused req h]
    exact ⟨fun hseal => ⟨h, hseal⟩, And.right⟩

theorem settled_deallocate_other (hmsg : msg < p.next) :
    Settled p ((requested env p req).1.deallocateMessage msg).1 ↔ p.Sends env := by
  -- the caller deallocates another message: a request that was refused is never given up
  rw [settled_iff_of_next (deallocateMessage_next.trans (requested_next env p req)),
    deallocateMessage_others (by omega)]
  by_cases h : p.Sends env
  · simp [(requested_taken req h).2, h]
  · simp [(requested_refused req h).2, h]

end Duty

section Calls

variable (p) in
/-- The calls that make a message of their own; `forwardMessageToItcServer` has one to forward. -/
inductive Call
  | createMailbox (name : Name) (flags : BitVec 32)
  | deleteMailbox (mboxId : MailboxId)
  | locateMailboxSync (mboxName : Name) (mode : BitVec 32)
  | locateMailboxAsync (mboxName : Name) (mode : BitVec 32)
  | forwardMessageToItcServer (adminMsg : Fin p.next) (toWorldId : BitVec 32)

structure Announces (env : Env) (p : Platform) (name : Name) (flags index : BitVec 32) : Prop where
  initialised : p.mIsInitialised = true
  new : p.mMyMailbox = none
  emplaced : env.emplace name flags = some index
  keyed : env.setSpecific = 0
  notifies : p.notifies = true

structure Withdraws (p : Platform) (mboxId : MailboxId) (my : Mailbox) : Prop where
  initialised : p.mIsInitialised = true
  mine : p.mMyMailbox = some my
  named : mboxId = my.mailboxId
  notifies : p.notifies = true

theorem createMailbox_of_announces {name : Name} {flags index : BitVec 32}
    (h : Announces env p name flags index) : (p.createMailbox env name flags).1 =
      let r := requested env { p with mMyMailbox := some (p.emplaced env index) }
        (creationRequest env (p.emplaced env index) name flags)
      if r.2 ≠ .itcOk then (r.1.deallocateMessage p.next).1 else r.1 := by
  have hnotifies : notifies { p with mMyMailbox := some (p.emplaced env index) } = true :=
    h.notifies
  unfold createMailbox
  rw [if_neg (by simp [h.initialised])]
  split
  · rename_i hmine
    exact absurd (hmine.symm.trans h.new) (Option.some_ne_none _)
  · split
    · rename_i hfull
      exact absurd (hfull.symm.trans h.emplaced) nofun
    · rename_i index' hindex
      obtain rfl : index' = index := Option.some.inj (hindex.symm.trans h.emplaced)
      dsimp only
      rw [if_neg (not_not.mpr h.keyed), if_pos hnotifies, apply_ite Prod.fst]
      rfl

theorem createMailbox_next {name : Name} {flags : BitVec 32}
    (h : ¬ ∃ index, Announces env p name flags index) :
    (p.createMailbox env name flags).1.next = p.next := by
  unfold createMailbox
  split
  · rfl
  · rename_i hinit
    split
    · rfl
    · rename_i hnew
      split
      · rfl
      · rename_i index hemplaced
        dsimp only
        split_ifs with hkeyed hnotifies
        all_goals first | rfl | skip
        all_goals exact (h ⟨index, by simpa using hinit, hnew, hemplaced, not_not.mp hkeyed,
          hnotifies⟩).elim

theorem deleteMailbox_of_withdraws (env : Env) {mboxId : MailboxId} {my : Mailbox}
    (h : Withdraws p mboxId my) :
    ∃ r ∈ p.deleteMailbox env mboxId,
      let r' := requested env { p with mMyMailbox := some (env.remove my) }
        (deletionRequest env (env.remove my) my.name)
      let p' := if r'.2 ≠ .itcOk then (r'.1.deallocateMessage p.next).1 else r'.1
      r.1.next = p'.next ∧ r.1.memory = p'.memory := by
  have hnotifies : notifies { p with mMyMailbox := some (env.remove my) } = true := h.notifies
  unfold deleteMailbox
  rw [if_neg (by simp [h.initialised]), h.mine]
  refine ⟨_, rfl, ?_⟩
  dsimp only
  rw [if_neg (not_not.mpr h.named), if_pos hnotifies, apply_ite Prod.fst]
  change (if (requested env _ _).2 ≠ .itcOk then _ else _ : Platform).next = _ ∧
    (if (requested env _ _).2 ≠ .itcOk then _ else _ : Platform).memory = _
  split_ifs <;> exact ⟨rfl, rfl⟩

theorem deleteMailbox_next (env : Env) {mboxId : MailboxId}
    (hmy : p.mIsInitialised = true → p.mMyMailbox ≠ none)
    (h : ¬ ∃ my, Withdraws p mboxId my) :
    ∃ r ∈ p.deleteMailbox env mboxId, r.1.next = p.next := by
  unfold deleteMailbox
  split_ifs with hinit
  · exact ⟨_, rfl, rfl⟩
  · have hinit' : p.mIsInitialised = true := by simpa using hinit
    obtain ⟨my, hmine⟩ := Option.ne_none_iff_exists'.mp (hmy hinit')
    rw [hmine]
    refine ⟨_, rfl, ?_⟩
    dsimp only
    split_ifs with hnamed hnotifies
    all_goals first | rfl | skip
    all_goals exact (h ⟨my, hinit', hmine, not_not.mp hnamed, hnotifies⟩).elim

/-- `ITC_MASK_LOCATE`, written in hexadecimal, has none of the bits of the modes. -/
theorem locateMode_eq_zero (mode : BitVec 32) :
    mode &&& itcMaskLocate &&& itcModeLocateInWorld = 0 ∧
      mode &&& itcMaskLocate &&& itcModeLocateInUniverse = 0 := by
  constructor <;> rw [BitVec.and_assoc] <;> exact BitVec.and_zero

theorem locateMailboxSync_fst (mboxName : Name) (mode : BitVec 32) :
    (p.locateMailboxSync env mboxName mode).1 = p := by
  unfold locateMailboxSync
  split_ifs with hidle
  · rfl
  · dsimp only
    split
    · rfl
    · rw [if_pos (locateMode_eq_zero mode)]

theorem locateMailboxAsync_fst {mboxName : Name} {mode : BitVec 32} :
    (p.locateMailboxAsync env mboxName mode).1 =
      if p.mIsInitialised = false ∨ p.mMyMailbox.isNone then p
      else ((requested env p (locateAsyncRequest env.heap (mode &&& itcMaskLocate) mboxName
        (env.idOf mboxName))).1.deallocateMessage p.next).1 := by
  unfold locateMailboxAsync
  split_ifs <;> rfl

/-- The duty of a call: to give up once what it allocates, and to leave alone what it fails to
forward. -/
def Dutiful (env : Env) : Call p → Prop
  | .createMailbox name flags => Settled p (p.createMailbox env name flags).1
  | .deleteMailbox mboxId => ∃ r ∈ p.deleteMailbox env mboxId, Settled p r.1
  | .locateMailboxSync mboxName mode => Settled p (p.locateMailboxSync env mboxName mode).1
  | .locateMailboxAsync mboxName mode => Settled p (p.locateMailboxAsync env mboxName mode).1
  | .forwardMessageToItcServer adminMsg toWorldId =>
    let r := p.forwardMessageToItcServer env adminMsg toWorldId
    Settled p r.1 ∧ (r.2 = .itcFailed → .deallocated ∉ (r.1.memory adminMsg).givenUp)

/-- The sends that suit a call: `createMailbox` and `deleteMailbox` cope with either outcome as
far as a refused request can be deallocated, `locateMailboxAsync` with a refusal and
`forwardMessageToItcServer` with a message taken over; `locateMailboxSync` sends nothing. -/
def Suits (env : Env) : Call p → Prop
  | .createMailbox name flags => ∀ index, Announces env p name flags index →
    Sends env { p with mMyMailbox := some (p.emplaced env index) } ∨
      Sealed (creationRequest env (p.emplaced env index) name flags)
  | .deleteMailbox mboxId => (p.mIsInitialised = true → p.mMyMailbox ≠ none) ∧
    ∀ my, Withdraws p mboxId my → Sends env { p with mMyMailbox := some (env.remove my) } ∨
      Sealed (deletionRequest env (env.remove my) my.name)
  | .locateMailboxSync _ _ => True
  | .locateMailboxAsync mboxName mode => ¬ (p.mIsInitialised = false ∨ p.mMyMailbox.isNone) →
    ¬ p.Sends env ∧
      Sealed (locateAsyncRequest env.heap (mode &&& itcMaskLocate) mboxName (env.idOf mboxName))
  | .forwardMessageToItcServer _ _ => p.Sends env

/-- A call does its duty exactly when the outcome of its send suits it. -/
theorem dutiful_iff (env : Env) (p : Platform) (call : Call p) :
    Dutiful env call ↔ Suits env call := by
  cases call with
  | createMailbox name flags =>
    by_cases h : ∃ index, Announces env p name flags index
    · obtain ⟨index, hindex⟩ := h
      have hsettled := @settled_deallocate_refused env
        { p with mMyMailbox := some (p.emplaced env index) }
        (creationRequest env (p.emplaced env index) name flags)
      rw [Dutiful, createMailbox_of_announces hindex]
      refine hsettled.trans ⟨fun hor index' hindex' => ?_, fun hall => hall index hindex⟩
      obtain rfl : index = index' := Option.some.inj (hindex.emplaced.symm.trans hindex'.emplaced)
      exact hor
    · exact ⟨fun _ index hindex => (h ⟨index, hindex⟩).elim,
        fun _ => settled_of_next (createMailbox_next h)⟩
  | deleteMailbox mboxId =>
    by_cases h : ∃ my, Withdraws p mboxId my
    · obtain ⟨my, hmy⟩ := h
      have hsettled := @settled_deallocate_refused env
        { p with mMyMailbox := some (env.remove my) }
        (deletionRequest env (env.remove my) my.name)
      obtain ⟨r, hr, hnext, hmemory⟩ := deleteMailbox_of_withdraws env hmy
      have hiff : Settled p r.1 ↔ _ := settled_congr hnext hmemory
      constructor
      · rintro ⟨r', hr', hduty⟩
        obtain rfl : r = r' := Option.some.inj (hr.symm.trans hr')
        refine ⟨fun _ => by rw [hmy.mine]; exact Option.some_ne_none _, fun my' hmy' => ?_⟩
        obtain rfl : my = my' := Option.some.inj (hmy.mine.symm.trans hmy'.mine)
        exact hsettled.mp (hiff.mp hduty)
      · exact fun hall => ⟨r, hr, hiff.mpr (hsettled.mpr (hall.2 my hmy))⟩
    · constructor
      · rintro ⟨r, hr, -⟩
        refine ⟨fun hinit hnone => ?_, fun my hmy => (h ⟨my, hmy⟩).elim⟩
        simp [deleteMailbox, hinit, hnone] at hr
      · intro hall
        obtain ⟨r, hr, hnext⟩ := deleteMailbox_next env hall.1 h
        exact ⟨r, hr, settled_of_next hnext⟩
  | locateMailboxSync mboxName mode =>
    rw [Dutiful, locateMailboxSync_fst]
    exact ⟨fun _ => trivial, fun _ => settled_of_next rfl⟩
  | locateMailboxAsync mboxName mode =>
    rw [Dutiful, locateMailboxAsync_fst, Suits]
    split_ifs with hidle
    · exact ⟨fun _ h => (h hidle).elim, fun _ => settled_of_next rfl⟩
    · rw [settled_deallocate_always]
      exact ⟨fun h _ => h, fun h => h hidle⟩
  | forwardMessageToItcServer adminMsg toWorldId =>
    rw [Dutiful, forwardMessageToItcServer_eq, Suits]
    let req := forwardRequest env.heap toWorldId (p.memory adminMsg).adminMsg
    have hsettled : Settled p _ ↔ p.Sends env := settled_deallocate_other req adminMsg.isLt
    refine ⟨fun h => hsettled.mp h.1, fun h => ⟨hsettled.mpr h, fun hrc => ?_⟩⟩
    exact absurd ((requested_taken req h).1.symm.trans hrc) (by decide)

theorem suits_createMailbox {name : Name} (h : 16 + name.length + 1 < 2 ^ 32) (flags : BitVec 32) :
    Suits env (.createMailbox name flags : Call p) :=
  fun _ _ => .inr (sealed_of_laidOut (laidOut_notifyRequest _ _ _ _ name) h)

theorem suits_deleteMailbox {my : Mailbox} (h : 16 + my.name.length + 1 < 2 ^ 32)
    (hmy : p.mMyMailbox = some my) (mboxId : MailboxId) :
    Suits env (.deleteMailbox mboxId : Call p) := by
  refine ⟨fun _ => by rw [hmy]; exact Option.some_ne_none _, fun my' hmy' => .inr ?_⟩
  obtain rfl : my = my' := Option.some.inj (hmy.symm.trans hmy'.mine)
  exact sealed_of_laidOut (laidOut_notifyRequest _ _ _ _ my.name) h

theorem suits_locateMailboxAsync_iff {mboxName : Name} (h : 16 + mboxName.length + 1 < 2 ^ 32)
    (hactive : ¬ (p.mIsInitialised = false ∨ p.mMyMailbox.isNone)) (mode : BitVec 32) :
    Suits env (.locateMailboxAsync mboxName mode : Call p) ↔ ¬ p.Sends env :=
  ⟨fun hs => (hs hactive).1, fun hs _ =>
    ⟨hs, sealed_of_laidOut (laidOut_locateAsyncRequest _ _ mboxName _) h⟩⟩

def caller : Platform :=
  { mRegionId := 0x00300000, mItcServerMboxId := 0x00100001, mIsInitialised := true,
    mMyMailbox := some ⟨0x00300000, []⟩,
    memory := fun _ => ⟨allocated (fun _ => 0) 0x500 4 (by decide), []⟩, next := 1 }

def answering (taken : Bool) : Env :=
  { heap := fun _ => 0, emplace := fun _ _ => none, hasValueAt := fun _ => false,
    data := fun _ => ⟨0, []⟩, remove := id, idOf := fun _ => none, setSpecific := 0,
    taken := fun _ => taken, received := fun _ => none, itcMaskTimeout := 0 }

/-- A request to locate that was taken over is given up twice; a forward that is refused leaks its
request and frees the message of the user. -/
theorem not_dutiful :
    ((caller.locateMailboxAsync (answering true) [] 0).1.memory 1).givenUp =
      [.handedOver, .deallocated] ∧
    ¬ Dutiful (answering true) (.locateMailboxAsync [] 0 : Call caller) ∧
    (caller.forwardMessageToItcServer (answering false) 0 7).2 = .itcFailed ∧
    ((caller.forwardMessageToItcServer (answering false) 0 7).1.memory 1).givenUp = [] ∧
    ((caller.forwardMessageToItcServer (answering false) 0 7).1.memory 0).givenUp = [.deallocated] ∧
    ¬ Dutiful (answering false) (.forwardMessageToItcServer ⟨0, Nat.one_pos⟩ 7 : Call caller) := by
  have htwice : ((caller.locateMailboxAsync (answering true) [] 0).1.memory 1).givenUp =
      [.handedOver, .deallocated] := by decide
  have hnever : ((caller.forwardMessageToItcServer (answering false) 0 7).1.memory 1).givenUp =
      [] := by decide
  refine ⟨htwice, fun h => ?_, by decide, hnever, by decide, fun h => ?_⟩
  · have hone := h 1 (by decide) (by decide)
    rw [htwice] at hone
    revert hone
    decide
  · have hone := h.1 1 (by decide) (by decide)
    rw [hnever] at hone
    revert hone
    decide

end Calls

end ItcPlatform.Api.Platform
