import ItcPlatform.Api.MailboxFormat
import ItcPlatform.Api.Requests

/-! What the itc-server is told of the mailboxes that are created and deleted, and of which. -/

namespace ItcPlatform.Api
open LittleEndian

section Regions
variable {n m u : ℕ}

theorem regionIdOf_or_mask :
    (regionIdOf m ||| BitVec.ofNat 32 u) ||| itcMaskRegionId =
      regionIdOf 0xFFF ||| BitVec.ofNat 32 u := by
  have hmask : ∀ j < 32, itcMaskRegionId.getLsbD j = decide (20 ≤ j) := by decide
  have hall : ∀ j < 32, (regionIdOf 0xFFF).getLsbD j = decide (20 ≤ j) := by decide
  apply BitVec.eq_of_getLsbD_eq
  intro j hj
  simp only [BitVec.getLsbD_or, hmask j hj, hall j hj]
  by_cases h : 20 ≤ j
  · simp [h]
  · simp [h, regionIdOf, itcRegionIdShift, Nat.lt_of_not_le h]

/-- The mask is set, not applied: a region id with zeros where the unit is differs from an id whose
region is 0xFFF and whose unit is not zero. -/
theorem eq_or_mask_iff (hn : n ≤ 0xFFF) (hu : u < 2 ^ 16) :
    regionIdOf n = (regionIdOf m ||| BitVec.ofNat 32 u) ||| itcMaskRegionId ↔
      n = 0xFFF ∧ u = 0 := by
  rw [regionIdOf_or_mask]
  constructor
  · intro h
    have hnat := congrArg BitVec.toNat h
    rw [regionIdOf_toNat hn, regionIdOf_or_toNat le_rfl hu] at hnat
    omega
  · rintro ⟨rfl, rfl⟩
    exact BitVec.or_zero.symm

end Regions

namespace Platform

def sentFrom (p p' : Platform) : List AdminMessage :=
  (allocatedFrom p p').filterMap fun msg =>
    if GiveUp.handedOver ∈ msg.givenUp then some msg.adminMsg else none

structure Notifies (p : Platform) (isCreation : BitVec 32) (mboxId : MailboxId) (name : Name)
    (req : AdminMessage) : Prop where
  receiver : req.receiver = p.mItcServerMboxId
  msgno : req.msgno = itcSystemMessageNotifyMboxCreationDeletionToItcServerRequest
  isCreation : load (userBytes req) 4 4 = isCreation.toNat
  mboxId : load (userBytes req) 8 4 = mboxId.toNat
  mboxName : cString name <+: (userBytes req).drop 16

/-- One notification if the itc-server is in another region, and none if it is in this one. -/
def NotifiesOthers (p p' : Platform) (isCreation : BitVec 32) (mboxId : MailboxId) (name : Name) :
    Prop :=
  if p.mRegionId = p.mItcServerMboxId &&& itcMaskRegionId then sentFrom p p' = []
  else ∃ req, sentFrom p p' = [req] ∧ p.Notifies isCreation mboxId name req

structure IsBorn (env : Env) (p : Platform) (name : Name) (flags index : BitVec 32) : Prop where
  initialised : p.mIsInitialised = true
  new : p.mMyMailbox = none
  emplaced : env.emplace name flags = some index
  keyed : env.setSpecific = 0
  sends : Sends env { p with mMyMailbox := some (p.emplaced env index) }

structure Dies (env : Env) (p : Platform) (my : Mailbox) : Prop where
  initialised : p.mIsInitialised = true
  mine : p.mMyMailbox = some my
  sends : Sends env { p with mMyMailbox := some (env.remove my) }

section Content
variable {env : Env} {p q : Platform} {req : AdminMessage}

theorem drop_skip {a m : List Byte} {off : ℕ} (h : a.length ≤ off) :
    (a ++ m).drop off = m.drop (off - a.length) := by
  rw [List.drop_append, List.drop_eq_nil_of_le h, List.nil_append]

theorem load_skip {a m : List Byte} {off k : ℕ} (h : a.length ≤ off) :
    load (a ++ m) off k = load m (off - a.length) k := by
  rw [load, load, drop_skip h]

theorem sentFrom_requested (hnext : q.next = p.next) {my : Mailbox} (hmy : q.mMyMailbox = some my)
    (h : q.Sends env) :
    sentFrom p (if (requested env q req).2 ≠ .itcOk then
      ((requested env q req).1.deallocateMessage q.next).1 else (requested env q req).1) =
        [(req.setReceiver q.mItcServerMboxId).setSender my.mailboxId] := by
  obtain ⟨hrc, hgiven⟩ := requested_taken req h
  obtain ⟨hinit, my', hmem, hself, -⟩ := h
  obtain rfl : my' = my := Option.some.inj ((Option.mem_def.mp hmem).symm.trans hmy)
  have hmsg := @adminMsg_send env (q.allocateMessage req).1 q.next hinit my' hmy
  rw [if_neg (show (q.allocateMessage req).1.mItcServerMboxId ≠ my'.mailboxId from hself)] at hmsg
  have hreq : ((requested env q req).1.memory q.next).adminMsg =
      (req.setReceiver q.mItcServerMboxId).setSender my'.mailboxId := by
    refine hmsg.trans ?_
    simp [allocateMessage]
  rw [if_neg (not_not_intro hrc), sentFrom, allocatedFrom_one ((requested_next env q req).trans
    (by rw [hnext])), ← hnext]
  simp [hgiven, hreq]

theorem notifies_notifyRequest (heap : ℕ → Byte) (isCreation mboxId : BitVec 32)
    (ext : Option (BitVec 32)) (name : Name) (sender : MailboxId) :
    p.Notifies isCreation mboxId name
      (((notifyRequest heap isCreation mboxId ext name).setReceiver
        p.mItcServerMboxId).setSender sender) := by
  have hbytes : userBytes (((notifyRequest heap isCreation mboxId ext name).setReceiver
      p.mItcServerMboxId).setSender sender) =
        userBytes (notifyRequest heap isCreation mboxId ext name) := userBytes_address _ _
  have hext : (ext.elim (fresh heap 28 4) fun v => encode 4 v.toNat).length = 4 := by
    cases ext <;> simp
  constructor
  case receiver =>
    rw [AdminMessage.receiver, AdminMessage.setSender,
      AdminMessage.word_setWord_of_ne _ _ _ (by decide)]
    exact AdminMessage.word_setWord_self _ _ _
  case msgno =>
    rw [AdminMessage.msgno, AdminMessage.setSender,
      AdminMessage.word_setWord_of_ne _ _ _ (by decide), AdminMessage.setReceiver,
      AdminMessage.word_setWord_of_ne _ _ _ (by decide)]
    exact (laidOut_notifyRequest heap isCreation mboxId ext name).msgno
  case isCreation =>
    rw [hbytes, userBytes_notifyRequest, load_skip (by simp), length_encode, Nat.sub_self,
      load_append_left isCreation.isLt]
  case mboxId =>
    rw [hbytes, userBytes_notifyRequest, load_skip (by simp), load_skip (by simp), length_encode,
      length_encode, Nat.sub_self, load_append_left mboxId.isLt]
  case mboxName =>
    rw [hbytes, userBytes_notifyRequest, drop_skip (by simp), drop_skip (by simp),
      drop_skip (by simp), drop_skip (by simp [hext])]
    simp [hext]

theorem sentFrom_of_next (h : q.next = p.next) : sentFrom p q = [] := by
  rw [sentFrom, allocatedFrom_of_next h]
  rfl

variable {name : Name} {flags index : BitVec 32} {my : Mailbox}

theorem sentFrom_createMailbox (h : IsBorn env p name flags index) :
    p.notifies = false ∧ sentFrom p (p.createMailbox env name flags).1 = [] ∨
      p.notifies = true ∧ ∃ req, sentFrom p (p.createMailbox env name flags).1 = [req] ∧
        p.Notifies 1 (p.emplaced env index).mailboxId name req := by
  cases hnotifies : p.notifies with
  | false =>
    refine .inl ⟨rfl, sentFrom_of_next (createMailbox_next ?_)⟩
    rintro ⟨index', h'⟩
    cases hnotifies.symm.trans h'.notifies
  | true =>
    have hannounces : Announces env p name flags index :=
      ⟨h.initialised, h.new, h.emplaced, h.keyed, hnotifies⟩
    have hsent := @sentFrom_requested env p { p with mMyMailbox := some (p.emplaced env index) }
      (creationRequest env (p.emplaced env index) name flags) rfl _ rfl h.sends
    rw [createMailbox_of_announces hannounces]
    exact .inr ⟨rfl, _, hsent, notifies_notifyRequest _ _ _ _ _ _⟩

theorem sentFrom_deleteMailbox (h : Dies env p my) :
    ∃ r ∈ p.deleteMailbox env my.mailboxId,
      (p.notifies = false ∧ sentFrom p r.1 = [] ∨
        p.notifies = true ∧ ∃ req, sentFrom p r.1 = [req] ∧
          p.Notifies 2 (env.remove my).mailboxId my.name req) := by
  cases hnotifies : p.notifies with
  | false =>
    obtain ⟨r, hr, hnext⟩ := @deleteMailbox_next p env my.mailboxId
      (fun _ => by rw [h.mine]; exact Option.some_ne_none _) (by
        rintro ⟨my', h'⟩
        cases hnotifies.symm.trans h'.notifies)
    exact ⟨r, hr, .inl ⟨rfl, sentFrom_of_next hnext⟩⟩
  | true =>
    have hwithdraws : Withdraws p my.mailboxId my := ⟨h.initialised, h.mine, rfl, hnotifies⟩
    obtain ⟨r, hr, hnext, hmemory⟩ := deleteMailbox_of_withdraws env hwithdraws
    have hsent := @sentFrom_requested env p { p with mMyMailbox := some (env.remove my) }
      (deletionRequest env (env.remove my) my.name) rfl _ rfl h.sends
    rw [sentFrom, ← allocatedFrom_congr hnext hmemory] at hsent
    exact ⟨r, hr, .inr ⟨rfl, _, hsent, notifies_notifyRequest _ _ _ _ _ _⟩⟩

end Content

structure HasIds (p : Platform) (n m u : ℕ) : Prop where
  region_le : n ≤ 0xFFF
  serverRegion_le : m ≤ 0xFFF
  serverUnit_lt : u < 2 ^ 16
  region : p.mRegionId = regionIdOf n
  server : p.mItcServerMboxId = regionIdOf m ||| BitVec.ofNat 32 u

/-- The comparison that the code makes has the same outcome as that of the two regions. -/
def Distinguishes (n m u : ℕ) : Prop := n ≠ m ↔ ¬ (n = 0xFFF ∧ u = 0)

section Regions
variable {env : Env} {p p' : Platform} {n m u : ℕ}

theorem HasIds.same_iff (h : HasIds p n m u) :
    p.mRegionId = p.mItcServerMboxId &&& itcMaskRegionId ↔ n = m := by
  rw [h.region, h.server, region_of_fields h.serverRegion_le h.serverUnit_lt]
  exact ⟨regionIdOf_injective h.region_le h.serverRegion_le, congrArg regionIdOf⟩

theorem HasIds.notifies_iff (h : HasIds p n m u) :
    p.notifies = true ↔ ¬ (n = 0xFFF ∧ u = 0) := by
  rw [notifies, decide_eq_true_iff, h.region, h.server, ne_eq,
    eq_or_mask_iff h.region_le h.serverUnit_lt]

theorem Notifies.id_iff {isCreation : BitVec 32} {mboxId mboxId' : MailboxId} {name : Name}
    {req : AdminMessage} (h : p.Notifies isCreation mboxId' name req) :
    p.Notifies isCreation mboxId name req ↔ mboxId' = mboxId := by
  refine ⟨fun h' => ?_, fun heq => heq ▸ h⟩
  exact BitVec.eq_of_toNat_eq (h.mboxId.symm.trans h'.mboxId)

theorem HasIds.notifiesOthers_iff {isCreation : BitVec 32} {mboxId mboxId' : MailboxId}
    {name : Name} (h : HasIds p n m u)
    (hsent : p.notifies = false ∧ sentFrom p p' = [] ∨
      p.notifies = true ∧ ∃ req, sentFrom p p' = [req] ∧
        p.Notifies isCreation mboxId' name req) :
    NotifiesOthers p p' isCreation mboxId name ↔
      Distinguishes n m u ∧ (n ≠ m → mboxId' = mboxId) := by
  rw [NotifiesOthers, Distinguishes, ← h.notifies_iff]
  by_cases hsame : n = m
  · rw [if_pos (h.same_iff.mpr hsame)]
    obtain ⟨hquiet, hnone⟩ | ⟨hloud, req, hone, -⟩ := hsent
    · simp [hnone, hquiet, hsame]
    · simp [hone, hloud, hsame]
  · rw [if_neg (h.same_iff.not.mpr hsame)]
    obtain ⟨hquiet, hnone⟩ | ⟨hloud, req, hone, hreq⟩ := hsent
    · simp [hnone, hquiet, hsame]
    · simp [hone, hloud, hsame, hreq.id_iff]

/-- The itc-server is told of every birth outside its region, and of no other, exactly where
setting the region bits in its id has the outcome of masking them; of a death too, if the removed
mailbox still has its id. -/
theorem notifies_others_iff (env : Env) (h : HasIds p n m u) :
    (∀ name flags index, IsBorn env p name flags index →
      (NotifiesOthers p (p.createMailbox env name flags).1 1 (p.emplaced env index).mailboxId name ↔
        Distinguishes n m u)) ∧
    ∀ my, Dies env p my →
      ((∃ r ∈ p.deleteMailbox env my.mailboxId,
          NotifiesOthers p r.1 2 my.mailboxId my.name) ↔
        Distinguishes n m u ∧ (n ≠ m → (env.remove my).mailboxId = my.mailboxId)) := by
  refine ⟨fun name flags index hborn => ?_, fun my hdies => ?_⟩
  · have hsent := sentFrom_createMailbox hborn
    exact (h.notifiesOthers_iff hsent).trans (and_iff_left fun _ => rfl)
  · obtain ⟨r, hr, hsent⟩ := sentFrom_deleteMailbox hdies
    rw [← h.notifiesOthers_iff hsent]
    constructor
    · rintro ⟨r', hr', hnotifies⟩
      obtain rfl : r' = r := Option.some.inj (hr'.symm.trans hr)
      exact hnotifies
    · exact fun hnotifies => ⟨r, hr, hnotifies⟩

def newcomer : Platform := { caller with mMyMailbox := none }

def emplacing : Env :=
  { answering true with
    emplace := fun _ _ => some 5
    hasValueAt := fun _ => true }

theorem newcomer_isBorn : IsBorn emplacing newcomer [0x61] 0 5 :=
  ⟨rfl, rfl, rfl, rfl, rfl, ⟨0x00300005, []⟩, rfl, by decide, rfl⟩

theorem notifies_others_iff_newcomer :
    NotifiesOthers newcomer (newcomer.createMailbox emplacing [0x61] 0).1 1 0x00300005 [0x61] ↔
      Distinguishes 3 1 1 := by
  have hids : HasIds newcomer 3 1 1 := ⟨by decide, by decide, by decide, rfl, rfl⟩
  exact (notifies_others_iff emplacing hids).1 [0x61] 0 5 newcomer_isBorn

/-- The itc-server, unit 1 of region 1, is told of a mailbox of its own region. -/
theorem notifies_own_region : ¬ ∀ (env : Env) (p : Platform) (n m u : ℕ), HasIds p n m u →
    ∀ name flags index, IsBorn env p name flags index →
      NotifiesOthers p (p.createMailbox env name flags).1 1 (p.emplaced env index).mailboxId
        name := by
  intro h
  have hids : HasIds { newcomer with mRegionId := regionIdOf 1 } 1 1 1 :=
    ⟨by decide, by decide, by decide, rfl, rfl⟩
  have hborn : IsBorn emplacing { newcomer with mRegionId := regionIdOf 1 } [] 0 5 :=
    ⟨rfl, rfl, rfl, rfl, rfl, ⟨0x00100005, []⟩, rfl, by decide, rfl⟩
  have hnone := h emplacing _ 1 1 1 hids [] 0 5 hborn
  rw [NotifiesOthers, if_pos (by decide)] at hnone
  revert hnone
  decide

end Regions

end Platform

end ItcPlatform.Api
