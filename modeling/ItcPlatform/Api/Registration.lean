import ItcPlatform.Api.Requests
import ItcPlatform.Lib.SlotTable

/-! `createMailbox` and `deleteMailbox` with the table of mailboxes and the pointer into it that
every thread has. -/

namespace ItcPlatform.Api

/-- The platform as the calling thread sees it, with `m_mboxList` and the place `m_myMailbox`
points to. -/
structure Registry where
  mRegionId : MailboxId
  mItcServerMboxId : MailboxId
  mIsInitialised : Bool
  mMboxList : SlotTable itcMaxSupportedMailboxes Mailbox
  mMyMailbox : Option (Fin itcMaxSupportedMailboxes)
  memory : ℕ → Message
  next : ℕ

namespace Registry
variable (env env' : Env) (place : Option (Fin itcMaxSupportedMailboxes)) (r r' : Registry)

def view : Platform :=
  ⟨r.mRegionId, r.mItcServerMboxId, r.mIsInitialised, r.mMyMailbox.map r.mMboxList.objects,
    r.memory, r.next⟩

def request (req : AdminMessage) : Registry × ReturnCode :=
  let (p, msg) := r.view.allocateMessage req
  let (p, rc) := p.send env msg ⟨r.mItcServerMboxId, 0⟩
  let p := if rc ≠ .itcOk then (p.deallocateMessage msg).1 else p
  ({ r with memory := p.memory, next := p.next }, rc)

/-- `place` is where `emplace` puts the mailbox, if it is free. -/
def createMailbox (name : Name) (flags : BitVec 32) : Registry × MailboxId :=
  if r.mIsInitialised = false then (r, itcMailboxIdDefault)
  else
    match r.mMyMailbox with
    | some index => (r, (r.mMboxList.objects index).mailboxId)
    | none =>
      match r.mMboxList.emplace place ⟨itcMailboxIdDefault, name⟩ with
      | none => (r, itcMailboxIdDefault)
      | some (mMboxList, index) =>
        let mailboxId := r.mRegionId ||| (BitVec.ofNat 32 index &&& itcMaskUnitId)
        let mMboxList :=
          if (mMboxList.entry index).isSome then
            mMboxList.modify index fun mbox => { mbox with mailboxId }
          else mMboxList
        let r := { r with mMboxList, mMyMailbox := some index }
        let my := mMboxList.objects index
        if env.setSpecific ≠ 0 then (r, itcMailboxIdDefault)
        else if r.view.notifies then
          let (r, rc) := r.request env (Platform.creationRequest env my name flags)
          if rc ≠ .itcOk then (r, itcMailboxIdDefault) else (r, my.mailboxId)
        else (r, my.mailboxId)

/-- `none` is the read through a null `m_myMailbox`. -/
def deleteMailbox (mboxId : MailboxId) : Option (Registry × ReturnCode) :=
  if r.mIsInitialised = false then some (r, .itcFailed)
  else
    r.mMyMailbox.map fun index =>
      if mboxId ≠ (r.mMboxList.objects index).mailboxId then (r, .itcFailed)
      else
        let mboxName := (r.mMboxList.objects index).name
        let mMboxList := r.mMboxList.remove env.remove (mboxId &&& itcMaskUnitId).toNat
        let r := { r with mMboxList }
        if r.view.notifies then
          let (r, rc) := r.request env
            (Platform.deletionRequest env (mMboxList.objects index) mboxName)
          if rc ≠ .itcOk then (r, .itcFailed) else ({ r with mMyMailbox := none }, .itcOk)
        else ({ r with mMyMailbox := none }, .itcOk)

/-- The same mailboxes are registered, and the thread has the same one. -/
structure Unchanged (r r' : Registry) : Prop where
  entry : r'.mMboxList.entry = r.mMboxList.entry
  mMyMailbox : r'.mMyMailbox = r.mMyMailbox

def CreatesCleanly (name : Name) (flags : BitVec 32) : Prop :=
  (r.createMailbox env place name flags).2 = itcMailboxIdDefault →
    Unchanged r (r.createMailbox env place name flags).1

def DeletesCleanly (mboxId : MailboxId) : Prop :=
  ∀ d ∈ r.deleteMailbox env mboxId, d.2 = .itcFailed → Unchanged r d.1

/-- The mailboxes that were registered before are so again after the deletion of the one that
`createMailbox` returns. -/
def Restores (name : Name) (flags : BitVec 32) : Prop :=
  let c := r.createMailbox env place name flags
  c.2 ≠ itcMailboxIdDefault → ∀ d ∈ c.1.deleteMailbox env' c.2, d.2 = .itcOk →
    d.1.mMboxList.entry = r.mMboxList.entry

def idAt (index : Fin itcMaxSupportedMailboxes) : MailboxId :=
  r.mRegionId ||| (BitVec.ofNat 32 index &&& itcMaskUnitId)

/-- The itc-server can be told by a mailbox of this id, if it has to be. -/
def Tells (mailboxId : MailboxId) : Prop :=
  r.view.notifies = true → r.mItcServerMboxId ≠ mailboxId ∧
    env.taken (r.view.transport r.mItcServerMboxId) = true

structure Emplaces (index : Fin itcMaxSupportedMailboxes) : Prop where
  initialised : r.mIsInitialised = true
  new : r.mMyMailbox = none
  place : place = some index
  free : r.mMboxList.entry index = none

structure Finishes (index : Fin itcMaxSupportedMailboxes) : Prop where
  keyed : env.setSpecific = 0
  told : r.Tells env (r.idAt index)
  named : r.idAt index ≠ itcMailboxIdDefault

structure Deletes (mboxId : MailboxId) (index : Fin itcMaxSupportedMailboxes) : Prop where
  initialised : r.mIsInitialised = true
  mine : r.mMyMailbox = some index
  named : mboxId = (r.mMboxList.objects index).mailboxId

def Vacant (mboxId : MailboxId) : Prop :=
  ∀ i : Fin itcMaxSupportedMailboxes, (i : ℕ) = (mboxId &&& itcMaskUnitId).toNat →
    r.mMboxList.entry i = none

def removed (mboxId : MailboxId) : SlotTable itcMaxSupportedMailboxes Mailbox :=
  r.mMboxList.remove env.remove (mboxId &&& itcMaskUnitId).toNat

section Request
variable {env r} {req : AdminMessage} {my : Mailbox}

@[simp] theorem view_mIsInitialised : r.view.mIsInitialised = r.mIsInitialised := rfl

@[simp] theorem view_mMyMailbox :
    r.view.mMyMailbox = r.mMyMailbox.map r.mMboxList.objects := rfl

theorem request_snd : (r.request env req).2 = (Platform.requested env r.view req).2 := rfl

theorem request_ok_iff (hinit : r.mIsInitialised = true) (hmy : r.view.mMyMailbox = some my) :
    (r.request env req).2 = .itcOk ↔ r.mItcServerMboxId ≠ my.mailboxId ∧
      env.taken (r.view.transport r.mItcServerMboxId) = true := by
  have hsends : r.view.Sends env ↔ r.mItcServerMboxId ≠ my.mailboxId ∧
      env.taken (r.view.transport r.mItcServerMboxId) = true := by
    rw [Platform.Sends, hmy]
    simp [view, hinit]
  rw [request_snd, ← hsends]
  by_cases h : r.view.Sends env
  · exact iff_of_true (Platform.requested_taken req h).1 h
  · refine iff_of_false ?_ h
    rw [(Platform.requested_refused req h).1]
    decide

end Request

section Create
variable {env place r} {index : Fin itcMaxSupportedMailboxes} {name : Name} {flags : BitVec 32}

def emplaced (r : Registry) (index : Fin itcMaxSupportedMailboxes) (name : Name) : Registry :=
  { r with
    mMboxList := ⟨Function.update r.mMboxList.objects index ⟨r.idAt index, name⟩,
      Function.update r.mMboxList.isActive index true⟩
    mMyMailbox := some index }

structure Created (env : Env) (r : Registry) (index : Fin itcMaxSupportedMailboxes) (name : Name)
    (c : Registry × MailboxId) : Prop where
  registry : ∃ memory next, c.1 = { r.emplaced index name with memory, next }
  finishes : r.Finishes env index → c.2 = r.idAt index
  fails : ¬ r.Finishes env index → c.2 = itcMailboxIdDefault

theorem view_emplaced : (r.emplaced index name).view.mMyMailbox =
    some ⟨r.idAt index, name⟩ := by
  simp [emplaced]

theorem object_emplaced : (r.emplaced index name).mMboxList.objects index = ⟨r.idAt index, name⟩ :=
  Function.update_self _ _ _

theorem entry_emplaced : (r.emplaced index name).mMboxList.entry =
    Function.update r.mMboxList.entry index (some ⟨r.idAt index, name⟩) :=
  SlotTable.entry_emplaced

theorem createMailbox_eq (h : r.Emplaces place index) :
    r.createMailbox env place name flags =
      let r' := r.emplaced index name
      if env.setSpecific ≠ 0 then (r', itcMailboxIdDefault)
      else if r.view.notifies then
        let (r', rc) := r'.request env
          (Platform.creationRequest env ⟨r.idAt index, name⟩ name flags)
        if rc ≠ .itcOk then (r', itcMailboxIdDefault) else (r', r.idAt index)
      else (r', r.idAt index) := by
  obtain ⟨hinit, hnew, rfl, hfree⟩ := h
  let mMboxList : SlotTable itcMaxSupportedMailboxes Mailbox :=
    ⟨Function.update r.mMboxList.objects index ⟨itcMailboxIdDefault, name⟩,
      Function.update r.mMboxList.isActive index true⟩
  have hemplace : r.mMboxList.emplace (some index) ⟨itcMailboxIdDefault, name⟩ =
      some (mMboxList, index) := SlotTable.emplace_eq_some_iff.mpr ⟨rfl, hfree, rfl⟩
  have hsome : (mMboxList.entry index).isSome := by simp [mMboxList, SlotTable.entry_emplaced]
  have hmodify : mMboxList.modify index (fun mbox =>
      { mbox with mailboxId := r.mRegionId ||| (BitVec.ofNat 32 index &&& itcMaskUnitId) }) =
        (r.emplaced index name).mMboxList := by
    simp [SlotTable.modify, emplaced, mMboxList, idAt]
  unfold createMailbox
  rw [if_neg (by simp [hinit]), hnew]
  dsimp only
  rw [hemplace]
  dsimp only
  rw [if_pos hsome, hmodify, object_emplaced]
  rfl

theorem request_emplaced_ok_iff {req : AdminMessage} (hinit : r.mIsInitialised = true)
    (h : r.view.notifies = true) :
    ((r.emplaced index name).request env req).2 = .itcOk ↔ r.Tells env (r.idAt index) := by
  have hinit' : (r.emplaced index name).mIsInitialised = true := hinit
  rw [request_ok_iff hinit' view_emplaced, Tells]
  exact ⟨fun hok _ => hok, fun htells => htells h⟩

theorem createMailbox_of_emplaces (h : r.Emplaces place index) :
    Created env r index name (r.createMailbox env place name flags) := by
  have hdefault (hkeyed : env.setSpecific = 0) (htold : r.Tells env (r.idAt index))
      (hfails : ¬ r.Finishes env index) : r.idAt index = itcMailboxIdDefault :=
    not_not.mp fun hnamed => hfails ⟨hkeyed, htold, hnamed⟩
  rw [createMailbox_eq h]
  dsimp only
  split_ifs with hkeyed hnotifies hrc
  · exact ⟨⟨_, _, rfl⟩, fun hfinishes => absurd hfinishes.keyed hkeyed, fun _ => rfl⟩
  · have htold := (request_emplaced_ok_iff h.initialised hnotifies).not.mp hrc
    exact ⟨⟨_, _, rfl⟩, fun hfinishes => absurd hfinishes.told htold, fun _ => rfl⟩
  · have htold := (request_emplaced_ok_iff h.initialised hnotifies).mp (not_not.mp hrc)
    exact ⟨⟨_, _, rfl⟩, fun _ => rfl, hdefault (not_not.mp hkeyed) htold⟩
  · have htold : r.Tells env (r.idAt index) := fun h => absurd h hnotifies
    exact ⟨⟨_, _, rfl⟩, fun _ => rfl, hdefault (not_not.mp hkeyed) htold⟩

theorem createMailbox_fst (h : ¬ ∃ index, r.Emplaces place index) :
    (r.createMailbox env place name flags).1 = r := by
  unfold createMailbox
  split
  · rfl
  next hinit =>
  split
  · rfl
  next hnew =>
  split
  · rfl
  next mMboxList index hemplace =>
  obtain ⟨hplace, hfree, -⟩ := SlotTable.emplace_eq_some_iff.mp hemplace
  exact (h ⟨index, by simpa using hinit, hnew, hplace, hfree⟩).elim

theorem Emplaces.unique {index' : Fin itcMaxSupportedMailboxes} (h : r.Emplaces place index)
    (h' : r.Emplaces place index') : index' = index :=
  Option.some.inj (h'.place.symm.trans h.place)

theorem createsCleanly_iff : r.CreatesCleanly env place name flags ↔
    ∀ index, r.Emplaces place index → r.Finishes env index := by
  by_cases hplace : ∃ index, r.Emplaces place index
  · obtain ⟨index, h⟩ := hplace
    have hcreated := @createMailbox_of_emplaces env place r index name flags h
    constructor
    · intro hclean index' h'
      rw [h.unique h']
      by_contra hfinishes
      have hentry := (hclean (hcreated.fails hfinishes)).entry
      obtain ⟨memory, next, heq⟩ := hcreated.registry
      rw [heq, entry_emplaced, Function.update_eq_self_iff, h.free] at hentry
      cases hentry
    · intro hfinishes hdefault
      have hnamed := (hfinishes index h).named
      exact absurd ((hcreated.finishes (hfinishes index h)).symm.trans hdefault) hnamed
  · refine iff_of_true (fun _ => ?_) fun index h => absurd ⟨index, h⟩ hplace
    rw [createMailbox_fst hplace]
    exact ⟨rfl, rfl⟩

end Create

section Delete
variable {env r} {index : Fin itcMaxSupportedMailboxes} {mboxId : MailboxId}

def withdrawn (env : Env) (r : Registry) (mboxId : MailboxId) : Registry :=
  { r with mMboxList := r.removed env mboxId }

structure Deleted (env : Env) (r : Registry) (index : Fin itcMaxSupportedMailboxes)
    (mboxId : MailboxId) (d : Registry × ReturnCode) : Prop where
  mMboxList : d.1.mMboxList = r.removed env mboxId
  told : r.Tells env ((r.removed env mboxId).objects index).mailboxId →
    d.2 = .itcOk ∧ d.1.mMyMailbox = none
  untold : ¬ r.Tells env ((r.removed env mboxId).objects index).mailboxId →
    d.2 = .itcFailed ∧ d.1.mMyMailbox = some index

theorem deleteMailbox_eq (h : r.Deletes mboxId index) : r.deleteMailbox env mboxId = some (
    let r' := r.withdrawn env mboxId
    if r.view.notifies then
      let (r', rc) := r'.request env (Platform.deletionRequest env
        ((r.removed env mboxId).objects index) (r.mMboxList.objects index).name)
      if rc ≠ .itcOk then (r', .itcFailed) else ({ r' with mMyMailbox := none }, .itcOk)
    else ({ r' with mMyMailbox := none }, .itcOk)) := by
  rw [deleteMailbox, if_neg (by simp [h.initialised])]
  refine (congrArg (Option.map _) h.mine).trans ?_
  exact congrArg some (if_neg (not_not_intro h.named))

theorem request_withdrawn_ok_iff {req : AdminMessage} (h : r.Deletes mboxId index)
    (hnotifies : r.view.notifies = true) : ((r.withdrawn env mboxId).request env req).2 = .itcOk ↔
      r.Tells env ((r.removed env mboxId).objects index).mailboxId := by
  have hinit : (r.withdrawn env mboxId).mIsInitialised = true := h.initialised
  have hmy : (r.withdrawn env mboxId).view.mMyMailbox =
      some ((r.removed env mboxId).objects index) := by
    simp [withdrawn, h.mine]
  rw [request_ok_iff hinit hmy, Tells]
  exact ⟨fun hok _ => hok, fun htells => htells hnotifies⟩

theorem deleteMailbox_of_deletes (h : r.Deletes mboxId index) :
    ∃ d, r.deleteMailbox env mboxId = some d ∧ Deleted env r index mboxId d := by
  refine ⟨_, deleteMailbox_eq h, ?_⟩
  dsimp only
  split_ifs with hnotifies hrc
  · have huntold := (request_withdrawn_ok_iff h hnotifies).not.mp hrc
    exact ⟨rfl, fun htold => absurd htold huntold, fun _ => ⟨rfl, h.mine⟩⟩
  · have htold := (request_withdrawn_ok_iff h hnotifies).mp (not_not.mp hrc)
    exact ⟨rfl, fun _ => ⟨rfl, rfl⟩, fun huntold => absurd htold huntold⟩
  · exact ⟨rfl, fun _ => ⟨rfl, rfl⟩, fun huntold => absurd (fun h => absurd h hnotifies) huntold⟩

theorem deleteMailbox_failed (h : ¬ ∃ index, r.Deletes mboxId index)
    {d : Registry × ReturnCode} (hd : d ∈ r.deleteMailbox env mboxId) : d = (r, .itcFailed) := by
  unfold deleteMailbox at hd
  split_ifs at hd with hinit
  · exact (Option.some.inj hd).symm
  · obtain ⟨index, hmine, rfl⟩ := Option.map_eq_some_iff.mp hd
    exact if_pos fun hnamed => h ⟨index, by simpa using hinit, hmine, hnamed⟩

theorem entry_removed_iff : (r.removed env mboxId).entry = r.mMboxList.entry ↔ r.Vacant mboxId :=
  SlotTable.entry_remove_eq_iff _ _

theorem deletesCleanly_iff : r.DeletesCleanly env mboxId ↔
    ∀ index, r.Deletes mboxId index →
      r.Tells env ((r.removed env mboxId).objects index).mailboxId ∨ r.Vacant mboxId := by
  by_cases hdeletes : ∃ index, r.Deletes mboxId index
  · obtain ⟨index, h⟩ := hdeletes
    obtain ⟨d, hd, hdeleted⟩ := @deleteMailbox_of_deletes env r index mboxId h
    constructor
    · intro hclean index' h'
      obtain rfl : index' = index := Option.some.inj (h'.mine.symm.trans h.mine)
      refine or_iff_not_imp_left.mpr fun huntold => ?_
      have hentry := (hclean d hd (hdeleted.untold huntold).1).entry
      rwa [hdeleted.mMboxList, entry_removed_iff] at hentry
    · intro hall d' hd' hfailed
      obtain rfl : d' = d := Option.some.inj (hd'.symm.trans hd)
      have huntold : ¬ r.Tells env ((r.removed env mboxId).objects index).mailboxId := by
        intro htold
        cases (hdeleted.told htold).1.symm.trans hfailed
      refine ⟨?_, (hdeleted.untold huntold).2.trans h.mine.symm⟩
      rw [hdeleted.mMboxList, entry_removed_iff]
      exact (hall index h).resolve_left huntold
  · refine iff_of_true (fun d hd _ => ?_) fun index h => absurd ⟨index, h⟩ hdeletes
    rw [deleteMailbox_failed hdeletes hd]
    exact ⟨rfl, rfl⟩

end Delete

section Restore
variable {env env' place r} {name : Name} {flags : BitVec 32} {mboxId : MailboxId}
  {index : Fin itcMaxSupportedMailboxes}

theorem Deleted.ok_iff {d : Registry × ReturnCode}
    (h : Deleted env r index mboxId d) :
    d.2 = .itcOk ↔ r.Tells env ((r.removed env mboxId).objects index).mailboxId := by
  refine ⟨fun hok => ?_, fun htold => (h.told htold).1⟩
  by_contra huntold
  cases (h.untold huntold).1.symm.trans hok

theorem deleteMailbox_created (h : r.Emplaces place index) :
    ∃ d, (r.createMailbox env place name flags).1.deleteMailbox env' (r.idAt index) = some d ∧
      d.1.mMboxList.entry = ((r.emplaced index name).removed env' (r.idAt index)).entry ∧
      (d.2 = .itcOk ↔ r.Tells env'
        (((r.emplaced index name).removed env' (r.idAt index)).objects index).mailboxId) := by
  have hcreated := @createMailbox_of_emplaces env place r index name flags h
  obtain ⟨memory, next, heq⟩ := hcreated.registry
  have hdeletes : (r.createMailbox env place name flags).1.Deletes (r.idAt index) index := by
    rw [heq]
    exact ⟨h.initialised, rfl, (congrArg Mailbox.mailboxId object_emplaced).symm⟩
  obtain ⟨d, hd, hdeleted⟩ := @deleteMailbox_of_deletes env' _ _ _ hdeletes
  refine ⟨d, hd, ?_, ?_⟩
  · rw [hdeleted.mMboxList, heq]
    rfl
  · rw [hdeleted.ok_iff, heq]
    rfl

theorem object_removed_of_ne (h : (r.idAt index &&& itcMaskUnitId).toNat ≠ index) :
    ((r.emplaced index name).removed env (r.idAt index)).objects index = ⟨r.idAt index, name⟩ :=
  (SlotTable.objects_remove_of_ne _ h.symm).trans object_emplaced

theorem restores_iff_of_emplaces (h : r.Emplaces place index) :
    r.Restores env env' place name flags ↔
      (r.Finishes env index → r.Tells env' (r.idAt index) →
        (r.idAt index &&& itcMaskUnitId).toNat = index) := by
  have hcreated := @createMailbox_of_emplaces env place r index name flags h
  by_cases hfinishes : r.Finishes env index
  swap
  · refine iff_of_true (fun hnamed => ?_) fun hdone => absurd hdone hfinishes
    exact absurd (hcreated.fails hfinishes) hnamed
  obtain ⟨d, hd, hentry, hok⟩ := @deleteMailbox_created env env' place r name flags index h
  have hrestored : d.1.mMboxList.entry = r.mMboxList.entry ↔
      (r.idAt index &&& itcMaskUnitId).toNat = index := by
    rw [hentry]
    exact SlotTable.entry_remove_emplaced_iff _ h.free entry_emplaced
  have hrestores : r.Restores env env' place name flags ↔
      (d.2 = .itcOk → (r.idAt index &&& itcMaskUnitId).toNat = index) := by
    rw [← hrestored, Restores]
    rw [hcreated.finishes hfinishes, forall_prop_of_true hfinishes.named, hd]
    simp
  rw [hrestores]
  constructor
  · intro hall _ htells
    by_contra hunit
    -- another place is given free, so the mailbox still has its id
    rw [object_removed_of_ne hunit] at hok
    exact hunit (hall (hok.mpr htells))
  · intro hunit hdone
    by_contra hne
    rw [object_removed_of_ne hne] at hok
    exact hne (hunit hfinishes (hok.mp hdone))

theorem createMailbox_of_deletes (h : r.Deletes mboxId index) :
    r.createMailbox env place name flags = (r, mboxId) := by
  unfold createMailbox
  rw [if_neg (by simp [h.initialised]), h.mine, h.named]

theorem restores_iff_of_deletes (h : r.Deletes mboxId index) :
    r.Restores env env' place name flags ↔ (mboxId ≠ itcMailboxIdDefault →
      r.Tells env' ((r.removed env' mboxId).objects index).mailboxId → r.Vacant mboxId) := by
  obtain ⟨d, hd, hdeleted⟩ := @deleteMailbox_of_deletes env' r index mboxId h
  rw [← hdeleted.ok_iff, ← @entry_removed_iff env' r mboxId, ← hdeleted.mMboxList, Restores,
    createMailbox_of_deletes h]
  dsimp only
  rw [hd]
  simp

theorem restores_iff : r.Restores env env' place name flags ↔
    (∀ index, r.Emplaces place index → r.Finishes env index → r.Tells env' (r.idAt index) →
      (r.idAt index &&& itcMaskUnitId).toNat = index) ∧
    ∀ mboxId index, r.Deletes mboxId index → mboxId ≠ itcMailboxIdDefault →
      r.Tells env' ((r.removed env' mboxId).objects index).mailboxId → r.Vacant mboxId := by
  by_cases hplace : ∃ index, r.Emplaces place index
  · obtain ⟨index, h⟩ := hplace
    have hnone (mboxId : MailboxId) (index' : Fin itcMaxSupportedMailboxes)
        (h' : r.Deletes mboxId index') : False := by
      cases h.new.symm.trans h'.mine
    rw [restores_iff_of_emplaces h]
    exact ⟨fun hunit => ⟨fun index' h' => h.unique h' ▸ hunit, fun mboxId index' h' =>
      (hnone mboxId index' h').elim⟩, fun hall => hall.1 index h⟩
  by_cases hmine : ∃ mboxId index, r.Deletes mboxId index
  · obtain ⟨mboxId, index, h⟩ := hmine
    rw [restores_iff_of_deletes h]
    refine ⟨fun hvacant => ⟨fun index' h' => absurd ⟨index', h'⟩ hplace, ?_⟩, fun hall =>
      hall.2 mboxId index h⟩
    intro mboxId' index' h'
    obtain rfl : index' = index := Option.some.inj (h'.mine.symm.trans h.mine)
    obtain rfl : mboxId' = mboxId := h'.named.trans h.named.symm
    exact hvacant
  · refine iff_of_true ?_ ⟨fun index h => absurd ⟨index, h⟩ hplace, fun mboxId index h =>
      absurd ⟨mboxId, index, h⟩ hmine⟩
    rw [Restores]
    rw [createMailbox_fst hplace]
    intro _ d hd hok
    rw [deleteMailbox_failed (fun ⟨index, h⟩ => hmine ⟨_, index, h⟩) hd] at hok
    cases hok

end Restore

section View
variable {env place r} {req : AdminMessage} {index : Fin itcMaxSupportedMailboxes} {name : Name}
  {flags : BitVec 32} {mboxId : MailboxId}

def answers (env : Env) (place : Option (Fin itcMaxSupportedMailboxes)) (r : Registry)
    (name : Name) (mboxId : MailboxId) : Env :=
  { env with
    emplace := fun _ _ => (r.mMboxList.emplace place ⟨itcMailboxIdDefault, name⟩).map
      fun emplaced => BitVec.ofNat 32 emplaced.2
    hasValueAt := fun _ => true
    data := fun _ => ⟨itcMailboxIdDefault, name⟩
    remove := fun my => r.mMyMailbox.elim my (r.removed env mboxId).objects }

theorem view_request : (r.request env req).1.view =
    let q := Platform.requested env r.view req
    if q.2 ≠ .itcOk then (q.1.deallocateMessage r.next).1 else q.1 := by
  obtain ⟨memory, hsent⟩ := @Platform.send_fst env (r.view.allocateMessage req).1 r.next
    r.mItcServerMboxId
  have hrequest : (r.request env req).1.view =
      let q := Platform.requested env r.view req
      let p := if q.2 ≠ .itcOk then (q.1.deallocateMessage r.next).1 else q.1
      { r.view with memory := p.memory, next := p.next } := rfl
  have hq : (Platform.requested env r.view req).1 =
      { (r.view.allocateMessage req).1 with memory } := hsent
  rw [hrequest]
  dsimp only
  rw [hq]
  split_ifs
  · unfold Platform.deallocateMessage
    split_ifs <;> rfl
  · rfl

theorem view_emplaced_eq : (r.emplaced index name).view =
    { r.view with mMyMailbox := some ⟨r.idAt index, name⟩ } := by
  rw [← view_emplaced]
  rfl

theorem createMailbox_view_eq (h : r.Emplaces place index) :
    r.view.createMailbox (answers env place r name mboxId) name flags =
      let p := (r.emplaced index name).view
      if env.setSpecific ≠ 0 then (p, itcMailboxIdDefault)
      else if r.view.notifies then
        let q := Platform.requested env p
          (Platform.creationRequest env ⟨r.idAt index, name⟩ name flags)
        if q.2 ≠ .itcOk then ((q.1.deallocateMessage r.next).1, itcMailboxIdDefault)
        else (q.1, r.idAt index)
      else (p, r.idAt index) := by
  have hnew : r.view.mMyMailbox = none := by simp [h.new]
  have hemplace : (answers env place r name mboxId).emplace name flags =
      some (BitVec.ofNat 32 index) := by
    have hplace := (@SlotTable.emplace_eq_some_iff _ _ _ _ _ ⟨itcMailboxIdDefault, name⟩ _).mpr
      ⟨h.place, h.free, rfl⟩
    exact Option.map_eq_some_iff.mpr ⟨_, hplace, rfl⟩
  have hinit : ¬ r.view.mIsInitialised = false := by simp [h.initialised]
  unfold Platform.createMailbox
  rw [if_neg hinit, hnew]
  dsimp only
  rw [hemplace, view_emplaced_eq]
  rfl

theorem view_createMailbox :
    ((r.createMailbox env place name flags).1.view, (r.createMailbox env place name flags).2) =
      r.view.createMailbox (answers env place r name mboxId) name flags := by
  by_cases h : ∃ index, r.Emplaces place index
  · obtain ⟨index, h⟩ := h
    rw [createMailbox_eq h, createMailbox_view_eq h]
    dsimp only
    split_ifs with hkeyed hnotifies hrc hrc' hrc'
    · rfl
    · exact Prod.ext (view_request.trans (if_pos hrc')) rfl
    · exact absurd hrc hrc'
    · exact absurd hrc' hrc
    · exact Prod.ext (view_request.trans (if_neg hrc')) rfl
    · rfl
  · unfold createMailbox Platform.createMailbox
    rw [view_mIsInitialised, view_mMyMailbox]
    by_cases hidle : r.mIsInitialised = false
    · rw [if_pos hidle, if_pos hidle]
    rw [if_neg hidle, if_neg hidle]
    cases hmine : r.mMyMailbox with
    | some index => rfl
    | none =>
      have hfull : r.mMboxList.emplace place ⟨itcMailboxIdDefault, name⟩ = none :=
        SlotTable.emplace_eq_none_iff.mpr fun index hplace hfree =>
          h ⟨index, by simpa using hidle, hmine, hplace, hfree⟩
      dsimp only [answers, Option.map_none]
      rw [hfull]
      rfl

theorem deleteMailbox_view_eq (h : r.Deletes mboxId index) :
    r.view.deleteMailbox (answers env place r name mboxId) mboxId = some (
      let p := (r.withdrawn env mboxId).view
      if r.view.notifies then
        let q := Platform.requested env p (Platform.deletionRequest env
          ((r.removed env mboxId).objects index) (r.mMboxList.objects index).name)
        if q.2 ≠ .itcOk then ((q.1.deallocateMessage r.next).1, .itcFailed)
        else ({ q.1 with mMyMailbox := none }, .itcOk)
      else ({ p with mMyMailbox := none }, .itcOk)) := by
  have hmine : r.view.mMyMailbox = some (r.mMboxList.objects index) := by simp [h.mine]
  have hinit : ¬ r.view.mIsInitialised = false := by simp [h.initialised]
  have hremove : r.mMyMailbox.elim (r.mMboxList.objects index) (r.removed env mboxId).objects =
      (r.removed env mboxId).objects index := by
    rw [h.mine, Option.elim_some]
  have hview : (r.withdrawn env mboxId).view =
      { r.view with mMyMailbox := some ((r.removed env mboxId).objects index) } := by
    simp [view, withdrawn, h.mine]
  unfold Platform.deleteMailbox
  rw [if_neg hinit, hmine, Option.map_some, if_neg (not_not_intro h.named)]
  dsimp only [answers]
  rw [hremove, ← hview]
  rfl

theorem view_deleteMailbox :
    (r.deleteMailbox env mboxId).map (fun d => (d.1.view, d.2)) =
      r.view.deleteMailbox (answers env place r name mboxId) mboxId := by
  by_cases h : ∃ index, r.Deletes mboxId index
  · obtain ⟨index, h⟩ := h
    rw [deleteMailbox_eq h, deleteMailbox_view_eq h, Option.map_some]
    congr 1
    dsimp only
    split_ifs with hnotifies hrc hrc' hrc'
    · exact Prod.ext (view_request.trans (if_pos hrc')) rfl
    · exact absurd hrc hrc'
    · exact absurd hrc' hrc
    · have hview := view_request.trans (if_neg hrc')
      exact Prod.ext (congrArg (fun p : Platform => { p with mMyMailbox := none }) hview) rfl
    · rfl
  · unfold deleteMailbox Platform.deleteMailbox
    rw [view_mIsInitialised, view_mMyMailbox]
    by_cases hidle : r.mIsInitialised = false
    · rw [if_pos hidle, if_pos hidle]
      rfl
    rw [if_neg hidle, if_neg hidle]
    cases hmine : r.mMyMailbox with
    | none => rfl
    | some index =>
      have hother : mboxId ≠ (r.mMboxList.objects index).mailboxId := fun hnamed =>
        h ⟨index, by simpa using hidle, hmine, hnamed⟩
      rw [Option.map_some, Option.map_some, if_pos hother, Option.map_some, Option.map_some,
        if_pos hother]

end View

/-- A creation that fails leaves the mailbox behind exactly when it fails after `emplace`, a
deletion that fails has given up the mailbox exactly when it is the itc-server that could not be
told, and the two undo each other exactly when the unit part of a new id is the place, and an old
one is not registered. -/
theorem fails_cleanly_iff (env env' : Env) (place : Option (Fin itcMaxSupportedMailboxes))
    (r : Registry) (name : Name) (flags : BitVec 32) (mboxId : MailboxId) :
    (r.CreatesCleanly env place name flags ↔
      ∀ index, r.Emplaces place index → r.Finishes env index) ∧
    (r.DeletesCleanly env mboxId ↔
      ∀ index, r.Deletes mboxId index →
        r.Tells env ((r.removed env mboxId).objects index).mailboxId ∨ r.Vacant mboxId) ∧
    (r.Restores env env' place name flags ↔
      (∀ index, r.Emplaces place index → r.Finishes env index → r.Tells env' (r.idAt index) →
        (r.idAt index &&& itcMaskUnitId).toNat = index) ∧
      ∀ mboxId index, r.Deletes mboxId index → mboxId ≠ itcMailboxIdDefault →
        r.Tells env' ((r.removed env' mboxId).objects index).mailboxId → r.Vacant mboxId) :=
  ⟨createsCleanly_iff, deletesCleanly_iff, restores_iff⟩

def firstThread : Registry :=
  { mRegionId := 0x00300000, mItcServerMboxId := 0x00100001, mIsInitialised := true,
    mMboxList := ⟨fun _ => ⟨itcMailboxIdDefault, []⟩, fun _ => false⟩, mMyMailbox := none,
    memory := Platform.caller.memory, next := 1 }

/-- The itc-server cannot be told of the new mailbox: it stays registered, and the thread keeps
it. -/
theorem leaves_mailbox_behind : ¬ ∀ env env' place (r : Registry) name flags mboxId,
    r.mIsInitialised = true → r.CreatesCleanly env place name flags ∧
      r.DeletesCleanly env mboxId ∧ r.Restores env env' place name flags := by
  intro h
  have hclean := (h (Platform.answering false) (Platform.answering false) (some 5) firstThread []
    0 0 rfl).1
  have hmy := (hclean (by decide)).mMyMailbox
  cases hmy

end Registry

end ItcPlatform.Api
