import ItcPlatform.Api.Notification
import ItcPlatform.Api.Threads
import ItcPlatform.Lib.Directory

/-! What the itc-server can know of the mailboxes of a process: the table is changed first, and the
request that tells of it is sent afterwards, with other threads in between. -/

namespace ItcPlatform.Api
open Interleaving Registry TransportLocal Directory LittleEndian AdminMessageHelper
variable {ι : Type*}

namespace Registry
variable (env : Env) (place : Option (Fin itcMaxSupportedMailboxes)) (r : Registry)

/-- `createMailbox` up to the request to the itc-server; `none` where that is still to come. -/
def beginCreate (name : Name) : Registry × Option MailboxId :=
  if r.mIsInitialised = false then (r, some itcMailboxIdDefault)
  else
    match r.mMyMailbox with
    | some index => (r, some (r.mMboxList.objects index).mailboxId)
    | none =>
      match r.mMboxList.emplace place ⟨itcMailboxIdDefault, name⟩ with
      | none => (r, some itcMailboxIdDefault)
      | some (mMboxList, index) =>
        let mailboxId := r.mRegionId ||| (BitVec.ofNat 32 index &&& itcMaskUnitId)
        let mMboxList :=
          if (mMboxList.entry index).isSome then
            mMboxList.modify index fun mbox => { mbox with mailboxId }
          else mMboxList
        let r := { r with mMboxList, mMyMailbox := some index }
        if env.setSpecific ≠ 0 then (r, some itcMailboxIdDefault)
        else if r.view.notifies then (r, none)
        else (r, some (mMboxList.objects index).mailboxId)

def announce (name : Name) (flags : BitVec 32) : Option (Registry × MailboxId) :=
  r.mMyMailbox.map fun index =>
    let my := r.mMboxList.objects index
    let (r, rc) := r.request env (Platform.creationRequest env my name flags)
    if rc ≠ .itcOk then (r, itcMailboxIdDefault) else (r, my.mailboxId)

/-- `deleteMailbox` up to the request to the itc-server, with the name that is left for it. -/
def beginDelete (mboxId : MailboxId) : Option (Registry × (ReturnCode ⊕ Name)) :=
  if r.mIsInitialised = false then some (r, .inl .itcFailed)
  else
    r.mMyMailbox.map fun index =>
      if mboxId ≠ (r.mMboxList.objects index).mailboxId then (r, .inl .itcFailed)
      else
        let mboxName := (r.mMboxList.objects index).name
        let mMboxList := r.mMboxList.remove env.remove (mboxId &&& itcMaskUnitId).toNat
        let r := { r with mMboxList }
        if r.view.notifies then (r, .inr mboxName)
        else ({ r with mMyMailbox := none }, .inl .itcOk)

def withdraw (mboxName : Name) : Option (Registry × ReturnCode) :=
  r.mMyMailbox.map fun index =>
    let (r, rc) := r.request env (Platform.deletionRequest env (r.mMboxList.objects index) mboxName)
    if rc ≠ .itcOk then (r, .itcFailed) else ({ r with mMyMailbox := none }, .itcOk)

variable {env place r} {r' : Registry} {name mboxName : Name} {flags : BitVec 32}
  {mboxId : MailboxId} {index : Fin itcMaxSupportedMailboxes}

/-! ### The two halves make the whole call -/

theorem beginCreate_of_emplaces (h : r.Emplaces place index) (hkeyed : env.setSpecific = 0)
    (hnotifies : r.view.notifies = true) :
    r.beginCreate env place name = (r.emplaced index name, none) := by
  obtain ⟨hinit, hnew, rfl, hfree⟩ := h
  let mMboxList : SlotTable itcMaxSupportedMailboxes Mailbox :=
    ⟨Function.update r.mMboxList.objects index ⟨itcMailboxIdDefault, name⟩,
      Function.update r.mMboxList.isActive index true⟩
  have hemplace : r.mMboxList.emplace (some index) ⟨itcMailboxIdDefault, name⟩ =
      some (mMboxList, index) := SlotTable.emplace_eq_some_iff.mpr ⟨rfl, hfree, rfl⟩
  have hsome : (mMboxList.entry index).isSome := by simp [mMboxList, SlotTable.entry_emplaced]
  have hmodify : mMboxList.modify index (fun mbox =>
      { mbox with mailboxId := r.mRegionId ||| (BitVec.ofNat 32 index &&& itcMaskUnitId) }) =
        (r.emplaced index name).mMboxList := by
    simp [SlotTable.modify, emplaced, mMboxList, idAt]
  unfold beginCreate
  rw [if_neg (by simp [hinit]), hnew]
  dsimp only
  rw [hemplace]
  dsimp only
  rw [if_pos hsome, hmodify, if_neg (not_not_intro hkeyed), if_pos (by exact hnotifies)]
  rfl

theorem createMailbox_eq_halves : some (r.createMailbox env place name flags) =
    match r.beginCreate env place name with
    | (r', some mailboxId) => some (r', mailboxId)
    | (r', none) => r'.announce env name flags := by
  unfold createMailbox beginCreate
  by_cases hinit : r.mIsInitialised = false
  · rw [if_pos hinit, if_pos hinit]
  rw [if_neg hinit, if_neg hinit]
  cases hmine : r.mMyMailbox with
  | some index => rfl
  | none =>
    cases hplaced : r.mMboxList.emplace place ⟨itcMailboxIdDefault, name⟩ with
    | none => rfl
    | some placed =>
      dsimp only
      by_cases hkeyed : env.setSpecific ≠ 0
      · rw [if_pos hkeyed, if_pos hkeyed]
      · rw [if_neg hkeyed, if_neg hkeyed]
        split <;> split <;> rfl

theorem deleteMailbox_eq_halves : r.deleteMailbox env mboxId =
    (r.beginDelete env mboxId).bind fun d =>
      d.2.elim (fun rc => some (d.1, rc)) (d.1.withdraw env) := by
  unfold deleteMailbox beginDelete
  by_cases hinit : r.mIsInitialised = false
  · rw [if_pos hinit, if_pos hinit]
    rfl
  rw [if_neg hinit, if_neg hinit]
  cases hmine : r.mMyMailbox with
  | none => rfl
  | some index =>
    rw [Option.map_some, Option.map_some, Option.bind_some]
    by_cases hnamed : mboxId ≠ (r.mMboxList.objects index).mailboxId
    · rw [if_pos hnamed, if_pos hnamed]
      rfl
    · rw [if_neg hnamed, if_neg hnamed]
      dsimp only
      split
      · rfl
      · rfl

/-! ### What the requests say -/

def cut (name : Name) : Name := name.takeWhile (· ≠ 0)

def notice? (m : AdminMessage) : Option (Notice MailboxId Name) :=
  if m.msgno ≠ itcSystemMessageNotifyMboxCreationDeletionToItcServerRequest then none
  else
    let req := userBytes m
    let mboxId := BitVec.ofNat 32 (load req 8 4)
    match load req 4 4 with
    | 1 => some (.added mboxId (cut (req.drop 16)))
    | 2 => some (.removed mboxId)
    | _ => none

/-- What the itc-server was told since `r`, in the order of allocation. -/
def notices (r r' : Registry) : List (Notice MailboxId Name) :=
  (Platform.sentFrom r.view r'.view).filterMap notice?

theorem cut_cString (rest : List Byte) : cut (cString name ++ rest) = cut name := by
  have hall : ∀ b ∈ name.takeWhile (· ≠ (0 : Byte)), decide (b ≠ 0) = true :=
    fun _ hb => List.mem_takeWhile_imp (p := fun b : Byte => decide (b ≠ 0)) hb
  rw [cut, cString, List.append_assoc, List.takeWhile_append_of_pos hall]
  simp [cut]

section Notices
variable {p : Platform} {m : AdminMessage}

theorem notice_of_creation (h : p.Notifies 1 mboxId name m) :
    notice? m = some (.added mboxId (cut name)) := by
  obtain ⟨rest, hrest⟩ := h.mboxName
  rw [notice?, if_neg (not_not_intro h.msgno)]
  simp [h.isCreation, h.mboxId, ← hrest, cut_cString]

theorem notice_of_deletion (h : p.Notifies 2 mboxId name m) :
    notice? m = some (.removed mboxId) := by
  rw [notice?, if_neg (not_not_intro h.msgno)]
  simp [h.isCreation, h.mboxId]

end Notices

theorem sentFrom_append {p q q' : Platform} (hpq : p.next ≤ q.next) (hqq' : q.next ≤ q'.next)
    (hmemory : ∀ m < q.next, q'.memory m = q.memory m) :
    Platform.sentFrom p q' = Platform.sentFrom p q ++ Platform.sentFrom q q' := by
  obtain ⟨a, ha⟩ := Nat.exists_eq_add_of_le hpq
  obtain ⟨b, hb⟩ := Nat.exists_eq_add_of_le hqq'
  have halloc : Platform.allocatedFrom p q' =
      Platform.allocatedFrom p q ++ Platform.allocatedFrom q q' := by
    have hsplit : q'.next - p.next = a + b := by omega
    have hold : (List.range' p.next a).map q.memory = (List.range' p.next a).map q'.memory := by
      refine List.map_congr_left fun m hm => (hmemory m ?_).symm
      have := List.mem_range'_1.mp hm
      omega
    rw [Platform.allocatedFrom, Platform.allocatedFrom, Platform.allocatedFrom, hsplit,
      show q.next - p.next = a by omega, show q'.next - q.next = b by omega, hold,
      ← List.map_append, ha, List.range'_append_1]
  rw [Platform.sentFrom, halloc, List.filterMap_append]
  rfl

theorem sentFrom_congr {p q q' : Platform} (hnext : q.next = q'.next)
    (hmemory : q.memory = q'.memory) : Platform.sentFrom p q = Platform.sentFrom p q' := by
  rw [Platform.sentFrom, Platform.sentFrom, Platform.allocatedFrom_congr hnext hmemory]

theorem request_told {r₀ : Registry} {my : Mailbox} {isCreation : BitVec 32}
    {ext : Option (BitVec 32)} {notice : Notice MailboxId Name} (req : AdminMessage)
    (hreq : req = notifyRequest env.heap isCreation my.mailboxId ext name)
    (hlater : r₀.next ≤ r.next) (hmy : r.view.mMyMailbox = some my) (h : r.view.Sends env)
    (hnotice : ∀ req, r.view.Notifies isCreation my.mailboxId name req →
      notice? req = some notice) :
    ∃ memory, r.request env req = ({ r with memory, next := r.next + 1 }, .itcOk) ∧
      notices r₀ { r with memory, next := r.next + 1 } = notices r₀ r ++ [notice] := by
  obtain ⟨hrc, -⟩ := Platform.requested_taken req h
  have hnext : (Platform.requested env r.view req).1.next = r.next + 1 :=
    Platform.requested_next env r.view req
  have hrequest : r.request env req =
      let q := Platform.requested env r.view req
      let p := if q.2 ≠ .itcOk then (q.1.deallocateMessage r.next).1 else q.1
      ({ r with memory := p.memory, next := p.next }, q.2) := rfl
  have hsent := @Platform.sentFrom_requested env r.view r.view req rfl my hmy h
  have hothers := (Platform.sent env (r.view.allocateMessage req).1 r.next).others
  dsimp only at hrequest
  rw [if_neg (not_not_intro hrc)] at hrequest hsent
  generalize hmemory : (Platform.requested env r.view req).1.memory = memory at hrequest
  rw [hrc, hnext] at hrequest
  refine ⟨memory, hrequest, ?_⟩
  have hbefore : ∀ m < r.next, memory m = r.memory m := by
    intro m hm
    rw [← hmemory]
    refine (hothers m hm.ne).trans ?_
    simp [Platform.allocateMessage, view, hm.ne]
  have hlast := (sentFrom_congr (q := view { r with memory, next := r.next + 1 })
    hnext.symm hmemory.symm).trans hsent
  have happend := @sentFrom_append r₀.view r.view (view { r with memory, next := r.next + 1 })
    hlater (Nat.le_succ _) hbefore
  rw [notices, happend, hlast, List.filterMap_append, List.filterMap_cons,
    hnotice _ (hreq ▸ Platform.notifies_notifyRequest _ _ _ _ _ _)]
  rfl

theorem announce_told {r₀ : Registry} (hmine : r.mMyMailbox = some index)
    (hlater : r₀.next ≤ r.next) (h : r.view.Sends env) {c : Registry × MailboxId}
    (hc : r.announce env name flags = some c) :
    ∃ memory, c.1 = { r with memory, next := r.next + 1 } ∧ notices r₀ c.1 =
      notices r₀ r ++ [.added (r.mMboxList.objects index).mailboxId (cut name)] := by
  obtain ⟨memory, heq, htold⟩ := request_told (Platform.creationRequest env
    (r.mMboxList.objects index) name flags) rfl hlater (congrArg (Option.map _) hmine) h
    fun _ => notice_of_creation
  rw [announce, hmine, Option.map_some] at hc
  obtain rfl := Option.some.inj hc
  dsimp only
  rw [heq]
  exact ⟨memory, rfl, htold⟩

theorem withdraw_told {r₀ : Registry} (hmine : r.mMyMailbox = some index)
    (hlater : r₀.next ≤ r.next) (h : r.view.Sends env) {d : Registry × ReturnCode}
    (hd : r.withdraw env mboxName = some d) :
    ∃ memory, d.1 = { r with memory, next := r.next + 1, mMyMailbox := none } ∧ notices r₀ d.1 =
      notices r₀ r ++ [.removed (r.mMboxList.objects index).mailboxId] := by
  obtain ⟨memory, heq, htold⟩ := request_told (Platform.deletionRequest env
    (r.mMboxList.objects index) mboxName) rfl hlater (congrArg (Option.map _) hmine) h
    fun _ => notice_of_deletion
  rw [withdraw, hmine, Option.map_some] at hd
  obtain rfl := Option.some.inj hd
  dsimp only
  rw [heq]
  exact ⟨memory, rfl, htold⟩

/-! ### What the first halves do -/

theorem beginCreate_of_not_emplaces (h : ¬ ∃ index, r.Emplaces place index) :
    ∃ mailboxId, r.beginCreate env place name = (r, some mailboxId) := by
  unfold beginCreate
  split
  · exact ⟨_, rfl⟩
  next hinit =>
  split
  · exact ⟨_, rfl⟩
  next hnew =>
  split
  · exact ⟨_, rfl⟩
  next mMboxList index hemplace =>
  obtain ⟨hplace, hfree, -⟩ := SlotTable.emplace_eq_some_iff.mp hemplace
  exact absurd ⟨index, by simpa using hinit, hnew, hplace, hfree⟩ h

theorem beginDelete_of_deletes (h : r.Deletes mboxId index) (hnotifies : r.view.notifies = true) :
    r.beginDelete env mboxId =
      some (r.withdrawn env mboxId, .inr (r.mMboxList.objects index).name) := by
  rw [beginDelete, if_neg (by simp [h.initialised])]
  refine (congrArg (Option.map _) h.mine).trans ?_
  rw [Option.map_some, if_neg (not_not_intro h.named)]
  exact congrArg some (if_pos hnotifies)

theorem beginDelete_failed (h : ¬ ∃ index, r.Deletes mboxId index)
    {d : Registry × (ReturnCode ⊕ Name)} (hd : r.beginDelete env mboxId = some d) :
    d = (r, .inl .itcFailed) := by
  unfold beginDelete at hd
  split at hd
  · exact (Option.some.inj hd).symm
  next hinit =>
  obtain ⟨index, hmine, rfl⟩ := Option.map_eq_some_iff.mp hd
  exact if_pos fun hnamed => h ⟨index, by simpa using hinit, hmine, hnamed⟩

theorem mailboxId_removed (hkeeps : ∀ i : Fin itcMaxSupportedMailboxes,
      (i : ℕ) = (mboxId &&& itcMaskUnitId).toNat →
        (env.remove (r.mMboxList.objects i)).mailboxId = (r.mMboxList.objects i).mailboxId)
    (i : Fin itcMaxSupportedMailboxes) :
    ((r.removed env mboxId).objects i).mailboxId = (r.mMboxList.objects i).mailboxId := by
  rw [removed, SlotTable.remove]
  split_ifs with hlt hactive
  · dsimp only
    by_cases hi : i = ⟨_, hlt⟩
    · rw [hi, Function.update_self]
      exact hkeeps _ rfl
    · rw [Function.update_of_ne hi]
  · rfl
  · rfl

def registered (r : Registry) (i : Fin itcMaxSupportedMailboxes) : Option Name :=
  (r.mMboxList.entry i).map fun mbox => cut mbox.name

end Registry

/-! ### The threads -/

/-- A thread may be between the two halves of a call, and then `exits` if the call is the one of
the destructor. -/
inductive Pc
  | outside
  | announcing (name : Name) (flags : BitVec 32)
  | withdrawing (mboxName : Name) (exits : Bool)

structure Registrant extends ThreadLocals where
  pc : Pc

inductive RegistrationStep
  | call (c : ThreadCall)
  | notify (env : Env)

namespace Registrant

def resume (th : Registrant) (mMyMailbox : Option (Fin itcMaxSupportedMailboxes))
    (exits : Bool) : Registrant :=
  if exits then ⟨⟨none, none, true⟩, .outside⟩ else { th with mMyMailbox, pc := .outside }

def left (th : Registrant) (d : Registry × (ReturnCode ⊕ Name)) (exits : Bool) : Registrant :=
  d.2.elim (fun _ => th.resume d.1.mMyMailbox exits) fun mboxName =>
    { th with pc := .withdrawing mboxName exits }

def stage (th : Registrant) : Stage (Fin itcMaxSupportedMailboxes) Name :=
  match th.mMyMailbox, th.pc with
  | none, _ => .idle
  | some index, .outside => .listed index
  | some index, .announcing name _ => .announcing index (cut name)
  | some index, .withdrawing _ _ => .withdrawing index

end Registrant

def Registrant.exit (env : Env) (r : Registry) (th : Registrant) : Option (Registry × Registrant) :=
  match th.destructKey with
  | none => some (r, ⟨⟨none, none, true⟩, .outside⟩)
  | some args =>
    let myMbox := r.mMboxList.objects args
    if r.exist myMbox.name then
      ((r.seenBy th.toThreadLocals).beginDelete env myMbox.mailboxId).map fun d =>
        (d.1, th.left d true)
    else some (r, ⟨⟨none, none, true⟩, .outside⟩)

def registering : Program ι RegistrationStep Registry Registrant := fun _ a r th =>
  if th.hasEnded then none
  else
    match th.pc, a with
    | .outside, .call (.createMailbox env place name flags) =>
      let (r', mailboxId) := (r.seenBy th.toThreadLocals).beginCreate env place name
      some (r', ⟨th.created env.setSpecific r'.mMyMailbox,
        if mailboxId.isNone then .announcing name flags else .outside⟩)
    | .outside, .call (.deleteMailbox env mboxId) =>
      ((r.seenBy th.toThreadLocals).beginDelete env mboxId).map fun d => (d.1, th.left d false)
    | .outside, .call (.exit env) => Registrant.exit env r th
    | .announcing name flags, .notify env =>
      ((r.seenBy th.toThreadLocals).announce env name flags).map fun c =>
        (c.1, { th with pc := .outside })
    | .withdrawing mboxName exits, .notify env =>
      ((r.seenBy th.toThreadLocals).withdraw env mboxName).map fun d =>
        (d.1, th.resume d.1.mMyMailbox exits)
    | _, _ => none

def newRegistrants (r : Registry) : State ι Registry Registrant :=
  ⟨r, fun _ => ⟨⟨none, none, false⟩, .outside⟩⟩

/-- The key is set for every new mailbox, `remove` leaves the id of a mailbox where it was, and
requests are taken over. -/
def Handled (s : State ι Registry Registrant) (i : ι) : RegistrationStep → Prop
  | .call (.createMailbox env _ _ _) => env.setSpecific = 0
  | .call (.deleteMailbox env _) | .call (.exit env) => ∀ index ∈ (s.locals i).mMyMailbox,
      (env.remove (s.shared.mMboxList.objects index)).mailboxId =
        (s.shared.mMboxList.objects index).mailboxId
  | .notify env => (s.shared.seenBy (s.locals i).toThreadLocals).view.Sends env

/-- No place is taken while the itc-server has yet to be told that it was left. -/
def Unclaimed (s : State ι Registry Registrant) : RegistrationStep → Prop
  | .call (.createMailbox _ place _ _) =>
    ∀ index ∈ place, ∀ j, (s.locals j).stage ≠ .withdrawing index
  | _ => True

def InTurn (s : State ι Registry Registrant) (i : ι) (a : RegistrationStep) : Prop :=
  Handled s i a ∧ Unclaimed s a

section Decide
variable [Fintype ι] (s : State ι Registry Registrant) (i : ι)

instance : ∀ a, Decidable (Handled s i a)
  | .call (.createMailbox env _ _ _) => inferInstanceAs (Decidable (env.setSpecific = 0))
  | .call (.deleteMailbox env _) | .call (.exit env) => inferInstanceAs (Decidable
      (∀ index ∈ (s.locals i).mMyMailbox,
        (env.remove (s.shared.mMboxList.objects index)).mailboxId =
          (s.shared.mMboxList.objects index).mailboxId))
  | .notify _ => inferInstanceAs (Decidable (_ ∧ ∃ _ ∈ _, _ ∧ _))

instance : ∀ a, Decidable (Unclaimed s a)
  | .call (.createMailbox _ place _ _) => inferInstanceAs (Decidable
      (∀ index ∈ place, ∀ j, (s.locals j).stage ≠ .withdrawing index))
  | .call (.deleteMailbox _ _) | .call (.exit _) | .notify _ => .isTrue trivial

instance (a : RegistrationStep) : Decidable (InTurn s i a) := inferInstanceAs (Decidable (_ ∧ _))

end Decide

def Placed (r : Registry) (th : ThreadLocals) : Prop :=
  ∀ i, th.mMyMailbox = some i →
    th.destructKey = some i ∧ (r.mMboxList.objects i).mailboxId = r.idAt i

inductive Progress (r₀ : Registry) (s : State ι Registry Registrant) (t : ι) (r' : Registry)
    (th' : Registrant) : Prop
  | entered (index : Fin itcMaxSupportedMailboxes) (name : Name)
      (before : (s.locals t).stage = .idle) (free : s.shared.registered index = none)
      (told : ∀ t', (s.locals t').stage ≠ .withdrawing index)
      (after : th'.stage = .announcing index name)
      (registered : r'.registered = Function.update s.shared.registered index (some name))
      (notices : notices r₀ r' = notices r₀ s.shared)
  | announced (index : Fin itcMaxSupportedMailboxes) (name : Name)
      (before : (s.locals t).stage = .announcing index name) (after : th'.stage = .listed index)
      (registered : r'.registered = s.shared.registered)
      (notices : notices r₀ r' = notices r₀ s.shared ++ [.added (s.shared.idAt index) name])
  | left (index : Fin itcMaxSupportedMailboxes)
      (before : (s.locals t).stage = .listed index) (after : th'.stage = .withdrawing index)
      (registered : r'.registered = Function.update s.shared.registered index none)
      (notices : notices r₀ r' = notices r₀ s.shared)
  | withdrew (index : Fin itcMaxSupportedMailboxes)
      (before : (s.locals t).stage = .withdrawing index) (after : th'.stage = .idle)
      (registered : r'.registered = s.shared.registered)
      (notices : notices r₀ r' = notices r₀ s.shared ++ [.removed (s.shared.idAt index)])
  | stayed (stage : th'.stage = (s.locals t).stage)
      (registered : r'.registered = s.shared.registered)
      (notices : notices r₀ r' = notices r₀ s.shared)

structure Advances (r₀ : Registry) (s : State ι Registry Registrant) (t : ι) (r' : Registry)
    (th' : Registrant) : Prop where
  initialised : r'.mIsInitialised = s.shared.mIsInitialised
  region : r'.mRegionId = s.shared.mRegionId
  server : r'.mItcServerMboxId = s.shared.mItcServerMboxId
  later : s.shared.next ≤ r'.next
  ids : ∀ i, (s.shared.mMboxList.objects i).mailboxId = s.shared.idAt i →
    (r'.mMboxList.objects i).mailboxId = s.shared.idAt i
  placed : Placed r' th'.toThreadLocals
  progress : Progress r₀ s t r' th'

/-- The itc-server has been told of the mailboxes of the process, but for those that a thread is
announcing or withdrawing. -/
structure Kept (r₀ : Registry) (s : State ι Registry Registrant) : Prop where
  initialised : s.shared.mIsInitialised = true
  region : s.shared.mRegionId = r₀.mRegionId
  server : s.shared.mItcServerMboxId = r₀.mItcServerMboxId
  later : r₀.next ≤ s.shared.next
  placed : ∀ t, Placed s.shared (s.locals t).toThreadLocals
  mirrors : Mirrors r₀.idAt s.shared.registered (notices r₀ s.shared) fun t => (s.locals t).stage

section Step
variable {r₀ r r' : Registry} {s : State ι Registry Registrant} {t : ι} {th' : Registrant}
  {env : Env} {mboxId : MailboxId} {index : Fin itcMaxSupportedMailboxes}

theorem idAt_congr (h : r'.mRegionId = r.mRegionId) : r'.idAt = r.idAt := by
  funext i
  rw [idAt, idAt, h]

theorem idAt_injective (h : unitOf r.mRegionId = 0) : Function.Injective r.idAt := by
  intro i j hij
  have hi := @unitOf_idAt r i h
  rw [hij, unitOf_idAt h] at hi
  exact Fin.ext hi.symm

theorem registered_emplaced {name : Name} : (r.emplaced index name).registered =
    Function.update r.registered index (some (cut name)) := by
  funext i
  rw [registered, entry_emplaced]
  by_cases hi : i = index
  · subst hi
    simp
  · rw [Function.update_of_ne hi, Function.update_of_ne hi, registered]

theorem registered_removed (h : unitOf r.mRegionId = 0) :
    (r.withdrawn env (r.idAt index)).registered = Function.update r.registered index none := by
  funext i
  rw [registered, withdrawn, removed, unitOf_idAt h, SlotTable.entry_remove]
  by_cases hi : i = index
  · subst hi
    simp
  · rw [Function.update_of_ne hi, Function.update_of_ne hi, registered]

theorem created_self (th : ThreadLocals) (setSpecific : ℤ) :
    th.created setSpecific th.mMyMailbox = th := by
  obtain ⟨mMyMailbox, destructKey, hasEnded⟩ := th
  cases mMyMailbox <;> simp [ThreadLocals.created]

theorem advances_stayed (mMyMailbox : Option (Fin itcMaxSupportedMailboxes))
    (hplaced : Placed s.shared th'.toThreadLocals) (hstage : th'.stage = (s.locals t).stage) :
    Advances r₀ s t { s.shared with mMyMailbox } th' :=
  ⟨rfl, rfl, rfl, le_rfl, fun _ hi => hi, hplaced, .stayed hstage rfl rfl⟩

theorem advances_create {place : Option (Fin itcMaxSupportedMailboxes)} {name : Name}
    (flags : BitVec 32) (houtside : (s.locals t).pc = .outside)
    (hplaced : Placed s.shared (s.locals t).toThreadLocals)
    (hnotifies : s.shared.view.notifies = true) (hkeyed : env.setSpecific = 0)
    (htold : ∀ index ∈ place, ∀ j, (s.locals j).stage ≠ .withdrawing index) :
    let c := (s.shared.seenBy (s.locals t).toThreadLocals).beginCreate env place name
    Advances r₀ s t c.1 ⟨(s.locals t).toThreadLocals.created env.setSpecific c.1.mMyMailbox,
      if c.2.isNone then .announcing name flags else .outside⟩ := by
  by_cases hplace : ∃ index, (s.shared.seenBy (s.locals t).toThreadLocals).Emplaces place index
  · obtain ⟨index, hindex⟩ := hplace
    have hnew : (s.locals t).mMyMailbox = none := hindex.new
    rw [beginCreate_of_emplaces hindex hkeyed hnotifies]
    refine ⟨rfl, rfl, rfl, le_rfl, fun i hi => ?_, fun i hi => ?_, .entered index (cut name) ?_ ?_
      (htold index hindex.place) rfl registered_emplaced rfl⟩
    · by_cases hne : i = index
      · subst hne
        exact congrArg Mailbox.mailboxId object_emplaced
      · refine (congrArg Mailbox.mailboxId (Function.update_of_ne hne _ _)).trans hi
    · obtain rfl : index = i := Option.some.inj hi
      refine ⟨?_, congrArg Mailbox.mailboxId object_emplaced⟩
      simp [ThreadLocals.created, hnew, hkeyed, emplaced]
    · simp [Registrant.stage, hnew]
    · exact congrArg (Option.map fun mbox => cut mbox.name) hindex.free
  · obtain ⟨mailboxId, heq⟩ := @beginCreate_of_not_emplaces env place _ name hplace
    rw [heq]
    have hsame : (⟨(s.locals t).toThreadLocals.created env.setSpecific (s.locals t).mMyMailbox,
        .outside⟩ : Registrant) = s.locals t := by
      rw [created_self, ← houtside]
    exact (congrArg (Advances r₀ s t _) hsame).mpr (advances_stayed _ hplaced rfl)

theorem stage_outside (houtside : (s.locals t).pc = .outside)
    (hmine : (s.locals t).mMyMailbox = some index) : (s.locals t).stage = .listed index := by
  rw [Registrant.stage, hmine, houtside]

theorem advances_delete (hregion : unitOf s.shared.mRegionId = 0)
    (houtside : (s.locals t).pc = .outside)
    (hplaced : Placed s.shared (s.locals t).toThreadLocals)
    (hkeeps : (env.remove (s.shared.mMboxList.objects index)).mailboxId =
      (s.shared.mMboxList.objects index).mailboxId)
    (hdeletes : (s.shared.seenBy (s.locals t).toThreadLocals).Deletes mboxId index)
    (mboxName : Name) (exits : Bool) :
    Advances r₀ s t ((s.shared.seenBy (s.locals t).toThreadLocals).withdrawn env mboxId)
      { s.locals t with pc := .withdrawing mboxName exits } := by
  have hmine : (s.locals t).mMyMailbox = some index := hdeletes.mine
  obtain rfl : mboxId = s.shared.idAt index := hdeletes.named.trans (hplaced index hmine).2
  have hids := @mailboxId_removed env s.shared (s.shared.idAt index) fun i hi => by
    rw [unitOf_idAt hregion] at hi
    rwa [Fin.ext hi]
  refine ⟨rfl, rfl, rfl, le_rfl, fun i hi => (hids i).trans hi, fun i hi => ?_, .left index
    (stage_outside houtside hmine) ?_ (registered_removed hregion) rfl⟩
  · exact ⟨(hplaced i hi).1, (hids i).trans (hplaced i hi).2⟩
  · simp [Registrant.stage, hmine]

theorem advances_announce {name : Name} {flags : BitVec 32}
    (hpc : (s.locals t).pc = .announcing name flags) (hlater : r₀.next ≤ s.shared.next)
    (hplaced : Placed s.shared (s.locals t).toThreadLocals)
    (hsends : (s.shared.seenBy (s.locals t).toThreadLocals).view.Sends env)
    {c : Registry × MailboxId}
    (hc : (s.shared.seenBy (s.locals t).toThreadLocals).announce env name flags = some c) :
    Advances r₀ s t c.1 { s.locals t with pc := .outside } := by
  obtain ⟨index, hseen, -⟩ := Option.map_eq_some_iff.mp hc
  have hmine : (s.locals t).mMyMailbox = some index := hseen
  obtain ⟨memory, heq, htold⟩ := announce_told hseen hlater hsends hc
  rw [heq] at htold ⊢
  refine ⟨rfl, rfl, rfl, Nat.le_succ _, fun _ hi => hi, hplaced, .announced index (cut name) ?_ ?_
    rfl (htold.trans ?_)⟩
  · rw [Registrant.stage, hmine, hpc]
  · simp [Registrant.stage, hmine]
  · rw [← (hplaced index hmine).2]
    rfl

theorem advances_withdraw {mboxName : Name} {exits : Bool}
    (hpc : (s.locals t).pc = .withdrawing mboxName exits) (hlater : r₀.next ≤ s.shared.next)
    (hplaced : Placed s.shared (s.locals t).toThreadLocals)
    (hsends : (s.shared.seenBy (s.locals t).toThreadLocals).view.Sends env)
    {d : Registry × ReturnCode}
    (hd : (s.shared.seenBy (s.locals t).toThreadLocals).withdraw env mboxName = some d) :
    Advances r₀ s t d.1 ((s.locals t).resume d.1.mMyMailbox exits) := by
  obtain ⟨index, hseen, -⟩ := Option.map_eq_some_iff.mp hd
  have hmine : (s.locals t).mMyMailbox = some index := hseen
  obtain ⟨memory, heq, htold⟩ := withdraw_told hseen hlater hsends hd
  rw [heq] at htold ⊢
  have hnone : ((s.locals t).resume none exits).mMyMailbox = none := by
    cases exits <;> rfl
  refine ⟨rfl, rfl, rfl, Nat.le_succ _, fun _ hi => hi, fun i hi => ?_, .withdrew index ?_ ?_
    rfl (htold.trans ?_)⟩
  · cases hnone.symm.trans hi
  · rw [Registrant.stage, hmine, hpc]
  · rw [Registrant.stage, hnone]
  · rw [← (hplaced index hmine).2]
    rfl

theorem advances_ended (hnew : (s.locals t).mMyMailbox = none) :
    Advances r₀ s t s.shared ⟨⟨none, none, true⟩, .outside⟩ :=
  advances_stayed _ nofun (by simp [Registrant.stage, hnew])

theorem Kept.advances_exit (h : Kept r₀ s) (hregion : unitOf s.shared.mRegionId = 0)
    (hnotifies : s.shared.view.notifies = true) (houtside : (s.locals t).pc = .outside)
    (hkeeps : ∀ index ∈ (s.locals t).mMyMailbox,
      (env.remove (s.shared.mMboxList.objects index)).mailboxId =
        (s.shared.mMboxList.objects index).mailboxId)
    (hexit : (s.locals t).exit env s.shared = some (r', th')) : Advances r₀ s t r' th' := by
  unfold Registrant.exit at hexit
  split at hexit
  next hkey =>
    obtain ⟨rfl, rfl⟩ := Prod.mk.inj (Option.some.inj hexit)
    refine advances_ended ?_
    by_contra hmine
    obtain ⟨i, hi⟩ := Option.ne_none_iff_exists'.mp hmine
    cases hkey.symm.trans (h.placed t i hi).1
  next args hkey =>
    dsimp only at hexit
    split_ifs at hexit with hexist
    · obtain ⟨d, hd, heq⟩ := Option.map_eq_some_iff.mp hexit
      obtain ⟨rfl, rfl⟩ := Prod.mk.inj heq
      have hmine : (s.locals t).mMyMailbox ≠ none := by
        intro hnone
        rw [beginDelete, if_neg (by simp [seenBy, h.initialised])] at hd
        obtain ⟨index, hindex, -⟩ := Option.map_eq_some_iff.mp hd
        cases hnone.symm.trans hindex
      obtain ⟨index, hindex⟩ := Option.ne_none_iff_exists'.mp hmine
      obtain rfl : args = index := Option.some.inj (hkey.symm.trans (h.placed t _ hindex).1)
      have hdeletes : (s.shared.seenBy (s.locals t).toThreadLocals).Deletes
        (s.shared.mMboxList.objects args).mailboxId args := ⟨h.initialised, hindex, rfl⟩
      rw [beginDelete_of_deletes hdeletes hnotifies] at hd
      obtain rfl := Option.some.inj hd
      exact advances_delete hregion houtside (h.placed t) (hkeeps args hindex) hdeletes _ true
    · obtain ⟨rfl, rfl⟩ := Prod.mk.inj (Option.some.inj hexit)
      refine advances_ended ?_
      by_contra hmine
      obtain ⟨index, hindex⟩ := Option.ne_none_iff_exists'.mp hmine
      obtain rfl : args = index := Option.some.inj (hkey.symm.trans (h.placed t _ hindex).1)
      have hfits := h.mirrors.fits t
      rw [stage_outside houtside hindex] at hfits
      exact hexist (exist_of_entry fun hnone => hfits.1 (congrArg (Option.map _) hnone))

variable [DecidableEq ι] {a : RegistrationStep}

theorem Kept.advance (h : Kept r₀ s) (hregion : unitOf r₀.mRegionId = 0)
    (hstep : Advances r₀ s t r' th') : Kept r₀ ⟨r', Function.update s.locals t th'⟩ := by
  have hkey := idAt_injective hregion
  have hid : s.shared.idAt = r₀.idAt := idAt_congr h.region
  have hid' : r'.idAt = s.shared.idAt := idAt_congr hstep.region
  refine ⟨hstep.initialised.trans h.initialised, hstep.region.trans h.region,
    hstep.server.trans h.server, h.later.trans hstep.later, ?_, ?_⟩
  · refine @forall_update ι Registrant _ (fun _ th => Placed s.shared th.toThreadLocals)
      (fun _ th => Placed r' th.toThreadLocals) _ t _ h.placed hstep.placed
      fun t' _ hplaced i hi => ?_
    rw [hid']
    exact ⟨(hplaced i hi).1, hstep.ids i (hplaced i hi).2⟩
  · have hstage : (fun t' => (Function.update s.locals t th' t').stage) =
        Function.update (fun t' => (s.locals t').stage) t th'.stage :=
      Function.comp_update Registrant.stage s.locals t th'
    rw [hstage]
    cases hstep.progress with
    | entered index name before free told after registered notices =>
      rw [after, registered, notices]
      exact h.mirrors.enter hkey before free told name
    | announced index name before after registered notices =>
      rw [after, registered, notices, hid]
      exact h.mirrors.announce hkey before
    | left index before after registered notices =>
      rw [after, registered, notices]
      exact h.mirrors.leave hkey before
    | withdrew index before after registered notices =>
      rw [after, registered, notices, hid]
      exact h.mirrors.withdraw hkey before
    | stayed stage registered notices =>
      rw [stage, registered, notices, Function.update_eq_self_iff.mpr rfl]
      exact h.mirrors

theorem Kept.step (h : Kept r₀ s) (hregion : unitOf r₀.mRegionId = 0)
    (hnotifies : r₀.view.notifies = true) (hok : InTurn s t a)
    (hstep : registering t a s.shared (s.locals t) = some (r', th')) :
    Kept r₀ ⟨r', Function.update s.locals t th'⟩ := by
  refine h.advance hregion ?_
  have hplaced := h.placed t
  have hnotifies' : s.shared.view.notifies = true := by
    rw [← hnotifies, Platform.notifies, Platform.notifies, view, view, h.region, h.server]
  have hregion' : unitOf s.shared.mRegionId = 0 := h.region.symm ▸ hregion
  unfold registering at hstep
  split_ifs at hstep with hended
  split at hstep
  next env place name flags houtside =>
    obtain ⟨rfl, rfl⟩ := Prod.mk.inj (Option.some.inj hstep)
    exact advances_create flags houtside hplaced hnotifies' hok.1 hok.2
  next env mboxId houtside =>
    obtain ⟨d, hd, heq⟩ := Option.map_eq_some_iff.mp hstep
    obtain ⟨rfl, rfl⟩ := Prod.mk.inj heq
    by_cases hdeletes : ∃ index,
        (s.shared.seenBy (s.locals t).toThreadLocals).Deletes mboxId index
    · obtain ⟨index, hindex⟩ := hdeletes
      rw [beginDelete_of_deletes hindex hnotifies'] at hd
      obtain rfl := Option.some.inj hd
      exact advances_delete hregion' houtside hplaced (hok.1 index hindex.mine) hindex _ false
    · obtain rfl := beginDelete_failed hdeletes hd
      refine advances_stayed _ hplaced ?_
      rw [Registrant.stage, Registrant.stage, houtside]
      rfl
  next env houtside => exact h.advances_exit hregion' hnotifies' houtside hok.1 hstep
  next name flags env hpc =>
    obtain ⟨c, hc, heq⟩ := Option.map_eq_some_iff.mp hstep
    obtain ⟨rfl, rfl⟩ := Prod.mk.inj heq
    exact advances_announce hpc h.later hplaced hok.1 hc
  next mboxName exits env hpc =>
    obtain ⟨d, hd, heq⟩ := Option.map_eq_some_iff.mp hstep
    obtain ⟨rfl, rfl⟩ := Prod.mk.inj heq
    exact advances_withdraw hpc h.later hplaced hok.1 hd
  next => cases hstep

end Step

structure Informed (r₀ : Registry) (s : State ι Registry Registrant) : Prop where
  /-- a place that no thread is announcing or withdrawing is known as it is -/
  agrees : ∀ i, (∀ t name, (s.locals t).stage ≠ .announcing i name) →
    (∀ t, (s.locals t).stage ≠ .withdrawing i) →
      replay (notices r₀ s.shared) (r₀.idAt i) = s.shared.registered i
  /-- the itc-server is behind with the others, and not wrong about them for another reason -/
  behind : ∀ t, (s.locals t).stage.Fits r₀.idAt s.shared.registered (notices r₀ s.shared)
  /-- no other id is known -/
  nowhere : ∀ mboxId, (∀ i, r₀.idAt i ≠ mboxId) → replay (notices r₀ s.shared) mboxId = none

/-- Wherever the threads are in their calls, the itc-server has been told of the mailboxes of the
process, but for those that are being announced or withdrawn. -/
theorem directory_of_threads [DecidableEq ι] {r₀ : Registry} {s : State ι Registry Registrant}
    (hr : Fresh r₀) (hnotifies : r₀.view.notifies = true)
    (h : Run registering InTurn (newRegistrants r₀) s) : Informed r₀ s := by
  have hkept : Kept r₀ s := by
    refine h.invariant ⟨hr.initialised, rfl, rfl, le_rfl, fun _ => nofun, ?_⟩
      fun s t a r' th' ih hok hstep => ih.step hr.region hnotifies hok hstep
    have htable : r₀.registered = fun _ => none := by
      funext i
      rw [registered, hr.empty]
      rfl
    have hquiet : notices r₀ r₀ = [] := by
      rw [notices, Platform.sentFrom_of_next rfl]
      rfl
    change Mirrors r₀.idAt r₀.registered (notices r₀ r₀) fun _ : ι => .idle
    rw [htable, hquiet]
    exact .start fun _ => rfl
  exact ⟨fun i hannouncing hwithdrawing => hkept.mirrors.agrees hannouncing hwithdrawing,
    hkept.mirrors.fits, hkept.mirrors.known⟩

def handOver {ι : Type*} (i j : ι) (place : Option (Fin itcMaxSupportedMailboxes))
    (mailboxId : MailboxId) (isEarly : Bool) : List (ι × RegistrationStep) :=
  let env := Platform.answering true
  let taking : ι × RegistrationStep := (j, .call (.createMailbox env place [] 0))
  let leaving : ι × RegistrationStep := (i, .notify env)
  [(i, .call (.createMailbox env place [] 0)), (i, .notify env),
    (i, .call (.deleteMailbox env mailboxId))] ++
      (if isEarly then [taking, (j, .notify env), leaving] else [leaving, taking, (j, .notify env)])

set_option maxRecDepth 8000 in
theorem directory_of_threads_handOver :
    ∃ s : State (Fin 2) Registry Registrant,
      exec registering InTurn (handOver 0 1 (some 5) 0x00300005 false)
        (newRegistrants firstThread) = some s ∧
      replay (notices firstThread s.shared) 0x00300005 = some [] := by
  obtain ⟨s, hs, hfirst, hsecond, hregistered⟩ : ∃ s : State (Fin 2) Registry Registrant,
      exec registering InTurn (handOver 0 1 (some 5) 0x00300005 false)
        (newRegistrants firstThread) = some s ∧
      (s.locals 0).stage = .idle ∧ (s.locals 1).stage = .listed 5 ∧
      s.shared.registered 5 = some [] := ⟨_, rfl, rfl, rfl, rfl⟩
  have hinformed := directory_of_threads ⟨rfl, by decide, fun _ => rfl⟩ rfl (exec_run hs .start)
  refine ⟨s, hs, (hinformed.agrees 5 (fun t name => ?_) fun t => ?_).trans hregistered⟩
  all_goals
    obtain rfl | rfl : t = 0 ∨ t = 1 := by omega
    · rw [hfirst]
      nofun
    · rw [hsecond]
      nofun

set_option maxRecDepth 8000 in
/-- The place is taken too early: the request of the first thread withdraws the mailbox of the
second. -/
theorem forgets_early_mailbox : ¬ ∀ s : State (Fin 2) Registry Registrant,
    Run registering Handled (newRegistrants firstThread) s → Informed firstThread s := by
  intro h
  obtain ⟨s, hs, hfirst, hsecond, hregistered, hforgotten⟩ :
      ∃ s : State (Fin 2) Registry Registrant,
        exec registering Handled (handOver 0 1 (some 5) 0x00300005 true)
          (newRegistrants firstThread) = some s ∧
        (s.locals 0).stage = .idle ∧ (s.locals 1).stage = .listed 5 ∧
        s.shared.registered 5 = some [] ∧
        replay (notices firstThread s.shared) 0x00300005 = none := ⟨_, rfl, rfl, rfl, rfl, rfl⟩
  have hbehind := (h s (exec_run hs .start)).behind 1
  rw [hsecond] at hbehind
  exact absurd (hforgotten.symm.trans (hbehind.2.trans hregistered)) nofun

end ItcPlatform.Api
