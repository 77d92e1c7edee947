import ItcPlatform.TransportLocal.Send

/-! Which mailbox gets a message over the lives of the mailboxes. Sends look at the unit part of
the receiver's id only, so they are right about the rest of it just as long as the mailbox lives
its first life, under the id it was constructed with. -/

namespace ItcPlatform.TransportLocal
open ConcurrentContainer History LockFreeQueue Mailbox
variable {ι : Type*}

inductive Use (ι : Type*)
  | setState (i : Fin itcMaxSupportedMailboxes) (newState : Bool)
  | send (y : Envelope ι)
  | receive (i : Fin itcMaxSupportedMailboxes) (mode : BitVec 32)

def Enqueued (c c' : MboxList ι) (i : Fin itcMaxSupportedMailboxes) (y : Envelope ι) : Prop :=
  (c'.mRawEntries i).mRxMsgQueue.stored = (c.mRawEntries i).mRxMsgQueue.stored ++ [some y]

def AtHome (regionId : MailboxId) (c : MboxList ι) : Use ι → Prop
  | .send y => ∀ i : Fin itcMaxSupportedMailboxes, (unitOf y.adminMsg.receiver).toNat = i →
      (c.mRawEntries i).Accepts →
        (c.mRawEntries i).life = 1 ∧ y.adminMsg.receiver = initialId regionId i
  | _ => True

def LivedAt (regionId : MailboxId) (i : Fin itcMaxSupportedMailboxes) (m : ItcMailbox ι) : Prop :=
  (m.mMailboxId = initialId regionId i ∧ m.life = m.mIsActive.toNat) ∨
    (m.mMailboxId = itcMailboxIdDefault ∧ m.mIsActive.toNat + 1 ≤ m.life)

def Lived (regionId : MailboxId) (c : MboxList ι) : Prop :=
  ∀ i, LivedAt regionId i (c.mRawEntries i)

theorem lived_newMboxList (regionId : MailboxId) :
    Lived regionId (newMboxList regionId : MboxList ι) := fun _ => .inl ⟨rfl, rfl⟩

theorem LivedAt.of_frame {regionId : MailboxId} {i : Fin itcMaxSupportedMailboxes}
    {m m' : ItcMailbox ι} (h : LivedAt regionId i m)
    (hframe : m'.mMailboxId = m.mMailboxId ∧ m'.mIsActive = m.mIsActive ∧ m'.life = m.life) :
    LivedAt regionId i m' := by
  obtain ⟨hid, hact, hlife⟩ := hframe
  rwa [LivedAt, hid, hact, hlife]

theorem LivedAt.setState {regionId : MailboxId} {i : Fin itcMaxSupportedMailboxes}
    {m : ItcMailbox ι} (h : LivedAt regionId i m) (newState : Bool) :
    LivedAt regionId i (m.setState newState) := by
  rw [ItcMailbox.setState]
  split_ifs with hswitch
  · rcases h with ⟨hid, hlife⟩ | ⟨hid, hlife⟩ <;> rw [hswitch] at hlife <;> cases newState
    · exact .inr ⟨rfl, hlife.ge⟩
    · exact .inl ⟨hid, congrArg (· + 1) hlife⟩
    · exact .inr ⟨rfl, Nat.le_of_succ_le hlife⟩
    · exact .inr ⟨hid, Nat.succ_le_succ hlife⟩
  · exact h

theorem Lived.update {regionId : MailboxId} {c : MboxList ι} {i : Fin itcMaxSupportedMailboxes}
    {m : ItcMailbox ι} (h : Lived regionId c) (hm : LivedAt regionId i m) :
    Lived regionId { c with mRawEntries := Function.update c.mRawEntries i m } := by
  intro j
  by_cases hj : j = i
  · subst hj
    simpa only [Function.update_self] using hm
  · simpa only [Function.update_of_ne hj] using h j

theorem ne_default_of_unit {r : MailboxId} {i : Fin itcMaxSupportedMailboxes}
    (h : (unitOf r).toNat = i) : itcMailboxIdDefault ≠ r := by
  rintro rfl
  refine default_unit_ne i (BitVec.eq_of_toNat_eq ?_)
  rw [BitVec.toNat_ofNat, Nat.mod_eq_of_lt (by omega)]
  exact h

theorem Lived.id_eq_iff {regionId : MailboxId} {c : MboxList ι} (h : Lived regionId c)
    {r : MailboxId} {i : Fin itcMaxSupportedMailboxes} (hunit : (unitOf r).toNat = i)
    (hact : (c.mRawEntries i).mIsActive = true) : (c.mRawEntries i).mMailboxId = r ↔
      (c.mRawEntries i).life = 1 ∧ r = initialId regionId i := by
  rcases h i with ⟨hid, hlife⟩ | ⟨hid, hlife⟩
  · rw [hact, Bool.toNat_true] at hlife
    rw [hid, hlife, eq_comm]
    exact (and_iff_right rfl).symm
  · rw [hact, Bool.toNat_true] at hlife
    exact iff_of_false (fun he => ne_default_of_unit hunit (hid.symm.trans he))
      fun ⟨hone, _⟩ => by omega

variable [DecidableEq ι]

def next (c : MboxList ι) : Use ι → Option (MboxList ι)
  | .setState i newState =>
    let m := (c.mRawEntries i).setStateDraining newState
    some { c with mRawEntries := Function.update c.mRawEntries i m }
  | .send y => (send c y).result.map Prod.fst
  | .receive i mode => ((c.mRawEntries i).pop mode).map fun popped =>
    { c with mRawEntries := Function.update c.mRawEntries i popped.1 }

/-- A message gets only into a mailbox that has the whole id of its receiver. -/
def Addressed (c : MboxList ι) : Use ι → Prop
  | .send y => ∀ c' rc, (send c y).result = some (c', rc) → ∀ i, Enqueued c c' i y →
      (c'.mRawEntries i).mMailboxId = y.adminMsg.receiver
  | _ => True

section Step
variable {regionId : MailboxId} {c c' : MboxList ι} {y : Envelope ι}
  {i j : Fin itcMaxSupportedMailboxes}

theorem next_lived {use : Use ι} (h : Lived regionId c) (hnext : next c use = some c') :
    Lived regionId c' := by
  cases use with
  | setState i newState =>
    obtain rfl := Option.some.inj hnext
    exact h.update (((h i).setState newState).of_frame (ItcMailbox.setStateDraining_frame newState))
  | send y =>
    obtain ⟨⟨c'', rc⟩, hsent, rfl⟩ := Option.map_eq_some_iff.mp hnext
    obtain ⟨i, m, pushed, -, hpush, rfl, -⟩ := send_cases hsent
    exact h.update ((h i).of_frame (ItcMailbox.push_frame hpush))
  | receive i mode =>
    obtain ⟨⟨m, out⟩, hpop, rfl⟩ := Option.map_eq_some_iff.mp hnext
    exact h.update ((h i).of_frame (ItcMailbox.pop_frame hpop))

theorem enqueued_of_accepts (hunit : (unitOf y.adminMsg.receiver).toNat = i)
    (h : (c.mRawEntries i).Accepts) : ∃ c', (send c y).result = some (c', .itcOk) ∧
      Enqueued c c' i y ∧ (c'.mRawEntries i).mMailboxId = (c.mRawEntries i).mMailboxId := by
  rw [send_result hunit, ItcMailbox.push_of_accepts h]
  refine ⟨_, rfl, ?_, ?_⟩
  · simp only [Enqueued, Function.update_self]
  · simp only [Function.update_self]

theorem accepts_of_enqueued {rc : ReturnCode} (hsent : (send c y).result = some (c', rc))
    (h : Enqueued c c' i y) : (unitOf y.adminMsg.receiver).toNat = i ∧
      (c.mRawEntries i).Accepts ∧ (c'.mRawEntries i).mMailboxId = (c.mRawEntries i).mMailboxId := by
  obtain ⟨j, m, pushed, hunit, hpush, rfl, -⟩ := send_cases hsent
  have hself : ∀ l : List (Message ι), l ≠ l ++ [some y] := fun l he =>
    List.cons_ne_nil _ _ (List.self_eq_append_right.mp he)
  obtain rfl : i = j := by
    by_contra hij
    simp only [Enqueued, Function.update_of_ne hij] at h
    exact hself _ h
  simp only [Enqueued, Function.update_self] at h ⊢
  refine ⟨hunit, ?_, (ItcMailbox.push_frame hpush).1⟩
  by_contra hnot
  cases hact : (c.mRawEntries i).mIsActive with
  | true =>
    rw [ItcMailbox.push_of_not_accepts hact hnot] at hpush
    cases hpush
  | false =>
    rw [ItcMailbox.push_of_inactive hact] at hpush
    obtain ⟨rfl, -⟩ := by simpa using hpush
    exact hself _ h

theorem addressed_iff_atHome {use : Use ι} (h : Lived regionId c) :
    Addressed c use ↔ AtHome regionId c use := by
  cases use with
  | setState | receive => exact Iff.rfl
  | send y =>
    constructor
    · intro haddressed i hunit haccepts
      obtain ⟨c', hsent, henqueued, hid⟩ := enqueued_of_accepts hunit haccepts
      have hreceiver := haddressed c' _ hsent i henqueued
      exact (h.id_eq_iff hunit haccepts.1).mp (hid.symm.trans hreceiver)
    · intro hhome c' rc hsent i henqueued
      obtain ⟨hunit, haccepts, hid⟩ := accepts_of_enqueued hsent henqueued
      exact hid.trans ((h.id_eq_iff hunit haccepts.1).mpr (hhome i hunit haccepts))

end Step

/-- In every history of the mailboxes every message got only into a mailbox with the whole id of
its receiver, exactly when all that were taken went to a first life under its initial id. -/
theorem addressed_iff (regionId : MailboxId) (uses : List (Use ι)) :
    Each next Addressed uses (newMboxList regionId : MboxList ι) ↔
      Each next (AtHome regionId) uses (newMboxList regionId : MboxList ι) :=
  each_iff_each (fun _ _ => addressed_iff_atHome) (fun _ _ _ => next_lived)
    (lived_newMboxList regionId)

def foreign : Envelope Unit := ⟨(), 0, 1, emptyMessage.setReceiver 0x00200005⟩

/-- Mailbox 5 of a platform that was just constructed has another id, and takes it. -/
theorem not_addressed_foreign :
    (newMboxList itcMailboxIdDefault : MboxList Unit).mRawEntries 5 =
        .new 0xFFF00005 itcFlagDefault ∧
      ¬ Each next Addressed [.setState 5 true, .send foreign]
        (newMboxList itcMailboxIdDefault : MboxList Unit) := by
  refine ⟨rfl, fun h => ?_⟩
  obtain ⟨c, hc, hmailbox⟩ : ∃ c, next (newMboxList itcMailboxIdDefault : MboxList Unit)
      (.setState 5 true) = some c ∧
        c.mRawEntries 5 = (ItcMailbox.new 0xFFF00005 itcFlagDefault).switch true :=
    ⟨_, rfl, by simp only [Function.update_self]; rfl⟩
  have hunit : (unitOf foreign.adminMsg.receiver).toNat =
      ((5 : Fin itcMaxSupportedMailboxes) : ℕ) := by decide
  obtain ⟨c', hsent, henqueued, hid⟩ :=
    enqueued_of_accepts hunit (by rw [hmailbox]; exact ⟨rfl, rfl⟩)
  have hdelivered := (h.2 c hc).1 c' _ hsent 5 henqueued
  rw [hid, hmailbox] at hdelivered
  exact absurd hdelivered (by decide)

end ItcPlatform.TransportLocal
