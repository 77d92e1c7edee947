import ItcPlatform.ConcurrentContainer.Ownership
import ItcPlatform.Lib.History
import ItcPlatform.Mailbox.Machine

/-! The ids of the mailboxes in the platform's container. The initializer gives each mailbox
its id, a deactivation clears it, and nothing gives it back. -/

namespace ItcPlatform.Mailbox
open ConcurrentContainer History Interleaving LockFreeQueue
variable {ι : Type*}

def mboxCapacity : Capacity := ⟨itcMaxSupportedMailboxes, by decide, by decide⟩

structure MboxList (ι : Type*) where
  mInactiveEntries : Traced (inactiveEntriesParams mboxCapacity)
  mRawEntries : Fin itcMaxSupportedMailboxes → ItcMailbox ι

def initialId (regionId : MailboxId) (index : ℕ) : MailboxId :=
  regionId <<< itcRegionIdShift ||| (BitVec.ofNat 32 index &&& itcMaskUnitId)

def newMboxList (regionId : MailboxId) : MboxList ι :=
  ⟨constructed mboxCapacity mboxCapacity.size, fun i => .new (initialId regionId i) itcFlagDefault⟩

def ItcMailbox.setState (m : ItcMailbox ι) (newState : Bool) : ItcMailbox ι :=
  if m.mIsActive = !newState then m.switch newState else m

/-- `acquire i` is a `tryPopFromQueue` that returns entry `i`. -/
inductive Op
  | acquire (i : Fin itcMaxSupportedMailboxes)
  | setState (i : Fin itcMaxSupportedMailboxes) (newState : Bool)
  | release (i : Fin itcMaxSupportedMailboxes)

namespace MboxList

/-- A call of the queue of inactive entries, `none` where it never returns. -/
def queueCall (c : MboxList ι) (call : Call RawPtr) : Option (MboxList ι × Ret RawPtr) :=
  match c.mInactiveEntries.alone 4 call.start with
  | (q, .returned ret) => some ({ c with mInactiveEntries := q }, ret)
  | _ => none

def next (c : MboxList ι) : Op → Option (MboxList ι)
  | .acquire i =>
    match c.queueCall .pop with
    | some (c', .popped e) => if e = some (entry i) then some c' else none
    | _ => none
  | .setState i newState => some { c with
    mRawEntries := Function.update c.mRawEntries i ((c.mRawEntries i).setState newState) }
  | .release i => (c.queueCall (.tryPush (some (entry i)))).map Prod.fst

/-- Every active mailbox has its index in its id, and no other has the same id. -/
structure Identified (c : MboxList ι) : Prop where
  unit : ∀ i, (c.mRawEntries i).mIsActive = true →
    (c.mRawEntries i).mMailboxId &&& itcMaskUnitId = BitVec.ofNat 32 i
  distinct : ∀ i j, i ≠ j →
    (c.mRawEntries i).mIsActive = true → (c.mRawEntries j).mIsActive = true →
      (c.mRawEntries i).mMailboxId ≠ (c.mRawEntries j).mMailboxId

def Named (c : MboxList ι) : Op → Prop
  | .setState i true => (c.mRawEntries i).mMailboxId ≠ itcMailboxIdDefault
  | _ => True

end MboxList

section Solo
variable [DecidableEq ι] {i : ι} {s : State ι (ItcMailbox ι) (Thread ι)}

def setStateSteps (i : ι) (m : ItcMailbox ι) (newState : Bool) : List (ι × Action) :=
  (i, .setState newState) :: (i, .access false) ::
    if m.mIsActive && !newState then List.replicate 3 (i, .access false) else []

theorem exec_setStateSteps (hidle : (s.locals i).stage = .idle)
    (hempty : s.shared.mRxMsgQueue.queue.mHead = s.shared.mRxMsgQueue.queue.mTail)
    (newState : Bool) :
    exec (mailbox i) anyStep (setStateSteps i s.shared newState) s =
      some ⟨s.shared.setState newState, s.locals⟩ := by
  have hsame : (⟨.idle, (s.locals i).pushed, (s.locals i).ticket⟩ : Thread ι) = s.locals i := by
    rw [← hidle]
  have hcalled : mailbox i i (.setState newState) s.shared (s.locals i) =
      some (s.shared, (s.locals i).at (.setStateCas newState)) := by
    simp only [mailbox, hidle, if_true]
  rw [setStateSteps, exec_cons hcalled]
  by_cases hact : s.shared.mIsActive = !newState
  swap
  · -- the compare-exchange fails
    have hfails : mailbox i i (.access false) s.shared ((s.locals i).at (.setStateCas newState)) =
        some (s.shared, s.locals i) :=
      (if_neg hact).trans (congrArg (fun th => some (s.shared, th)) hsame)
    rw [exec_cons_update hfails, if_neg (by cases newState <;> simp_all), ItcMailbox.setState,
      if_neg hact]
    simp [exec]
  rw [exec_cons_update (if_pos hact), ItcMailbox.setState, if_pos hact]
  cases newState with
  | true =>
    rw [if_neg (by simp)]
    simp [exec, Thread.at, hsame]
  | false =>
    let m := s.shared.switch false
    have hmeasured : step (rxMsgQueueParams ι) false m.mRxMsgQueue.queue
        (.sizeLoadTail m.mRxMsgQueue.queue.mHead) =
          some (m.mRxMsgQueue.queue, .returned (.sized 0), .silent) := by
      simp [m, ItcMailbox.switch, LockFreeQueue.step, LockFreeQueue.sizeOf, hempty]
    rw [if_pos (by simpa using hact)]
    change exec _ _ [_, _, _] _ = _
    rw [exec_cons_update (mailbox_inQueue rfl rfl), record_silent,
      exec_cons_update (mailbox_inQueue rfl hmeasured), record_silent,
      exec_cons_update (mailbox_returned rfl)]
    simp [exec, ItcMailbox.resume, ItcMailbox.freed, Thread.at, Thread.note, Site.next, hsame, m]

end Solo

section Ids

theorem initialId_unit (regionId : MailboxId) (i : Fin itcMaxSupportedMailboxes) :
    initialId regionId i &&& itcMaskUnitId = BitVec.ofNat 32 i := by
  have hi : (i : ℕ) < 1024 := i.isLt
  have hmask : itcMaskUnitId.toNat = 2 ^ 16 - 1 := rfl
  have hregion : regionId.toNat * 2 ^ 20 % 2 ^ 32 % 2 ^ 16 = 0 := by omega
  apply BitVec.eq_of_toNat_eq
  rw [initialId, BitVec.toNat_and, BitVec.toNat_or, BitVec.toNat_and, hmask,
    Nat.and_or_distrib_right]
  simp only [Nat.and_two_pow_sub_one_eq_mod, BitVec.toNat_shiftLeft, Nat.shiftLeft_eq,
    BitVec.toNat_ofNat, hregion, Nat.zero_or]
  omega

theorem default_unit_ne (i : Fin itcMaxSupportedMailboxes) :
    itcMailboxIdDefault &&& itcMaskUnitId ≠ BitVec.ofNat 32 i := fun h => by
  have hi : (i : ℕ) < 1024 := i.isLt
  have := congrArg BitVec.toNat h
  have hdefault : (itcMailboxIdDefault &&& itcMaskUnitId).toNat = 65535 := rfl
  rw [BitVec.toNat_ofNat, hdefault] at this
  omega

theorem ofNat_injective {i j : Fin itcMaxSupportedMailboxes}
    (h : BitVec.ofNat 32 i = BitVec.ofNat 32 j) : i = j := by
  have hi : (i : ℕ) < 1024 := i.isLt
  have hj : (j : ℕ) < 1024 := j.isLt
  have := congrArg BitVec.toNat h
  rw [BitVec.toNat_ofNat, BitVec.toNat_ofNat] at this
  exact Fin.ext (by omega)

namespace MboxList
variable {regionId : MailboxId} {c c' : MboxList ι} {op : Op}

def Keeps (regionId : MailboxId) (c : MboxList ι) : Prop :=
  ∀ i, (c.mRawEntries i).mMailboxId = initialId regionId i ∨
    (c.mRawEntries i).mIsActive = false ∧ (c.mRawEntries i).mMailboxId = itcMailboxIdDefault

theorem Keeps.initialId_of_active (h : Keeps regionId c) {i : Fin itcMaxSupportedMailboxes}
    (hact : (c.mRawEntries i).mIsActive = true) :
    (c.mRawEntries i).mMailboxId = initialId regionId i :=
  (h i).resolve_right fun hoff => Bool.false_ne_true (hoff.1.symm.trans hact)

theorem Keeps.identified (h : Keeps regionId c) : Identified c where
  unit i hact := by rw [h.initialId_of_active hact, initialId_unit]
  distinct i j hij hi hj he := by
    rw [h.initialId_of_active hi, h.initialId_of_active hj] at he
    have := congrArg (· &&& itcMaskUnitId) he
    rw [initialId_unit, initialId_unit] at this
    exact hij (ofNat_injective this)

theorem queueCall_mRawEntries {call : Call RawPtr} {ret : Ret RawPtr}
    (h : c.queueCall call = some (c', ret)) : c'.mRawEntries = c.mRawEntries := by
  unfold queueCall at h
  split at h
  · obtain ⟨rfl, -⟩ := by simpa using h
    rfl
  · cases h

theorem next_mRawEntries (h : c.next op = some c') : c'.mRawEntries = c.mRawEntries ∨
    ∃ i b, op = .setState i b ∧
      c'.mRawEntries = Function.update c.mRawEntries i ((c.mRawEntries i).setState b) := by
  cases op with
  | acquire i =>
    simp only [next] at h
    split at h
    · rename_i hcall
      split_ifs at h
      obtain rfl := Option.some.inj h
      exact .inl (queueCall_mRawEntries hcall)
    · cases h
  | setState i b =>
    obtain rfl := Option.some.inj h
    exact .inr ⟨i, b, rfl, rfl⟩
  | release i =>
    obtain ⟨⟨_, ret⟩, hcall, rfl⟩ := Option.map_eq_some_iff.mp h
    exact .inl (queueCall_mRawEntries hcall)

theorem Keeps.next (h : Keeps regionId c) (hnamed : c.Named op) (hnext : c.next op = some c') :
    Keeps regionId c' := by
  intro j
  obtain hsame | ⟨i, b, rfl, hupdate⟩ := next_mRawEntries hnext
  · rw [hsame]
    exact h j
  · rw [hupdate]
    by_cases hj : j = i
    · subst hj
      rw [Function.update_self, ItcMailbox.setState]
      split_ifs with hact
      · cases b with
        | false => exact .inr ⟨rfl, rfl⟩
        | true => exact .inl ((h j).resolve_right fun hoff => hnamed hoff.2)
      · exact h j
    · rw [Function.update_of_ne hj]
      exact h j

theorem Keeps.loses (h : Keeps regionId c) (hnot : ¬ c.Named op) :
    ∃ c', c.next op = some c' ∧ ¬ Identified c' := by
  -- switching a mailbox on that lost its id leaves it active without one
  unfold Named at hnot
  split at hnot
  · rename_i i
    have hid := not_not.mp hnot
    refine ⟨_, rfl, fun hc' => ?_⟩
    have hoff := ((h i).resolve_left fun he => default_unit_ne i ?_).1
    · have := hc'.unit i
      simp [ItcMailbox.setState, hoff, ItcMailbox.switch, hid] at this
      exact default_unit_ne i this
    · rw [← hid, he, initialId_unit]
  · exact absurd trivial hnot

/-- In every sequence of acquires, switches and releases the active mailboxes are identified
throughout exactly when none is switched on that lost its id. -/
theorem identified_iff (regionId : MailboxId) (ops : List Op) :
    Always next Identified ops (newMboxList regionId : MboxList ι) ↔
      Each next Named ops (newMboxList regionId : MboxList ι) :=
  always_iff_each (fun _ => Keeps.identified) (fun _ _ _ => Keeps.next) (fun _ _ => Keeps.loses)
    (fun _ => .inl rfl)

def reused : List Op :=
  [.setState 0 true, .setState 1 true, .setState 0 false, .setState 1 false, .setState 0 true,
    .setState 1 true]

theorem next_acquire {i : Fin itcMaxSupportedMailboxes} (h : c.mInactiveEntries.queue.mQueue
    ((inactiveEntriesParams mboxCapacity).slot c.mInactiveEntries.queue.mTail) = some (entry i)) :
    ∃ c', c.next (.acquire i) = some c' ∧ c'.mRawEntries = c.mRawEntries ∧
      c'.mInactiveEntries.queue.mTail = c.mInactiveEntries.queue.mTail + 1 ∧
      c'.mInactiveEntries.queue.mQueue = Function.update c.mInactiveEntries.queue.mQueue
        ((inactiveEntriesParams mboxCapacity).slot c.mInactiveEntries.queue.mTail) none := by
  have hnil : (inactiveEntriesParams mboxCapacity).nil = none := rfl
  simp [next, queueCall, Traced.alone, Call.start, LockFreeQueue.step, Traced.record, h, hnil]

theorem filled_newMboxList (regionId : MailboxId) :
    Filled mboxCapacity.size (newMboxList regionId : MboxList ι).mInactiveEntries := by
  have h := @filled_constructed mboxCapacity _ (le_refl mboxCapacity.size)
  simpa only [newMboxList] using h

theorem acquire_two (hf : Filled mboxCapacity.size c.mInactiveEntries) :
    ∃ c', [Op.acquire 0, .acquire 1].foldlM next c = some c' ∧ c'.mRawEntries = c.mRawEntries := by
  have hsize := (inactiveEntriesParams mboxCapacity).le_mSize
  have htail : c.mInactiveEntries.queue.mTail = BitVec.ofNat 32 0 := by rw [hf.sound.tail, hf.pops]
  have hslot : ∀ k < 1024, c.mInactiveEntries.queue.mQueue
      ((inactiveEntriesParams mboxCapacity).slot (BitVec.ofNat 32 k)) = some (entry k) :=
    fun k hk => (hf.slots k (hk.trans_le hsize)).trans (if_pos hk)
  have hne := @slot_ne mboxCapacity 1 0 (Nat.lt_of_lt_of_le (by decide) hsize)
    (Nat.lt_of_lt_of_le (by decide) hsize) Nat.one_ne_zero
  obtain ⟨c₁, hc₁, hentries₁, htail₁, hqueue₁⟩ :=
    @next_acquire _ c 0 (by rw [htail]; exact hslot 0 (by decide))
  rw [htail] at htail₁ hqueue₁
  obtain ⟨c₂, hc₂, hentries₂, -, -⟩ := @next_acquire _ c₁ 1 (by
    rw [htail₁, hqueue₁]
    exact (Function.update_of_ne hne _ _).trans (hslot 1 (by decide)))
  refine ⟨c₂, ?_, hentries₂.trans hentries₁⟩
  rw [List.foldlM_cons, hc₁, Option.bind_eq_bind, Option.bind_some, List.foldlM_cons, hc₂]
  rfl

theorem reused_lose (h0 : (c.mRawEntries 0).mIsActive = false)
    (h1 : (c.mRawEntries 1).mIsActive = false) : ∃ c', reused.foldlM next c = some c' ∧
      (c'.mRawEntries 0).mIsActive = true ∧ (c'.mRawEntries 1).mIsActive = true ∧
      (c'.mRawEntries 0).mMailboxId = itcMailboxIdDefault ∧
      (c'.mRawEntries 1).mMailboxId = itcMailboxIdDefault := by
  simp [reused, next, ItcMailbox.setState, ItcMailbox.switch, h0, h1]

theorem not_identified_reused : ∃ c, ([Op.acquire 0, .acquire 1] ++ reused).foldlM next
    (newMboxList 0 : MboxList Unit) = some c ∧
      (c.mRawEntries 0).mIsActive = true ∧ (c.mRawEntries 1).mIsActive = true ∧
      (c.mRawEntries 0).mMailboxId = itcMailboxIdDefault ∧
      (c.mRawEntries 1).mMailboxId = itcMailboxIdDefault ∧ ¬ c.Identified := by
  -- both mailboxes are active again, and both have the default id
  obtain ⟨c, hc, hentries⟩ := acquire_two
    (filled_newMboxList 0 : Filled _ (newMboxList 0 : MboxList Unit).mInactiveEntries)
  obtain ⟨c', hc', hact0, hact1, hid0, hid1⟩ :=
    @reused_lose _ c (by rw [hentries]; rfl) (by rw [hentries]; rfl)
  refine ⟨c', ?_, hact0, hact1, hid0, hid1, fun h => ?_⟩
  · rw [List.foldlM_append, hc]
    exact hc'
  · exact h.distinct 0 1 (by decide) hact0 hact1 (hid0.trans hid1.symm)

end MboxList

end Ids

end ItcPlatform.Mailbox
