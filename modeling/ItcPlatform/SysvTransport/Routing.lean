import ItcPlatform.SysvTransport.Machine

/-! Where a message goes and who reads it. The sender bounds the region number before `ftok`
cuts it down to eight bits, the receive thread does not. -/

namespace ItcPlatform.SysvTransport
open Interleaving MessageQueues AdminMessage

/-- `ftok` succeeds, and tells apart exactly the low eight bits of the project id. -/
structure IsFtok (ftok : BitVec 32 → Key) : Prop where
  eq_iff : ∀ n n', ftok n = ftok n' ↔ n.setWidth 8 = n'.setWidth 8
  ne_neg_one : ∀ n, ftok n ≠ -1

variable {ι : Type*}

/-- Every message placed lies in a queue that the process of its region had opened, and is read
or cleaned up only by a receive thread of its region. -/
structure Routed (regionId : ι → MailboxId) (s : System ι) : Prop where
  placed : ∀ p ∈ s.placed, ∃ i, (i, p.1) ∈ s.opened ∧
    regionId i >>> itcRegionIdShift = regionOf p.2.receiver
  read : ∀ p ∈ s.read, regionId p.1 >>> itcRegionIdShift = regionOf p.2.receiver
  destroyed : ∀ p ∈ s.destroyed, regionId p.1 >>> itcRegionIdShift = regionOf p.2.receiver

/-- A region number whose key no sendable region shares. -/
def Unaliased (regionId : MailboxId) : Prop :=
  let region := (regionId >>> itcRegionIdShift).toNat
  region < 256 ∨ region % 256 = 0 ∨ region % 256 = 255

instance (regionId : MailboxId) : Decidable (Unaliased regionId) :=
  inferInstanceAs (Decidable (_ ∨ _ ∨ _))

section Invariant
variable (ftok : BitVec 32 → Key) (regionId : ι → MailboxId)

def keyOf (i : ι) : Key := ftok (regionId i >>> itcRegionIdShift)

def Belongs (key : Key) (adminMsg : AdminMessage) : Prop :=
  regionOf adminMsg.receiver ≠ 0 ∧ regionOf adminMsg.receiver < itcMaxSupportedRegions ∧
    key = ftok (regionOf adminMsg.receiver)

structure System.Sound (s : System ι) : Prop where
  kernel : s.kernel.Sorted (Belongs ftok)
  valid : ∀ p ∈ s.kernel.issued, p.1 ≠ -1
  opened : ∀ p ∈ s.opened, (p.2, keyOf ftok regionId p.1) ∈ s.kernel.issued
  opener : ∀ p ∈ s.kernel.issued, ∃ i, (i, p.1) ∈ s.opened ∧ keyOf ftok regionId i = p.2
  placed : ∀ p ∈ s.placed, ∃ i, (i, p.1) ∈ s.opened ∧ Belongs ftok (keyOf ftok regionId i) p.2
  read : ∀ p ∈ s.read, Belongs ftok (keyOf ftok regionId p.1) p.2
  destroyed : ∀ p ∈ s.destroyed, Belongs ftok (keyOf ftok regionId p.1) p.2

def System.Names (s : System ι) (key : Key) (msqid : MsgQueueId) : Prop :=
  msqid = -1 ∨ (msqid, key) ∈ s.kernel.issued

def System.Knows (s : System ι) (projectId : ProjectId) (contact : SysvMsgQueueContactInfo) :
    Prop :=
  s.Names (ftok (BitVec.ofNat 32 projectId)) contact.msgQueueId

def Pc.Sound (s : System ι) (i : ι) (hasTask : Bool) : Pc → Prop
  | .idle => True
  | .rx .starting => hasTask = true
  | .rx (.opening key _) | .rx (.statting key) | .rx (.removing key) =>
    key = keyOf ftok regionId i
  | .rx (.waiting msqid) => s.Names (keyOf ftok regionId i) msqid
  | .rx .receiving | .rx .exiting | .rx .destructing => True
  | .tx stage projectId adminMsg =>
    Belongs ftok (ftok (BitVec.ofNat 32 projectId)) adminMsg ∧ match stage with
      | .waiting msqid => s.Names (ftok (BitVec.ofNat 32 projectId)) msqid
      | _ => True

structure Process.Keeps (s : System ι) (i : ι) (p : Process) : Prop where
  region : p.hasTask = true → p.mRegionId = regionId i
  queue : s.Names (keyOf ftok regionId i) p.mMsgQueueId
  contacts : ∀ projectId, s.Knows ftok projectId (p.mContactList projectId)

structure Process.Sound (s : System ι) (i : ι) (p : Process) : Prop where
  keeps : p.Keeps ftok regionId s i
  threads : ∀ t, (p.threads t).Sound ftok regionId s i p.hasTask

end Invariant

variable {ftok : BitVec 32 → Key} {regionId : ι → MailboxId} {s s' : System ι} {i : ι}
  {p : Process}

section Grows
variable (hsub : s.kernel.issued ⊆ s'.kernel.issued)
include hsub

theorem System.Names.mono {key : Key} {msqid : MsgQueueId} (h : s.Names key msqid) :
    s'.Names key msqid :=
  h.imp_right (hsub ·)

theorem Pc.Sound.mono {hasTask : Bool} {pc : Pc} (h : pc.Sound ftok regionId s i hasTask) :
    pc.Sound ftok regionId s' i hasTask := by
  unfold Pc.Sound at h ⊢
  split at h
  all_goals try exact h
  · exact h.mono hsub
  · refine ⟨h.1, ?_⟩
    have h' := h.2
    split at h'
    · exact h'.mono hsub
    · trivial

theorem Process.Keeps.mono (h : p.Keeps ftok regionId s i) : p.Keeps ftok regionId s' i :=
  ⟨h.region, h.queue.mono hsub, fun projectId => (h.contacts projectId).imp_right (hsub ·)⟩

theorem Process.Sound.mono (h : p.Sound ftok regionId s i) : p.Sound ftok regionId s' i :=
  ⟨h.keeps.mono hsub, fun t => (h.threads t).mono hsub⟩

end Grows

namespace System.Sound

theorem new : (System.new ι).Sound ftok regionId :=
  ⟨Kernel.sorted_empty, by simp [System.new, Kernel.empty], by simp [System.new],
    by simp [System.new, Kernel.empty], by simp [System.new], by simp [System.new],
    by simp [System.new]⟩

variable (h : s.Sound ftok regionId)
include h

theorem issued_of_get? {key : Key} {msqid : MsgQueueId} {q : Queue MsgQueueId Key AdminMessage}
    (hname : s.Names key msqid) (hget : s.kernel.get? msqid = some q) :
    (q.msqid, key) ∈ s.kernel.issued := by
  obtain ⟨hq, rfl⟩ := Kernel.get?_eq_some hget
  exact hname.resolve_left (h.valid _ (h.kernel.issued q hq))

theorem getMsgQueueId {fault : Bool} {mboxId : MailboxId} {msqid : MsgQueueId} {os : KeyAnswers}
    (hget : SysvTransport.getMsgQueueId ⟨[fun n => if fault then -1 else ftok n], [s.msgGet]⟩
      mboxId = some (msqid, os)) : s.Names (ftok (regionOf mboxId)) msqid := by
  cases fault with
  | true =>
    obtain ⟨rfl, -⟩ := by simpa [SysvTransport.getMsgQueueId] using hget
    exact .inl rfl
  | false =>
    simp only [SysvTransport.getMsgQueueId, Bool.false_eq_true, if_false] at hget
    split_ifs at hget with hkey habsent
    · obtain ⟨rfl, -⟩ := by simpa using hget
      exact .inl rfl
    · obtain ⟨rfl, -⟩ := by simpa using hget
      exact .inl rfl
    · obtain ⟨rfl, -⟩ := by simpa using hget
      simp only [System.msgGet] at habsent ⊢
      split
      · rename_i hfind
        exact .inr (h.kernel.find?_issued hfind)
      · exact .inl rfl

theorem msgGetCreate {msqid found : MsgQueueId}
    (hget : s.msgGetCreate i (keyOf ftok regionId i) msqid = some (s', found)) :
    s'.Sound ftok regionId ∧ s.kernel.issued ⊆ s'.kernel.issued ∧
      (found, keyOf ftok regionId i) ∈ s'.kernel.issued := by
  have hopened (id : MsgQueueId) {j : ι} {id' : MsgQueueId} (hj : (j, id') ∈ s.opened) :
      (j, id') ∈ s.opened ++ [(i, id)] := List.mem_append_left _ hj
  have hplaced (id : MsgQueueId) : ∀ p ∈ s.placed, ∃ j, (j, p.1) ∈ s.opened ++ [(i, id)] ∧
      Belongs ftok (keyOf ftok regionId j) p.2 := fun p hp => by
    obtain ⟨j, hj, hb⟩ := h.placed p hp
    exact ⟨j, hopened id hj, hb⟩
  unfold System.msgGetCreate at hget
  split at hget
  · rename_i hfind
    obtain ⟨rfl, rfl⟩ := by simpa using hget
    have hissued := h.kernel.find?_issued hfind
    refine ⟨⟨h.kernel, h.valid, fun p hp => ?_, fun p hp => ?_, hplaced _, h.read, h.destroyed⟩,
      List.Subset.refl _, hissued⟩
    · rcases List.mem_append.mp hp with hp | hp
      · exact h.opened p hp
      · obtain rfl := List.mem_singleton.mp hp
        exact hissued
    · obtain ⟨j, hj, hkey⟩ := h.opener p hp
      exact ⟨j, hopened _ hj, hkey⟩
  · split_ifs at hget with hneg
    obtain ⟨kernel, hnew, heq⟩ := Option.map_eq_some_iff.mp hget
    obtain ⟨rfl, rfl⟩ := by simpa using heq
    have hsorted := h.kernel.create hnew
    obtain ⟨-, rfl⟩ := Kernel.create_eq_some.mp hnew
    refine ⟨⟨hsorted, fun p hp => ?_, fun p hp => ?_, fun p hp => ?_, hplaced _, h.read,
      h.destroyed⟩, List.subset_cons_self _ _, List.mem_cons_self⟩
    · rcases List.mem_cons.mp hp with rfl | hp
      · rintro rfl
        exact hneg (by decide)
      · exact h.valid p hp
    · rcases List.mem_append.mp hp with hp | hp
      · exact List.mem_cons_of_mem _ (h.opened p hp)
      · obtain rfl := List.mem_singleton.mp hp
        exact List.mem_cons_self
    · rcases List.mem_cons.mp hp with rfl | hp
      · exact ⟨i, List.mem_append_right _ List.mem_cons_self, rfl⟩
      · obtain ⟨j, hj, hkey⟩ := h.opener p hp
        exact ⟨j, hopened _ hj, hkey⟩

theorem place {key : Key} {msqid : MsgQueueId} {adminMsg : AdminMessage}
    (hissued : (msqid, key) ∈ s.kernel.issued) (hbelongs : Belongs ftok key adminMsg) :
    (s.place msqid adminMsg).Sound ftok regionId := by
  have hkernel : (s.kernel.modify msqid (· ++ [adminMsg])).Sorted (Belongs ftok) := by
    refine h.kernel.modify fun key' messages hissued' hall m hm => ?_
    rcases List.mem_append.mp hm with hm | hm
    · exact hall m hm
    · obtain rfl := List.mem_singleton.mp hm
      rwa [h.kernel.unique hissued' hissued]
  refine ⟨hkernel, h.valid, h.opened, h.opener, fun p hp => ?_, h.read, h.destroyed⟩
  rcases List.mem_append.mp hp with hp | hp
  · exact h.placed p hp
  · obtain rfl := List.mem_singleton.mp hp
    obtain ⟨j, hj, rfl⟩ := h.opener _ hissued
    exact ⟨j, hj, hbelongs⟩

theorem remove (msqid : MsgQueueId) : (s.remove msqid).Sound ftok regionId :=
  ⟨h.kernel.remove, h.valid, h.opened, h.opener, h.placed, h.read, h.destroyed⟩

section Receive
variable {q : Queue MsgQueueId Key AdminMessage} (hq : q ∈ s.kernel.queues)
  (hissued : (q.msqid, keyOf ftok regionId i) ∈ s.kernel.issued)
include hq hissued

theorem take {adminMsg : AdminMessage} (hm : adminMsg ∈ q.messages) :
    (s.take i q.msqid adminMsg).Sound ftok regionId := by
  have hkernel : (s.kernel.modify q.msqid List.tail).Sorted (Belongs ftok) :=
    h.kernel.modify fun _ _ _ hall m hm => hall m (List.mem_of_mem_tail hm)
  refine ⟨hkernel, h.valid, h.opened, h.opener, h.placed, fun p hp => ?_, h.destroyed⟩
  rcases List.mem_append.mp hp with hp | hp
  · exact h.read p hp
  · obtain rfl := List.mem_singleton.mp hp
    exact h.kernel.belongs_of_issued hq hissued hm

theorem cleanUp : (s.cleanUp i q).Sound ftok regionId := by
  refine ⟨h.kernel.remove, h.valid, h.opened, h.opener, h.placed, h.read, fun p hp => ?_⟩
  rcases List.mem_append.mp hp with hp | hp
  · exact h.destroyed p hp
  · obtain ⟨m, hm, rfl⟩ := List.mem_map.mp hp
    exact h.kernel.belongs_of_issued hq hissued hm

end Receive

end System.Sound

structure Advances (ftok : BitVec 32 → Key) (regionId : ι → MailboxId) (s : System ι) (i : ι)
    (p : Process) (r : System ι × Process × Pc) : Prop where
  system : r.1.Sound ftok regionId
  issued : s.kernel.issued ⊆ r.1.kernel.issued
  hasTask : r.2.1.hasTask = p.hasTask
  threads : r.2.1.threads = p.threads
  keeps : r.2.1.Keeps ftok regionId r.1 i
  pc : r.2.2.Sound ftok regionId r.1 i p.hasTask

section Access
variable (h : s.Sound ftok regionId) (hp : p.Keeps ftok regionId s i)
include hp

theorem Advances.of_system {pc : Pc} (h' : s'.Sound ftok regionId)
    (hissued : s'.kernel.issued = s.kernel.issued) (hpc : pc.Sound ftok regionId s i p.hasTask) :
    Advances ftok regionId s i p (s', p, pc) := by
  have hsub : s.kernel.issued ⊆ s'.kernel.issued := by rw [hissued]; exact List.Subset.refl _
  exact ⟨h', hsub, rfl, rfl, hp.mono hsub, hpc.mono hsub⟩

include h

theorem Advances.stay {pc : Pc} (hpc : pc.Sound ftok regionId s i p.hasTask) :
    Advances ftok regionId s i p (s, p, pc) :=
  .of_system hp h rfl hpc

theorem rxStep_advances {fault : Bool} {msqid : MsgQueueId} {stage : RxStage}
    {r : System ι × Process × Pc} (hpc : (Pc.rx stage).Sound ftok regionId s i p.hasTask)
    (hstep : rxStep ftok fault i msqid s p stage = some r) : Advances ftok regionId s i p r := by
  have hstay {pc : Pc} (hpc : pc.Sound ftok regionId s i p.hasTask) := Advances.stay h hp hpc
  cases stage with
  | starting =>
    cases fault with
    | true =>
      obtain rfl := Option.some.inj hstep
      exact hstay trivial
    | false =>
      simp only [rxStep, Bool.false_eq_true, if_false] at hstep
      split_ifs at hstep
      · obtain rfl := Option.some.inj hstep
        exact hstay trivial
      · obtain rfl := Option.some.inj hstep
        exact hstay (by rw [Pc.Sound, hp.region hpc, keyOf])
  | opening key recreate =>
    obtain rfl : key = keyOf ftok regionId i := hpc
    cases fault with
    | true =>
      obtain rfl := Option.some.inj hstep
      exact ⟨h, List.Subset.refl _, rfl, rfl, ⟨hp.region, .inl rfl, hp.contacts⟩, trivial⟩
    | false =>
      obtain ⟨⟨s', found⟩, hget, rfl⟩ := Option.map_eq_some_iff.mp hstep
      obtain ⟨hs', hsub, hissued⟩ := h.msgGetCreate hget
      refine ⟨hs', hsub, rfl, rfl, ⟨hp.region, .inr hissued, (hp.mono hsub).contacts⟩, ?_⟩
      cases recreate with
      | false => rfl
      | true => trivial
  | statting key =>
    simp only [rxStep] at hstep
    split at hstep
    · obtain rfl := Option.some.inj hstep
      exact hstay trivial
    · split_ifs at hstep
      · obtain rfl := Option.some.inj hstep
        exact hstay trivial
      · obtain rfl := Option.some.inj hstep
        exact hstay hpc
      · obtain rfl := Option.some.inj hstep
        exact hstay trivial
  | removing key =>
    simp only [rxStep] at hstep
    split at hstep
    · obtain rfl := Option.some.inj hstep
      exact hstay trivial
    · rename_i q hget
      split_ifs at hstep
      · obtain rfl := Option.some.inj hstep
        exact hstay trivial
      · obtain rfl := Option.some.inj hstep
        exact .of_system hp (h.cleanUp (Kernel.get?_eq_some hget).1
          (h.issued_of_get? hp.queue hget)) rfl hpc
  | receiving =>
    obtain rfl := Option.some.inj hstep
    refine hstay ?_
    split_ifs
    · trivial
    · exact hp.queue
  | waiting msqid =>
    simp only [rxStep] at hstep
    split at hstep
    · obtain rfl := Option.some.inj hstep
      exact hstay trivial
    · rename_i q hget
      split_ifs at hstep
      · obtain rfl := Option.some.inj hstep
        exact hstay trivial
      · split at hstep
        · cases hstep
        · rename_i hmessages
          obtain rfl := Option.some.inj hstep
          exact .of_system hp (h.take (Kernel.get?_eq_some hget).1 (h.issued_of_get? hpc hget)
            (hmessages ▸ List.mem_cons_self)) rfl trivial
  | exiting =>
    simp only [rxStep] at hstep
    split_ifs at hstep
    · obtain rfl := Option.some.inj hstep
      exact hstay trivial
    · obtain rfl := Option.some.inj hstep
      exact ⟨h, List.Subset.refl _, rfl, rfl, ⟨hp.region, hp.queue, hp.contacts⟩, trivial⟩
  | destructing =>
    obtain rfl := Option.some.inj hstep
    cases fault with
    | true => exact ⟨h, List.Subset.refl _, rfl, rfl, ⟨hp.region, .inl rfl, hp.contacts⟩, trivial⟩
    | false =>
      exact ⟨h.remove _, List.Subset.refl _, rfl, rfl, ⟨hp.region, .inl rfl, hp.contacts⟩, trivial⟩

theorem txStep_advances {fault : Bool} {stage : TxStage} {projectId : ProjectId}
    {adminMsg : AdminMessage} {r : System ι × Process × Pc}
    (hpc : (Pc.tx stage projectId adminMsg).Sound ftok regionId s i p.hasTask)
    (hstep : txStep ftok fault s p projectId adminMsg stage = some r) :
    Advances ftok regionId s i p r := by
  have hstay {pc : Pc} (hpc : pc.Sound ftok regionId s i p.hasTask) := Advances.stay h hp hpc
  cases stage with
  | sending =>
    obtain rfl := Option.some.inj hstep
    exact hstay ⟨hpc.1, hp.contacts projectId⟩
  | waiting msqid =>
    simp only [txStep] at hstep
    split at hstep
    · obtain rfl := Option.some.inj hstep
      exact hstay ⟨hpc.1, trivial⟩
    · rename_i q hget
      split_ifs at hstep
      · obtain rfl := Option.some.inj hstep
        exact hstay ⟨hpc.1, trivial⟩
      · obtain rfl := Option.some.inj hstep
        exact .of_system hp (h.place (h.issued_of_get? hpc.2 hget) hpc.1) rfl trivial
  | removing =>
    obtain rfl := Option.some.inj hstep
    refine ⟨h, List.Subset.refl _, rfl, rfl, ⟨hp.region, hp.queue, ?_⟩, hpc.1, trivial⟩
    exact forall_update hp.contacts (.inl rfl) fun _ _ hc => hc
  | adding =>
    obtain ⟨⟨mContactList, os⟩, hadd, rfl⟩ := Option.map_eq_some_iff.mp hstep
    refine ⟨h, List.Subset.refl _, rfl, rfl, ⟨hp.region, hp.queue, ?_⟩, hpc.1, trivial⟩
    unfold addContactInfoAtIndex at hadd
    split at hadd
    · cases hadd
    · rename_i hget
      have hname := h.getMsgQueueId hget
      rw [← hpc.1.2.2] at hname
      split_ifs at hadd
      · obtain ⟨rfl, -⟩ := by simpa using hadd
        exact forall_update hp.contacts hname fun _ _ hc => hc
      · obtain ⟨rfl, -⟩ := by simpa using hadd
        exact hp.contacts
  | checking =>
    simp only [txStep] at hstep
    split_ifs at hstep
    · obtain rfl := Option.some.inj hstep
      exact hstay trivial
    · obtain rfl := Option.some.inj hstep
      exact hstay ⟨hpc.1, trivial⟩

end Access

theorem beginSend_sound {adminMsg : AdminMessage} {pc : Pc}
    (h : p.beginSend adminMsg = some pc) : pc.Sound ftok regionId s i p.hasTask := by
  simp only [Process.beginSend] at h
  split_ifs at h with hinit hregion
  · obtain rfl := Option.some.inj h
    trivial
  · obtain rfl := Option.some.inj h
    trivial
  · obtain ⟨_, -, rfl⟩ := Option.map_eq_some_iff.mp h
    obtain ⟨hzero, hlt⟩ := not_or.mp hregion
    exact ⟨⟨hzero, BitVec.not_le.mp hlt, by rw [BitVec.ofNat_toNat, BitVec.setWidth_eq]; rfl⟩,
      trivial⟩

theorem Pc.Sound.started {hasTask : Bool} {pc : Pc} (h : pc.Sound ftok regionId s i hasTask) :
    pc.Sound ftok regionId s i true := by
  unfold Pc.Sound at h ⊢
  split at h
  case h_2 => rfl
  all_goals exact h

theorem Process.Sound.goto (h : p.Sound ftok regionId s i) {t : ℕ} {pc : Pc}
    (hpc : pc.Sound ftok regionId s i p.hasTask) : (p.goto t pc).Sound ftok regionId s i :=
  ⟨⟨h.keeps.region, h.keeps.queue, h.keeps.contacts⟩,
    forall_update h.threads hpc fun _ _ ht => ht⟩

theorem Process.sound_new : Process.new.Sound ftok regionId s i :=
  ⟨⟨nofun, .inl rfl, fun _ => .inl rfl⟩, fun _ => trivial⟩

theorem Process.Sound.initialise (h : p.Sound ftok regionId s i) (createPath keyCreate : Bool) :
    (p.initialise (regionId i) createPath keyCreate).1.Sound ftok regionId s i := by
  unfold Process.initialise
  split_ifs
  · exact h
  · exact h
  · exact ⟨⟨fun _ => rfl, h.keeps.queue, h.keeps.contacts⟩, h.threads⟩
  · exact ⟨⟨fun _ => rfl, h.keeps.queue, h.keeps.contacts⟩, fun t => (h.threads t).started⟩

theorem Process.Sound.release (h : p.Sound ftok regionId s i) (keyDelete : Bool) :
    (p.release keyDelete).Sound ftok regionId s i := by
  unfold Process.release
  split_ifs
  · exact ⟨⟨h.keeps.region, h.keeps.queue, h.keeps.contacts⟩, h.threads⟩
  · exact h

theorem step_sound {a : Action} {p' : Process} (h : s.Sound ftok regionId)
    (hp : p.Sound ftok regionId s i)
    (hstep : sysvProcesses ftok regionId i a s p = some (s', p')) :
    s'.Sound ftok regionId ∧ s.kernel.issued ⊆ s'.kernel.issued ∧
      p'.Sound ftok regionId s' i := by
  cases a with
  | initialise createPath keyCreate =>
    obtain ⟨rfl, rfl⟩ := by simpa [sysvProcesses] using hstep
    exact ⟨h, List.Subset.refl _, hp.initialise createPath keyCreate⟩
  | release keyDelete =>
    obtain ⟨rfl, rfl⟩ := by simpa [sysvProcesses] using hstep
    exact ⟨h, List.Subset.refl _, hp.release keyDelete⟩
  | startThread t =>
    simp only [sysvProcesses] at hstep
    split at hstep
    · rename_i htask _
      obtain ⟨rfl, rfl⟩ := by simpa using hstep
      exact ⟨h, List.Subset.refl _, hp.goto htask⟩
    · cases hstep
  | cancel t =>
    simp only [sysvProcesses] at hstep
    split at hstep
    · obtain ⟨rfl, rfl⟩ := by simpa using hstep
      exact ⟨h, List.Subset.refl _, hp.goto trivial⟩
    · cases hstep
  | kill =>
    obtain ⟨rfl, rfl⟩ := by simpa [sysvProcesses] using hstep
    exact ⟨h, List.Subset.refl _, Process.sound_new⟩
  | send t adminMsg =>
    simp only [sysvProcesses] at hstep
    split at hstep
    · obtain ⟨pc, hbegin, heq⟩ := Option.map_eq_some_iff.mp hstep
      obtain ⟨rfl, rfl⟩ := by simpa using heq
      exact ⟨h, List.Subset.refl _, hp.goto (beginSend_sound hbegin)⟩
    · cases hstep
  | access t fault msqid =>
    obtain ⟨r, hthread, heq⟩ := Option.map_eq_some_iff.mp hstep
    obtain ⟨rfl, rfl⟩ := by simpa using heq
    have hpc := hp.threads t
    have hadv : Advances ftok regionId s i p r := by
      cases hat : p.threads t with
      | idle =>
        rw [hat] at hthread
        cases hthread
      | rx stage =>
        rw [hat] at hthread hpc
        exact rxStep_advances h hp.keeps hpc hthread
      | tx stage projectId adminMsg =>
        rw [hat] at hthread hpc
        exact txStep_advances h hp.keeps hpc hthread
    have hthreads := (hp.mono hadv.issued).threads
    have hpc' := hadv.pc
    rw [← hadv.threads, ← hadv.hasTask] at hthreads
    rw [← hadv.hasTask] at hpc'
    exact ⟨hadv.system, hadv.issued, Process.Sound.goto ⟨hadv.keeps, hthreads⟩ hpc'⟩

section Run
variable [DecidableEq ι] {st : State ι (System ι) Process}

theorem run_sound (h : Run (sysvProcesses ftok regionId) anyStep (noProcesses ι) st) :
    st.shared.Sound ftok regionId ∧ ∀ i, (st.locals i).Sound ftok regionId st.shared i := by
  refine h.invariant ⟨.new, fun _ => Process.sound_new⟩ fun st i a s' p' ⟨hs, hp⟩ _ hstep => ?_
  obtain ⟨hs', hsub, hp'⟩ := step_sound hs (hp i) hstep
  exact ⟨hs', forall_update hp hp' fun j _ hj => hj.mono hsub⟩

end Run

theorem region_eq (hftok : IsFtok ftok) (hi : Unaliased (regionId i)) {adminMsg : AdminMessage}
    (h : Belongs ftok (keyOf ftok regionId i) adminMsg) :
    regionId i >>> itcRegionIdShift = regionOf adminMsg.receiver := by
  obtain ⟨hzero, hlt, hkey⟩ := h
  have hlow := congrArg BitVec.toNat ((hftok.eq_iff _ _).mp hkey)
  rw [BitVec.toNat_setWidth, BitVec.toNat_setWidth] at hlow
  have hpos : (regionOf adminMsg.receiver).toNat ≠ 0 := fun h0 => hzero (BitVec.eq_of_toNat_eq h0)
  have hlt' : (regionOf adminMsg.receiver).toNat < 255 := BitVec.lt_def.mp hlt
  apply BitVec.eq_of_toNat_eq
  simp only [Unaliased] at hi
  omega

theorem System.Sound.routed (hftok : IsFtok ftok) (h : s.Sound ftok regionId)
    (hregion : ∀ i, Unaliased (regionId i)) : Routed regionId s :=
  ⟨fun p hp => by
      obtain ⟨i, hi, hb⟩ := h.placed p hp
      exact ⟨i, hi, region_eq hftok (hregion i) hb⟩,
    fun p hp => region_eq hftok (hregion p.1) (h.read p hp),
    fun p hp => region_eq hftok (hregion p.1) (h.destroyed p hp)⟩

section Aliased
variable [DecidableEq ι]

def openSteps (i : ι) : List (ι × Action) :=
  [(i, .initialise true true), (i, .startThread 0), (i, .access 0 false 0), (i, .access 0 false 0)]

def firstSendSteps (i : ι) (adminMsg : AdminMessage) : List (ι × Action) :=
  (i, .send 1 adminMsg) :: List.replicate 7 (i, .access 1 false 0)

theorem exec_openSteps (hkey : keyOf ftok regionId i ≠ -1) :
    ∃ st, exec (sysvProcesses ftok regionId) anyStep (openSteps i) (noProcesses ι) = some st ∧
      st.shared =
        ⟨⟨[⟨0, keyOf ftok regionId i, []⟩], [(0, keyOf ftok regionId i)]⟩, [(i, 0)], [], [], []⟩ ∧
      (st.locals i).mIsInitialised = true ∧ (st.locals i).threads 1 = .idle ∧
      ∀ projectId, (st.locals i).mContactList projectId = {} := by
  replace hkey : ftok (regionId i >>> itcRegionIdShift) ≠ 4294967295#32 := hkey
  simp [openSteps, exec, anyStep, fire, sysvProcesses, noProcesses, Process.new, keyOf,
    Process.initialise, Process.goto, threadStep, rxStep, hkey, System.new, Kernel.empty,
    System.msgGetCreate, Kernel.find?, Kernel.create]

theorem exec_firstSendSteps {st : State ι (System ι) Process} {adminMsg : AdminMessage}
    {projectId : ProjectId} {msqid : MsgQueueId} {q : Queue MsgQueueId Key AdminMessage}
    (hidle : (st.locals i).threads 1 = .idle)
    (hbegin : (st.locals i).beginSend adminMsg = some (.tx .sending projectId adminMsg))
    (hcontact : (st.locals i).mContactList projectId = {})
    (habsent : st.shared.kernel.get? (-1) = none)
    (hadd : ∀ mContactList, addContactInfoAtIndex mContactList projectId adminMsg.receiver
      ⟨[ftok], [st.shared.msgGet]⟩ =
        some (Function.update mContactList projectId ⟨adminMsg.receiver &&& itcMaskRegionId, msqid⟩,
          ⟨[], []⟩))
    (hregion : (adminMsg.receiver &&& itcMaskRegionId) ≠ 0)
    (hget : st.shared.kernel.get? msqid = some q) :
    ∃ st', exec (sysvProcesses ftok regionId) anyStep (firstSendSteps i adminMsg) st = some st' ∧
      st'.shared = st.shared.place q.msqid adminMsg := by
  replace hregion : adminMsg.receiver &&& 4293918720#32 ≠ 0#32 := hregion
  replace habsent : st.shared.kernel.get? 4294967295#32 = none := habsent
  simp [firstSendSteps, List.replicate, exec, anyStep, fire, sysvProcesses, Process.goto, hidle,
    hbegin, threadStep, txStep, hcontact, habsent, removeContactInfoAtIndex, hadd, hregion, hget]

omit [DecidableEq ι] in
theorem beginSend_eq {adminMsg : AdminMessage} {frame : List LittleEndian.Byte}
    (hinit : p.mIsInitialised = true) (hframe : txFrame adminMsg = some frame)
    (hzero : regionOf adminMsg.receiver ≠ 0)
    (hlt : regionOf adminMsg.receiver < itcMaxSupportedRegions) :
    ∃ projectId, p.beginSend adminMsg = some (.tx .sending projectId adminMsg) := by
  have hregion := not_or.mpr ⟨hzero, BitVec.not_le.mpr hlt⟩
  simp only [regionOf] at hregion
  exact ⟨_, by rw [Process.beginSend, hinit, if_neg Bool.noConfusion, dif_neg hregion, hframe]; rfl⟩

def messageTo (region : ℕ) : AdminMessage :=
  intactMessage.setReceiver (BitVec.ofNat 32 region <<< itcRegionIdShift)

omit [DecidableEq ι] in
theorem regionOf_messageTo {region : ℕ} (h : region < 256) :
    regionOf (messageTo region).receiver = BitVec.ofNat 32 region := by
  have hreceiver : (messageTo region).receiver = BitVec.ofNat 32 region <<< itcRegionIdShift :=
    intactMessage.word_setWord_self 1 _
  apply BitVec.eq_of_toNat_eq
  simp only [hreceiver, regionOf, and_itcMaskRegionId, itcRegionIdShift, BitVec.toNat_ushiftRight,
    BitVec.toNat_shiftLeft, BitVec.toNat_ofNat, Nat.shiftLeft_eq, Nat.shiftRight_eq_div_pow]
  omega

theorem txFrame_messageTo (region : ℕ) : ∃ frame, txFrame (messageTo region) = some frame := by
  have hsize : (messageTo region).size = intactMessage.size :=
    intactMessage.word_setWord_of_ne 1 _ (by decide)
  exact ⟨_, by rw [txFrame, hsize]; rfl⟩

omit [DecidableEq ι] in
theorem exists_alias {region : MailboxId} (h : ¬ Unaliased region) : ∃ adminMsg frame,
    txFrame adminMsg = some frame ∧ regionOf adminMsg.receiver ≠ 0 ∧
      regionOf adminMsg.receiver < itcMaxSupportedRegions ∧
      (regionOf adminMsg.receiver).setWidth 8 = (region >>> itcRegionIdShift).setWidth 8 ∧
      region >>> itcRegionIdShift ≠ regionOf adminMsg.receiver := by
  simp only [Unaliased, not_or] at h
  set n := (region >>> itcRegionIdShift).toNat with hn
  obtain ⟨frame, hframe⟩ := txFrame_messageTo (n % 256)
  have hregion : (regionOf (messageTo (n % 256)).receiver).toNat = n % 256 := by
    rw [regionOf_messageTo (Nat.mod_lt _ (by decide)), BitVec.toNat_ofNat]
    omega
  refine ⟨messageTo (n % 256), frame, hframe, fun hzero => ?_, ?_, ?_, fun heq => ?_⟩
  · rw [hzero] at hregion
    exact h.2.1 hregion.symm
  · rw [BitVec.lt_def, hregion]
    change n % 256 < 255
    omega
  · apply BitVec.eq_of_toNat_eq
    rw [BitVec.toNat_setWidth, BitVec.toNat_setWidth, hregion, ← hn]
    omega
  · rw [← heq, ← hn] at hregion
    omega

theorem not_routed_of_aliased (hftok : IsFtok ftok) (h : ¬ Unaliased (regionId i)) :
    ∃ st, Run (sysvProcesses ftok regionId) anyStep (noProcesses ι) st ∧
      ¬ Routed regionId st.shared := by
  -- the process sends to the region whose key it opened its own queue under
  obtain ⟨adminMsg, frame, hframe, hzero, hlt, hlow, hne⟩ := exists_alias h
  have hkey : keyOf ftok regionId i ≠ -1 := hftok.ne_neg_one _
  have hsame : ftok (regionOf adminMsg.receiver) = keyOf ftok regionId i :=
    (hftok.eq_iff _ _).mpr hlow
  have hmask : (adminMsg.receiver &&& itcMaskRegionId) ≠ 0 := fun h0 =>
    hzero (by rw [regionOf, h0]; rfl)
  obtain ⟨st, hopen, hshared, hinit, hidle, hcontact⟩ := exec_openSteps hkey
  obtain ⟨projectId, hbegin⟩ := beginSend_eq hinit hframe hzero hlt
  have hget : st.shared.kernel.get? 0 = some ⟨0, keyOf ftok regionId i, []⟩ := by
    rw [hshared]
    rfl
  have hadd (mContactList : ContactList) : addContactInfoAtIndex mContactList projectId
      adminMsg.receiver ⟨[ftok], [st.shared.msgGet]⟩ = some (Function.update mContactList projectId
        ⟨adminMsg.receiver &&& itcMaskRegionId, 0⟩, ⟨[], []⟩) := by
    have hmsgGet : st.shared.msgGet (keyOf ftok regionId i) = (0, .other) := by
      simp [System.msgGet, Kernel.find?, hshared]
    rw [regionOf] at hsame
    simp only [addContactInfoAtIndex, getMsgQueueId, hsame, if_neg hkey, hmsgGet]
    rfl
  obtain ⟨st', hsend, hplaced⟩ := exec_firstSendSteps hidle hbegin (hcontact projectId)
    (by rw [hshared]; rfl) hadd hmask hget
  refine ⟨st', exec_run hsend (exec_run hopen .start), fun hrouted => ?_⟩
  rw [hshared] at hplaced
  obtain ⟨j, hj, hregion⟩ := hrouted.placed (0, adminMsg) (hplaced ▸ List.mem_cons_self)
  rw [hplaced] at hj
  obtain ⟨rfl, -⟩ : j = i ∧ _ := Prod.ext_iff.mp (List.mem_singleton.mp hj)
  exact hne hregion

/-- Messages go where their region says, in every run, exactly when no process was given a
region number that shares the low eight bits of another that can be sent to. -/
theorem routed_iff (hftok : IsFtok ftok) :
    (∀ st, Run (sysvProcesses ftok regionId) anyStep (noProcesses ι) st →
      Routed regionId st.shared) ↔ ∀ i, Unaliased (regionId i) := by
  constructor
  · intro h i
    by_contra hi
    obtain ⟨st, hrun, hnot⟩ := not_routed_of_aliased hftok hi
    exact hnot (h st hrun)
  · intro h st hrun
    exact (run_sound hrun).1.routed hftok h

end Aliased

def lowByteFtok (n : BitVec 32) : Key := (n.setWidth 8).setWidth 32

theorem isFtok_lowByteFtok : IsFtok lowByteFtok := by
  refine ⟨fun n n' => ⟨fun h => ?_, fun h => congrArg (BitVec.setWidth 32) h⟩, fun n h => ?_⟩
  · have h' := congrArg BitVec.toNat h
    simp only [lowByteFtok, BitVec.toNat_setWidth] at h'
    apply BitVec.eq_of_toNat_eq
    rw [BitVec.toNat_setWidth, BitVec.toNat_setWidth]
    omega
  · have h' := congrArg BitVec.toNat h
    have h1 : (-1 : Key).toNat = 2 ^ 32 - 1 := rfl
    rw [lowByteFtok, BitVec.toNat_setWidth, BitVec.toNat_setWidth, h1] at h'
    omega

def waitAndSend (region : ℕ) : List (Bool × Action) :=
  openSteps true ++ [(true, .access 0 false 0), (true, .access 0 false 0)] ++
    firstStart ++ firstSendSteps false (messageTo region) ++ [(true, .access 0 false 0)]
where
  firstStart : List (Bool × Action) :=
    [(false, .initialise true true), (false, .startThread 0), (false, .access 0 false 0),
      (false, .access 0 false 1)]

def adjacentRegions : Bool → MailboxId
  | false => 0x00100000
  | true => 0x00200000

theorem routed_adjacentRegions : ∃ st, exec (sysvProcesses lowByteFtok adjacentRegions) anyStep
    (waitAndSend 2) (noProcesses Bool) = some st ∧ st.shared.read = [(true, messageTo 2)] ∧
      Routed adjacentRegions st.shared := by
  obtain ⟨st, hexec, hread⟩ : ∃ st, exec (sysvProcesses lowByteFtok adjacentRegions) anyStep
      (waitAndSend 2) (noProcesses Bool) = some st ∧ st.shared.read = [(true, messageTo 2)] :=
    ⟨_, rfl, rfl⟩
  exact ⟨st, hexec, hread, (routed_iff isFtok_lowByteFtok).mpr (by decide) st
    (exec_run hexec .start)⟩

def sharingRegions : Fin 3 → MailboxId
  | 0 => 0x00100000
  | 1 => 0x00200000
  | 2 => 0x10100000

def sendFromTwo : List (Fin 3 × Action) :=
  (1, .initialise true true) :: firstSendSteps 1 (messageTo 1)

/-- What region 2 sends to region 1 is placed where only region 257 has opened a queue; and once
the receive thread of region 257 waits for messages, it reads it. -/
theorem not_routed_sharingRegions :
    (∀ i j, sharingRegions i >>> itcRegionIdShift = sharingRegions j >>> itcRegionIdShift →
      i = j) ∧
      (∃ st, Run (sysvProcesses lowByteFtok sharingRegions) anyStep (noProcesses (Fin 3)) st ∧
        st.shared.opened = [(2, 0)] ∧ st.shared.placed = [(0, messageTo 1)] ∧
        st.shared.read = [] ∧ ¬ Routed sharingRegions st.shared) ∧
      ∃ st, Run (sysvProcesses lowByteFtok sharingRegions) anyStep (noProcesses (Fin 3)) st ∧
        st.shared.read = [(2, messageTo 1)] ∧ ¬ Routed sharingRegions st.shared := by
  have hne : sharingRegions 2 >>> itcRegionIdShift ≠ regionOf (messageTo 1).receiver := by
    rw [regionOf_messageTo (by decide)]
    decide
  refine ⟨by decide, ?_, ?_⟩
  · obtain ⟨st, hexec, hopened, hplaced, hread⟩ : ∃ st,
        exec (sysvProcesses lowByteFtok sharingRegions) anyStep (openSteps 2 ++ sendFromTwo)
          (noProcesses (Fin 3)) = some st ∧ st.shared.opened = [(2, 0)] ∧
        st.shared.placed = [(0, messageTo 1)] ∧ st.shared.read = [] := ⟨_, rfl, rfl, rfl, rfl⟩
    refine ⟨st, exec_run hexec .start, hopened, hplaced, hread, fun hrouted => ?_⟩
    obtain ⟨i, hi, hregion⟩ := hrouted.placed (0, messageTo 1) (hplaced ▸ List.mem_cons_self)
    rw [hopened, List.mem_singleton, Prod.mk.injEq] at hi
    rw [hi.1] at hregion
    exact hne hregion
  · obtain ⟨st, hexec, hread⟩ : ∃ st,
        exec (sysvProcesses lowByteFtok sharingRegions) anyStep
          (openSteps 2 ++ [(2, .access 0 false 0), (2, .access 0 false 0)] ++ sendFromTwo ++
            [(2, .access 0 false 0)]) (noProcesses (Fin 3)) = some st ∧
        st.shared.read = [(2, messageTo 1)] := ⟨_, rfl, rfl⟩
    refine ⟨st, exec_run hexec .start, hread, fun hrouted => ?_⟩
    exact hne (hrouted.read (2, messageTo 1) (hread ▸ List.mem_cons_self))

end ItcPlatform.SysvTransport
