import ItcPlatform.Lib.LossyChannel
import ItcPlatform.SysvTransport.Routing

/-! The messages between the processes as channels, one for each key: what is read came in the
order it was placed, and is lost only with its queue. -/

namespace ItcPlatform.SysvTransport
open Interleaving MessageQueues LossyChannel AdminMessage
variable {ι : Type*}

def removes (p : Process) : Action → Bool
  | .access t false _ =>
    match p.threads t with
    | .rx (.removing _) | .rx .destructing => true
    | _ => false
  | _ => false

section
variable (ftok : BitVec 32 → Key) (regionId : ι → MailboxId)

inductive QueueStep (lossy : Prop) (i : ι) (s : System ι) : System ι → Prop
  | stay : QueueStep lossy i s s
  | opened {s' : System ι} {msqid found : MsgQueueId}
      (h : s.msgGetCreate i (keyOf ftok regionId i) msqid = some (s', found)) :
      QueueStep lossy i s s'
  | placed {q : Queue MsgQueueId Key AdminMessage} (hq : q ∈ s.kernel.queues)
      {adminMsg : AdminMessage} (hb : Belongs ftok q.key adminMsg) :
      QueueStep lossy i s (s.place q.msqid adminMsg)
  | taken {q : Queue MsgQueueId Key AdminMessage} (hq : q ∈ s.kernel.queues)
      (hkey : q.key = keyOf ftok regionId i) {adminMsg : AdminMessage} {rest : List AdminMessage}
      (hm : q.messages = adminMsg :: rest) : QueueStep lossy i s (s.take i q.msqid adminMsg)
  | cleanedUp (h : lossy) {q : Queue MsgQueueId Key AdminMessage} (hq : q ∈ s.kernel.queues) :
      QueueStep lossy i s (s.cleanUp i q)
  | removed (h : lossy) (msqid : MsgQueueId) : QueueStep lossy i s (s.remove msqid)

def placedFor (key : Key) (s : System ι) : List AdminMessage :=
  (s.placed.map Prod.snd).filter fun m => ftok (regionOf m.receiver) = key

def readFor (key : Key) (s : System ι) : List AdminMessage :=
  (s.read.filter fun p => keyOf ftok regionId p.1 = key).map Prod.snd

def channelOf (key : Key) (s : System ι) : Channel AdminMessage :=
  ⟨placedFor ftok key s, readFor ftok regionId key s, s.kernel.pending key⟩

end

variable {ftok : BitVec 32 → Key} {regionId : ι → MailboxId} {s s' : System ι} {i : ι}
  {p p' : Process} {lossy : Prop}

section Access
variable (h : s.Sound ftok regionId)
include h

theorem System.Sound.key_of_get? {key : Key} {msqid : MsgQueueId}
    {q : Queue MsgQueueId Key AdminMessage} (hname : s.Names key msqid)
    (hget : s.kernel.get? msqid = some q) : q ∈ s.kernel.queues ∧ q.key = key := by
  have hq := (Kernel.get?_eq_some hget).1
  exact ⟨hq, h.kernel.unique (h.kernel.issued q hq) (h.issued_of_get? hname hget)⟩

theorem rxStep_queueStep {t : ℕ} {fault : Bool} {msqid : MsgQueueId} {stage : RxStage}
    {r : System ι × Process × Pc} (hp : p.Sound ftok regionId s i)
    (hat : p.threads t = .rx stage)
    (hstep : rxStep ftok fault i msqid s p stage = some r) :
    QueueStep ftok regionId (removes p (.access t fault msqid) = true) i s r.1 := by
  have hpc := hp.threads t
  rw [hat] at hpc
  cases stage with
  | starting =>
    simp only [rxStep] at hstep
    split_ifs at hstep <;> obtain rfl := Option.some.inj hstep <;> exact .stay
  | opening key recreate =>
    obtain rfl : key = keyOf ftok regionId i := hpc
    cases fault with
    | true =>
      obtain rfl := Option.some.inj hstep
      exact .stay
    | false =>
      obtain ⟨⟨s', found⟩, hget, rfl⟩ := Option.map_eq_some_iff.mp hstep
      exact .opened hget
  | statting key =>
    simp only [rxStep] at hstep
    split at hstep
    · obtain rfl := Option.some.inj hstep
      exact .stay
    · split_ifs at hstep <;> obtain rfl := Option.some.inj hstep <;> exact .stay
  | removing key =>
    simp only [rxStep] at hstep
    split at hstep
    · obtain rfl := Option.some.inj hstep
      exact .stay
    · rename_i q hget
      split_ifs at hstep with hfault
      · obtain rfl := Option.some.inj hstep
        exact .stay
      · obtain rfl := Option.some.inj hstep
        exact .cleanedUp (by simp [removes, hfault, hat]) (Kernel.get?_eq_some hget).1
  | receiving =>
    obtain rfl := Option.some.inj hstep
    exact .stay
  | waiting msqid =>
    simp only [rxStep] at hstep
    split at hstep
    · obtain rfl := Option.some.inj hstep
      exact .stay
    · rename_i q hget
      split_ifs at hstep
      · obtain rfl := Option.some.inj hstep
        exact .stay
      · split at hstep
        · cases hstep
        · rename_i adminMsg rest hmessages
          obtain rfl := Option.some.inj hstep
          obtain ⟨hq, hkey⟩ := h.key_of_get? hpc hget
          exact .taken hq hkey hmessages
  | exiting =>
    simp only [rxStep] at hstep
    split_ifs at hstep <;> obtain rfl := Option.some.inj hstep <;> exact .stay
  | destructing =>
    obtain rfl := Option.some.inj hstep
    cases fault with
    | true => exact .stay
    | false => exact .removed (by simp [removes, hat]) _

theorem txStep_queueStep {fault : Bool} {stage : TxStage} {projectId : ProjectId}
    {adminMsg : AdminMessage} {r : System ι × Process × Pc}
    (hpc : (Pc.tx stage projectId adminMsg).Sound ftok regionId s i p.hasTask)
    (hstep : txStep ftok fault s p projectId adminMsg stage = some r) :
    QueueStep ftok regionId lossy i s r.1 := by
  cases stage with
  | waiting msqid =>
    simp only [txStep] at hstep
    split at hstep
    · obtain rfl := Option.some.inj hstep
      exact .stay
    · rename_i q hget
      split_ifs at hstep
      · obtain rfl := Option.some.inj hstep
        exact .stay
      · obtain rfl := Option.some.inj hstep
        obtain ⟨hq, hkey⟩ := h.key_of_get? hpc.2 hget
        exact .placed hq (hkey ▸ hpc.1)
  | adding =>
    obtain ⟨r, -, rfl⟩ := Option.map_eq_some_iff.mp hstep
    exact .stay
  | checking =>
    simp only [txStep] at hstep
    split_ifs at hstep <;> obtain rfl := Option.some.inj hstep <;> exact .stay
  | _ =>
    obtain rfl := Option.some.inj hstep
    exact .stay

theorem queueStep_of_step {a : Action} (hp : p.Sound ftok regionId s i)
    (hstep : sysvProcesses ftok regionId i a s p = some (s', p')) :
    QueueStep ftok regionId (removes p a = true) i s s' := by
  cases a with
  | access t fault msqid =>
    obtain ⟨r, hthread, heq⟩ := Option.map_eq_some_iff.mp hstep
    obtain ⟨rfl, -⟩ := by simpa using heq
    cases hat : p.threads t with
    | idle =>
      rw [hat] at hthread
      cases hthread
    | rx stage =>
      rw [hat] at hthread
      exact rxStep_queueStep h hp hat hthread
    | tx stage projectId adminMsg =>
      have hpc := hp.threads t
      rw [hat] at hthread hpc
      exact txStep_queueStep h hpc hthread
  | initialise | release | kill =>
    obtain ⟨rfl, -⟩ := by simpa [sysvProcesses] using hstep
    exact .stay
  | startThread t | cancel t =>
    simp only [sysvProcesses] at hstep
    split at hstep
    · obtain ⟨rfl, -⟩ := by simpa using hstep
      exact .stay
    · cases hstep
  | send t adminMsg =>
    simp only [sysvProcesses] at hstep
    split at hstep
    · obtain ⟨pc, -, heq⟩ := Option.map_eq_some_iff.mp hstep
      obtain ⟨rfl, -⟩ := by simpa using heq
      exact .stay
    · cases hstep

end Access

theorem QueueStep.mono {lossy' : Prop} (h : QueueStep ftok regionId lossy i s s')
    (himp : lossy → lossy') : QueueStep ftok regionId lossy' i s s' := by
  cases h with
  | stay => exact .stay
  | opened hget => exact .opened hget
  | placed hq hb => exact .placed hq hb
  | taken hq hkey hm => exact .taken hq hkey hm
  | cleanedUp h hq => exact .cleanedUp (himp h) hq
  | removed h msqid => exact .removed (himp h) msqid

section Project
variable {key : Key}

theorem channelStep_of_removed (hlossy : lossy) (hu : s.kernel.Unique) {msqid : MsgQueueId}
    (hkernel : s'.kernel = s.kernel.remove msqid) (hplaced : s'.placed = s.placed)
    (hread : s'.read = s.read) :
    channelOf ftok regionId key s' = channelOf ftok regionId key s ∨
      Step lossy (channelOf ftok regionId key s) (channelOf ftok regionId key s') := by
  have hpending := hu.pending_remove_or msqid key
  rw [← hkernel] at hpending
  obtain hkept | hnil := hpending
  · left
    simp only [channelOf, placedFor, readFor, hplaced, hread, hkept]
  · right
    have heq : channelOf ftok regionId key s' =
        { channelOf ftok regionId key s with pending := [] } := by
      simp only [channelOf, placedFor, readFor, hplaced, hread, hnil]
    rw [heq]
    exact .drop hlossy

variable (hstep : QueueStep ftok regionId lossy i s s')
include hstep

theorem QueueStep.unique (h : s.Sound ftok regionId) (hu : s.kernel.Unique) :
    s'.kernel.Unique := by
  cases hstep with
  | stay => exact hu
  | opened hget =>
    unfold System.msgGetCreate at hget
    split at hget
    · obtain ⟨rfl, -⟩ := by simpa using hget
      exact hu
    · rename_i hnone
      split_ifs at hget
      obtain ⟨kernel, hnew, heq⟩ := Option.map_eq_some_iff.mp hget
      obtain ⟨rfl, -⟩ := by simpa using heq
      exact hu.create h.kernel.issued hnone hnew
  | @placed q _ adminMsg _ =>
    have hmodify : (s.kernel.modify q.msqid (· ++ [adminMsg])).Unique := hu.modify
    exact hmodify
  | @taken q =>
    have hmodify : (s.kernel.modify q.msqid List.tail).Unique := hu.modify
    exact hmodify
  | cleanedUp | removed => exact Kernel.Unique.remove hu

theorem QueueStep.channelStep (key : Key) (h : s.Sound ftok regionId) (hu : s.kernel.Unique) :
    channelOf ftok regionId key s' = channelOf ftok regionId key s ∨
      Step lossy (channelOf ftok regionId key s) (channelOf ftok regionId key s') := by
  have hu' := hstep.unique h hu
  cases hstep with
  | stay => exact .inl rfl
  | opened hget =>
    refine .inl ?_
    unfold System.msgGetCreate at hget
    split at hget
    · obtain ⟨rfl, -⟩ := by simpa using hget
      rfl
    · rename_i hnone
      split_ifs at hget
      obtain ⟨kernel, hnew, heq⟩ := Option.map_eq_some_iff.mp hget
      obtain ⟨rfl, -⟩ := by simpa using heq
      ext1
      · rfl
      · rfl
      · exact hu.pending_create hu' hnew hnone key
  | @placed q hq adminMsg hb =>
    have hpending := hu.pending_modify hq (· ++ [adminMsg]) key
    by_cases hkey : q.key = key
    · subst hkey
      have heq : channelOf ftok regionId q.key (s.place q.msqid adminMsg) =
          ⟨(channelOf ftok regionId q.key s).accepted ++ [adminMsg],
            (channelOf ftok regionId q.key s).delivered,
            (channelOf ftok regionId q.key s).pending ++ [adminMsg]⟩ := by
        ext1
        · simp [channelOf, placedFor, System.place, ← hb.2.2]
        · rfl
        · rw [if_pos rfl, ← hu.pending_of_mem hq] at hpending
          exact hpending
      rw [heq]
      exact .inr (.accept adminMsg)
    · have hne : ftok (regionOf adminMsg.receiver) ≠ key := hb.2.2 ▸ hkey
      rw [if_neg hkey] at hpending
      refine .inl (Channel.ext ?_ rfl hpending)
      simp [channelOf, placedFor, System.place, hne]
  | @taken q hq hqueue adminMsg rest hm =>
    have hpending := hu.pending_modify hq List.tail key
    by_cases hkey : q.key = key
    · subst hkey
      have hmessages := hu.pending_of_mem hq
      rw [hm] at hmessages
      have heq : channelOf ftok regionId q.key (s.take i q.msqid adminMsg) =
          ⟨(channelOf ftok regionId q.key s).accepted,
            (channelOf ftok regionId q.key s).delivered ++ [adminMsg], rest⟩ := by
        ext1
        · rfl
        · simp [channelOf, readFor, System.take, hqueue]
        · rw [if_pos rfl, hm] at hpending
          exact hpending
      rw [heq]
      exact .inr (.deliver hmessages)
    · have hne : keyOf ftok regionId i ≠ key := hqueue ▸ hkey
      rw [if_neg hkey] at hpending
      refine .inl (Channel.ext rfl ?_ hpending)
      simp [channelOf, readFor, System.take, hne]
  | cleanedUp hlossy => exact channelStep_of_removed hlossy hu rfl rfl rfl
  | removed hlossy => exact channelStep_of_removed hlossy hu rfl rfl rfl

end Project

section Run
variable [DecidableEq ι] {ok : State ι (System ι) Process → ι → Action → Prop}
  {st st' : State ι (System ι) Process} {key : Key}

structure Carrying (ftok : BitVec 32 → Key) (regionId : ι → MailboxId)
    (st : State ι (System ι) Process) : Prop where
  system : st.shared.Sound ftok regionId
  processes : ∀ i, (st.locals i).Sound ftok regionId st.shared i
  unique : st.shared.kernel.Unique

omit [DecidableEq ι] in
theorem carrying_noProcesses : Carrying ftok regionId (noProcesses ι) :=
  ⟨.new, fun _ => Process.sound_new, Kernel.unique_empty⟩

theorem Carrying.step (h : Carrying ftok regionId st) {i : ι} {a : Action} {s' : System ι}
    {p' : Process} (hstep : sysvProcesses ftok regionId i a st.shared (st.locals i) =
      some (s', p')) : Carrying ftok regionId ⟨s', Function.update st.locals i p'⟩ := by
  obtain ⟨hs', hsub, hp'⟩ := step_sound h.system (h.processes i) hstep
  exact ⟨hs', forall_update h.processes hp' fun j _ hj => hj.mono hsub,
    (queueStep_of_step h.system (h.processes i) hstep).unique h.system h.unique⟩

/-- The kernel carries, for each key, what a channel can carry that is lossy as far as queues are
removed. -/
theorem Carrying.reaches (lossy : Prop) (hc : Carrying ftok regionId st)
    (h : Run (sysvProcesses ftok regionId) ok st st')
    (hlossy : ∀ st i a, ok st i a → removes (st.locals i) a = true → lossy) (key : Key) :
    Carrying ftok regionId st' ∧
      Reaches lossy (channelOf ftok regionId key st.shared)
        (channelOf ftok regionId key st'.shared) := by
  refine h.invariant ⟨hc, .refl⟩ fun st i a s' p' ⟨hc, hr⟩ hok hstep => ?_
  refine ⟨hc.step hstep, ?_⟩
  have hqueue := (queueStep_of_step hc.system (hc.processes i) hstep).mono (hlossy st i a hok)
  obtain heq | hchannel := hqueue.channelStep key hc.system hc.unique
  · exact heq ▸ hr
  · exact hr.tail hchannel

/-- Whatever the processes do, what the receive threads of a key read and what still waits there
are in the order of, and no more than, what was placed for the key. -/
theorem read_sublist_placed (h : Run (sysvProcesses ftok regionId) anyStep (noProcesses ι) st)
    (key : Key) :
    (readFor ftok regionId key st.shared ++ st.shared.kernel.pending key).Sublist
      (placedFor ftok key st.shared) :=
  (carrying_noProcesses.reaches True h (fun _ _ _ _ _ => trivial) key).2.sublist

/-- As long as no queue is removed, every message placed was read or still waits. -/
theorem placed_eq_read_append_pending
    (h : Run (sysvProcesses ftok regionId) (fun st i a => removes (st.locals i) a = false)
      (noProcesses ι) st) (key : Key) :
    placedFor ftok key st.shared =
      readFor ftok regionId key st.shared ++ st.shared.kernel.pending key :=
  (carrying_noProcesses.reaches False h (fun _ _ _ hkept hremoved =>
    Bool.false_ne_true (hkept.symm.trans hremoved)) key).2.lossless id

end Run

theorem read_sublist_placed_adjacentRegions : ∃ st, exec (sysvProcesses lowByteFtok
    adjacentRegions) anyStep (waitAndSend 2) (noProcesses Bool) = some st ∧
      readFor lowByteFtok adjacentRegions 2 st.shared = [messageTo 2] ∧
      (readFor lowByteFtok adjacentRegions 2 st.shared ++ st.shared.kernel.pending 2).Sublist
        (placedFor lowByteFtok 2 st.shared) := by
  obtain ⟨st, hexec, hread⟩ : ∃ st, exec (sysvProcesses lowByteFtok adjacentRegions) anyStep
      (waitAndSend 2) (noProcesses Bool) = some st ∧
        readFor lowByteFtok adjacentRegions 2 st.shared = [messageTo 2] := ⟨_, rfl, rfl⟩
  exact ⟨st, hexec, hread, read_sublist_placed (exec_run hexec .start) 2⟩

theorem placed_eq_read_append_pending_adjacentRegions : ∃ st, exec (sysvProcesses lowByteFtok
    adjacentRegions) (fun st i a => removes (st.locals i) a = false) (waitAndSend 2)
      (noProcesses Bool) = some st ∧
      placedFor lowByteFtok 2 st.shared =
        readFor lowByteFtok adjacentRegions 2 st.shared ++ st.shared.kernel.pending 2 := by
  obtain ⟨st, hexec⟩ : ∃ st, exec (sysvProcesses lowByteFtok adjacentRegions)
      (fun st i a => removes (st.locals i) a = false) (waitAndSend 2) (noProcesses Bool) =
        some st := ⟨_, rfl⟩
  exact ⟨st, hexec, placed_eq_read_append_pending (exec_run hexec .start) 2⟩

section Fresh

def InLoop : Pc → Prop
  | .rx .receiving | .rx (.waiting _) | .rx (.opening _ true) => True
  | _ => False

theorem rxStep_entering {fault : Bool} {msqid : MsgQueueId} {stage : RxStage}
    {r : System ι × Process × Pc} (h : s.Sound ftok regionId) (hu : s.kernel.Unique)
    (hp : p.Keeps ftok regionId s i) (hstep : rxStep ftok fault i msqid s p stage = some r)
    (hout : ¬ InLoop (.rx stage)) (hin : InLoop r.2.2) :
    r.1.kernel.pending (keyOf ftok regionId i) = [] := by
  cases stage with
  | starting =>
    simp only [rxStep] at hstep
    split_ifs at hstep <;> obtain rfl := Option.some.inj hstep <;> exact hin.elim
  | opening key recreate =>
    cases recreate with
    | true => exact absurd trivial hout
    | false =>
      cases fault with
      | true =>
        obtain rfl := Option.some.inj hstep
        exact hin.elim
      | false =>
        obtain ⟨_, -, rfl⟩ := Option.map_eq_some_iff.mp hstep
        exact hin.elim
  | statting key =>
    simp only [rxStep] at hstep
    split at hstep
    · obtain rfl := Option.some.inj hstep
      exact hin.elim
    · rename_i q hget
      split_ifs at hstep with hfault hmessages
      · obtain rfl := Option.some.inj hstep
        exact hin.elim
      · obtain rfl := Option.some.inj hstep
        exact hin.elim
      · obtain rfl := Option.some.inj hstep
        obtain ⟨hq, hkey⟩ := h.key_of_get? hp.queue hget
        rw [← hkey, hu.pending_of_mem hq]
        exact List.eq_nil_of_length_eq_zero (not_not.mp hmessages)
  | removing key =>
    simp only [rxStep] at hstep
    split at hstep
    · obtain rfl := Option.some.inj hstep
      exact hin.elim
    · rename_i q hget
      split_ifs at hstep
      · obtain rfl := Option.some.inj hstep
        exact hin.elim
      · obtain rfl := Option.some.inj hstep
        obtain ⟨hq, hkey⟩ := h.key_of_get? hp.queue hget
        exact (hu.pending_remove hq _).trans (if_pos hkey)
  | receiving | waiting => exact absurd trivial hout
  | exiting =>
    simp only [rxStep] at hstep
    split_ifs at hstep <;> obtain rfl := Option.some.inj hstep <;> exact hin.elim
  | destructing =>
    obtain rfl := Option.some.inj hstep
    exact hin.elim

@[simp] theorem threads_goto_self (t : ℕ) (pc : Pc) : (p.goto t pc).threads t = pc :=
  Function.update_self _ _ _

theorem threads_goto_of_ne {t t' : ℕ} (h : t ≠ t') (pc : Pc) :
    (p.goto t' pc).threads t = p.threads t :=
  Function.update_of_ne h _ _

theorem txStep_entering {fault : Bool} {stage : TxStage} {projectId : ProjectId}
    {adminMsg : AdminMessage} {r : System ι × Process × Pc}
    (hstep : txStep ftok fault s p projectId adminMsg stage = some r) : ¬ InLoop r.2.2 := by
  cases stage with
  | waiting msqid =>
    simp only [txStep] at hstep
    split at hstep
    · obtain rfl := Option.some.inj hstep
      exact id
    · split_ifs at hstep <;> obtain rfl := Option.some.inj hstep <;> exact id
  | adding =>
    obtain ⟨r, -, rfl⟩ := Option.map_eq_some_iff.mp hstep
    exact id
  | checking =>
    simp only [txStep] at hstep
    split_ifs at hstep <;> obtain rfl := Option.some.inj hstep <;> exact id
  | _ =>
    obtain rfl := Option.some.inj hstep
    exact id

theorem beginSend_entering {adminMsg : AdminMessage} {pc : Pc}
    (h : p.beginSend adminMsg = some pc) : ¬ InLoop pc := by
  simp only [Process.beginSend] at h
  split_ifs at h
  · obtain rfl := Option.some.inj h
    exact id
  · obtain rfl := Option.some.inj h
    exact id
  · obtain ⟨_, -, rfl⟩ := Option.map_eq_some_iff.mp h
    exact id

theorem step_entering {t : ℕ} {a : Action} (h : s.Sound ftok regionId) (hu : s.kernel.Unique)
    (hp : p.Sound ftok regionId s i)
    (hstep : sysvProcesses ftok regionId i a s p = some (s', p'))
    (hout : ¬ InLoop (p.threads t)) (hin : InLoop (p'.threads t)) :
    s'.kernel.pending (keyOf ftok regionId i) = [] := by
  -- only an access of the thread itself gets it there
  have hgoto {t' : ℕ} {pc : Pc} (hpc : ¬ InLoop pc) : ¬ InLoop ((p.goto t' pc).threads t) := by
    by_cases ht : t = t'
    · subst ht
      simpa using hpc
    · rwa [threads_goto_of_ne ht]
  cases a with
  | access t' fault msqid =>
    obtain ⟨r, hthread, heq⟩ := Option.map_eq_some_iff.mp hstep
    obtain ⟨rfl, rfl⟩ := by simpa using heq
    have hpc := hp.threads t'
    have hthreads : r.2.1.threads = p.threads := by
      cases hat : p.threads t' with
      | idle =>
        rw [hat] at hthread
        cases hthread
      | rx stage =>
        rw [hat] at hthread hpc
        exact (rxStep_advances h hp.keeps hpc hthread).threads
      | tx stage projectId adminMsg =>
        rw [hat] at hthread hpc
        exact (txStep_advances h hp.keeps hpc hthread).threads
    by_cases ht : t = t'
    · subst ht
      rw [threads_goto_self] at hin
      cases hat : p.threads t with
      | idle =>
        rw [hat] at hthread
        cases hthread
      | rx stage =>
        rw [hat] at hthread hout
        exact rxStep_entering h hu hp.keeps hthread hout hin
      | tx stage projectId adminMsg =>
        rw [hat] at hthread
        exact absurd hin (txStep_entering hthread)
    · rw [threads_goto_of_ne ht, hthreads] at hin
      exact absurd hin hout
  | initialise createPath keyCreate =>
    obtain ⟨-, rfl⟩ := by simpa [sysvProcesses] using hstep
    unfold Process.initialise at hin
    split_ifs at hin <;> exact absurd hin hout
  | release keyDelete =>
    obtain ⟨-, rfl⟩ := by simpa [sysvProcesses] using hstep
    unfold Process.release at hin
    split_ifs at hin <;> exact absurd hin hout
  | kill =>
    obtain ⟨-, rfl⟩ := by simpa [sysvProcesses] using hstep
    exact hin.elim
  | startThread t' | cancel t' =>
    simp only [sysvProcesses] at hstep
    split at hstep
    · obtain ⟨-, rfl⟩ := by simpa using hstep
      exact absurd hin (hgoto id)
    · cases hstep
  | send t' adminMsg =>
    simp only [sysvProcesses] at hstep
    split at hstep
    · obtain ⟨pc, hbegin, heq⟩ := Option.map_eq_some_iff.mp hstep
      obtain ⟨-, rfl⟩ := by simpa using heq
      exact absurd hin (hgoto (beginSend_entering hbegin))
    · cases hstep

variable [DecidableEq ι] {st st' : State ι (System ι) Process}

/-- Once a receive thread that was started in one state is in its loop in another, the queue of
its key holds nothing that was placed before: what an earlier life of the process left unread was
removed, not delivered. -/
theorem pending_sublist_later
    (hbefore : Run (sysvProcesses ftok regionId) anyStep (noProcesses ι) st) {t : ℕ}
    (hstart : (st.locals i).threads t = .rx .starting)
    (h : Run (sysvProcesses ftok regionId) anyStep st st')
    (hloop : InLoop ((st'.locals i).threads t)) :
    ∃ later, placedFor ftok (keyOf ftok regionId i) st'.shared =
        placedFor ftok (keyOf ftok regionId i) st.shared ++ later ∧
      (st'.shared.kernel.pending (keyOf ftok regionId i)).Sublist later := by
  have hbegin := (carrying_noProcesses.reaches True hbefore (fun _ _ _ _ _ => trivial)
    (keyOf ftok regionId i)).1
  set key := keyOf ftok regionId i with hkey
  obtain ⟨-, hreaches⟩ := hbegin.reaches True h (fun _ _ _ _ _ => trivial) key
  obtain ⟨later, given, haccepted, -, -⟩ := hreaches.extends
  refine ⟨later, haccepted, ?_⟩
  -- a thread in its loop has seen the channel empty since the start
  have hfresh : Carrying ftok regionId st' ∧
      (channelOf ftok regionId key st.shared).accepted.length ≤
        (channelOf ftok regionId key st'.shared).accepted.length ∧
      (InLoop ((st'.locals i).threads t) →
        FreshSince (channelOf ftok regionId key st.shared).accepted.length
          (channelOf ftok regionId key st'.shared)) := by
    refine h.invariant ⟨hbegin, le_rfl, fun hloop => ?_⟩ ?_
    · rw [hstart] at hloop
      exact hloop.elim
    · rintro s j a s' p' ⟨hc, hle, hfresh⟩ - hstep
      have hqueue := queueStep_of_step hc.system (hc.processes j) hstep
      have hchannel := (hqueue.mono fun _ => trivial : QueueStep _ _ True _ _ _).channelStep
        key hc.system hc.unique
      have hle' := hchannel.elim (fun heq => heq ▸ hle) fun hmove => hle.trans hmove.length_le
      refine ⟨hc.step hstep, hle', fun hloop => ?_⟩
      by_cases hin : InLoop ((s.locals i).threads t)
      · exact hchannel.elim (fun heq => heq ▸ hfresh hin) (hfresh hin).step
      · dsimp only at hloop
        obtain rfl : i = j := by
          by_contra hne
          rw [Function.update_of_ne hne] at hloop
          exact hin hloop
        rw [Function.update_self] at hloop
        exact freshSince_of_pending_nil hle'
          (step_entering hc.system hc.unique (hc.processes i) hstep hin hloop)
  have hpending := (hfresh.2.2 hloop).pending
  rw [haccepted, List.drop_left] at hpending
  exact hpending

end Fresh

def killedBeforeReading : List (Bool × Action) :=
  openSteps true ++ waitAndSend.firstStart ++ firstSendSteps false (messageTo 2) ++
    [(true, .kill), (true, .initialise true true), (true, .startThread 0)]

theorem pending_sublist_later_killedBeforeReading : ∃ st st',
    exec (sysvProcesses lowByteFtok adjacentRegions) anyStep killedBeforeReading
      (noProcesses Bool) = some st ∧
    exec (sysvProcesses lowByteFtok adjacentRegions) anyStep
      (List.replicate 5 (true, .access 0 false 2)) st = some st' ∧
    st'.shared.destroyed = [(true, messageTo 2)] ∧
    ∃ later, placedFor lowByteFtok (keyOf lowByteFtok adjacentRegions true) st'.shared =
        placedFor lowByteFtok (keyOf lowByteFtok adjacentRegions true) st.shared ++ later ∧
      (st'.shared.kernel.pending (keyOf lowByteFtok adjacentRegions true)).Sublist later := by
  obtain ⟨st, st', hexec, hexec', hdestroyed, hstart, hloop⟩ : ∃ st st',
      exec (sysvProcesses lowByteFtok adjacentRegions) anyStep killedBeforeReading
        (noProcesses Bool) = some st ∧
      exec (sysvProcesses lowByteFtok adjacentRegions) anyStep
        (List.replicate 5 (true, .access 0 false 2)) st = some st' ∧
      st'.shared.destroyed = [(true, messageTo 2)] ∧
      (st.locals true).threads 0 = .rx .starting ∧
      (st'.locals true).threads 0 = .rx .receiving := ⟨_, _, rfl, rfl, rfl, rfl, rfl⟩
  exact ⟨st, st', hexec, hexec', hdestroyed, pending_sublist_later (exec_run hexec .start) hstart
    (exec_run hexec' .start) (by rw [hloop]; trivial)⟩

end ItcPlatform.SysvTransport
