import ItcPlatform.Lib.Copies
import ItcPlatform.SysvTransport.Delivery
import ItcPlatform.TransportLocal.Senders

/-! From `msgsnd` in one region to a mailbox of another: the processes with their queues, and behind
one of them the receive thread, the local transport and the mailboxes of its region. -/

namespace ItcPlatform.CrossRegion
open ConcurrentContainer Copies Interleaving LittleEndian Mailbox SysvTransport TransportLocal
variable {ι τ : Type*}

/-- The process `self` with its receive thread `rx` among all processes, and the thread of each of
its mailboxes. -/
structure HostParams (ι τ : Type*) where
  ftok : BitVec 32 → Key
  regionId : ι → MailboxId
  mMaxMsgSize : BitVec 64
  self : ι
  owner : Place → τ
  rx : τ

/-- The queues and the mailboxes with their history: how many of the messages that it read the
process is done with, and which ones it gave to the local transport and which of these left the
mailboxes, in this life and before. -/
structure Host (ι τ : Type*) where
  queues : State ι (System ι) Process
  mailboxes : State τ (Place → ItcMailbox τ) (Place → Mailbox.Thread τ)
  handled : ℕ
  given : List AdminMessage
  givenBefore : List AdminMessage
  goneBefore : Place → List AdminMessage

inductive HostAction (ι τ : Type*)
  | process (i : ι) (a : SysvTransport.Action)
  | thread (t : τ) (a : RegionAction)
  | forward (turn : Turn)
  | lose

def readBy [DecidableEq ι] (i : ι) (s : System ι) : List AdminMessage :=
  (s.read.filter (·.1 = i)).map Prod.snd

def kills : SysvTransport.Action → Bool
  | .kill => true
  | _ => false

def sends : RegionAction → Bool
  | .send _ => true
  | _ => false

section Host
variable [DecidableEq ι] [DecidableEq τ] (P : HostParams ι τ)

def Host.new : Host ι τ :=
  ⟨noProcesses ι, newRegion (P.regionId P.self), 0, [], [], fun _ => []⟩

def Host.gone (h : Host ι τ) (k : Place) : List AdminMessage :=
  (goneFrom P.rx (h.mailboxes.shared k)).map (·.adminMsg)

/-- The process comes back with new mailboxes; what it read and did not forward is lost. -/
def Host.restart (h : Host ι τ) : Host ι τ :=
  { h with
    mailboxes := newRegion (P.regionId P.self)
    handled := (readBy P.self h.queues.shared).length
    given := []
    givenBefore := h.givenBefore ++ h.given
    goneBefore := fun k => h.goneBefore k ++ h.gone P k }

/-- The receive thread forwards one message after the other, or is cancelled with one in its buffer;
it sends nothing else to the mailboxes of the region. A message to a unit outside the array has no
step: what the push writes there is not known. -/
def Host.step : HostAction ι τ → Host ι τ → Option (Host ι τ)
  | .process i a, h => (fire (sysvProcesses P.ftok P.regionId) i a h.queues).map fun queues =>
    if i = P.self ∧ kills a then Host.restart P { h with queues } else { h with queues }
  | .thread t a, h =>
    if t = P.rx ∧ sends a then none
    else (fire (region P.owner) t a h.mailboxes).map fun mailboxes => { h with mailboxes }
  | .forward turn, h => (readBy P.self h.queues.shared)[h.handled]?.bind fun m =>
    match handedOver turn.localSend turn.heap P.mMaxMsgSize m with
    | none => some { h with handled := h.handled + 1 }
    | some got => (fire (region P.owner) P.rx (.send got) h.mailboxes).map fun mailboxes =>
      { h with mailboxes, handled := h.handled + 1, given := h.given ++ [got] }
  | .lose, h =>
    if h.handled < (readBy P.self h.queues.shared).length then
      some { h with handled := h.handled + 1 }
    else none

def host : Program Unit (HostAction ι τ) (Host ι τ) Unit :=
  fun _ a h _ => (h.step P a).map fun h => (h, ())

/-- The condition of a run in which every message is sent to a mailbox of the array, by the threads
of the region and by the receive thread, which drops what the wire cannot carry. -/
def confined : State Unit (Host ι τ) Unit → Unit → HostAction ι τ → Prop
  | _, _, .thread _ a => a.target.isSome
  | st, _, .forward _ => ∀ m ∈ (readBy P.self st.shared.queues.shared)[st.shared.handled]?,
    Transportable P.mMaxMsgSize m → (unitOf m.receiver).toNat < itcMaxSupportedMailboxes
  | _, _, .process _ _ | _, _, .lose => True

instance (st : State Unit (Host ι τ) Unit) (i : Unit) (a : HostAction ι τ) :
    Decidable (confined P st i a) :=
  match a with
  | .thread _ _ => inferInstanceAs (Decidable (_ = true))
  | .forward _ => inferInstanceAs (Decidable (∀ m ∈ _, _ → _))
  | .process _ _ | .lose => .isTrue trivial

structure Host.Sound (h : Host ι τ) : Prop where
  queues : Run (sysvProcesses P.ftok P.regionId) anyStep (noProcesses ι) h.queues
  mailboxes : Run (region P.owner) anyStep (newRegion (P.regionId P.self)) h.mailboxes
  forwarded : InOrder Delivered ((readBy P.self h.queues.shared).take h.handled)
    (h.givenBefore ++ h.given)
  goneBefore : ∀ k, (h.goneBefore k).Subperm h.givenBefore
  addressed : ∀ k, ∀ m ∈ h.goneBefore k, (unitOf m.receiver).toNat = k
  stored : ∀ k, ((storedFrom P.rx (h.mailboxes.shared k)).map (·.adminMsg) ++
    inHand (h.mailboxes.locals P.rx k)).Sublist h.given

variable {P} {h : Host ι τ}

section Mailboxes
variable {s s' : State τ (Place → ItcMailbox τ) (Place → Mailbox.Thread τ)} {owner : Place → τ}
  {regionId : MailboxId} {t : τ} {a : RegionAction}

def sentTo (rx : τ) (k : Place) (t : τ) : RegionAction → List AdminMessage
  | .send adminMsg => if t = rx ∧ (unitOf adminMsg.receiver).toNat = k then [adminMsg] else []
  | _ => []

theorem givenBy_of_target {k k' : Place} {a' : Mailbox.Action} (h : a.target = some (k', a')) :
    sentTo t k t a = if k = k' then givenBy a' else [] := by
  cases a with
  | send adminMsg =>
    have hsent : (mailboxAt (getAlignedEntry (unitOf adminMsg.receiver))).map
        (·, Mailbox.Action.push adminMsg) = some (k', a') := h
    obtain ⟨_, -, heq⟩ := Option.map_eq_some_iff.mp hsent
    obtain rfl : Mailbox.Action.push adminMsg = a' := congrArg Prod.snd heq
    have hunit := (sent_of_target h).2
    by_cases hk : k = k'
    · subst hk
      simp [sentTo, hunit, givenBy]
    · have hne : k'.val ≠ k.val := fun heq => hk (Fin.ext heq.symm)
      simp [sentTo, hunit, hk, hne]
  | receive | setState | access =>
    obtain ⟨rfl, rfl⟩ := Prod.mk.inj (Option.some.inj h)
    simp [sentTo, givenBy]

theorem access_of_target {k : Place} {choice : Bool}
    (h : a.target = some (k, .access choice)) : ∃ choice, a = .access k choice := by
  cases a with
  | send adminMsg =>
    have hsent : (mailboxAt (getAlignedEntry (unitOf adminMsg.receiver))).map
        (·, Mailbox.Action.push adminMsg) = some (k, .access choice) := h
    obtain ⟨_, -, heq⟩ := Option.map_eq_some_iff.mp hsent
    cases congrArg Prod.snd heq
  | receive | setState => cases congrArg Prod.snd (Option.some.inj h)
  | access k' choice' =>
    obtain rfl : k' = k := congrArg Prod.fst (Option.some.inj h)
    exact ⟨choice', rfl⟩

theorem sentTo_eq_nil {rx : τ} {k : Place} (h : ¬ (t = rx ∧ sends a)) : sentTo rx k t a = [] := by
  cases a with
  | send => exact if_neg fun hsent => h ⟨hsent.1, rfl⟩
  | _ => rfl

theorem storedFrom_of_fire (hrun : Run (region owner) anyStep (newRegion regionId) s)
    (hfire : fire (region owner) t a s = some s') (rx : τ) (k : Place) :
    (storedFrom rx (s'.shared k)).map (·.adminMsg) ++ inHand (s'.locals rx k) =
        (storedFrom rx (s.shared k)).map (·.adminMsg) ++ inHand (s.locals rx k) ++
          sentTo rx k t a ∨
      (s.shared k).mIsActive = false ∧ (∃ adminMsg, (s.locals rx k).stage = .pushLoad adminMsg) ∧
        t = rx ∧ (∃ choice, a = .access k choice) ∧
        (storedFrom rx (s'.shared k)).map (·.adminMsg) ++ inHand (s'.locals rx k) =
          (storedFrom rx (s.shared k)).map (·.adminMsg) := by
  obtain ⟨mboxes, ths, hstep, rfl⟩ := fire_eq_some.mp hfire
  obtain ⟨⟨k', a'⟩, htarget, hmap⟩ := Option.bind_eq_some_iff.mp hstep
  obtain ⟨⟨m, th⟩, hmailbox, heq⟩ := Option.map_eq_some_iff.mp hmap
  obtain ⟨rfl, rfl⟩ := Prod.mk.inj heq
  have hmailboxes := mailbox_of_run hrun k'
  have hsound := (mailbox_induction (I := fun _ => True) hmailboxes trivial
    fun _ _ _ _ _ _ _ _ _ => trivial).1
  by_cases ht : t = rx
  · subst ht
    by_cases hk : k = k'
    · subst hk
      have hsent := givenBy_of_target (t := t) (k := k) htarget
      rw [if_pos rfl] at hsent
      simp only [Function.update_self]
      rw [hsent]
      obtain hstored | ⟨hinactive, hstage, ⟨choice, rfl⟩, hstored⟩ :=
        storedFrom_of_step hsound (pushing_of_run hmailboxes t) hmailbox
      · exact .inl hstored
      · exact .inr ⟨hinactive, hstage, trivial, access_of_target htarget, hstored⟩
    · have hsent := givenBy_of_target (t := t) (k := k) htarget
      rw [if_neg hk] at hsent
      simp only [Function.update_self, Function.update_of_ne hk]
      rw [hsent, List.append_nil]
      exact .inl rfl
  · refine .inl ?_
    rw [sentTo_eq_nil fun h => ht h.1, List.append_nil]
    simp only [Function.update_of_ne (Ne.symm ht)]
    by_cases hk : k = k'
    · subst hk
      have hother := storedFrom_of_ne hsound hmailbox (Ne.symm ht)
      simp only [Function.update_self]
      rw [hother]
      rfl
    · simp only [Function.update_of_ne hk]

theorem storedFrom_sublist_of_fire (hrun : Run (region owner) anyStep (newRegion regionId) s)
    (hfire : fire (region owner) t a s = some s') (rx : τ) (k : Place) :
    ((storedFrom rx (s'.shared k)).map (·.adminMsg) ++ inHand (s'.locals rx k)).Sublist
      ((storedFrom rx (s.shared k)).map (·.adminMsg) ++ inHand (s.locals rx k) ++
        sentTo rx k t a) := by
  obtain heq | ⟨-, -, -, -, heq⟩ := storedFrom_of_fire hrun hfire rx k
  · rw [heq]
  · rw [heq, List.append_assoc]
    exact List.sublist_append_left _ _

end Mailboxes

section Queues
variable {s s' : System ι} {ftok : BitVec 32 → Key} {regionId : ι → MailboxId} {i j : ι}

theorem readBy_of_queueStep {lossy : Prop} (h : QueueStep ftok regionId lossy i s s') (j : ι) :
    readBy j s <+: readBy j s' := by
  cases h with
  | opened hget =>
    unfold System.msgGetCreate at hget
    split at hget
    · obtain ⟨rfl, -⟩ := Prod.mk.inj (Option.some.inj hget)
      exact List.prefix_rfl
    · split_ifs at hget
      obtain ⟨kernel, -, heq⟩ := Option.map_eq_some_iff.mp hget
      obtain ⟨rfl, -⟩ := Prod.mk.inj heq
      exact List.prefix_rfl
  | taken hq hkey hm =>
    simp only [readBy, System.take, List.filter_append, List.map_append]
    exact List.prefix_append _ _
  | _ => exact List.prefix_rfl

theorem readBy_of_fire {st st' : State ι (System ι) Process} {a : SysvTransport.Action}
    (hrun : Run (sysvProcesses ftok regionId) anyStep (noProcesses ι) st)
    (hfire : fire (sysvProcesses ftok regionId) i a st = some st') (j : ι) :
    readBy j st.shared <+: readBy j st'.shared := by
  obtain ⟨s', p', hstep, rfl⟩ := fire_eq_some.mp hfire
  have hc := (carrying_noProcesses.reaches True hrun (fun _ _ _ _ _ => trivial) 0).1
  exact readBy_of_queueStep (queueStep_of_step hc.system (hc.processes i) hstep) j

end Queues

theorem Host.sound_new : (Host.new P).Sound P :=
  ⟨.start, .start, inOrder_nil, fun _ => .refl _, nofun, fun _ => List.nil_sublist _⟩

theorem Host.Sound.gone_subperm (hs : h.Sound P) (k : Place) : (h.gone P k).Subperm h.given := by
  obtain ⟨stored, hperm, hsub⟩ := goneFrom_subperm (mailbox_of_run hs.mailboxes k) P.rx
  have hstored := (List.sublist_append_left _ _).trans (hs.stored k)
  exact ⟨_, hperm.map _, (hsub.map _).trans hstored⟩

theorem Host.Sound.addressed_now (hs : h.Sound P) (k : Place) :
    ∀ m ∈ h.goneBefore k ++ h.gone P k, (unitOf m.receiver).toNat = k := by
  intro m hm
  obtain hm | hm := List.mem_append.mp hm
  · exact hs.addressed k m hm
  · obtain ⟨y, hy, rfl⟩ := List.mem_map.mp hm
    obtain ⟨e, he, hsome⟩ := List.mem_filterMap.mp hy
    obtain ⟨d, hd, rfl⟩ := List.mem_map.mp he
    obtain rfl := Option.some.inj (fromSender_eq_some.mp hsome).1
    exact addressed_of_run hs.mailboxes hd

theorem Host.Sound.dropped (hs : h.Sound P) :
    ({ h with handled := h.handled + 1 } : Host ι τ).Sound P :=
  ⟨hs.queues, hs.mailboxes,
    hs.forwarded.mono (List.take_prefix_take_left (Nat.le_succ _)).sublist, hs.goneBefore,
    hs.addressed, hs.stored⟩

theorem of_handedOver {localSend : AdminMessage → ReturnCode} {heap : ℕ → Byte}
    {mMaxMsgSize : BitVec 64} {m got : AdminMessage}
    (h : handedOver localSend heap mMaxMsgSize m = some got) :
    Transportable mMaxMsgSize m ∧ Delivered m got := by
  by_cases hm : Transportable mMaxMsgSize m
  · obtain ⟨got', hgot', hdelivered⟩ := @handedOver_of_transportable localSend heap mMaxMsgSize m hm
    obtain rfl := Option.some.inj (hgot'.symm.trans h)
    exact ⟨hm, hdelivered⟩
  · rw [handedOver_eq_none hm] at h
    cases h

theorem Host.Sound.step {h' : Host ι τ} {a : HostAction ι τ} (hs : h.Sound P)
    (hstep : h.step P a = some h') : h'.Sound P := by
  cases a with
  | process i a =>
    obtain ⟨queues, hfire, rfl⟩ := Option.map_eq_some_iff.mp hstep
    have hqueues := hs.queues.step trivial hfire
    have hread := readBy_of_fire hs.queues hfire P.self
    split_ifs
    · refine ⟨hqueues, .start, ?_, fun k => ?_, fun k m hm => ?_, fun _ => List.nil_sublist _⟩
      · have hall := hs.forwarded.mono ((List.take_sublist _ _).trans hread.sublist)
        rw [← List.take_length (l := readBy P.self queues.shared)] at hall
        rwa [← List.append_nil (_ ++ _)] at hall
      · exact (hs.goneBefore k).append (hs.gone_subperm k)
      · exact hs.addressed_now k m hm
    · exact ⟨hqueues, hs.mailboxes, hs.forwarded.mono (hread.take _).sublist, hs.goneBefore,
        hs.addressed, hs.stored⟩
  | thread t a =>
    simp only [Host.step] at hstep
    split_ifs at hstep with hsend
    obtain ⟨mailboxes, hfire, rfl⟩ := Option.map_eq_some_iff.mp hstep
    refine ⟨hs.queues, hs.mailboxes.step trivial hfire, hs.forwarded, hs.goneBefore,
      hs.addressed, fun k => ?_⟩
    have hstored := storedFrom_sublist_of_fire hs.mailboxes hfire P.rx k
    rw [sentTo_eq_nil hsend, List.append_nil] at hstored
    exact hstored.trans (hs.stored k)
  | forward turn =>
    obtain ⟨m, hm, hturn⟩ := Option.bind_eq_some_iff.mp hstep
    split at hturn
    · obtain rfl := Option.some.inj hturn
      exact hs.dropped
    · rename_i got hgot
      obtain ⟨mailboxes, hfire, rfl⟩ := Option.map_eq_some_iff.mp hturn
      refine ⟨hs.queues, hs.mailboxes.step trivial hfire, ?_, hs.goneBefore,
        hs.addressed, fun k => ?_⟩
      · have htake : (readBy P.self h.queues.shared).take (h.handled + 1) =
            (readBy P.self h.queues.shared).take h.handled ++ [m] := by
          rw [List.take_add_one, hm]
          rfl
        have hforwarded := hs.forwarded.concat (of_handedOver hgot).2
        rwa [← htake, List.append_assoc] at hforwarded
      · have hsent : (sentTo P.rx k P.rx (.send got)).Sublist [got] := by
          simp only [sentTo]
          split_ifs <;> simp
        exact (storedFrom_sublist_of_fire hs.mailboxes hfire P.rx k).trans
          ((hs.stored k).append hsent)
  | lose =>
    simp only [Host.step] at hstep
    split_ifs at hstep
    obtain rfl := Option.some.inj hstep
    exact hs.dropped

/-- How the messages from other processes reach the mailbox `k`. -/
structure EndToEnd (P : HostParams ι τ) (k : Place) (h : Host ι τ) : Prop where
  /-- each left the mailbox once at most in all lives of the process, with its contents -/
  once : Once Delivered (placedFor P.ftok (keyOf P.ftok P.regionId P.self) h.queues.shared)
    (h.goneBefore k ++ h.gone P k)
  /-- and was sent to its unit -/
  addressed : ∀ m ∈ h.goneBefore k ++ h.gone P k, (unitOf m.receiver).toNat = k
  /-- in this life in the order of the `msgsnd`, as long as the receive thread stored none ahead of
  an older ticket of its slot -/
  inOrder : (∀ p ∈ (h.mailboxes.shared k).overtaking, p.1 ≠ P.rx) →
    InOrder Delivered (placedFor P.ftok (keyOf P.ftok P.regionId P.self) h.queues.shared)
      (h.gone P k)

theorem Host.Sound.handled_sublist_placed (hs : h.Sound P) :
    ((readBy P.self h.queues.shared).take h.handled).Sublist
      (placedFor P.ftok (keyOf P.ftok P.regionId P.self) h.queues.shared) := by
  have hchannel := (carrying_noProcesses.reaches True hs.queues (fun _ _ _ _ _ => trivial)
    (keyOf P.ftok P.regionId P.self)).2.sublist
  have hread : (readBy P.self h.queues.shared).Sublist
      (readFor P.ftok P.regionId (keyOf P.ftok P.regionId P.self) h.queues.shared) := by
    refine (List.monotone_filter_right _ fun p hp => ?_).map Prod.snd
    exact decide_eq_true (congrArg (keyOf P.ftok P.regionId) (of_decide_eq_true hp))
  exact ((List.take_sublist _ _).trans hread).trans
    ((List.sublist_append_left _ _).trans hchannel)

theorem Host.Sound.endToEnd (hs : h.Sound P) (k : Place) : EndToEnd P k h := by
  have hforwarded := hs.forwarded.mono hs.handled_sublist_placed
  refine ⟨?_, hs.addressed_now k, fun hfair => ?_⟩
  · exact hforwarded.once.of_subperm ((hs.goneBefore k).append (hs.gone_subperm k))
  · have hgone := (goneFrom_sublist (mailbox_of_run hs.mailboxes k) hfair).map
      fun y => y.adminMsg
    have hstored := (List.sublist_append_left _ _).trans (hs.stored k)
    exact hforwarded.of_sublist ((hgone.trans hstored).trans (List.sublist_append_right _ _))

/-- Whatever the processes and their threads do, however the receive thread keeps up, and however
often the process is killed, what comes out of a mailbox came from another region in this way. -/
theorem end_to_end {st : State Unit (Host ι τ) Unit}
    (h : Run (host P) (confined P) ⟨.new P, fun _ => ()⟩ st) (k : Place) :
    EndToEnd P k st.shared := by
  have hsound : st.shared.Sound P := by
    refine h.invariant Host.sound_new fun st _ a h' _ hs _ hstep => ?_
    obtain ⟨h'', hhost, heq⟩ := Option.map_eq_some_iff.mp hstep
    obtain ⟨rfl, -⟩ := Prod.mk.inj heq
    exact hs.step hhost
  exact hsound.endToEnd k

end Host

def twoThreads {τ : Type*} (i j : τ) : HostParams Bool τ :=
  ⟨lowByteFtok, adjacentRegions, 8192, true, fun _ => j, i⟩

def sendAcross {τ : Type*} (i j : τ) (k : Place) : List (Unit × HostAction Bool τ) :=
  waitAndSendTwo.map (fun p => ((), .process p.1 p.2)) ++ ((), .forward anyTurn) ::
    (sendAndReceive i j k payloadMessage).map fun p =>
      match p.2 with
      | .send _ => ((), .forward anyTurn)
      | a => ((), .thread p.1 a)

theorem end_to_end_sendAcross : ∃ st : State Unit (Host Bool (Fin 2)) Unit,
    exec (host (twoThreads 0 1)) (confined (twoThreads 0 1)) (sendAcross 0 1 1)
      ⟨.new (twoThreads 0 1), fun _ => ()⟩ = some st ∧
    (st.shared.gone (twoThreads 0 1) 1).map (·.payload) = [payloadMessage.payload] ∧
    EndToEnd (twoThreads 0 1) 1 st.shared := by
  obtain ⟨st, hexec, hgone⟩ : ∃ st : State Unit (Host Bool (Fin 2)) Unit,
      exec (host (twoThreads 0 1)) (confined (twoThreads 0 1)) (sendAcross 0 1 1)
        ⟨.new (twoThreads 0 1), fun _ => ()⟩ = some st ∧
      (st.shared.gone (twoThreads 0 1) 1).map (·.payload) = [payloadMessage.payload] :=
    ⟨_, rfl, rfl⟩
  exact ⟨st, hexec, hgone, end_to_end (exec_run hexec .start) 1⟩

end ItcPlatform.CrossRegion
