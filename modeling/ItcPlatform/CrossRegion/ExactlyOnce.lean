import ItcPlatform.CrossRegion.EndToEnd

/-! Where no queue is removed, the process lives on and the mailbox is active whenever the receive
thread checks it, nothing that the wire can carry is lost on the way to the mailbox. -/

namespace ItcPlatform.CrossRegion
open ConcurrentContainer Interleaving Mailbox SysvTransport TransportLocal
variable {ι τ : Type*}

def Bound (mMaxMsgSize : BitVec 64) (k : Place) (m : AdminMessage) : Prop :=
  Transportable mMaxMsgSize m ∧ (unitOf m.receiver).toNat = k

instance (mMaxMsgSize : BitVec 64) (k : Place) (m : AdminMessage) :
    Decidable (Bound mMaxMsgSize k m) :=
  inferInstanceAs (Decidable (_ ∧ _))

def isPushLoad : Stage τ → Bool
  | .pushLoad _ => true
  | _ => false

variable [DecidableEq ι] [DecidableEq τ] (P : HostParams ι τ) (k : Place)

/-- The condition under which nothing gets lost on the way to the mailbox `k`. -/
def lossless : State Unit (Host ι τ) Unit → Unit → HostAction ι τ → Prop
  | st, _, .process i a =>
    removes (st.shared.queues.locals i) a = false ∧ (i = P.self → kills a = false)
  | st, _, .thread t (.access k' _) => t = P.rx → k' = k →
    isPushLoad (st.shared.mailboxes.locals P.rx k).stage → (st.shared.mailboxes.shared k).mIsActive
  | _, _, .thread _ _ | _, _, .forward _ => True
  | _, _, .lose => False

structure Lossless (h : Host ι τ) : Prop where
  sound : h.Sound P
  kept : Run (sysvProcesses P.ftok P.regionId)
    (fun st i a => removes (st.locals i) a = false) (noProcesses ι) h.queues
  handled_le : h.handled ≤ (readBy P.self h.queues.shared).length
  given : List.Forall₂ Delivered
    (((readBy P.self h.queues.shared).take h.handled).filter (Bound P.mMaxMsgSize k))
    (h.given.filter fun m => (unitOf m.receiver).toNat = k)
  stored : (storedFrom P.rx (h.mailboxes.shared k)).map (·.adminMsg) ++
    inHand (h.mailboxes.locals P.rx k) = h.given.filter fun m => (unitOf m.receiver).toNat = k

variable {P k} {h h' : Host ι τ}

theorem Lossless.new : Lossless P k (Host.new P) :=
  ⟨Host.sound_new, .start, Nat.zero_le _, .nil, rfl⟩

theorem Lossless.handled (hs : Lossless P k h) {m : AdminMessage} (got : List AdminMessage)
    (hm : (readBy P.self h.queues.shared)[h.handled]? = some m)
    (hgot : if Bound P.mMaxMsgSize k m then ∃ y, got = [y] ∧ Delivered m y else got = []) :
    List.Forall₂ Delivered
      (((readBy P.self h.queues.shared).take (h.handled + 1)).filter (Bound P.mMaxMsgSize k))
      ((h.given.filter fun m => (unitOf m.receiver).toNat = k) ++ got) := by
  have htake : (readBy P.self h.queues.shared).take (h.handled + 1) =
      (readBy P.self h.queues.shared).take h.handled ++ [m] := by
    rw [List.take_add_one, hm]
    rfl
  rw [htake, List.filter_append]
  refine List.rel_append hs.given ?_
  split_ifs at hgot with hbound
  · obtain ⟨y, rfl, hdelivered⟩ := hgot
    rw [List.filter_cons_of_pos (by simpa using hbound)]
    exact .cons hdelivered .nil
  · rw [hgot, List.filter_cons_of_neg (by simpa using hbound)]
    exact .nil

theorem Lossless.step {st : State Unit (Host ι τ) Unit} {a : HostAction ι τ}
    (hs : Lossless P k st.shared) (hok : lossless P k st () a)
    (hstep : st.shared.step P a = some h') : Lossless P k h' := by
  have hsound := hs.sound.step hstep
  cases a with
  | process i a =>
    obtain ⟨queues, hfire, rfl⟩ := Option.map_eq_some_iff.mp hstep
    have hread := readBy_of_fire hs.sound.queues hfire P.self
    have hlife : ¬ (i = P.self ∧ kills a = true) := fun h => by simp [hok.2 h.1] at h
    rw [if_neg hlife] at hsound ⊢
    refine ⟨hsound, hs.kept.step hok.1 hfire, hs.handled_le.trans hread.length_le, ?_, hs.stored⟩
    obtain ⟨rest, hrest⟩ := hread
    have htake : (readBy P.self queues.shared).take st.shared.handled =
        (readBy P.self st.shared.queues.shared).take st.shared.handled := by
      rw [← hrest, List.take_append_of_le_length hs.handled_le]
    dsimp only
    rw [htake]
    exact hs.given
  | thread t a =>
    simp only [Host.step] at hstep
    split_ifs at hstep with hsend
    obtain ⟨mailboxes, hfire, rfl⟩ := Option.map_eq_some_iff.mp hstep
    refine ⟨hsound, hs.kept, hs.handled_le, hs.given, ?_⟩
    obtain hstored | ⟨hinactive, ⟨adminMsg, hat⟩, rfl, ⟨choice, rfl⟩, -⟩ :=
      storedFrom_of_fire hs.sound.mailboxes hfire P.rx k
    · rw [sentTo_eq_nil hsend, List.append_nil] at hstored
      exact hstored.trans hs.stored
    · have hactive := hok rfl rfl (by rw [hat]; rfl)
      rw [hinactive] at hactive
      cases hactive
  | forward turn =>
    obtain ⟨m, hm, hturn⟩ := Option.bind_eq_some_iff.mp hstep
    have hlt := (List.getElem?_eq_some_iff.mp hm).1
    have hdropped (hnot : ¬ Bound P.mMaxMsgSize k m) :
        List.Forall₂ Delivered (((readBy P.self st.shared.queues.shared).take
          (st.shared.handled + 1)).filter (Bound P.mMaxMsgSize k))
          (st.shared.given.filter fun m => (unitOf m.receiver).toNat = k) := by
      simpa using hs.handled [] hm (by rw [if_neg hnot])
    split at hturn
    · rename_i hnone
      obtain rfl := Option.some.inj hturn
      refine ⟨hsound, hs.kept, hlt, hdropped fun hbound => ?_, hs.stored⟩
      obtain ⟨got, hgot, -⟩ := @handedOver_of_transportable turn.localSend turn.heap _ _ hbound.1
      rw [hnone] at hgot
      cases hgot
    · rename_i got hgot
      obtain ⟨hcarried, hdelivered⟩ := of_handedOver hgot
      obtain ⟨mailboxes, hfire, rfl⟩ := Option.map_eq_some_iff.mp hturn
      have hgiven : (st.shared.given ++ [got]).filter (fun m => (unitOf m.receiver).toNat = k) =
          (st.shared.given.filter fun m => (unitOf m.receiver).toNat = k) ++
            sentTo P.rx k P.rx (.send got) := by
        rw [List.filter_append]
        by_cases hunit : (unitOf got.receiver).toNat = k <;> simp [sentTo, hunit]
      refine ⟨hsound, hs.kept, hlt, ?_, ?_⟩
      · dsimp only
        rw [hgiven]
        refine hs.handled _ hm ?_
        have hbound : Bound P.mMaxMsgSize k m ↔ (unitOf got.receiver).toNat = k := by
          rw [hdelivered.receiver]
          exact and_iff_right hcarried
        by_cases hunit : (unitOf got.receiver).toNat = k
        · rw [if_pos (hbound.mpr hunit)]
          exact ⟨got, if_pos ⟨rfl, hunit⟩, hdelivered⟩
        · rw [if_neg (hbound.not.mpr hunit)]
          exact if_neg fun h => hunit h.2
      · dsimp only
        rw [hgiven]
        obtain hstored | ⟨-, -, -, ⟨choice, hne⟩, -⟩ :=
          storedFrom_of_fire hs.sound.mailboxes hfire P.rx k
        · exact hstored.trans (congrArg (· ++ _) hs.stored)
        · cases hne
  | lose => exact hok.elim

/-- What becomes of the messages that are placed for the mailbox `k`. -/
structure ExactlyOnce (P : HostParams ι τ) (k : Place) (h : Host ι τ) : Prop where
  /-- those that the wire can carry are stored, in order and with their contents, or on the way -/
  stored : ∃ sent, List.Forall₂ Delivered sent
      ((storedFrom P.rx (h.mailboxes.shared k)).map (·.adminMsg) ++
        inHand (h.mailboxes.locals P.rx k)) ∧
    (placedFor P.ftok (keyOf P.ftok P.regionId P.self) h.queues.shared).filter
        (Bound P.mMaxMsgSize k) =
      sent ++ ((readBy P.self h.queues.shared).drop h.handled ++
        h.queues.shared.kernel.pending (keyOf P.ftok P.regionId P.self)).filter
          (Bound P.mMaxMsgSize k)
  /-- what was stored left the mailbox or is in its queue -/
  left : (storedFrom P.rx (h.mailboxes.shared k) : Multiset (Envelope τ)) =
    (goneFrom P.rx (h.mailboxes.shared k) : Multiset (Envelope τ)) +
      (h.mailboxes.shared k).mRxMsgQueue.queue.contents.filterMap (fromSender P.rx)

theorem Lossless.exactlyOnce (hs : Lossless P k h)
    (hself : ∀ i, keyOf P.ftok P.regionId i = keyOf P.ftok P.regionId P.self → i = P.self) :
    ExactlyOnce P k h := by
  refine ⟨⟨_, hs.stored ▸ hs.given, ?_⟩, storedFrom_eq (mailbox_of_run hs.sound.mailboxes k) P.rx⟩
  have hchannel := (carrying_noProcesses.reaches False hs.kept (fun _ _ _ hkept hremoved =>
    Bool.false_ne_true (hkept.symm.trans hremoved)) (keyOf P.ftok P.regionId P.self)).2.lossless id
  have hplaced : placedFor P.ftok (keyOf P.ftok P.regionId P.self) h.queues.shared =
      readFor P.ftok P.regionId (keyOf P.ftok P.regionId P.self) h.queues.shared ++
        h.queues.shared.kernel.pending (keyOf P.ftok P.regionId P.self) := hchannel
  have hread : readFor P.ftok P.regionId (keyOf P.ftok P.regionId P.self) h.queues.shared =
      readBy P.self h.queues.shared := by
    refine congrArg (List.map Prod.snd) (List.filter_congr fun p _ => ?_)
    exact decide_eq_decide.mpr ⟨hself p.1, congrArg _⟩
  rw [hplaced, hread, ← List.filter_append, ← List.append_assoc, List.take_append_drop]

/-- In a run that loses nothing on the way every message of the other regions to the mailbox `k`
arrives there exactly once, if no other process has the key of this one. -/
theorem exactly_once {st : State Unit (Host ι τ) Unit}
    (hself : ∀ i, keyOf P.ftok P.regionId i = keyOf P.ftok P.regionId P.self → i = P.self)
    (h : Run (host P) (fun st i a => confined P st i a ∧ lossless P k st i a)
      ⟨.new P, fun _ => ()⟩ st) : ExactlyOnce P k st.shared := by
  have hlossless : Lossless P k st.shared := by
    refine h.invariant Lossless.new fun st _ a h' _ hs hok hstep => ?_
    obtain ⟨h'', hhost, heq⟩ := Option.map_eq_some_iff.mp hstep
    obtain ⟨rfl, -⟩ := Prod.mk.inj heq
    exact hs.step hok.2 hhost
  exact hlossless.exactlyOnce hself

instance (P : HostParams ι τ) (k : Place) (st : State Unit (Host ι τ) Unit) (i : Unit)
    (a : HostAction ι τ) : Decidable (lossless P k st i a) :=
  match a with
  | .process _ _ => inferInstanceAs (Decidable (_ ∧ _))
  | .thread _ (.access _ _) => inferInstanceAs (Decidable (_ → _ → _ → _))
  | .thread _ (.send _) | .thread _ (.receive _ _) | .thread _ (.setState _ _) | .forward _ =>
    .isTrue trivial
  | .lose => .isFalse id

theorem exactly_once_sendAcross : ∃ st : State Unit (Host Bool (Fin 2)) Unit,
    exec (host (twoThreads 0 1)) (fun st i a => confined (twoThreads 0 1) st i a ∧
      lossless (twoThreads 0 1) 1 st i a) (sendAcross 0 1 1)
        ⟨.new (twoThreads 0 1), fun _ => ()⟩ = some st ∧
    (st.shared.gone (twoThreads 0 1) 1).length = 1 ∧ ExactlyOnce (twoThreads 0 1) 1 st.shared := by
  obtain ⟨st, hexec, hgone⟩ : ∃ st : State Unit (Host Bool (Fin 2)) Unit,
      exec (host (twoThreads 0 1)) (fun st i a => confined (twoThreads 0 1) st i a ∧
        lossless (twoThreads 0 1) 1 st i a) (sendAcross 0 1 1)
          ⟨.new (twoThreads 0 1), fun _ => ()⟩ = some st ∧
      (st.shared.gone (twoThreads 0 1) 1).length = 1 := ⟨_, rfl, rfl⟩
  exact ⟨st, hexec, hgone, exactly_once (by decide) (exec_run hexec .start)⟩

end ItcPlatform.CrossRegion
