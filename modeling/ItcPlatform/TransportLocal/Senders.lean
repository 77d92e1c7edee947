import ItcPlatform.TransportLocal.Region

/-! Who sent what in a region. `ItcPlatform::send` writes the id of the caller's mailbox into every
message, so that a receiver can answer it and tell its senders apart. -/

namespace ItcPlatform.TransportLocal
open ConcurrentContainer Interleaving LockFreeQueue Mailbox
variable {ι : Type*}

def Distinct (e e' : Message ι) : Prop :=
  ∀ y ∈ e, ∀ y' ∈ e', (y.sender, y.number) ≠ (y'.sender, y'.number)

def Rising (e e' : Message ι) : Prop :=
  ∀ y ∈ e, ∀ y' ∈ e', y.sender = y'.sender → y.number < y'.number

structure Numbered (s : State ι (ItcMailbox ι) (Thread ι)) : Prop where
  below : ∀ y, some y ∈ s.shared.mRxMsgQueue.stored → y.number < (s.locals y.sender).pushed
  rising : s.shared.mRxMsgQueue.stored.Pairwise Rising

section Numbered
variable [DecidableEq ι] {owner i : ι} {a : Mailbox.Action} {m' : ItcMailbox ι} {th' : Thread ι}
  {s : State ι (ItcMailbox ι) (Thread ι)}

theorem stored_of_move (hs : Sound owner s)
    (h : Mailbox.Move owner i a s.shared (s.locals i) m' th') :
    m'.mRxMsgQueue.stored = s.shared.mRxMsgQueue.stored ∧ th'.pushed = (s.locals i).pushed ∨
      ∃ y : Envelope ι, y.sender = i ∧ y.number = (s.locals i).pushed ∧
        m'.mRxMsgQueue.stored = s.shared.mRxMsgQueue.stored ++ [some y] ∧
        th'.pushed = (s.locals i).pushed + 1 := by
  rcases h.local_or_accessed with hl | ⟨site, pc, pc', q, ev, hstage, heff, rfl, rfl⟩
  · exact .inl ⟨by rw [hl.rx], hl.pushed⟩
  · have hf := hs.fits i
    simp only [Thread.Fits, hstage] at hf
    generalize pc.phase = f at heff hf
    generalize pc'.phase = f' at heff
    cases heff with
    | stored e t =>
      cases site with
      | push =>
        obtain ⟨life, adminMsg, rfl⟩ := hf
        exact .inr ⟨_, rfl, rfl, rfl, rfl⟩
      | _ => exact hf.elim
    | _ => exact .inl ⟨rfl, rfl⟩

theorem Numbered.step (hs : Sound owner s) (hn : Numbered s)
    (h : Mailbox.Move owner i a s.shared (s.locals i) m' th') :
    Numbered ⟨m', Function.update s.locals i th'⟩ := by
  have hle (j : ι) : (s.locals j).pushed ≤ (Function.update s.locals i th' j).pushed := by
    by_cases hj : j = i
    · subst hj
      rw [Function.update_self]
      obtain ⟨-, hsame⟩ | ⟨-, -, -, -, hmore⟩ := stored_of_move hs h <;> omega
    · rw [Function.update_of_ne hj]
  obtain ⟨hsame, -⟩ | ⟨y, rfl, hnumber, hstored, hmore⟩ := stored_of_move hs h
  · refine ⟨fun x hx => ?_, ?_⟩
    · exact (hn.below x (hsame ▸ hx)).trans_le (hle x.sender)
    · exact (congrArg (List.Pairwise Rising) hsame).mpr hn.rising
  · refine ⟨fun x hx => ?_, ?_⟩
    · obtain hx | hx := List.mem_append.mp (hstored ▸ hx)
      · exact (hn.below x hx).trans_le (hle x.sender)
      · obtain rfl := Option.some.inj (List.mem_singleton.mp hx)
        change x.number < (Function.update s.locals x.sender th' x.sender).pushed
        rw [Function.update_self, hmore, hnumber]
        exact Nat.lt_succ_self _
    · refine (congrArg (List.Pairwise Rising) hstored).mpr
        (List.pairwise_append.mpr ⟨hn.rising, List.pairwise_singleton _ _, ?_⟩)
      rintro e he _ hy x rfl x' hx' hsender
      obtain rfl := List.mem_singleton.mp hy
      obtain rfl := Option.some.inj hx'
      have hbelow := hn.below x he
      rw [hsender] at hbelow
      omega

theorem numbered_of_run {mailboxId : MailboxId} {flags : BitVec 32}
    (h : Run (mailbox owner) anyStep (idleMailbox mailboxId flags) s) : Numbered s :=
  (mailbox_induction h ⟨nofun, .nil⟩ fun _ _ _ _ _ hs hn _ hm => hn.step hs hm).2

end Numbered

section Leaving
variable [DecidableEq ι] {owner : ι} {mailboxId : MailboxId} {flags : BitVec 32}
  {s : State ι (ItcMailbox ι) (Thread ι)}

theorem distinct_gone (h : Run (mailbox owner) anyStep (idleMailbox mailboxId flags) s) :
    s.shared.gone.Pairwise fun d d' => Distinct (some d.envelope) (some d'.envelope) := by
  obtain ⟨contents, hcontents⟩ := Quotient.exists_rep s.shared.mRxMsgQueue.queue.contents
  have hperm : s.shared.mRxMsgQueue.stored.Perm
      ((s.shared.gone.map fun d => some d.envelope) ++ contents) := by
    rw [← Multiset.coe_eq_coe, stored_eq_gone_add_contents h, ← hcontents]
    rfl
  have hdistinct : s.shared.mRxMsgQueue.stored.Pairwise Distinct :=
    (numbered_of_run h).rising.imp fun hrising y hy y' hy' heq =>
      (hrising y hy y' hy' (congrArg Prod.fst heq)).ne (congrArg Prod.snd heq)
  have hall := (hperm.pairwise_iff fun hdiff y hy y' hy' heq =>
    hdiff y' hy' y hy heq.symm).mp hdistinct
  exact List.pairwise_map.mp (List.pairwise_append.mp hall).1

/-- Of two messages of a thread the one sent first left first, if the other overtook none. -/
theorem gone_lt_of_number_lt
    (h : Run (mailbox owner) anyStep (idleMailbox mailboxId flags) s) {n n' : ℕ}
    {d d' : Departure ι} (hd : s.shared.gone[n]? = some d) (hd' : s.shared.gone[n']? = some d')
    (hsender : d.envelope.sender = d'.envelope.sender)
    (hnumber : d.envelope.number < d'.envelope.number)
    (hfair : (d'.envelope.sender, d'.envelope.number) ∉ s.shared.overtaking) : n < n' := by
  obtain ⟨m, hm, x, hx, hxsender, hxnumber⟩ := earlier_gone h hd' hfair hnumber
  obtain ⟨hmlt, hxget⟩ := List.getElem?_eq_some_iff.mp hx
  obtain ⟨hnlt, hdget⟩ := List.getElem?_eq_some_iff.mp hd
  have hdistinct := List.pairwise_iff_getElem.mp (distinct_gone h)
  have hsame : (x.envelope.sender, x.envelope.number) = (d.envelope.sender, d.envelope.number) :=
    Prod.ext (hxsender.trans hsender.symm) hxnumber
  obtain hlt | rfl | hlt := lt_trichotomy m n
  · exact absurd hsame (hdistinct m n hmlt hnlt hlt _ (congrArg (some ·.envelope) hxget) _
      (congrArg (some ·.envelope) hdget))
  · exact hm
  · exact absurd hsame.symm (hdistinct n m hnlt hmlt hlt _ (congrArg (some ·.envelope) hdget) _
      (congrArg (some ·.envelope) hxget))

def fromSender (i : ι) (e : Message ι) : Option (Envelope ι) := e.filter (·.sender = i)

def storedFrom (i : ι) (m : ItcMailbox ι) : List (Envelope ι) :=
  m.mRxMsgQueue.stored.filterMap (fromSender i)

def goneFrom (i : ι) (m : ItcMailbox ι) : List (Envelope ι) :=
  (m.gone.map fun d => some d.envelope).filterMap (fromSender i)

theorem fromSender_eq_some {i : ι} {e : Message ι} {y : Envelope ι} :
    fromSender i e = some y ↔ e = some y ∧ y.sender = i := by
  simp [fromSender, Option.filter_eq_some_iff]

theorem storedFrom_eq (h : Run (mailbox owner) anyStep (idleMailbox mailboxId flags) s) (i : ι) :
    (storedFrom i s.shared : Multiset (Envelope ι)) = (goneFrom i s.shared : Multiset _) +
      s.shared.mRxMsgQueue.queue.contents.filterMap (fromSender i) := by
  have hstored := congrArg (Multiset.filterMap (fromSender i)) (stored_eq_gone_add_contents h)
  rwa [Multiset.filterMap_add, Multiset.filterMap_coe, Multiset.filterMap_coe] at hstored

theorem goneFrom_subperm (h : Run (mailbox owner) anyStep (idleMailbox mailboxId flags) s) (i : ι) :
    (goneFrom i s.shared).Subperm (storedFrom i s.shared) := by
  rw [← Multiset.coe_le, storedFrom_eq h i]
  exact Multiset.le_add_right _ _

theorem goneFrom_sublist
    (h : Run (mailbox owner) anyStep (idleMailbox mailboxId flags) s) {i : ι}
    (hfair : ∀ p ∈ s.shared.overtaking, p.1 ≠ i) :
    (goneFrom i s.shared).Sublist (storedFrom i s.shared) := by
  have hstored : (storedFrom i s.shared).Pairwise fun y y' => y.number < y'.number := by
    refine List.pairwise_filterMap.mpr ((numbered_of_run h).rising.imp ?_)
    intro e e' hrising y hy y' hy'
    obtain ⟨rfl, hsender⟩ := fromSender_eq_some.mp hy
    obtain ⟨rfl, hsender'⟩ := fromSender_eq_some.mp hy'
    exact hrising y rfl y' rfl (hsender.trans hsender'.symm)
  have hgone : (goneFrom i s.shared).Pairwise fun y y' => y.number < y'.number := by
    refine List.pairwise_filterMap.mpr (List.pairwise_map.mpr ?_)
    refine List.pairwise_iff_getElem.mpr fun n n' hn hn' hlt y hy y' hy' => ?_
    obtain ⟨heq, hsender⟩ := fromSender_eq_some.mp hy
    obtain ⟨heq', hsender'⟩ := fromSender_eq_some.mp hy'
    obtain rfl := Option.some.inj heq
    obtain rfl := Option.some.inj heq'
    obtain hnumber | hnumber | hnumber :=
      lt_trichotomy (s.shared.gone[n]).envelope.number (s.shared.gone[n']).envelope.number
    · exact hnumber
    · have hdistinct := List.pairwise_iff_getElem.mp (distinct_gone h) n n' hn hn' hlt
      exact absurd (Prod.ext (hsender.trans hsender'.symm) hnumber) (hdistinct _ rfl _ rfl)
    · have hback := gone_lt_of_number_lt h (List.getElem?_eq_getElem hn')
        (List.getElem?_eq_getElem hn) (hsender'.trans hsender.symm) hnumber
        fun hmem => hfair _ hmem hsender
      exact absurd hback hlt.asymm
  have : Std.Antisymm fun y y' : Envelope ι => y.number < y'.number :=
    ⟨fun _ _ hlt hlt' => absurd hlt' hlt.asymm⟩
  exact List.sublist_of_subperm_of_pairwise (goneFrom_subperm h i) hgone hstored

def inHand (th : Thread ι) : List AdminMessage :=
  match th.stage with
  | .pushLoad adminMsg => [adminMsg]
  | .inQueue _ pc => (carriedBy pc.phase).toList.map (·.adminMsg)
  | _ => []

def givenBy : Mailbox.Action → List AdminMessage
  | .push adminMsg => [adminMsg]
  | _ => []

def Pushing (th : Thread ι) : Prop :=
  ∀ pc, th.stage = .inQueue .push pc → Blocking pc
where
  Blocking : Pc (Message ι) → Prop
    | .pushFetchAdd _ | .doPushCas _ _ | .doPushLoad _ _ | .returned .pushed => True
    | _ => False

theorem blocking_of_step {choice : Bool} {q q' : Queue (rxMsgQueueParams ι)}
    {pc pc' : Pc (Message ι)} {ev : Event (Message ι)}
    (h : step (rxMsgQueueParams ι) choice q pc = some (q', pc', ev)) (hpc : Pushing.Blocking pc) :
    Pushing.Blocking pc' := by
  cases pc with
  | pushFetchAdd e =>
    obtain ⟨-, rfl, -⟩ := by simpa [step] using h
    trivial
  | doPushCas e t | doPushLoad e t =>
    simp only [step] at h
    split_ifs at h <;> obtain ⟨-, rfl, -⟩ := by simpa using h
    all_goals trivial
  | returned ret => cases h
  | _ => exact hpc.elim

theorem Pushing.move {i : ι} {a : Mailbox.Action} {m m' : ItcMailbox ι} {th th' : Thread ι}
    (hp : Pushing th) (h : Mailbox.Move owner i a m th m' th') : Pushing th' := by
  cases h with
  | called hidle hnew => rcases hnew with ⟨_, rfl⟩ | ⟨-, ⟨_, rfl⟩ | ⟨_, rfl⟩⟩ <;> nofun
  | admitted => rintro _ ⟨⟩; trivial
  | @returned site ret =>
    unfold Site.next
    split
    · split_ifs <;> nofun
    · nofun
    · nofun
  | accessed hstage ha hstep =>
    rintro _ ⟨⟩
    exact blocking_of_step hstep (hp _ hstage)
  | _ => nofun

theorem pushing_of_run (h : Run (mailbox owner) anyStep (idleMailbox mailboxId flags) s) (i : ι) :
    Pushing (s.locals i) := by
  refine (mailbox_induction (I := fun s => ∀ i, Pushing (s.locals i)) h (fun _ => nofun) ?_).2 i
  exact fun _ _ _ _ _ _ hI _ hmove => forall_update hI ((hI _).move hmove) fun _ _ hj => hj

theorem storedFrom_of_effect {i : ι} {m : ItcMailbox ι} {th : Thread ι} {site : Site}
    {q : Queue (rxMsgQueueParams ι)} {ev : Event (Message ι)} {f f' : Phase (Message ι)}
    (hf : site.Fits owner i th.pushed f) (hrefused : site = .push → f' ≠ .returned .refused)
    (h : Effect (rxMsgQueueParams ι) m.mRxMsgQueue.queue f ev q f') :
    storedFrom i (m.record i th site q ev) ++ (carriedBy f').toList =
      storedFrom i m ++ (carriedBy f).toList := by
  cases h with
  | stored e t hslot =>
    cases site <;> try exact hf.elim
    obtain ⟨life, adminMsg, rfl⟩ := hf
    have hmine : fromSender i (some ⟨i, th.pushed, life, adminMsg⟩) =
        some ⟨i, th.pushed, life, adminMsg⟩ := fromSender_eq_some.mpr ⟨rfl, rfl⟩
    simp [storedFrom, ItcMailbox.record, Traced.record, carriedBy, hmine]
  | refusePush e =>
    cases site <;> try exact hf.elim
    exact absurd rfl (hrefused rfl)
  | _ => rfl

omit [DecidableEq ι] in
theorem inHand_next {th : Thread ι} (site : Site) (ret : Ret (Message ι)) :
    inHand (th.at (site.next ret)) = [] := by
  unfold Site.next
  split
  · split_ifs <;> rfl
  · rfl
  · rfl

theorem givenBy_of_stage {i : ι} {a : Mailbox.Action} {m m' : ItcMailbox ι} {th th' : Thread ι}
    (h : mailbox owner i a m th = some (m', th')) (hstage : th.stage ≠ .idle) : givenBy a = [] := by
  cases a with
  | push adminMsg =>
    cases hat : th.stage with
    | idle => exact absurd hat hstage
    | _ => simp only [mailbox, hat, reduceCtorEq] at h
  | _ => rfl

theorem storedFrom_of_step {i : ι} {a : Mailbox.Action} {m' : ItcMailbox ι} {th' : Thread ι}
    (hs : Sound owner s) (hp : Pushing (s.locals i))
    (h : mailbox owner i a s.shared (s.locals i) = some (m', th')) :
    (storedFrom i m').map (·.adminMsg) ++ inHand th' =
        (storedFrom i s.shared).map (·.adminMsg) ++ inHand (s.locals i) ++ givenBy a ∨
      s.shared.mIsActive = false ∧ (∃ adminMsg, (s.locals i).stage = .pushLoad adminMsg) ∧
        (∃ choice, a = .access choice) ∧ (storedFrom i m').map (·.adminMsg) ++ inHand th' =
          (storedFrom i s.shared).map (·.adminMsg) := by
  have hkept {l : List AdminMessage} (hl : l = inHand (s.locals i) ++ givenBy a) :
      (storedFrom i s.shared).map (·.adminMsg) ++ l =
        (storedFrom i s.shared).map (·.adminMsg) ++ inHand (s.locals i) ++ givenBy a := by
    rw [hl, List.append_assoc]
  have hnone {stage : Stage ι} (hat : (s.locals i).stage = stage) (hne : stage ≠ .idle) :
      givenBy a = [] := givenBy_of_stage h (hat ▸ hne)
  cases mailbox_move h with
  | @called stage hidle hnew =>
    refine .inl (hkept ?_)
    cases a with
    | push adminMsg =>
      obtain rfl : Stage.pushLoad adminMsg = stage := by
        simpa [mailbox, hidle, Thread.at] using h
      simp [inHand, hidle, givenBy, Thread.at]
    | pop mode =>
      obtain ⟨-, rfl⟩ : i = owner ∧ Stage.popLoad mode = stage := by
        simpa [mailbox, hidle, Thread.at] using h
      simp [inHand, hidle, givenBy, Thread.at]
    | setState newState =>
      obtain ⟨-, rfl⟩ : i = owner ∧ Stage.setStateCas newState = stage := by
        simpa [mailbox, hidle, Thread.at] using h
      simp [inHand, hidle, givenBy, Thread.at]
    | access choice => simp only [mailbox, hidle, reduceCtorEq] at h
  | gaveUp hstage =>
    obtain ⟨adminMsg, hat⟩ | ⟨mode, hat⟩ | ⟨newState, hat, -⟩ := hstage
    · cases a with
      | access choice =>
        have hinactive : s.shared.mIsActive = false := by
          by_contra hactive
          simp [mailbox, hat, hactive, Thread.at] at h
        exact .inr ⟨hinactive, ⟨adminMsg, hat⟩, ⟨choice, rfl⟩, List.append_nil _⟩
      | _ => simp only [mailbox, hat, reduceCtorEq] at h
    · exact .inl (hkept (by simp [inHand, hat, hnone hat, Thread.at]))
    · exact .inl (hkept (by simp [inHand, hat, hnone hat, Thread.at]))
  | @admitted msg hat =>
    refine .inl (hkept ?_)
    simp [inHand, hat, hnone hat, Thread.at, Call.start, Pc.phase, carriedBy]
  | @receiving mode hat =>
    refine .inl (hkept ?_)
    have hcall : carriedBy (popCall mode : Call (Message ι)).start.phase = none := by
      unfold popCall
      split <;> rfl
    simp [inHand, hat, hnone hat, Thread.at, hcall]
  | switchedOff hat | switchedOn hat =>
    exact .inl
      (hkept (by simp [inHand, hat, hnone hat, Thread.at, Call.start, Pc.phase, carriedBy]))
  | returned hat =>
    refine .inl (hkept ?_)
    rw [inHand_next]
    simp [inHand, hat, hnone hat, Pc.phase, carriedBy]
  | @accessed site pc pc' choice q ev hat ha hstep =>
    refine .inl ?_
    have hf := hs.fits i
    simp only [Thread.Fits, hat] at hf
    have hblocking : site = .push → pc'.phase ≠ .returned .refused := by
      rintro rfl hphase
      have hpc := blocking_of_step hstep (hp _ hat)
      cases pc' with
      | returned ret =>
        obtain rfl : ret = .refused := by simpa [Pc.phase] using hphase
        exact hpc
      | _ => cases hphase
    have hstored := congrArg (List.map (·.adminMsg))
      (storedFrom_of_effect hf hblocking (step_effect hstep))
    rw [List.map_append, List.map_append] at hstored
    have hhand : inHand (s.locals i) = (carriedBy pc.phase).toList.map (·.adminMsg) := by
      rw [inHand, hat]
    rw [hhand, hnone hat (by simp), List.append_nil]
    exact hstored

theorem storedFrom_of_ne {i j : ι} {a : Mailbox.Action} {m' : ItcMailbox ι} {th' : Thread ι}
    (hs : Sound owner s) (h : mailbox owner i a s.shared (s.locals i) = some (m', th'))
    (hne : j ≠ i) : storedFrom j m' = storedFrom j s.shared := by
  obtain ⟨hsame, -⟩ | ⟨y, rfl, -, hstored, -⟩ := stored_of_move hs (mailbox_move h)
  · rw [storedFrom, hsame, storedFrom]
  · have hother : fromSender j (some y) = none :=
      Option.eq_none_iff_forall_ne_some.mpr fun y' hy' => by
        obtain ⟨heq, hsender⟩ := fromSender_eq_some.mp hy'
        obtain rfl := Option.some.inj heq
        exact hne hsender.symm
    rw [storedFrom, hstored, List.filterMap_append, List.filterMap_cons_none hother]
    exact List.append_nil _

end Leaving

section Senders
variable [DecidableEq ι] (owner : Place → ι) (regionId : MailboxId)

variable {owner regionId} {s : State ι (Place → ItcMailbox ι) (Place → Thread ι)}

end Senders

end ItcPlatform.TransportLocal
