import ItcPlatform.Mailbox.Invariant

/-! What a deactivation leaves behind. A sender checks the mailbox and stores in separate
steps, so the drain ends clean when no sender is between the two at the moment the queue
looks empty. -/

namespace ItcPlatform.Mailbox
open Interleaving LockFreeQueue AdminMessageHelper
variable {ι : Type*}

def Thread.sending? (th : Thread ι) : Message ι :=
  match th.phase? with
  | some (.wantsPush e) | some (.storing e _) => e
  | _ => none

def popped : Phase (Message ι) → List (Envelope ι)
  | .returned (.popped (some y)) => [y]
  | _ => []

def Thread.carried (th : Thread ι) : List (Envelope ι) :=
  match th.stage with
  | .inQueue .drain pc => popped pc.phase
  | _ => []

namespace ItcMailbox

def drained (m : ItcMailbox ι) : List (Envelope ι) :=
  (m.gone.filter (·.site = .drain)).map (·.envelope)

def received (m : ItcMailbox ι) : List (Envelope ι) :=
  (m.gone.filter (·.site ≠ .drain)).map (·.envelope)

theorem received_add_drained (m : ItcMailbox ι) :
    (m.received : Multiset (Envelope ι)) + ↑m.drained = (m.gone.map (·.envelope) : List _) := by
  rw [received, drained, Multiset.coe_add, ← List.map_append, Multiset.coe_eq_coe]
  refine List.Perm.map _ (List.perm_append_comm.trans ?_)
  simpa using List.filter_append_perm (fun d : Departure ι => decide (d.site = .drain)) m.gone

end ItcMailbox

def Quiet (s : State ι (ItcMailbox ι) (Thread ι)) : Prop :=
  (∀ slot, s.shared.mRxMsgQueue.queue.mQueue slot = none) ∧ ∀ j, (s.locals j).sending? = none

def Off (m : ItcMailbox ι) (quiet : Prop) : Stage ι → Prop
  | .inQueue .pop _ => m.mIsActive = true
  | .inQueue .drain _ => m.mIsActive = false
  | .inQueue .empty .sizeLoad => m.mIsActive = false
  | .inQueue .empty (.sizeLoadHead tail) =>
    m.mIsActive = false ∧ tail = m.mRxMsgQueue.queue.mTail
  | .inQueue .empty (.sizeLoadTail head) =>
    m.mIsActive = false ∧ (sizeOf head m.mRxMsgQueue.queue.mTail = 0 → quiet)
  | .inQueue .empty (.returned (.sized n)) => m.mIsActive = false ∧ (n = 0 → quiet)
  | .inQueue .empty _ => False
  | _ => m.mIsActive = false → quiet

def loadsHead : Stage ι → Action → Bool
  | .inQueue .empty .sizeLoad, .access choice => !choice
  | .inQueue .empty (.sizeLoadHead _), .access _ => true
  | _, _ => false

/-- The condition on a step: no push is between check and store when the drain finds the queue
empty, and what the drain popped can be deallocated. -/
structure Settled (s : State ι (ItcMailbox ι) (Thread ι)) (i : ι) (a : Action) : Prop where
  passed : loadsHead (s.locals i).stage a →
    sizeOf s.shared.mRxMsgQueue.queue.mHead s.shared.mRxMsgQueue.queue.mTail = 0 →
      ∀ j, (s.locals j).sending? = none
  intact : ∀ y ∈ (s.locals i).carried, deallocate (some y.adminMsg) = true

instance [Fintype ι] [DecidableEq ι] (s : State ι (ItcMailbox ι) (Thread ι)) (i : ι) (a : Action) :
    Decidable (Settled s i a) :=
  decidable_of_iff ((loadsHead (s.locals i).stage a →
      sizeOf s.shared.mRxMsgQueue.queue.mHead s.shared.mRxMsgQueue.queue.mTail = 0 →
        ∀ j, (s.locals j).sending? = none) ∧
    ∀ y ∈ (s.locals i).carried, deallocate (some y.adminMsg) = true)
    ⟨fun h => ⟨h.1, h.2⟩, fun h => ⟨h.passed, h.intact⟩⟩

section Cargo
variable {owner i : ι} {m m' : ItcMailbox ι} {th th' : Thread ι} {site : Site}
  {q : Queue (rxMsgQueueParams ι)} {ev : Event (Message ι)} {f f' : Phase (Message ι)}

theorem slot_of_effect (hphase : th.phase? = some f)
    (h : Effect (rxMsgQueueParams ι) m.mRxMsgQueue.queue f ev q f')
    (slot : Fin (rxMsgQueueParams ι).mSize) :
    q.mQueue slot = m.mRxMsgQueue.queue.mQueue slot ∨ q.mQueue slot = none ∨
      q.mQueue slot = th.sending? := by
  cases h with
  | stored e t =>
    by_cases hs : slot = (rxMsgQueueParams ι).slot t
    · subst hs
      exact .inr (.inr (by simp [Thread.sending?, hphase]))
    · exact .inl (Function.update_of_ne hs _ _)
  | taken e t =>
    by_cases hs : slot = (rxMsgQueueParams ι).slot t
    · subst hs
      exact .inr (.inl (Function.update_self _ _ _))
    · exact .inl (Function.update_of_ne hs _ _)
  | _ => exact .inl rfl

theorem sending_of_effect (hphase : th.phase? = some f) (hphase' : th'.phase? = some f')
    (h : Effect (rxMsgQueueParams ι) m.mRxMsgQueue.queue f ev q f') :
    th'.sending? = th.sending? ∨ th'.sending? = none := by
  cases h with
  | stay | pushTicket => exact .inl (by simp [Thread.sending?, hphase, hphase'])
  | _ => exact .inr (by simp [Thread.sending?, hphase'])

theorem gone_of_effect (h : Effect (rxMsgQueueParams ι) m.mRxMsgQueue.queue f ev q f') :
    m.departed site ev = [] ∨ ∃ y slot, m.departed site ev = [⟨site, m.life, y⟩] ∧
      m.mRxMsgQueue.queue.mQueue slot = some y := by
  cases h with
  | taken e t h hne =>
    obtain ⟨y, rfl⟩ := Option.ne_none_iff_exists'.mp hne
    exact .inr ⟨y, _, rfl, h⟩
  | _ => exact .inl rfl

theorem Off.frame {quiet quiet' : Prop} {stage : Stage ι} (h : Off m quiet stage)
    (hact : m'.mIsActive = m.mIsActive)
    (htail : m'.mRxMsgQueue.queue.mTail = m.mRxMsgQueue.queue.mTail)
    (hq : m.mIsActive = false → quiet → quiet') : Off m' quiet' stage := by
  unfold Off at h ⊢
  split at h
  · exact hact.trans h
  · exact hact.trans h
  · exact hact.trans h
  · exact ⟨hact.trans h.1, htail ▸ h.2⟩
  · exact ⟨hact.trans h.1, fun hs => hq h.1 (h.2 (htail ▸ hs))⟩
  · exact ⟨hact.trans h.1, fun hn => hq h.1 (h.2 hn)⟩
  · exact h
  · exact fun hoff => hq (hact.symm.trans hoff) (h (hact.symm.trans hoff))

theorem loadsHead_inactive {a : Action} {stage : Stage ι} {quiet : Prop}
    (h : loadsHead stage a) (hoff : Off m quiet stage) : m.mIsActive = false := by
  unfold loadsHead at h
  split at h
  · exact hoff
  · exact hoff.1
  · cases h

theorem loadsHead_toTake {a : Action} (h : loadsHead th.stage a) : th.toTake = 0 := by
  unfold loadsHead at h
  split at h
  · simp [Thread.toTake, Thread.phase?, Pc.phase, Phase.toTake, *]
  · simp [Thread.toTake, Thread.phase?, Pc.phase, Phase.toTake, *]
  · cases h

variable [DecidableEq ι] {a : Action}

theorem Move.slot (h : Move owner i a m th m' th') (slot : Fin (rxMsgQueueParams ι).mSize) :
    m'.mRxMsgQueue.queue.mQueue slot = m.mRxMsgQueue.queue.mQueue slot ∨
      m'.mRxMsgQueue.queue.mQueue slot = none ∨
        m'.mRxMsgQueue.queue.mQueue slot = th.sending? := by
  rcases h.local_or_accessed with hl | ⟨site, pc, pc', q, ev, hstage, heff, rfl, rfl⟩
  · exact .inl (by rw [hl.rx])
  · rw [ItcMailbox.record, Traced.record_queue]
    exact slot_of_effect (Thread.phase?_of_stage hstage) heff slot

theorem Move.sending (h : Move owner i a m th m' th') : th'.sending? = th.sending? ∨
    th'.sending? = none ∨ m.mIsActive = true ∧ ∃ y, th'.sending? = some y ∧ y.life = m.life := by
  cases h with
  | called h hnew =>
    rcases hnew with ⟨_, rfl⟩ | ⟨-, ⟨_, rfl⟩ | ⟨_, rfl⟩⟩ <;> exact .inr (.inl rfl)
  | admitted h hact => exact .inr (.inr ⟨hact, _, rfl, rfl⟩)
  | receiving => exact .inr (.inl (by simp [Thread.sending?, start_popCall]))
  | @returned site ret h =>
    refine .inr (.inl ?_)
    unfold Site.next
    split
    · split_ifs <;> rfl
    · rfl
    · rfl
  | @accessed site pc pc' choice q ev h ha hstep =>
    have hphase' : ((th.note m ev).at (.inQueue site pc')).phase? = some pc'.phase := rfl
    rcases sending_of_effect (Thread.phase?_of_stage h) hphase' (step_effect hstep) with h | h
    · exact .inl h
    · exact .inr (.inl h)
  | _ => exact .inr (.inl rfl)

theorem Move.gone (h : Move owner i a m th m' th') : m'.gone = m.gone ∨
    ∃ d slot, m'.gone = m.gone ++ [d] ∧ m.mRxMsgQueue.queue.mQueue slot = some d.envelope ∧
      d.life = m.life := by
  rcases h.local_or_accessed with hl | ⟨site, pc, pc', q, ev, hstage, heff, rfl, rfl⟩
  · exact .inl hl.gone
  · rcases @gone_of_effect _ m site _ _ _ _ heff with h | ⟨y, slot, h, hslot⟩
    · exact .inl (by rw [ItcMailbox.record, h, List.append_nil])
    · exact .inr ⟨⟨site, m.life, y⟩, slot, by rw [ItcMailbox.record, h], hslot, rfl⟩

end Cargo

section Run
variable {owner i : ι} {a : Action} {m' : ItcMailbox ι} {th' : Thread ι}
  {s : State ι (ItcMailbox ι) (Thread ι)} [DecidableEq ι]

theorem Quiet.move (hq : Quiet s) (hoff : s.shared.mIsActive = false)
    (h : Move owner i a s.shared (s.locals i) m' th') :
    Quiet ⟨m', Function.update s.locals i th'⟩ := by
  refine ⟨fun slot => ?_, ?_⟩
  · rcases h.slot slot with h | h | h
    · rw [h, hq.1]
    · exact h
    · rw [h, hq.2]
  · refine forall_update (J := fun _ (th : Thread ι) => th.sending? = none)
      (K := fun _ (th : Thread ι) => th.sending? = none) hq.2 ?_ fun _ _ h => h
    rcases h.sending with h | h | ⟨hact, -⟩
    · rw [h, hq.2]
    · exact h
    · rw [hoff] at hact
      cases hact

theorem Off.own {m : ItcMailbox ι} {th : Thread ι} {quiet quiet' : Prop}
    (h : Off m quiet th.stage) (hm : Move owner i a m th m' th')
    (hq : m.mIsActive = false → quiet → quiet')
    (hload : loadsHead th.stage a →
      sizeOf m.mRxMsgQueue.queue.mHead m.mRxMsgQueue.queue.mTail = 0 → quiet') :
    Off m' quiet' th'.stage := by
  -- the owner's own steps: it learns that the mailbox is quiet by loading `m_head`
  cases hm with
  | called hs hnew =>
    rw [hs] at h
    rcases hnew with ⟨_, rfl⟩ | ⟨-, ⟨_, rfl⟩ | ⟨_, rfl⟩⟩ <;> exact fun hoff => hq hoff (h hoff)
  | gaveUp hs =>
    rcases hs with ⟨_, hs⟩ | ⟨_, hs⟩ | ⟨_, hs, -⟩ <;> rw [hs] at h <;>
      exact fun hoff => hq hoff (h hoff)
  | admitted hs hact => exact fun hoff => absurd hact (by simp [hoff])
  | receiving hs hact => exact hact
  | switchedOn => exact nofun
  | switchedOff => exact rfl
  | @returned site ret hs =>
    rw [hs] at h
    cases site with
    | push => exact fun hoff => hq hoff (h hoff)
    | pop =>
      exact fun hoff => absurd hoff (by simp [show m.mIsActive = true from h, ItcMailbox.resume])
    | drain => exact h
    | empty =>
      cases ret with
      | sized n =>
        simp only [Site.next]
        split_ifs with hn
        · exact fun _ => hq h.1 (h.2 hn)
        · exact h.1
      | _ => exact h.elim
  | @accessed site pc pc' choice q ev hs ha hstep =>
    rw [hs] at h hload
    cases site with
    | push => exact fun hoff => hq hoff (h hoff)
    | pop => exact h
    | drain => exact h
    | empty =>
      subst ha
      cases pc <;> try exact h.elim
      case sizeLoad =>
        cases choice <;>
          obtain ⟨rfl, rfl, rfl⟩ := by
            simpa only [step, Option.some.injEq, Prod.mk.injEq] using hstep
        · exact ⟨h, hload rfl⟩
        · exact ⟨h, rfl⟩
      case sizeLoadHead tail =>
        obtain ⟨rfl, rfl, rfl⟩ := by simpa only [step, Option.some.injEq, Prod.mk.injEq] using hstep
        exact ⟨h.1, fun hn => hload rfl (h.2 ▸ hn)⟩
      case sizeLoadTail head =>
        obtain ⟨rfl, rfl, rfl⟩ := by simpa only [step, Option.some.injEq, Prod.mk.injEq] using hstep
        exact ⟨h.1, fun hn => hq h.1 (h.2 hn)⟩
      case returned => cases hstep

end Run

section Accounts
variable {owner i : ι} {a : Action} {m m' : ItcMailbox ι} {th th' : Thread ι}

theorem Thread.Ticketless.toStore (h : th.Ticketless) : th.toStore = 0 := by
  rw [Thread.toStore]
  rcases hp : th.phase? with _ | f
  · rfl
  · cases f <;> first | rfl | exact absurd hp (h.storing _ _)

theorem Thread.Fits.toStore (hf : th.Fits owner i) (h : th.sending? = none) : th.toStore = 0 := by
  unfold Thread.Fits at hf
  split at hf
  · simp [Thread.toStore, Thread.phase?, *]
  · simp [Thread.toStore, Thread.phase?, *]
  · simp [Thread.toStore, Thread.phase?, *]
  · simp [Thread.toStore, Thread.phase?, *]
  · rename_i site pc hstage
    rw [Thread.sending?, Thread.phase?_of_stage hstage] at h
    rw [Thread.toStore, Thread.phase?_of_stage hstage]
    cases hp : pc.phase <;> try rfl
    rw [hp] at h hf
    cases site <;> try exact hf.elim
    obtain ⟨_, _, rfl⟩ := hf
    cases h

theorem carried_of_effect {site : Site} {pc pc' : Pc (Message ι)} {q : Queue (rxMsgQueueParams ι)}
    {ev : Event (Message ι)} (hstage : th.stage = .inQueue site pc)
    (h : Effect (rxMsgQueueParams ι) m.mRxMsgQueue.queue pc.phase ev q pc'.phase) :
    ((th.note m ev).at (.inQueue site pc')).carried = th.carried ++
      ((m.departed site ev).filter (·.site = .drain)).map (·.envelope) := by
  rw [Thread.carried, Thread.carried, hstage]
  by_cases hsite : site = .drain
  · subst hsite
    change popped pc'.phase = popped pc.phase ++ _
    generalize pc.phase = f, pc'.phase = f' at h
    cases h with
    | taken e t h hne =>
      obtain ⟨y, rfl⟩ := Option.ne_none_iff_exists'.mp hne
      rfl
    | stay => exact (List.append_nil _).symm
    | _ => rfl
  · have hnone : (m.departed site ev).filter (·.site = .drain) = [] := by
      unfold ItcMailbox.departed
      split <;> simp [hsite]
    rw [hnone]
    cases site <;> first | rfl | exact absurd rfl hsite

theorem freed_eq_carried {site : Site} {ret : Ret (Message ι)}
    (hs : th.stage = .inQueue site (.returned ret))
    (hintact : ∀ y ∈ th.carried, deallocate (some y.adminMsg) = true) :
    ItcMailbox.freed site ret = th.carried := by
  rw [Thread.carried, hs] at hintact ⊢
  unfold ItcMailbox.freed
  split
  · rw [if_pos (hintact _ (List.mem_singleton.mpr rfl))]
    rfl
  · rename_i hne
    cases site <;> try rfl
    change [] = popped (.returned ret)
    unfold popped
    split
    · rename_i hret
      cases hret
      exact absurd rfl (hne _ rfl)
    · rfl

theorem carried_next (th : Thread ι) (site : Site) (ret : Ret (Message ι)) :
    (th.at (site.next ret)).carried = [] := by
  unfold Site.next
  split
  · split_ifs <;> rfl
  · rfl
  · rfl

variable [DecidableEq ι]

theorem Move.push_account (h : Move owner i a m th m' th') :
    m'.mRxMsgQueue.pushTickets + (m.mRxMsgQueue.stored.length + th.toStore) =
      m.mRxMsgQueue.pushTickets + (m'.mRxMsgQueue.stored.length + th'.toStore) := by
  rcases h.local_or_accessed with hl | ⟨site, pc, pc', q, ev, hstage, heff, rfl, rfl⟩
  · rw [hl.rx, hl.before.toStore, hl.after.toStore]
  · rw [Thread.toStore, Thread.phase?_of_stage hstage]
    exact heff.push_account

theorem Move.drain_account (h : Move owner i a m th m' th')
    (hintact : ∀ y ∈ th.carried, deallocate (some y.adminMsg) = true) :
    (m'.drained : Multiset (Envelope ι)) + (↑m.deallocated + ↑th.carried) =
      ↑m.drained + (↑m'.deallocated + ↑th'.carried) := by
  cases h with
  | accessed hs ha hstep =>
    rw [carried_of_effect hs (step_effect hstep), ItcMailbox.drained, ItcMailbox.record,
      List.filter_append, List.map_append, ← ItcMailbox.drained, ← Multiset.coe_add,
      ← Multiset.coe_add]
    abel
  | returned hs =>
    rw [carried_next, ItcMailbox.resume, freed_eq_carried hs hintact, ← Multiset.coe_add]
    change (↑m.drained : Multiset (Envelope ι)) + _ = _ + (_ + 0)
    abel
  | called hs hnew =>
    have h : th.carried = [] := by rw [Thread.carried, hs]
    rcases hnew with ⟨_, rfl⟩ | ⟨-, ⟨_, rfl⟩ | ⟨_, rfl⟩⟩ <;> rw [h] <;> rfl
  | gaveUp hs =>
    have h : th.carried = [] := by
      rcases hs with ⟨_, hs⟩ | ⟨_, hs⟩ | ⟨_, hs, -⟩ <;> rw [Thread.carried, hs]
    rw [h]
    rfl
  | admitted hs | receiving hs | switchedOn hs | switchedOff hs =>
    rw [show th.carried = [] by rw [Thread.carried, hs]]
    rfl

theorem Move.life (h : Move owner i a m th m' th') : m'.life = m.life ∨
    th.stage = .setStateCas true ∧ m.mIsActive = false := by
  cases h with
  | switchedOn hs hact => exact .inr ⟨hs, hact⟩
  | switchedOff => exact .inl rfl
  | _ => exact .inl rfl

theorem Move.mIsActive (h : Move owner i a m th m' th') (hf : th.Fits owner i) (hi : i ≠ owner) :
    m'.mIsActive = m.mIsActive := by
  cases h with
  | switchedOn hs | switchedOff hs =>
    rw [Thread.Fits, hs] at hf
    exact absurd hf hi
  | _ => rfl

end Accounts

section Clean
variable [Fintype ι]

structure Clean (owner : ι) (s : State ι (ItcMailbox ι) (Thread ι)) : Prop where
  tickets : s.shared.mRxMsgQueue.pushTickets =
    s.shared.mRxMsgQueue.stored.length + ∑ j, (s.locals j).toStore
  off : Off s.shared (Quiet s) (s.locals owner).stage
  slots : ∀ slot, ∀ y ∈ s.shared.mRxMsgQueue.queue.mQueue slot, y.life = s.shared.life
  sending : ∀ j, ∀ y ∈ (s.locals j).sending?, y.life = s.shared.life
  gone : ∀ d ∈ s.shared.gone, d.envelope.life = d.life
  drained : (s.shared.drained : Multiset (Envelope ι)) =
    ↑s.shared.deallocated + ∑ j, ((s.locals j).carried : Multiset (Envelope ι))

variable {owner i : ι} {a : Action} {m' : ItcMailbox ι} {th' : Thread ι}
  {s : State ι (ItcMailbox ι) (Thread ι)}

theorem clean_idleMailbox (mailboxId : MailboxId) (flags : BitVec 32) :
    Clean owner (idleMailbox mailboxId flags) where
  tickets := by
    simp [idleMailbox, ItcMailbox.new, Traced.new, Thread.new, Thread.toStore, Thread.phase?]
  off := fun _ => ⟨fun _ => rfl, fun _ => rfl⟩
  slots := nofun
  sending := nofun
  gone := nofun
  drained := by simp [idleMailbox, ItcMailbox.new, Thread.new, Thread.carried, ItcMailbox.drained]

variable [DecidableEq ι]

theorem Clean.quiet_of_load (hc : Clean owner s) (hs : Sound owner s)
    (hload : loadsHead (s.locals owner).stage a)
    (hsize : sizeOf s.shared.mRxMsgQueue.queue.mHead s.shared.mRxMsgQueue.queue.mTail = 0)
    (hsending : ∀ j, (s.locals j).sending? = none) : Quiet s := by
  -- with no push between check and store, a queue that looks empty is
  have hpush : s.shared.mRxMsgQueue.pushTickets = s.shared.mRxMsgQueue.stored.length := by
    rw [hc.tickets, Finset.sum_eq_zero fun j _ => (hs.fits j).toStore (hsending j), Nat.add_zero]
  have hpop : s.shared.mRxMsgQueue.popTickets = s.shared.mRxMsgQueue.taken.length := by
    rw [hs.turn.pops, loadsHead_toTake hload, Nat.add_zero]
  have hcard := hs.rx.sizeOf_toNat (Nat.le_of_ble_eq_true rfl) hpush hpop
  rw [hsize] at hcard
  exact ⟨(Queue.contents_eq_zero_iff _).mp (Multiset.card_eq_zero.mp hcard.symm), hsending⟩

theorem Clean.off_move (hc : Clean owner s) (hs : Sound owner s) (hok : Settled s i a)
    (hm : Move owner i a s.shared (s.locals i) m' th') :
    Off m' (Quiet ⟨m', Function.update s.locals i th'⟩)
      (Function.update s.locals i th' owner).stage := by
  by_cases hi : i = owner
  · subst hi
    rw [Function.update_self]
    refine hc.off.own hm (fun hoff hq => hq.move hoff hm) fun hload hsize => ?_
    have hquiet := hc.quiet_of_load hs hload hsize (hok.passed hload hsize)
    exact hquiet.move (loadsHead_inactive hload hc.off) hm
  · rw [Function.update_of_ne (Ne.symm hi)]
    have htail : m'.mRxMsgQueue.queue.mTail = s.shared.mRxMsgQueue.queue.mTail := by
      rw [(hm.rx (hs.fits i) hs.rx).tail, hs.rx.tail, (hm.frame (hs.fits i) hi).1]
    exact hc.off.frame (hm.mIsActive (hs.fits i) hi) htail fun hoff hq => hq.move hoff hm

theorem Clean.move (hc : Clean owner s) (hs : Sound owner s) (hok : Settled s i a)
    (hm : Move owner i a s.shared (s.locals i) m' th') :
    Clean owner ⟨m', Function.update s.locals i th'⟩ := by
  -- a new life begins in quiet
  have hlife : m'.life = s.shared.life ∨ Quiet ⟨m', Function.update s.locals i th'⟩ := by
    refine hm.life.imp_right fun ⟨hstage, hoff⟩ => ?_
    have hi := hs.fits i
    rw [Thread.Fits, hstage] at hi
    subst hi
    have hquiet := hc.off
    rw [hstage] at hquiet
    exact (hquiet hoff).move hoff hm
  constructor
  case tickets =>
    exact balance_update (g := Thread.toStore) hc.tickets hm.push_account
  case off => exact hc.off_move hs hok hm
  case slots =>
    intro slot y hy
    rcases hlife with hlife | hquiet
    · rcases hm.slot slot with h | h | h
      · exact (hc.slots slot y (h ▸ hy)).trans hlife.symm
      · cases h.symm.trans hy
      · exact (hc.sending i y (h ▸ hy)).trans hlife.symm
    · cases (hquiet.1 slot).symm.trans hy
  case sending =>
    intro j y hy
    rcases hlife with hlife | hquiet
    · refine forall_update (J := fun _ (th : Thread ι) => ∀ y ∈ th.sending?, y.life = s.shared.life)
        (K := fun _ (th : Thread ι) => ∀ y ∈ th.sending?, y.life = m'.life) hc.sending ?_
        (fun k _ h y hy => (h y hy).trans hlife.symm) j y hy
      intro y hy
      rw [hlife]
      rcases hm.sending with h | h | ⟨-, x, h, hx⟩
      · exact hc.sending i y (h ▸ hy)
      · cases h.symm.trans hy
      · obtain rfl := Option.some.inj (h.symm.trans hy)
        exact hx
    · cases (hquiet.2 j).symm.trans hy
  case gone =>
    intro d hd
    rcases hm.gone with h | ⟨d', slot, h, hslot, hlife⟩
    · exact hc.gone d (h ▸ hd)
    · rcases List.mem_append.mp (h ▸ hd) with hd | hd
      · exact hc.gone d hd
      · obtain rfl := List.mem_singleton.mp hd
        exact (hc.slots slot _ hslot).trans hlife.symm
  case drained =>
    exact balance_update (g := fun th : Thread ι => (th.carried : Multiset (Envelope ι))) hc.drained
      (hm.drain_account hok.intact)

/-- Where a mailbox stands switched off, its owner and the senders idle: nothing in the queue,
and every message stored was handed to the owner or deallocated, once. -/
structure LeftNothing (s : State ι (ItcMailbox ι) (Thread ι)) : Prop where
  empty : ∀ slot, s.shared.mRxMsgQueue.queue.mQueue slot = none
  size : sizeOf s.shared.mRxMsgQueue.queue.mHead s.shared.mRxMsgQueue.queue.mTail = 0
  settled : (s.shared.mRxMsgQueue.stored : Multiset (Message ι)) =
    ((s.shared.received ++ s.shared.deallocated).map some : List (Message ι))

theorem clean_of_run {mailboxId : MailboxId} {flags : BitVec 32}
    (h : Run (mailbox owner) Settled (idleMailbox mailboxId flags) s) :
    Sound owner s ∧ Clean owner s :=
  mailbox_induction h (clean_idleMailbox mailboxId flags) fun _ _ _ _ _ hs hc hok hm =>
    hc.move hs hok hm

/-- In a run whose steps are all settled every deactivation leaves nothing behind, and a
message is only ever received in the life it was sent in. -/
theorem leftNothing {mailboxId : MailboxId} {flags : BitVec 32}
    (h : Run (mailbox owner) Settled (idleMailbox mailboxId flags) s) :
    (s.shared.mIsActive = false → (∀ j, (s.locals j).stage = .idle) → LeftNothing s) ∧
      ∀ d ∈ s.shared.gone, d.site = .pop → d.envelope.life = d.life := by
  obtain ⟨hs, hc⟩ := clean_of_run h
  refine ⟨fun hoff hidle => ?_, fun d hd _ => hc.gone d hd⟩
  have hquiet : Quiet s := by
    have := hc.off
    rw [hidle owner] at this
    exact this hoff
  have hstore : ∀ j, (s.locals j).toStore = 0 := fun j => (hs.fits j).toStore (hquiet.2 j)
  have htake : (s.locals owner).toTake = 0 := by simp [Thread.toTake, Thread.phase?, hidle owner]
  have hcarried : ∀ j, ((s.locals j).carried : Multiset (Envelope ι)) = 0 := fun j => by
    simp [Thread.carried, hidle j]
  have hcontents : s.shared.mRxMsgQueue.queue.contents = 0 :=
    (Queue.contents_eq_zero_iff _).mpr hquiet.1
  have hdrained := hc.drained
  rw [Finset.sum_eq_zero fun j _ => hcarried j, add_zero] at hdrained
  refine ⟨hquiet.1, ?_, ?_⟩
  · apply BitVec.eq_of_toNat_eq
    rw [hs.rx.sizeOf_toNat (Nat.le_of_ble_eq_true rfl) _ _, hcontents]
    · rfl
    · rw [hc.tickets, Finset.sum_eq_zero fun j _ => hstore j, Nat.add_zero]
    · rw [hs.turn.pops, htake, Nat.add_zero]
  · have hgone : s.shared.mRxMsgQueue.taken = (s.shared.gone.map (·.envelope)).map some := by
      rw [hs.taken, List.map_map]
      rfl
    have hsplit := s.shared.received_add_drained
    rw [hdrained, Multiset.coe_add] at hsplit
    rw [hs.rx.balance, hcontents, add_zero, hgone]
    exact congrArg (Multiset.map some) hsplit.symm

end Clean

def lateStore (owner sender : ι) : List (ι × Action) :=
  [(owner, .setState true), (owner, .access false), (sender, .push emptyMessage),
    (sender, .access false), (owner, .setState false), (owner, .access false),
    (owner, .access false), (owner, .access false), (owner, .access false),
    (sender, .access false), (sender, .access false), (sender, .access false)]

theorem not_leftNothing_lateStore : ∃ s, Run (mailbox (0 : Fin 2)) anyStep (idleMailbox 0 0) s ∧
    s.shared.mIsActive = false ∧ (∀ j, (s.locals j).stage = .idle) ∧ ¬ LeftNothing s := by
  obtain ⟨s, hs, hoff, h0, h1, y, hslot⟩ : ∃ s, exec (mailbox (0 : Fin 2)) anyStep
      (lateStore 0 1) (idleMailbox 0 0) = some s ∧
        s.shared.mIsActive = false ∧ (s.locals 0).stage = .idle ∧ (s.locals 1).stage = .idle ∧
        ∃ y, s.shared.mRxMsgQueue.queue.mQueue ((rxMsgQueueParams _).slot 0) = some y :=
    ⟨_, rfl, rfl, rfl, rfl, _, rfl⟩
  exact ⟨s, exec_run hs .start, hoff, Fin.forall_fin_two.mpr ⟨h0, h1⟩,
    fun h => Option.some_ne_none y (hslot.symm.trans (h.empty _))⟩

def drainedOne (owner sender : ι) : List (ι × Action) :=
  (owner, .setState true) :: (owner, .access false) :: pushSteps sender emptyMessage ++
    (owner, .setState false) :: List.replicate 12 (owner, .access false)

theorem leftNothing_drainedOne : ∃ s, exec (mailbox (0 : Fin 2)) Settled (drainedOne 0 1)
    (idleMailbox 0 0) = some s ∧ s.shared.deallocated.length = 1 ∧ LeftNothing s := by
  obtain ⟨s, hs, hlen, hoff, h0, h1⟩ : ∃ s, exec (mailbox (0 : Fin 2)) Settled (drainedOne 0 1)
      (idleMailbox 0 0) = some s ∧ s.shared.deallocated.length = 1 ∧ s.shared.mIsActive = false ∧
        (s.locals 0).stage = .idle ∧ (s.locals 1).stage = .idle := ⟨_, rfl, rfl, rfl, rfl, rfl⟩
  exact ⟨s, hs, hlen, (leftNothing (exec_run hs .start)).1 hoff (Fin.forall_fin_two.mpr ⟨h0, h1⟩)⟩

end ItcPlatform.Mailbox
