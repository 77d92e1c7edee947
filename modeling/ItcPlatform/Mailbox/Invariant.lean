import ItcPlatform.Mailbox.Machine

/-! What holds of a mailbox in every run: who may stand where, and how the rx queue's
counters follow the messages that were stored and that left. -/

namespace ItcPlatform.Mailbox
open Interleaving LockFreeQueue
variable {ι : Type*}

namespace Thread

def phase? (th : Thread ι) : Option (Phase (Message ι)) :=
  match th.stage with
  | .inQueue _ pc => some pc.phase
  | _ => none

theorem phase?_of_stage {th : Thread ι} {site : Site} {pc : Pc (Message ι)}
    (h : th.stage = .inQueue site pc) : th.phase? = some pc.phase := by
  rw [phase?, h]

def toStore (th : Thread ι) : ℕ := (th.phase?.map Phase.toStore).getD 0

def toTake (th : Thread ι) : ℕ := (th.phase?.map Phase.toTake).getD 0

end Thread

def Site.Fits (owner i : ι) (pushed : ℕ) : Site → Phase (Message ι) → Prop
  | .push, .wantsPush e | .push, .storing e _ =>
    ∃ life adminMsg, e = some ⟨i, pushed, life, adminMsg⟩
  | .push, .returned _ => True
  | .pop, .wantsPop | .pop, .emptying _ | .pop, .returned _ => i = owner
  | .drain, .wantsPop | .drain, .emptying _ | .drain, .returned _ => i = owner
  | .empty, .measuring | .empty, .returned _ => i = owner
  | _, _ => False

/-- Only the owner is ever in a call that takes from the queue or switches the mailbox. -/
def Thread.Fits (owner i : ι) (th : Thread ι) : Prop :=
  match th.stage with
  | .idle | .pushLoad _ => True
  | .popLoad _ | .setStateCas _ => i = owner
  | .inQueue site pc => site.Fits owner i th.pushed pc.phase

/-- The owner's share of the queue's account: the pop tickets beyond the messages that left
are its own, and its ticket is the next in turn. -/
structure Turn (m : ItcMailbox ι) (th : Thread ι) : Prop where
  pops : m.mRxMsgQueue.popTickets = m.mRxMsgQueue.taken.length + th.toTake
  turn : ∀ t, th.phase? = some (.emptying t) → t = BitVec.ofNat 32 m.mRxMsgQueue.taken.length

section Access
variable {owner i : ι} {m : ItcMailbox ι} {th : Thread ι} {site : Site}
  {q : Queue (rxMsgQueueParams ι)} {ev : Event (Message ι)} {f f' : Phase (Message ι)}

theorem Site.Fits.effect (hf : site.Fits owner i th.pushed f)
    (h : Effect (rxMsgQueueParams ι) m.mRxMsgQueue.queue f ev q f') :
    site.Fits owner i (th.note m ev).pushed f' := by
  cases h <;> cases site <;> first | exact hf | exact trivial | exact hf.elim

theorem Site.Fits.legal (hf : site.Fits owner i th.pushed f) : f.Legal (rxMsgQueueParams ι) := by
  cases f <;> try trivial
  all_goals
    cases site <;> try exact hf.elim
    obtain ⟨_, _, rfl⟩ := hf
    exact Option.some_ne_none _

theorem Site.Fits.owner_of_emptying {pushed : ℕ} {t : BitVec 32}
    (hf : site.Fits owner i pushed (.emptying t)) : i = owner := by
  cases site <;> first | exact hf | exact hf.elim

theorem Site.Fits.frame {pushed : ℕ} (hf : site.Fits owner i pushed f) (hi : i ≠ owner)
    (h : Effect (rxMsgQueueParams ι) m.mRxMsgQueue.queue f ev q f') :
    (m.mRxMsgQueue.record q ev).popTickets = m.mRxMsgQueue.popTickets ∧
      (m.mRxMsgQueue.record q ev).taken = m.mRxMsgQueue.taken := by
  cases h with
  | popTicket => cases site <;> first | exact absurd hf hi | exact hf.elim
  | taken => exact absurd hf.owner_of_emptying hi
  | _ => exact ⟨rfl, rfl⟩

theorem departed_map (h : Effect (rxMsgQueueParams ι) m.mRxMsgQueue.queue f ev q f') :
    (m.mRxMsgQueue.record q ev).taken =
      m.mRxMsgQueue.taken ++ (m.departed site ev).map fun d => some d.envelope := by
  cases h with
  | taken e t h hne =>
    obtain ⟨y, rfl⟩ := Option.ne_none_iff_exists'.mp hne
    rfl
  | _ => simp [Traced.record, ItcMailbox.departed]

end Access

section Sound
variable {owner i : ι} {a : Action} {m m' : ItcMailbox ι} {th th' : Thread ι}
  {s : State ι (ItcMailbox ι) (Thread ι)}

structure Thread.Ticketless (th : Thread ι) : Prop where
  storing : ∀ e t, th.phase? ≠ some (.storing e t)
  emptying : ∀ t, th.phase? ≠ some (.emptying t)

theorem Thread.ticketless_of_none (h : th.phase? = none) : th.Ticketless := by
  constructor <;> simp [h]

theorem Thread.Ticketless.toTake (h : th.Ticketless) : th.toTake = 0 := by
  rw [Thread.toTake]
  rcases hp : th.phase? with _ | f
  · rfl
  · cases f <;> first | rfl | exact absurd hp (h.emptying _)

structure LocalMove (m : ItcMailbox ι) (th : Thread ι) (m' : ItcMailbox ι) (th' : Thread ι) :
    Prop where
  rx : m'.mRxMsgQueue = m.mRxMsgQueue
  gone : m'.gone = m.gone
  unstored : m'.unstored = m.unstored
  overtaking : m'.overtaking = m.overtaking
  pushed : th'.pushed = th.pushed
  ticket : th'.ticket = th.ticket
  before : th.Ticketless
  after : th'.Ticketless

theorem start_popCall (th : Thread ι) (mode : BitVec 32) :
    (th.at (.inQueue .pop (popCall mode).start)).phase? = some .wantsPop := by
  unfold popCall
  split_ifs <;> rfl

theorem ticketless_next (th : Thread ι) (site : Site) (ret : Ret (Message ι)) :
    (th.at (site.next ret)).Ticketless := by
  unfold Site.next
  split
  · split_ifs <;> constructor <;> nofun
  · constructor <;> nofun
  · constructor <;> nofun

theorem Turn.effect {q : Queue (rxMsgQueueParams ι)} {ev : Event (Message ι)}
    {f f' : Phase (Message ι)} (ht : Turn m th) (hphase : th.phase? = some f)
    (hphase' : th'.phase? = some f') (hrx : m'.mRxMsgQueue = m.mRxMsgQueue.record q ev)
    (htail : m.mRxMsgQueue.queue.mTail = BitVec.ofNat 32 m.mRxMsgQueue.popTickets)
    (h : Effect (rxMsgQueueParams ι) m.mRxMsgQueue.queue f ev q f') : Turn m' th' := by
  have hpops := ht.pops
  have hacc := h.pop_account
  rw [Thread.toTake, hphase] at hpops
  refine ⟨?_, ?_⟩
  · rw [hrx, Thread.toTake, hphase']
    simp only [Option.map_some, Option.getD_some] at hpops ⊢
    omega
  · intro t ht'
    obtain rfl := Option.some.inj (hphase'.symm.trans ht')
    rw [hrx]
    cases h with
    | stay => exact ht.turn t hphase
    | popTicket =>
      rw [htail, hpops]
      rfl

variable [DecidableEq ι]

theorem Move.local_or_accessed (h : Move owner i a m th m' th') : LocalMove m th m' th' ∨
    ∃ site pc pc' q ev, th.stage = .inQueue site pc ∧
      Effect (rxMsgQueueParams ι) m.mRxMsgQueue.queue pc.phase ev q pc'.phase ∧
      m' = m.record i th site q ev ∧ th' = (th.note m ev).at (.inQueue site pc') := by
  cases h with
  | called h hnew =>
    refine .inl ⟨rfl, rfl, rfl, rfl, rfl, rfl,
      th.ticketless_of_none (by simp [Thread.phase?, h]), ?_⟩
    rcases hnew with ⟨_, rfl⟩ | ⟨-, ⟨_, rfl⟩ | ⟨_, rfl⟩⟩ <;> exact Thread.ticketless_of_none rfl
  | gaveUp h =>
    refine .inl ⟨rfl, rfl, rfl, rfl, rfl, rfl, th.ticketless_of_none ?_,
      Thread.ticketless_of_none rfl⟩
    rcases h with ⟨_, h⟩ | ⟨_, h⟩ | ⟨_, h, -⟩ <;> simp [Thread.phase?, h]
  | admitted h =>
    refine .inl ⟨rfl, rfl, rfl, rfl, rfl, rfl,
      th.ticketless_of_none (by simp [Thread.phase?, h]), ?_⟩
    constructor <;> nofun
  | receiving h =>
    refine .inl ⟨rfl, rfl, rfl, rfl, rfl, rfl,
      th.ticketless_of_none (by simp [Thread.phase?, h]), ?_⟩
    constructor <;> simp [start_popCall]
  | switchedOn h =>
    exact .inl ⟨rfl, rfl, rfl, rfl, rfl, rfl, th.ticketless_of_none (by simp [Thread.phase?, h]),
      Thread.ticketless_of_none rfl⟩
  | switchedOff h =>
    refine .inl ⟨rfl, rfl, rfl, rfl, rfl, rfl,
      th.ticketless_of_none (by simp [Thread.phase?, h]), ?_⟩
    constructor <;> nofun
  | returned h =>
    refine .inl ⟨rfl, rfl, rfl, rfl, rfl, rfl, ?_, ticketless_next th _ _⟩
    constructor <;> simp [Thread.phase?, h, Pc.phase]
  | accessed h _ hstep => exact .inr ⟨_, _, _, _, _, h, step_effect hstep, rfl, rfl⟩

theorem Move.turn (h : Move owner i a m th m' th')
    (htail : m.mRxMsgQueue.queue.mTail = BitVec.ofNat 32 m.mRxMsgQueue.popTickets)
    (ht : Turn m th) : Turn m' th' := by
  rcases h.local_or_accessed with hl | ⟨site, pc, pc', q, ev, hstage, heff, rfl, rfl⟩
  · refine ⟨?_, fun t ht' => absurd ht' (hl.after.emptying t)⟩
    rw [hl.rx, hl.after.toTake, ht.pops, hl.before.toTake]
  · exact ht.effect (Thread.phase?_of_stage hstage) rfl rfl htail heff

theorem Move.frame (h : Move owner i a m th m' th') (hf : th.Fits owner i) (hi : i ≠ owner) :
    m'.mRxMsgQueue.popTickets = m.mRxMsgQueue.popTickets ∧
      m'.mRxMsgQueue.taken = m.mRxMsgQueue.taken := by
  rcases h.local_or_accessed with hl | ⟨site, pc, pc', q, ev, hstage, heff, rfl, rfl⟩
  · rw [hl.rx]
    exact ⟨rfl, rfl⟩
  · simp only [Thread.Fits, hstage] at hf
    exact hf.frame hi heff

theorem Move.rx (h : Move owner i a m th m' th') (hf : th.Fits owner i)
    (hrx : m.mRxMsgQueue.Sound) : m'.mRxMsgQueue.Sound := by
  rcases h.local_or_accessed with hl | ⟨site, pc, pc', q, ev, hstage, heff, rfl, rfl⟩
  · rwa [hl.rx]
  · simp only [Thread.Fits, hstage] at hf
    exact heff.sound hf.legal hrx

theorem Move.taken (h : Move owner i a m th m' th')
    (hm : m.mRxMsgQueue.taken = m.gone.map fun d => some d.envelope) :
    m'.mRxMsgQueue.taken = m'.gone.map fun d => some d.envelope := by
  rcases h.local_or_accessed with hl | ⟨site, pc, pc', q, ev, hstage, heff, rfl, rfl⟩
  · rw [hl.rx, hl.gone, hm]
  · rw [ItcMailbox.record, List.map_append, ← hm]
    exact departed_map heff

theorem Move.fits (h : Move owner i a m th m' th') (hf : th.Fits owner i) : th'.Fits owner i := by
  cases h with
  | called h hnew =>
    rcases hnew with ⟨_, rfl⟩ | ⟨rfl, ⟨_, rfl⟩ | ⟨_, rfl⟩⟩ <;> simp [Thread.Fits, Thread.at]
  | gaveUp => trivial
  | admitted h hact => exact ⟨_, _, rfl⟩
  | receiving h hact =>
    simp only [Thread.Fits, h] at hf
    unfold popCall
    split_ifs <;> exact hf
  | switchedOn => trivial
  | switchedOff h hact =>
    simp only [Thread.Fits, h] at hf
    exact hf
  | @returned site ret h =>
    simp only [Thread.Fits, h] at hf
    unfold Site.next
    split
    · split_ifs
      · trivial
      · exact hf
    · exact hf
    · trivial
  | accessed h _ hstep =>
    simp only [Thread.Fits, h] at hf
    exact hf.effect (step_effect hstep)

structure Sound (owner : ι) (s : State ι (ItcMailbox ι) (Thread ι)) : Prop where
  rx : s.shared.mRxMsgQueue.Sound
  taken : s.shared.mRxMsgQueue.taken = s.shared.gone.map fun d => some d.envelope
  fits : ∀ i, (s.locals i).Fits owner i
  turn : Turn s.shared (s.locals owner)

theorem sound_idleMailbox (mailboxId : MailboxId) (flags : BitVec 32) :
    Sound owner (idleMailbox mailboxId flags) :=
  ⟨Traced.sound_new, rfl, fun _ => trivial, ⟨rfl, nofun⟩⟩

theorem Sound.move (hs : Sound owner s) (h : Move owner i a s.shared (s.locals i) m' th') :
    Sound owner ⟨m', Function.update s.locals i th'⟩ := by
  refine ⟨h.rx (hs.fits i) hs.rx, h.taken hs.taken,
    forall_update hs.fits (h.fits (hs.fits i)) fun _ _ hk => hk, ?_⟩
  by_cases hi : i = owner
  · subst hi
    simpa using h.turn hs.rx.tail hs.turn
  · obtain ⟨hpop, htaken⟩ := h.frame (hs.fits i) hi
    have hsame : Function.update s.locals i th' owner = s.locals owner :=
      Function.update_of_ne (Ne.symm hi) _ _
    change Turn m' (Function.update s.locals i th' owner)
    rw [hsame]
    refine ⟨?_, ?_⟩
    · rw [hpop, htaken, hs.turn.pops]
    · rw [htaken]
      exact hs.turn.turn

theorem mailbox_induction {ok : State ι (ItcMailbox ι) (Thread ι) → ι → Action → Prop}
    {mailboxId : MailboxId} {flags : BitVec 32}
    {I : State ι (ItcMailbox ι) (Thread ι) → Prop}
    (h : Run (mailbox owner) ok (idleMailbox mailboxId flags) s)
    (h₀ : I (idleMailbox mailboxId flags))
    (hstep : ∀ s i a m' th', Sound owner s → I s → ok s i a →
      Move owner i a s.shared (s.locals i) m' th' → I ⟨m', Function.update s.locals i th'⟩) :
    Sound owner s ∧ I s := by
  refine h.invariant ⟨sound_idleMailbox mailboxId flags, h₀⟩ ?_
  rintro s i a m' th' ⟨hs, hI⟩ hok hP
  exact ⟨hs.move (mailbox_move hP), hstep s i a m' th' hs hI hok (mailbox_move hP)⟩

end Sound

end ItcPlatform.Mailbox
