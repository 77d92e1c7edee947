import ItcPlatform.Mailbox.Order
import ItcPlatform.TransportLocal.Send

/-! All threads of a region at once, sending over the local transport and receiving. What one
mailbox sees of a run of the region is a run of its own. -/

namespace ItcPlatform.TransportLocal
open ConcurrentContainer Interleaving LockFreeQueue Mailbox
variable {ι : Type*}

abbrev Place := Fin itcMaxSupportedMailboxes

inductive RegionAction
  | send (adminMsg : AdminMessage)
  | receive (i : Place) (mode : BitVec 32)
  | setState (i : Place) (newState : Bool)
  | access (i : Place) (choice : Bool)

/-- The mailbox that a step is about, and what the step is to it; `none` where `send` leaves the
array. -/
def RegionAction.target : RegionAction → Option (Place × Mailbox.Action)
  | .send adminMsg =>
    (entryAt (unitOf adminMsg.receiver)).bind fun receiver =>
      (mailboxAt receiver).map (·, .push adminMsg)
  | .receive i mode => some (i, .pop mode)
  | .setState i newState => some (i, .setState newState)
  | .access i choice => some (i, .access choice)

theorem sent_of_target {a : RegionAction} {k : Place} {adminMsg : AdminMessage}
    (h : a.target = some (k, .push adminMsg)) :
    a = .send adminMsg ∧ (unitOf adminMsg.receiver).toNat = k := by
  cases a with
  | send sent =>
    have hsent : (mailboxAt (getAlignedEntry (unitOf sent.receiver))).map
        (·, Mailbox.Action.push sent) = some (k, .push adminMsg) := h
    obtain ⟨i, hi, heq⟩ := Option.map_eq_some_iff.mp hsent
    obtain ⟨rfl, hpush⟩ := Prod.mk.inj heq
    obtain rfl := Mailbox.Action.push.inj hpush
    rw [mailboxAt_getAlignedEntry (unitOf_lt _)] at hi
    split_ifs at hi
    exact ⟨rfl, congrArg Fin.val (Option.some.inj hi)⟩
  | receive | setState | access =>
    have hsnd := congrArg Prod.snd (Option.some.inj h)
    cases hsnd

section Region
variable [DecidableEq ι] (owner : Place → ι)

/-- `owner i` is the thread whose mailbox is at `i`. A thread has one call at a time, or even one
in each mailbox. A send outside the array has no step: what it writes there is not known. -/
def region : Program ι RegionAction (Place → ItcMailbox ι) (Place → Thread ι) :=
  fun t a mboxes ths =>
  a.target.bind fun p =>
    (mailbox (owner p.1) t p.2 (mboxes p.1) (ths p.1)).map fun r =>
      (Function.update mboxes p.1 r.1, Function.update ths p.1 r.2)

def insideArray : State ι (Place → ItcMailbox ι) (Place → Thread ι) → ι → RegionAction → Prop :=
  fun _ _ a => a.target.isSome

instance (s : State ι (Place → ItcMailbox ι) (Place → Thread ι)) (t : ι) (a : RegionAction) :
    Decidable (insideArray s t a) :=
  inferInstanceAs (Decidable (a.target.isSome = true))

def newRegion (regionId : MailboxId) : State ι (Place → ItcMailbox ι) (Place → Thread ι) :=
  ⟨(newMboxList regionId : MboxList ι).mRawEntries, fun _ _ => .new⟩

variable {owner} {regionId : MailboxId} {s : State ι (Place → ItcMailbox ι) (Place → Thread ι)}
  {ok : State ι (Place → ItcMailbox ι) (Place → Thread ι) → ι → RegionAction → Prop}

theorem run_mailbox {p : ι → Mailbox.Action → Prop}
    (h : Run (region owner) ok (newRegion regionId) s) (k : Place)
    (hp : ∀ s t a a', ok s t a → a.target = some (k, a') → p t a') :
    Run (mailbox (owner k)) (fun _ t a => p t a)
      (idleMailbox (initialId regionId k) itcFlagDefault) (s.map (· k) (· k)) := by
  refine h.project (f := (· k)) (g := (· k)) fun s t a mboxes ths hok hstep => ?_
  obtain ⟨⟨k', a'⟩, htarget, hmap⟩ := Option.bind_eq_some_iff.mp hstep
  obtain ⟨⟨m, th⟩, hmailbox, heq⟩ := Option.map_eq_some_iff.mp hmap
  obtain ⟨rfl, rfl⟩ := Prod.mk.inj heq
  by_cases hk : k = k'
  · subst hk
    refine .inr ⟨a', hp s t a a' hok htarget, ?_⟩
    simpa using hmailbox
  · exact .inl ⟨Function.update_of_ne hk _ _, Function.update_of_ne hk _ _⟩

theorem mailbox_of_run (h : Run (region owner) ok (newRegion regionId) s) (k : Place) :
    Run (mailbox (owner k)) anyStep (idleMailbox (initialId regionId k) itcFlagDefault)
      (s.map (· k) (· k)) :=
  run_mailbox (p := fun _ _ => True) h k fun _ _ _ _ _ _ => trivial

end Region

section Contents
variable [DecidableEq ι] {p : ι → AdminMessage → Prop} {owner i : ι} {a : Mailbox.Action}
  {m m' : ItcMailbox ι} {th th' : Thread ι}

def carriedBy : Phase (Message ι) → Message ι
  | .wantsPush e | .storing e _ => e
  | _ => none

def Carries (p : ι → AdminMessage → Prop) (i : ι) (th : Thread ι) : Prop :=
  (∀ adminMsg, th.stage = .pushLoad adminMsg → p i adminMsg) ∧
    ∀ f ∈ th.phase?, ∀ y ∈ carriedBy f, p y.sender y.adminMsg

def Stores (p : ι → AdminMessage → Prop) (m : ItcMailbox ι) : Prop :=
  ∀ y, some y ∈ m.mRxMsgQueue.stored → p y.sender y.adminMsg

omit [DecidableEq ι] in
theorem carries_of_effect {q : Queue (rxMsgQueueParams ι)} {ev : Event (Message ι)}
    {f f' : Phase (Message ι)} (h : Effect (rxMsgQueueParams ι) m.mRxMsgQueue.queue f ev q f')
    (hf : ∀ y ∈ carriedBy f, p y.sender y.adminMsg) (hm : Stores p m) :
    (∀ y ∈ carriedBy f', p y.sender y.adminMsg) ∧
      ∀ y, some y ∈ (m.mRxMsgQueue.record q ev).stored → p y.sender y.adminMsg := by
  cases h with
  | stored e t hslot =>
    refine ⟨nofun, fun y hy => ?_⟩
    obtain hy | hy := List.mem_append.mp hy
    · exact hm y hy
    · exact hf y (List.mem_singleton.mp hy).symm
  | stay | pushTicket => exact ⟨hf, hm⟩
  | _ => exact ⟨nofun, hm⟩

omit [DecidableEq ι] in
theorem carries_at {stage : Stage ι}
    (hpush : ∀ adminMsg, stage = .pushLoad adminMsg → p i adminMsg)
    (hphase : ∀ site pc, stage = .inQueue site pc →
      ∀ y ∈ carriedBy pc.phase, p y.sender y.adminMsg) : Carries p i (th.at stage) := by
  refine ⟨hpush, fun f hf => ?_⟩
  cases stage with
  | inQueue site pc =>
    obtain rfl := Option.some.inj hf
    exact hphase site pc rfl
  | _ => cases hf

omit [DecidableEq ι] in
theorem carries_next (site : Site) (ret : Ret (Message ι)) :
    Carries p i (th.at (site.next ret)) := by
  unfold Site.next
  split
  · split_ifs
    · exact carries_at nofun nofun
    · exact carries_at nofun (by rintro _ _ ⟨⟩; nofun)
  · exact carries_at nofun (by rintro _ _ ⟨⟩; nofun)
  · exact carries_at nofun nofun

theorem message_of_called {adminMsg : AdminMessage} (hidle : th.stage = .idle)
    (h : mailbox owner i a m th = some (m', th.at (.pushLoad adminMsg))) : a = .push adminMsg := by
  cases a with
  | push sent =>
    simp only [mailbox, hidle, Option.some.injEq, Prod.mk.injEq] at h
    cases congrArg Thread.stage h.2
    rfl
  | pop | setState =>
    simp only [mailbox, hidle] at h
    split_ifs at h
    cases congrArg (fun r => r.2.stage) (Option.some.inj h)
  | access => simp only [mailbox, hidle, reduceCtorEq] at h

theorem mailbox_carries (h : mailbox owner i a m th = some (m', th'))
    (ha : ∀ adminMsg, a = .push adminMsg → p i adminMsg) (hth : Carries p i th)
    (hm : Stores p m) : Carries p i th' ∧ Stores p m' := by
  cases mailbox_move h with
  | called hidle hnew =>
    refine ⟨carries_at ?_ ?_, hm⟩
    · rintro adminMsg rfl
      exact ha adminMsg (message_of_called hidle h)
    · rintro site pc rfl
      rcases hnew with ⟨_, h⟩ | ⟨-, ⟨_, h⟩ | ⟨_, h⟩⟩ <;> cases h
  | gaveUp => exact ⟨carries_at nofun nofun, hm⟩
  | admitted hstage =>
    refine ⟨carries_at nofun ?_, hm⟩
    rintro _ _ ⟨⟩ y ⟨⟩
    exact hth.1 _ hstage
  | receiving =>
    refine ⟨carries_at nofun ?_, hm⟩
    rintro _ _ ⟨⟩
    unfold popCall
    split <;> nofun
  | switchedOn => exact ⟨carries_at nofun nofun, hm⟩
  | switchedOff => exact ⟨carries_at nofun (by rintro _ _ ⟨⟩; nofun), hm⟩
  | returned => exact ⟨carries_next _ _, hm⟩
  | accessed hstage ha' hstep =>
    obtain ⟨hcarried, hstored⟩ := carries_of_effect (step_effect hstep)
      (hth.2 _ (Thread.phase?_of_stage hstage)) hm
    refine ⟨carries_at nofun ?_, hstored⟩
    rintro _ _ ⟨⟩
    exact hcarried

theorem stores_of_run {mailboxId : MailboxId} {flags : BitVec 32}
    {s : State ι (ItcMailbox ι) (Thread ι)} (h : Run (mailbox owner)
      (fun _ i a => ∀ adminMsg, a = .push adminMsg → p i adminMsg) (idleMailbox mailboxId flags)
        s) :
    Stores p s.shared := by
  refine (h.invariant (I := fun s => Stores p s.shared ∧ ∀ i, Carries p i (s.locals i))
    ⟨nofun, fun _ => @carries_at _ _ _ .new _ nofun nofun⟩ ?_).1
  rintro s i a m th ⟨hm, hcarries⟩ ha hstep
  obtain ⟨hth, hm'⟩ := mailbox_carries hstep ha (hcarries i) hm
  exact ⟨hm', forall_update hcarries hth fun _ _ hk => hk⟩

end Contents

section Departures
variable [DecidableEq ι] {owner : ι} {mailboxId : MailboxId} {flags : BitVec 32}
  {s : State ι (ItcMailbox ι) (Thread ι)}

theorem stored_eq_gone_add_contents
    (h : Run (mailbox owner) anyStep (idleMailbox mailboxId flags) s) :
    (s.shared.mRxMsgQueue.stored : Multiset (Message ι)) =
      (s.shared.gone.map fun d => some d.envelope : List (Message ι)) +
        s.shared.mRxMsgQueue.queue.contents := by
  have hsound := (mailbox_induction (I := fun _ => True) h trivial fun _ _ _ _ _ _ _ _ _ =>
    trivial).1
  have hbalance : (s.shared.mRxMsgQueue.stored : Multiset (Message ι)) =
      (s.shared.mRxMsgQueue.taken : Multiset _) + s.shared.mRxMsgQueue.queue.contents :=
    hsound.rx.balance
  have htaken : s.shared.mRxMsgQueue.taken = s.shared.gone.map fun d => some d.envelope :=
    hsound.taken
  rwa [htaken] at hbalance

theorem stored_of_gone (h : Run (mailbox owner) anyStep (idleMailbox mailboxId flags) s)
    {d : Departure ι} (hd : d ∈ s.shared.gone) :
    some d.envelope ∈ s.shared.mRxMsgQueue.stored := by
  have hstored : some d.envelope ∈ (s.shared.mRxMsgQueue.stored : Multiset (Message ι)) := by
    rw [stored_eq_gone_add_contents h]
    exact Multiset.mem_add.mpr (.inl (Multiset.mem_coe.mpr (List.mem_map.mpr ⟨d, hd, rfl⟩)))
  exact hstored

theorem earlier_gone (h : Run (mailbox owner) anyStep (idleMailbox mailboxId flags) s)
    {n : ℕ} {d : Departure ι} (hd : s.shared.gone[n]? = some d)
    (hfair : (d.envelope.sender, d.envelope.number) ∉ s.shared.overtaking) {number : ℕ}
    (hnumber : number < d.envelope.number) :
    ∃ n' < n, ∃ d', s.shared.gone[n']? = some d' ∧ d'.envelope.sender = d.envelope.sender ∧
      d'.envelope.number = number := by
  have hat : s.shared.At n d.envelope := .inl (by simp [hd])
  obtain ⟨n', x, hlt, hx, hsender, hx'⟩ :=
    (ordered_of_run h).ordered n d.envelope hat hfair number hnumber
  have hn := (List.getElem?_eq_some_iff.mp hd).1
  have hget := hx.taken_of_lt (by rw [List.length_map]; exact hlt.trans hn)
  rw [List.getElem?_map, Option.map_eq_some_iff] at hget
  obtain ⟨d', hd', rfl⟩ := hget
  exact ⟨n', hlt, d', hd', hsender, hx'⟩

end Departures

section Delivery
variable [DecidableEq ι] {owner : Place → ι} {regionId : MailboxId}
  {s : State ι (Place → ItcMailbox ι) (Place → Thread ι)}

/-- What a mailbox of the region may give out. -/
structure Delivers (k : Place) (m : ItcMailbox ι) : Prop where
  /-- only messages that name it by the unit part of their receiver -/
  addressed : ∀ d ∈ m.gone, (unitOf d.envelope.adminMsg.receiver).toNat = k
  /-- what was stored in it, each once -/
  balance : (m.mRxMsgQueue.stored : Multiset (Message ι)) =
    (m.gone.map fun d => some d.envelope : List (Message ι)) + m.mRxMsgQueue.queue.contents
  /-- the messages of one thread in the order of their sends, but for those that were stored ahead
  of an older ticket of their slot -/
  ordered : ∀ (n : ℕ) (d : Departure ι), m.gone[n]? = some d →
    (d.envelope.sender, d.envelope.number) ∉ m.overtaking → ∀ number < d.envelope.number,
      ∃ n' < n, ∃ d', m.gone[n']? = some d' ∧ d'.envelope.sender = d.envelope.sender ∧
        d'.envelope.number = number

theorem addressed_of_run
    {ok : State ι (Place → ItcMailbox ι) (Place → Thread ι) → ι → RegionAction → Prop}
    (h : Run (region owner) ok (newRegion regionId) s) {k : Place} {d : Departure ι}
    (hd : d ∈ (s.shared k).gone) :
    (unitOf d.envelope.adminMsg.receiver).toNat = k := by
  have hrun := run_mailbox (p := fun _ a => ∀ adminMsg, a = .push adminMsg →
    (unitOf adminMsg.receiver).toNat = k) h k
      fun _ _ _ _ _ htarget _ hpush => (sent_of_target (hpush ▸ htarget)).2
  exact stores_of_run (p := fun _ adminMsg => (unitOf adminMsg.receiver).toNat = k) hrun _
    (stored_of_gone (hrun.mono fun _ _ _ _ => trivial) hd)

/-- Whatever the threads of a region send inside the array, receive and switch, and however they
interleave, every mailbox gives out the messages sent to it and no other, each once and in order. -/
theorem region_delivers (h : Run (region owner) insideArray (newRegion regionId) s) (k : Place) :
    Delivers k (s.shared k) := by
  have hrun := mailbox_of_run h k
  exact ⟨fun d hd => addressed_of_run h hd, stored_eq_gone_add_contents hrun,
    fun n d hd hfair number hnumber => earlier_gone hrun hd hfair hnumber⟩

end Delivery

def messageToUnitOne : AdminMessage := emptyMessage.setReceiver 1

def sendAndReceive {ι : Type*} (i j : ι) (place : Place) (adminMsg : AdminMessage) :
    List (ι × RegionAction) :=
  [(j, .setState place true), (j, .access place false), (i, .send adminMsg),
    (i, .access place false), (i, .access place false), (i, .access place false),
    (i, .access place false), (j, .receive place 0), (j, .access place false),
    (j, .access place false), (j, .access place false)]

theorem region_delivers_sendAndReceive :
    ∃ s : State (Fin 2) (Place → ItcMailbox (Fin 2)) (Place → Thread (Fin 2)),
      exec (region fun _ => 1) insideArray (sendAndReceive 0 1 1 messageToUnitOne) (newRegion 3) =
        some s ∧
      (s.shared 1).gone.map (fun d => d.envelope.adminMsg) = [messageToUnitOne] ∧
      Delivers 1 (s.shared 1) := by
  obtain ⟨s, hs, hgone⟩ :
      ∃ s : State (Fin 2) (Place → ItcMailbox (Fin 2)) (Place → Thread (Fin 2)),
        exec (region fun _ => 1) insideArray (sendAndReceive 0 1 1 messageToUnitOne) (newRegion 3) =
        some s ∧
        (s.shared 1).gone.map (fun d => d.envelope.adminMsg) = [messageToUnitOne] :=
    ⟨_, rfl, rfl⟩
  exact ⟨s, hs, hgone, region_delivers (exec_run hs .start) 1⟩

end ItcPlatform.TransportLocal
