import ItcPlatform.Mailbox.Invariant

/-! The order in which the messages of one sender leave a mailbox. The rx queue is a ring of
tickets; a message that lies in a slot already has the position at which the owner takes it. -/

namespace ItcPlatform.Mailbox
open Interleaving LockFreeQueue
variable {ι : Type*}

def ring (ι : Type*) : TicketRing (Fin (rxMsgQueueParams ι).mSize) :=
  (rxMsgQueueParams ι).ring ((rxMsgQueueParams ι).mSize_dvd rfl)

theorem slot_ring (n : ℕ) :
    (ring ι).slot n = (rxMsgQueueParams ι).slot (BitVec.ofNat 32 n) := rfl

def Thread.storing? (th : Thread ι) : Option (Message ι × BitVec 32) :=
  match th.phase? with
  | some (.storing e t) => some (e, t)
  | _ => none

inductive Passage (i : ι) (m : ItcMailbox ι) (th : Thread ι) (m' : ItcMailbox ι) (th' : Thread ι) :
    Prop
  | passes (tickets : m'.mRxMsgQueue.pushTickets = m.mRxMsgQueue.pushTickets)
      (gone : m'.gone = m.gone)
      (slots : m'.mRxMsgQueue.queue.mQueue = m.mRxMsgQueue.queue.mQueue)
      (unstored : m'.unstored = m.unstored) (overtaking : m'.overtaking = m.overtaking)
      (pushed : th'.pushed = th.pushed) (ticket : th'.ticket = th.ticket)
      (storing : th'.storing? = th.storing?)
  | draws {e : Message ι} (tickets : m'.mRxMsgQueue.pushTickets = m.mRxMsgQueue.pushTickets + 1)
      (gone : m'.gone = m.gone)
      (slots : m'.mRxMsgQueue.queue.mQueue = m.mRxMsgQueue.queue.mQueue)
      (unstored : m'.unstored = insert m.mRxMsgQueue.pushTickets m.unstored)
      (overtaking : m'.overtaking = m.overtaking)
      (pushed : th'.pushed = th.pushed) (ticket : th'.ticket = m.mRxMsgQueue.pushTickets)
      (idle : th.storing? = none)
      (storing : th'.storing? = some (e, BitVec.ofNat 32 m.mRxMsgQueue.pushTickets))
  | stores {y : Envelope ι} {t : BitVec 32}
      (tickets : m'.mRxMsgQueue.pushTickets = m.mRxMsgQueue.pushTickets)
      (gone : m'.gone = m.gone)
      (empty : m.mRxMsgQueue.queue.mQueue ((rxMsgQueueParams ι).slot t) = none)
      (slots : m'.mRxMsgQueue.queue.mQueue =
        Function.update m.mRxMsgQueue.queue.mQueue ((rxMsgQueueParams ι).slot t) (some y))
      (unstored : m'.unstored = m.unstored.erase th.ticket)
      (overtaking : m'.overtaking = m.overtaking ++ m.overtakes i th (.stored (some y)))
      (pushed : th'.pushed = th.pushed + 1)
      (sender : y.sender = i) (number : y.number = th.pushed)
      (storing : th.storing? = some (some y, t)) (idle : th'.storing? = none)
  | takes {d : Departure ι} (tickets : m'.mRxMsgQueue.pushTickets = m.mRxMsgQueue.pushTickets)
      (full : m.mRxMsgQueue.queue.mQueue ((ring ι).slot m.gone.length) = some d.envelope)
      (slots : m'.mRxMsgQueue.queue.mQueue =
        Function.update m.mRxMsgQueue.queue.mQueue ((ring ι).slot m.gone.length) none)
      (gone : m'.gone = m.gone ++ [d]) (unstored : m'.unstored = m.unstored)
      (overtaking : m'.overtaking = m.overtaking) (pushed : th'.pushed = th.pushed)
      (ticket : th'.ticket = th.ticket)
      (idle : th.storing? = none) (idle' : th'.storing? = none)

variable {owner i : ι} {a : Action} {m m' : ItcMailbox ι} {th th' : Thread ι}

theorem passage_of_effect {site : Site} {q : Queue (rxMsgQueueParams ι)} {ev : Event (Message ι)}
    {f f' : Phase (Message ι)} {stage : Stage ι} (hf : site.Fits owner i th.pushed f)
    (hphase : th.phase? = some f) (hphase' : ((th.note m ev).at stage).phase? = some f')
    (hhead : m.mRxMsgQueue.queue.mHead = BitVec.ofNat 32 m.mRxMsgQueue.pushTickets)
    (hturn : ∀ t, f = .emptying t → t = BitVec.ofNat 32 m.gone.length)
    (h : Effect (rxMsgQueueParams ι) m.mRxMsgQueue.queue f ev q f') :
    Passage i m th (m.record i th site q ev) ((th.note m ev).at stage) := by
  cases h with
  | pushTicket e =>
    exact .draws rfl (List.append_nil _) rfl rfl (List.append_nil _) rfl rfl
      (by simp [Thread.storing?, hphase]) (by simp [Thread.storing?, hphase', hhead]; rfl)
  | stored e t hnil =>
    cases site <;> try exact hf.elim
    obtain ⟨life, adminMsg, rfl⟩ := hf
    exact .stores rfl (List.append_nil _) hnil rfl rfl rfl rfl rfl rfl
      (by simp [Thread.storing?, hphase]) (by simp [Thread.storing?, hphase'])
  | taken e t hslot hne =>
    obtain ⟨y, rfl⟩ := Option.ne_none_iff_exists'.mp hne
    obtain rfl := hturn t rfl
    have htake : m.departed site (.taken (some y)) = [⟨site, m.life, y⟩] := rfl
    exact @Passage.takes _ i m th _ _ ⟨site, m.life, y⟩ rfl hslot rfl (by rw [← htake]; rfl) rfl
      (List.append_nil _) rfl rfl (by simp [Thread.storing?, hphase])
      (by simp [Thread.storing?, hphase'])
  | _ =>
    exact .passes rfl (List.append_nil _) rfl rfl (List.append_nil _) rfl rfl
      (by simp [Thread.storing?, hphase, hphase'])

theorem Thread.Ticketless.storing? (h : th.Ticketless) : th.storing? = none := by
  unfold Thread.storing?
  split
  · rename_i hphase
    exact absurd hphase (h.storing _ _)
  · rfl

def ItcMailbox.At (m : ItcMailbox ι) (c : ℕ) (x : Envelope ι) : Prop :=
  (ring ι).At (m.gone.map (·.envelope)) m.mRxMsgQueue.queue.mQueue c x

def ItcMailbox.PrecededBelow (m : ItcMailbox ι) (c : ℕ) (i : ι) (n : ℕ) : Prop :=
  ∀ k < n, ∃ c' x, c' < c ∧ m.At c' x ∧ x.sender = i ∧ x.number = k

def ItcMailbox.occupied (m : ItcMailbox ι) (slot : Fin (rxMsgQueueParams ι).mSize) : ℕ :=
  if m.mRxMsgQueue.queue.mQueue slot = none then 0 else 1

def ItcMailbox.owed (m : ItcMailbox ι) (slot : Fin (rxMsgQueueParams ι).mSize) : Finset ℕ :=
  m.unstored.filter fun k => (ring ι).slot k = slot

def ItcMailbox.Accounted (m : ItcMailbox ι) : Prop :=
  ∀ slot, (ring ι).tickets m.mRxMsgQueue.pushTickets slot =
    (ring ι).tickets m.gone.length slot + m.occupied slot + (m.owed slot).card

structure Ticketed (m : ItcMailbox ι) (i : ι) (th : Thread ι) : Prop where
  ticket : ∀ e t, th.storing? = some (e, t) → t = BitVec.ofNat 32 th.ticket
  unstored : th.storing? ≠ none → th.ticket ∈ m.unstored
  preceded : th.storing? ≠ none → m.PrecededBelow th.ticket i th.pushed

def Thread.Differ (th th' : Thread ι) : Prop :=
  th.storing? ≠ none → th'.storing? ≠ none → th.ticket ≠ th'.ticket

theorem Thread.Differ.symm (th th' : Thread ι) (h : th.Differ th') : th'.Differ th :=
  fun hst hst' => (h hst' hst).symm

structure Ordered (s : State ι (ItcMailbox ι) (Thread ι)) : Prop where
  slots : s.shared.Accounted
  drawn : ∀ k ∈ s.shared.unstored, k < s.shared.mRxMsgQueue.pushTickets
  handed : ∀ c x, s.shared.At c x → c < s.shared.mRxMsgQueue.pushTickets
  placed : ∀ j, s.shared.PrecededBelow s.shared.mRxMsgQueue.pushTickets j (s.locals j).pushed
  ticketed : ∀ j, Ticketed s.shared j (s.locals j)
  differ : Pairwise fun j k => (s.locals j).Differ (s.locals k)
  ordered : ∀ c y, s.shared.At c y → (y.sender, y.number) ∉ s.shared.overtaking →
    s.shared.PrecededBelow c y.sender y.number

theorem ItcMailbox.PrecededBelow.mono {c c' n : ℕ} {j : ι} (h : m.PrecededBelow c j n)
    (hc : c ≤ c') (hat : ∀ c x, m.At c x → m'.At c x) : m'.PrecededBelow c' j n := fun k hk => by
  obtain ⟨d, x, hd, hx, hid⟩ := h k hk
  exact ⟨d, x, hd.trans_le hc, hat d x hx, hid⟩

namespace Passage
variable (h : Passage i m th m' th')
include h

theorem at_iff (c : ℕ) (x : Envelope ι) : m'.At c x ↔ m.At c x ∨
    ∃ t, th.storing? = some (some x, t) ∧ th'.storing? = none ∧
      c = (ring ι).position m.gone.length ((rxMsgQueueParams ι).slot t) := by
  unfold ItcMailbox.At
  cases h with
  | passes _ gone slots _ _ _ _ storing =>
    rw [gone, slots, storing]
    refine (or_iff_left ?_).symm
    rintro ⟨t, h, h', -⟩
    cases h.symm.trans h'
  | draws _ gone slots _ _ _ _ idle _ => simp [gone, slots, idle]
  | @stores y t _ gone empty slots _ _ _ _ _ storing idle =>
    rw [gone, slots, TicketRing.at_fill empty, List.length_map, storing, idle]
    refine or_congr_right ⟨?_, ?_⟩
    · rintro ⟨rfl, rfl⟩
      exact ⟨t, rfl, rfl, rfl⟩
    · rintro ⟨_, ⟨⟩, -, rfl⟩
      exact ⟨rfl, rfl⟩
  | @takes d _ full slots gone _ _ _ _ idle _ =>
    rw [← List.length_map (·.envelope)] at full slots
    rw [gone, slots, List.map_append, List.map_singleton, idle, TicketRing.at_take full]
    simp

theorem at_mono (c : ℕ) (x : Envelope ι) (hx : m.At c x) : m'.At c x := (h.at_iff c x).mpr (.inl hx)

theorem tickets_le : m.mRxMsgQueue.pushTickets ≤ m'.mRxMsgQueue.pushTickets := by
  cases h with
  | draws tickets => omega
  | _ tickets => exact tickets.ge

theorem overtaking_subset {p : ι × ℕ} (hp : p ∈ m.overtaking) : p ∈ m'.overtaking := by
  cases h with
  | stores _ _ _ _ _ overtaking => exact overtaking ▸ List.mem_append_left _ hp
  | passes _ _ _ _ overtaking | draws _ _ _ _ overtaking | takes _ _ _ _ _ overtaking =>
    rwa [overtaking]

theorem drawn (hlt : ∀ k ∈ m.unstored, k < m.mRxMsgQueue.pushTickets) :
    ∀ k ∈ m'.unstored, k < m'.mRxMsgQueue.pushTickets := by
  cases h with
  | passes tickets _ _ unstored | takes tickets _ _ _ unstored =>
    rw [unstored, tickets]
    exact hlt
  | draws tickets _ _ unstored =>
    rw [unstored, tickets]
    intro k hk
    rcases Finset.mem_insert.mp hk with rfl | hk
    · exact Nat.lt_succ_self _
    · exact (hlt k hk).trans (Nat.lt_succ_self _)
  | stores tickets _ _ _ unstored =>
    rw [unstored, tickets]
    exact fun k hk => hlt k (Finset.mem_of_mem_erase hk)

theorem accounted (ht : Ticketed m i th)
    (hlt : ∀ k ∈ m.unstored, k < m.mRxMsgQueue.pushTickets) (hslots : m.Accounted) :
    m'.Accounted := by
  intro slot
  have hslot := hslots slot
  cases h with
  | passes tickets gone slots unstored =>
    simpa only [ItcMailbox.occupied, ItcMailbox.owed, tickets, gone, slots, unstored] using hslot
  | draws tickets gone slots unstored =>
    have hnew : m.mRxMsgQueue.pushTickets ∉ m.unstored := fun hmem => (hlt _ hmem).false
    simp only [ItcMailbox.occupied, ItcMailbox.owed, tickets, gone, slots, unstored,
      TicketRing.tickets_succ, Finset.filter_insert] at hslot ⊢
    split_ifs at hslot ⊢ <;> simp_all <;> omega
  | @stores y t tickets gone empty slots unstored _ _ _ _ storing idle =>
    have hmem := ht.unstored (by simp [storing])
    obtain rfl := ht.ticket _ _ storing
    rw [← slot_ring] at empty slots
    simp only [ItcMailbox.occupied, ItcMailbox.owed, tickets, gone, slots, unstored,
      Finset.filter_erase] at hslot ⊢
    by_cases hcur : (ring ι).slot th.ticket = slot
    · subst hcur
      have howed :
          th.ticket ∈ m.unstored.filter fun k => (ring ι).slot k = (ring ι).slot th.ticket :=
        Finset.mem_filter.mpr ⟨hmem, rfl⟩
      have hcard := Finset.card_erase_add_one howed
      rw [if_pos empty] at hslot
      rw [if_neg (by rw [Function.update_self]; nofun)]
      omega
    · have hout : th.ticket ∉ m.unstored.filter fun k => (ring ι).slot k = slot :=
        fun hin => hcur (Finset.mem_filter.mp hin).2
      rwa [Finset.erase_eq_of_notMem hout, Function.update_of_ne (Ne.symm hcur)]
  | takes tickets full slots gone unstored =>
    simp only [ItcMailbox.occupied, ItcMailbox.owed, tickets, gone, slots, unstored,
      List.length_append, List.length_singleton, TicketRing.tickets_succ] at hslot ⊢
    by_cases hcur : (ring ι).slot m.gone.length = slot
    · subst hcur
      simp [full] at hslot ⊢
      omega
    · simpa [hcur, Function.update_of_ne (Ne.symm hcur)] using hslot

end Passage

theorem Ticketed.stable {j : ι} {th₀ : Thread ι} (h : Ticketed m j th) (hdiffer : th.Differ th₀)
    (hp : Passage i m th₀ m' th') : Ticketed m' j th := by
  refine ⟨h.ticket, fun hst => ?_, fun hst => (h.preceded hst).mono le_rfl hp.at_mono⟩
  have hmem := h.unstored hst
  cases hp with
  | passes _ _ _ unstored | takes _ _ _ _ unstored => rwa [unstored]
  | draws _ _ _ unstored => exact unstored ▸ Finset.mem_insert_of_mem hmem
  | stores _ _ _ _ unstored _ _ _ _ storing =>
    exact unstored ▸ Finset.mem_erase_of_ne_of_mem (hdiffer hst (by simp [storing])) hmem

theorem Ticketed.own (h : Ticketed m i th)
    (hplaced : m.PrecededBelow m.mRxMsgQueue.pushTickets i th.pushed)
    (hp : Passage i m th m' th') : Ticketed m' i th' := by
  have hmono := hp.at_mono
  cases hp with
  | passes _ _ _ unstored _ pushed ticket storing =>
    refine ⟨fun e t hst => ?_, fun hst => ?_, fun hst => ?_⟩
    · rw [ticket]
      exact h.ticket e t (storing ▸ hst)
    · rw [ticket, unstored]
      exact h.unstored (storing ▸ hst)
    · rw [ticket, pushed]
      exact (h.preceded (storing ▸ hst)).mono le_rfl hmono
  | draws _ _ _ unstored _ pushed ticket _ storing =>
    refine ⟨fun e t hst => ?_, fun _ => ?_, fun _ => ?_⟩
    · rw [storing] at hst
      obtain ⟨-, rfl⟩ := Prod.mk.inj (Option.some.inj hst)
      rw [ticket]
    · rw [ticket, unstored]
      exact Finset.mem_insert_self _ _
    · rw [ticket, pushed]
      exact hplaced.mono le_rfl hmono
  | stores _ _ _ _ _ _ _ _ _ _ idle => exact ⟨by simp [idle], by simp [idle], by simp [idle]⟩
  | takes _ _ _ _ _ _ _ _ _ idle => exact ⟨by simp [idle], by simp [idle], by simp [idle]⟩

theorem Thread.Differ.own {th₀ : Thread ι} {j : ι} (h : th.Differ th₀) (ht : Ticketed m j th₀)
    (hlt : ∀ k ∈ m.unstored, k < m.mRxMsgQueue.pushTickets) (hp : Passage i m th m' th') :
    th'.Differ th₀ := by
  intro hst hst₀
  cases hp with
  | passes _ _ _ _ _ _ ticket storing =>
    rw [ticket]
    exact h (storing ▸ hst) hst₀
  | draws _ _ _ _ _ _ ticket =>
    rw [ticket]
    exact (hlt _ (ht.unstored hst₀)).ne'
  | stores _ _ _ _ _ _ _ _ _ _ idle | takes _ _ _ _ _ _ _ _ _ idle => exact absurd idle hst

section Sound
variable [DecidableEq ι] {s : State ι (ItcMailbox ι) (Thread ι)}

theorem Sound.length_taken (hs : Sound owner s) :
    s.shared.mRxMsgQueue.taken.length = s.shared.gone.length := by
  rw [hs.taken, List.length_map]

theorem Sound.passage (hs : Sound owner s) (h : Move owner i a s.shared (s.locals i) m' th') :
    Passage i s.shared (s.locals i) m' th' := by
  rcases h.local_or_accessed with hl | ⟨site, pc, pc', q, ev, hstage, heff, rfl, rfl⟩
  · exact .passes (by rw [hl.rx]) hl.gone (by rw [hl.rx]) hl.unstored hl.overtaking hl.pushed
      hl.ticket (by rw [hl.before.storing?, hl.after.storing?])
  · have hf := hs.fits i
    simp only [Thread.Fits, hstage] at hf
    have hphase := Thread.phase?_of_stage hstage
    refine passage_of_effect hf hphase rfl hs.rx.head (fun t ht => ?_) heff
    rw [ht] at hf hphase
    rw [← hs.length_taken]
    obtain rfl := hf.owner_of_emptying
    exact hs.turn.turn t hphase

end Sound

variable {s : State ι (ItcMailbox ι) (Thread ι)}

theorem ordered_idleMailbox (mailboxId : MailboxId) (flags : BitVec 32) :
    Ordered (idleMailbox mailboxId flags : State ι (ItcMailbox ι) (Thread ι)) := by
  have hnone : ∀ c x, ¬ (ItcMailbox.new mailboxId flags : ItcMailbox ι).At c x := by
    rintro c x (h | ⟨-, h⟩)
    · cases h
    · cases h
  constructor
  case slots =>
    intro slot
    have howed : (ItcMailbox.new mailboxId flags : ItcMailbox ι).owed slot = ∅ :=
      Finset.filter_empty _
    rw [idleMailbox, howed]
    simp [ItcMailbox.new, Traced.new, Queue.new, ItcMailbox.occupied, TicketRing.tickets,
      rxMsgQueueParams]
  case drawn => exact fun k hk => absurd hk (Finset.notMem_empty k)
  case handed => exact fun c x h => absurd h (hnone c x)
  case placed => exact fun j k hk => absurd hk (Nat.not_lt_zero k)
  case ticketed =>
    refine fun j => ⟨?_, fun h => absurd rfl h, fun h => absurd rfl h⟩
    intro e t h
    cases h
  case differ => exact fun j k _ h => absurd rfl h
  case ordered => exact fun c y h => absurd h (hnone c y)

theorem Ordered.position_lt (ho : Ordered s) {e : Message ι} {t : BitVec 32}
    (hst : (s.locals i).storing? = some (e, t)) :
    (ring ι).position s.shared.gone.length ((rxMsgQueueParams ι).slot t) <
      s.shared.mRxMsgQueue.pushTickets := by
  obtain rfl := (ho.ticketed i).ticket e t hst
  have hmem : (s.locals i).ticket ∈ s.shared.owed ((ring ι).slot (s.locals i).ticket) :=
    Finset.mem_filter.mpr ⟨(ho.ticketed i).unstored (by simp [hst]), rfl⟩
  have hpos := Finset.card_pos.mpr ⟨_, hmem⟩
  have hslots := ho.slots ((ring ι).slot (s.locals i).ticket)
  rw [← slot_ring]
  exact (ring ι).position_lt (by omega)

/-- A store no older ticket of the slot waits for gives the message a position no earlier than its
own ticket, hence past the sender's earlier messages. -/
theorem Ordered.precededBelow_position (ho : Ordered s) {e : Message ι} {t : BitVec 32}
    (hst : (s.locals i).storing? = some (e, t))
    (hempty : s.shared.mRxMsgQueue.queue.mQueue ((rxMsgQueueParams ι).slot t) = none)
    (hold : ∀ k ∈ s.shared.unstored, k < (s.locals i).ticket →
      (ring ι).slot k ≠ (ring ι).slot (s.locals i).ticket) :
    s.shared.PrecededBelow ((ring ι).position s.shared.gone.length ((rxMsgQueueParams ι).slot t)) i
      (s.locals i).pushed := by
  have hticketed := ho.ticketed i
  have hne : (s.locals i).storing? ≠ none := by simp [hst]
  obtain rfl := hticketed.ticket e t hst
  rw [← slot_ring] at hempty ⊢
  have hslots := ho.slots ((ring ι).slot (s.locals i).ticket)
  rw [ItcMailbox.occupied, if_pos hempty, Nat.add_zero] at hslots
  exact (hticketed.preceded hne).mono
    ((ring ι).le_position ho.drawn hslots (hticketed.unstored hne) hold) fun _ _ hx => hx

variable [DecidableEq ι]

theorem Ordered.step (ho : Ordered s) (hp : Passage i s.shared (s.locals i) m' th') :
    Ordered ⟨m', Function.update s.locals i th'⟩ := by
  constructor
  case slots => exact hp.accounted (ho.ticketed i) ho.drawn ho.slots
  case drawn => exact hp.drawn ho.drawn
  case handed =>
    intro c x hx
    rcases (hp.at_iff c x).mp hx with hx | ⟨t, hst, -, rfl⟩
    · exact (ho.handed c x hx).trans_le hp.tickets_le
    · exact (ho.position_lt hst).trans_le hp.tickets_le
  case placed =>
    refine forall_update (J := fun j (th : Thread ι) => s.shared.PrecededBelow _ j th.pushed)
      (K := fun j (th : Thread ι) => m'.PrecededBelow _ j th.pushed) ho.placed ?_
      fun j _ h => h.mono hp.tickets_le hp.at_mono
    have hold := (ho.placed i).mono hp.tickets_le hp.at_mono
    have hat := hp.at_iff
    have hle := hp.tickets_le
    cases hp with
    | @stores y t tickets _ _ _ _ _ pushed sender number storing idle =>
      rw [pushed]
      intro k hk
      rcases Nat.lt_succ_iff_lt_or_eq.mp hk with hk | rfl
      · exact hold k hk
      · refine ⟨_, y, ?_, (hat _ y).mpr (.inr ⟨t, storing, idle, rfl⟩), sender, number⟩
        exact (ho.position_lt storing).trans_le hle
    | passes _ _ _ _ _ pushed | draws _ _ _ _ _ pushed | takes _ _ _ _ _ _ pushed => rwa [pushed]
  case ticketed =>
    intro j
    by_cases hj : j = i
    · subst hj
      simpa using (ho.ticketed j).own (ho.placed j) hp
    · simpa [hj] using (ho.ticketed j).stable (ho.differ hj) hp
  case differ =>
    exact pairwise_update Thread.Differ.symm ho.differ fun j hj =>
      (ho.differ hj.symm).own (ho.ticketed j) ho.drawn hp
  case ordered =>
    intro c y hy hfair
    have hmono := hp.at_mono
    have hfair' := fun hmem => hfair (hp.overtaking_subset hmem)
    rcases (hp.at_iff c y).mp hy with hy | ⟨t, hst, hidle, rfl⟩
    · exact (ho.ordered c y hy hfair').mono le_rfl hmono
    · cases hp with
      | stores _ _ empty _ _ overtaking _ sender number storing =>
        obtain ⟨he, rfl⟩ := Prod.mk.inj (Option.some.inj (storing.symm.trans hst))
        obtain rfl := Option.some.inj he
        subst sender
        rw [number]
        refine (ho.precededBelow_position storing empty fun k hk hlt heq => hfair ?_).mono le_rfl
          hmono
        rw [overtaking, number, ItcMailbox.overtakes, if_pos ⟨k, hk, hlt, heq⟩]
        exact List.mem_append_right _ (List.mem_singleton_self _)
      | passes _ _ _ _ _ _ _ storing => simp [← storing, hidle] at hst
      | draws _ _ _ _ _ _ _ idle | takes _ _ _ _ _ _ _ _ idle => simp [idle] at hst

theorem ordered_of_run {mailboxId : MailboxId} {flags : BitVec 32}
    (h : Run (mailbox owner) anyStep (idleMailbox mailboxId flags) s) : Ordered s :=
  (mailbox_induction h (ordered_idleMailbox mailboxId flags) fun _ _ _ _ _ hs ho _ hm =>
    ho.step (hs.passage hm)).2

/-- Per-sender order: a message not stored ahead of an older ticket of its slot leaves the mailbox
after all the earlier messages of its sender. -/
theorem leaves_in_order {mailboxId : MailboxId} {flags : BitVec 32}
    (h : Run (mailbox owner) anyStep (idleMailbox mailboxId flags) s) {n : ℕ} {d : Departure ι}
    (hd : s.shared.gone[n]? = some d)
    (hfair : (d.envelope.sender, d.envelope.number) ∉ s.shared.overtaking) :
    ∀ k < d.envelope.number, ∃ n' < n, ∃ d', s.shared.gone[n']? = some d' ∧
      d'.envelope.sender = d.envelope.sender ∧ d'.envelope.number = k := by
  intro k hk
  have ho := ordered_of_run h
  have hat : s.shared.At n d.envelope := .inl (by simp [hd])
  obtain ⟨n', x, hlt, hx, hsender, hnumber⟩ := ho.ordered n d.envelope hat hfair k hk
  have hn := (List.getElem?_eq_some_iff.mp hd).1
  have hget := hx.taken_of_lt (by rw [List.length_map]; exact hlt.trans hn)
  rw [List.getElem?_map, Option.map_eq_some_iff] at hget
  obtain ⟨d', hd', rfl⟩ := hget
  exact ⟨n', hlt, d', hd', hsender, hnumber⟩

def receivedTwo (owner sender : ι) : List (ι × Action) :=
  (owner, .setState true) :: (owner, .access false) :: pushSteps sender emptyMessage ++
    pushSteps sender emptyMessage ++ popSteps owner ++ popSteps owner

theorem leaves_in_order_receivedTwo : ∃ s, exec (mailbox (0 : Fin 2)) anyStep (receivedTwo 0 1)
    (idleMailbox 0 0) = some s ∧ ∃ d, s.shared.gone[1]? = some d ∧ d.envelope.number = 1 ∧
      ∀ k < d.envelope.number, ∃ n' < 1, ∃ d', s.shared.gone[n']? = some d' ∧
        d'.envelope.sender = d.envelope.sender ∧ d'.envelope.number = k := by
  obtain ⟨s, hs, d, hd, hnumber, hfair⟩ : ∃ s, exec (mailbox (0 : Fin 2)) anyStep
      (receivedTwo 0 1) (idleMailbox 0 0) = some s ∧ ∃ d, s.shared.gone[1]? = some d ∧
        d.envelope.number = 1 ∧ s.shared.overtaking = [] := ⟨_, rfl, _, rfl, rfl, rfl⟩
  exact ⟨s, hs, d, hd, hnumber, leaves_in_order (exec_run hs .start) hd (by simp [hfair])⟩

section Overtaken

/-- A sender stores its first messages, all numbered, over a slow push that holds ticket 0. -/
structure Lap (msg : AdminMessage) (n : ℕ)
    (s : State (Fin 3) (ItcMailbox (Fin 3)) (Thread (Fin 3))) :
    Prop where
  run : Run (mailbox 0) anyStep (idleMailbox 0 0) s
  owner : (s.locals 0).stage = .idle
  sender : (s.locals 2).stage = .idle
  pushed : (s.locals 2).pushed = n
  active : s.shared.mIsActive = true
  life : s.shared.life = 1
  head : s.shared.mRxMsgQueue.queue.mHead = BitVec.ofNat 32 (n + 1)
  tail : s.shared.mRxMsgQueue.queue.mTail = 0
  gone : s.shared.gone = []
  slots : ∀ c, 1 ≤ c → c ≤ 1024 → s.shared.mRxMsgQueue.queue.mQueue ((ring _).slot c) =
    if c ≤ n then some ⟨2, c - 1, 1, msg⟩ else none

def slowPush (owner sender : ι) (msg : AdminMessage) : List (ι × Action) :=
  [(owner, .setState true), (owner, .access false), (sender, .push msg), (sender, .access false),
    (sender, .access false)]

theorem lap_zero (msg : AdminMessage) : ∃ s, Lap msg 0 s := by
  obtain ⟨s, hs, hq, hs'⟩ : ∃ s, exec (mailbox (0 : Fin 3)) anyStep (slowPush 0 1 msg)
      (idleMailbox 0 0) = some s ∧
      (∀ c, s.shared.mRxMsgQueue.queue.mQueue c = none) ∧ (s.locals 0).stage = .idle ∧
      (s.locals 2).stage = .idle ∧ (s.locals 2).pushed = 0 ∧ s.shared.mIsActive = true ∧
      s.shared.life = 1 ∧ s.shared.mRxMsgQueue.queue.mHead = 1 ∧
      s.shared.mRxMsgQueue.queue.mTail = 0 ∧ s.shared.gone = [] :=
    ⟨_, rfl, fun _ => rfl, rfl, rfl, rfl, rfl, rfl, rfl, rfl, rfl⟩
  obtain ⟨h0, h2, hp, hact, hlife, hhead, htail, hgone⟩ := hs'
  refine ⟨s, exec_run hs .start, h0, h2, hp, hact, hlife, hhead, htail, hgone, fun c hc _ => ?_⟩
  rw [hq, if_neg (by omega)]

theorem Lap.push {msg : AdminMessage} {n : ℕ}
    {s : State (Fin 3) (ItcMailbox (Fin 3)) (Thread (Fin 3))} (h : Lap msg n s) (hn : n < 1024) :
    ∃ s', Lap msg (n + 1) s' := by
  have hempty := h.slots (n + 1) (by omega) (by omega)
  rw [if_neg (by omega)] at hempty
  obtain ⟨_, _, hexec⟩ := @exec_pushSteps _ _ 0 2 _ h.sender h.active msg (by rwa [h.head])
  refine ⟨_, exec_run hexec h.run, ?_, ?_, ?_, h.active, h.life, ?_, h.tail, h.gone, ?_⟩
  · simpa using h.owner
  · simp
  · simp [h.pushed]
  · simp only [h.head]
    exact (BitVec.ofNat_add (n + 1) 1).symm
  · intro c hc hc'
    simp only [h.head, h.pushed, h.life]
    by_cases hcn : c = n + 1
    · subst hcn
      rw [if_pos le_rfl]
      exact Function.update_self _ _ _
    · have hslot : (ring (Fin 3)).slot c ≠ (rxMsgQueueParams _).slot (BitVec.ofNat 32 (n + 1)) := by
        intro he
        have := ((rxMsgQueueParams _).slot_ofNat_eq_iff ((rxMsgQueueParams _).mSize_dvd rfl)).mp he
        rw [mSize_rxMsgQueueParams] at this
        omega
      rw [Function.update_of_ne hslot, h.slots c hc hc']
      split_ifs <;> first | rfl | omega

theorem lap (msg : AdminMessage) {n : ℕ} (hn : n ≤ 1024) : ∃ s, Lap msg n s := by
  induction n with
  | zero => exact lap_zero msg
  | succ n ih =>
    obtain ⟨s, hs⟩ := ih (by omega)
    exact hs.push hn

theorem overtaken : ∃ (s : State (Fin 3) (ItcMailbox (Fin 3)) (Thread (Fin 3)))
    (x y : Envelope (Fin 3)), Run (mailbox 0) anyStep (idleMailbox 0 0) s ∧
      s.shared.gone = [⟨.pop, 1, y⟩, ⟨.pop, 1, x⟩] ∧ x.sender = y.sender ∧ x.number < y.number := by
  -- the slot of the slow push is refilled a lap later, and the owner takes the last message of the
  -- other sender before the first
  obtain ⟨s, hs⟩ := lap emptyMessage (le_refl 1024)
  have hlast := hs.slots 1024 (by omega) le_rfl
  have hfirst := hs.slots 1 le_rfl (by omega)
  rw [if_pos le_rfl] at hlast
  rw [if_pos (by omega)] at hfirst
  have hne : (ring (Fin 3)).slot 1 ≠ (ring (Fin 3)).slot 0 :=
    (ring _).slot_ne_of_lt Nat.zero_lt_one (by decide)
  have hlap : (ring (Fin 3)).slot 1024 = (ring (Fin 3)).slot 0 := (ring _).slot_add_period 0
  obtain ⟨s', hs', hidle, hact, hlife, hgone, htail, hqueue⟩ :=
    exec_popSteps hs.owner hs.active (by rw [hs.tail]; exact hlap ▸ hlast)
  rw [hs.tail] at htail hqueue
  have hfirst' := (congrFun hqueue _).trans ((Function.update_of_ne hne _ _).trans hfirst)
  obtain ⟨s'', hs'', -, -, -, hgone', -⟩ := exec_popSteps hidle hact (by rw [htail]; exact hfirst')
  refine ⟨s'', ⟨2, 0, 1, emptyMessage⟩, ⟨2, 1023, 1, emptyMessage⟩,
    exec_run hs'' (exec_run hs' hs.run), ?_, rfl, by decide⟩
  rw [hgone', hgone, hs.gone, hlife, hs.life]
  rfl

end Overtaken

end ItcPlatform.Mailbox
