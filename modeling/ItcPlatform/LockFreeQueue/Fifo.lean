import ItcPlatform.Lib.TicketLine
import ItcPlatform.LockFreeQueue.Retries

/-! Any producers and consumers. While no two pushes and no two pops wait for the same slot, the
elements leave the queue in the order in which they were pushed. -/

namespace ItcPlatform.LockFreeQueue
open Interleaving TicketLine
variable {T : Type*} {P : Params T}

structure Entry (T : Type*) where
  side : Side
  ticket : ℕ
  element : T
  began : ℕ
  ended : ℕ

/-- The queue with the elements in the order of their tickets and the calls that returned. -/
structure History (P : Params T) where
  traced : Traced P
  pushed : List T
  entries : List (Entry T)
  clock : ℕ

structure Caller (T : Type*) where
  call : Option (Pc T)
  began : ℕ
  ticket : ℕ
  element : T

def Call.element (P : Params T) : Call T → T
  | push e | tryPush e => e
  | _ => P.nil

def Event.admitted (e : T) : Event T → List T
  | .pushTicket => [e]
  | _ => []

def Event.ticket (t : Traced P) (n : ℕ) : Event T → ℕ
  | .pushTicket => t.pushTickets
  | .popTicket => t.popTickets
  | _ => n

def Caller.entry (l : Caller T) (ended : ℕ) : Ret T → List (Entry T)
  | .pushed => [⟨.producer, l.ticket, l.element, l.began, ended⟩]
  | .popped e => [⟨.consumer, l.ticket, e, l.began, ended⟩]
  | _ => []

namespace History

def tick (h : History P) : History P := { h with clock := h.clock + 1 }

def finish (h : History P) (l : Caller T) (ret : Ret T) : History P :=
  { h.tick with entries := h.entries ++ l.entry h.clock ret }

def record (h : History P) (l : Caller T) (q : Queue P) (ev : Event T) : History P :=
  { h.tick with traced := h.traced.record q ev, pushed := h.pushed ++ ev.admitted l.element }

end History

def Caller.access (l : Caller T) (t : Traced P) (pc : Pc T) (ev : Event T) : Caller T :=
  { l with call := some pc, ticket := ev.ticket t l.ticket }

def Phase.waits (P : Params T) : Phase T → Option (Side × Fin P.mSize)
  | storing _ t => some (.producer, P.slot t)
  | emptying t => some (.consumer, P.slot t)
  | _ => none

section Run
variable {ι : Type*}

/-- No two pushes and no two pops wait for the same slot. -/
def Uncrowded (s : State ι (History P) (Caller T)) : Prop :=
  ∀ i j, (callPhase (s.locals i).call).waits P ≠ none →
    (callPhase (s.locals i).call).waits P = (callPhase (s.locals j).call).waits P → i = j

instance [Fintype ι] [DecidableEq ι] (s : State ι (History P) (Caller T)) :
    Decidable (Uncrowded s) := by
  unfold Uncrowded
  infer_instance

def noCallers (P : Params T) : State ι (History P) (Caller T) :=
  ⟨⟨.new P, [], [], 0⟩, fun _ => ⟨none, 0, 0, P.nil⟩⟩

variable [DecidableEq T]

def timed (P : Params T) : Program ι (Act T) (History P) (Caller T) := fun _ a h l =>
  match a, l.call with
  | .call c, none =>
    if c.Proper P then some (h.tick, ⟨some c.start, h.clock, 0, c.element P⟩) else none
  | .access _, some (.returned ret) => some (h.finish l ret, { l with call := none })
  | .access choice, some pc =>
    (step P choice h.traced.queue pc).map fun r =>
      (h.record l r.1 r.2.2, l.access h.traced r.2.1 r.2.2)
  | _, _ => none

end Run

inductive TimedMove (h : History P) (l : Caller T) : History P → Caller T → Prop
  | called {c : Call T} (hidle : l.call = none) :
      TimedMove h l h.tick ⟨some c.start, h.clock, 0, c.element P⟩
  | finished {ret : Ret T} (hret : l.call = some (.returned ret)) :
      TimedMove h l (h.finish l ret) { l with call := none }
  | accessed {pc pc' : Pc T} {q : Queue P} {ev : Event T} (hpc : l.call = some pc)
      (heff : Effect P h.traced.queue pc.phase ev q pc'.phase) :
      TimedMove h l (h.record l q ev) (l.access h.traced pc' ev)

section Step
variable [DecidableEq T] {ι : Type*} {i : ι} {a : Act T} {h h' : History P} {l l' : Caller T}

theorem timed_move (hstep : timed P i a h l = some (h', l')) : TimedMove h l h' l' := by
  unfold timed at hstep
  split at hstep
  · rename_i hidle
    split_ifs at hstep
    obtain ⟨rfl, rfl⟩ := by simpa using hstep
    exact .called hidle
  · rename_i hret
    obtain ⟨rfl, rfl⟩ := by simpa using hstep
    exact .finished hret
  · rename_i choice pc _ hpc
    obtain ⟨⟨q, pc', ev⟩, hmove, heq⟩ := Option.map_eq_some_iff.mp hstep
    obtain ⟨rfl, rfl⟩ := by simpa using heq
    exact .accessed hpc (step_effect hmove)
  · cases hstep

theorem threads_of_timed (hstep : timed P i a h l = some (h', l')) :
    threads P i a h.traced l.call = some (h'.traced, l'.call) := by
  unfold timed at hstep
  unfold threads
  split at hstep
  · rename_i c hidle
    split_ifs at hstep with hproper
    obtain ⟨rfl, rfl⟩ := by simpa using hstep
    rw [hidle]
    exact if_pos hproper
  · rename_i hret
    obtain ⟨rfl, rfl⟩ := by simpa using hstep
    rw [hret]
    rfl
  · rename_i choice pc hnot hpc
    obtain ⟨⟨q, pc', ev⟩, hmove, heq⟩ := Option.map_eq_some_iff.mp hstep
    obtain ⟨rfl, rfl⟩ := by simpa using heq
    rw [hpc]
    cases pc with
    | returned ret => exact absurd rfl (hnot ret)
    | _ => exact congrArg (Option.map _) hmove
  · cases hstep

end Step

def Phase.side? : Phase T → Option Side
  | storing _ _ | returned .pushed => some .producer
  | emptying _ | returned (.popped _) => some .consumer
  | _ => none

def Caller.drew? (l : Caller T) : Option Side := (callPhase l.call).side?

def Phase.Fits (h : History P) (l : Caller T) : Phase T → Prop
  | wantsPush e => e = l.element
  | storing e t => e = l.element ∧ t = BitVec.ofNat 32 l.ticket ∧ h.pushed[l.ticket]? = some e
  | emptying t => t = BitVec.ofNat 32 l.ticket
  | returned .pushed => h.pushed[l.ticket]? = some l.element
  | returned (.popped e) => h.pushed[l.ticket]? = some e
  | _ => True

structure Caller.Good (h : History P) (l : Caller T) : Prop where
  began : l.call ≠ none → l.began < h.clock
  fits : (callPhase l.call).Fits h l
  drawn : ∀ side ∈ l.drew?, l.ticket < h.traced.drawn side
  later : ∀ x ∈ h.entries, l.drew? = some x.side →
    x.ticket ≠ l.ticket ∧ (x.ended ≤ l.began → x.ticket < l.ticket)

structure Recorded (h : History P) : Prop where
  length : h.pushed.length = h.traced.pushTickets
  times : ∀ x ∈ h.entries, x.began < x.ended ∧ x.ended < h.clock
  drawn : ∀ x ∈ h.entries, x.ticket < h.traced.drawn x.side
  matched : ∀ x ∈ h.entries, h.pushed[x.ticket]? = some x.element
  distinct : h.entries.Pairwise fun x y => x.side = y.side → x.ticket ≠ y.ticket
  ordered : ∀ x ∈ h.entries, ∀ y ∈ h.entries, x.side = y.side → x.ended ≤ y.began →
    x.ticket < y.ticket

structure History.Extends (h h' : History P) : Prop where
  clock : h'.clock = h.clock + 1
  pushed : ∀ (n : ℕ) e, h.pushed[n]? = some e → h'.pushed[n]? = some e
  drawn : ∀ side, h.traced.drawn side ≤ h'.traced.drawn side

section Extends
variable {h h' : History P} {l l' : Caller T} {q : Queue P} {ev : Event T}

theorem TimedMove.extends (hmove : TimedMove h l h' l') : h.Extends h' := by
  cases hmove with
  | called | finished => exact ⟨rfl, fun _ _ hn => hn, fun _ => le_rfl⟩
  | accessed =>
    refine ⟨rfl, fun n e hn => ?_, fun side => ?_⟩
    · exact List.getElem?_append_left (List.getElem?_eq_some_iff.mp hn).1 ▸ hn
    · exact (drawn_record side _ _ _).ge.trans' (Nat.le_add_right _ _)

theorem Phase.Fits.extends {f : Phase T} (hf : f.Fits h l) (hext : h.Extends h') : f.Fits h' l := by
  cases f with
  | storing => exact ⟨hf.1, hf.2.1, hext.pushed _ _ hf.2.2⟩
  | returned ret => cases ret <;> first | exact hext.pushed _ _ hf | exact hf
  | _ => exact hf

theorem Caller.call_ne_none {side : Side} (h : l.drew? = some side) : l.call ≠ none := by
  intro hnone
  rw [Caller.drew?, hnone] at h
  cases h

theorem Caller.Good.extends (hl : l.Good h) (hext : h.Extends h')
    (hentries : ∀ x ∈ h'.entries, x ∈ h.entries ∨
      x.ended = h.clock ∧ (l.drew? = some x.side → x.ticket ≠ l.ticket)) : l.Good h' := by
  refine ⟨fun hcall => (hl.began hcall).trans (by rw [hext.clock]; exact Nat.lt_succ_self _),
    hl.fits.extends hext, fun side hside => (hl.drawn side hside).trans_le (hext.drawn side),
    fun x hx hside => ?_⟩
  obtain hold | ⟨hnow, hne⟩ := hentries x hx
  · exact hl.later x hold hside
  · refine ⟨hne hside, fun hle => ?_⟩
    have hbegan := hl.began (Caller.call_ne_none hside)
    omega

theorem Recorded.extends (hr : Recorded h) (hext : h.Extends h')
    (hlength : h'.pushed.length = h'.traced.pushTickets) (hentries : h'.entries = h.entries) :
    Recorded h' := by
  refine ⟨hlength, ?_, ?_, ?_, ?_, ?_⟩ <;> rw [hentries]
  · intro x hx
    have htimes := hr.times x hx
    have hclock := hext.clock
    exact ⟨htimes.1, by omega⟩
  · exact fun x hx => (hr.drawn x hx).trans_le (hext.drawn x.side)
  · exact fun x hx => hext.pushed _ _ (hr.matched x hx)
  · exact hr.distinct
  · exact hr.ordered

end Extends

inductive Draw (h : History P) (l : Caller T) (h' : History P) (l' : Caller T) : Prop
  | kept (ticket : l'.ticket = l.ticket) (drew : ∀ side ∈ l'.drew?, l.drew? = some side)
  | drew (side : Side) (first : l.drew? = none) (ticket : l'.ticket = h.traced.drawn side)
      (side_eq : l'.drew? = some side) (counted : h'.traced.drawn side = h.traced.drawn side + 1)

section Access
variable {h : History P} {l : Caller T} {pc pc' : Pc T} {q : Queue P} {ev : Event T}

theorem Effect.draw (heff : Effect P h.traced.queue pc.phase ev q pc'.phase)
    (hpc : l.call = some pc) : Draw h l (h.record l q ev) (l.access h.traced pc' ev) := by
  have hphase : callPhase l.call = pc.phase := by rw [hpc]; rfl
  have hafter : (l.access h.traced pc' ev).drew? = pc'.phase.side? := rfl
  generalize hf : pc.phase = f at heff
  generalize hf' : pc'.phase = f' at heff
  rw [hf'] at hafter
  rw [hf] at hphase
  cases heff with
  | pushTicket e => exact .drew .producer (by rw [Caller.drew?, hphase]; rfl) rfl hafter rfl
  | popTicket => exact .drew .consumer (by rw [Caller.drew?, hphase]; rfl) rfl hafter rfl
  | stay | stored | taken =>
    refine .kept rfl fun side hside => ?_
    rw [hafter] at hside
    rw [Caller.drew?, hphase]
    exact hside
  | refusePush | refusePop | measured =>
    refine .kept rfl fun side hside => ?_
    rw [hafter] at hside
    cases hside

theorem Effect.fits (heff : Effect P h.traced.queue pc.phase ev q pc'.phase)
    (hfits : pc.phase.Fits h l) (hlength : h.pushed.length = h.traced.pushTickets)
    (hsound : h.traced.queue.mHead = BitVec.ofNat 32 h.traced.pushTickets ∧
      h.traced.queue.mTail = BitVec.ofNat 32 h.traced.popTickets)
    (htaken : ∀ t, pc.phase = .emptying t → h.traced.queue.mQueue (P.slot t) ≠ P.nil →
      h.pushed[l.ticket]? = some (h.traced.queue.mQueue (P.slot t))) :
    pc'.phase.Fits (h.record l q ev) (l.access h.traced pc' ev) := by
  generalize pc.phase = f at heff hfits htaken
  generalize pc'.phase = f' at heff
  cases heff with
  | stay =>
    have hpushed (n : ℕ) : (h.pushed ++ Event.silent.admitted l.element)[n]? = h.pushed[n]? :=
      congrArg (·[n]?) (List.append_nil h.pushed)
    cases f with
    | storing => exact ⟨hfits.1, hfits.2.1, (hpushed _).trans hfits.2.2⟩
    | returned ret => cases ret <;> first | exact hfits | exact (hpushed _).trans hfits
    | _ => exact hfits
  | refusePush | refusePop | measured => trivial
  | pushTicket e =>
    obtain rfl : e = l.element := hfits
    refine ⟨rfl, hsound.1, ?_⟩
    change (h.pushed ++ [l.element])[h.traced.pushTickets]? = _
    rw [← hlength, List.getElem?_concat_length]
  | popTicket => exact hsound.2
  | stored e t =>
    obtain ⟨rfl, -, hpushed⟩ := hfits
    exact (congrArg (·[l.ticket]?) (List.append_nil h.pushed)).trans hpushed
  | taken e t hslot hne =>
    subst hslot
    exact (congrArg (·[l.ticket]?) (List.append_nil h.pushed)).trans (htaken t rfl hne)

end Access

def Caller.Differ (l l' : Caller T) : Prop :=
  ∀ side, l.drew? = some side → l'.drew? = some side → l.ticket ≠ l'.ticket

theorem Caller.Differ.symm (l l' : Caller T) (h : l.Differ l') : l'.Differ l :=
  fun side hl hl' heq => h side hl' hl heq.symm

section Clock
variable {ι : Type*} [DecidableEq ι] {s : State ι (History P) (Caller T)} {i : ι}
  {h : History P} {l : Caller T}

structure Clocked (s : State ι (History P) (Caller T)) : Prop where
  recorded : Recorded s.shared
  good : ∀ i, (s.locals i).Good s.shared
  differ : Pairwise fun i j => (s.locals i).Differ (s.locals j)

theorem Clocked.called (hs : Clocked s) (c : Call T) :
    Clocked ⟨s.shared.tick,
      Function.update s.locals i ⟨some c.start, s.shared.clock, 0, c.element P⟩⟩ := by
  have hext : s.shared.Extends s.shared.tick := ⟨rfl, fun _ _ hn => hn, fun _ => le_rfl⟩
  have hnone : c.start.phase.side? = none := by cases c <;> rfl
  refine ⟨hs.recorded.extends hext hs.recorded.length rfl, ?_,
    pairwise_update Caller.Differ.symm hs.differ fun j _ side hside => ?_⟩
  · refine forall_update hs.good ⟨fun _ => Nat.lt_succ_self _, ?_, fun side hside => ?_,
      fun x _ hside => ?_⟩ fun j _ hj => hj.extends hext fun x hx => .inl hx
    · cases c <;> first | exact rfl | trivial
    · cases hnone.symm.trans hside
    · cases hnone.symm.trans hside
  · cases hnone.symm.trans hside

theorem Caller.Good.entry (hgood : l.Good h) {ret : Ret T} (hret : l.call = some (.returned ret)) :
    ∀ x ∈ l.entry h.clock ret, l.drew? = some x.side ∧ x.ticket = l.ticket ∧ x.began = l.began ∧
      x.ended = h.clock ∧ h.pushed[x.ticket]? = some x.element := by
  have hdrew : l.drew? = (Phase.returned ret).side? := by rw [Caller.drew?, hret]; rfl
  have hfits := hgood.fits
  rw [hret] at hfits
  intro x hx
  cases ret with
  | pushed | popped =>
    obtain rfl := List.mem_singleton.mp hx
    exact ⟨hdrew, rfl, rfl, rfl, hfits⟩
  | refused | sized => cases hx

theorem Recorded.finish (hr : Recorded h) (hgood : l.Good h) {ret : Ret T}
    (hret : l.call = some (.returned ret)) : Recorded (h.finish l ret) := by
  have hnew := hgood.entry hret
  have hbegan := hgood.began (by rw [hret]; nofun)
  refine ⟨hr.length, fun x hx => ?_, fun x hx => ?_, fun x hx => ?_, ?_, fun x hx y hy => ?_⟩
  · change x.began < x.ended ∧ x.ended < h.clock + 1
    obtain hx | hx := List.mem_append.mp hx
    · have htimes := hr.times x hx
      omega
    · obtain ⟨-, -, hb, he, -⟩ := hnew x hx
      omega
  · obtain hx | hx := List.mem_append.mp hx
    · exact hr.drawn x hx
    · obtain ⟨hside, hticket, -⟩ := hnew x hx
      exact hticket.trans_lt (hgood.drawn x.side hside)
  · obtain hx | hx := List.mem_append.mp hx
    · exact hr.matched x hx
    · exact (hnew x hx).2.2.2.2
  · refine List.pairwise_append.mpr ⟨hr.distinct, ?_, fun x hx y hy hside => ?_⟩
    · cases ret <;> first | exact List.pairwise_singleton _ _ | exact .nil
    · obtain ⟨hy, hticket, -⟩ := hnew y hy
      exact hticket ▸ (hgood.later x hx (hside ▸ hy)).1
  · intro hside hle
    obtain hx | hx := List.mem_append.mp hx <;> obtain hy | hy := List.mem_append.mp hy
    · exact hr.ordered x hx y hy hside hle
    · obtain ⟨hy, hticket, hb, -⟩ := hnew y hy
      exact hticket ▸ (hgood.later x hx (hside ▸ hy)).2 (hb ▸ hle)
    · have htimes := hr.times y hy
      obtain ⟨-, -, -, he, -⟩ := hnew x hx
      omega
    · obtain ⟨-, -, -, he, -⟩ := hnew x hx
      obtain ⟨-, -, hb, -⟩ := hnew y hy
      omega

theorem Clocked.finished (hs : Clocked s) {ret : Ret T}
    (hret : (s.locals i).call = some (.returned ret)) :
    Clocked ⟨s.shared.finish (s.locals i) ret,
      Function.update s.locals i { s.locals i with call := none }⟩ := by
  have hext : s.shared.Extends (s.shared.finish (s.locals i) ret) :=
    ⟨rfl, fun _ _ hn => hn, fun _ => le_rfl⟩
  have hnew := (hs.good i).entry hret
  refine ⟨hs.recorded.finish (hs.good i) hret, forall_update hs.good
    ⟨fun hne => absurd rfl hne, trivial, nofun, nofun⟩ fun j hj hgood => hgood.extends hext
      fun x hx => ?_, pairwise_update Caller.Differ.symm hs.differ nofun⟩
  refine (List.mem_append.mp hx).imp_right fun hx => ?_
  obtain ⟨hside, hticket, -, he, -⟩ := hnew x hx
  exact ⟨he, fun hside' => hticket ▸ hs.differ hj.symm x.side hside hside'⟩

theorem Clocked.accessed (hs : Clocked s) {pc pc' : Pc T} {q : Queue P} {ev : Event T}
    (hpc : (s.locals i).call = some pc)
    (heff : Effect P s.shared.traced.queue pc.phase ev q pc'.phase)
    (hlength : (s.shared.record (s.locals i) q ev).pushed.length =
      (s.shared.record (s.locals i) q ev).traced.pushTickets)
    (hfits : pc'.phase.Fits (s.shared.record (s.locals i) q ev)
      ((s.locals i).access s.shared.traced pc' ev)) :
    Clocked ⟨s.shared.record (s.locals i) q ev,
      Function.update s.locals i ((s.locals i).access s.shared.traced pc' ev)⟩ := by
  have hext := (TimedMove.accessed hpc heff).extends
  have hbegan : (s.locals i).began < s.shared.clock + 1 :=
    ((hs.good i).began (by rw [hpc]; nofun)).trans (Nat.lt_succ_self _)
  have hothers (j : ι) (hgood : (s.locals j).Good s.shared) :=
    hgood.extends hext fun x hx => .inl hx
  have hrecorded := hs.recorded.extends hext hlength rfl
  cases heff.draw hpc with
  | kept ticket drew =>
    refine ⟨hrecorded, forall_update hs.good ⟨fun _ => hbegan, hfits, fun side hside => ?_,
      fun x hx hside => ?_⟩ fun j _ => hothers j,
      pairwise_update Caller.Differ.symm hs.differ fun j hj side hside hside' => ?_⟩
    · rw [ticket]
      exact ((hs.good i).drawn side (drew side hside)).trans_le (hext.drawn side)
    · rw [ticket]
      exact (hs.good i).later x hx (drew x.side hside)
    · rw [ticket]
      exact hs.differ hj.symm side (drew side hside) hside'
  | drew side first ticket side_eq counted =>
    refine ⟨hrecorded, forall_update hs.good ⟨fun _ => hbegan, hfits, fun side' hside => ?_,
      fun x hx hside => ?_⟩ fun j _ => hothers j,
      pairwise_update Caller.Differ.symm hs.differ fun j hj side' hside hside' => ?_⟩
    · obtain rfl : side = side' := Option.some.inj (side_eq.symm.trans hside)
      exact ticket.trans_lt (counted ▸ Nat.lt_succ_self _)
    · have hlt := hs.recorded.drawn x hx
      obtain rfl : side = x.side := Option.some.inj (side_eq.symm.trans hside)
      rw [ticket]
      exact ⟨hlt.ne, fun _ => hlt⟩
    · obtain rfl : side = side' := Option.some.inj (side_eq.symm.trans hside)
      rw [ticket]
      exact ((hs.good j).drawn side hside').ne'

end Clock

def Phase.waiting? : Phase T → Option Side
  | storing _ _ => some .producer
  | emptying _ => some .consumer
  | _ => none

def Caller.held (side : Side) (l : Caller T) : Option ℕ :=
  if (callPhase l.call).waiting? = some side then some l.ticket else none

theorem Caller.Good.waits {h : History P} {l : Caller T} (hl : l.Good h) {side : Side} {n : ℕ}
    (hn : n ∈ l.held side) :
    (callPhase l.call).waits P = some (side, P.ticketSlot n) := by
  have hfits := hl.fits
  unfold Caller.held at hn
  split_ifs at hn with hside
  · obtain rfl : l.ticket = n := Option.some.inj hn
    generalize callPhase l.call = f at hside hfits
    cases f with
    | storing e t =>
      obtain rfl : Side.producer = side := Option.some.inj hside
      exact congrArg (fun t => some (Side.producer, P.slot t)) hfits.2.1
    | emptying t =>
      obtain rfl : Side.consumer = side := Option.some.inj hside
      exact congrArg (fun t => some (Side.consumer, P.slot t)) hfits
    | _ => cases hside
  · cases hn

section Lines
variable {ι : Type*} {s : State ι (History P) (Caller T)}

theorem Clocked.apart (hs : Clocked s) (huncrowded : Uncrowded s) (side : Side) :
    Apart P.ticketSlot fun i => (s.locals i).held side := by
  intro i j n hn m hm hslot
  have hi := (hs.good i).waits hn
  have hj := (hs.good j).waits hm
  refine huncrowded i j (by rw [hi]; nofun) ?_
  rw [hi, hj, hslot]

structure Lined (filled emptied : Fin P.mSize → ℕ) (s : State ι (History P) (Caller T)) :
    Prop where
  pushes : Line P.ticketSlot s.shared.traced.pushTickets filled fun i => (s.locals i).held .producer
  pops : Line P.ticketSlot s.shared.traced.popTickets emptied fun i => (s.locals i).held .consumer
  stocked : Stocked P.ticketSlot P.nil s.shared.pushed filled emptied s.shared.traced.queue.mQueue

variable {filled emptied : Fin P.mSize → ℕ} {i : ι}

theorem Lined.getElem?_pushed (hl : Lined filled emptied s) (hs : Clocked s) {t : BitVec 32}
    (hphase : callPhase (s.locals i).call = .emptying t)
    (hfull : s.shared.traced.queue.mQueue (P.slot t) ≠ P.nil) :
    s.shared.pushed[(s.locals i).ticket]? = some (s.shared.traced.queue.mQueue (P.slot t)) := by
  have hfits := (hs.good i).fits
  rw [hphase] at hfits
  have hheld : (s.locals i).held .consumer = some (s.locals i).ticket := by
    rw [Caller.held, hphase]
    rfl
  have hslot : P.slot t = P.ticketSlot (s.locals i).ticket := congrArg P.slot hfits
  rw [hslot] at hfull ⊢
  exact hl.stocked.getElem?_of_turn (hl.pops.turn i _ hheld) hfull

variable [DecidableEq ι]

theorem held_update_of_eq {f : ι → Caller T} {l : Caller T} {side : Side}
    (h : l.held side = (f i).held side) :
    (fun j => (Function.update f i l j).held side) = fun j => (f j).held side := by
  funext j
  by_cases hj : j = i
  · subst hj
    rw [Function.update_self, h]
  · rw [Function.update_of_ne hj]

theorem held_update_of_ne {f : ι → Caller T} {l : Caller T} {side : Side} {j : ι} (hj : j ≠ i) :
    (Function.update f i l j).held side = (f j).held side := by
  rw [Function.update_of_ne hj]

theorem Lined.quiet (hl : Lined filled emptied s) {h : History P} {l : Caller T}
    (htraced : h.traced = s.shared.traced) (hpushed : h.pushed = s.shared.pushed)
    (hheld : ∀ side, l.held side = (s.locals i).held side) :
    Lined filled emptied ⟨h, Function.update s.locals i l⟩ := by
  refine ⟨?_, ?_, ?_⟩
  · rw [held_update_of_eq (hheld .producer)]
    exact htraced ▸ hl.pushes
  · rw [held_update_of_eq (hheld .consumer)]
    exact htraced ▸ hl.pops
  · exact htraced ▸ hpushed ▸ hl.stocked

theorem Lined.accessed (hl : Lined filled emptied s) (hs : Clocked s) (huncrowded : Uncrowded s)
    {pc pc' : Pc T} {q : Queue P} {ev : Event T} (hpc : (s.locals i).call = some pc)
    (heff : Effect P s.shared.traced.queue pc.phase ev q pc'.phase) (hlegal : pc.phase.Legal P)
    (hapart : ∀ side, Apart P.ticketSlot fun j => (Function.update s.locals i
      ((s.locals i).access s.shared.traced pc' ev) j).held side) :
    ∃ filled emptied, Lined filled emptied ⟨s.shared.record (s.locals i) q ev,
      Function.update s.locals i ((s.locals i).access s.shared.traced pc' ev)⟩ := by
  have hheld (side : Side) : (s.locals i).held side =
      if pc.phase.waiting? = some side then some (s.locals i).ticket else none := by
    rw [Caller.held, hpc]
    rfl
  have hheld' (side : Side) : ((s.locals i).access s.shared.traced pc' ev).held side =
      if pc'.phase.waiting? = some side then
        some (ev.ticket s.shared.traced (s.locals i).ticket) else none := rfl
  have hfits := (hs.good i).fits
  have hphase : callPhase (s.locals i).call = pc.phase := by rw [hpc]; rfl
  have hext := (TimedMove.accessed hpc heff).extends
  rw [hphase] at hfits
  generalize hl' : (s.locals i).access s.shared.traced pc' ev = l' at hheld' hapart ⊢
  generalize pc.phase = f at heff hlegal hheld hfits
  generalize pc'.phase = f' at heff hheld'
  have hown : Function.update s.locals i l' i = l' := Function.update_self ..
  have hothers (side : Side) (j : ι) (hj : j ≠ i) :
      (Function.update s.locals i l' j).held side = (s.locals j).held side := held_update_of_ne hj
  cases heff with
  | stay | refusePush | refusePop | measured =>
    exact ⟨filled, emptied, hl.quiet rfl (List.append_nil _) fun side => (hheld' side).trans
      (hheld side).symm⟩
  | pushTicket e =>
    refine ⟨filled, emptied, hl.pushes.draw ?_ (hothers _) ?_ (hapart _), ?_,
      hl.stocked.mono hext.pushed⟩
    · exact (congrArg (Caller.held .producer) hown).trans (hheld' .producer)
    · exact hheld .producer
    · rw [held_update_of_eq ((hheld' .consumer).trans (hheld .consumer).symm)]
      exact hl.pops
  | popTicket =>
    refine ⟨filled, emptied, ?_, hl.pops.draw ?_ (hothers _) ?_ (hapart _),
      hl.stocked.mono hext.pushed⟩
    · rw [held_update_of_eq ((hheld' .producer).trans (hheld .producer).symm)]
      exact hl.pushes
    · exact (congrArg (Caller.held .consumer) hown).trans (hheld' .consumer)
    · exact hheld .consumer
  | stored e t hfree =>
    obtain ⟨rfl, ht, hpushed⟩ := hfits
    have hslot : P.slot t = P.ticketSlot (s.locals i).ticket := congrArg P.slot ht
    have hturn := hl.pushes.turn i _ (hheld .producer)
    refine ⟨_, emptied, hl.pushes.serve (hheld .producer) ?_ (hothers _)
      (hs.apart huncrowded .producer), ?_, ?_⟩
    · exact (congrArg (Caller.held .producer) hown).trans (hheld' .producer)
    · rw [held_update_of_eq ((hheld' .consumer).trans (hheld .consumer).symm)]
      exact hl.pops
    · rw [hslot] at hfree
      have hstocked := hl.stocked.fill hturn hfree hlegal hpushed
      rw [← hslot] at hstocked ⊢
      exact hstocked.mono hext.pushed
  | taken e t hslot hne =>
    have ht : P.slot t = P.ticketSlot (s.locals i).ticket := congrArg P.slot hfits
    refine ⟨filled, _, ?_, hl.pops.serve (hheld .consumer) ?_ (hothers _)
      (hs.apart huncrowded .consumer), ?_⟩
    · rw [held_update_of_eq ((hheld' .producer).trans (hheld .producer).symm)]
      exact hl.pushes
    · exact (congrArg (Caller.held .consumer) hown).trans (hheld' .consumer)
    · rw [← hslot, ht] at hne
      have hstocked := hl.stocked.empty hne
      rw [← ht] at hstocked ⊢
      exact hstocked.mono hext.pushed

end Lines

section Run
variable {ι : Type*} [DecidableEq ι] [DecidableEq T] {s : State ι (History P) (Caller T)}

def uncrowded : State ι (History P) (Caller T) → ι → Act T → Prop := fun s _ _ => Uncrowded s

instance [Fintype ι] (s : State ι (History P) (Caller T)) (i : ι) (a : Act T) :
    Decidable (uncrowded s i a) :=
  inferInstanceAs (Decidable (Uncrowded s))

theorem run_untimed {ok : State ι (History P) (Caller T) → ι → Act T → Prop}
    (h : Run (timed P) ok (noCallers P) s) :
    Run (threads P) anyStep (idleThreads P) (s.map History.traced Caller.call) :=
  h.project (f := History.traced) (g := Caller.call) fun _ _ a _ _ _ hstep =>
    .inr ⟨a, trivial, threads_of_timed hstep⟩

omit [DecidableEq ι] [DecidableEq T] in
theorem clocked_noCallers : Clocked (noCallers P : State ι (History P) (Caller T)) :=
  ⟨⟨rfl, nofun, nofun, nofun, .nil, nofun⟩, fun _ => ⟨fun h => absurd rfl h, trivial, nofun, nofun⟩,
    fun _ _ _ _ h => nomatch h⟩

omit [DecidableEq ι] [DecidableEq T] in
theorem lined_noCallers :
    Lined (fun _ => 0) (fun _ => 0) (noCallers P : State ι (History P) (Caller T)) :=
  ⟨line_start, line_start, stocked_start⟩

structure Fifo (h : History P) : Prop where
  /-- a pop returns the element of the push with the same ticket -/
  matched : ∀ x ∈ h.entries, h.pushed[x.ticket]? = some x.element
  /-- no two pushes and no two pops have the same ticket -/
  distinct : h.entries.Pairwise fun x y => x.side = y.side → x.ticket ≠ y.ticket
  /-- a call that returned before another was begun has the lower ticket -/
  ordered : ∀ x ∈ h.entries, ∀ y ∈ h.entries, x.side = y.side → x.ended ≤ y.began →
    x.ticket < y.ticket
  /-- of two elements pushed one after the other, the second is not taken before the first -/
  overtakes : ∀ x ∈ h.entries, ∀ y ∈ h.entries, x.side = y.side → x.ended ≤ y.began →
    ∀ x' ∈ h.entries, ∀ y' ∈ h.entries, x'.side = y'.side → x'.ticket = x.ticket →
      y'.ticket = y.ticket → ¬ y'.ended ≤ x'.began

omit [DecidableEq T] in
theorem Recorded.fifo {h : History P} (hr : Recorded h) : Fifo h := by
  refine ⟨hr.matched, hr.distinct, hr.ordered,
    fun x hx y hy hside hle x' hx' y' hy' hside' hsame hsame' hle' => ?_⟩
  have hlt := hr.ordered x hx y hy hside hle
  have hlt' := hr.ordered y' hy' x' hx' hside'.symm hle'
  omega

omit [DecidableEq T] in
theorem length_admitted {t : Traced P} {pushed : List T} (h : pushed.length = t.pushTickets)
    (e : T) (q : Queue P) (ev : Event T) :
    (pushed ++ ev.admitted e).length = (t.record q ev).pushTickets := by
  rw [List.length_append, h]
  cases ev <;> rfl

/-- In every run in which no slot is waited for twice on one side, whatever the operations called
and however they interleave, the elements are taken in the order in which they were pushed. -/
theorem fifo_of_uncrowded (h : Run (timed P) uncrowded (noCallers P) s) : Fifo s.shared := by
  suffices hinv : Run (timed P) uncrowded (noCallers P) s ∧ Clocked s ∧
      (Uncrowded s → ∃ filled emptied, Lined filled emptied s) from hinv.2.1.recorded.fifo
  refine h.invariant ⟨.start, clocked_noCallers, fun _ => ⟨_, _, lined_noCallers⟩⟩
    fun s i a h' l' ⟨hrun, hs, hlined⟩ huncrowded hstep => ?_
  obtain ⟨filled, emptied, hl⟩ := hlined huncrowded
  refine ⟨.step hrun huncrowded (fire_eq_some.mpr ⟨_, _, hstep, rfl⟩), ?_⟩
  have hphase {l : Caller T} {pc : Pc T} (hpc : l.call = some pc) :
      callPhase l.call = pc.phase := by
    rw [hpc]
    rfl
  cases timed_move hstep with
  | @called c hidle =>
    refine ⟨hs.called c, fun _ => ⟨filled, emptied, hl.quiet rfl rfl fun side => ?_⟩⟩
    rw [Caller.held, Caller.held, hidle]
    cases c <;> rfl
  | finished hret =>
    refine ⟨hs.finished hret, fun _ => ⟨filled, emptied, hl.quiet rfl rfl fun side => ?_⟩⟩
    rw [Caller.held, Caller.held, hphase hret]
    rfl
  | @accessed pc pc' q ev hpc heff =>
    obtain ⟨hsound, hsane⟩ := threads_invariant (run_untimed hrun)
    have hfits := (hs.good i).fits
    rw [hphase hpc] at hfits
    have hs' := hs.accessed hpc heff (length_admitted hs.recorded.length _ q ev)
      (heff.fits hfits hs.recorded.length ⟨hsound.head, hsound.tail⟩ fun t ht hfull =>
        hl.getElem?_pushed hs ((hphase hpc).trans ht) hfull)
    exact ⟨hs', fun huncrowded' => hl.accessed hs huncrowded hpc heff (hsane i pc hpc) fun side =>
      hs'.apart huncrowded' side⟩

end Run

def wholeCall {ι : Type*} (i : ι) (c : Call ℕ) : List (ι × Act ℕ) :=
  [(i, .call c), (i, .access false), (i, .access false), (i, .access false)]

def pushUnderWay {ι : Type*} (i : ι) : List (ι × Act ℕ) :=
  [(i, .call (.push 5)), (i, .access false)]

theorem fifo_of_uncrowded_pushUnderWay :
    ∃ s : State (Fin 3) (History fourSlots) (Caller ℕ),
      exec (timed fourSlots) uncrowded (wholeCall 1 (.push 7) ++ pushUnderWay 0 ++
        wholeCall 2 .pop) (noCallers fourSlots) = some s ∧
      s.shared.entries = [⟨.producer, 0, 7, 0, 3⟩, ⟨.consumer, 0, 7, 6, 9⟩] ∧ Fifo s.shared := by
  obtain ⟨s, hs, hentries⟩ : ∃ s : State (Fin 3) (History fourSlots) (Caller ℕ),
      exec (timed fourSlots) uncrowded (wholeCall 1 (.push 7) ++ pushUnderWay 0 ++
        wholeCall 2 .pop) (noCallers fourSlots) = some s ∧
      s.shared.entries = [⟨.producer, 0, 7, 0, 3⟩, ⟨.consumer, 0, 7, 6, 9⟩] := ⟨_, rfl, rfl⟩
  exact ⟨s, hs, hentries, fifo_of_uncrowded (exec_run hs .start)⟩

/-- A push that waits for its slot lets the next one for it pass: of four elements that one thread
pushed, the last comes out first. -/
theorem not_fifo_pushUnderWay :
    ∃ s : State (Fin 3) (History fourSlots) (Caller ℕ),
      exec (timed fourSlots) anyStep (pushUnderWay 0 ++
        [7, 8, 9, 10].flatMap (fun element => wholeCall 1 (.push element)) ++
        wholeCall 2 .pop) (noCallers fourSlots) = some s ∧
      s.shared.pushed = [5, 7, 8, 9, 10] ∧ ¬ Fifo s.shared := by
  obtain ⟨s, hs, hpushed, hentries⟩ : ∃ s : State (Fin 3) (History fourSlots) (Caller ℕ),
      exec (timed fourSlots) anyStep (pushUnderWay 0 ++
        [7, 8, 9, 10].flatMap (fun element => wholeCall 1 (.push element)) ++
        wholeCall 2 .pop) (noCallers fourSlots) = some s ∧
      s.shared.pushed = [5, 7, 8, 9, 10] ∧
      s.shared.entries.getLast? = some ⟨.consumer, 0, 10, 18, 21⟩ := ⟨_, rfl, rfl, rfl⟩
  refine ⟨s, hs, hpushed, fun hfifo => ?_⟩
  have hmatched := hfifo.matched _ (List.mem_of_getLast? hentries)
  rw [hpushed] at hmatched
  cases hmatched

end ItcPlatform.LockFreeQueue
