import ItcPlatform.Lib.Window
import ItcPlatform.LockFreeQueue.Spsc

/-! One producer and one consumer, in either mode of the queue: the consumer receives the
elements in the order in which they were pushed. -/

namespace ItcPlatform.LockFreeQueue
open Interleaving
variable {T : Type*}

inductive Side
  | producer
  | consumer
  deriving DecidableEq

def Side.Issues (P : Params T) : Side → Call T → Prop
  | producer, .push e | producer, .tryPush e => e ≠ P.nil
  | consumer, .pop | consumer, .tryPop => True
  | _, .size => True
  | _, _ => False

def Phase.Of (P : Params T) : Side → Phase T → Prop
  | .producer, wantsPush e | .producer, storing e _ => e ≠ P.nil
  | .producer, wantsPop | .producer, emptying _ | .producer, returned (.popped _) => False
  | .consumer, wantsPush _ | .consumer, storing _ _ => False
  | _, _ => True

def Phase.inHand : Phase T → List T
  | storing e _ | returned (.popped e) => [e]
  | _ => []

/-- The queue, the elements whose push got its ticket, and those that pops returned. -/
structure Stream (P : Params T) where
  traced : Traced P
  pushed : List T
  received : List T

namespace Stream
variable {P : Params T}

def admitted (f : Phase T) : Event T → List T
  | .pushTicket =>
    match f with
    | .wantsPush e => [e]
    | _ => []
  | _ => []

def record (st : Stream P) (f : Phase T) (q : Queue P) (ev : Event T) : Stream P :=
  { st with traced := st.traced.record q ev, pushed := st.pushed ++ admitted f ev }

def returned : Ret T → List T
  | .popped e => [e]
  | _ => []

def finish (st : Stream P) (ret : Ret T) : Stream P :=
  { st with received := st.received ++ returned ret }

end Stream

instance (P : Params T) [DecidableEq T] (side : Side) (c : Call T) :
    Decidable (side.Issues P c) :=
  match side, c with
  | .producer, .push e | .producer, .tryPush e => inferInstanceAs (Decidable (e ≠ P.nil))
  | .consumer, .pop | .consumer, .tryPop | .producer, .size | .consumer, .size => .isTrue trivial
  | .producer, .pop | .producer, .tryPop | .consumer, .push _ | .consumer, .tryPush _ => .isFalse id

section Invariant
variable {P : Params T}

/-- A thread outside any call is where `size` is: it owes nothing. -/
def phaseOf (l : Option (ModePc T)) : Phase T := l.elim .measuring ModePc.phase

structure Producing (st : Stream P) (f : Phase T) : Prop where
  account : st.traced.pushTickets = st.traced.stored.length + f.toStore
  inHand : st.pushed = st.traced.stored ++ f.inHand
  ticket : ∀ e t, f = .storing e t → t = BitVec.ofNat 32 st.traced.stored.length

structure Consuming (st : Stream P) (f : Phase T) : Prop where
  account : st.traced.popTickets = st.traced.taken.length + f.toTake
  inHand : st.traced.taken = st.received ++ f.inHand
  ticket : ∀ t, f = .emptying t → t = BitVec.ofNat 32 st.traced.taken.length

def Traced.Windowed (t : Traced P) : Prop := ∃ rest, t.stored = t.taken ++ rest ∧
  Window P.ticketSlot P.nil t.queue.mQueue t.taken.length rest

section Effect
variable {st : Stream P} {t : Traced P} {q : Queue P} {f f' g : Phase T} {ev : Event T}

theorem Effect.windowed (h : Effect P t.queue f ev q f') (hw : t.Windowed) (hf : f.Legal P)
    (hstoring : ∀ e k, f = .storing e k → k = BitVec.ofNat 32 t.stored.length)
    (hemptying : ∀ k, f = .emptying k → k = BitVec.ofNat 32 t.taken.length) :
    (t.record q ev).Windowed := by
  obtain ⟨rest, hrest, hwindow⟩ := hw
  cases h with
  | stored e k hnil =>
    have hlen : t.stored.length = t.taken.length + rest.length := by
      rw [hrest, List.length_append]
    have hk : P.slot k = P.ticketSlot (t.taken.length + rest.length) := by
      rw [hstoring e k rfl, hlen]
      rfl
    rw [hk] at hnil ⊢
    refine ⟨rest ++ [e], ?_, hwindow.write hnil hf⟩
    simp only [Traced.record, hrest, List.append_assoc]
  | taken e k hx hne =>
    have hk : P.slot k = P.ticketSlot t.taken.length := by
      rw [hemptying k rfl]
      rfl
    subst hx
    rw [hk] at hne ⊢
    obtain ⟨rest', rfl, hwindow'⟩ := hwindow.read hne
    refine ⟨rest', ?_, ?_⟩
    · simp only [Traced.record, hrest, List.append_assoc, List.singleton_append]
    · simpa only [Traced.record, List.length_append, List.length_singleton] using hwindow'
  | _ => exact ⟨rest, hrest, hwindow⟩

theorem Producing.effect (hp : Producing st f) (h : Effect P st.traced.queue f ev q f')
    (hhead : st.traced.queue.mHead = BitVec.ofNat 32 st.traced.pushTickets)
    (hf : f.Of P .producer) : Producing (st.record f q ev) f' := by
  have haccount := h.push_account
  have hticket := hp.ticket
  obtain ⟨hcount, hinHand, -⟩ := hp
  refine ⟨by simp only [Stream.record] at haccount ⊢; omega, ?_, ?_⟩
  · cases h with
    | refusePop | popTicket | taken => exact hf.elim
    | _ => simp_all [Stream.record, Stream.admitted, Traced.record, Phase.inHand]
  · rintro e t rfl
    cases h with
    | stay => exact hticket e t rfl
    | pushTicket => rw [hhead, hcount]; rfl

theorem Consuming.effect (hc : Consuming st f) (h : Effect P st.traced.queue f ev q f')
    (htail : st.traced.queue.mTail = BitVec.ofNat 32 st.traced.popTickets)
    (hf : f.Of P .consumer) : Consuming (st.record f q ev) f' := by
  have haccount := h.pop_account
  have hticket := hc.ticket
  obtain ⟨hcount, hinHand, -⟩ := hc
  refine ⟨by simp only [Stream.record] at haccount ⊢; omega, ?_, ?_⟩
  · cases h with
    | refusePush | pushTicket | stored => exact hf.elim
    | _ => simp_all [Stream.record, Traced.record, Phase.inHand]
  · rintro t rfl
    cases h with
    | stay => exact hticket t rfl
    | popTicket => rw [htail, hcount]; rfl

theorem Producing.other (hp : Producing st g) (h : Effect P st.traced.queue f ev q f')
    (hf : f.Of P .consumer) : Producing (st.record f q ev) g := by
  have hadmitted : Stream.admitted f ev = [] := by
    cases h <;> first | rfl | exact hf.elim
  obtain ⟨hcount, hinHand, hticket⟩ := hp
  cases h with
  | pushTicket | stored => exact hf.elim
  | _ =>
    refine ⟨hcount, ?_, hticket⟩
    rw [Stream.record, hadmitted, List.append_nil]
    exact hinHand

theorem Consuming.other (hc : Consuming st g) (h : Effect P st.traced.queue f ev q f')
    (hf : f.Of P .producer) : Consuming (st.record f q ev) g := by
  cases h with
  | popTicket | taken => exact hf.elim
  | _ => exact ⟨hc.account, hc.inHand, hc.ticket⟩

theorem Producing.begin (hp : Producing st .measuring) (hstore : f.toStore = 0)
    (hhand : f.inHand = []) : Producing st f := by
  refine ⟨by rw [hstore]; exact hp.account, by rw [hhand]; exact hp.inHand, ?_⟩
  rintro e t rfl
  cases hstore

theorem Consuming.begin (hc : Consuming st .measuring) (htake : f.toTake = 0)
    (hhand : f.inHand = []) : Consuming st f := by
  refine ⟨by rw [htake]; exact hc.account, by rw [hhand]; exact hc.inHand, ?_⟩
  rintro t rfl
  cases htake

theorem Effect.of {side : Side} (h : Effect P st.traced.queue f ev q f') (hf : f.Of P side) :
    f'.Of P side := by
  cases h <;> first | exact hf | (cases side <;> first | exact trivial | exact hf.elim)

/-- The other side's accesses leave alone what a call has loaded: the counters belong to one
side each, and a slot in use is only ever emptied by the consumer and filled by the producer. -/
theorem Effect.fresh_other {q q' : Queue P} {f f' : Phase T} {ev : Event T} {side other : Side}
    {pc : ModePc T} (h : Effect P q f ev q' f') (hf : f.Of P side) (hne : side ≠ other)
    (hpc : pc.phase.Of P other) (hfresh : pc.Fresh q) : pc.Fresh q' := by
  cases pc with
  | inl => exact trivial
  | inr pc =>
    cases other with
    | producer =>
      obtain rfl : side = .consumer := by cases side <;> first | rfl | exact absurd rfl hne
      cases h with
      | pushTicket | stored => exact hf.elim
      | taken e k hx hne =>
        cases pc <;> try first | exact hfresh | exact hpc.elim
        case doPushStore x k' =>
          by_cases hk : P.slot k' = P.slot k
          · exact (congrArg _ hk).trans (Function.update_self _ _ _)
          · exact (Function.update_of_ne hk _ _).trans hfresh
      | _ => cases pc <;> first | exact hfresh | exact hpc.elim
    | consumer =>
      obtain rfl : side = .producer := by cases side <;> first | rfl | exact absurd rfl hne
      cases h with
      | popTicket | taken => exact hf.elim
      | stored e k hnil =>
        cases pc <;> try first | exact hfresh | exact hpc.elim
        case doPopStore k' x =>
          have hk : P.slot k' ≠ P.slot k := fun he => by
            obtain ⟨hx, hne⟩ := hfresh
            exact hne (hx.symm.trans ((congrArg _ he).trans hnil))
          exact ⟨(Function.update_of_ne hk _ _).trans hfresh.1, hfresh.2⟩
      | _ => cases pc <;> first | exact hfresh | exact hpc.elim

end Effect

end Invariant

variable [DecidableEq T]

def stream (P : Params T) (isSpsc : Bool) :
    Program Side (Act T) (Stream P) (Option (ModePc T)) := fun side a st l =>
  match a, l with
  | .call c, none => if side.Issues P c then some (st, some (c.begin isSpsc)) else none
  | .access choice, some pc =>
    match pc.ret? with
    | some ret => some (st.finish ret, none)
    | none => (modeStep P choice st.traced.queue pc).map fun r =>
      (st.record pc.phase r.1 r.2.2, some r.2.1)
  | _, _ => none

def newStream (P : Params T) : State Side (Stream P) (Option (ModePc T)) :=
  ⟨⟨.new P, [], []⟩, fun _ => none⟩

inductive StreamMove (P : Params T) (side : Side) (st : Stream P) :
    Option (ModePc T) → Stream P → Option (ModePc T) → Prop
  | called {pc : ModePc T} (hof : pc.phase.Of P side) (hfresh : pc.Fresh st.traced.queue)
      (hstart : pc.phase.toStore = 0 ∧ pc.phase.toTake = 0 ∧ pc.phase.inHand = []) :
      StreamMove P side st none st (some pc)
  | finished {pc : ModePc T} {ret : Ret T} (hret : pc.phase = .returned ret) :
      StreamMove P side st (some pc) (st.finish ret) none
  | accessed {pc pc' : ModePc T} {choice : Bool} {q : Queue P} {ev : Event T}
      (hstep : modeStep P choice st.traced.queue pc = some (q, pc', ev)) :
      StreamMove P side st (some pc) (st.record pc.phase q ev) (some pc')

theorem stream_move {P : Params T} {isSpsc : Bool} {side : Side} {a : Act T} {st st' : Stream P}
    {l l' : Option (ModePc T)} (h : stream P isSpsc side a st l = some (st', l')) :
    StreamMove P side st l st' l' := by
  unfold stream at h
  split at h
  · rename_i c
    split_ifs at h with hc
    obtain ⟨rfl, rfl⟩ := by simpa using h
    refine .called ?_ (begin_fresh _ isSpsc c) ?_
    · rw [begin_phase]
      cases side <;> cases c <;> exact hc
    · rw [begin_phase]
      cases c <;> exact ⟨rfl, rfl, rfl⟩
  · rename_i choice pc
    split at h
    · rename_i ret hret
      obtain ⟨rfl, rfl⟩ := by simpa using h
      exact .finished (ModePc.phase_of_ret? hret)
    · obtain ⟨⟨q, pc', ev⟩, hstep, heq⟩ := Option.map_eq_some_iff.mp h
      obtain ⟨rfl, rfl⟩ := by simpa using heq
      exact .accessed hstep
  · cases h

section Run
variable {P : Params T} {s : State Side (Stream P) (Option (ModePc T))}

def Proper (st : Stream P) (side : Side) (l : Option (ModePc T)) : Prop :=
  (phaseOf l).Of P side ∧ ∀ pc ∈ l, pc.Fresh st.traced.queue

structure Streaming (s : State Side (Stream P) (Option (ModePc T))) : Prop where
  sound : s.shared.traced.Sound
  windowed : s.shared.traced.Windowed
  proper : ∀ side, Proper s.shared side (s.locals side)
  producing : Producing s.shared (phaseOf (s.locals .producer))
  consuming : Consuming s.shared (phaseOf (s.locals .consumer))

theorem streaming_new : Streaming (newStream P) :=
  ⟨Traced.sound_new, ⟨[], rfl, .empty fun _ => rfl⟩,
    fun side => ⟨by cases side <;> exact trivial, nofun⟩, ⟨rfl, rfl, nofun⟩, ⟨rfl, rfl, nofun⟩⟩

variable {side : Side} {st' : Stream P} {l' : Option (ModePc T)}

theorem Streaming.called (hs : Streaming s) (hidle : s.locals side = none) {pc : ModePc T}
    (hof : pc.phase.Of P side) (hfresh : pc.Fresh s.shared.traced.queue)
    (hstart : pc.phase.toStore = 0 ∧ pc.phase.toTake = 0 ∧ pc.phase.inHand = []) :
    Streaming ⟨s.shared, Function.update s.locals side (some pc)⟩ := by
  obtain ⟨hstore, htake, hhand⟩ := hstart
  have hown : Proper s.shared side (some pc) := ⟨hof, by rintro _ ⟨⟩; exact hfresh⟩
  refine ⟨hs.sound, hs.windowed, forall_update (K := Proper s.shared) hs.proper hown fun _ _ h => h,
    ?_, ?_⟩
  · have hp := hs.producing
    cases side with
    | producer =>
      rw [hidle] at hp
      exact hp.begin hstore hhand
    | consumer => exact hp
  · have hc := hs.consuming
    cases side with
    | consumer =>
      rw [hidle] at hc
      exact hc.begin htake hhand
    | producer => exact hc

theorem Streaming.finished (hs : Streaming s) {pc : ModePc T} {ret : Ret T}
    (hpc : s.locals side = some pc) (hret : pc.phase = .returned ret) :
    Streaming ⟨s.shared.finish ret, Function.update s.locals side none⟩ := by
  have hphase : phaseOf (s.locals side) = .returned ret := by rw [hpc]; exact hret
  have hof := (hs.proper side).1
  have hp := hs.producing
  have hc := hs.consuming
  have hown : Proper s.shared side none := ⟨by cases side <;> exact trivial, nofun⟩
  refine ⟨hs.sound, hs.windowed, forall_update (K := Proper s.shared) hs.proper hown fun _ _ h => h,
    ?_, ?_⟩
  · cases side with
    | producer =>
      rw [hphase] at hp hof
      refine ⟨hp.account, hp.inHand.trans ?_, nofun⟩
      cases ret <;> first | rfl | exact hof.elim
    | consumer => exact ⟨hp.account, hp.inHand, hp.ticket⟩
  · cases side with
    | consumer =>
      rw [hphase] at hc
      refine ⟨hc.account, hc.inHand.trans ?_, nofun⟩
      cases ret <;> simp [Stream.finish, Stream.returned, Phase.inHand, phaseOf]
    | producer =>
      rw [hphase] at hof
      have hnone : Stream.returned ret = [] := by
        cases ret <;> first | rfl | exact hof.elim
      refine ⟨hc.account, ?_, hc.ticket⟩
      rw [Stream.finish, hnone, List.append_nil]
      exact hc.inHand

theorem Streaming.accessed (hs : Streaming s) {pc pc' : ModePc T} {choice : Bool} {q : Queue P}
    {ev : Event T} (hpc : s.locals side = some pc)
    (hstep : modeStep P choice s.shared.traced.queue pc = some (q, pc', ev)) :
    Streaming ⟨s.shared.record pc.phase q ev, Function.update s.locals side (some pc')⟩ := by
  have hphase : phaseOf (s.locals side) = pc.phase := by rw [hpc]; rfl
  obtain ⟨heff, hfresh⟩ := modeStep_effect hstep ((hs.proper side).2 pc hpc)
  have hof := (hs.proper side).1
  rw [hphase] at hof
  have hp := hs.producing
  have hc := hs.consuming
  have hqueue : (s.shared.record pc.phase q ev).traced.queue = q := Traced.record_queue _ _ _
  have hlegal : pc.phase.Legal P := by
    cases side <;> cases hpc' : pc.phase <;> simp only [hpc'] at hof <;>
      first | exact trivial | exact hof | exact hof.elim
  have hown : Proper (s.shared.record pc.phase q ev) side (some pc') := by
    refine ⟨heff.of hof, ?_⟩
    rintro _ ⟨⟩
    rwa [hqueue]
  refine ⟨heff.sound hlegal hs.sound, ?_,
    forall_update (K := Proper (s.shared.record pc.phase q ev)) hs.proper hown
      fun other hne h => ⟨h.1, fun pc₂ hpc₂ => ?_⟩, ?_, ?_⟩
  · refine heff.windowed hs.windowed hlegal (fun e k he => ?_) fun k he => ?_
    · cases side with
      | producer => exact hp.ticket e k (hphase.trans he)
      | consumer => rw [he] at hof; exact hof.elim
    · cases side with
      | consumer => exact hc.ticket k (hphase.trans he)
      | producer => rw [he] at hof; exact hof.elim
  · have hof' : pc₂.phase.Of P other := by
      have := h.1
      rwa [hpc₂] at this
    rw [hqueue]
    exact heff.fresh_other hof (Ne.symm hne) hof' (h.2 pc₂ hpc₂)
  · cases side with
    | producer =>
      rw [hphase] at hp
      exact hp.effect heff hs.sound.head hof
    | consumer => exact hp.other heff hof
  · cases side with
    | consumer =>
      rw [hphase] at hc
      exact hc.effect heff hs.sound.tail hof
    | producer => exact hc.other heff hof

theorem streaming_of_run {isSpsc : Bool} (h : Run (stream P isSpsc) anyStep (newStream P) s) :
    Streaming s := by
  refine h.invariant streaming_new ?_
  intro s side a st' l' hs _ hstep
  have hm := stream_move hstep
  generalize hl : s.locals side = l at hm
  cases hm with
  | called hof hfresh hstart => exact hs.called hl hof hfresh hstart
  | finished hret => exact hs.finished hl hret
  | accessed hstep' => exact hs.accessed hl hstep'

/-- Whatever the mode and the order of the accesses, the elements received are a prefix of those
pushed, also when the tickets wrap around. -/
theorem received_prefix_pushed {isSpsc : Bool}
    (h : Run (stream P isSpsc) anyStep (newStream P) s) :
    s.shared.received <+: s.shared.pushed := by
  have hs := streaming_of_run h
  obtain ⟨rest, hrest, -⟩ := hs.windowed
  rw [hs.producing.inHand, hrest, hs.consuming.inHand, List.append_assoc, List.append_assoc]
  exact List.prefix_append _ _

end Run

def waitingPop : List (Side × Act ℕ) :=
  [(.consumer, .call .pop), (.producer, .call (.push 7)), (.consumer, .access false),
    (.consumer, .access false), (.consumer, .access false), (.producer, .access false),
    (.producer, .access false), (.producer, .access false), (.producer, .access false),
    (.consumer, .access false), (.consumer, .access false), (.consumer, .access false),
    (.producer, .access false), (.producer, .call (.tryPush 8)), (.producer, .access false),
    (.producer, .access false), (.producer, .access false)]

theorem received_prefix_pushed_waitingPop :
    ∃ s : State Side (Stream fourSlots) (Option (ModePc ℕ)),
      exec (stream fourSlots true) anyStep waitingPop (newStream fourSlots) = some s ∧
      s.shared.received = [7] ∧ s.shared.pushed = [7, 8] ∧
      s.shared.received <+: s.shared.pushed := by
  obtain ⟨s, hs, hreceived, hpushed⟩ : ∃ s : State Side (Stream fourSlots) (Option (ModePc ℕ)),
      exec (stream fourSlots true) anyStep waitingPop (newStream fourSlots) = some s ∧
        s.shared.received = [7] ∧ s.shared.pushed = [7, 8] := ⟨_, rfl, rfl, rfl⟩
  exact ⟨s, hs, hreceived, hpushed, received_prefix_pushed (exec_run hs .start)⟩

end ItcPlatform.LockFreeQueue
