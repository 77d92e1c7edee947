import ItcPlatform.LockFreeQueue.Stream

/-! Lost races. A compare-exchange of a try operation that does not fail by chance has lost its
counter to a ticket of another thread, and no ticket beats the same thread twice. -/

namespace ItcPlatform.LockFreeQueue
open Interleaving
variable {T : Type*} {P : Params T}

def Traced.drawn (t : Traced P) : Side → ℕ
  | .producer => t.pushTickets
  | .consumer => t.popTickets

def Queue.counter (q : Queue P) : Side → BitVec 32
  | .producer => q.mHead
  | .consumer => q.mTail

def Event.tickets : Side → Event T → ℕ
  | .producer, .pushTicket | .consumer, .popTicket => 1
  | _, _ => 0

def Pc.carried : Side → Pc T → Option (BitVec 32)
  | .producer, .tryPushLoadTail _ head | .producer, .tryPushCasHead _ head => some head
  | .consumer, .tryPopLoadHead tail | .consumer, .tryPopCasTail tail => some tail
  | _, _ => none

def Pc.compared : Side → Pc T → Option (BitVec 32)
  | .producer, .tryPushCasHead _ head => some head
  | .consumer, .tryPopCasTail tail => some tail
  | _, _ => none

/-- A compare-exchange that finds its counter moved; a spurious failure is none. -/
def lostBy (side : Side) (q : Queue P) : Act T → Option (Pc T) → ℕ
  | .access false, some pc =>
    match pc.compared side with
    | some word => if q.counter side = word then 0 else 1
    | none => 0
  | _, _ => 0

structure Racer (T : Type*) where
  call : Option (Pc T)
  drawn : Side → ℕ
  lost : Side → ℕ

/-- A thread has lost no more races than others drew tickets before it read the counter. -/
def Paid (side : Side) (t : Traced P) (l : Racer T) : Prop :=
  ∃ n, l.lost side + l.drawn side ≤ n ∧ n ≤ t.drawn side ∧
    ∀ pc ∈ l.call, ∀ word ∈ pc.carried side, word = BitVec.ofNat 32 n

theorem drawn_record (side : Side) (t : Traced P) (q : Queue P) (ev : Event T) :
    (t.record q ev).drawn side = t.drawn side + ev.tickets side := by
  cases side <;> cases ev <;> rfl

inductive Move (side : Side) (q : Queue P) (pc pc' : Pc T) (ev : Event T) (lost : ℕ) : Prop
  | drew (ticket : ev.tickets side = 1) (left : pc'.carried side = none) (kept : lost = 0)
  | looked (ticket : ev.tickets side = 0) (counter : pc'.carried side = some (q.counter side))
      (one : lost ≤ 1) (moved : lost ≠ 0 → ∃ word ∈ pc.carried side, q.counter side ≠ word)
  | passed (ticket : ev.tickets side = 0)
      (carried : ∀ word ∈ pc'.carried side, word ∈ pc.carried side) (kept : lost = 0)

section Step
variable [DecidableEq T] {t : Traced P} {q q' : Queue P} {pc pc' : Pc T} {ev : Event T}
  {choice : Bool}

omit [DecidableEq T] in
theorem move_looked {side : Side} {word : BitVec 32} (ticket : ev.tickets side = 0)
    (hcarried : pc.carried side = some word) (hcompared : pc.compared side = some word)
    (counter : pc'.carried side = some (q.counter side)) :
    Move side q pc pc' ev (lostBy side q (.access choice) (some pc)) := by
  have hlost : lostBy side q (.access choice) (some pc) =
      if choice = false ∧ q.counter side ≠ word then 1 else 0 := by
    cases choice <;> simp [lostBy, hcompared]
  rw [hlost]
  split_ifs with hmoved
  · exact .looked ticket counter le_rfl fun _ => ⟨word, hcarried, hmoved.2⟩
  · exact .looked ticket counter zero_le_one fun hne => absurd rfl hne

omit [DecidableEq T] in
theorem move_passed {side : Side} {lost : ℕ} (ticket : ev.tickets side = 0)
    (left : pc'.carried side = none) (kept : lost = 0) : Move side q pc pc' ev lost := by
  refine .passed ticket (fun word hword => ?_) kept
  rw [left] at hword
  cases hword

theorem step_move (side : Side) (h : step P choice q pc = some (q', pc', ev)) :
    Move side q pc pc' ev (lostBy side q (.access choice) (some pc)) := by
  cases pc <;> simp only [step] at h <;> (repeat' split at h) <;>
    simp only [Option.some.injEq, Prod.mk.injEq, reduceCtorEq] at h
  all_goals obtain ⟨rfl, rfl, rfl⟩ := h
  case tryPushCasHead.isTrue e head hcas =>
    obtain ⟨rfl, rfl⟩ := hcas
    cases side with
    | producer => exact .drew rfl rfl (if_pos rfl)
    | consumer => exact move_passed rfl rfl rfl
  case tryPopCasTail.isTrue tail hcas =>
    obtain ⟨rfl, rfl⟩ := hcas
    cases side with
    | producer => exact move_passed rfl rfl rfl
    | consumer => exact .drew rfl rfl (if_pos rfl)
  case tryPushCasHead.isFalse e head hcas =>
    cases side with
    | producer => exact move_looked rfl rfl rfl rfl
    | consumer => cases choice <;> exact move_passed rfl rfl rfl
  case tryPopCasTail.isFalse tail hcas =>
    cases side with
    | producer => cases choice <;> exact move_passed rfl rfl rfl
    | consumer => exact move_looked rfl rfl rfl rfl
  all_goals cases side <;> cases choice
  all_goals first
    | exact .drew rfl rfl rfl
    | exact .looked rfl rfl zero_le_one fun hne => absurd rfl hne
    | exact .passed rfl (fun _ h => h) rfl
    | exact move_passed rfl rfl rfl

end Step

section Run
variable [DecidableEq T] {ι : Type*} {t t' : Traced P} {l l' : Racer T} {i : ι} {a : Act T}

def racing (P : Params T) : Program ι (Act T) (Traced P) (Racer T) := fun i a t l =>
  (threads P i a t l.call).map fun r => (r.1,
    { call := r.2
      drawn := fun side => l.drawn side + (r.1.drawn side - t.drawn side)
      lost := fun side => l.lost side + lostBy side t.queue a l.call })

def noRacers (P : Params T) : State ι (Traced P) (Racer T) :=
  ⟨.new P, fun _ => ⟨none, fun _ => 0, fun _ => 0⟩⟩

omit [DecidableEq T] in
theorem carried_start (side : Side) (c : Call T) : c.start.carried side = none := by
  cases side <;> cases c <;> rfl

theorem racing_cases (h : racing P i a t l = some (t', l')) :
    threads P i a t l.call = some (t', l'.call) ∧
    ((t' = t ∧ l'.drawn = l.drawn ∧ l'.lost = l.lost ∧
      ∀ side, ∀ pc ∈ l'.call, pc.carried side = none) ∨
    ∃ choice pc q pc' ev, l.call = some pc ∧ l'.call = some pc' ∧
      step P choice t.queue pc = some (q, pc', ev) ∧ t' = t.record q ev ∧
      ∀ side, l'.drawn side = l.drawn side + ev.tickets side ∧
        l'.lost side = l.lost side + lostBy side t.queue (.access choice) (some pc)) := by
  obtain ⟨⟨t₁, call⟩, hthread, heq⟩ := Option.map_eq_some_iff.mp h
  obtain ⟨rfl, rfl⟩ := Prod.mk.inj heq
  refine ⟨hthread, ?_⟩
  obtain ⟨lcall, drawn, lost⟩ := l
  dsimp only at hthread ⊢
  unfold threads at hthread
  split at hthread
  · split_ifs at hthread
    obtain ⟨rfl, rfl⟩ := by simpa using hthread
    refine .inl ⟨rfl, funext fun side => ?_, rfl, ?_⟩
    · exact (congrArg (drawn side + ·) (Nat.sub_self _)).trans (Nat.add_zero _)
    · rintro side _ ⟨⟩
      exact carried_start side _
  · rename_i choice ret
    obtain ⟨rfl, rfl⟩ := by simpa using hthread
    refine .inl ⟨rfl, funext fun side => ?_, funext fun side => ?_, nofun⟩
    · exact (congrArg (drawn side + ·) (Nat.sub_self _)).trans (Nat.add_zero _)
    · cases choice <;> cases side <;> rfl
  · rename_i choice pc _
    obtain ⟨⟨q, pc', ev⟩, hstep, heq⟩ := Option.map_eq_some_iff.mp hthread
    obtain ⟨rfl, rfl⟩ := by simpa using heq
    refine .inr ⟨choice, pc, q, pc', ev, rfl, rfl, hstep, rfl, fun side => ⟨?_, rfl⟩⟩
    rw [drawn_record, Nat.add_sub_cancel_left]
  · cases hthread

omit [DecidableEq T] in
theorem Paid.of_le {side : Side} (h : Paid side t l) (hle : t.drawn side ≤ t'.drawn side) :
    Paid side t' l := by
  obtain ⟨n, hpaid, hn, hword⟩ := h
  exact ⟨n, hpaid, hn.trans hle, hword⟩

theorem Traced.Sound.counter (h : t.Sound) (side : Side) :
    t.queue.counter side = BitVec.ofNat 32 (t.drawn side) := by
  cases side with
  | producer => exact h.head
  | consumer => exact h.tail

theorem Paid.step {side : Side} (hsound : t.Sound) (h : Paid side t l)
    (hstep : racing P i a t l = some (t', l')) : Paid side t' l' := by
  obtain ⟨n, hpaid, hn, hword⟩ := h
  obtain ⟨-, ⟨rfl, hdrawn, hlost, hcarried⟩ | ⟨choice, pc, q, pc', ev, hpc, hpc', haccess, rfl,
    htallies⟩⟩ := racing_cases hstep
  · refine ⟨n, hdrawn ▸ hlost ▸ hpaid, hn, fun pc hpc word hword => ?_⟩
    rw [hcarried side pc hpc] at hword
    cases hword
  obtain ⟨hdrawn, hlost⟩ := htallies side
  have hrecord := drawn_record side t q ev
  have hcall (word : BitVec 32) (n : ℕ) (hcarried : ∀ word' ∈ pc'.carried side, word' = word)
      (hn : word = BitVec.ofNat 32 n) : ∀ pc ∈ l'.call, ∀ word ∈ pc.carried side,
        word = BitVec.ofNat 32 n := fun pc₁ hpc₁ word' hword' => by
    obtain rfl : pc' = pc₁ := Option.some.inj (hpc'.symm.trans hpc₁)
    exact (hcarried word' hword').trans hn
  cases step_move side haccess with
  | drew ticket left kept =>
    refine ⟨t.drawn side + 1, by omega, by omega, hcall _ _ ?_ rfl⟩
    rw [left]
    nofun
  | looked ticket counter one moved =>
    refine ⟨t.drawn side, ?_, by omega, hcall _ _ ?_ (hsound.counter side)⟩
    · by_cases hzero : lostBy side t.queue (.access choice) (some pc) = 0
      · omega
      · obtain ⟨word, hcarried, hne⟩ := moved hzero
        have hmissed : n ≠ t.drawn side := by
          rintro rfl
          exact hne ((hsound.counter side).trans (hword pc hpc word hcarried).symm)
        omega
    · rw [counter]
      rintro _ ⟨⟩
      rfl
  | passed ticket carried kept =>
    refine ⟨n, by omega, by omega, fun pc₁ hpc₁ word hword' => ?_⟩
    obtain rfl : pc' = pc₁ := Option.some.inj (hpc'.symm.trans hpc₁)
    exact hword pc hpc word (carried word hword')

variable [Fintype ι] [DecidableEq ι] {s : State ι (Traced P) (Racer T)}

omit [Fintype ι] in
theorem run_calls (h : Run (racing P) anyStep (noRacers P) s) :
    Run (threads P) anyStep (idleThreads P) (s.map id Racer.call) :=
  h.project (f := id) (g := Racer.call) fun _ _ a _ _ _ hstep =>
    .inr ⟨a, trivial, (racing_cases hstep).1⟩

structure Racing (s : State ι (Traced P) (Racer T)) : Prop where
  drawn : ∀ side, s.shared.drawn side = ∑ i, (s.locals i).drawn side
  paid : ∀ side i, Paid side s.shared (s.locals i)

omit [DecidableEq T] [DecidableEq ι] in
theorem racing_noRacers : Racing (noRacers P : State ι (Traced P) (Racer T)) := by
  refine ⟨fun side => ?_, fun side i => ⟨0, le_rfl, Nat.zero_le _, nofun⟩⟩
  cases side <;> simp [noRacers, Traced.drawn, Traced.new]

theorem Racing.step (hs : Racing s) (hsound : s.shared.Sound)
    (hstep : racing P i a s.shared (s.locals i) = some (t, l)) :
    Racing ⟨t, Function.update s.locals i l⟩ := by
  have hticket (side : Side) : ∃ n, t.drawn side = s.shared.drawn side + n ∧
      l.drawn side = (s.locals i).drawn side + n := by
    obtain ⟨-, ⟨rfl, hsame, -⟩ | ⟨_, pc, q, pc', ev, -, -, -, rfl, htallies⟩⟩ :=
      racing_cases hstep
    · exact ⟨0, rfl, congrFun hsame side⟩
    · exact ⟨ev.tickets side, drawn_record side _ q ev, (htallies side).1⟩
  refine ⟨fun side => ?_, fun side => ?_⟩
  · obtain ⟨n, ht, hl⟩ := hticket side
    have hsum := sum_update (fun l : Racer T => l.drawn side) s.locals i l
    have hbefore := hs.drawn side
    dsimp only at hsum ⊢
    omega
  · refine forall_update (hs.paid side) ((hs.paid side i).step hsound hstep) fun j _ hj =>
      hj.of_le ?_
    obtain ⟨n, ht, -⟩ := hticket side
    exact Nat.le.intro ht.symm

theorem racing_run (h : Run (racing P) anyStep (noRacers P) s) : Racing s := by
  refine (h.invariant (I := fun s => Run (racing P) anyStep (noRacers P) s ∧ Racing s)
    ⟨.start, racing_noRacers⟩ fun s i a t l ⟨hrun, hs⟩ hok hstep => ?_).2
  exact ⟨.step hrun hok (fire_eq_some.mpr ⟨t, l, hstep, rfl⟩),
    hs.step (threads_invariant (run_calls hrun)).1 hstep⟩

/-- In every run, whatever the operations called and however they interleave, a thread loses at
most one race for a counter for each ticket that the other threads draw from it. -/
theorem lost_le_drawn_by_others (h : Run (racing P) anyStep (noRacers P) s) (side : Side) (i : ι) :
    (s.locals i).lost side ≤ ∑ j ∈ Finset.univ.erase i, (s.locals j).drawn side := by
  obtain ⟨hdrawn, hpaid⟩ := racing_run h
  obtain ⟨n, hle, hn, -⟩ := hpaid side i
  have hsum := Finset.sum_erase_add Finset.univ (fun j => (s.locals j).drawn side)
    (Finset.mem_univ i)
  have hall := hdrawn side
  omega

end Run

def racingPushes {ι : Type*} (i j : ι) : List (ι × Act ℕ) :=
  [(i, .call (.tryPush 7)), (j, .call (.tryPush 8)), (i, .access false), (j, .access false),
    (i, .access false), (j, .access false), (i, .access false), (j, .access false)]

theorem lost_le_drawn_by_others_racingPushes :
    ∃ s : State (Fin 2) (Traced fourSlots) (Racer ℕ),
      exec (racing fourSlots) anyStep (racingPushes 0 1) (noRacers fourSlots) = some s ∧
      (s.locals 1).lost .producer = 1 ∧
      (s.locals 1).lost .producer ≤
        ∑ j ∈ Finset.univ.erase 1, (s.locals j).drawn .producer := by
  obtain ⟨s, hs, hlost⟩ : ∃ s : State (Fin 2) (Traced fourSlots) (Racer ℕ),
      exec (racing fourSlots) anyStep (racingPushes 0 1) (noRacers fourSlots) = some s ∧
        (s.locals 1).lost .producer = 1 := ⟨_, rfl, rfl⟩
  exact ⟨s, hs, hlost, lost_le_drawn_by_others (exec_run hs .start) .producer 1⟩

end ItcPlatform.LockFreeQueue
