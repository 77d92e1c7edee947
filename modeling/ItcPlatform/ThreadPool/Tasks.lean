import Mathlib.Data.Fintype.Card
import ItcPlatform.ThreadPool.WakeUp

/-! What becomes of the tasks a pool accepted: they leave the queue in the order in which they
came, and each is run once. With several workers they need not start in that order. -/

namespace ItcPlatform.ThreadPool
open Interleaving
variable {ι τ : Type*}

namespace Pc

def held : Pc ι τ → List τ
  | .holding task => [task]
  | _ => []

def inTask : Pc ι τ → List τ
  | .enqueueLocking _ caller | .enqueueHolding _ caller | .enqueueNotifying caller => caller.toList
  | .running task => [task]
  | _ => []

def inCritical : Pc ι τ → Bool
  | .enqueueHolding _ _ | .terminateHolding | .checking => true
  | _ => false

@[simp] theorem held_resume (caller : Option τ) : (Pc.resume caller : Pc ι τ).held = [] := by
  cases caller <;> rfl

@[simp] theorem inTask_resume (caller : Option τ) :
    (Pc.resume caller : Pc ι τ).inTask = caller.toList := by cases caller <;> rfl

theorem held_of_not_inLoop {pc : Pc ι τ} (h : pc.inLoop = false) : pc.held = [] := by
  cases pc <;> first | rfl | cases h

theorem inTask_of_not_inLoop {pc : Pc ι τ} (h : pc.inLoop = false) : pc.inTask = [] := by
  cases pc with
  | enqueueLocking _ caller | enqueueHolding _ caller | enqueueNotifying caller =>
    cases caller <;> first | rfl | cases h
  | running => cases h
  | _ => rfl

end Pc

inductive Passes : List τ → List τ → List τ → List τ → List τ → List τ → Prop
  | take (task : τ) (source sink : List τ) :
      Passes source [] sink (source ++ [task]) [task] sink
  | give (task : τ) (source sink : List τ) :
      Passes source [task] sink source [] (sink ++ [task])
  | keep (source hand sink : List τ) : Passes source hand sink source hand sink

namespace Passes
variable {source hand sink source' hand' sink' : List τ}

theorem balance (h : Passes source hand sink source' hand' sink') :
    (source' : Multiset τ) + (sink + hand) = source + (sink' + hand') := by
  cases h with
  | take task =>
    rw [← Multiset.coe_add, Multiset.coe_nil, add_zero, add_assoc, add_comm ([task] : Multiset τ)]
  | give task => simp only [← Multiset.coe_add, Multiset.coe_nil, add_zero]
  | keep => rfl

theorem inOrder (h : Passes source hand sink source' hand' sink') (hs : sink ++ hand = source) :
    sink' ++ hand' = source' := by
  cases h with
  | take task => simpa using hs
  | give task => simpa using hs
  | keep => exact hs

end Passes

section Step
variable [DecidableEq ι] {workers : List ι} {i : ι} {s s' : Pool ι τ} {pc pc' : Pc ι τ}

theorem Moves.fifo (h : Moves workers i s pc s' pc') (hs : s.dequeued ++ s.mTasks = s.accepted) :
    s'.dequeued ++ s'.mTasks = s'.accepted := by
  cases h with
  | accept task => simp [← hs]
  | dequeue task rest hcons => simp [← hs, hcons]
  | _ => exact hs

theorem Moves.refuses (h : Moves workers i s pc s' pc') (hs : s.mIsTerminated = true) :
    s'.accepted = s.accepted := by
  cases h with
  | accept _ _ hrunning => simp [hs] at hrunning
  | _ => rfl

theorem Moves.held (h : Moves workers i s pc s' pc') :
    Passes s.dequeued pc.held s.started s'.dequeued pc'.held s'.started := by
  cases h with
  | begin task => exact .give task _ _
  | dequeue task => exact .take task _ _
  | enqueue | refuse | notifyNobody | notifyOne =>
    rw [Pc.held_resume]
    exact .keep _ _ _
  | _ => exact .keep _ _ _

theorem Moves.inTask (h : Moves workers i s pc s' pc') :
    Passes s.started pc.inTask s.finished s'.started pc'.inTask s'.finished := by
  cases h with
  | finish task => exact .give task _ _
  | begin task => exact .take task _ _
  | enqueue | refuse | notifyNobody | notifyOne =>
    rw [Pc.inTask_resume]
    exact .keep _ _ _
  | _ => exact .keep _ _ _

theorem Moves.held_of_not_inLoop (h : Moves workers i s pc s' pc') (hpc : pc.inLoop = false) :
    s'.started = s.started ∧ s'.dequeued = s.dequeued := by
  cases h <;> first | exact ⟨rfl, rfl⟩ | cases hpc

theorem Moves.locked (h : Moves workers i s pc s' pc') :
    (s'.mTaskQueueMutex = some i ∧ pc'.inCritical = true) ∨ s'.mTaskQueueMutex = none ∨
      (s'.mTaskQueueMutex = s.mTaskQueueMutex ∧ pc.inCritical = false) := by
  cases h with
  | enqueueLock | terminateLock | lock => exact .inl ⟨rfl, rfl⟩
  | refuse | accept | setTerminated | wait | exit | dequeue => exact .inr (.inl rfl)
  | enqueue _ caller => exact .inr (.inr ⟨rfl, by cases caller <;> rfl⟩)
  | _ => exact .inr (.inr ⟨rfl, rfl⟩)

def Pc.Joins (workers : List ι) (s : Pool ι τ) : Pc ι τ → Prop
  | .joining rest => ∀ worker ∈ workers, worker ∈ rest ∨ worker ∈ s.exited
  | _ => True

theorem Moves.exitedMono (h : Moves workers i s pc s' pc') : s.exited ⊆ s'.exited := by
  cases h with
  | exit => exact Finset.subset_insert _ _
  | _ => exact subset_rfl

theorem Moves.joins (h : Moves workers i s pc s' pc') (hpc : pc.Joins workers s) :
    pc'.Joins workers s' := by
  cases h with
  | notifyAll => exact fun worker hmem => .inl hmem
  | join worker rest hexited =>
    intro other hmem
    rcases hpc other hmem with hrest | hother
    · rcases List.mem_cons.mp hrest with rfl | hrest
      · exact .inr hexited
      · exact .inl hrest
    · exact .inr hother
  | refuse _ caller | notifyNobody caller | notifyOne caller => cases caller <;> trivial
  | _ => trivial

theorem Moves.terminateReturned (h : Moves workers i s pc s' pc') (hpc : pc.Joins workers s)
    (hs : s.isTerminateReturned = true → ∀ worker ∈ workers, worker ∈ s.exited) :
    s'.isTerminateReturned = true → ∀ worker ∈ workers, worker ∈ s'.exited := by
  cases h with
  | leaveTerminate =>
    intro _ worker hmem
    exact (hpc worker hmem).resolve_left List.not_mem_nil
  | exit => exact fun h worker hmem => Finset.mem_insert_of_mem (hs h worker hmem)
  | _ => exact hs

theorem Moves.exitedSet (h : Moves workers i s pc s' pc') (hpc : i ∈ s.exited → pc = .exited) :
    (i ∈ s'.exited → pc' = .exited) ∧ ∀ j ≠ i, j ∈ s'.exited → j ∈ s.exited := by
  cases h with
  | exit => exact ⟨fun _ => rfl, fun j hj hmem => Finset.mem_of_mem_insert_of_ne hmem hj⟩
  | enqueue _ caller =>
    exact ⟨fun hmem => absurd (hpc hmem) (Pc.resume_ne_exited caller), fun _ _ h => h⟩
  | _ => exact ⟨fun hmem => absurd (hpc hmem) (by nofun), fun _ _ h => h⟩

end Step

structure Relies (workers : List ι) (s : Pool ι τ) (i : ι) (pc : Pc ι τ) : Prop where
  owner : s.mTaskQueueMutex = some i → pc.inCritical = true
  joins : pc.Joins workers s
  exited : i ∈ s.exited → pc = .exited

/-- What holds in every state of a pool. Every task that left the queue is in the hand of a
worker or was started, and every task that was started is being run or has finished. -/
structure Sound [Fintype ι] (workers : List ι) (s : State ι (Pool ι τ) (Pc ι τ)) : Prop where
  awake : Awake workers s
  relies : ∀ i, Relies workers s.shared i (s.locals i)
  fifo : s.shared.dequeued ++ s.shared.mTasks = s.shared.accepted
  started : (s.shared.dequeued : Multiset τ) =
    s.shared.started + ∑ i, ((s.locals i).held : Multiset τ)
  finished : (s.shared.started : Multiset τ) =
    s.shared.finished + ∑ i, ((s.locals i).inTask : Multiset τ)
  inOrder : ∀ worker, workers = [worker] →
    s.shared.started ++ (s.locals worker).held = s.shared.dequeued
  terminateReturned : s.shared.isTerminateReturned = true →
    ∀ worker ∈ workers, worker ∈ s.shared.exited

section Run
variable [DecidableEq ι] {workers : List ι} {i : ι} {s' : Pool ι τ} {pc' : Pc ι τ}
  {s : State ι (Pool ι τ) (Pc ι τ)}

theorem Moves.relies {s : Pool ι τ} {pc : Pc ι τ} (h : Moves workers i s pc s' pc')
    (hpc : Relies workers s i pc) : Relies workers s' i pc' := by
  refine ⟨fun howner => ?_, h.joins hpc.joins, (h.exitedSet hpc.exited).1⟩
  rcases h.locked with ⟨-, hcritical⟩ | hfree | ⟨hsame, houtside⟩
  · exact hcritical
  · simp [hfree] at howner
  · simp [hpc.owner (hsame ▸ howner)] at houtside

theorem Moves.relies_of_ne {s : Pool ι τ} {pc pc₁ : Pc ι τ} {j : ι}
    (h : Moves workers i s pc s' pc') (hpc : Relies workers s i pc) (hj : j ≠ i)
    (hpc₁ : Relies workers s j pc₁) : Relies workers s' j pc₁ := by
  refine ⟨fun howner => ?_, ?_, fun hmem => hpc₁.exited ((h.exitedSet hpc.exited).2 j hj hmem)⟩
  · rcases h.locked with ⟨hlocked, -⟩ | hfree | ⟨hsame, -⟩
    · exact absurd (Option.some.inj (howner.symm.trans hlocked)) hj
    · simp [hfree] at howner
    · exact hpc₁.owner (hsame ▸ howner)
  · cases pc₁ with
    | joining rest =>
      exact fun worker hmem => (hpc₁.joins worker hmem).imp_right (h.exitedMono ·)
    | _ => trivial

variable [Fintype ι]

theorem sound_start : Sound workers (start workers : State ι (Pool ι τ) (Pc ι τ)) := by
  have hempty (i : ι) : ((start workers : State ι (Pool ι τ) (Pc ι τ)).locals i).held = [] ∧
      ((start workers : State ι (Pool ι τ) (Pc ι τ)).locals i).inTask = [] := by
    by_cases hi : i ∈ workers <;> simp [start, hi, Pc.held, Pc.inTask]
  refine ⟨awake_start, fun i => ⟨fun howner => absurd howner.symm (Option.some_ne_none i), ?_,
    fun hi => absurd hi (Finset.notMem_empty i)⟩, rfl, ?_, ?_, fun worker _ => ?_, fun h => ?_⟩
  · by_cases hi : i ∈ workers <;> simp [start, hi, Pc.Joins]
  · simp only [hempty]
    simp [start, Pool.new]
  · simp only [hempty]
    simp [start, Pool.new]
  · rw [(hempty worker).1]
    rfl
  · cases h

theorem Sound.move (hs : Sound workers s) (h : Moves workers i s.shared (s.locals i) s' pc') :
    Sound workers ⟨s', Function.update s.locals i pc'⟩ := by
  refine ⟨hs.awake.move h, forall_update hs.relies (h.relies (hs.relies i))
      fun j hj hpc => h.relies_of_ne (hs.relies i) hj hpc, h.fifo hs.fifo,
    balance_update (g := fun pc : Pc ι τ => (pc.held : Multiset τ)) hs.started h.held.balance,
    balance_update (g := fun pc : Pc ι τ => (pc.inTask : Multiset τ)) hs.finished h.inTask.balance,
    fun worker hworkers => ?_, h.terminateReturned (hs.relies i).joins hs.terminateReturned⟩
  by_cases hi : worker = i
  · subst hi
    simpa using h.held.inOrder (hs.inOrder worker hworkers)
  · have hpc : (s.locals i).inLoop = false := by
      rw [← Bool.not_eq_true, (hs.awake.stands i).inLoop, hworkers, List.mem_singleton]
      exact Ne.symm hi
    obtain ⟨hstarted, hdequeued⟩ := h.held_of_not_inLoop hpc
    simpa [hstarted, hdequeued, hi] using hs.inOrder worker hworkers

theorem sound_run (h : Run (threadPool workers) anyStep (start workers) s) : Sound workers s :=
  h.invariant sound_start fun _ _ _ _ _ hs _ hP => hs.move (moves_of_threadPool hP)

omit [DecidableEq ι] in
theorem Sound.all_done (hs : Sound workers s) (htasks : s.shared.mTasks = [])
    (hidle : ∀ i, (s.locals i).held = [] ∧ (s.locals i).inTask = []) :
    s.shared.started.Perm s.shared.accepted ∧ s.shared.finished.Perm s.shared.accepted := by
  have hstarted := hs.started
  have hfinished := hs.finished
  simp only [hidle, Multiset.coe_nil, Finset.sum_const_zero, add_zero] at hstarted hfinished
  have hfifo := hs.fifo
  rw [htasks, List.append_nil] at hfifo
  rw [← hfifo]
  exact ⟨(Multiset.coe_eq_coe.mp hstarted).symm,
    (Multiset.coe_eq_coe.mp (hstarted.trans hfinished)).symm⟩

theorem Sound.all_done_of_exited (hs : Sound workers s) (hne : workers ≠ [])
    (hexited : ∀ worker ∈ workers, s.locals worker = .exited) :
    s.shared.started.Perm s.shared.accepted ∧ s.shared.finished.Perm s.shared.accepted := by
  obtain ⟨first, hfirst⟩ := List.exists_mem_of_ne_nil workers hne
  refine hs.all_done ((hs.awake.stands first).exited (hexited first hfirst)).2 fun i => ?_
  by_cases hi : i ∈ workers
  · rw [hexited i hi]
    exact ⟨rfl, rfl⟩
  · have hpc : (s.locals i).inLoop = false := by
      rwa [← Bool.not_eq_true, (hs.awake.stands i).inLoop]
    exact ⟨Pc.held_of_not_inLoop hpc, Pc.inTask_of_not_inLoop hpc⟩

/-- No thread can take another step, unless somebody calls the pool or a worker wakes up for
no reason. -/
def Quiet (workers : List ι) (s : State ι (Pool ι τ) (Pc ι τ)) : Prop :=
  ∀ i notified, s.shared.access workers i notified (s.locals i) = none

omit [Fintype ι] in
theorem access_ne_none_of_inCritical {s : Pool ι τ} {pc : Pc ι τ} {notified : ι}
    (h : pc.inCritical = true) : s.access workers i notified pc ≠ none := by
  cases pc with
  | enqueueHolding =>
    rw [Pool.access]
    split_ifs <;> exact Option.some_ne_none _
  | terminateHolding => exact Option.some_ne_none _
  | checking =>
    rw [Pool.access]
    split <;> exact Option.some_ne_none _
  | _ => cases h

omit [Fintype ι] in
theorem Quiet.stands (hq : Quiet workers s)
    (hrelies : ∀ i, Relies workers s.shared i (s.locals i)) (i : ι) :
    s.locals i = .outside ∨ (∃ rest, s.locals i = .joining rest) ∨ s.locals i = .exited ∨
      Blocked s i := by
  have hfree : s.shared.mTaskQueueMutex = none := by
    by_contra hlocked
    obtain ⟨owner, howner⟩ := Option.ne_none_iff_exists'.mp hlocked
    exact access_ne_none_of_inCritical ((hrelies owner).owner howner) (hq owner owner)
  have hlock (pc : Pc ι τ) : s.shared.lock i pc ≠ none := by simp [Pool.lock, hfree]
  have hblocked := hq i
  cases hpc : s.locals i with
  | outside => exact .inl rfl
  | joining rest => exact .inr (.inl ⟨rest, rfl⟩)
  | exited => exact .inr (.inr (.inl rfl))
  | waiting =>
    refine .inr (.inr (.inr ⟨hpc, ?_⟩))
    by_contra hwoken
    simpa [hpc, Pool.access, hwoken] using hblocked i
  | enqueueNotifying caller =>
    exfalso
    rcases s.shared.waiting.eq_empty_or_nonempty with hempty | ⟨notified, hmem⟩
    · simpa [hpc, Pool.access, Pool.notifyOne, hempty] using hblocked i
    · simpa [hpc, Pool.access, Pool.notifyOne, hmem, Finset.ne_empty_of_mem hmem] using
        hblocked notified
  | enqueueLocking | terminateLocking | locking => exact absurd (hpc ▸ hblocked i) (hlock _)
  | enqueueHolding | terminateHolding | checking =>
    exact absurd (hpc ▸ hblocked i) (access_ne_none_of_inCritical rfl)
  | terminateNotifying | holding | running => cases hpc ▸ hblocked i

theorem Sound.all_done_of_quiet (hs : Sound workers s) (hne : workers ≠ [])
    (hq : Quiet workers s) :
    s.shared.started.Perm s.shared.accepted ∧ s.shared.finished.Perm s.shared.accepted := by
  have hstands := hq.stands hs.relies
  have hidle (i : ι) : (s.locals i).held = [] ∧ (s.locals i).inTask = [] := by
    rcases hstands i with hpc | ⟨rest, hpc⟩ | hpc | ⟨hpc, -⟩ <;> rw [hpc] <;> exact ⟨rfl, rfl⟩
  by_cases hexited : ∀ worker ∈ workers, s.locals worker = .exited
  · exact hs.all_done_of_exited hne hexited
  refine hs.all_done (Classical.byContradiction fun htasks => ?_) hidle
  have hsilent (i : ι) : ¬ (s.locals i).Notifying := by
    rcases hstands i with hpc | ⟨rest, hpc⟩ | hpc | ⟨hpc, -⟩ <;> rw [hpc] <;> simp [Pc.Notifying]
  push Not at hexited
  obtain ⟨worker, hmem, hleft, hawake⟩ := hs.awake.exists_awake hsilent (.inl htasks) hexited
  have hloop := (hs.awake.stands worker).inLoop.mpr hmem
  rcases hstands worker with hpc | ⟨rest, hpc⟩ | hpc | hpc
  · simp [hpc, Pc.inLoop] at hloop
  · simp [hpc, Pc.inLoop] at hloop
  · exact hleft hpc
  · exact hawake hpc

def Pc.toGo (threads workers : ℕ) : Pc ι τ → ℕ
  | .outside | .exited => 0
  | .checking => 1
  | .locking => 2
  | .waiting | .running _ => 3
  | .holding _ => 4
  | .enqueueNotifying caller => 4 + 3 * caller.toList.length
  | .enqueueHolding _ caller => 9 + 3 * caller.toList.length
  | .enqueueLocking _ caller => 10 + 3 * caller.toList.length
  | .joining rest => 1 + rest.length
  | .terminateNotifying => 2 + workers + 3 * threads
  | .terminateHolding => 3 + workers + 3 * threads
  | .terminateLocking => 4 + workers + 3 * threads

omit [DecidableEq ι] [Fintype ι] in
@[simp] theorem Pc.toGo_resume (threads workers : ℕ) (caller : Option τ) :
    (Pc.resume caller : Pc ι τ).toGo threads workers = 3 * caller.toList.length := by
  cases caller <;> rfl

/-- A bound on the steps that are still to come: a queued task costs the worker that takes it
four, and a worker that is woken up three. -/
def Pool.toGo (s : Pool ι τ) : ℕ :=
  4 * s.mTasks.length + 3 * (Fintype.card ι - s.waiting.card)

theorem toGo_lt_of_access {s : Pool ι τ} {pc : Pc ι τ} {notified : ι}
    (h : s.access workers i notified pc = some (s', pc')) (hpc : i ∈ s.waiting → pc = .waiting) :
    s'.toGo + pc'.toGo (Fintype.card ι) workers.length <
      s.toGo + pc.toGo (Fintype.card ι) workers.length := by
  have hcard := Finset.card_le_univ s.waiting
  have hmoves := moves_of_access h
  cases hmoves with
  | enqueue _ caller => cases caller <;> simp [Pc.resume, Pool.access] at h
  | terminate => cases h
  | wakeUp =>
    have hwoken : i ∉ s.waiting := fun hmem => by simp [Pool.access, hmem] at h
    simp [Finset.erase_eq_of_notMem hwoken, Pc.toGo]
  | notifyOne caller _ hmem =>
    have := Finset.card_pos.mpr ⟨_, hmem⟩
    rw [Pc.toGo_resume]
    simp only [Pool.toGo, Pc.toGo, Finset.card_erase_of_mem hmem]
    omega
  | refuse | notifyNobody =>
    rw [Pc.toGo_resume]
    simp only [Pool.toGo, Pc.toGo]
    omega
  | wait =>
    have hawake : i ∉ s.waiting := fun hmem => by cases hpc hmem
    have := Finset.card_lt_univ_of_notMem hawake
    simp only [Pool.toGo, Pc.toGo, Finset.card_insert_of_notMem hawake]
    omega
  | notifyAll =>
    simp only [Pool.toGo, Pc.toGo, Finset.card_empty]
    omega
  | dequeue _ _ hcons =>
    simp only [Pool.toGo, Pc.toGo, hcons, List.length_cons]
    omega
  | _ =>
    simp only [Pool.toGo, Pc.toGo, List.length_append, List.length_cons, List.length_nil]
    omega

def toGo (workers : List ι) (s : State ι (Pool ι τ) (Pc ι τ)) : ℕ :=
  s.shared.toGo + ∑ i, (s.locals i).toGo (Fintype.card ι) workers.length

theorem length_le_toGo (hs : Awake workers s) {sched : List (ι × ι)}
    {s₁ : State ι (Pool ι τ) (Pc ι τ)}
    (h : exec (threadPool workers) anyStep (sched.map fun p => (p.1, .access p.2)) s = some s₁) :
    sched.length ≤ toGo workers s := by
  induction sched generalizing s with
  | nil => exact Nat.zero_le _
  | cons p rest ih =>
    rw [List.map_cons, exec] at h
    split_ifs at h
    obtain ⟨t, hfire, hrest⟩ := Option.bind_eq_some_iff.mp h
    obtain ⟨x, pc', haccess, rfl⟩ := fire_eq_some.mp hfire
    have hlt := toGo_lt_of_access haccess (hs.stands p.1).waiting
    have hsum := sum_update (Pc.toGo (Fintype.card ι) workers.length) s.locals p.1 pc'
    have hle := ih (hs.move (moves_of_access haccess)) hrest
    rw [List.length_cons]
    simp only [toGo] at hle ⊢
    omega

/-- What a pool owes for the tasks it accepted. -/
structure RunsTasks (workers : List ι) (s : State ι (Pool ι τ) (Pc ι τ)) : Prop where
  /-- Tasks leave the queue in the order in which they were accepted. -/
  fifo : s.shared.dequeued ++ s.shared.mTasks = s.shared.accepted
  /-- No task is started that was not accepted, and none is started twice. -/
  once : (s.shared.started : Multiset τ) ≤ s.shared.accepted
  inOrder : workers.length = 1 → s.shared.started <+: s.shared.accepted
  terminateReturned : s.shared.isTerminateReturned = true →
    s.shared.started.Perm s.shared.accepted ∧ s.shared.finished.Perm s.shared.accepted
  /-- Once the pool is terminated it accepts nothing. -/
  refuses : s.shared.mIsTerminated = true → ∀ s', Run (threadPool workers) anyStep s s' →
    s'.shared.accepted = s.shared.accepted
  /-- Left to itself the pool comes to rest, and has then run everything it accepted. -/
  comesToRest : ∃ n, ∀ sched : List (ι × ι), ∀ s',
    exec (threadPool workers) anyStep (sched.map fun p => (p.1, .access p.2)) s = some s' →
      sched.length ≤ n
  quiet : Quiet workers s →
    s.shared.started.Perm s.shared.accepted ∧ s.shared.finished.Perm s.shared.accepted

theorem runsTasks (hne : workers ≠ []) (h : Run (threadPool workers) anyStep (start workers) s) :
    RunsTasks workers s := by
  have hs := sound_run h
  have htaken : (s.shared.dequeued : Multiset τ) ≤ s.shared.accepted := by
    rw [← hs.fifo, ← Multiset.coe_add]
    exact Multiset.le_add_right _ _
  refine ⟨hs.fifo, ?_, fun hone => ?_, fun hreturned => ?_, fun hterminated s' hrun => ?_,
    ⟨toGo workers s, fun _ _ => length_le_toGo hs.awake⟩, hs.all_done_of_quiet hne⟩
  · rw [hs.started] at htaken
    exact (Multiset.le_add_right _ _).trans htaken
  · obtain ⟨worker, hworker⟩ := List.length_eq_one_iff.mp hone
    rw [← hs.fifo, ← hs.inOrder worker hworker, List.append_assoc]
    exact List.prefix_append _ _
  · exact hs.all_done_of_exited hne fun worker hmem =>
      (hs.relies worker).exited (hs.terminateReturned hreturned worker hmem)
  · refine (hrun.invariant (I := fun t => t.shared.mIsTerminated = true ∧
      t.shared.accepted = s.shared.accepted) ⟨hterminated, rfl⟩ ?_).2
    rintro t i a x pc' ⟨hterminated, hsame⟩ - hP
    have hmoves := moves_of_threadPool hP
    exact ⟨hmoves.terminated hterminated, (hmoves.refuses hterminated).trans hsame⟩

end Run

def oneTask (worker caller : ι) : List (ι × Action ι ℕ) :=
  [(caller, .enqueue 7), (caller, .access worker), (caller, .access worker),
    (caller, .access worker), (caller, .terminate), (caller, .access worker),
    (caller, .access worker), (worker, .access worker), (caller, .access worker),
    (worker, .access worker), (worker, .access worker), (worker, .access worker),
    (worker, .access worker), (worker, .access worker), (caller, .access worker),
    (caller, .access worker)]

theorem runsTasks_oneTask : ∃ s : State (Fin 2) (Pool (Fin 2) ℕ) (Pc (Fin 2) ℕ),
    exec (threadPool [0]) anyStep (oneTask 0 1) (start [0]) = some s ∧
      s.shared.isTerminateReturned = true ∧ s.shared.accepted = [7] ∧ RunsTasks [0] s := by
  obtain ⟨s, hs, hreturned, haccepted⟩ : ∃ s : State (Fin 2) (Pool (Fin 2) ℕ) (Pc (Fin 2) ℕ),
      exec (threadPool [0]) anyStep (oneTask 0 1) (start [0]) = some s ∧
        s.shared.isTerminateReturned = true ∧ s.shared.accepted = [7] := ⟨_, rfl, rfl, rfl⟩
  exact ⟨s, hs, hreturned, haccepted, runsTasks (List.cons_ne_nil _ _) (exec_run hs .start)⟩

def overtaking (first second caller : ι) : List (ι × Action ι ℕ) :=
  [(caller, .enqueue 7), (caller, .access first), (caller, .access first),
    (caller, .access first), (caller, .enqueue 8), (caller, .access first),
    (caller, .access first), (caller, .access first), (first, .access first),
    (first, .access first), (second, .access first), (second, .access first),
    (second, .access first)]

theorem not_inOrder_overtaking : ¬ ∀ s : State (Fin 3) (Pool (Fin 3) ℕ) (Pc (Fin 3) ℕ),
    Run (threadPool [0, 1]) anyStep (start [0, 1]) s → s.shared.started <+: s.shared.accepted := by
  intro h
  obtain ⟨s, hs, hstarted, haccepted⟩ : ∃ s : State (Fin 3) (Pool (Fin 3) ℕ) (Pc (Fin 3) ℕ),
      exec (threadPool [0, 1]) anyStep (overtaking 0 1 2) (start [0, 1]) = some s ∧
        s.shared.started = [8] ∧ s.shared.accepted = [7, 8] := ⟨_, rfl, rfl, rfl⟩
  have hprefix := h s (exec_run hs .start)
  rw [hstarted, haccepted] at hprefix
  exact absurd hprefix (by decide)

end ItcPlatform.ThreadPool
