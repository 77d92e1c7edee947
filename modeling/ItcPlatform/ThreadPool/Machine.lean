import Mathlib.Data.Finset.Insert
import ItcPlatform.Lib.Interleaving

/-! The thread pool as its threads run it: the mutex around the task queue, the condition
variable with the workers that wait on it, callers of `enqueue` and of `terminate`. -/

namespace ItcPlatform.ThreadPool
open Interleaving
variable {ι τ : Type*}

/-- The pool, with the tasks so far in the order in which they were accepted, taken from the
queue, started and finished. A worker in `waiting` was not notified yet. -/
structure Pool (ι τ : Type*) where
  mTasks : List τ
  mIsTerminated : Bool
  mTaskQueueMutex : Option ι
  waiting : Finset ι
  exited : Finset ι
  joined : Finset ι
  isTerminateReturned : Bool
  accepted : List τ
  dequeued : List τ
  started : List τ
  finished : List τ

def Pool.new : Pool ι τ := ⟨[], false, none, ∅, ∅, ∅, false, [], [], [], []⟩

/-- Where a thread stands: outside the pool, in `enqueue`, in `terminate` or in the loop of a
worker. A task may call `enqueue` itself, then `caller` is the task. -/
inductive Pc (ι τ : Type*)
  | outside
  | enqueueLocking (task : τ) (caller : Option τ)
  | enqueueHolding (task : τ) (caller : Option τ)
  | enqueueNotifying (caller : Option τ)
  | terminateLocking
  | terminateHolding
  | terminateNotifying
  | joining (workers : List ι)
  | locking
  | checking
  | waiting
  | holding (task : τ)
  | running (task : τ)
  | exited

/-- A call, a spurious wake-up, or the next access of a thread; a `notify_one` wakes `notified`. -/
inductive Action (ι τ : Type*)
  | enqueue (task : τ)
  | terminate
  | wakeUp
  | access (notified : ι)

def Pc.resume : Option τ → Pc ι τ
  | none => .outside
  | some task => .running task

variable [DecidableEq ι] (workers : List ι)

namespace Pool

def lock (s : Pool ι τ) (i : ι) (pc : Pc ι τ) : Option (Pool ι τ × Pc ι τ) :=
  if s.mTaskQueueMutex.isSome then none else some ({ s with mTaskQueueMutex := some i }, pc)

def notifyOne (s : Pool ι τ) (notified : ι) : Option (Pool ι τ) :=
  if s.waiting = ∅ then some s
  else if notified ∈ s.waiting then some { s with waiting := s.waiting.erase notified }
  else none

/-- The next access of thread `i`; `none` where it is blocked or has none. The body of a critical
section is one step, which also unlocks. -/
def access (s : Pool ι τ) (i notified : ι) : Pc ι τ → Option (Pool ι τ × Pc ι τ)
  | .outside | .exited => none
  | .enqueueLocking task caller => s.lock i (.enqueueHolding task caller)
  | .enqueueHolding task caller =>
    if s.mIsTerminated then some ({ s with mTaskQueueMutex := none }, .resume caller)
    else
      some ({ s with
        mTaskQueueMutex := none
        mTasks := s.mTasks ++ [task]
        accepted := s.accepted ++ [task] }, .enqueueNotifying caller)
  | .enqueueNotifying caller => (s.notifyOne notified).map fun s => (s, .resume caller)
  | .terminateLocking => s.lock i .terminateHolding
  | .terminateHolding =>
    some ({ s with mTaskQueueMutex := none, mIsTerminated := true }, .terminateNotifying)
  | .terminateNotifying => some ({ s with waiting := ∅ }, .joining workers)
  | .joining [] => some ({ s with isTerminateReturned := true }, .outside)
  | .joining (worker :: rest) =>
    -- a second `join` of a thread throws
    if worker ∈ s.joined then some (s, .outside)
    else if worker ∈ s.exited then
      some ({ s with joined := insert worker s.joined }, .joining rest)
    else none
  | .locking => s.lock i .checking
  | .checking =>
    match s.mIsTerminated, s.mTasks with
    | false, [] =>
      some ({ s with mTaskQueueMutex := none, waiting := insert i s.waiting }, .waiting)
    | true, [] => some ({ s with mTaskQueueMutex := none, exited := insert i s.exited }, .exited)
    | _, task :: rest =>
      some ({ s with
        mTaskQueueMutex := none
        mTasks := rest
        dequeued := s.dequeued ++ [task] }, .holding task)
  | .waiting => if i ∈ s.waiting then none else some (s, .locking)
  | .holding task => some ({ s with started := s.started ++ [task] }, .running task)
  | .running task => some ({ s with finished := s.finished ++ [task] }, .locking)

end Pool

def threadPool : Program ι (Action ι τ) (Pool ι τ) (Pc ι τ) := fun i a s pc =>
  match a, pc with
  | .enqueue task, .outside => some (s, .enqueueLocking task none)
  | .enqueue task, .running caller => some (s, .enqueueLocking task (some caller))
  | .terminate, .outside => some (s, .terminateLocking)
  | .wakeUp, .waiting => some ({ s with waiting := s.waiting.erase i }, .locking)
  | .access notified, pc => s.access workers i notified pc
  | _, _ => none

def start : State ι (Pool ι τ) (Pc ι τ) :=
  ⟨.new, fun i => if i ∈ workers then .locking else .outside⟩

inductive Moves (i : ι) (s : Pool ι τ) : Pc ι τ → Pool ι τ → Pc ι τ → Prop
  | enqueue (task : τ) (caller : Option τ) :
    Moves i s (.resume caller) s (.enqueueLocking task caller)
  | terminate : Moves i s .outside s .terminateLocking
  | wakeUp : Moves i s .waiting { s with waiting := s.waiting.erase i } .locking
  | enqueueLock (task : τ) (caller : Option τ) : s.mTaskQueueMutex = none →
      Moves i s (.enqueueLocking task caller) { s with mTaskQueueMutex := some i }
        (.enqueueHolding task caller)
  | refuse (task : τ) (caller : Option τ) : s.mIsTerminated = true →
      Moves i s (.enqueueHolding task caller) { s with mTaskQueueMutex := none } (.resume caller)
  | accept (task : τ) (caller : Option τ) : s.mIsTerminated = false →
      Moves i s (.enqueueHolding task caller)
        { s with
          mTaskQueueMutex := none
          mTasks := s.mTasks ++ [task]
          accepted := s.accepted ++ [task] } (.enqueueNotifying caller)
  | notifyNobody (caller : Option τ) : s.waiting = ∅ →
      Moves i s (.enqueueNotifying caller) s (.resume caller)
  | notifyOne (caller : Option τ) (notified : ι) : notified ∈ s.waiting →
      Moves i s (.enqueueNotifying caller) { s with waiting := s.waiting.erase notified }
        (.resume caller)
  | terminateLock : s.mTaskQueueMutex = none →
      Moves i s .terminateLocking { s with mTaskQueueMutex := some i } .terminateHolding
  | setTerminated :
      Moves i s .terminateHolding { s with mTaskQueueMutex := none, mIsTerminated := true }
        .terminateNotifying
  | notifyAll : Moves i s .terminateNotifying { s with waiting := ∅ } (.joining workers)
  | join (worker : ι) (rest : List ι) : worker ∈ s.exited →
      Moves i s (.joining (worker :: rest)) { s with joined := insert worker s.joined }
        (.joining rest)
  | joinThrows (worker : ι) (rest : List ι) : worker ∈ s.joined →
      Moves i s (.joining (worker :: rest)) s .outside
  | leaveTerminate : Moves i s (.joining []) { s with isTerminateReturned := true } .outside
  | lock : s.mTaskQueueMutex = none →
      Moves i s .locking { s with mTaskQueueMutex := some i } .checking
  | wait : s.mIsTerminated = false → s.mTasks = [] →
      Moves i s .checking { s with mTaskQueueMutex := none, waiting := insert i s.waiting } .waiting
  | exit : s.mIsTerminated = true → s.mTasks = [] →
      Moves i s .checking { s with mTaskQueueMutex := none, exited := insert i s.exited } .exited
  | dequeue (task : τ) (rest : List τ) : s.mTasks = task :: rest →
      Moves i s .checking
        { s with mTaskQueueMutex := none, mTasks := rest, dequeued := s.dequeued ++ [task] }
        (.holding task)
  | woken : i ∉ s.waiting → Moves i s .waiting s .locking
  | begin (task : τ) :
      Moves i s (.holding task) { s with started := s.started ++ [task] } (.running task)
  | finish (task : τ) :
      Moves i s (.running task) { s with finished := s.finished ++ [task] } .locking

variable {workers} {i : ι} {a : Action ι τ} {s s' : Pool ι τ} {pc pc' : Pc ι τ}

omit [DecidableEq ι] in
theorem lock_eq_some {pc₁ : Pc ι τ} (h : s.lock i pc₁ = some (s', pc')) :
    s.mTaskQueueMutex = none ∧ s' = { s with mTaskQueueMutex := some i } ∧ pc' = pc₁ := by
  rw [Pool.lock] at h
  split_ifs at h with hfree
  cases h
  exact ⟨by simpa using hfree, rfl, rfl⟩

theorem moves_of_access {notified : ι} (h : s.access workers i notified pc = some (s', pc')) :
    Moves workers i s pc s' pc' := by
  cases pc with
  | outside | exited => cases h
  | enqueueLocking task caller =>
    obtain ⟨hfree, rfl, rfl⟩ := lock_eq_some h
    exact .enqueueLock task caller hfree
  | enqueueHolding task caller =>
    rw [Pool.access] at h
    split_ifs at h with hterminated <;> cases h
    · exact .refuse task caller hterminated
    · exact .accept task caller (by simpa using hterminated)
  | enqueueNotifying caller =>
    obtain ⟨s₁, hnotify, heq⟩ := Option.map_eq_some_iff.mp h
    cases heq
    rw [Pool.notifyOne] at hnotify
    split_ifs at hnotify with hempty hmem <;> cases hnotify
    · exact .notifyNobody caller hempty
    · exact .notifyOne caller notified hmem
  | terminateLocking =>
    obtain ⟨hfree, rfl, rfl⟩ := lock_eq_some h
    exact .terminateLock hfree
  | terminateHolding =>
    cases h
    exact .setTerminated
  | terminateNotifying =>
    cases h
    exact .notifyAll
  | joining rest =>
    cases rest with
    | nil =>
      cases h
      exact .leaveTerminate
    | cons worker rest =>
      rw [Pool.access] at h
      split_ifs at h with hjoined hexited <;> cases h
      · exact .joinThrows worker rest hjoined
      · exact .join worker rest hexited
  | locking =>
    obtain ⟨hfree, rfl, rfl⟩ := lock_eq_some h
    exact .lock hfree
  | checking =>
    rw [Pool.access] at h
    split at h <;> cases h
    · rename_i hterminated htasks
      exact .wait hterminated htasks
    · rename_i hterminated htasks
      exact .exit hterminated htasks
    · rename_i htasks
      exact .dequeue _ _ htasks
  | waiting =>
    rw [Pool.access] at h
    split_ifs at h with hwaiting
    cases h
    exact .woken hwaiting
  | holding task =>
    cases h
    exact .begin task
  | running task =>
    cases h
    exact .finish task

theorem moves_of_threadPool (h : threadPool workers i a s pc = some (s', pc')) :
    Moves workers i s pc s' pc' := by
  cases a with
  | enqueue task =>
    cases pc with
    | outside =>
      cases h
      exact .enqueue task none
    | running caller =>
      cases h
      exact .enqueue task (some caller)
    | _ => cases h
  | terminate =>
    cases pc with
    | outside =>
      cases h
      exact .terminate
    | _ => cases h
  | wakeUp =>
    cases pc with
    | waiting =>
      cases h
      exact .wakeUp
    | _ => cases h
  | access notified => exact moves_of_access h

end ItcPlatform.ThreadPool
