import Mathlib.Tactic.Cases
import Mathlib.Tactic.Tauto
import ItcPlatform.Lib.Sweep
import ItcPlatform.ThreadManager.Threads

/-! `ThreadManager` with the threads that it creates: who holds which thread id, and which
threads were cancelled and joined, by the loops over the list, by the move constructor and by the
destructor of an entry. -/

namespace ItcPlatform.ThreadManager
open Sweep

/-- The contents of a `pthread_t`: zero, a thread, or what a failed `pthread_create` leaves. -/
inductive Tid
  | zero
  | thread (n : ℕ)
  | undefined
  deriving DecidableEq

structure Entry where
  tid : Tid
  syncObj : ℕ
  isRunning : Bool

/-- The threads `0 … next - 1` were created; of some the start handshake timed out. A sync object
whose mutex was never unlocked stays locked. -/
structure Pthreads where
  next : ℕ
  timedOut : List ℕ
  lockedSyncObjs : List ℕ
  cancelled : List ℕ
  joined : List ℕ

structure EntryStart extends StartAnswer where
  hasSyncObj : Bool
  losesTid : Bool

namespace Pthreads

def cancel (k : Pthreads) : Tid → Pthreads
  | .thread n => { k with cancelled := n :: k.cancelled }
  | .zero | .undefined => k

def join (k : Pthreads) : Tid → Pthreads
  | .thread n => { k with joined := n :: k.joined }
  | .zero | .undefined => k

/-- `Thread::reset`, which looks at no result. -/
def reset (a : StopAnswer) (k : Pthreads) (tid : Tid) : Pthreads :=
  if tid = .zero then k
  else
    let k := if a.cancel = 0 then k.cancel tid else k
    if a.join = 0 then k.join tid else k

def Ended (k : Pthreads) (n : ℕ) : Prop := n ∈ k.cancelled ∨ n ∈ k.joined

def Alive (k : Pthreads) (n : ℕ) : Prop := n < k.next ∧ ¬ k.Ended n

variable (k : Pthreads) (tid : Tid)

@[simp] theorem next_cancel : (k.cancel tid).next = k.next := by
  cases tid <;> rfl

@[simp] theorem next_join : (k.join tid).next = k.next := by
  cases tid <;> rfl

@[simp] theorem timedOut_cancel : (k.cancel tid).timedOut = k.timedOut := by
  cases tid <;> rfl

@[simp] theorem timedOut_join : (k.join tid).timedOut = k.timedOut := by
  cases tid <;> rfl

@[simp] theorem joined_cancel : (k.cancel tid).joined = k.joined := by
  cases tid <;> rfl

@[simp] theorem cancelled_join : (k.join tid).cancelled = k.cancelled := by
  cases tid <;> rfl

@[simp] theorem mem_cancelled_cancel {n : ℕ} :
    n ∈ (k.cancel tid).cancelled ↔ tid = .thread n ∨ n ∈ k.cancelled := by
  cases tid <;> simp [cancel, eq_comm]

@[simp] theorem mem_joined_join {n : ℕ} :
    n ∈ (k.join tid).joined ↔ tid = .thread n ∨ n ∈ k.joined := by
  cases tid <;> simp [join, eq_comm]

@[simp] theorem count_joined_join (n : ℕ) :
    (k.join tid).joined.count n = k.joined.count n + if tid = .thread n then 1 else 0 := by
  cases tid <;> simp [join, List.count_cons]

theorem ended_join_cancel {n : ℕ} :
    ((k.cancel tid).join tid).Ended n ↔ tid = .thread n ∨ k.Ended n := by
  simp only [Ended, cancelled_join, mem_cancelled_cancel, mem_joined_join, joined_cancel]
  tauto

@[simp] theorem next_reset (a : StopAnswer) : (k.reset a tid).next = k.next := by
  unfold reset
  split_ifs <;> simp

theorem count_joined_reset (a : StopAnswer) (n : ℕ) :
    (k.reset a tid).joined.count n =
      k.joined.count n + if tid = .thread n ∧ a.join = 0 then 1 else 0 := by
  unfold reset
  split_ifs <;> simp_all

end Pthreads

/-- `none` where the mutex of the sync object is waited for and never unlocked. -/
def startThread (a : EntryStart) (k : Pthreads) (thr : Entry) :
    Option (Pthreads × Entry × Option ThreadManagerIfReturnCode) :=
  if thr.isRunning then some (k, thr, none)
  else if a.hasSyncObj = false then some (k, thr, some .threadManagerSyscallError)
  else if thr.syncObj ∈ k.lockedSyncObjs then none
  else if a.configureAndStartThread ≠ .threadManagerOk then
    some ({ k with lockedSyncObjs := thr.syncObj :: k.lockedSyncObjs },
      { thr with tid := if a.losesTid then .undefined else thr.tid },
      some a.configureAndStartThread)
  else
    let k' := { k with next := k.next + 1 }
    let thr' := { thr with tid := .thread k.next }
    if a.condTimedWait ≠ 0 then
      some ({ k' with timedOut := k.next :: k.timedOut }, thr',
        some .threadManagerInitialisationTimeout)
    else some (k', { thr' with isRunning := true }, none)

def stopThread (a : StopAnswer) (k : Pthreads) (thr : Entry) :
    Option (Pthreads × Entry × Option ThreadManagerIfReturnCode) :=
  if thr.isRunning = false then some (k, thr, none)
  else if a.cancel ≠ 0 then some (k, thr, some .threadManagerSyscallError)
  else
    let k := k.cancel thr.tid
    if a.join ≠ 0 then some (k, thr, some .threadManagerSyscallError)
    else some (k.join thr.tid, { thr with isRunning := false }, none)

/-- An entry moves: the move constructor resets the old place, and its destructor again. -/
def moveThread (a : StopAnswer × StopAnswer) (k : Pthreads) (thr : Entry) : Pthreads :=
  (k.reset a.1 thr.tid).reset a.2 thr.tid

def stopped : StopAnswer := ⟨0, 0⟩

theorem Pthreads.ended_reset_stopped {k : Pthreads} {tid : Tid} {n : ℕ} :
    (k.reset stopped tid).Ended n ↔ tid = .thread n ∨ k.Ended n := by
  unfold reset
  split
  · rename_i hzero
    simp [hzero]
  · exact ended_join_cancel k tid

structure Manager where
  mThreadList : List Entry
  capacity : ℕ
  pthreads : Pthreads

namespace Manager

def new : Manager := ⟨[], 8, ⟨0, [], [], [], []⟩⟩

def relocate (answer : ℕ → StopAnswer × StopAnswer) : Pthreads → List Entry → Pthreads
  | k, [] => k
  | k, thr :: rest => relocate (fun n => answer (n + 1)) (moveThread (answer 0) k thr) rest

/-- `newCapacity` is for the case that the list is full; `none` where it would not do. -/
def addThread (m : Manager) (syncObj newCapacity : ℕ) (answer : ℕ → StopAnswer × StopAnswer) :
    Option (Manager × ThreadManagerIfReturnCode) :=
  let mThreadList := m.mThreadList ++ [⟨.zero, syncObj, false⟩]
  if m.mThreadList.length < m.capacity then some ({ m with mThreadList }, .threadManagerOk)
  else if newCapacity ≤ m.mThreadList.length then none
  else
    some (⟨mThreadList, newCapacity, relocate answer m.pthreads m.mThreadList⟩, .threadManagerOk)

def startAllThreads (m : Manager) (answer : ℕ → EntryStart) :
    Option (Manager × ThreadManagerIfReturnCode) :=
  (sweep startThread answer m.pthreads m.mThreadList).map fun (pthreads, mThreadList, rc) =>
    ({ m with pthreads, mThreadList }, rc.getD .threadManagerOk)

def terminateAllThreads (m : Manager) (answer : ℕ → StopAnswer) :
    Option (Manager × ThreadManagerIfReturnCode) :=
  (sweep stopThread answer m.pthreads m.mThreadList).map fun (pthreads, mThreadList, rc) =>
    ({ m with pthreads, mThreadList }, rc.getD .threadManagerOk)

def clear (answer : ℕ → StopAnswer) : Pthreads → List Entry → Pthreads
  | k, [] => k
  | k, thr :: rest => clear (fun n => answer (n + 1)) (k.reset (answer 0) thr.tid) rest

def destruct (m : Manager) (stop reset : ℕ → StopAnswer) : Option Pthreads :=
  (m.terminateAllThreads stop).map fun (m, _) => clear reset m.pthreads m.mThreadList

end Manager

def Entry.view (a : EntryStart) (thr : Entry) : Thread := ⟨thr.isRunning, a.hasSyncObj⟩

section View
variable {k k' : Pthreads} {thr thr' : Entry} {es es' : List Entry}
  {rc : Option ThreadManagerIfReturnCode} {rest : List Thread}

theorem startAllThreads_view_of_break {answer : ℕ → StartAnswer} {a : EntryStart}
    {c : ThreadManagerIfReturnCode} (ha : answer 0 = a.toStartAnswer)
    (h : startThread a k thr = some (k', thr', some c)) :
    startAllThreads answer (thr.view a :: rest) = (thr'.view a :: rest, c) := by
  unfold startThread at h
  split_ifs at h with hrun hobj hlocked hstart hwait <;> cases h <;>
    simp_all [startAllThreads, Entry.view]

theorem startAllThreads_view_of_next {answer : ℕ → StartAnswer} {a : EntryStart}
    (ha : answer 0 = a.toStartAnswer) (h : startThread a k thr = some (k', thr', none)) :
    startAllThreads answer (thr.view a :: rest) =
      (thr'.view a :: (startAllThreads (fun n => answer (n + 1)) rest).1,
        (startAllThreads (fun n => answer (n + 1)) rest).2) := by
  unfold startThread at h
  split_ifs at h with hrun hobj hlocked hstart hwait <;> cases h <;>
    simp_all [startAllThreads, Entry.view]

theorem startAllThreads_view {answer : ℕ → EntryStart}
    (h : sweep startThread answer k es = some (k', es', rc)) :
    startAllThreads (fun n => (answer n).toStartAnswer) (es.mapIdx fun n => (·.view (answer n))) =
      (es'.mapIdx fun n => (·.view (answer n)), rc.getD .threadManagerOk) := by
  refine sweep_view (fun answer => startAllThreads fun n => (answer n).toStartAnswer)
    (·.getD .threadManagerOk) (fun a v => v = (·.view a)) (fun _ => rfl) ?_ ?_ (fun _ => rfl) h
  · rintro answer k e k' e' r v vs rfl hstep
    exact startAllThreads_view_of_break rfl hstep
  · rintro answer k e k' e' v vs rfl hstep
    exact startAllThreads_view_of_next rfl hstep

theorem terminateAllThreads_view_of_break {answer : ℕ → StopAnswer} {a : EntryStart}
    {c : ThreadManagerIfReturnCode} (h : stopThread (answer 0) k thr = some (k', thr', some c)) :
    terminateAllThreads answer (thr.view a :: rest) = (thr'.view a :: rest, c) := by
  unfold stopThread at h
  split_ifs at h with hrun hcancel hjoin <;> cases h <;>
    simp_all [terminateAllThreads, Entry.view]

theorem terminateAllThreads_view_of_next {answer : ℕ → StopAnswer} {a : EntryStart}
    (h : stopThread (answer 0) k thr = some (k', thr', none)) :
    terminateAllThreads answer (thr.view a :: rest) =
      (thr'.view a :: (terminateAllThreads (fun n => answer (n + 1)) rest).1,
        (terminateAllThreads (fun n => answer (n + 1)) rest).2) := by
  unfold stopThread at h
  split_ifs at h with hrun hcancel hjoin <;> cases h <;>
    simp_all [terminateAllThreads, Entry.view]

theorem terminateAllThreads_view {answer : ℕ → StopAnswer} {a : ℕ → EntryStart}
    (h : sweep stopThread answer k es = some (k', es', rc)) :
    terminateAllThreads answer (es.mapIdx fun n => (·.view (a n))) =
      (es'.mapIdx fun n => (·.view (a n)), rc.getD .threadManagerOk) := by
  refine sweep_view terminateAllThreads (·.getD .threadManagerOk) (fun _ v => ∃ a, v = (·.view a))
    (fun _ => rfl) ?_ ?_ (fun n => ⟨a n, rfl⟩) h
  · rintro answer k e k' e' r v vs ⟨a, rfl⟩ hstep
    exact terminateAllThreads_view_of_break hstep
  · rintro answer k e k' e' v vs ⟨a, rfl⟩ hstep
    exact terminateAllThreads_view_of_next hstep

end View

end ItcPlatform.ThreadManager
