import Mathlib.Data.Int.Notation
import Mathlib.Data.Nat.Notation
import Mathlib.Tactic.SplitIfs

/-! The thread list of `ThreadManager`, the loop that starts it and the loop that ends it. -/

namespace ItcPlatform.ThreadManager

inductive ThreadManagerIfReturnCode
  | threadManagerUndefined
  | threadManagerOk
  | threadManagerSyscallError
  | threadManagerInvalidArguments
  | threadManagerInitialisationTimeout
  deriving DecidableEq

structure Thread where
  isRunning : Bool
  hasSyncObj : Bool
  deriving DecidableEq

structure StartAnswer where
  configureAndStartThread : ThreadManagerIfReturnCode
  condTimedWait : ℤ

structure StopAnswer where
  cancel : ℤ
  join : ℤ

/-- `answer n` is for the entry `n` of the list. -/
def startAllThreads (answer : ℕ → StartAnswer) :
    List Thread → List Thread × ThreadManagerIfReturnCode
  | [] => ([], .threadManagerOk)
  | thr :: rest =>
    let started :=
      let r := startAllThreads (fun n => answer (n + 1)) rest
      ({ thr with isRunning := true } :: r.1, r.2)
    if thr.isRunning then started
    else if thr.hasSyncObj = false then (thr :: rest, .threadManagerSyscallError)
    else if (answer 0).configureAndStartThread ≠ .threadManagerOk then
      (thr :: rest, (answer 0).configureAndStartThread)
    else if (answer 0).condTimedWait ≠ 0 then (thr :: rest, .threadManagerInitialisationTimeout)
    else started

def terminateAllThreads (answer : ℕ → StopAnswer) :
    List Thread → List Thread × ThreadManagerIfReturnCode
  | [] => ([], .threadManagerOk)
  | thr :: rest =>
    let stopped :=
      let r := terminateAllThreads (fun n => answer (n + 1)) rest
      ({ thr with isRunning := false } :: r.1, r.2)
    if thr.isRunning = false then stopped
    else if (answer 0).cancel ≠ 0 ∨ (answer 0).join ≠ 0 then
      (thr :: rest, .threadManagerSyscallError)
    else stopped

theorem length_startAllThreads (answer : ℕ → StartAnswer) (threads : List Thread) :
    (startAllThreads answer threads).1.length = threads.length := by
  induction threads generalizing answer with
  | nil => rfl
  | cons thr rest ih =>
    rw [startAllThreads]
    split_ifs <;> simp [ih]

theorem startAllThreads_of_starts {answer : ℕ → StartAnswer} {threads : List Thread}
    (h : ∀ n, (answer n).configureAndStartThread = .threadManagerOk ∧ (answer n).condTimedWait = 0)
    (hsync : ∀ thr ∈ threads, thr.isRunning = true ∨ thr.hasSyncObj = true) :
    startAllThreads answer threads =
      (threads.map fun thr => { thr with isRunning := true }, .threadManagerOk) := by
  induction threads generalizing answer with
  | nil => rfl
  | cons thr rest ih =>
    have hrest := ih (fun n => h (n + 1)) fun thr' hthr' =>
      hsync thr' (List.mem_cons_of_mem _ hthr')
    rw [startAllThreads, hrest, List.map_cons]
    rcases hsync thr List.mem_cons_self with hrun | hobj
    · rw [if_pos hrun]
    · have hobj' : ¬ thr.hasSyncObj = false := by simp [hobj]
      rw [if_neg hobj', if_neg (not_not_intro (h 0).1), if_neg (not_not_intro (h 0).2), ite_self]

end ItcPlatform.ThreadManager
