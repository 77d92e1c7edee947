import Mathlib.Data.List.Basic
import ItcPlatform.ThreadManager.Ownership

/-! A thread list that grows: `addThread` moves the entries once the list is full, and a moved
entry ends its thread. -/

namespace ItcPlatform.ThreadManager
open Sweep History

structure Owned (k : Pthreads) (es : List Entry) : Prop extends Held k es where
  ended : ∀ n, k.Ended n → n < k.next
  running : ∀ thr ∈ es, thr.isRunning = true → ∃ n, thr.tid = .thread n ∧ k.Alive n

section Steps
variable {a : EntryStart} {k k' : Pthreads} {thr thr' : Entry}
  {r : Option ThreadManagerIfReturnCode} {pre es : List Entry} {n : ℕ}

theorem Owned.start (h : Owned k (pre ++ thr :: es))
    (hs : startThread a k thr = some (k', thr', r)) : Owned k' (pre ++ thr' :: es) := by
  obtain ⟨hcancelled, hjoined, hcases⟩ := startThread_cases hs
  have hended (n : ℕ) : k'.Ended n ↔ k.Ended n := by
    rw [Pthreads.Ended, Pthreads.Ended, hcancelled, hjoined]
  have hnext : k.next ≤ k'.next := by
    obtain ⟨-, -, hn, -⟩ | ⟨-, -, -, hn, -⟩ | ⟨-, -, hn, -⟩ := hcases <;> omega
  have halive {n : ℕ} (hn : k.Alive n) : k'.Alive n :=
    ⟨hn.1.trans_le hnext, (hended n).not.mpr hn.2⟩
  refine ⟨h.toHeld.start hs, fun n hn => (h.ended n ((hended n).mp hn)).trans_le hnext, ?_⟩
  obtain ⟨hothers, hself⟩ := forall_replace.mp h.running
  refine forall_replace.mpr ⟨fun x hx hrun => ?_, fun hrun => ?_⟩
  · obtain ⟨n, hn, hlive⟩ := hothers x hx hrun
    exact ⟨n, hn, halive hlive⟩
  · obtain ⟨-, rfl, -⟩ | ⟨-, -, hidle, -⟩ | ⟨-, htid, hn, -⟩ := hcases
    · obtain ⟨n, hn, hlive⟩ := hself hrun
      exact ⟨n, hn, halive hlive⟩
    · exact Bool.noConfusion (hidle.symm.trans hrun)
    · -- a new thread was never cancelled or joined
      exact ⟨k.next, htid, by omega, fun hmem => (h.ended _ ((hended _).mp hmem)).false⟩

theorem stopThread_stopped : stopThread stopped k thr =
    some (if thr.isRunning then (k.cancel thr.tid).join thr.tid else k,
      { thr with isRunning := false }, none) := by
  obtain ⟨tid, syncObj, isRunning⟩ := thr
  cases isRunning <;> rfl

theorem sweep_stopped (k : Pthreads) (es : List Entry) : ∃ k',
    sweep stopThread (fun _ => stopped) k es =
        some (k', es.map fun thr => { thr with isRunning := false }, none) ∧
      k'.next = k.next ∧ ∀ n, k'.Ended n ↔
        k.Ended n ∨ ∃ thr ∈ es, thr.isRunning = true ∧ thr.tid = .thread n := by
  induction es generalizing k with
  | nil => exact ⟨k, rfl, rfl, by simp⟩
  | cons thr rest ih =>
    obtain ⟨k', hsweep, hnext, hended⟩ :=
      ih (if thr.isRunning then (k.cancel thr.tid).join thr.tid else k)
    refine ⟨k', ?_, hnext.trans ?_, fun n => ?_⟩
    · rw [sweep, stopThread_stopped]
      dsimp only
      rw [hsweep]
      rfl
    · split <;> simp
    · rw [hended, List.exists_mem_cons_iff]
      cases hrun : thr.isRunning with
      | false => simp
      | true =>
        simp only [if_true, Pthreads.ended_join_cancel, true_and]
        tauto

@[simp] theorem next_relocate (answer : ℕ → StopAnswer × StopAnswer) :
    (Manager.relocate answer k es).next = k.next := by
  induction es generalizing answer k with
  | nil => rfl
  | cons thr rest ih => simp [Manager.relocate, ih, moveThread]

theorem ended_relocate : (Manager.relocate (fun _ => (stopped, stopped)) k es).Ended n ↔
    k.Ended n ∨ ∃ thr ∈ es, thr.tid = .thread n := by
  induction es generalizing k with
  | nil => simp [Manager.relocate]
  | cons thr rest ih =>
    rw [Manager.relocate, ih, moveThread, Pthreads.ended_reset_stopped,
      Pthreads.ended_reset_stopped, List.exists_mem_cons_iff]
    tauto

theorem Held.append (h : Held k es) (syncObj : ℕ) :
    Held k (es ++ [⟨.zero, syncObj, false⟩]) where
  bound thr hthr n hn := by
    rcases List.mem_append.mp hthr with hmem | hnew
    · exact h.bound thr hmem n hn
    · rw [List.mem_singleton.mp hnew] at hn
      exact Tid.noConfusion hn
  distinct := by
    refine List.pairwise_append.mpr ⟨h.distinct, List.pairwise_singleton .., ?_⟩
    intro x _ y hy n _ hn
    rw [List.mem_singleton.mp hy] at hn
    exact Tid.noConfusion hn

theorem Owned.append (h : Owned k es) (syncObj : ℕ) :
    Owned k (es ++ [⟨.zero, syncObj, false⟩]) where
  toHeld := h.toHeld.append syncObj
  ended := h.ended
  running thr hthr hrun := by
    rcases List.mem_append.mp hthr with hmem | hnew
    · exact h.running thr hmem hrun
    · rw [List.mem_singleton.mp hnew] at hrun
      exact Bool.noConfusion hrun

theorem Owned.relocate (h : Owned k es) (hidle : ∀ thr ∈ es, thr.isRunning = false) :
    Owned (Manager.relocate (fun _ => (stopped, stopped)) k es) es where
  bound thr hthr n hn := (next_relocate _).symm ▸ h.bound thr hthr n hn
  distinct := h.distinct
  ended n hn := by
    rw [next_relocate]
    rcases ended_relocate.mp hn with hold | ⟨thr, hthr, hn⟩
    · exact h.ended n hold
    · exact h.bound thr hthr n hn
  running thr hthr hrun := Bool.noConfusion ((hidle thr hthr).symm.trans hrun)

end Steps

inductive ManagerCall
  | addThread (syncObj newCapacity : ℕ)
  | startAllThreads (answer : ℕ → EntryStart)
  | terminateAllThreads

/-- A manager, and whether the last call was a `terminateAllThreads` that succeeded. -/
structure Watched where
  manager : Manager
  hasTerminated : Bool

namespace Watched

def new : Watched := ⟨.new, false⟩

def next (s : Watched) : ManagerCall → Option Watched
  | .addThread syncObj newCapacity =>
    (s.manager.addThread syncObj newCapacity fun _ => (stopped, stopped)).map fun r => ⟨r.1, false⟩
  | .startAllThreads answer => (s.manager.startAllThreads answer).map fun r => ⟨r.1, false⟩
  | .terminateAllThreads =>
    (s.manager.terminateAllThreads fun _ => stopped).map fun r => ⟨r.1, r.2 = .threadManagerOk⟩

/-- Every entry marked running owns a live thread, and a successful `terminateAllThreads` leaves
no thread alive. -/
structure OwnsLive (s : Watched) : Prop where
  running : ∀ thr ∈ s.manager.mThreadList, thr.isRunning = true →
    ∃ n, thr.tid = .thread n ∧ s.manager.pthreads.Alive n
  terminated : s.hasTerminated = true → ∀ n, ¬ s.manager.pthreads.Alive n

/-- A full list grows only while no entry is running, and the threads are terminated only while
every live one belongs to a running entry. -/
def KeepsThreads (s : Watched) : ManagerCall → Prop
  | .addThread _ newCapacity =>
    s.manager.capacity ≤ s.manager.mThreadList.length →
      s.manager.mThreadList.length < newCapacity →
        ∀ thr ∈ s.manager.mThreadList, thr.isRunning = false
  | .startAllThreads _ => True
  | .terminateAllThreads =>
    ∀ n, s.manager.pthreads.Alive n →
      ∃ thr ∈ s.manager.mThreadList, thr.isRunning = true ∧ thr.tid = .thread n

variable {s s' : Watched} {c : ManagerCall} {calls : List ManagerCall}

structure Inv (s : Watched) : Prop extends Owned s.manager.pthreads s.manager.mThreadList where
  terminated : s.hasTerminated = true → ∀ n, ¬ s.manager.pthreads.Alive n

theorem Inv.ownsLive (h : Inv s) : OwnsLive s := ⟨h.running, h.terminated⟩

theorem Inv.new : Inv new where
  bound _ h := nomatch h
  distinct := .nil
  ended _ h := h.elim (fun h => nomatch h) fun h => nomatch h
  running _ h := nomatch h
  terminated h := nomatch h

theorem next_addThread_of_full {syncObj newCapacity : ℕ}
    (hfull : s.manager.capacity ≤ s.manager.mThreadList.length)
    (hgrow : s.manager.mThreadList.length < newCapacity) :
    next s (.addThread syncObj newCapacity) =
      some ⟨⟨s.manager.mThreadList ++ [⟨.zero, syncObj, false⟩], newCapacity,
        Manager.relocate (fun _ => (stopped, stopped)) s.manager.pthreads s.manager.mThreadList⟩,
        false⟩ := by
  simp only [next, Manager.addThread, if_neg (not_lt.mpr hfull), if_neg (not_le.mpr hgrow)]
  rfl

theorem Inv.addThread {syncObj newCapacity : ℕ} (h : Inv s)
    (hok : KeepsThreads s (.addThread syncObj newCapacity))
    (hs : next s (.addThread syncObj newCapacity) = some s') : Inv s' := by
  by_cases hroom : s.manager.mThreadList.length < s.manager.capacity
  · simp only [next, Manager.addThread, if_pos hroom] at hs
    obtain rfl := Option.some.inj hs
    exact ⟨h.toOwned.append syncObj, fun hnot => Bool.noConfusion hnot⟩
  · have hfull := not_lt.mp hroom
    by_cases hgrow : s.manager.mThreadList.length < newCapacity
    · obtain rfl := Option.some.inj ((next_addThread_of_full hfull hgrow).symm.trans hs)
      exact ⟨(h.toOwned.relocate (hok hfull hgrow)).append syncObj,
        fun hnot => Bool.noConfusion hnot⟩
    · simp only [next, Manager.addThread, if_neg hroom, if_pos (not_lt.mp hgrow)] at hs
      cases hs

theorem Inv.startAllThreads {answer : ℕ → EntryStart} (h : Inv s)
    (hs : next s (.startAllThreads answer) = some s') : Inv s' := by
  obtain ⟨⟨m, rc⟩, hstart, rfl⟩ := Option.map_eq_some_iff.mp hs
  obtain ⟨r, hsweep⟩ := Manager.startAllThreads_eq hstart
  exact ⟨sweep_keeps (fun _ _ _ _ _ _ _ _ h hs => h.start hs) h.toOwned hsweep,
    fun hnot => Bool.noConfusion hnot⟩

theorem next_terminateAllThreads (s : Watched) : ∃ k',
    next s .terminateAllThreads =
        some ⟨{ s.manager with
            mThreadList := s.manager.mThreadList.map fun thr => { thr with isRunning := false }
            pthreads := k' }, true⟩ ∧
      k'.next = s.manager.pthreads.next ∧ ∀ n, k'.Ended n ↔ s.manager.pthreads.Ended n ∨
        ∃ thr ∈ s.manager.mThreadList, thr.isRunning = true ∧ thr.tid = .thread n := by
  obtain ⟨k', hsweep, hnext, hended⟩ := sweep_stopped s.manager.pthreads s.manager.mThreadList
  refine ⟨k', ?_, hnext, hended⟩
  simp only [next, Manager.terminateAllThreads, hsweep]
  rfl

theorem Inv.terminateAllThreads (h : Inv s) (hok : KeepsThreads s .terminateAllThreads)
    (hs : next s .terminateAllThreads = some s') : Inv s' := by
  obtain ⟨k', hs', hnext, hended⟩ := next_terminateAllThreads s
  obtain rfl := Option.some.inj (hs'.symm.trans hs)
  have hnone (n : ℕ) : ¬ k'.Alive n := by
    rintro ⟨hn, hlive⟩
    rw [hended] at hlive
    obtain ⟨hold, hother⟩ := not_or.mp hlive
    exact hother (hok n ⟨hnext ▸ hn, hold⟩)
  refine ⟨⟨⟨?_, List.pairwise_map.mpr h.distinct⟩, fun n hn => ?_, ?_⟩, fun _ => hnone⟩
  · intro thr hthr n hn
    obtain ⟨x, hx, rfl⟩ := List.mem_map.mp hthr
    exact hnext.symm ▸ h.bound x hx n hn
  · dsimp only at hn ⊢
    rw [hnext]
    rcases (hended n).mp hn with hold | ⟨thr, hthr, -, htid⟩
    · exact h.ended n hold
    · exact h.bound thr hthr n htid
  · intro thr hthr hrun
    obtain ⟨x, hx, rfl⟩ := List.mem_map.mp hthr
    exact Bool.noConfusion hrun

theorem Inv.next (h : Inv s) (hok : KeepsThreads s c) (hs : next s c = some s') : Inv s' := by
  cases c with
  | addThread syncObj newCapacity => exact h.addThread hok hs
  | startAllThreads answer => exact h.startAllThreads hs
  | terminateAllThreads => exact h.terminateAllThreads hok hs

theorem not_ownsLive_of_not_keepsThreads (hnot : ¬ KeepsThreads s c) :
    ∃ s', Watched.next s c = some s' ∧ ¬ OwnsLive s' := by
  cases c with
  | addThread syncObj newCapacity =>
    obtain ⟨hfull, hnot⟩ := Classical.not_imp.mp hnot
    obtain ⟨hgrow, hnot⟩ := Classical.not_imp.mp hnot
    obtain ⟨thr, hnot⟩ := not_forall.mp hnot
    obtain ⟨hthr, hrun⟩ := Classical.not_imp.mp hnot
    refine ⟨_, next_addThread_of_full hfull hgrow, fun howns => ?_⟩
    obtain ⟨n, hn, -, hlive⟩ :=
      howns.running thr (List.mem_append_left _ hthr) (Bool.not_eq_false _ ▸ hrun)
    exact hlive (ended_relocate.mpr (.inr ⟨thr, hthr, hn⟩))
  | startAllThreads answer => exact absurd trivial hnot
  | terminateAllThreads =>
    obtain ⟨n, hnot⟩ := not_forall.mp hnot
    obtain ⟨hlive, hother⟩ := Classical.not_imp.mp hnot
    obtain ⟨k', hs', hnext, hended⟩ := next_terminateAllThreads s
    refine ⟨_, hs', fun howns => howns.terminated rfl n ⟨hnext.symm ▸ hlive.1, ?_⟩⟩
    exact (hended n).not.mpr (not_or.mpr ⟨hlive.2, hother⟩)

/-- Entries own live threads throughout exactly where the list never outgrows its capacity with
a running entry in it, and no `terminateAllThreads` meets a thread that timed out. -/
theorem always_ownsLive_iff :
    Always Watched.next OwnsLive calls new ↔ Each Watched.next KeepsThreads calls new :=
  always_iff_each (fun _ h => Inv.ownsLive h) (fun _ _ _ h hok hs => Inv.next h hok hs)
    (fun _ _ _ hnot => not_ownsLive_of_not_keepsThreads hnot) .new

/-- The ninth entry moves the first, whose thread is running. -/
theorem not_always_ownsLive_ninthThread : ¬ Always Watched.next OwnsLive
    ([.addThread 0 16, .startAllThreads fun _ => Manager.started] ++
      List.replicate 8 (.addThread 1 16)) new := by
  intro h
  have hend : after Watched.next
      ([.addThread 0 16, .startAllThreads fun _ => Manager.started] ++
        List.replicate 8 (.addThread 1 16)) new =
      some ⟨⟨⟨.thread 0, 0, true⟩ :: List.replicate 8 ⟨.zero, 1, false⟩, 16,
        ⟨1, [], [], [0, 0], [0, 0]⟩⟩, false⟩ := rfl
  obtain ⟨n, hn, -, hlive⟩ := (h.of_after hend).running _ List.mem_cons_self rfl
  obtain rfl := Tid.thread.inj hn
  exact hlive (.inl List.mem_cons_self)

end Watched

end ItcPlatform.ThreadManager
