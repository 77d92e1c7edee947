import ItcPlatform.Lib.Sweep
import ItcPlatform.ThreadManager.Attributes

/-! `startAllThreads` with the mutexes it locks and with the pthread calls that start a thread. -/

namespace ItcPlatform.ThreadManager.Locking
open Sweep

inductive Mutex
  | threadList
  | syncObj (n : ℕ)
  deriving DecidableEq

abbrev Locked := List Mutex

/-- `none` where the mutex is waited for and never unlocked. -/
def lock (mtx : Mutex) (locked : Locked) : Option Locked :=
  if mtx ∈ locked then none else some (mtx :: locked)

def unlock (mtx : Mutex) (locked : Locked) : Locked := locked.erase mtx

structure PthreadAnswer where
  hasCWrapperIf : Bool
  attrInit : ℤ
  attrSetSchedPolicy : ℤ → ℤ
  attrSetSchedParam : ℤ → ℤ
  attrSetInheritSched : ℤ
  create : ℤ
  condTimedWait : ℤ

structure Thread where
  isRunning : Bool
  syncObj : Option ℕ
  useHighestPriority : Bool

def configureAndStartThread (a : PthreadAnswer) (policy priority : ℤ) :
    ThreadManagerIfReturnCode :=
  if a.hasCWrapperIf = false then .threadManagerSyscallError
  else if a.attrInit ≠ 0 then .threadManagerSyscallError
  else if a.attrSetSchedPolicy policy ≠ 0 then .threadManagerSyscallError
  else if a.attrSetSchedParam priority ≠ 0 then .threadManagerSyscallError
  else if a.attrSetInheritSched ≠ 0 then .threadManagerSyscallError
  else if a.create ≠ 0 then .threadManagerSyscallError
  else .threadManagerOk

section Loop
variable (attrs : SchedAttributes) (a : PthreadAnswer) (locked : Locked) (thr : Thread)

def startCode : ThreadManagerIfReturnCode :=
  configureAndStartThread a attrs.mPolicy
    (if thr.useHighestPriority then attrs.mSelfLimitPrio else attrs.mPriority)

/-- The timed wait unlocks the mutex, and has locked it again when it returns. -/
def startThread : Option (Locked × Thread × Option ThreadManagerIfReturnCode) :=
  if thr.isRunning then some (locked, thr, none)
  else
    match thr.syncObj with
    | none => some (locked, thr, some .threadManagerSyscallError)
    | some n =>
      (lock (.syncObj n) locked).map fun locked =>
        if startCode attrs a thr ≠ .threadManagerOk then
          (locked, thr, some (startCode attrs a thr))
        else
          let locked := unlock (.syncObj n) locked
          if a.condTimedWait ≠ 0 then (locked, thr, some .threadManagerInitialisationTimeout)
          else (locked, { thr with isRunning := true }, none)

variable (answer : ℕ → PthreadAnswer) (threads : List Thread)

def startAllThreads : Option (Locked × List Thread × ThreadManagerIfReturnCode) :=
  (lock .threadList locked).bind fun locked =>
    (sweep (startThread attrs) answer locked threads).map fun (locked, threads, rc) =>
      (unlock .threadList locked, threads, rc.getD .threadManagerOk)

def Starts : Prop :=
  thr.isRunning = false ∧ thr.syncObj ≠ none ∧ startCode attrs a thr = .threadManagerOk ∧
    a.condTimedWait = 0

def Passes : Prop := thr.isRunning = true ∨ Starts attrs a thr

def Reached (i : ℕ) : Prop := ∀ j < i, ∀ thr, threads[j]? = some thr → Passes attrs (answer j) thr

def Takes (i : ℕ) (thr : Thread) (n : ℕ) : Prop :=
  threads[i]? = some thr ∧ Reached attrs answer threads i ∧ thr.isRunning = false ∧
    thr.syncObj = some n

def Creates : Prop :=
  ∀ i thr n, Takes attrs answer threads i thr n → startCode attrs (answer i) thr = .threadManagerOk

/-- The mutexes are unlocked, and the entries that were started before the first failure run. -/
structure Releases (locked' : Locked) (threads' : List Thread) : Prop where
  threadList : .threadList ∉ locked'
  syncObjs : ∀ i thr n, Takes attrs answer threads i thr n → .syncObj n ∉ locked'
  isRunning : ∀ i thr, threads[i]? = some thr → ∃ thr', threads'[i]? = some thr' ∧
    (thr'.isRunning ≠ thr.isRunning ↔ Reached attrs answer threads i ∧ Starts attrs (answer i) thr)

end Loop

section Cons
variable {attrs : SchedAttributes} {answer : ℕ → PthreadAnswer} {thr : Thread}
  {threads : List Thread} {i n : ℕ}

theorem reached_zero : Reached attrs answer threads 0 := fun _ hj => absurd hj (Nat.not_lt_zero _)

theorem reached_succ : Reached attrs answer (thr :: threads) (i + 1) ↔
    Passes attrs (answer 0) thr ∧ Reached attrs (fun n => answer (n + 1)) threads i := by
  constructor
  · intro h
    exact ⟨h 0 (Nat.succ_pos i) thr rfl, fun j hj thr' hthr' =>
      h (j + 1) (Nat.succ_lt_succ hj) thr' hthr'⟩
  · rintro ⟨hfirst, hrest⟩ j hj thr' hthr'
    cases j with
    | zero =>
      cases hthr'
      exact hfirst
    | succ j => exact hrest j (Nat.lt_of_succ_lt_succ hj) thr' hthr'

theorem takes_zero {thr' : Thread} : Takes attrs answer (thr :: threads) 0 thr' n ↔
    thr = thr' ∧ thr'.isRunning = false ∧ thr'.syncObj = some n := by
  rw [Takes, List.getElem?_cons_zero, Option.some_inj, and_iff_right reached_zero]

theorem takes_succ {thr' : Thread} : Takes attrs answer (thr :: threads) (i + 1) thr' n ↔
    Passes attrs (answer 0) thr ∧ Takes attrs (fun n => answer (n + 1)) threads i thr' n := by
  rw [Takes, Takes, reached_succ, List.getElem?_cons_succ]
  tauto

theorem creates_of_passes (h : Passes attrs (answer 0) thr) :
    Creates attrs answer (thr :: threads) ↔ Creates attrs (fun n => answer (n + 1)) threads := by
  constructor
  · exact fun hcreates i thr' n htakes => hcreates (i + 1) thr' n (takes_succ.mpr ⟨h, htakes⟩)
  · intro hcreates i thr' n htakes
    cases i with
    | zero =>
      obtain ⟨rfl, hidle, -⟩ := takes_zero.mp htakes
      exact (h.resolve_left (by simp [hidle])).2.2.1
    | succ i => exact hcreates i thr' n (takes_succ.mp htakes).2

theorem creates_of_fails (h : ¬ Passes attrs (answer 0) thr) :
    Creates attrs answer (thr :: threads) ↔
      ∀ n, thr.syncObj = some n → startCode attrs (answer 0) thr = .threadManagerOk := by
  have hidle : thr.isRunning = false := Bool.eq_false_iff.mpr fun hrun => h (.inl hrun)
  constructor
  · exact fun hcreates n hn => hcreates 0 thr n (takes_zero.mpr ⟨rfl, hidle, hn⟩)
  · intro hcode i thr' n htakes
    cases i with
    | zero =>
      obtain ⟨rfl, -, hn⟩ := takes_zero.mp htakes
      exact hcode n hn
    | succ i => exact absurd (takes_succ.mp htakes).1 h

end Cons

section Steps
variable {attrs : SchedAttributes} {a : PthreadAnswer} {locked locked' : Locked}
  {thr thr' : Thread} {n : ℕ}

theorem startThread_of_takes (hrun : thr.isRunning = false) (hn : thr.syncObj = some n)
    (hfree : .syncObj n ∉ locked) : startThread attrs a locked thr = some (
      if startCode attrs a thr ≠ .threadManagerOk then
        (.syncObj n :: locked, thr, some (startCode attrs a thr))
      else if a.condTimedWait ≠ 0 then (locked, thr, some .threadManagerInitialisationTimeout)
      else (locked, { thr with isRunning := true }, none)) := by
  simp only [startThread, hrun, hn, lock, if_neg hfree, Bool.false_eq_true, if_false,
    Option.map_some, unlock, List.erase_cons_head]

theorem startThread_of_waits (hrun : thr.isRunning = false) (hn : thr.syncObj = some n)
    (hheld : .syncObj n ∈ locked) : startThread attrs a locked thr = none := by
  simp only [startThread, hrun, hn, lock, if_pos hheld]
  rfl

theorem startThread_of_isRunning (hrun : thr.isRunning = true) :
    startThread attrs a locked thr = some (locked, thr, none) := if_pos hrun

theorem startThread_of_expired (hrun : thr.isRunning = false) (hn : thr.syncObj = none) :
    startThread attrs a locked thr = some (locked, thr, some .threadManagerSyscallError) := by
  simp only [startThread, hrun, hn]
  rfl

inductive Turn (attrs : SchedAttributes) (a : PthreadAnswer) (locked : Locked) (thr : Thread) :
    Locked × Thread × Option ThreadManagerIfReturnCode → Prop
  | isRunning : thr.isRunning = true → Turn attrs a locked thr (locked, thr, none)
  | expired : thr.isRunning = false → thr.syncObj = none →
      Turn attrs a locked thr (locked, thr, some .threadManagerSyscallError)
  | notCreated (n : ℕ) : thr.isRunning = false → thr.syncObj = some n → .syncObj n ∉ locked →
      startCode attrs a thr ≠ .threadManagerOk →
      Turn attrs a locked thr (.syncObj n :: locked, thr, some (startCode attrs a thr))
  | timedOut (n : ℕ) : thr.isRunning = false → thr.syncObj = some n → .syncObj n ∉ locked →
      startCode attrs a thr = .threadManagerOk → a.condTimedWait ≠ 0 →
      Turn attrs a locked thr (locked, thr, some .threadManagerInitialisationTimeout)
  | started (n : ℕ) : thr.syncObj = some n → .syncObj n ∉ locked → Starts attrs a thr →
      Turn attrs a locked thr (locked, { thr with isRunning := true }, none)

theorem turn_of_eq {r : Locked × Thread × Option ThreadManagerIfReturnCode}
    (h : startThread attrs a locked thr = some r) : Turn attrs a locked thr r := by
  cases hrun : thr.isRunning with
  | true =>
    rw [startThread_of_isRunning hrun] at h
    obtain rfl := Option.some.inj h
    exact .isRunning hrun
  | false =>
    cases hn : thr.syncObj with
    | none =>
      rw [startThread_of_expired hrun hn] at h
      obtain rfl := Option.some.inj h
      exact .expired hrun hn
    | some n =>
      by_cases hheld : Mutex.syncObj n ∈ locked
      · cases (startThread_of_waits hrun hn hheld).symm.trans h
      rw [startThread_of_takes hrun hn hheld] at h
      obtain rfl := Option.some.inj h
      split_ifs with hcode hwait
      · exact .notCreated n hrun hn hheld hcode
      · exact .timedOut n hrun hn hheld (not_not.mp hcode) hwait
      · refine .started n hn hheld ⟨hrun, ?_, not_not.mp hcode, not_not.mp hwait⟩
        simp [hn]

theorem Turn.passes {locked' : Locked} {thr' : Thread}
    (h : Turn attrs a locked thr (locked', thr', none)) :
    Passes attrs a thr ∧ locked' = locked ∧ thr'.isRunning = true := by
  cases h with
  | isRunning hrun => exact ⟨.inl hrun, rfl, hrun⟩
  | started n hn hfree hstarts => exact ⟨.inr hstarts, rfl, rfl⟩

theorem Turn.fails {locked' : Locked} {thr' : Thread} {rc : ThreadManagerIfReturnCode}
    (h : Turn attrs a locked thr (locked', thr', some rc)) :
    ¬ Passes attrs a thr ∧ thr' = thr := by
  cases h with
  | expired hrun hn => exact ⟨by simp [Passes, Starts, hrun, hn], rfl⟩
  | notCreated n hrun hn hfree hcode => exact ⟨by simp [Passes, Starts, hrun, hcode], rfl⟩
  | timedOut n hrun hn hfree hcode hwait => exact ⟨by simp [Passes, Starts, hrun, hwait], rfl⟩

theorem Turn.free {r : Locked × Thread × Option ThreadManagerIfReturnCode} {n : ℕ}
    (h : Turn attrs a locked thr r) (hidle : thr.isRunning = false) (hn : thr.syncObj = some n) :
    .syncObj n ∉ locked := by
  cases h <;> simp_all

end Steps

section Sweep
variable {attrs : SchedAttributes} {answer : ℕ → PthreadAnswer} {locked locked' : Locked}
  {threads threads' : List Thread} {r : Option ThreadManagerIfReturnCode}

theorem sweep_turns {thr : Thread}
    (h : sweep (startThread attrs) answer locked (thr :: threads) = some (locked', threads', r)) :
    (∃ thr' rc, Turn attrs (answer 0) locked thr (locked', thr', some rc) ∧
      threads' = thr' :: threads ∧ r = some rc) ∨
    ∃ thr' rest', Turn attrs (answer 0) locked thr (locked, thr', none) ∧
      threads' = thr' :: rest' ∧
        sweep (startThread attrs) (fun n => answer (n + 1)) locked threads =
          some (locked', rest', r) := by
  obtain ⟨thr', rc, hstep, rfl, hr⟩ | ⟨locked₁, thr', rest', hstep, rfl, hrest⟩ := sweep_cons h
  · exact .inl ⟨thr', rc, turn_of_eq hstep, rfl, hr⟩
  · obtain ⟨-, rfl, -⟩ := (turn_of_eq hstep).passes
    exact .inr ⟨thr', rest', turn_of_eq hstep, rfl, hrest⟩

theorem sweep_isRunning
    (h : sweep (startThread attrs) answer locked threads = some (locked', threads', r)) {i : ℕ}
    {thr : Thread} (hi : threads[i]? = some thr) : ∃ thr', threads'[i]? = some thr' ∧
      (thr'.isRunning ≠ thr.isRunning ↔
        Reached attrs answer threads i ∧ Starts attrs (answer i) thr) := by
  induction threads generalizing answer threads' i with
  | nil => cases hi
  | cons first rest ih =>
    obtain ⟨first', rc, hturn, rfl, hr⟩ | ⟨first', rest', hturn, rfl, hrest⟩ := sweep_turns h
    · obtain ⟨hfails, rfl⟩ := hturn.fails
      refine ⟨thr, hi, iff_of_false (not_not_intro rfl) ?_⟩
      rintro ⟨hreached, hstarts⟩
      cases i with
      | zero =>
        cases hi
        exact hfails (.inr hstarts)
      | succ i => exact hfails (reached_succ.mp hreached).1
    · obtain ⟨hpasses, -, hrun⟩ := hturn.passes
      cases i with
      | zero =>
        cases hi
        refine ⟨first', rfl, ?_⟩
        rw [hrun, and_iff_right reached_zero]
        exact ⟨fun hne => hpasses.resolve_left (Ne.symm hne), fun hstarts => by simp [hstarts.1]⟩
      | succ i =>
        obtain ⟨thr', hthr', hiff⟩ := ih hrest hi
        exact ⟨thr', hthr', by rw [hiff, reached_succ, and_iff_right hpasses]⟩

theorem sweep_takes
    (h : sweep (startThread attrs) answer locked threads = some (locked', threads', r)) {i n : ℕ}
    {thr : Thread} (htakes : Takes attrs answer threads i thr n) : .syncObj n ∉ locked := by
  induction threads generalizing answer threads' i with
  | nil => cases htakes.1
  | cons first rest ih =>
    obtain ⟨first', rc, hturn, rfl, hr⟩ | ⟨first', rest', hturn, rfl, hrest⟩ := sweep_turns h
    · cases i with
      | zero =>
        obtain ⟨rfl, hidle, hn⟩ := takes_zero.mp htakes
        exact hturn.free hidle hn
      | succ i => exact absurd (takes_succ.mp htakes).1 hturn.fails.1
    · cases i with
      | zero =>
        obtain ⟨rfl, hidle, hn⟩ := takes_zero.mp htakes
        exact hturn.free hidle hn
      | succ i => exact ih hrest (takes_succ.mp htakes).2

theorem sweep_locked
    (h : sweep (startThread attrs) answer locked threads = some (locked', threads', r)) :
    Creates attrs answer threads ∧ locked' = locked ∨
      ∃ i thr n, Takes attrs answer threads i thr n ∧
        startCode attrs (answer i) thr ≠ .threadManagerOk ∧ locked' = .syncObj n :: locked := by
  induction threads generalizing answer threads' with
  | nil =>
    cases h
    exact .inl ⟨fun i thr n htakes => absurd htakes.1 (by simp), rfl⟩
  | cons first rest ih =>
    obtain ⟨first', rc, hturn, rfl, hr⟩ | ⟨first', rest', hturn, rfl, hrest⟩ := sweep_turns h
    · rw [creates_of_fails hturn.fails.1]
      cases hturn with
      | expired hidle hn => exact .inl ⟨fun n hsome => (by cases hn.symm.trans hsome), rfl⟩
      | notCreated n hidle hn hfree hcode =>
        exact .inr ⟨0, first, n, takes_zero.mpr ⟨rfl, hidle, hn⟩, hcode, rfl⟩
      | timedOut n hidle hn hfree hcode hwait => exact .inl ⟨fun _ _ => hcode, rfl⟩
    · obtain ⟨hpasses, -, -⟩ := hturn.passes
      rw [creates_of_passes hpasses]
      refine (ih hrest).imp_right ?_
      rintro ⟨i, thr, n, htakes, hcode, rfl⟩
      exact ⟨i + 1, thr, n, takes_succ.mpr ⟨hpasses, htakes⟩, hcode, rfl⟩

theorem isSome_sweep (hfree : ∀ n, .syncObj n ∉ locked) :
    (sweep (startThread attrs) answer locked threads).isSome := by
  induction threads generalizing answer with
  | nil => rfl
  | cons thr rest ih =>
    have hstep : (startThread attrs (answer 0) locked thr).isSome := by
      cases hrun : thr.isRunning with
      | true => rw [startThread_of_isRunning hrun]; rfl
      | false =>
        cases hn : thr.syncObj with
        | none => rw [startThread_of_expired hrun hn]; rfl
        | some n => rw [startThread_of_takes hrun hn (hfree n)]; rfl
    obtain ⟨⟨locked', thr', r⟩, heq⟩ := Option.isSome_iff_exists.mp hstep
    cases r with
    | some rc => simp [sweep, heq]
    | none =>
      obtain ⟨-, rfl, -⟩ := (turn_of_eq heq).passes
      simpa [sweep, heq] using ih

def startAnswers (attrs : SchedAttributes) (answer : ℕ → PthreadAnswer) (threads : List Thread)
    (n : ℕ) : StartAnswer :=
  ⟨threads[n]?.elim .threadManagerOk (startCode attrs (answer n)), (answer n).condTimedWait⟩

def Thread.view (thr : Thread) : ThreadManager.Thread := ⟨thr.isRunning, thr.syncObj.isSome⟩

theorem startAllThreads_view
    (h : sweep (startThread attrs) answer locked threads = some (locked', threads', r)) :
    ThreadManager.startAllThreads (startAnswers attrs answer threads) (threads.map Thread.view) =
      (threads'.map Thread.view, r.getD .threadManagerOk) := by
  induction threads generalizing answer threads' with
  | nil =>
    cases h
    rfl
  | cons first rest ih =>
    rw [List.map_cons, ThreadManager.startAllThreads]
    obtain ⟨first', rc, hturn, rfl, hr⟩ | ⟨first', rest', hturn, rfl, hrest⟩ := sweep_turns h
    · cases hturn <;> simp_all [startAnswers, Thread.view]
    · have hrest' : (fun n => startAnswers attrs answer (first :: rest) (n + 1)) =
          startAnswers attrs (fun n => answer (n + 1)) rest := rfl
      rw [hrest', ih hrest]
      cases hturn <;> simp_all [startAnswers, Thread.view, Starts]

end Sweep

section Releases
variable {attrs : SchedAttributes} {answer : ℕ → PthreadAnswer} {threads threads' : List Thread}
  {locked locked' : Locked} {rc : ThreadManagerIfReturnCode}

theorem startAllThreads_eq (h : startAllThreads attrs locked answer threads =
    some (locked', threads', rc)) : .threadList ∉ locked ∧ ∃ locked₁ r,
      sweep (startThread attrs) answer (.threadList :: locked) threads =
        some (locked₁, threads', r) ∧ locked' = locked₁.erase .threadList := by
  obtain ⟨l, hl, hmap⟩ := Option.bind_eq_some_iff.mp h
  obtain ⟨⟨locked₁, es, r⟩, hs, heq⟩ := Option.map_eq_some_iff.mp hmap
  rw [lock] at hl
  split_ifs at hl with hheld
  obtain rfl := Option.some.inj hl
  cases heq
  exact ⟨hheld, locked₁, r, hs, rfl⟩

theorem releases_iff_creates (h : startAllThreads attrs locked answer threads =
    some (locked', threads', rc)) :
    Releases attrs answer threads locked' threads' ↔ Creates attrs answer threads := by
  obtain ⟨hlist, locked₁, r, hs, rfl⟩ := startAllThreads_eq h
  obtain ⟨hcreates, rfl⟩ | ⟨i, thr, n, htakes, hcode, rfl⟩ := sweep_locked hs
  · refine iff_of_true ⟨?_, fun i thr n htakes => ?_, fun i thr hi => sweep_isRunning hs hi⟩
      hcreates
    · rwa [List.erase_cons_head]
    · rw [List.erase_cons_head]
      exact fun hmem => sweep_takes hs htakes (List.mem_cons_of_mem _ hmem)
  · refine iff_of_false (fun hreleases => ?_) fun hcreates => hcode (hcreates i thr n htakes)
    refine hreleases.syncObjs i thr n htakes ?_
    rw [List.erase_cons_tail (by simp)]
    exact List.mem_cons_self

/-- `startAllThreads` returns where no mutex is held for good, and then it unlocks the mutexes it
took exactly when every thread it comes to is configured and created. -/
theorem releases_iff (attrs : SchedAttributes) (answer : ℕ → PthreadAnswer)
    (threads : List Thread) :
    (startAllThreads attrs [] answer threads).isSome ∧
      ∀ locked locked' threads' rc,
        startAllThreads attrs locked answer threads = some (locked', threads', rc) →
          (Releases attrs answer threads locked' threads' ↔ Creates attrs answer threads) := by
  refine ⟨?_, fun _ _ _ _ h => releases_iff_creates h⟩
  have hsome : (sweep (startThread attrs) answer [.threadList] threads).isSome :=
    isSome_sweep fun n => by simp
  obtain ⟨r, hr⟩ := Option.isSome_iff_exists.mp hsome
  simp [startAllThreads, lock, hr]

end Releases

def refused : PthreadAnswer := ⟨true, 0, fun _ => 0, fun _ => 0, 0, 11, 0⟩

theorem keeps_mutex_locked : ¬ ∀ attrs answer threads locked' threads' rc,
    startAllThreads attrs [] answer threads = some (locked', threads', rc) →
      Releases attrs answer threads locked' threads' := by
  intro h
  have hreleases := h .new (fun _ => refused) [⟨false, some 0, false⟩] [.syncObj 0]
    [⟨false, some 0, false⟩] .threadManagerSyscallError rfl
  have htakes : Takes .new (fun _ => refused) [⟨false, some 0, false⟩] 0 ⟨false, some 0, false⟩ 0 :=
    takes_zero.mpr ⟨rfl, rfl, rfl⟩
  exact hreleases.syncObjs _ _ _ htakes List.mem_cons_self

end ItcPlatform.ThreadManager.Locking
