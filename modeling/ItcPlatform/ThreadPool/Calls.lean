import Mathlib.Data.List.TakeWhile
import ItcPlatform.ThreadPool.Machine

/-! One thread that makes all calls of a pool's life, the destructor's `terminate` last. Its
workers run beside it; what the thread sees is that of a sequential reference. -/

namespace ItcPlatform.ThreadPool
open Interleaving
variable {ι τ : Type*}

inductive Call (τ : Type*)
  | enqueue (task : τ)
  | terminate

def Call.action : Call τ → Action ι τ
  | .enqueue task => .enqueue task
  | .terminate => .terminate

/-- A thread with the calls it has yet to make, whether each future it got so far is valid, and
whether a `join` threw. -/
structure Caller (ι τ : Type*) where
  pc : Pc ι τ
  script : List (Call τ)
  futures : List Bool
  threw : Bool

def Caller.action (c : Caller ι τ) : Option ι → Action ι τ × List (Call τ)
  | none => (.wakeUp, c.script)
  | some notified =>
    match c.pc, c.script with
    | .outside, call :: rest => (call.action, rest)
    | _, script => (.access notified, script)

namespace Pool

def future (s : Pool ι τ) : Pc ι τ → List Bool
  | .enqueueHolding _ _ => [!s.mIsTerminated]
  | _ => []

def throws [DecidableEq ι] (s : Pool ι τ) : Pc ι τ → Bool
  | .joining (worker :: _) => worker ∈ s.joined
  | _ => false

end Pool

section Programs
variable [DecidableEq ι] (workers : List ι)

def scripted : Program ι (Option ι) (Pool ι τ) (Caller ι τ) := fun i a s c =>
  let (action, script) := c.action a
  (threadPool workers i action s c.pc).map fun r =>
    (r.1, ⟨r.2, script, c.futures ++ s.future c.pc, c.threw || s.throws c.pc⟩)

def scriptedStart (main : ι) (calls : List (Call τ)) : State ι (Pool ι τ) (Caller ι τ) :=
  ⟨.new, fun i =>
    ⟨if i ∈ workers then .locking else .outside, if i = main then calls else [], [], false⟩⟩

def unscripted (s : State ι (Pool ι τ) (Caller ι τ)) : State ι (Pool ι τ) (Pc ι τ) :=
  ⟨s.shared, fun i => (s.locals i).pc⟩

theorem run_unscripted {main : ι} {calls : List (Call τ)} {s : State ι (Pool ι τ) (Caller ι τ)}
    (h : Run (scripted workers) anyStep (scriptedStart workers main calls) s) :
    Run (threadPool workers) anyStep (start workers) (unscripted s) := by
  induction h with
  | start => exact .start
  | @step s s' i a hrun _ hfire ih =>
    obtain ⟨x, c, hP, rfl⟩ := fire_eq_some.mp hfire
    obtain ⟨⟨x', pc⟩, hstep, heq⟩ := Option.map_eq_some_iff.mp hP
    cases heq
    refine .step ih trivial (fire_eq_some.mpr ⟨x', pc, hstep, ?_⟩)
    refine State.ext rfl (funext fun j => ?_)
    by_cases hj : j = i
    · subst hj
      simp [unscripted]
    · simp [unscripted, hj]

end Programs

structure View (τ : Type*) where
  futures : List Bool
  accepted : List τ
  threw : Bool
  mIsTerminated : Bool

namespace View

def new : View τ := ⟨[], [], false, false⟩

/-- A pool without threads; each `terminate` after the first throws, if there are workers. -/
def next (workers : List ι) (v : View τ) : Call τ → View τ
  | .enqueue task =>
    if v.mIsTerminated then { v with futures := v.futures ++ [false] }
    else { v with futures := v.futures ++ [true], accepted := v.accepted ++ [task] }
  | .terminate =>
    { v with threw := v.threw || (v.mIsTerminated && !workers.isEmpty), mIsTerminated := true }

def after (workers : List ι) (calls : List (Call τ)) (v : View τ) : View τ :=
  calls.foldl (next workers) v

end View

def view (s : Pool ι τ) (c : Caller ι τ) : View τ :=
  ⟨c.futures, s.accepted, c.threw, s.mIsTerminated⟩

section Calls
variable [DecidableEq ι] (workers : List ι) (total : View τ)

def Joins (s : Pool ι τ) (c : Caller ι τ) (rest : List ι) : Prop :=
  s.mIsTerminated = true ∧
    ((∃ joined, workers = joined ++ rest ∧ s.joined = joined.toFinset ∧
        (view s c).after workers c.script = total) ∨
      (rest = workers ∧ workers ≠ [] ∧ s.joined = workers.toFinset ∧
        View.after workers c.script { view s c with threw := true } = total))

def Due (s : Pool ι τ) (c : Caller ι τ) : Prop :=
  let quiet := s.joined = if s.mIsTerminated then workers.toFinset else ∅
  match c.pc with
  | .outside => (view s c).after workers c.script = total ∧ quiet
  | .enqueueLocking task caller | .enqueueHolding task caller =>
    caller = none ∧ (view s c).after workers (.enqueue task :: c.script) = total ∧ quiet
  | .enqueueNotifying caller =>
    caller = none ∧ (view s c).after workers c.script = total ∧ quiet
  | .terminateLocking | .terminateHolding =>
    (view s c).after workers (.terminate :: c.script) = total ∧ quiet
  | .terminateNotifying => Joins workers total s c workers
  | .joining rest => Joins workers total s c rest
  | _ => False

variable {workers total} {i : ι} {a : Option ι} {s s' : Pool ι τ} {c c' : Caller ι τ}

def Call.entry : Call τ → Pc ι τ
  | .enqueue task => .enqueueLocking task none
  | .terminate => .terminateLocking

theorem scripted_cases (h : scripted workers i a s c = some (s', c')) :
    (∃ call, c = ⟨.outside, call :: c'.script, c'.futures, c'.threw⟩ ∧ s' = s ∧
      c'.pc = call.entry) ∨
    (c' = ⟨c'.pc, c.script, c.futures ++ s.future c.pc, c.threw || s.throws c.pc⟩ ∧
      ((∃ notified, s.access workers i notified c.pc = some (s', c'.pc)) ∨
        c.pc = .waiting ∧ s' = { s with waiting := s.waiting.erase i } ∧ c'.pc = .locking)) := by
  obtain ⟨⟨x, pc'⟩, hstep, heq⟩ := Option.map_eq_some_iff.mp h
  cases heq
  obtain ⟨pc, script, futures, threw⟩ := c
  cases a with
  | none =>
    cases pc <;> cases hstep
    exact .inr ⟨rfl, .inr ⟨rfl, rfl, rfl⟩⟩
  | some notified =>
    cases pc with
    | outside =>
      cases script with
      | nil => cases hstep
      | cons call rest =>
        refine .inl ⟨call, by simp [Pool.future, Pool.throws], ?_⟩
        cases call <;> cases hstep <;> exact ⟨rfl, rfl⟩
    | _ => exact .inr ⟨rfl, .inl ⟨notified, hstep⟩⟩

theorem Due.begin {call : Call τ} {script : List (Call τ)} {futures : List Bool} {threw : Bool}
    (h : Due workers total s ⟨.outside, call :: script, futures, threw⟩) :
    Due workers total s ⟨call.entry, script, futures, threw⟩ := by
  obtain ⟨hview, hquiet⟩ := h
  cases call with
  | enqueue task => exact ⟨rfl, hview, hquiet⟩
  | terminate => exact ⟨hview, hquiet⟩

theorem Due.access (hnodup : workers.Nodup) {notified : ι} {pc pc' : Pc ι τ}
    {script : List (Call τ)} {futures : List Bool} {threw : Bool}
    (hdue : Due workers total s ⟨pc, script, futures, threw⟩)
    (h : s.access workers i notified pc = some (s', pc')) :
    Due workers total s' ⟨pc', script, futures ++ s.future pc, threw || s.throws pc⟩ := by
  have hsame : (⟨pc', script, futures ++ [], threw || false⟩ : Caller ι τ) =
      ⟨pc', script, futures, threw⟩ := by rw [List.append_nil, Bool.or_false]
  cases pc with
  | outside => cases h
  | enqueueLocking task caller =>
    obtain ⟨-, rfl, rfl⟩ := lock_eq_some h
    exact hsame ▸ hdue
  | enqueueHolding task caller =>
    obtain ⟨rfl, hview, hquiet⟩ := hdue
    rw [Pool.access] at h
    split_ifs at h with hterminated <;> cases h
    · refine ⟨?_, hquiet⟩
      rw [← hview]
      simp [view, View.after, View.next, hterminated, Pool.future, Pool.throws]
    · refine ⟨rfl, ?_, hquiet⟩
      rw [← hview]
      simp [view, View.after, View.next, hterminated, Pool.future, Pool.throws]
  | enqueueNotifying caller =>
    obtain ⟨rfl, hview, hquiet⟩ := hdue
    obtain ⟨s₁, hnotify, heq⟩ := Option.map_eq_some_iff.mp h
    cases heq
    rw [Pool.notifyOne] at hnotify
    split_ifs at hnotify <;> cases hnotify <;> exact hsame ▸ ⟨hview, hquiet⟩
  | terminateLocking =>
    obtain ⟨-, rfl, rfl⟩ := lock_eq_some h
    exact hsame ▸ hdue
  | terminateHolding =>
    obtain ⟨hview, hquiet⟩ := hdue
    cases h
    refine hsame ▸ ⟨rfl, ?_⟩
    cases hterminated : s.mIsTerminated with
    | false =>
      rw [if_neg (by simp [hterminated])] at hquiet
      refine .inl ⟨[], rfl, hquiet, ?_⟩
      rw [← hview]
      simp [view, View.after, View.next, hterminated]
    | true =>
      rw [if_pos hterminated] at hquiet
      by_cases hworkers : workers = []
      · refine .inl ⟨[], rfl, by rw [hquiet, hworkers], ?_⟩
        rw [← hview]
        simp [view, View.after, View.next, hworkers]
      · have hsome : workers.isEmpty = false := by simpa using hworkers
        refine .inr ⟨rfl, hworkers, hquiet, ?_⟩
        rw [← hview]
        simp [view, View.after, View.next, hterminated, hsome]
  | terminateNotifying =>
    cases h
    exact hsame ▸ hdue
  | joining rest =>
    obtain ⟨hterminated, hjoins⟩ := hdue
    cases rest with
    | nil =>
      cases h
      obtain ⟨joined, hworkers, hjoined, hview⟩ | ⟨hworkers, hne, -, -⟩ := hjoins
      · refine hsame ▸ ⟨hview, ?_⟩
        rw [if_pos hterminated, hworkers, List.append_nil]
        exact hjoined
      · exact absurd hworkers.symm hne
    | cons worker rest =>
      rw [Pool.access] at h
      split_ifs at h with hmem hexited <;> cases h
      · -- only a pool whose workers are all joined is joined again
        obtain ⟨joined, hworkers, hjoined, -⟩ | ⟨hworkers, hne, hjoined, hview⟩ := hjoins
        · rw [hworkers] at hnodup
          rw [hjoined, List.mem_toFinset] at hmem
          exact absurd rfl ((List.nodup_append.mp hnodup).2.2 worker hmem worker List.mem_cons_self)
        · refine ⟨?_, by rw [if_pos hterminated, hjoined]⟩
          rw [← hview]
          simp [view, Pool.future, Pool.throws, hmem]
      · obtain ⟨joined, hworkers, hjoined, hview⟩ | ⟨hworkers, -, hjoined, -⟩ := hjoins
        · refine ⟨hterminated, .inl ⟨joined ++ [worker], by simpa using hworkers, ?_, ?_⟩⟩
          · rw [List.toFinset_append, ← hjoined, Finset.union_comm]
            exact Finset.insert_eq worker s.joined
          · rw [← hview]
            simp [view, Pool.future, Pool.throws, hmem]
        · rw [hjoined, List.mem_toFinset, ← hworkers] at hmem
          exact absurd List.mem_cons_self hmem
  | _ => exact hdue.elim

theorem Due.step (hnodup : workers.Nodup) (hdue : Due workers total s c)
    (h : scripted workers i a s c = some (s', c')) : Due workers total s' c' := by
  obtain ⟨call, rfl, rfl, hpc⟩ | ⟨hc, ⟨notified, haccess⟩ | ⟨hpc, -⟩⟩ := scripted_cases h
  · obtain ⟨pc, script, futures, threw⟩ := c'
    obtain rfl : pc = call.entry := hpc
    exact hdue.begin
  · rw [hc]
    exact hdue.access hnodup haccess
  · rw [Due, hpc] at hdue
    exact hdue.elim

def Pc.Serves : Pc ι τ → Prop
  | .outside | .locking | .checking | .waiting | .holding _ | .running _ | .exited => True
  | _ => False

theorem Pc.Serves.access {notified : ι} {pc pc' : Pc ι τ} (hserves : pc.Serves)
    (h : s.access workers i notified pc = some (s', pc')) :
    pc'.Serves ∧ s'.mIsTerminated = s.mIsTerminated ∧ s'.joined = s.joined ∧
      s'.accepted = s.accepted := by
  cases pc with
  | outside | exited => cases h
  | locking =>
    obtain ⟨-, rfl, rfl⟩ := lock_eq_some h
    exact ⟨trivial, rfl, rfl, rfl⟩
  | checking =>
    rw [Pool.access] at h
    split at h <;> cases h <;> exact ⟨trivial, rfl, rfl, rfl⟩
  | waiting =>
    rw [Pool.access] at h
    split_ifs at h
    cases h
    exact ⟨trivial, rfl, rfl, rfl⟩
  | holding task | running task =>
    cases h
    exact ⟨trivial, rfl, rfl, rfl⟩
  | _ => exact hserves.elim

theorem serves_step (hscript : c.script = []) (hserves : c.pc.Serves)
    (h : scripted workers i a s c = some (s', c')) :
    (c'.script = [] ∧ c'.pc.Serves) ∧ s'.mIsTerminated = s.mIsTerminated ∧
      s'.joined = s.joined ∧ s'.accepted = s.accepted := by
  obtain ⟨call, rfl, -, -⟩ | ⟨hc, ⟨notified, haccess⟩ | ⟨-, rfl, hpc⟩⟩ := scripted_cases h
  · cases hscript
  · obtain ⟨hserves', hsame⟩ := hserves.access haccess
    exact ⟨⟨by rw [hc, hscript], hserves'⟩, hsame⟩
  · exact ⟨⟨by rw [hc, hscript], by rw [hpc]; trivial⟩, rfl, rfl, rfl⟩

theorem Due.congr (hdue : Due workers total s c) (hterminated : s'.mIsTerminated = s.mIsTerminated)
    (hjoined : s'.joined = s.joined) (haccepted : s'.accepted = s.accepted) :
    Due workers total s' c := by
  have hview : view s' c = view s c := by rw [view, view, haccepted, hterminated]
  unfold Due Joins at hdue ⊢
  rwa [hview, hterminated, hjoined]

variable {main : ι} {calls : List (Call τ)} {σ : State ι (Pool ι τ) (Caller ι τ)}

theorem due_run (hnodup : workers.Nodup) (hmain : main ∉ workers)
    (h : Run (scripted workers) anyStep (scriptedStart workers main calls) σ) :
    Due workers (View.new.after workers calls) σ.shared (σ.locals main) := by
  refine (h.invariant (I := fun σ => Due workers (View.new.after workers calls) σ.shared
    (σ.locals main) ∧ ∀ i ≠ main, (σ.locals i).script = [] ∧ (σ.locals i).pc.Serves) ⟨?_, ?_⟩ ?_).1
  · simp [scriptedStart, Due, view, hmain, View.new, Pool.new]
  · intro i hi
    refine ⟨if_neg hi, ?_⟩
    by_cases hmem : i ∈ workers <;> simp [scriptedStart, hmem, Pc.Serves]
  · rintro σ i a x c ⟨hdue, hserve⟩ - hP
    by_cases hi : i = main
    · subst hi
      refine ⟨by simpa using hdue.step hnodup hP, fun j hj => ?_⟩
      simpa [hj] using hserve j hj
    · obtain ⟨hserves, hterminated, hjoined, haccepted⟩ :=
        serves_step (hserve i hi).1 (hserve i hi).2 hP
      refine ⟨?_, fun j hj => ?_⟩
      · dsimp only
        rw [Function.update_of_ne (Ne.symm hi)]
        exact hdue.congr hterminated hjoined haccepted
      · by_cases hji : j = i
        · subst hji
          simpa using hserves
        · simpa [hji] using hserve j hj

end Calls

section Reference
variable {workers : List ι} {calls : List (Call τ)} {v : View τ}

def Call.isEnqueue : Call τ → Bool
  | .enqueue _ => true
  | .terminate => false

def tasks : List (Call τ) → List τ
  | [] => []
  | .enqueue task :: rest => task :: tasks rest
  | .terminate :: rest => tasks rest

theorem after_of_terminated (h : v.mIsTerminated = true) :
    (v.after workers calls).futures = v.futures ++ (tasks calls).map (fun _ => false) ∧
      (v.after workers calls).accepted = v.accepted ∧
      ((v.after workers calls).threw = true ↔
        v.threw = true ∨ workers ≠ [] ∧ ∃ call ∈ calls, call.isEnqueue = false) := by
  induction calls generalizing v with
  | nil => simp [View.after, tasks]
  | cons call calls ih =>
    cases call with
    | enqueue task =>
      obtain ⟨hfutures, haccepted, hthrew⟩ :=
        @ih (v.next workers (.enqueue task)) (by simp [View.next, h])
      refine ⟨hfutures.trans ?_, haccepted.trans ?_, hthrew.trans ?_⟩
      · simp [View.next, h, tasks]
      · simp [View.next, h]
      · simp [View.next, h, Call.isEnqueue]
    | terminate =>
      obtain ⟨hfutures, haccepted, hthrew⟩ := @ih (v.next workers .terminate) rfl
      refine ⟨hfutures, haccepted, hthrew.trans ?_⟩
      cases workers <;> simp [View.next, h, Call.isEnqueue]

theorem after_of_enqueues (hcalls : ∀ call ∈ calls, call.isEnqueue = true)
    (h : v.mIsTerminated = false) : v.after workers calls =
      { v with
        futures := v.futures ++ (tasks calls).map (fun _ => true)
        accepted := v.accepted ++ tasks calls } := by
  induction calls generalizing v with
  | nil => simp [View.after, tasks]
  | cons call calls ih =>
    cases call with
    | enqueue task =>
      have hrest := @ih (v.next workers (.enqueue task))
        (fun call hmem => hcalls call (List.mem_cons_of_mem _ hmem)) (by simp [View.next, h])
      refine Eq.trans (show _ = _ from hrest) ?_
      simp [View.next, h, tasks]
    | terminate => exact absurd (hcalls _ List.mem_cons_self) (by simp [Call.isEnqueue])

def before (calls : List (Call τ)) : List (Call τ) := calls.takeWhile Call.isEnqueue

def late (calls : List (Call τ)) : List (Call τ) := calls.dropWhile Call.isEnqueue

theorem tasks_append (calls calls' : List (Call τ)) :
    tasks (calls ++ calls') = tasks calls ++ tasks calls' := by
  induction calls with
  | nil => rfl
  | cons call calls ih => cases call <;> simp [tasks, ih]

theorem late_append_terminate (calls : List (Call τ)) : ∃ rest,
    late calls ++ [.terminate] = .terminate :: rest ∧ tasks rest = tasks (late calls) ∧
      ((∃ call ∈ rest, call.isEnqueue = false) ↔ ¬ ∀ call ∈ calls, call.isEnqueue = true) := by
  cases hlate : late calls with
  | nil =>
    refine ⟨[], rfl, rfl, iff_of_false (by simp) (not_not_intro ?_)⟩
    exact List.dropWhile_eq_nil_iff.mp hlate
  | cons call rest =>
    have hhead := List.head?_dropWhile_not Call.isEnqueue calls
    rw [← late, hlate] at hhead
    cases call with
    | enqueue => cases hhead
    | terminate =>
      refine ⟨rest ++ [.terminate], rfl, by simp [tasks_append, tasks],
        iff_of_true ⟨.terminate, by simp, rfl⟩ fun hall => ?_⟩
      have hmem : .terminate ∈ late calls := hlate ▸ List.mem_cons_self
      exact Bool.noConfusion (hall _ ((List.dropWhile_suffix _).subset hmem))

theorem after_new (calls : List (Call τ)) :
    ((View.new.after workers (calls ++ [.terminate])).futures =
      (tasks (before calls)).map (fun _ => true) ++ (tasks (late calls)).map (fun _ => false)) ∧
    (View.new.after workers (calls ++ [.terminate])).accepted = tasks (before calls) ∧
    ((View.new.after workers (calls ++ [.terminate])).threw = true ↔
      workers ≠ [] ∧ ¬ ∀ call ∈ calls, call.isEnqueue = true) := by
  obtain ⟨rest, hrest, htasks, hterminate⟩ := late_append_terminate calls
  have hbefore := @after_of_enqueues _ τ workers (before calls) View.new
    (fun call hmem => List.mem_takeWhile_imp hmem) rfl
  have hsplit : calls ++ [.terminate] = before calls ++ .terminate :: rest := by
    rw [← hrest, ← List.append_assoc, before, late, List.takeWhile_append_dropWhile]
  have hafter : View.new.after workers (calls ++ [.terminate]) =
      (((View.new.after workers (before calls)).next workers .terminate).after workers rest) := by
    rw [hsplit, View.after, List.foldl_append]
    rfl
  rw [hafter, hbefore, ← htasks, ← hterminate]
  have hend := @after_of_terminated _ τ workers rest
    (View.next workers (View.new.after workers (before calls)) .terminate) rfl
  rw [hbefore] at hend
  obtain ⟨hfutures, haccepted, hthrew⟩ := hend
  refine ⟨hfutures, haccepted, hthrew.trans ?_⟩
  simp [View.next, View.new]

end Reference

/-- What the calling thread may expect of a pool that is gone. -/
structure Repeatable (workers : List ι) (calls : List (Call τ)) (s : Pool ι τ) (c : Caller ι τ) :
    Prop where
  not_threw : c.threw = false
  joined : ∀ worker ∈ workers, worker ∈ s.joined
  futures : c.futures =
    (tasks (before calls)).map (fun _ => true) ++ (tasks (late calls)).map (fun _ => false)
  accepted : s.accepted = tasks (before calls)

theorem repeatable_iff [DecidableEq ι] {workers : List ι} (hnodup : workers.Nodup) {main : ι}
    (hmain : main ∉ workers) {calls : List (Call τ)} {σ : State ι (Pool ι τ) (Caller ι τ)}
    (h : Run (scripted workers) anyStep (scriptedStart workers main (calls ++ [.terminate])) σ)
    (hpc : (σ.locals main).pc = .outside) (hscript : (σ.locals main).script = []) :
    Repeatable workers calls σ.shared (σ.locals main) ↔
      workers = [] ∨ ∀ call ∈ calls, call.isEnqueue = true := by
  have hdue := due_run hnodup hmain h
  simp only [Due, hpc, hscript] at hdue
  obtain ⟨hview, hquiet⟩ := hdue
  obtain ⟨hfutures, haccepted, hthrew⟩ := @after_new ι τ workers calls
  have hterminated : σ.shared.mIsTerminated = true := by
    refine (congrArg View.mIsTerminated hview).trans ?_
    rw [View.after, List.foldl_append]
    rfl
  rw [if_pos hterminated] at hquiet
  rw [← hview] at hfutures haccepted hthrew
  have hiff : (σ.locals main).threw = false ↔
      workers = [] ∨ ∀ call ∈ calls, call.isEnqueue = true := by
    rw [← Bool.not_eq_true, show (σ.locals main).threw = true ↔ _ from hthrew]
    tauto
  rw [← hiff]
  refine ⟨fun hr => hr.not_threw,
    fun hthrew => ⟨hthrew, fun worker hmem => ?_, hfutures, haccepted⟩⟩
  rw [hquiet]
  exact List.mem_toFinset.mpr hmem

def destroyed (worker main : ι) : List (ι × Option ι) :=
  [(main, some worker), (main, some worker), (main, some worker), (main, some worker),
    (main, some worker), (main, some worker), (main, some worker), (worker, some worker),
    (main, some worker), (worker, some worker), (worker, some worker), (worker, some worker),
    (worker, some worker), (worker, some worker), (main, some worker), (main, some worker)]

theorem repeatable_destroyed : ∃ σ : State (Fin 2) (Pool (Fin 2) ℕ) (Caller (Fin 2) ℕ),
    exec (scripted [0]) anyStep (destroyed 0 1)
      (scriptedStart [0] 1 ([.enqueue 7] ++ [.terminate])) = some σ ∧
    (σ.locals 1).pc = .outside ∧ (σ.locals 1).script = [] ∧
    (Repeatable [0] [.enqueue 7] σ.shared (σ.locals 1) ↔
      ([0] : List (Fin 2)) = [] ∨ ∀ call ∈ [Call.enqueue 7], call.isEnqueue = true) := by
  obtain ⟨σ, hσ, hpc, hscript⟩ : ∃ σ : State (Fin 2) (Pool (Fin 2) ℕ) (Caller (Fin 2) ℕ),
      exec (scripted [0]) anyStep (destroyed 0 1)
        (scriptedStart [0] 1 ([.enqueue 7] ++ [.terminate])) = some σ ∧
      (σ.locals 1).pc = .outside ∧ (σ.locals 1).script = [] := ⟨_, rfl, rfl, rfl⟩
  exact ⟨σ, hσ, hpc, hscript,
    repeatable_iff (by decide) (by decide) (exec_run hσ .start) hpc hscript⟩

def terminatedTwice (worker main : ι) : List (ι × Option ι) :=
  [(main, some worker), (main, some worker), (main, some worker), (main, some worker),
    (worker, some worker), (worker, some worker), (main, some worker), (main, some worker),
    (main, some worker), (main, some worker), (main, some worker), (main, some worker),
    (main, some worker)]

theorem not_repeatable_terminatedTwice :
    ∃ σ : State (Fin 2) (Pool (Fin 2) ℕ) (Caller (Fin 2) ℕ),
      exec (scripted [0]) anyStep (terminatedTwice 0 1)
        (scriptedStart [0] 1 ([.terminate] ++ [.terminate])) = some σ ∧
      (σ.locals 1).pc = .outside ∧ (σ.locals 1).script = [] ∧ (σ.locals 1).threw = true ∧
      ¬ Repeatable [0] [.terminate] σ.shared (σ.locals 1) := by
  obtain ⟨σ, hσ, hpc, hscript, hthrew⟩ : ∃ σ : State (Fin 2) (Pool (Fin 2) ℕ) (Caller (Fin 2) ℕ),
      exec (scripted [0]) anyStep (terminatedTwice 0 1)
        (scriptedStart [0] 1 ([.terminate] ++ [.terminate])) = some σ ∧
      (σ.locals 1).pc = .outside ∧ (σ.locals 1).script = [] ∧ (σ.locals 1).threw = true :=
    ⟨_, rfl, rfl, rfl, rfl⟩
  exact ⟨σ, hσ, hpc, hscript, hthrew, fun hr => Bool.noConfusion (hr.not_threw.symm.trans hthrew)⟩

end ItcPlatform.ThreadPool
