import ItcPlatform.ThreadPool.Machine

/-! No wake-up is lost: as long as there is something to do for the workers, one of them is
awake or somebody is about to notify them. -/

namespace ItcPlatform.ThreadPool
open Interleaving
variable {ι τ : Type*}

namespace Pc

def inLoop : Pc ι τ → Bool
  | .enqueueLocking _ caller | .enqueueHolding _ caller | .enqueueNotifying caller => caller.isSome
  | .locking | .checking | .waiting | .holding _ | .running _ | .exited => true
  | _ => false

def Notifying (pc : Pc ι τ) : Prop :=
  (∃ caller, pc = .enqueueNotifying caller) ∨ pc = .terminateNotifying

@[simp] theorem inLoop_resume (caller : Option τ) :
    (Pc.resume caller : Pc ι τ).inLoop = caller.isSome := by cases caller <;> rfl

@[simp] theorem resume_ne_waiting (caller : Option τ) : (Pc.resume caller : Pc ι τ) ≠ .waiting := by
  cases caller <;> nofun

@[simp] theorem resume_ne_exited (caller : Option τ) : (Pc.resume caller : Pc ι τ) ≠ .exited := by
  cases caller <;> nofun

@[simp] theorem resume_not_notifying (caller : Option τ) :
    ¬ (Pc.resume caller : Pc ι τ).Notifying := by
  cases caller <;> simp [Notifying, resume]

end Pc

def Blocked (s : State ι (Pool ι τ) (Pc ι τ)) (worker : ι) : Prop :=
  s.locals worker = .waiting ∧ worker ∈ s.shared.waiting

/-- Workers are left, all of them blocked, although the predicate they wait for holds and
nobody is about to notify them. -/
structure LostWakeUp (workers : List ι) (s : State ι (Pool ι τ) (Pc ι τ)) : Prop where
  left : ∃ worker ∈ workers, s.locals worker ≠ .exited
  blocked : ∀ worker ∈ workers, s.locals worker ≠ .exited → Blocked s worker
  due : s.shared.mTasks ≠ [] ∨ s.shared.mIsTerminated = true
  silent : ∀ i, ¬ (s.locals i).Notifying

section Step
variable [DecidableEq ι] {workers : List ι} {i : ι} {s s' : Pool ι τ} {pc pc' : Pc ι τ}

theorem Moves.inLoop (h : Moves workers i s pc s' pc') : pc'.inLoop = pc.inLoop := by
  cases h <;> first | rfl | exact Pc.inLoop_resume _ | exact (Pc.inLoop_resume _).symm

theorem Moves.waiting (h : Moves workers i s pc s' pc') (hi : i ∈ s.waiting → pc = .waiting) :
    (i ∈ s'.waiting → pc' = .waiting) ∧ ∀ j ∈ s'.waiting, j ≠ i → j ∈ s.waiting := by
  cases h <;> simp_all

theorem Moves.exited (h : Moves workers i s pc s' pc') (hpc : pc' = .exited) :
    s'.mIsTerminated = true ∧ s'.mTasks = [] := by
  cases h <;> simp_all

theorem Moves.terminated (h : Moves workers i s pc s' pc') (hs : s.mIsTerminated = true) :
    s'.mIsTerminated = true := by
  cases h <;> simp_all

theorem Moves.drained (h : Moves workers i s pc s' pc') (hs : s.mIsTerminated = true)
    (htasks : s.mTasks = []) : s'.mTasks = [] := by
  cases h <;> simp_all

theorem Moves.notified (h : Moves workers i s pc s' pc') (hpc : pc.Notifying)
    (hwaiting : ∀ j ∈ s.waiting, j ∈ workers) (hne : workers ≠ []) :
    ∃ worker ∈ workers, worker ∉ s'.waiting := by
  obtain ⟨first, hfirst⟩ := List.exists_mem_of_ne_nil workers hne
  cases h with
  | notifyNobody caller hempty => exact ⟨first, hfirst, by simp [hempty]⟩
  | notifyOne caller notified hmem => exact ⟨notified, hwaiting notified hmem, by simp⟩
  | notifyAll => exact ⟨first, hfirst, by simp⟩
  | enqueue task caller => exact absurd hpc (Pc.resume_not_notifying caller)
  | _ => simp [Pc.Notifying] at hpc

theorem Moves.due (h : Moves workers i s pc s' pc') (htasks : s'.mTasks ≠ []) :
    pc'.Notifying ∨ s.mTasks ≠ [] ∧ s'.waiting ⊆ s.waiting := by
  cases h with
  | accept task caller => exact .inl (.inl ⟨caller, rfl⟩)
  | wait _ hempty => exact absurd hempty htasks
  | wakeUp | notifyOne => exact .inr ⟨htasks, Finset.erase_subset _ _⟩
  | notifyAll => exact .inr ⟨htasks, Finset.empty_subset _⟩
  | dequeue task rest hcons => exact .inr ⟨by simp [hcons], subset_rfl⟩
  | _ => exact .inr ⟨htasks, subset_rfl⟩

theorem Moves.dueAll (h : Moves workers i s pc s' pc') (hterminated : s'.mIsTerminated = true) :
    pc' = .terminateNotifying ∨ s.mIsTerminated = true ∧ s'.waiting ⊆ s.waiting := by
  cases h with
  | setTerminated => exact .inl rfl
  | wait hrunning => exact absurd hterminated (by simp [hrunning])
  | wakeUp | notifyOne => exact .inr ⟨hterminated, Finset.erase_subset _ _⟩
  | notifyAll => exact .inr ⟨hterminated, Finset.empty_subset _⟩
  | _ => exact .inr ⟨hterminated, subset_rfl⟩

theorem Moves.notifiedAll (h : Moves workers i s pc s' pc') (hpc : pc = .terminateNotifying) :
    s'.waiting = ∅ := by
  cases h with
  | notifyAll => rfl
  | enqueue _ caller => cases caller <;> cases hpc
  | _ => cases hpc

end Step

structure Stands (workers : List ι) (s : Pool ι τ) (i : ι) (pc : Pc ι τ) : Prop where
  inLoop : pc.inLoop = true ↔ i ∈ workers
  waiting : i ∈ s.waiting → pc = .waiting
  exited : pc = .exited → s.mIsTerminated = true ∧ s.mTasks = []

/-- In every state of a pool somebody is awake for what there is to do, or about to wake
somebody up. -/
structure Awake (workers : List ι) (s : State ι (Pool ι τ) (Pc ι τ)) : Prop where
  stands : ∀ i, Stands workers s.shared i (s.locals i)
  due : workers ≠ [] → s.shared.mTasks ≠ [] →
    (∃ i, (s.locals i).Notifying) ∨ ∃ worker ∈ workers, worker ∉ s.shared.waiting
  dueAll : s.shared.mIsTerminated = true →
    (∃ i, s.locals i = .terminateNotifying) ∨ s.shared.waiting = ∅

theorem Awake.exists_awake {workers : List ι} {s : State ι (Pool ι τ) (Pc ι τ)}
    (hs : Awake workers s) (hsilent : ∀ i, ¬ (s.locals i).Notifying)
    (hdue : s.shared.mTasks ≠ [] ∨ s.shared.mIsTerminated = true)
    (hleft : ∃ worker ∈ workers, s.locals worker ≠ .exited) :
    ∃ worker ∈ workers, s.locals worker ≠ .exited ∧ ¬ Blocked s worker := by
  obtain ⟨worker, hmem, hexited⟩ := hleft
  by_cases hterminated : s.shared.mIsTerminated = true
  · refine ⟨worker, hmem, hexited, fun hblocked => ?_⟩
    rcases hs.dueAll hterminated with ⟨i, hi⟩ | hempty
    · exact hsilent i (.inr hi)
    · simpa [hempty] using hblocked.2
  · have htasks := hdue.resolve_right hterminated
    rcases hs.due (List.ne_nil_of_mem hmem) htasks with ⟨i, hi⟩ | ⟨awake, hawake, hnot⟩
    · exact absurd hi (hsilent i)
    · exact ⟨awake, hawake, fun hpc => hterminated ((hs.stands awake).exited hpc).1,
        fun hb => hnot hb.2⟩

section Run
variable [DecidableEq ι] {workers : List ι} {i : ι} {s' : Pool ι τ} {pc' : Pc ι τ}
  {s : State ι (Pool ι τ) (Pc ι τ)}

theorem awake_start : Awake workers (start workers : State ι (Pool ι τ) (Pc ι τ)) := by
  refine ⟨fun i => ⟨?_, fun hi => absurd hi (Finset.notMem_empty i), fun hi => ?_⟩,
    fun _ h => absurd rfl h, fun _ => .inr rfl⟩
  · by_cases hi : i ∈ workers <;> simp [start, hi, Pc.inLoop]
  · by_cases hmem : i ∈ workers <;> simp [start, hmem] at hi

theorem Moves.stands {s : Pool ι τ} {pc : Pc ι τ} (h : Moves workers i s pc s' pc')
    (hpc : Stands workers s i pc) : Stands workers s' i pc' :=
  ⟨by rw [h.inLoop, hpc.inLoop], (h.waiting hpc.waiting).1, h.exited⟩

theorem Moves.stands_of_ne {s : Pool ι τ} {pc pc₁ : Pc ι τ} {j : ι}
    (h : Moves workers i s pc s' pc') (hpc : Stands workers s i pc) (hj : j ≠ i)
    (hpc₁ : Stands workers s j pc₁) : Stands workers s' j pc₁ := by
  refine ⟨hpc₁.inLoop, fun hmem => hpc₁.waiting ((h.waiting hpc.waiting).2 j hmem hj), fun hx => ?_⟩
  obtain ⟨hterminated, hempty⟩ := hpc₁.exited hx
  exact ⟨h.terminated hterminated, h.drained hterminated hempty⟩

theorem Awake.move (hs : Awake workers s) (h : Moves workers i s.shared (s.locals i) s' pc') :
    Awake workers ⟨s', Function.update s.locals i pc'⟩ := by
  refine ⟨forall_update hs.stands (h.stands (hs.stands i))
    fun j hj hpc => h.stands_of_ne (hs.stands i) hj hpc, fun hne htasks => ?_,
    fun hterminated => ?_⟩
  · rcases h.due htasks with hnotifying | ⟨hbefore, hsub⟩
    · exact .inl ⟨i, by simpa using hnotifying⟩
    by_cases hpc : (s.locals i).Notifying
    · refine .inr (h.notified hpc (fun j hj => (hs.stands j).inLoop.mp ?_) hne)
      rw [(hs.stands j).waiting hj]
      rfl
    · rcases hs.due hne hbefore with hnotifying | ⟨worker, hmem, hawake⟩
      · exact .inl (exists_update hnotifying hpc)
      · exact .inr ⟨worker, hmem, fun hw => hawake (hsub hw)⟩
  · rcases h.dueAll hterminated with hnotifying | ⟨hbefore, hsub⟩
    · exact .inl ⟨i, by simpa using hnotifying⟩
    by_cases hpc : s.locals i = .terminateNotifying
    · exact .inr (h.notifiedAll hpc)
    · rcases hs.dueAll hbefore with hnotifying | hempty
      · exact .inl (exists_update (K := fun pc : Pc ι τ => pc = .terminateNotifying) hnotifying hpc)
      · exact .inr (Finset.subset_empty.mp (hempty ▸ hsub))

theorem awake_run (h : Run (threadPool workers) anyStep (start workers) s) : Awake workers s :=
  h.invariant awake_start fun _ _ _ _ _ hs _ hP => hs.move (moves_of_threadPool hP)

theorem not_lostWakeUp (h : Run (threadPool workers) anyStep (start workers) s) :
    ¬ LostWakeUp workers s := by
  intro hlost
  obtain ⟨worker, hmem, hexited, hawake⟩ :=
    (awake_run h).exists_awake hlost.silent hlost.due hlost.left
  exact hawake (hlost.blocked worker hmem hexited)

end Run

def aboutToNotify (worker caller : ι) : List (ι × Action ι ℕ) :=
  [(worker, .access worker), (worker, .access worker), (caller, .enqueue 7),
    (caller, .access worker), (caller, .access worker)]

theorem not_lostWakeUp_aboutToNotify : ∃ s : State (Fin 2) (Pool (Fin 2) ℕ) (Pc (Fin 2) ℕ),
    exec (threadPool [0]) anyStep (aboutToNotify 0 1) (start [0]) = some s ∧
      Blocked s 0 ∧ s.shared.mTasks = [7] ∧ ¬ LostWakeUp [0] s := by
  obtain ⟨s, hs, hblocked, htasks⟩ : ∃ s : State (Fin 2) (Pool (Fin 2) ℕ) (Pc (Fin 2) ℕ),
      exec (threadPool [0]) anyStep (aboutToNotify 0 1) (start [0]) = some s ∧ Blocked s 0 ∧
        s.shared.mTasks = [7] := ⟨_, rfl, ⟨rfl, by decide⟩, rfl⟩
  exact ⟨s, hs, hblocked, htasks, not_lostWakeUp (exec_run hs .start)⟩

end ItcPlatform.ThreadPool
