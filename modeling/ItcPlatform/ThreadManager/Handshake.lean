import Mathlib.Data.Int.Notation
import Mathlib.Tactic.Tauto
import ItcPlatform.Lib.Interleaving

/-! `startAllThreads` beside the tasks that it creates: each task signals the condition of its
sync object once it is initialised, and the manager waits for that with a time limit. -/

namespace ItcPlatform.ThreadManager.Handshake
open Interleaving

inductive Agent
  | manager
  | task (k : ℕ)
  deriving DecidableEq

/-- Entries and sync objects have numbers, tasks too, in the order of their creation. -/
structure Threads where
  isRunning : ℕ → Bool
  task : ℕ → Option ℕ
  created : List ℕ
  owner : ℕ → Option Agent
  waitingOn : Option ℕ
  isWoken : Bool
  signalled : ℕ → Bool

/-- Where the manager stands at the entry `i` with the sync object `o`, or a task that signals
`o`. Between `creating` and `waiting` the mutex of `o` is locked, in `unlocking`, `signalling` and
`releasing` too. -/
inductive Pc
  | idle
  | visiting (i : ℕ)
  | creating (i o : ℕ)
  | created (i o : ℕ)
  | waiting (i o : ℕ)
  | relocking (i o : ℕ) (ret : ℤ)
  | unlocking (i o : ℕ) (ret : ℤ)
  | reporting (i : ℕ) (ret : ℤ)
  | initialising
  | signalling (o : ℕ)
  | releasing (o : ℕ)
  | ended

inductive Choice
  | proceed
  | expired
  | configureAndStartThread (isStarted : Bool)
  | signal
  | spurious
  | timeout
  | endEarly
  deriving DecidableEq

abbrev etimedout : ℤ := 110

namespace Threads

def lock (s : Threads) (who : Agent) (o : ℕ) (pc : Pc) : Option (Threads × Pc) :=
  if s.owner o = none then some ({ s with owner := Function.update s.owner o (some who) }, pc)
  else none

def unlock (s : Threads) (o : ℕ) : Threads := { s with owner := Function.update s.owner o none }

def condSignal (s : Threads) (k o : ℕ) : Threads :=
  { s with
    signalled := Function.update s.signalled k true
    isWoken := s.isWoken || decide (s.waitingOn = some o) }

def wake (s : Threads) : Threads := { s with waitingOn := none, isWoken := false }

end Threads

def handshake (syncObjs : List ℕ) : Program Agent Choice Threads Pc
  | .manager, .proceed, s, .idle => some (s, .visiting 0)
  | .manager, .proceed, s, .visiting i =>
    match syncObjs[i]? with
    | none => some (s, .idle)
    | some o =>
      if s.isRunning i then some (s, .visiting (i + 1)) else s.lock .manager o (.creating i o)
  | .manager, .expired, s, .visiting i => if s.isRunning i then none else some (s, .idle)
  | .manager, .configureAndStartThread true, s, .creating i o =>
    some ({ s with
      task := Function.update s.task i (some s.created.length)
      created := s.created ++ [o] }, .created i o)
  | .manager, .configureAndStartThread false, s, .creating _ _ => some (s, .idle)
  | .manager, .proceed, s, .created i o =>
    some ({ s.unlock o with waitingOn := some o, isWoken := false }, .waiting i o)
  | .manager, .signal, s, .waiting i o =>
    if s.isWoken then some (s.wake, .relocking i o 0) else none
  | .manager, .spurious, s, .waiting i o => some (s.wake, .relocking i o 0)
  | .manager, .timeout, s, .waiting i o => some (s.wake, .relocking i o etimedout)
  | .manager, .proceed, s, .relocking i o ret => s.lock .manager o (.unlocking i o ret)
  | .manager, .proceed, s, .unlocking i o ret => some (s.unlock o, .reporting i ret)
  | .manager, .proceed, s, .reporting i ret =>
    if ret ≠ 0 then some (s, .idle)
    else some ({ s with isRunning := Function.update s.isRunning i true }, .visiting (i + 1))
  | .task k, .proceed, s, .initialising =>
    s.created[k]?.bind fun o => s.lock (.task k) o (.signalling o)
  | .task k, .endEarly, s, .initialising =>
    if k < s.created.length then some (s, .ended) else none
  | .task k, .proceed, s, .signalling o => some (s.condSignal k o, .releasing o)
  | .task _, .proceed, s, .releasing o => some (s.unlock o, .ended)
  | _, _, _, _ => none

def start (isRunning : ℕ → Bool) : State Agent Threads Pc :=
  ⟨⟨isRunning, fun _ => none, [], fun _ => none, none, false, fun _ => false⟩, fun
    | .manager => .idle
    | .task _ => .initialising⟩

inductive Moves (syncObjs : List ℕ) (s : Threads) : Agent → Choice → Pc → Threads → Pc → Prop
  | call : Moves syncObjs s .manager .proceed .idle s (.visiting 0)
  | finish (i : ℕ) : syncObjs[i]? = none → Moves syncObjs s .manager .proceed (.visiting i) s .idle
  | skip (i : ℕ) : s.isRunning i = true →
      Moves syncObjs s .manager .proceed (.visiting i) s (.visiting (i + 1))
  | lockSyncObj (i o : ℕ) : s.isRunning i = false → s.owner o = none →
      Moves syncObjs s .manager .proceed (.visiting i)
        { s with owner := Function.update s.owner o (some .manager) } (.creating i o)
  | expired (i : ℕ) : Moves syncObjs s .manager .expired (.visiting i) s .idle
  | create (i o : ℕ) :
      Moves syncObjs s .manager (.configureAndStartThread true) (.creating i o)
        { s with
          task := Function.update s.task i (some s.created.length)
          created := s.created ++ [o] } (.created i o)
  | fail (i o : ℕ) :
      Moves syncObjs s .manager (.configureAndStartThread false) (.creating i o) s .idle
  | wait (i o : ℕ) : Moves syncObjs s .manager .proceed (.created i o)
      { s.unlock o with waitingOn := some o, isWoken := false } (.waiting i o)
  | signal (i o : ℕ) : s.isWoken = true →
      Moves syncObjs s .manager .signal (.waiting i o) s.wake (.relocking i o 0)
  | spurious (i o : ℕ) :
      Moves syncObjs s .manager .spurious (.waiting i o) s.wake (.relocking i o 0)
  | timeout (i o : ℕ) :
      Moves syncObjs s .manager .timeout (.waiting i o) s.wake (.relocking i o etimedout)
  | relock (i o : ℕ) (ret : ℤ) : s.owner o = none →
      Moves syncObjs s .manager .proceed (.relocking i o ret)
        { s with owner := Function.update s.owner o (some .manager) } (.unlocking i o ret)
  | unlock (i o : ℕ) (ret : ℤ) :
      Moves syncObjs s .manager .proceed (.unlocking i o ret) (s.unlock o) (.reporting i ret)
  | giveUp (i : ℕ) (ret : ℤ) : ret ≠ 0 →
      Moves syncObjs s .manager .proceed (.reporting i ret) s .idle
  | report (i : ℕ) : Moves syncObjs s .manager .proceed (.reporting i 0)
      { s with isRunning := Function.update s.isRunning i true } (.visiting (i + 1))
  | lockTask (k o : ℕ) : s.created[k]? = some o → s.owner o = none →
      Moves syncObjs s (.task k) .proceed .initialising
        { s with owner := Function.update s.owner o (some (.task k)) } (.signalling o)
  | endEarly (k : ℕ) : k < s.created.length →
      Moves syncObjs s (.task k) .endEarly .initialising s .ended
  | condSignal (k o : ℕ) : Moves syncObjs s (.task k) .proceed (.signalling o)
      (s.condSignal k o) (.releasing o)
  | release (k o : ℕ) : Moves syncObjs s (.task k) .proceed (.releasing o) (s.unlock o) .ended

variable {syncObjs : List ℕ} {who : Agent} {c : Choice} {s s' : Threads} {pc pc' : Pc}

theorem Threads.lock_eq_some {o : ℕ} {pc : Pc} (h : s.lock who o pc = some (s', pc')) :
    s.owner o = none ∧ s' = { s with owner := Function.update s.owner o (some who) } ∧
      pc' = pc := by
  rw [Threads.lock] at h
  split_ifs at h with hfree
  cases h
  exact ⟨hfree, rfl, rfl⟩

theorem moves_of_eq (h : handshake syncObjs who c s pc = some (s', pc')) :
    Moves syncObjs s who c pc s' pc' := by
  unfold handshake at h
  split at h
  case h_2 i =>
    split at h
    · cases h
      exact .finish i ‹_›
    · split_ifs at h with hrun
      · cases h
        exact .skip i hrun
      · obtain ⟨hfree, rfl, rfl⟩ := Threads.lock_eq_some h
        exact .lockSyncObj i _ (Bool.eq_false_iff.mpr hrun) hfree
  case h_3 i =>
    split_ifs at h
    cases h
    exact .expired i
  case h_7 i o =>
    split_ifs at h with hwoken
    cases h
    exact .signal i o hwoken
  case h_10 i o ret =>
    obtain ⟨hfree, rfl, rfl⟩ := Threads.lock_eq_some h
    exact .relock i o ret hfree
  case h_12 i ret =>
    split_ifs at h with hret
    · cases h
      exact .giveUp i ret hret
    · cases h
      obtain rfl := not_not.mp hret
      exact .report i
  case h_13 k =>
    obtain ⟨o, ho, hlock⟩ := Option.bind_eq_some_iff.mp h
    obtain ⟨hfree, rfl, rfl⟩ := Threads.lock_eq_some hlock
    exact .lockTask k o ho hfree
  case h_14 k =>
    split_ifs at h with hlt
    cases h
    exact .endEarly k hlt
  all_goals
    cases h
    try constructor

namespace Pc

def holds : Pc → Option ℕ
  | .creating _ o | .created _ o | .unlocking _ o _ | .signalling o | .releasing o => some o
  | _ => none

def starts : Pc → Option ℕ
  | .creating i _ | .created i _ | .waiting i _ | .relocking i _ _ | .unlocking i _ _
  | .reporting i _ => some i
  | _ => none

def succeeds : Pc → Option ℕ
  | .relocking i _ ret | .unlocking i _ ret | .reporting i ret => if ret = 0 then some i else none
  | _ => none

end Pc

def Threads.Told (s : Threads) (i : ℕ) : Prop := ∃ k, s.task i = some k ∧ s.signalled k = true

/-- An entry that did not run from the start runs only after its task signalled. -/
def Reports (isRunning : ℕ → Bool) (s : Threads) : Prop :=
  ∀ i, s.isRunning i = true → isRunning i = true ∨ s.Told i

structure NoneMissed (s : Threads) (pc : Pc) : Prop where
  beforeWait : ∀ i o k, pc = .created i o → s.task i = some k → s.signalled k = false
  inWait : ∀ i o k, pc = .waiting i o → s.task i = some k → s.signalled k = true → s.isWoken = true

structure ManagerInv (s : Threads) (pc : Pc) : Prop extends NoneMissed s pc where
  owns : ∀ o, pc.holds = some o → s.owner o = some .manager
  entry : ∀ i o, pc = .created i o ∨ pc = .waiting i o →
    ∃ k, s.task i = some k ∧ s.created[k]? = some o
  waitingOn : ∀ i o, pc = .waiting i o → s.waitingOn = some o

structure TaskInv (k : ℕ) (s : Threads) (pc : Pc) : Prop where
  owns : ∀ o, pc.holds = some o → s.owner o = some (.task k) ∧ s.created[k]? = some o
  fresh : s.created.length ≤ k → pc = .initialising ∧ s.signalled k = false

structure Inv (s : State Agent Threads Pc) : Prop where
  manager : ManagerInv s.shared (s.locals .manager)
  task : ∀ k, TaskInv k s.shared (s.locals (.task k))

section Step
variable {k : ℕ}

theorem ManagerInv.elsewhere (hcreated : ∀ i o, pc ≠ .created i o)
    (hwaiting : ∀ i o, pc ≠ .waiting i o)
    (owns : ∀ o, pc.holds = some o → s.owner o = some .manager) :
    ManagerInv s pc where
  beforeWait i o _ heq := absurd heq (hcreated i o)
  inWait i o _ heq := absurd heq (hwaiting i o)
  owns := owns
  entry i o heq := heq.elim (fun heq => absurd heq (hcreated i o)) fun heq =>
    absurd heq (hwaiting i o)
  waitingOn i o heq := absurd heq (hwaiting i o)

theorem Moves.manager (h : Moves syncObjs s .manager c pc s' pc') (hinv : ManagerInv s pc)
    (hfresh : s.signalled s.created.length = false) : ManagerInv s' pc' := by
  cases h with
  | create i o =>
    refine ⟨⟨?_, by simp⟩, fun o' ho' => hinv.owns o' ho', ?_, by simp⟩
    · rintro i' o' k ⟨⟩ hk
      simp only [Function.update_self, Option.some.injEq] at hk
      exact hk ▸ hfresh
    · rintro i' o' (heq | heq) <;> cases heq
      exact ⟨_, Function.update_self .., by simp⟩
  | wait i o =>
    refine ⟨⟨by simp, ?_⟩, by simp [Pc.holds], ?_, ?_⟩
    · rintro i' o' k ⟨⟩ hk hsignalled
      exact absurd hsignalled (by simp [Threads.unlock, hinv.beforeWait i o k rfl hk])
    · rintro i' o' (heq | heq) <;> cases heq
      exact hinv.entry i o (.inl rfl)
    · rintro i' o' ⟨⟩
      rfl
  | _ => exact .elsewhere (by simp) (by simp) (by simp_all [Pc.holds])

theorem Moves.owner {other : Agent} {o : ℕ} (h : Moves syncObjs s who c pc s' pc')
    (howns : ∀ o, pc.holds = some o → s.owner o = some who) (hother : other ≠ who)
    (ho : s.owner o = some other) : s'.owner o = some other := by
  have hunlocked (o' : ℕ) (hheld : pc.holds = some o') : o ≠ o' := by
    rintro rfl
    exact hother (Option.some.inj (ho.symm.trans (howns o hheld)))
  have hlocked (o' : ℕ) (hfree : s.owner o' = none) : o ≠ o' := by
    rintro rfl
    cases ho.symm.trans hfree
  cases h <;> simp_all [Pc.holds, Threads.unlock, Threads.wake, Threads.condSignal]

theorem Moves.created (h : Moves syncObjs s who c pc s' pc') :
    ∃ created, s'.created = s.created ++ created := by
  cases h <;> simp [Threads.unlock, Threads.wake, Threads.condSignal]

theorem Moves.signalled (h : Moves syncObjs s who c pc s' pc') (hk : who ≠ .task k) :
    s'.signalled k = s.signalled k := by
  cases h <;> simp_all [Threads.unlock, Threads.wake, Threads.condSignal, Function.update_of_ne,
    Ne.symm]

theorem Moves.task_of_other {pt : Pc} (h : Moves syncObjs s who c pc s' pc')
    (howns : ∀ o, pc.holds = some o → s.owner o = some who) (hk : who ≠ .task k)
    (hinv : TaskInv k s pt) : TaskInv k s' pt := by
  obtain ⟨created, hcreated⟩ := h.created
  refine ⟨fun o ho => ?_, fun hle => ?_⟩
  · obtain ⟨howner, ho⟩ := hinv.owns o ho
    rw [hcreated, List.getElem?_append_left (List.getElem?_eq_some_iff.mp ho).1]
    exact ⟨h.owner howns (Ne.symm hk) howner, ho⟩
  · rw [hcreated, List.length_append] at hle
    obtain ⟨hpt, hsignalled⟩ := hinv.fresh ((Nat.le_add_right _ _).trans hle)
    exact ⟨hpt, (h.signalled hk).trans hsignalled⟩

theorem Moves.task (h : Moves syncObjs s (.task k) c pc s' pc') (hinv : TaskInv k s pc) :
    TaskInv k s' pc' := by
  cases h with
  | lockTask k o ho hfree =>
    refine ⟨?_, fun hle => ?_⟩
    · rintro o' ⟨⟩
      exact ⟨Function.update_self .., ho⟩
    · rw [List.getElem?_eq_none hle] at ho
      cases ho
  | endEarly k hlt => exact ⟨by simp [Pc.holds], fun hle => absurd hlt (Nat.not_lt.mpr hle)⟩
  | condSignal k o => exact ⟨hinv.owns, fun hle => by cases (hinv.fresh hle).1⟩
  | release k o => exact ⟨by simp [Pc.holds], fun hle => by cases (hinv.fresh hle).1⟩

theorem Moves.manager_of_task {pm : Pc} (h : Moves syncObjs s (.task k) c pc s' pc')
    (hinv : ManagerInv s pm) (htask : TaskInv k s pc) : ManagerInv s' pm := by
  have howns (o : ℕ) (ho : pm.holds = some o) : s'.owner o = some .manager :=
    h.owner (fun o ho => (htask.owns o ho).1) (by simp) (hinv.owns o ho)
  cases h with
  | lockTask k o ho hfree => exact { hinv with owns := howns }
  | endEarly k hlt => exact hinv
  | release k o => exact { hinv with owns := howns }
  | condSignal k o =>
    obtain ⟨hmutex, hcreated⟩ := htask.owns o rfl
    have hsame (i o' : ℕ) (heq : pm = .created i o' ∨ pm = .waiting i o')
        (hk : s.task i = some k) : o' = o := by
      obtain ⟨k', hk', ho'⟩ := hinv.entry i o' heq
      obtain rfl := Option.some.inj (hk.symm.trans hk')
      exact Option.some.inj (ho'.symm.trans hcreated)
    refine ⟨⟨fun i o' k' heq hk' => ?_, fun i o' k' heq hk' hsignalled => ?_⟩, howns, hinv.entry,
      hinv.waitingOn⟩
    · -- the manager holds the mutex that the task needs to signal
      have hne : k' ≠ k := by
        rintro rfl
        obtain rfl := hsame i o' (.inl heq) hk'
        have hmanager := hinv.owns o' (by rw [heq]; rfl)
        cases hmutex.symm.trans hmanager
      exact (Function.update_of_ne hne _ _).trans (hinv.beforeWait i o' k' heq hk')
    · by_cases hne : k' = k
      · subst hne
        obtain rfl := hsame i o' (.inr heq) hk'
        simp [Threads.condSignal, hinv.waitingOn i o' heq]
      · have hold := (Function.update_of_ne hne _ _).symm.trans hsignalled
        simp [Threads.condSignal, hinv.inWait i o' k' heq hk' hold]

theorem Inv.step {t : State Agent Threads Pc} (hinv : Inv t)
    (h : Moves syncObjs t.shared who c (t.locals who) s' pc') :
    Inv ⟨s', Function.update t.locals who pc'⟩ := by
  cases who with
  | manager =>
    have hfresh := ((hinv.task t.shared.created.length).fresh le_rfl).2
    refine ⟨?_, fun k => ?_⟩
    · simpa using h.manager hinv.manager hfresh
    · simpa using h.task_of_other hinv.manager.owns (by simp) (hinv.task k)
  | task k =>
    refine ⟨?_, fun k' => ?_⟩
    · simpa using h.manager_of_task hinv.manager (hinv.task k)
    · by_cases hne : k' = k
      · subst hne
        simpa using h.task (hinv.task k')
      · have howns (o : ℕ) (ho : (t.locals (.task k)).holds = some o) :=
          ((hinv.task k).owns o ho).1
        have hk : Agent.task k ≠ .task k' := by simpa using Ne.symm hne
        simpa [hne] using h.task_of_other howns hk (hinv.task k')

theorem inv_start (isRunning : ℕ → Bool) : Inv (start isRunning) :=
  ⟨.elsewhere (by simp [start]) (by simp [start]) (by simp [start, Pc.holds]), fun k =>
    ⟨by simp [start, Pc.holds], fun _ => ⟨rfl, rfl⟩⟩⟩

end Step

/-- No wake-up without a signal, and no signal of another task while the manager waits. -/
def wakesRightly (s : State Agent Threads Pc) (who : Agent) (c : Choice) : Bool :=
  match who, s.locals who, s.locals .manager with
  | .task k, .signalling o, .waiting i o' => o ≠ o' || s.shared.task i = some k
  | _, _, _ => c ≠ .spurious

structure Informed (isRunning : ℕ → Bool) (s : Threads) (pc : Pc) : Prop where
  reports : Reports isRunning s
  notRunning : ∀ i, pc.starts = some i → s.isRunning i = false
  woken : ∀ i o, pc = .waiting i o → s.isWoken = true → s.Told i
  succeeds : ∀ i, pc.succeeds = some i → s.Told i

section Informed
variable {isRunning : ℕ → Bool} {k : ℕ}

theorem Informed.elsewhere {pc₀ : Pc} (h : Informed isRunning s pc₀)
    (hstarts : ∀ i, pc.starts = some i → s.isRunning i = false)
    (hwaiting : ∀ i o, pc ≠ .waiting i o)
    (hsucceeds : ∀ i, pc.succeeds = some i → s.Told i) : Informed isRunning s pc :=
  ⟨h.reports, hstarts, fun i o heq => absurd heq (hwaiting i o), hsucceeds⟩

theorem Moves.informed (h : Moves syncObjs s .manager c pc s' pc') (hc : c ≠ .spurious)
    (hinv : Informed isRunning s pc) : Informed isRunning s' pc' := by
  cases h with
  | lockSyncObj i o hidle hfree =>
    refine ⟨hinv.reports, ?_, by simp, by simp [Pc.succeeds]⟩
    rintro _ ⟨⟩
    exact hidle
  | create i o =>
    have hidle : s.isRunning i = false := hinv.notRunning i rfl
    refine ⟨fun j hj => ?_, fun j hj => hinv.notRunning j hj, by simp, by simp [Pc.succeeds]⟩
    have hne : j ≠ i := by
      rintro rfl
      cases hidle.symm.trans hj
    simpa [Threads.Told, hne] using hinv.reports j hj
  | wait i o =>
    exact ⟨hinv.reports, fun j hj => hinv.notRunning j hj, by simp, by simp [Pc.succeeds]⟩
  | signal i o hwoken =>
    refine ⟨hinv.reports, fun j hj => hinv.notRunning j hj, by simp, ?_⟩
    rintro _ ⟨⟩
    exact hinv.woken i o rfl hwoken
  | spurious i o => exact absurd rfl hc
  | timeout i o =>
    exact ⟨hinv.reports, fun j hj => hinv.notRunning j hj, by simp, by simp [Pc.succeeds]⟩
  | relock i o ret hfree =>
    exact ⟨hinv.reports, hinv.notRunning, by simp, hinv.succeeds⟩
  | unlock i o ret => exact ⟨hinv.reports, hinv.notRunning, by simp, hinv.succeeds⟩
  | report i =>
    refine ⟨fun j hj => ?_, by simp [Pc.starts], by simp, by simp [Pc.succeeds]⟩
    by_cases hne : j = i
    · subst hne
      exact .inr (hinv.succeeds j rfl)
    · exact hinv.reports j (by simpa [hne] using hj)
  | _ =>
    exact ⟨hinv.reports, by simp [Pc.starts], by simp, by simp [Pc.succeeds]⟩

theorem Threads.Told.condSignal {i k o : ℕ} (h : s.Told i) : (s.condSignal k o).Told i := by
  obtain ⟨k', hk', hsignalled⟩ := h
  refine ⟨k', hk', ?_⟩
  by_cases hne : k' = k
  · simp [Threads.condSignal, hne]
  · simpa [Threads.condSignal, hne] using hsignalled

theorem Moves.informed_of_task {pm : Pc} (h : Moves syncObjs s (.task k) c pc s' pc')
    (hright : ∀ o i, pc = .signalling o → pm = .waiting i o → s.task i = some k)
    (hpm : ManagerInv s pm) (hinv : Informed isRunning s pm) : Informed isRunning s' pm := by
  cases h with
  | lockTask k o ho hfree => exact { hinv with }
  | endEarly k hlt => exact hinv
  | release k o => exact { hinv with }
  | condSignal k o =>
    refine ⟨fun i hi => (hinv.reports i hi).imp_right Threads.Told.condSignal, hinv.notRunning,
      fun i o' heq hwoken => ?_, fun i hi => (hinv.succeeds i hi).condSignal⟩
    by_cases hold : s.isWoken = true
    · exact (hinv.woken i o' heq hold).condSignal
    · have hon : s.waitingOn = some o := by simpa [Threads.condSignal, hold] using hwoken
      obtain rfl : o' = o := Option.some.inj ((hpm.waitingOn i o' heq).symm.trans hon)
      exact ⟨k, hright o' i rfl heq, by simp [Threads.condSignal]⟩

end Informed

theorem inv_of_run {isRunning : ℕ → Bool} {ok : State Agent Threads Pc → Agent → Choice → Prop}
    {t : State Agent Threads Pc} (h : Run (handshake syncObjs) ok (start isRunning) t) : Inv t := by
  refine h.invariant (inv_start isRunning) ?_
  intro t who c s' pc' hinv _ heq
  exact hinv.step (moves_of_eq heq)

theorem informed_of_run {isRunning : ℕ → Bool} {t : State Agent Threads Pc}
    (h : Run (handshake syncObjs) (wakesRightly · · ·) (start isRunning) t) :
    Informed isRunning t.shared (t.locals .manager) := by
  suffices hboth : Inv t ∧ Informed isRunning t.shared (t.locals .manager) from hboth.2
  refine h.invariant ⟨inv_start isRunning, fun i hi => .inl hi, ?_, ?_, ?_⟩ ?_
  · simp [start, Pc.starts]
  · simp [start]
  · simp [start, Pc.succeeds]
  · rintro t who c s' pc' ⟨hinv, hinformed⟩ hright heq
    have hmoves := moves_of_eq heq
    refine ⟨hinv.step hmoves, ?_⟩
    cases who with
    | manager => simpa using hmoves.informed (by simpa [wakesRightly] using hright) hinformed
    | task k =>
      have htask (o i : ℕ) (hpc : t.locals (.task k) = .signalling o)
          (hpm : t.locals .manager = .waiting i o) : t.shared.task i = some k := by
        simpa [wakesRightly, hpc, hpm] using hright
      simpa using hmoves.informed_of_task htask hinv.manager hinformed

/-- Where every wake-up is right the manager reports only tasks that signalled. No signal is
missed in any run, right or not. -/
theorem reports_of_run (syncObjs : List ℕ) (isRunning : ℕ → Bool) :
    (∀ t, Run (handshake syncObjs) (wakesRightly · · ·) (start isRunning) t →
      Reports isRunning t.shared) ∧
    ∀ t, Run (handshake syncObjs) anyStep (start isRunning) t →
      NoneMissed t.shared (t.locals .manager) :=
  ⟨fun _ h => (informed_of_run h).reports, fun _ h => (inv_of_run h).manager.toNoneMissed⟩

def signalledInTime : List (Agent × Choice) :=
  [(.manager, .proceed), (.manager, .proceed), (.manager, .configureAndStartThread true),
    (.manager, .proceed), (.task 0, .proceed), (.task 0, .proceed), (.task 0, .proceed),
    (.manager, .signal), (.manager, .proceed), (.manager, .proceed), (.manager, .proceed)]

theorem reports_of_run_signalledInTime : ∃ t : State Agent Threads Pc,
    t.shared.isRunning 0 = true ∧ Reports (fun _ => false) t.shared := by
  have hsome : (exec (handshake [0]) (wakesRightly · · ·) signalledInTime
      (start fun _ => false)).map (·.shared.isRunning 0) = some true := rfl
  obtain ⟨t, ht, hrun⟩ := Option.map_eq_some_iff.mp hsome
  exact ⟨t, hrun, (reports_of_run [0] fun _ => false).1 t (exec_run ht .start)⟩

def spuriousWakeUp : List (Agent × Choice) :=
  [(.manager, .proceed), (.manager, .proceed), (.manager, .configureAndStartThread true),
    (.manager, .proceed), (.manager, .spurious), (.manager, .proceed), (.manager, .proceed),
    (.manager, .proceed)]

theorem reports_without_signal : ¬ ∀ (syncObjs : List ℕ) (isRunning : ℕ → Bool)
    (t : State Agent Threads Pc), Run (handshake syncObjs) anyStep (start isRunning) t →
      Reports isRunning t.shared := by
  intro h
  have hsome : (exec (handshake [0]) anyStep spuriousWakeUp (start fun _ => false)).map
      (fun t => (t.shared.isRunning 0, t.shared.task 0, t.shared.signalled 0)) =
        some (true, some 0, false) := rfl
  obtain ⟨t, ht, heq⟩ := Option.map_eq_some_iff.mp hsome
  simp only [Prod.mk.injEq] at heq
  obtain ⟨hrun, htask, hsignalled⟩ := heq
  obtain hbefore | ⟨k, hk, htold⟩ := h [0] (fun _ => false) t (exec_run ht .start) 0 hrun
  · cases hbefore
  · obtain rfl := Option.some.inj (htask.symm.trans hk)
    cases hsignalled.symm.trans htold

end ItcPlatform.ThreadManager.Handshake
