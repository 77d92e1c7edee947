import Mathlib.Algebra.Order.Ring.Int
import Mathlib.Tactic.Tauto
import ItcPlatform.Lib.History
import ItcPlatform.ThreadManager.Threads

/-! The scheduling attributes of `ThreadManager` over all sequences of `setThreadAttributes`. -/

namespace ItcPlatform.ThreadManager
open History

abbrev schedOther : ℤ := 0

structure PriorityRange where
  min : ℤ
  max : ℤ
  min_le_max : min ≤ max

abbrev Policies := ℤ → Option PriorityRange

structure SchedParams where
  policy : ℤ
  selfLimitPrio : ℤ
  priority : ℤ

structure SchedAttributes where
  mPolicy : ℤ
  mSelfLimitPrio : ℤ
  mPriority : ℤ

def SchedAttributes.new : SchedAttributes := ⟨schedOther, 0, 0⟩

section Calls
variable (os : Policies) (a : SchedAttributes) (c : SchedParams)

def cSchedGetPriorityMax (policy : ℤ) : ℤ := (os policy).elim (-1) PriorityRange.max

def cSchedGetPriorityMin (policy : ℤ) : ℤ := (os policy).elim (-1) PriorityRange.min

def checkSchedulingParams : ThreadManagerIfReturnCode :=
  let maxPrio := cSchedGetPriorityMax os c.policy
  let minPrio := cSchedGetPriorityMin os c.policy
  if c.priority < minPrio ∨ c.priority > maxPrio ∨ c.selfLimitPrio < minPrio ∨
      c.selfLimitPrio > maxPrio then .threadManagerInvalidArguments
  else .threadManagerOk

def setThreadAttributes : SchedAttributes × ThreadManagerIfReturnCode :=
  if c.policy = schedOther then
    (⟨schedOther, cSchedGetPriorityMax os schedOther, cSchedGetPriorityMin os schedOther⟩,
      .threadManagerOk)
  else
    let rc := checkSchedulingParams os c
    if rc ≠ .threadManagerOk then (a, rc)
    else
      (⟨c.policy, c.selfLimitPrio,
        if c.priority > c.selfLimitPrio then c.selfLimitPrio else c.priority⟩, .threadManagerOk)

def Rejects : Prop := c.policy ≠ schedOther ∧ checkSchedulingParams os c ≠ .threadManagerOk

/-- A policy the OS does not know passes where -1, the answer to both questions about its
range, passes for a priority. -/
def TakesUnknown : Prop :=
  os c.policy = none ∧ (c.policy = schedOther ∨ c.selfLimitPrio = -1 ∧ c.priority = -1)

def SchedAttributes.Valid : Prop :=
  ∃ range, os a.mPolicy = some range ∧ range.min ≤ a.mPriority ∧
    a.mPriority ≤ a.mSelfLimitPrio ∧ a.mSelfLimitPrio ≤ range.max

def SetsValid : Prop :=
  (setThreadAttributes os a c).1.Valid os ∧
    ((setThreadAttributes os a c).2 ≠ .threadManagerOk → (setThreadAttributes os a c).1 = a)

end Calls

section Steps
variable {os : Policies} {a : SchedAttributes} {c : SchedParams}

theorem setThreadAttributes_of_rejects (h : Rejects os c) :
    setThreadAttributes os a c = (a, checkSchedulingParams os c) := by
  rw [setThreadAttributes, if_neg h.1]
  exact if_pos h.2

theorem setThreadAttributes_of_checked (hother : c.policy ≠ schedOther)
    (hrc : checkSchedulingParams os c = .threadManagerOk) : setThreadAttributes os a c =
      (⟨c.policy, c.selfLimitPrio,
        if c.priority > c.selfLimitPrio then c.selfLimitPrio else c.priority⟩,
        .threadManagerOk) := by
  rw [setThreadAttributes, if_neg hother]
  exact if_neg (not_not_intro hrc)

theorem checkSchedulingParams_eq_ok_iff : checkSchedulingParams os c = .threadManagerOk ↔
    (cSchedGetPriorityMin os c.policy ≤ c.priority ∧
      c.priority ≤ cSchedGetPriorityMax os c.policy) ∧
        cSchedGetPriorityMin os c.policy ≤ c.selfLimitPrio ∧
          c.selfLimitPrio ≤ cSchedGetPriorityMax os c.policy := by
  rw [checkSchedulingParams]
  split_ifs with hout
  · refine iff_of_false nofun ?_
    omega
  · refine iff_of_true rfl ?_
    omega

theorem checkSchedulingParams_of_known {range : PriorityRange} (h : os c.policy = some range) :
    checkSchedulingParams os c = .threadManagerOk ↔
      (range.min ≤ c.priority ∧ c.priority ≤ range.max) ∧
        range.min ≤ c.selfLimitPrio ∧ c.selfLimitPrio ≤ range.max := by
  rw [checkSchedulingParams_eq_ok_iff, cSchedGetPriorityMax, cSchedGetPriorityMin, h,
    Option.elim_some, Option.elim_some]

theorem checkSchedulingParams_of_unknown (h : os c.policy = none) :
    checkSchedulingParams os c = .threadManagerOk ↔ c.selfLimitPrio = -1 ∧ c.priority = -1 := by
  rw [checkSchedulingParams_eq_ok_iff, cSchedGetPriorityMax, cSchedGetPriorityMin, h,
    Option.elim_none, Option.elim_none]
  omega

theorem valid_of_other (h : c.policy = schedOther) :
    (setThreadAttributes os a c).1.Valid os ↔ os c.policy ≠ none := by
  rw [setThreadAttributes, if_pos h]
  simp only [SchedAttributes.Valid, cSchedGetPriorityMax, cSchedGetPriorityMin, h]
  constructor
  · rintro ⟨range, hrange, -⟩
    simp [hrange]
  · intro hknown
    obtain ⟨range, hrange⟩ := Option.ne_none_iff_exists'.mp hknown
    exact ⟨range, hrange, by simp [hrange, range.min_le_max]⟩

theorem valid_of_checked (hother : c.policy ≠ schedOther)
    (hrc : checkSchedulingParams os c = .threadManagerOk) :
    (setThreadAttributes os a c).1.Valid os ↔ os c.policy ≠ none := by
  rw [setThreadAttributes_of_checked hother hrc, SchedAttributes.Valid]
  constructor
  · rintro ⟨range, hrange, -⟩
    simp [hrange]
  · intro hknown
    obtain ⟨range, hrange⟩ := Option.ne_none_iff_exists'.mp hknown
    obtain ⟨hprio, hlimit⟩ := (checkSchedulingParams_of_known hrange).mp hrc
    refine ⟨range, hrange, ?_⟩
    simp only
    split_ifs with hclip <;> omega

theorem setsValid_of_rejects (h : Rejects os c) : SetsValid os a c ↔ a.Valid os := by
  rw [SetsValid, setThreadAttributes_of_rejects h]
  tauto

theorem setsValid_of_accepts (h : ¬ Rejects os c) : SetsValid os a c ↔ os c.policy ≠ none := by
  by_cases hother : c.policy = schedOther
  · rw [SetsValid, valid_of_other hother, and_iff_left]
    rw [setThreadAttributes, if_pos hother]
    exact fun hrc => absurd rfl hrc
  · have hrc : checkSchedulingParams os c = .threadManagerOk := by
      by_contra hrc
      exact h ⟨hother, hrc⟩
    rw [SetsValid, valid_of_checked hother hrc, and_iff_left]
    rw [setThreadAttributes_of_checked hother hrc]
    exact fun hrc => absurd rfl hrc

theorem takesUnknown_iff : TakesUnknown os c ↔ ¬ Rejects os c ∧ os c.policy = none := by
  rw [TakesUnknown, Rejects, and_comm, and_congr_left_iff]
  intro hunknown
  rw [← checkSchedulingParams_of_unknown hunknown]
  tauto

theorem setsValid_iff : SetsValid os a c ↔
    ¬ TakesUnknown os c ∧ (Rejects os c → a.Valid os) := by
  rw [takesUnknown_iff]
  by_cases h : Rejects os c
  · rw [setsValid_of_rejects h]
    tauto
  · rw [setsValid_of_accepts h]
    tauto

end Steps

def nextAttributes (os : Policies) (a : SchedAttributes) (c : SchedParams) :
    Option SchedAttributes :=
  some (setThreadAttributes os a c).1

theorem each_setsValid_iff (os : Policies) (calls : List SchedParams) (a : SchedAttributes) :
    Each (nextAttributes os) (SetsValid os) calls a ↔ (∀ c ∈ calls, ¬ TakesUnknown os c) ∧
      ∀ c ∈ calls.head?, Rejects os c → a.Valid os := by
  induction calls generalizing a with
  | nil => simp [Each]
  | cons c calls ih =>
    have hrest : Each (nextAttributes os) (SetsValid os) (c :: calls) a ↔ SetsValid os a c ∧
        Each (nextAttributes os) (SetsValid os) calls (setThreadAttributes os a c).1 := by
      simp [Each, nextAttributes]
    -- after the first call there are valid attributes to fall back on
    have hvalid (h : SetsValid os a c) : ∀ c' ∈ calls.head?, Rejects os c' →
        (setThreadAttributes os a c).1.Valid os := fun _ _ _ => h.1
    rw [hrest, ih]
    simp only [List.forall_mem_cons, List.head?_cons, Option.mem_some_iff, forall_eq']
    rw [setsValid_iff] at hvalid ⊢
    tauto

/-- The attributes are valid after every call exactly when no call asks for a policy the OS does
not know, with priorities of -1 or as the default; a first call that is rejected leaves those of
a new `ThreadManager`. -/
theorem attributes_valid_iff (os : Policies) (calls : List SchedParams) :
    Each (nextAttributes os) (SetsValid os) calls .new ↔ (∀ c ∈ calls, ¬ TakesUnknown os c) ∧
      ∀ c ∈ calls.head?, Rejects os c → SchedAttributes.new.Valid os :=
  each_setsValid_iff os calls .new

def onlyOther : Policies := fun policy => if policy = schedOther then some ⟨0, 0, le_rfl⟩ else none

theorem takes_unknown_policy : ¬ ∀ (os : Policies) (calls : List SchedParams),
    Each (nextAttributes os) (SetsValid os) calls .new := by
  intro h
  obtain ⟨⟨⟨range, hrange, -⟩, -⟩, -⟩ := h onlyOther [⟨7, -1, -1⟩]
  cases hrange

end ItcPlatform.ThreadManager
