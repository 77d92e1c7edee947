import Mathlib.Algebra.Order.BigOperators.Group.Finset
import ItcPlatform.ThreadPool.Tasks

/-! How far the workers of a pool may stray from the order in which the tasks came. -/

namespace ItcPlatform.ThreadPool
open Interleaving
variable {ι τ : Type*}

/-- When a task was started, fewer than `bound` of those that had come before it were not. -/
def OvertakesFewer (bound : ℕ) (accepted started : List τ) : Prop :=
  ∀ k task, started[k]? = some task → ∃ n, accepted[n]? = some task ∧
    ∃ late : Multiset τ, late.card < bound ∧
      (accepted.take n : Multiset τ) ≤ started.take k + late

namespace OvertakesFewer
variable {bound : ℕ} {accepted accepted' started : List τ}

theorem accept (h : OvertakesFewer bound accepted started) (hfirst : accepted <+: accepted') :
    OvertakesFewer bound accepted' started := by
  obtain ⟨rest, rfl⟩ := hfirst
  intro k task hk
  obtain ⟨n, hn, late, hlate, hle⟩ := h k task hk
  have hlt : n < accepted.length := (List.getElem?_eq_some_iff.mp hn).1
  refine ⟨n, by rwa [List.getElem?_append_left hlt], late, hlate, ?_⟩
  rwa [List.take_append_of_le_length hlt.le]

theorem start (h : OvertakesFewer bound accepted started) {dequeued : List τ} {task : τ}
    {late : Multiset τ} (hfirst : dequeued <+: accepted) (hlate : late.card < bound)
    (hdequeued : (dequeued : Multiset τ) = started + (task ::ₘ late)) :
    OvertakesFewer bound accepted (started ++ [task]) := by
  intro k next hk
  rcases Nat.lt_or_ge k started.length with hlt | hge
  · rw [List.getElem?_append_left hlt] at hk
    obtain ⟨n, hn, late, hlate, hle⟩ := h k next hk
    exact ⟨n, hn, late, hlate, by rwa [List.take_append_of_le_length hlt.le]⟩
  · obtain ⟨rfl, rfl⟩ : k = started.length ∧ task = next := by
      rw [List.getElem?_append_right hge, List.getElem?_singleton] at hk
      split_ifs at hk with h0
      exact ⟨by omega, Option.some.inj hk⟩
    have hmem : task ∈ dequeued := by
      rw [← Multiset.mem_coe, hdequeued]
      exact Multiset.mem_add.mpr (.inr (Multiset.mem_cons_self _ _))
    obtain ⟨earlier, later, rfl⟩ := List.append_of_mem hmem
    obtain ⟨rest, rfl⟩ := hfirst
    refine ⟨earlier.length, by simp, late, hlate, ?_⟩
    -- once the task itself is taken off both sides, what came before it is part of the rest
    have hsum : (earlier : Multiset τ) + later = started + late := by
      rw [← Multiset.cons_inj_right task, ← Multiset.add_cons, ← Multiset.add_cons, ← hdequeued,
        Multiset.cons_coe, Multiset.coe_add]
    have htake : (earlier ++ task :: later ++ rest).take earlier.length = earlier := by
      rw [List.append_assoc, List.take_left]
    rw [htake, List.take_left, ← hsum]
    exact Multiset.le_add_right _ _

end OvertakesFewer

section Run
variable [DecidableEq ι] {workers : List ι} {i : ι}

theorem Moves.accepted_grows {s s' : Pool ι τ} {pc pc' : Pc ι τ}
    (h : Moves workers i s pc s' pc') : s.accepted <+: s'.accepted := by
  cases h with
  | accept task => exact List.prefix_append _ _
  | _ => exact List.prefix_rfl

theorem Moves.starts {s s' : Pool ι τ} {pc pc' : Pc ι τ} (h : Moves workers i s pc s' pc') :
    s'.started = s.started ∨
      ∃ task, pc = .holding task ∧ s'.started = s.started ++ [task] := by
  cases h with
  | begin task => exact .inr ⟨task, rfl, rfl⟩
  | _ => exact .inl rfl

omit [DecidableEq ι] in
theorem Pc.length_held_le (pc : Pc ι τ) : pc.held.length ≤ 1 := by
  cases pc <;> first | exact Nat.zero_le 1 | exact le_rfl

variable [Fintype ι] {s : State ι (Pool ι τ) (Pc ι τ)}

theorem Awake.card_late_lt (hs : Awake workers s) (hi : i ∈ workers) :
    (∑ j ∈ Finset.univ.erase i, ((s.locals j).held : Multiset τ)).card < workers.length := by
  have hheld (j : ι) (hj : j ∉ workers) : (s.locals j).held = [] := by
    apply Pc.held_of_not_inLoop
    rwa [← Bool.not_eq_true, (hs.stands j).inLoop]
  have hsub : ∑ j ∈ Finset.univ.erase i, ((s.locals j).held : Multiset τ) =
      ∑ j ∈ workers.toFinset.erase i, ((s.locals j).held : Multiset τ) := by
    refine (Finset.sum_subset (Finset.erase_subset_erase i (Finset.subset_univ _)) ?_).symm
    intro j hj hnot
    have hne := Finset.ne_of_mem_erase hj
    rw [hheld j fun hmem => hnot (Finset.mem_erase.mpr ⟨hne, List.mem_toFinset.mpr hmem⟩)]
    rfl
  have himem := List.mem_toFinset.mpr hi
  calc (∑ j ∈ Finset.univ.erase i, ((s.locals j).held : Multiset τ)).card
      = ∑ j ∈ workers.toFinset.erase i, (s.locals j).held.length := by
        rw [hsub, Multiset.card_sum]
        rfl
    _ ≤ ∑ _j ∈ workers.toFinset.erase i, 1 :=
        Finset.sum_le_sum fun j _ => (s.locals j).length_held_le
    _ = (workers.toFinset.erase i).card := (Finset.card_eq_sum_ones _).symm
    _ < workers.toFinset.card := Finset.card_erase_lt_of_mem himem
    _ ≤ workers.length := List.toFinset_card_le _

/-- Whatever the interleaving, a task that starts overtakes fewer tasks than there are workers. -/
theorem overtakesFewer_of_run (h : Run (threadPool workers) anyStep (start workers) s) :
    OvertakesFewer workers.length s.shared.accepted s.shared.started := by
  refine (h.invariant (I := fun s => Sound workers s ∧
    OvertakesFewer workers.length s.shared.accepted s.shared.started)
    ⟨sound_start, fun k task hk => by cases hk⟩ ?_).2
  rintro s i a x pc' ⟨hs, hovertakes⟩ - hP
  have hmoves := moves_of_threadPool hP
  refine ⟨hs.move hmoves, ?_⟩
  have haccepted := hovertakes.accept hmoves.accepted_grows
  obtain hsame | ⟨task, hpc, hstarted⟩ := hmoves.starts
  · rwa [hsame]
  rw [hstarted]
  have hworker : i ∈ workers := by
    rw [← (hs.awake.stands i).inLoop, hpc]
    rfl
  have hfirst : s.shared.dequeued <+: s.shared.accepted := ⟨_, hs.fifo⟩
  refine haccepted.start (hfirst.trans hmoves.accepted_grows)
    (hs.awake.card_late_lt hworker) ?_
  rw [hs.started, ← Finset.add_sum_erase _ _ (Finset.mem_univ i), hpc]
  rfl

end Run

theorem overtakesFewer_of_run_overtaking : ∃ s : State (Fin 3) (Pool (Fin 3) ℕ) (Pc (Fin 3) ℕ),
    exec (threadPool [0, 1]) anyStep (overtaking 0 1 2) (start [0, 1]) = some s ∧
      s.shared.started = [8] ∧ OvertakesFewer 2 s.shared.accepted s.shared.started := by
  obtain ⟨s, hs, hstarted⟩ : ∃ s : State (Fin 3) (Pool (Fin 3) ℕ) (Pc (Fin 3) ℕ),
      exec (threadPool [0, 1]) anyStep (overtaking 0 1 2) (start [0, 1]) = some s ∧
        s.shared.started = [8] := ⟨_, rfl, rfl⟩
  exact ⟨s, hs, hstarted, overtakesFewer_of_run (exec_run hs .start)⟩

end ItcPlatform.ThreadPool
