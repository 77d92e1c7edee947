import Mathlib.Algebra.Order.Group.Multiset
import Mathlib.Data.List.Nodup
import Mathlib.Tactic.Abel
import ItcPlatform.Lib.History

/-! A FIFO list that is switched on and off. While it is off it takes nothing, and switching it
off drops what it holds; whatever it took is handed out or dropped, once. -/

namespace SwitchedFifo
open History
variable {E : Type*}

structure Fifo (E : Type*) where
  isOn : Bool
  pending : List E

inductive Call (E : Type*)
  | push (e : E)
  | pop
  | switch (on : Bool)

inductive Reply (E : Type*)
  | pushed (ok : Bool)
  | popped (e : Option E)
  | switched (dropped : List E)

def Fifo.new : Fifo E := ⟨false, []⟩

def Fifo.next (s : Fifo E) : Call E → Fifo E × Reply E
  | .push e => if s.isOn then (⟨true, s.pending ++ [e]⟩, .pushed true) else (s, .pushed false)
  | .pop =>
    match s.isOn, s.pending with
    | true, e :: rest => (⟨true, rest⟩, .popped (some e))
    | _, _ => (s, .popped none)
  | .switch on =>
    match s.isOn, on with
    | true, false => (⟨false, []⟩, .switched s.pending)
    | false, true => (⟨true, s.pending⟩, .switched [])
    | _, _ => (s, .switched [])

abbrev Log (E : Type*) := List (Call E × Reply E)

namespace Log

def accepted (log : Log E) : List E :=
  log.filterMap fun
    | (.push e, .pushed true) => some e
    | _ => none

def refused (log : Log E) : List E :=
  log.filterMap fun
    | (.push e, .pushed false) => some e
    | _ => none

def received (log : Log E) : List E :=
  log.filterMap fun
    | (_, .popped e) => e
    | _ => none

def dropped (log : Log E) : List E :=
  log.flatMap fun
    | (_, .switched l) => l
    | _ => []

end Log

def pushes (calls : List (Call E)) : List E :=
  calls.filterMap fun
    | .push e => some e
    | _ => none

def log (calls : List (Call E)) (s : Fifo E) : Log E := calls.zip (expected Fifo.next calls s)

def last (calls : List (Call E)) (s : Fifo E) : Fifo E := calls.foldl (fun s c => (s.next c).1) s

namespace Log
variable (entry : Call E × Reply E) (log : Log E)

theorem accepted_cons : accepted (entry :: log) = accepted [entry] ++ log.accepted :=
  @List.filterMap_append _ _ [entry] log _

theorem refused_cons : refused (entry :: log) = refused [entry] ++ log.refused :=
  @List.filterMap_append _ _ [entry] log _

theorem received_cons : received (entry :: log) = received [entry] ++ log.received :=
  @List.filterMap_append _ _ [entry] log _

theorem dropped_cons : dropped (entry :: log) = dropped [entry] ++ log.dropped :=
  @List.flatMap_append _ _ [entry] log _

end Log

theorem pushes_cons (c : Call E) (calls : List (Call E)) :
    pushes (c :: calls) = pushes [c] ++ pushes calls :=
  @List.filterMap_append _ _ [c] calls _

namespace Fifo
variable (s : Fifo E) (c : Call E)

abbrev entry : Call E × Reply E := (c, (s.next c).2)

theorem next_account : (s.pending : Multiset E) + Log.accepted [s.entry c] =
    Log.received [s.entry c] + Log.dropped [s.entry c] + (s.next c).1.pending := by
  obtain ⟨isOn, pending⟩ := s
  cases c with
  | push e =>
    cases isOn
    · simp [entry, next, Log.accepted, Log.received, Log.dropped]
    · rfl
  | pop =>
    cases isOn
    · simp [entry, next, Log.accepted, Log.received, Log.dropped]
    · cases pending <;> simp [entry, next, Log.accepted, Log.received, Log.dropped]
  | switch on =>
    cases isOn <;> cases on <;> simp [entry, next, Log.accepted, Log.received, Log.dropped]

theorem next_inOrder : (Log.received [s.entry c] ++ (s.next c).1.pending).Sublist
    (s.pending ++ Log.accepted [s.entry c]) := by
  obtain ⟨isOn, pending⟩ := s
  cases c with
  | push e => cases isOn <;> simp [entry, next, Log.accepted, Log.received]
  | pop =>
    cases isOn
    · simp [entry, next, Log.accepted, Log.received]
    · cases pending <;> simp [entry, next, Log.accepted, Log.received]
  | switch on => cases isOn <;> cases on <;> simp [entry, next, Log.accepted, Log.received]

theorem next_pushes : (Log.accepted [s.entry c] : Multiset E) + Log.refused [s.entry c] =
    pushes [c] := by
  obtain ⟨isOn, pending⟩ := s
  cases c with
  | push e => cases isOn <;> simp [entry, next, Log.accepted, Log.refused, pushes]
  | pop => cases isOn <;> cases pending <;> simp [entry, next, Log.accepted, Log.refused, pushes]
  | switch on => cases isOn <;> cases on <;> simp [entry, next, Log.accepted, Log.refused, pushes]

@[simp] theorem isOn_switch (on : Bool) : (s.next (.switch on)).1.isOn = on := by
  obtain ⟨isOn, pending⟩ := s
  cases isOn <;> cases on <;> rfl

theorem next_pending (h : s.isOn = false → s.pending = []) :
    (s.next c).1.isOn = false → (s.next c).1.pending = [] := by
  obtain ⟨isOn, pending⟩ := s
  cases c with
  | push e => cases isOn <;> simp_all [next]
  | pop => cases isOn <;> cases pending <;> simp_all [next]
  | switch on => cases isOn <;> cases on <;> simp_all [next]

end Fifo

section Run
variable (c : Call E) (calls : List (Call E)) (s : Fifo E)

theorem log_cons : log (c :: calls) s = s.entry c :: log calls (s.next c).1 := rfl

theorem last_cons : last (c :: calls) s = last calls (s.next c).1 := rfl

theorem account : (s.pending : Multiset E) + (log calls s).accepted =
    (log calls s).received + (log calls s).dropped + (last calls s).pending := by
  induction calls generalizing s with
  | nil => simp [log, last, Log.accepted, Log.received, Log.dropped]
  | cons c calls ih =>
    have hstep := s.next_account c
    have hrest := ih (s.next c).1
    rw [log_cons, last_cons, Log.accepted_cons, Log.received_cons, Log.dropped_cons,
      ← Multiset.coe_add, ← Multiset.coe_add, ← Multiset.coe_add, ← add_assoc, hstep, add_assoc,
      hrest]
    abel

theorem inOrder : (log calls s).received.Sublist (s.pending ++ (log calls s).accepted) := by
  induction calls generalizing s with
  | nil => exact List.nil_sublist _
  | cons c calls ih =>
    rw [log_cons, Log.received_cons, Log.accepted_cons, ← List.append_assoc]
    refine ((List.Sublist.refl _).append (ih (s.next c).1)).trans ?_
    rw [← List.append_assoc]
    exact (s.next_inOrder c).append (List.Sublist.refl _)

theorem accepted_add_refused :
    ((log calls s).accepted : Multiset E) + (log calls s).refused = pushes calls := by
  induction calls generalizing s with
  | nil => rfl
  | cons c calls ih =>
    rw [log_cons, Log.accepted_cons, Log.refused_cons, pushes_cons, ← Multiset.coe_add,
      ← Multiset.coe_add, ← Multiset.coe_add, ← s.next_pushes c, ← ih (s.next c).1]
    abel

theorem last_pending (h : s.isOn = false → s.pending = []) :
    (last calls s).isOn = false → (last calls s).pending = [] := by
  induction calls generalizing s with
  | nil => exact h
  | cons c calls ih => exact ih (s.next c).1 (s.next_pending c h)

end Run

/-- Everything that was taken is handed out, in order, or dropped, and both but once; what was
refused is neither. -/
structure Accounted (log : Log E) : Prop where
  inOrder : log.received.Sublist log.accepted
  all : (log.received ++ log.dropped).Perm log.accepted
  once : (log.received ++ log.dropped).Nodup
  refused : ∀ e ∈ log.refused, e ∉ log.received ++ log.dropped

/-- A FIFO list that is switched off in the end accounts for all it took. -/
theorem accounted {calls : List (Call E)} (hnodup : (pushes calls).Nodup) :
    Accounted (log (calls ++ [.switch false]) .new) := by
  have hoff : (last (calls ++ [.switch false]) (.new : Fifo E)).isOn = false := by
    rw [last, List.foldl_append]
    exact Fifo.isOn_switch _ false
  have hempty := last_pending (calls ++ [.switch false]) .new (fun _ => rfl) hoff
  have hall := account (calls ++ [.switch false]) .new
  have hpushes := accepted_add_refused (calls ++ [.switch false]) .new
  have hcalls : pushes (calls ++ [.switch false]) = pushes calls := by simp [pushes]
  rw [hempty, Fifo.new, Multiset.coe_nil, zero_add, add_zero, Multiset.coe_add,
    Multiset.coe_eq_coe] at hall
  rw [hcalls, Multiset.coe_add, Multiset.coe_eq_coe] at hpushes
  obtain ⟨haccepted, -, hdisjoint⟩ := List.nodup_append.mp (hpushes.nodup_iff.mpr hnodup)
  exact ⟨inOrder _ _, hall.symm, hall.nodup_iff.mp haccepted, fun e he hmem =>
    hdisjoint e (hall.mem_iff.mpr hmem) e he rfl⟩

end SwitchedFifo
