import Mathlib.Data.Finmap
import ItcPlatform.ConcurrentContainer.Machine
import ItcPlatform.Lib.History

/-! The hash map from names to entries, call by call under `m_activeEntriesLock`, against a
finite map. Adding and removing follow it; the lookup returns `nullptr` where the name is
found, and dereferences the end iterator where it is not. -/

namespace ItcPlatform.ConcurrentContainer
open History

abbrev ActiveEntries := AList fun _ : String => RawPtr

inductive NameCall
  | addEntryToHashMap (key : String) (entry : RawPtr)
  | removeEntryFromHashMap (key : String)
  | lookUpFromHashMap (key : String)

inductive NameRet
  | done (success : Bool)
  | found (entry : RawPtr)
  deriving DecidableEq

namespace ActiveEntries
variable (m : ActiveEntries)

def addEntryToHashMap (key : String) (entry : RawPtr) : ActiveEntries × Bool :=
  match m.lookup key with
  | some _ => (m, false)
  | none => (m.insert key entry, true)

def removeEntryFromHashMap (key : String) : ActiveEntries × Bool :=
  match m.lookup key with
  | none => (m, false)
  | some _ => (m.erase key, true)

/-- `none` is the read through the end iterator. -/
def lookUpFromHashMap (key : String) : Option RawPtr :=
  match m.lookup key with
  | some _ => some none
  | none => none

def call : NameCall → Option (ActiveEntries × NameRet)
  | .addEntryToHashMap key entry =>
    let r := m.addEntryToHashMap key entry
    some (r.1, .done r.2)
  | .removeEntryFromHashMap key =>
    let r := m.removeEntryFromHashMap key
    some (r.1, .done r.2)
  | .lookUpFromHashMap key => (m.lookUpFromHashMap key).map fun entry => (m, .found entry)

end ActiveEntries

abbrev Names := Finmap fun _ : String => RawPtr

namespace Names
variable (t : Names)

/-- An absent key is answered with `nullptr`. -/
def call : NameCall → Names × NameRet
  | .addEntryToHashMap key entry =>
    if key ∈ t then (t, .done false) else (t.insert key entry, .done true)
  | .removeEntryFromHashMap key =>
    if key ∈ t then (t.erase key, .done true) else (t, .done false)
  | .lookUpFromHashMap key => (t, .found ((t.lookup key).getD none))

def LooksUpNull : NameCall → Prop
  | .lookUpFromHashMap key => t.lookup key = some none
  | _ => True

end Names

section Refinement
variable {m : ActiveEntries}

theorem call_follows {c : NameCall} (h : Names.LooksUpNull m.toFinmap c) : ∃ m' : ActiveEntries,
    m.call c = some (m', (Names.call m.toFinmap c).2) ∧
      m'.toFinmap = (Names.call m.toFinmap c).1 := by
  cases c with
  | addEntryToHashMap key entry =>
    cases hfind : m.lookup key with
    | none =>
      have habsent : key ∉ m.toFinmap := AList.lookup_eq_none.mp hfind
      exact ⟨m.insert key entry, by
        simp [ActiveEntries.call, ActiveEntries.addEntryToHashMap, Names.call, hfind, habsent]⟩
    | some e =>
      have hbound : key ∈ m.toFinmap := AList.lookup_isSome.mp (by rw [hfind]; rfl)
      exact ⟨m, by
        simp [ActiveEntries.call, ActiveEntries.addEntryToHashMap, Names.call, hfind, hbound]⟩
  | removeEntryFromHashMap key =>
    cases hfind : m.lookup key with
    | none =>
      have habsent : key ∉ m.toFinmap := AList.lookup_eq_none.mp hfind
      exact ⟨m, by
        simp [ActiveEntries.call, ActiveEntries.removeEntryFromHashMap, Names.call, hfind, habsent]⟩
    | some e =>
      have hbound : key ∈ m.toFinmap := AList.lookup_isSome.mp (by rw [hfind]; rfl)
      exact ⟨m.erase key, by
        simp [ActiveEntries.call, ActiveEntries.removeEntryFromHashMap, Names.call, hfind, hbound]⟩
  | lookUpFromHashMap key =>
    have hfind : m.lookup key = some none := h
    exact ⟨m, by simp [ActiveEntries.call, ActiveEntries.lookUpFromHashMap, Names.call, hfind]⟩

theorem call_differs {c : NameCall} (h : ¬ Names.LooksUpNull m.toFinmap c) (m' : ActiveEntries) :
    m.call c ≠ some (m', (Names.call m.toFinmap c).2) := by
  -- the lookup of a bound name loses its entry, that of an unbound one is undefined
  cases c with
  | addEntryToHashMap | removeEntryFromHashMap => exact absurd trivial h
  | lookUpFromHashMap key =>
    intro heq
    cases hfind : m.lookup key with
    | none => simp [ActiveEntries.call, ActiveEntries.lookUpFromHashMap, hfind] at heq
    | some e =>
      simp [ActiveEntries.call, ActiveEntries.lookUpFromHashMap, Names.call, hfind] at heq
      exact h (hfind.trans (congrArg some heq.2.symm))

/-- All results are those of the finite map exactly when every lookup is of a name that is bound
to `nullptr`: a sequence without lookups agrees, one with a useful lookup does not. -/
theorem results_eq_expected_iff (calls : List NameCall) (m : ActiveEntries) :
    results ActiveEntries.call calls m = some (expected Names.call calls m.toFinmap) ↔
      Each (fun t c => some (Names.call t c).1) Names.LooksUpNull calls m.toFinmap := by
  refine results_eq_iff (R := fun m t => m.toFinmap = t) ?_ ?_ rfl
  · rintro m _ c rfl h
    exact call_follows h
  · rintro m _ c rfl h
    exact call_differs h

/-- A name that was just bound is not found, and a name never bound is undefined behaviour. -/
theorem results_ne_expected_lookUp :
    results ActiveEntries.call [.addEntryToHashMap "a" (some 0), .lookUpFromHashMap "a"] ∅ =
        some [.done true, .found none] ∧
      expected Names.call [.addEntryToHashMap "a" (some 0), .lookUpFromHashMap "a"] ∅ =
        [.done true, .found (some 0)] ∧
      results ActiveEntries.call [.lookUpFromHashMap "a"] ∅ = none := by
  refine ⟨by decide, by decide, by decide⟩

end Refinement

end ItcPlatform.ConcurrentContainer
