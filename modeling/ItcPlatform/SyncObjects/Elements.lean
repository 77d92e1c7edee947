import Mathlib.Data.Int.Notation
import Mathlib.Data.List.Count
import ItcPlatform.Lib.History

/-! `SyncObject`s and the elements they share, from the first construction to the last
destruction. -/

namespace ItcPlatform.SyncObjects
open History

inductive PthreadObject
  | condAttrs
  | mtxAttrs
  | cond
  | mtx
  deriving DecidableEq

/-- One shared block, with the calls made on its members. -/
structure SyncObjectElements where
  fd : ℤ
  fdEventCounter : ℕ
  initialised : List PthreadObject
  destroyed : List PthreadObject
  opened : List ℤ
  closed : List ℤ

/-- `elems` is the number of the block that the shared pointer holds. -/
structure SyncObject where
  elems : Option ℕ
  isInitialised : Bool
  deriving DecidableEq

/-- What the calls in `init` return; `setup` and `fdEventCounter` come from the user's function. -/
structure Outcomes where
  cWrapperIf : Bool
  condAttrInit : ℤ
  mutexAttrInit : ℤ
  setup : ℤ
  fdEventCounter : ℕ
  condInit : ℤ
  mutexInit : ℤ
  eventFd : ℤ
  write : ℤ

/-- Objects and blocks in the order in which they were made; an object is `none` once destroyed. -/
structure Store where
  blocks : List SyncObjectElements
  objects : List (Option SyncObject)
  destroyedUnderOthers : Bool
  nullDereferences : ℕ

/-- `cWrapperIf` says whether the destructor gets hold of the C wrapper. -/
inductive Op
  | construct (o : Outcomes)
  | copyConstruct (i : ℕ)
  | moveConstruct (i : ℕ)
  | copyAssign (i j : ℕ)
  | moveAssign (i j : ℕ)
  | destroy (i : ℕ) (cWrapperIf : Bool)

namespace SyncObjectElements

def new : SyncObjectElements := ⟨-1, 0, [], [], [], []⟩

def initialise (e : SyncObjectElements) (p : PthreadObject) : SyncObjectElements :=
  { e with initialised := e.initialised ++ [p] }

def release (e : SyncObjectElements) : SyncObjectElements :=
  let e := { e with destroyed := e.destroyed ++ [.condAttrs, .mtxAttrs, .cond, .mtx] }
  if e.fd ≠ -1 then { e with fd := -1, closed := e.closed ++ [e.fd] } else e

structure Balanced (e : SyncObjectElements) : Prop where
  destroyed_once : ∀ p ∈ e.initialised, e.destroyed.count p = 1
  closed_once : ∀ fd ∈ e.opened, e.closed.count fd = 1

structure Complete (e : SyncObjectElements) : Prop where
  initialised : e.initialised = [.condAttrs, .mtxAttrs, .cond, .mtx]
  destroyed : e.destroyed = []
  opened : e.opened = [e.fd]
  closed : e.closed = []
  fd : e.fd ≠ -1

theorem Complete.balanced_release {e : SyncObjectElements} (h : e.Complete) :
    e.release.Balanced := by
  unfold release
  constructor <;> simp [h.initialised, h.destroyed, h.opened, h.closed, h.fd]

end SyncObjectElements

/-- The elements, if there are any, and `isInitialised`. -/
def init (o : Outcomes) : Option SyncObjectElements × Bool :=
  if o.cWrapperIf = false then (none, false) else
  let elems := SyncObjectElements.new
  if o.condAttrInit ≠ 0 then (some elems, false) else
  let elems := elems.initialise .condAttrs
  if o.mutexAttrInit ≠ 0 then (some elems, false) else
  let elems := elems.initialise .mtxAttrs
  let elems := { elems with fdEventCounter := o.fdEventCounter }
  if o.setup ≠ 0 then (some elems, false) else
  if o.condInit ≠ 0 then (some elems, false) else
  let elems := elems.initialise .cond
  if o.mutexInit ≠ 0 then (some elems, false) else
  let elems := elems.initialise .mtx
  if o.eventFd = -1 then (some elems, false) else
  let elems := { elems with fd := o.eventFd, opened := [o.eventFd] }
  if elems.fdEventCounter ≠ 0 ∧ o.write < 0 then (some elems, false) else
  (some elems, true)

namespace Outcomes
variable (o : Outcomes)

def InitialisesNothing : Prop := o.cWrapperIf = false ∨ o.condAttrInit ≠ 0

def Completes : Prop :=
  o.cWrapperIf = true ∧ o.condAttrInit = 0 ∧ o.mutexAttrInit = 0 ∧ o.setup = 0 ∧ o.condInit = 0 ∧
    o.mutexInit = 0 ∧ o.eventFd ≠ -1 ∧ (o.fdEventCounter ≠ 0 → 0 ≤ o.write)

end Outcomes

def Holds (objects : List (Option SyncObject)) (b : ℕ) : Prop :=
  ∃ x ∈ objects, x.bind SyncObject.elems = some b

instance (objects : List (Option SyncObject)) (b : ℕ) : Decidable (Holds objects b) :=
  inferInstanceAs (Decidable (∃ x ∈ objects, x.bind SyncObject.elems = some b))

namespace Store

def new : Store := ⟨[], [], false, 0⟩

def object (s : Store) (i : ℕ) : Option SyncObject := s.objects[i]?.join

def construct (s : Store) (o : Outcomes) : Store :=
  { s with
    blocks := s.blocks ++ (init o).1.toList
    objects := s.objects ++ [some ⟨(init o).1.map fun _ => s.blocks.length, (init o).2⟩] }

def reset (s : Store) (x : SyncObject) (cWrapperIf : Bool) : Store :=
  if x.isInitialised = false then s
  else if cWrapperIf = false then s
  else match x.elems with
    | none => { s with nullDereferences := s.nullDereferences + 1 }
    | some b => { s with
        blocks := s.blocks.modify b SyncObjectElements.release
        destroyedUnderOthers := s.destroyedUnderOthers || decide (Holds s.objects b) }

/-- `none` where the operation names an object that does not exist. -/
def next (s : Store) : Op → Option Store
  | .construct o => some (s.construct o)
  | .copyConstruct i => do
    let x ← s.object i
    some { s with objects := s.objects ++ [some x] }
  | .moveConstruct i => do
    let x ← s.object i
    some { s with objects := s.objects.set i (some { x with elems := none }) ++ [some x] }
  | .copyAssign i j => do
    let _ ← s.object i
    let y ← s.object j
    some { s with objects := s.objects.set i (some y) }
  | .moveAssign i j => do
    let _ ← s.object i
    let y ← s.object j
    -- a shared pointer moved to itself keeps its value
    if i = j then some s
    else some { s with
      objects := (s.objects.set j (some { y with elems := none })).set i (some y) }
  | .destroy i cWrapperIf => do
    let x ← s.object i
    some ({ s with objects := s.objects.set i none }.reset x cWrapperIf)

structure Balanced (s : Store) : Prop where
  blocks : ∀ e ∈ s.blocks, e.Balanced
  not_under_others : s.destroyedUnderOthers = false
  no_null : s.nullDereferences = 0

/-- Where the object is completely initialised, others share its elements, if it has any. -/
def StaysHeld (s : Store) (i : ℕ) : Prop :=
  ∀ x ∈ s.object i, x.isInitialised = true → ∀ b ∈ x.elems, Holds (s.objects.set i none) b

/-- Where the object is completely initialised, it has elements and shares them with no other. -/
def IsLast (s : Store) (i : ℕ) : Prop :=
  ∀ x ∈ s.object i, x.isInitialised = true → ∃ b ∈ x.elems, ¬ Holds (s.objects.set i none) b

/-- `init` does not stop half-way, an assignment takes no complete elements from their last object,
and a destructor that reaches its calls is that of the last one. -/
def Careful (s : Store) : Op → Prop
  | .construct o => o.InitialisesNothing ∨ o.Completes
  | .copyConstruct _ | .moveConstruct _ => True
  | .copyAssign i j | .moveAssign i j => i = j ∨ s.StaysHeld i
  | .destroy i cWrapperIf => if cWrapperIf = true then s.IsLast i else s.StaysHeld i

end Store

section Init
variable {o : Outcomes}

theorem init_of_initialisesNothing (h : o.InitialisesNothing) :
    (∀ e ∈ (init o).1, e = .new) ∧ (init o).2 = false := by
  unfold init
  by_cases hw : o.cWrapperIf = false
  · simp [if_pos hw]
  · simp [if_neg hw, if_pos (h.resolve_left hw)]

theorem init_of_completes (h : o.Completes) : init o = (some ⟨o.eventFd, o.fdEventCounter,
    [.condAttrs, .mtxAttrs, .cond, .mtx], [], [o.eventFd], []⟩, true) := by
  obtain ⟨hw, hca, hma, hs, hc, hm, hfd, hwrite⟩ := h
  have hw' : ¬ (o.fdEventCounter ≠ 0 ∧ o.write < 0) := fun h => by
    have := hwrite h.1
    omega
  simp [init, hw, hca, hma, hs, hc, hm, hfd, hw', SyncObjectElements.initialise,
    SyncObjectElements.new]

theorem init_of_stops (h : ¬ o.InitialisesNothing) (h' : ¬ o.Completes) :
    ∃ e, init o = (some e, false) ∧ .condAttrs ∈ e.initialised ∧ e.destroyed = [] := by
  obtain ⟨hw, hca⟩ := not_or.mp h
  by_cases hma : o.mutexAttrInit = 0
  · by_cases hs : o.setup = 0
    · by_cases hc : o.condInit = 0
      · by_cases hm : o.mutexInit = 0
        · by_cases hfd : o.eventFd = -1
          · simp [init, hw, not_not.mp hca, hma, hs, hc, hm, hfd, SyncObjectElements.initialise,
              SyncObjectElements.new]
          · -- only the first write is left to fail
            have hwrite : o.fdEventCounter ≠ 0 ∧ o.write < 0 := by
              by_contra hnot
              refine h' ⟨eq_true_of_ne_false hw, not_not.mp hca, hma, hs, hc, hm, hfd, ?_⟩
              exact fun hcount => Int.not_lt.mp fun hneg => hnot ⟨hcount, hneg⟩
            simp [init, hw, not_not.mp hca, hma, hs, hc, hm, hfd, hwrite,
              SyncObjectElements.initialise, SyncObjectElements.new]
        · simp [init, hw, not_not.mp hca, hma, hs, hc, hm, SyncObjectElements.initialise,
            SyncObjectElements.new]
      · simp [init, hw, not_not.mp hca, hma, hs, hc, SyncObjectElements.initialise,
          SyncObjectElements.new]
    · simp [init, hw, not_not.mp hca, hma, hs, SyncObjectElements.initialise,
        SyncObjectElements.new]
  · simp [init, hw, not_not.mp hca, hma, SyncObjectElements.initialise, SyncObjectElements.new]

theorem init_of_careful (h : o.InitialisesNothing ∨ o.Completes) {e : SyncObjectElements}
    (he : (init o).1 = some e) :
    (init o).2 = true ∧ e.Complete ∨ (init o).2 = false ∧ e = .new := by
  rcases h with hnothing | hcomplete
  · obtain ⟨hnew, hflag⟩ := init_of_initialisesNothing hnothing
    exact .inr ⟨hflag, hnew e he⟩
  · rw [init_of_completes hcomplete] at he ⊢
    obtain rfl := Option.some.inj he
    exact .inl ⟨rfl, rfl, rfl, rfl, rfl, hcomplete.2.2.2.2.2.2.1⟩

end Init

section Objects
variable {old new : List (Option SyncObject)} {i j b : ℕ} {x y : SyncObject}

theorem holds_iff : Holds old b ↔ ∃ x, some x ∈ old ∧ x.elems = some b := by
  constructor
  · rintro ⟨_ | x, hx, hb⟩
    · cases hb
    · exact ⟨x, hx, hb⟩
  · rintro ⟨x, hx, hb⟩
    exact ⟨some x, hx, hb⟩

structure Handed (old new : List (Option SyncObject)) : Prop where
  live : ∀ x, some x ∈ new → x.elems = none ∨ some x ∈ old
  holds : ∀ b, Holds old b → Holds new b

theorem handed_refl : Handed old old := ⟨fun _ hx => .inr hx, fun _ hb => hb⟩

theorem mem_set_of_ne {z w : Option SyncObject} {k : ℕ} (hz : old[k]? = some z) (hk : k ≠ i) :
    z ∈ old.set i w :=
  List.mem_of_getElem? (i := k) (by rw [List.getElem?_set_ne (Ne.symm hk), hz])

theorem holds_or_of_holds (hx : old[i]? = some (some x)) (h : Holds old b) :
    x.elems = some b ∨ Holds (old.set i none) b := by
  obtain ⟨y, hy, hb⟩ := holds_iff.mp h
  obtain ⟨k, hk⟩ := List.mem_iff_getElem?.mp hy
  by_cases hki : k = i
  · subst hki
    obtain rfl := Option.some.inj (Option.some.inj (hx.symm.trans hk))
    exact .inl hb
  · exact .inr ⟨some y, mem_set_of_ne hk hki, hb⟩

theorem handed_copyConstruct (hx : old[i]? = some (some x)) : Handed old (old ++ [some x]) where
  live y hy := by
    rcases List.mem_append.mp hy with hy | hy
    · exact .inr hy
    · exact .inr (List.mem_singleton.mp hy ▸ List.mem_of_getElem? hx)
  holds b := fun ⟨y, hy, hb⟩ => ⟨y, List.mem_append_left _ hy, hb⟩

theorem handed_moveConstruct (hx : old[i]? = some (some x)) :
    Handed old (old.set i (some { x with elems := none }) ++ [some x]) where
  live y hy := by
    rcases List.mem_append.mp hy with hy | hy
    · rcases List.mem_or_eq_of_mem_set hy with hy | hy
      · exact .inr hy
      · exact .inl (Option.some.inj hy ▸ rfl)
    · exact .inr (List.mem_singleton.mp hy ▸ List.mem_of_getElem? hx)
  holds b := by
    rintro ⟨y, hy, hb⟩
    obtain ⟨k, hk⟩ := List.mem_iff_getElem?.mp hy
    by_cases hki : k = i
    · subst hki
      obtain rfl := Option.some.inj (hk.symm.trans hx)
      exact ⟨some x, List.mem_append_right _ List.mem_cons_self, hb⟩
    · exact ⟨y, List.mem_append_left _ (mem_set_of_ne hk hki), hb⟩

theorem handed_copyAssign (hi : old[i]? = some none) (hy : old[j]? = some (some y)) :
    Handed old (old.set i (some y)) where
  live z hz := by
    rcases List.mem_or_eq_of_mem_set hz with hz | hz
    · exact .inr hz
    · exact .inr (Option.some.inj hz ▸ List.mem_of_getElem? hy)
  holds b := by
    rintro ⟨z, hz, hb⟩
    obtain ⟨k, hk⟩ := List.mem_iff_getElem?.mp hz
    refine ⟨z, mem_set_of_ne hk ?_, hb⟩
    rintro rfl
    obtain rfl := Option.some.inj (hi.symm.trans hk)
    cases hb

theorem handed_moveAssign (hi : old[i]? = some none) (hy : old[j]? = some (some y)) :
    Handed old ((old.set j (some { y with elems := none })).set i (some y)) where
  live z hz := by
    rcases List.mem_or_eq_of_mem_set hz with hz | hz
    · rcases List.mem_or_eq_of_mem_set hz with hz | hz
      · exact .inr hz
      · exact .inl (Option.some.inj hz ▸ rfl)
    · exact .inr (Option.some.inj hz ▸ List.mem_of_getElem? hy)
  holds b := by
    rintro ⟨z, hz, hb⟩
    obtain ⟨k, hk⟩ := List.mem_iff_getElem?.mp hz
    have hki : k ≠ i := by
      rintro rfl
      obtain rfl := Option.some.inj (hi.symm.trans hk)
      cases hb
    by_cases hkj : k = j
    · subst hkj
      obtain rfl := Option.some.inj (hk.symm.trans hy)
      have hlt : i < old.length := (List.getElem?_eq_some_iff.mp hi).1
      exact ⟨some y, List.mem_set (by rwa [List.length_set]) _, hb⟩
    · refine ⟨z, mem_set_of_ne (k := k) ?_ hki, hb⟩
      rw [List.getElem?_set_ne (Ne.symm hkj), hk]

end Objects

namespace Store
variable {s s' : Store} {op : Op} {i : ℕ} {x : SyncObject} {cWrapperIf : Bool}

theorem object_eq_some_iff : s.object i = some x ↔ s.objects[i]? = some (some x) := by
  rw [object, Option.join_eq_some_iff]

theorem eq_of_mem_object {y : SyncObject} (hx : s.objects[i]? = some (some x))
    (hy : y ∈ s.object i) : y = x :=
  Option.some.inj (hy.symm.trans (object_eq_some_iff.mpr hx))

theorem next_cases (h : s.next op = some s') :
    (∃ o, op = .construct o ∧ s' = s.construct o) ∨
    (∃ objects, s' = { s with objects } ∧ Handed s.objects objects ∧ s.Careful op) ∨
    (∃ i x objects, s.objects[i]? = some (some x) ∧ s' = { s with objects } ∧
      Handed (s.objects.set i none) objects ∧ (s.Careful op ↔ s.StaysHeld i)) ∨
    ∃ i x cWrapperIf, op = .destroy i cWrapperIf ∧ s.objects[i]? = some (some x) ∧
      s' = { s with objects := s.objects.set i none }.reset x cWrapperIf := by
  cases op with
  | construct o => exact .inl ⟨o, rfl, (Option.some.inj h).symm⟩
  | copyConstruct i =>
    obtain ⟨x, hx, hs⟩ := Option.bind_eq_some_iff.mp h
    have hx := object_eq_some_iff.mp hx
    exact .inr (.inl ⟨_, (Option.some.inj hs).symm, handed_copyConstruct hx, trivial⟩)
  | moveConstruct i =>
    obtain ⟨x, hx, hs⟩ := Option.bind_eq_some_iff.mp h
    have hx := object_eq_some_iff.mp hx
    exact .inr (.inl ⟨_, (Option.some.inj hs).symm, handed_moveConstruct hx, trivial⟩)
  | copyAssign i j =>
    obtain ⟨x, hx, hrest⟩ := Option.bind_eq_some_iff.mp h
    obtain ⟨y, hy, hs⟩ := Option.bind_eq_some_iff.mp hrest
    have hx := object_eq_some_iff.mp hx
    have hy := object_eq_some_iff.mp hy
    by_cases hij : i = j
    · subst hij
      obtain rfl := Option.some.inj (Option.some.inj (hx.symm.trans hy))
      obtain ⟨hlt, hget⟩ := List.getElem?_eq_some_iff.mp hx
      rw [← hget, List.set_getElem_self] at hs
      exact .inr (.inl ⟨s.objects, (Option.some.inj hs).symm, handed_refl, .inl rfl⟩)
    · have hself := List.getElem?_set_self (a := none) (List.getElem?_eq_some_iff.mp hx).1
      have hhanded := handed_copyAssign hself ((List.getElem?_set_ne hij).trans hy)
      rw [List.set_set] at hhanded
      exact .inr (.inr (.inl ⟨i, x, _, hx, (Option.some.inj hs).symm, hhanded, or_iff_right hij⟩))
  | moveAssign i j =>
    obtain ⟨x, hx, hrest⟩ := Option.bind_eq_some_iff.mp h
    obtain ⟨y, hy, hs⟩ := Option.bind_eq_some_iff.mp hrest
    have hx := object_eq_some_iff.mp hx
    have hy := object_eq_some_iff.mp hy
    by_cases hij : i = j
    · rw [if_pos hij] at hs
      exact .inr (.inl ⟨s.objects, (Option.some.inj hs).symm, handed_refl, .inl hij⟩)
    · rw [if_neg hij] at hs
      have hself := List.getElem?_set_self (a := none) (List.getElem?_eq_some_iff.mp hx).1
      have hhanded := handed_moveAssign hself ((List.getElem?_set_ne hij).trans hy)
      rw [List.set_comm _ _ hij, List.set_set] at hhanded
      exact .inr (.inr (.inl ⟨i, x, _, hx, (Option.some.inj hs).symm, hhanded, or_iff_right hij⟩))
  | destroy i cWrapperIf =>
    obtain ⟨x, hx, hs⟩ := Option.bind_eq_some_iff.mp h
    have hx := object_eq_some_iff.mp hx
    exact .inr (.inr (.inr ⟨i, x, cWrapperIf, rfl, hx, (Option.some.inj hs).symm⟩))

/-- Complete elements are held by complete objects only; all others are balanced as they are. -/
structure Tidy (s : Store) : Prop where
  live : ∀ x, some x ∈ s.objects → ∀ b, x.elems = some b →
    ∃ e, s.blocks[b]? = some e ∧ (x.isInitialised = true → e.Complete) ∧
      (x.isInitialised = false → e.initialised = [])
  blocks : ∀ b e, s.blocks[b]? = some e → e.Complete ∧ Holds s.objects b ∨ e.Balanced
  not_under_others : s.destroyedUnderOthers = false
  no_null : s.nullDereferences = 0

def Stranded (s : Store) (b : ℕ) : Prop :=
  (∃ e, s.blocks[b]? = some e ∧ .condAttrs ∈ e.initialised ∧ e.destroyed = []) ∧
    ∀ x, some x ∈ s.objects → x.isInitialised = true → x.elems ≠ some b

def Spoilt (s : Store) : Prop :=
  s.destroyedUnderOthers = true ∨ s.nullDereferences ≠ 0 ∨ ∃ b, s.Stranded b

theorem Tidy.not_spoilt (h : s.Tidy) : ¬ s.Spoilt := by
  rintro (hunder | hnull | ⟨b, ⟨e, he, hinit, hdestroyed⟩, hnobody⟩)
  · exact Bool.false_ne_true (h.not_under_others.symm.trans hunder)
  · exact hnull h.no_null
  · rcases h.blocks b e he with ⟨hcomplete, hheld⟩ | hbalanced
    · obtain ⟨x, hx, hb⟩ := holds_iff.mp hheld
      obtain ⟨e', he', -, hidle⟩ := h.live x hx b hb
      obtain rfl := Option.some.inj (he.symm.trans he')
      cases hflag : x.isInitialised with
      | true => exact hnobody x hx hflag hb
      | false =>
        rw [hidle hflag] at hinit
        cases hinit
    · have honce := hbalanced.destroyed_once _ hinit
      rw [hdestroyed] at honce
      cases honce

theorem Tidy.handed {objects : List (Option SyncObject)} (h : s.Tidy)
    (hh : Handed s.objects objects) : Tidy { s with objects } where
  live x hx b hb := by
    rcases hh.live x hx with hnone | hx
    · cases hnone.symm.trans hb
    · exact h.live x hx b hb
  blocks b e he := (h.blocks b e he).imp_left fun hand => ⟨hand.1, hh.holds b hand.2⟩
  not_under_others := h.not_under_others
  no_null := h.no_null

theorem Tidy.letGo (h : s.Tidy) (hx : s.objects[i]? = some (some x)) (hheld : s.StaysHeld i) :
    Tidy { s with objects := s.objects.set i none } where
  live y hy b hb := by
    rcases List.mem_or_eq_of_mem_set hy with hy | hy
    · exact h.live y hy b hb
    · cases hy
  blocks b e he := by
    refine (h.blocks b e he).imp_left fun ⟨hcomplete, hold⟩ => ⟨hcomplete, ?_⟩
    rcases holds_or_of_holds hx hold with hb | hothers
    · obtain ⟨e', he', -, hidle⟩ := h.live x (List.mem_of_getElem? hx) b hb
      obtain rfl := Option.some.inj (he.symm.trans he')
      refine hheld x (object_eq_some_iff.mpr hx) (eq_true_of_ne_false fun hflag => ?_) b hb
      exact List.cons_ne_nil _ _ (hcomplete.initialised.symm.trans (hidle hflag))
    · exact hothers
  not_under_others := h.not_under_others
  no_null := h.no_null

theorem stranded_letGo (h : s.Tidy) (hx : s.objects[i]? = some (some x))
    (hheld : ¬ s.StaysHeld i) : ∃ b, Stranded { s with objects := s.objects.set i none } b := by
  simp only [StaysHeld, not_forall] at hheld
  obtain ⟨x', hx', hflag, b, hb, hothers⟩ := hheld
  obtain rfl := eq_of_mem_object hx hx'
  obtain ⟨e, he, hcomplete, -⟩ := h.live x' (List.mem_of_getElem? hx) b hb
  refine ⟨b, ⟨e, he, ?_, (hcomplete hflag).destroyed⟩, fun y hy _ hyb => ?_⟩
  · exact (hcomplete hflag).initialised ▸ List.mem_cons_self
  · exact hothers (holds_iff.mpr ⟨y, hy, hyb⟩)

theorem Stranded.handed {objects : List (Option SyncObject)} {b : ℕ} (h : s.Stranded b)
    (hlive : ∀ x, some x ∈ objects → x.elems = none ∨ some x ∈ s.objects) :
    Stranded { s with objects } b := by
  refine ⟨h.1, fun x hx hflag hb => ?_⟩
  rcases hlive x hx with hnone | hx
  · cases hnone.symm.trans hb
  · exact h.2 x hx hflag hb

theorem Spoilt.handed {objects : List (Option SyncObject)} (h : s.Spoilt)
    (hlive : ∀ x, some x ∈ objects → x.elems = none ∨ some x ∈ s.objects) :
    Spoilt { s with objects } :=
  h.imp_right (Or.imp_right fun ⟨b, hb⟩ => ⟨b, hb.handed hlive⟩)

section Construct
variable {o : Outcomes} {b : ℕ} {e : SyncObjectElements}

theorem old_block (h : s.blocks[b]? = some e) : (s.construct o).blocks[b]? = some e := by
  rw [construct, List.getElem?_append_left (List.getElem?_eq_some_iff.mp h).1, h]

theorem new_block (h : (init o).1 = some e) :
    (s.construct o).blocks[s.blocks.length]? = some e := by
  simp [construct, h]

theorem block_construct (h : (s.construct o).blocks[b]? = some e) :
    s.blocks[b]? = some e ∨ b = s.blocks.length ∧ (init o).1 = some e := by
  rw [construct, List.getElem?_append] at h
  split at h
  · exact .inl h
  · cases hinit : (init o).1 with
    | none => simp [hinit] at h
    | some e' =>
      simp only [hinit, Option.toList_some, List.getElem?_singleton] at h
      split at h
      · obtain rfl := Option.some.inj h
        exact .inr ⟨by omega, rfl⟩
      · cases h

theorem mem_construct (h : some x ∈ (s.construct o).objects) :
    some x ∈ s.objects ∨ x = ⟨(init o).1.map fun _ => s.blocks.length, (init o).2⟩ :=
  (List.mem_append.mp h).imp_right fun hx => Option.some.inj (List.mem_singleton.mp hx)

theorem Tidy.construct (h : s.Tidy) (hcareful : s.Careful (.construct o)) :
    (s.construct o).Tidy where
  live x hx b hb := by
    rcases mem_construct hx with hx | rfl
    · obtain ⟨e, he, hrest⟩ := h.live x hx b hb
      exact ⟨e, old_block he, hrest⟩
    · obtain ⟨e, he, rfl⟩ := Option.map_eq_some_iff.mp hb
      refine ⟨e, new_block he, ?_⟩
      rcases init_of_careful hcareful he with ⟨hflag, hcomplete⟩ | ⟨hflag, rfl⟩
      · exact ⟨fun _ => hcomplete, fun hfalse => Bool.noConfusion (hflag.symm.trans hfalse)⟩
      · exact ⟨fun htrue => Bool.noConfusion (hflag.symm.trans htrue), fun _ => rfl⟩
  blocks b e he := by
    rcases block_construct he with he | ⟨rfl, hinit⟩
    · refine (h.blocks b e he).imp_left fun ⟨hcomplete, x, hx, hb⟩ => ⟨hcomplete, x, ?_, hb⟩
      exact List.mem_append_left _ hx
    · rcases init_of_careful hcareful hinit with ⟨-, hcomplete⟩ | ⟨-, rfl⟩
      · refine .inl ⟨hcomplete, _, List.mem_append_right _ List.mem_cons_self, ?_⟩
        simp [hinit]
      · exact .inr ⟨nofun, nofun⟩
  not_under_others := h.not_under_others
  no_null := h.no_null

theorem Tidy.spoilt_construct (h : s.Tidy) (hcareless : ¬ s.Careful (.construct o)) :
    (s.construct o).Spoilt := by
  obtain ⟨hnothing, hcomplete⟩ := not_or.mp hcareless
  obtain ⟨e, hinit, hattrs, hdestroyed⟩ := init_of_stops hnothing hcomplete
  refine .inr (.inr ⟨s.blocks.length, ⟨e, new_block (congrArg Prod.fst hinit), hattrs, hdestroyed⟩,
    fun x hx hflag hb => ?_⟩)
  rcases mem_construct hx with hx | rfl
  · obtain ⟨e', he', -⟩ := h.live x hx _ hb
    exact Nat.lt_irrefl _ (List.getElem?_eq_some_iff.mp he').1
  · rw [hinit] at hflag
    cases hflag

theorem Spoilt.construct (h : s.Spoilt) : (s.construct o).Spoilt := by
  refine h.imp_right (Or.imp_right ?_)
  rintro ⟨b, ⟨e, he, hrest⟩, hnobody⟩
  refine ⟨b, ⟨e, old_block he, hrest⟩, fun x hx hflag hb => ?_⟩
  rcases mem_construct hx with hx | rfl
  · exact hnobody x hx hflag hb
  · obtain ⟨-, -, rfl⟩ := Option.map_eq_some_iff.mp hb
    exact Nat.lt_irrefl _ (List.getElem?_eq_some_iff.mp he).1

end Construct

section Destroy

theorem reset_cases (s : Store) (x : SyncObject) (cWrapperIf : Bool) :
    (x.isInitialised = false ∨ cWrapperIf = false) ∧ s.reset x cWrapperIf = s ∨
      x.isInitialised = true ∧ cWrapperIf = true ∧
        (x.elems = none ∧
          s.reset x cWrapperIf = { s with nullDereferences := s.nullDereferences + 1 } ∨
        ∃ b, x.elems = some b ∧ s.reset x cWrapperIf = { s with
          blocks := s.blocks.modify b SyncObjectElements.release
          destroyedUnderOthers := s.destroyedUnderOthers || decide (Holds s.objects b) }) := by
  obtain ⟨elems, flag⟩ := x
  cases flag <;> cases cWrapperIf <;> cases elems <;> simp [reset]

theorem Tidy.destroy (h : s.Tidy) (hx : s.objects[i]? = some (some x))
    (hcareful : s.Careful (.destroy i cWrapperIf)) :
    Tidy ({ s with objects := s.objects.set i none }.reset x cWrapperIf) := by
  obtain ⟨hskip, heq⟩ | ⟨hflag, rfl, hcases⟩ :=
    reset_cases { s with objects := s.objects.set i none } x cWrapperIf
  · rw [heq]
    refine h.letGo hx ?_
    rcases hskip with hflag | rfl
    · intro y hy htrue
      obtain rfl := eq_of_mem_object hx hy
      cases hflag.symm.trans htrue
    · exact hcareful
  · obtain ⟨b, hb, hlast⟩ := hcareful x (object_eq_some_iff.mpr hx) hflag
    obtain ⟨hnone, -⟩ | ⟨b', hb', heq⟩ := hcases
    · cases hnone.symm.trans hb
    obtain rfl := Option.some.inj (hb'.symm.trans hb)
    rw [heq]
    refine ⟨fun y hy c hc => ?_, fun c e he => ?_, ?_, h.no_null⟩
    · have hne : b' ≠ c := by
        rintro rfl
        exact hlast (holds_iff.mpr ⟨y, hy, hc⟩)
      rcases List.mem_or_eq_of_mem_set hy with hy | hy
      · rw [List.getElem?_modify_ne _ _ hne]
        exact h.live y hy c hc
      · cases hy
    · by_cases hne : b' = c
      · -- the block that is released was complete
        subst hne
        obtain ⟨e₀, he₀, hcomplete, -⟩ := h.live x (List.mem_of_getElem? hx) b' hb
        rw [List.getElem?_modify_eq, he₀] at he
        obtain rfl := Option.some.inj he
        exact .inr (hcomplete hflag).balanced_release
      · rw [List.getElem?_modify_ne _ _ hne] at he
        refine (h.blocks c e he).imp_left fun ⟨hcomplete, hold⟩ => ⟨hcomplete, ?_⟩
        refine (holds_or_of_holds hx hold).resolve_left fun hc => ?_
        exact hne (Option.some.inj (hb.symm.trans hc))
    · simp only [h.not_under_others, decide_eq_false hlast, Bool.or_self]

theorem Tidy.spoilt_destroy (h : s.Tidy) (hx : s.objects[i]? = some (some x))
    (hcareless : ¬ s.Careful (.destroy i cWrapperIf)) :
    Spoilt ({ s with objects := s.objects.set i none }.reset x cWrapperIf) := by
  obtain ⟨hskip, heq⟩ | ⟨hflag, rfl, ⟨hnone, heq⟩ | ⟨b, hb, heq⟩⟩ :=
    reset_cases { s with objects := s.objects.set i none } x cWrapperIf
  · rw [heq]
    have hheld : ¬ s.StaysHeld i := by
      rcases hskip with hflag | rfl
      · refine absurd ?_ hcareless
        have hidle (y : SyncObject) (hy : y ∈ s.object i) : y.isInitialised ≠ true := by
          obtain rfl := eq_of_mem_object hx hy
          simp [hflag]
        cases cWrapperIf
        · exact fun y hy htrue => absurd htrue (hidle y hy)
        · exact fun y hy htrue => absurd htrue (hidle y hy)
      · exact hcareless
    exact .inr (.inr (stranded_letGo h hx hheld))
  · rw [heq]
    exact .inr (.inl (Nat.succ_ne_zero _))
  · rw [heq]
    refine .inl ?_
    have hothers : Holds (s.objects.set i none) b := by
      by_contra hlast
      refine hcareless fun y hy _ => ⟨b, ?_, hlast⟩
      obtain rfl := eq_of_mem_object hx hy
      exact hb
    simp [hothers]

theorem mem_of_mem_set_none (h : some x ∈ s.objects.set i none) : some x ∈ s.objects :=
  (List.mem_or_eq_of_mem_set h).resolve_right nofun

theorem Spoilt.destroy (h : s.Spoilt) (hx : s.objects[i]? = some (some x)) :
    Spoilt ({ s with objects := s.objects.set i none }.reset x cWrapperIf) := by
  have hspoilt : Spoilt { s with objects := s.objects.set i none } :=
    h.handed fun y hy => .inr (mem_of_mem_set_none hy)
  obtain ⟨-, heq⟩ | ⟨hflag, -, ⟨-, heq⟩ | ⟨b, hb, heq⟩⟩ :=
    reset_cases { s with objects := s.objects.set i none } x cWrapperIf
  · rw [heq]
    exact hspoilt
  · rw [heq]
    exact .inr (.inl (Nat.succ_ne_zero _))
  · rw [heq]
    obtain hunder | hnull | ⟨c, ⟨e, he, hrest⟩, hnobody⟩ := h
    · exact .inl (by simp [hunder])
    · exact .inr (.inl hnull)
    · have hne : b ≠ c := by
        rintro rfl
        exact hnobody x (List.mem_of_getElem? hx) hflag hb
      refine .inr (.inr ⟨c, ⟨e, ?_, hrest⟩, fun y hy => hnobody y (mem_of_mem_set_none hy)⟩)
      rw [List.getElem?_modify_ne _ _ hne, he]

end Destroy

theorem Tidy.next (h : s.Tidy) (hcareful : s.Careful op) (hs : s.next op = some s') : s'.Tidy := by
  obtain ⟨o, rfl, rfl⟩ | ⟨objects, rfl, hhanded, -⟩ | ⟨i, x, objects, hx, rfl, hhanded, hiff⟩ |
    ⟨i, x, cWrapperIf, rfl, hx, rfl⟩ := next_cases hs
  · exact h.construct hcareful
  · exact h.handed hhanded
  · exact (h.letGo hx (hiff.mp hcareful)).handed hhanded
  · exact h.destroy hx hcareful

theorem Tidy.spoilt_next (h : s.Tidy) (hcareless : ¬ s.Careful op) (hs : s.next op = some s') :
    s'.Spoilt := by
  obtain ⟨o, rfl, rfl⟩ | ⟨objects, -, -, hcareful⟩ | ⟨i, x, objects, hx, rfl, hhanded, hiff⟩ |
    ⟨i, x, cWrapperIf, rfl, hx, rfl⟩ := next_cases hs
  · exact h.spoilt_construct hcareless
  · exact absurd hcareful hcareless
  · obtain ⟨b, hb⟩ := stranded_letGo h hx (hiff.not.mp hcareless)
    exact .inr (.inr ⟨b, hb.handed hhanded.live⟩)
  · exact h.spoilt_destroy hx hcareless

theorem Spoilt.next (h : s.Spoilt) (hs : s.next op = some s') : s'.Spoilt := by
  obtain ⟨o, rfl, rfl⟩ | ⟨objects, rfl, hhanded, -⟩ | ⟨i, x, objects, hx, rfl, hhanded, -⟩ |
    ⟨i, x, cWrapperIf, rfl, hx, rfl⟩ := next_cases hs
  · exact h.construct
  · exact h.handed hhanded.live
  · exact h.handed fun y hy => (hhanded.live y hy).imp_right mem_of_mem_set_none
  · exact h.destroy hx

theorem tidy_new : Tidy new := ⟨nofun, nofun, rfl, rfl⟩

theorem balanced_iff_not_spoilt (h : s.Tidy ∨ s.Spoilt) (hgone : ∀ x ∈ s.objects, x = none) :
    s.Balanced ↔ ¬ s.Spoilt := by
  constructor
  · rintro hbalanced (hunder | hnull | ⟨b, ⟨e, he, hinit, hdestroyed⟩, -⟩)
    · exact Bool.false_ne_true (hbalanced.not_under_others.symm.trans hunder)
    · exact hnull hbalanced.no_null
    · have honce := (hbalanced.blocks e (List.mem_of_getElem? he)).destroyed_once _ hinit
      rw [hdestroyed] at honce
      cases honce
  · intro hgood
    have htidy := h.resolve_right hgood
    refine ⟨fun e he => ?_, htidy.not_under_others, htidy.no_null⟩
    obtain ⟨b, hb⟩ := List.mem_iff_getElem?.mp he
    refine (htidy.blocks b e hb).resolve_left ?_
    rintro ⟨-, x, hx, hheld⟩
    rw [hgone x hx] at hheld
    cases hheld

end Store

/-- Every sequence of operations with no object left is balanced exactly where each of them was
careful. -/
theorem balanced_iff {ops : List Op} {s : Store} (h : after Store.next ops Store.new = some s)
    (hgone : ∀ x ∈ s.objects, x = none) :
    s.Balanced ↔ Each Store.next Store.Careful ops Store.new := by
  have keeps (s : Store) (op : Op) (s' : Store) (hs : s.Tidy ∨ s.Spoilt)
      (hnext : s.next op = some s') : s'.Tidy ∨ s'.Spoilt := by
    by_cases hcareful : s.Careful op
    · exact hs.imp (·.next hcareful hnext) (·.next hnext)
    · exact .inr (hs.elim (·.spoilt_next hcareful hnext) (·.next hnext))
  have htidy : Store.new.Tidy ∨ Store.new.Spoilt := .inl Store.tidy_new
  rw [Store.balanced_iff_not_spoilt (after_keeps keeps htidy h) hgone]
  refine (each_iff_of_after keeps (fun _ _ _ _ hbad hnext => hbad.next hnext) ?_ htidy
    Store.tidy_new.not_spoilt h).symm
  intro s op s' hs hgood hnext
  have hs := hs.resolve_right hgood
  exact ⟨fun hcareful => (hs.next hcareful hnext).not_spoilt,
    fun hgood' => by_contra fun hcareless => hgood' (hs.spoilt_next hcareless hnext)⟩

def Outcomes.ok : Outcomes := ⟨true, 0, 0, 0, 1, 0, 0, 5, 8⟩

/-- A copy and its original both release the shared block, with the eventfd closed once. -/
theorem not_balanced_copied : ∃ s,
    after Store.next [.construct .ok, .copyConstruct 0, .destroy 0 true, .destroy 1 true] .new =
        some s ∧
      (∀ x ∈ s.objects, x = none) ∧ (∃ e ∈ s.blocks, e.destroyed.count .mtx = 2 ∧ e.closed = [5]) ∧
      s.destroyedUnderOthers = true ∧ ¬ s.Balanced := by
  refine ⟨_, rfl, by decide, ⟨_, List.mem_cons_self, by decide, by decide⟩, by decide, fun hb => ?_⟩
  exact absurd hb.not_under_others (by decide)

theorem balanced_single : ∃ s,
    after Store.next [.construct .ok, .destroy 0 true] .new = some s ∧
      (∀ x ∈ s.objects, x = none) ∧ s.Balanced := by
  have hcompletes : Outcomes.ok.Completes := by
    refine ⟨rfl, rfl, rfl, rfl, rfl, rfl, ?_, fun _ => ?_⟩ <;> decide
  have hrun : after Store.next [.construct .ok, .destroy 0 true] .new =
      some ⟨[SyncObjectElements.release ⟨5, 1, [.condAttrs, .mtxAttrs, .cond, .mtx], [], [5], []⟩],
        [none], false, 0⟩ := rfl
  refine ⟨_, hrun, by decide, (balanced_iff hrun (by decide)).mpr ⟨.inr hcompletes, ?_⟩⟩
  rintro _ ⟨⟩
  refine ⟨?_, fun _ _ => trivial⟩
  rintro _ ⟨⟩ -
  exact ⟨0, rfl, by decide⟩

end ItcPlatform.SyncObjects
