import ItcPlatform.LockFreeQueue.Conservation

/-! The container of cache-line entries: the constructor that fills the queue of inactive
entries, and the threads that acquire and release them, one atomic access at a time. -/

namespace ItcPlatform.ConcurrentContainer
open Interleaving LockFreeQueue
variable {ι : Type*}

/-- The template argument `SIZE`, as large as the queue of inactive entries can be. -/
structure Capacity where
  size : ℕ
  size_pos : 1 ≤ size
  size_le : size ≤ 2 ^ 30

abbrev cacheLineBytes : BitVec 32 := 64

/-- An entry, as the distance of its address from `m_rawEntries`. -/
abbrev Entry := BitVec 32

abbrev RawPtr := Option Entry

/-- `GET_ALIGNED_ENTRY`: the product is one of `uint32_t`. -/
def getAlignedEntry (i : BitVec 32) : Entry := i * cacheLineBytes

variable (C : Capacity)

def inactiveEntriesParams : Params RawPtr :=
  { size := C.size, nil := none, minimizeContention := true, maximizeThroughput := true,
    sizeofElem := 8, size_pos := C.size_pos, size_lt := C.size_le.trans_lt (by decide),
    size_le := fun _ => C.size_le.trans (by decide) }

def constructed : ℕ → Traced (inactiveEntriesParams C)
  | 0 => .new _
  | i + 1 => ((constructed i).alone 4 (Call.start (.tryPush (some (getAlignedEntry i))))).1

/-- The length of `m_rawEntries`, a product of `uint32_t` as well. -/
def rawEntriesLength : BitVec 32 := BitVec.ofNat 32 C.size * cacheLineBytes

/-- The constructor, `none` where it writes an entry outside of `m_rawEntries`. -/
def construct : Option (Traced (inactiveEntriesParams C)) :=
  if ∀ i < C.size, getAlignedEntry (BitVec.ofNat 32 i) < rawEntriesLength C then
    some (constructed C C.size)
  else none

structure Container where
  mInactiveEntries : Traced (inactiveEntriesParams C)
  acquires : ℕ
  releases : ℕ

def size (q : Queue (inactiveEntriesParams C)) : BitVec 32 :=
  BitVec.ofNat 32 C.size - sizeOf q.mHead q.mTail

structure Holder where
  held : List Entry
  call : Option (Pc RawPtr)

inductive Action
  | acquire
  | release (entry : Entry)
  | access (choice : Bool)

/-- Threads that acquire entries with `tryPopFromQueue` and release what they hold with
`tryPushIntoQueue`. -/
def container : Program ι Action (Container C) Holder := fun _ a c h =>
  match a, h.call with
  | .acquire, none =>
    some ({ c with acquires := c.acquires + 1 }, { h with call := some (Call.start .pop) })
  | .release entry, none =>
    if entry ∈ h.held then
      some ({ c with releases := c.releases + 1 },
        ⟨h.held.erase entry, some (Call.start (.tryPush (some entry)))⟩)
    else none
  | .access _, some (.returned (.popped (some entry))) => some (c, ⟨entry :: h.held, none⟩)
  | .access _, some (.returned _) => some (c, { h with call := none })
  | .access choice, some pc =>
    (step (inactiveEntriesParams C) choice c.mInactiveEntries.queue pc).map fun r =>
      ({ c with mInactiveEntries := c.mInactiveEntries.record r.1 r.2.2 },
        { h with call := some r.2.1 })
  | _, _ => none

inductive Move (c : Container C) (h : Holder) : Container C → Holder → Prop
  | acquire (hcall : h.call = none) :
      Move c h { c with acquires := c.acquires + 1 } { h with call := some .popFetchAdd }
  | release {entry : Entry} (hcall : h.call = none) (hheld : entry ∈ h.held) :
      Move c h { c with releases := c.releases + 1 }
        ⟨h.held.erase entry, some (.tryPushLoadHead (some entry))⟩
  | acquired {entry : Entry} (hcall : h.call = some (.returned (.popped (some entry)))) :
      Move c h c ⟨entry :: h.held, none⟩
  | finished {ret : Ret RawPtr} (hcall : h.call = some (.returned ret))
      (hret : ∀ entry, ret ≠ .popped (some entry)) : Move c h c { h with call := none }
  | accessed {choice : Bool} {pc pc' : Pc RawPtr} {q : Queue (inactiveEntriesParams C)}
      {ev : Event RawPtr} (hcall : h.call = some pc)
      (hstep : step _ choice c.mInactiveEntries.queue pc = some (q, pc', ev)) :
      Move c h { c with mInactiveEntries := c.mInactiveEntries.record q ev }
        { h with call := some pc' }

variable {C}

def newContainer (mInactiveEntries : Traced (inactiveEntriesParams C)) :
    State ι (Container C) Holder :=
  ⟨⟨mInactiveEntries, 0, 0⟩, fun _ => ⟨[], none⟩⟩

theorem container_move {i : ι} {a : Action} {c c' : Container C} {h h' : Holder}
    (hP : container C i a c h = some (c', h')) : Move C c h c' h' := by
  unfold container at hP
  split at hP
  · rename_i hcall
    obtain ⟨rfl, rfl⟩ := by simpa using hP
    exact .acquire hcall
  · rename_i hcall
    split_ifs at hP with hheld
    obtain ⟨rfl, rfl⟩ := by simpa using hP
    exact .release hcall hheld
  · rename_i hcall
    obtain ⟨rfl, rfl⟩ := by simpa using hP
    exact .acquired hcall
  · rename_i ret hne hcall
    obtain ⟨rfl, rfl⟩ := by simpa using hP
    exact .finished hcall fun entry he => hne entry (he ▸ rfl)
  · rename_i hcall
    obtain ⟨⟨q, pc', ev⟩, hstep, heq⟩ := Option.map_eq_some_iff.mp hP
    obtain ⟨rfl, rfl⟩ := by simpa using heq
    exact .accessed hcall hstep
  · cases hP

end ItcPlatform.ConcurrentContainer
