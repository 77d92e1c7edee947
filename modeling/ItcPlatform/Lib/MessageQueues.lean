import Mathlib.Data.List.Nodup

/-! Message queues named by ids and found by keys. A queue is created under a key and lives
until it is removed; its id is given to no other queue, so an id that a process keeps means
the same key for ever. -/

namespace MessageQueues
variable {Id K M : Type*}

structure Queue (Id K M : Type*) where
  msqid : Id
  key : K
  messages : List M

/-- The queues there are, and every id given out so far with the key of its queue. -/
structure Kernel (Id K M : Type*) where
  queues : List (Queue Id K M)
  issued : List (Id × K)

namespace Kernel

def empty : Kernel Id K M := ⟨[], []⟩

def find? [DecidableEq K] (k : Kernel Id K M) (key : K) : Option Id :=
  (k.queues.find? fun q => q.key = key).map Queue.msqid

/-- Every queue stands under the one key its id was issued with, and every queued message
belongs to that key. -/
structure Sorted (Belongs : K → M → Prop) (k : Kernel Id K M) : Prop where
  issued : ∀ q ∈ k.queues, (q.msqid, q.key) ∈ k.issued
  unique : ∀ {msqid : Id} {key key' : K}, (msqid, key) ∈ k.issued → (msqid, key') ∈ k.issued →
    key = key'
  belongs : ∀ q ∈ k.queues, ∀ m ∈ q.messages, Belongs q.key m

variable {Belongs : K → M → Prop} {k k' : Kernel Id K M} {key : K} {msqid : Id}

theorem sorted_empty : (empty : Kernel Id K M).Sorted Belongs :=
  ⟨nofun, fun h => (List.not_mem_nil h).elim, nofun⟩

theorem Sorted.belongs_of_issued (h : k.Sorted Belongs) {q : Queue Id K M} (hq : q ∈ k.queues)
    (hissued : (q.msqid, key) ∈ k.issued) {m : M} (hm : m ∈ q.messages) : Belongs key m := by
  rw [h.unique hissued (h.issued q hq)]
  exact h.belongs q hq m hm

theorem Sorted.find?_issued [DecidableEq K] (h : k.Sorted Belongs)
    (hfind : k.find? key = some msqid) : (msqid, key) ∈ k.issued := by
  obtain ⟨q, hq, rfl⟩ := Option.map_eq_some_iff.mp hfind
  obtain rfl : q.key = key := by simpa using List.find?_some hq
  exact h.issued q (List.mem_of_find?_eq_some hq)

variable [DecidableEq Id]

def get? (k : Kernel Id K M) (msqid : Id) : Option (Queue Id K M) :=
  k.queues.find? fun q => q.msqid = msqid

/-- A new queue; `none` where the id was given out before. -/
def create (k : Kernel Id K M) (key : K) (msqid : Id) : Option (Kernel Id K M) :=
  if ∀ p ∈ k.issued, p.1 ≠ msqid then
    some ⟨⟨msqid, key, []⟩ :: k.queues, (msqid, key) :: k.issued⟩
  else none

def modify (k : Kernel Id K M) (msqid : Id) (f : List M → List M) : Kernel Id K M :=
  { k with
    queues := k.queues.map fun q =>
      if q.msqid = msqid then { q with messages := f q.messages } else q }

def remove (k : Kernel Id K M) (msqid : Id) : Kernel Id K M :=
  { k with
    queues := k.queues.filter fun q => q.msqid ≠ msqid }

theorem get?_eq_some {q : Queue Id K M} (h : k.get? msqid = some q) :
    q ∈ k.queues ∧ q.msqid = msqid :=
  ⟨List.mem_of_find?_eq_some h, by simpa using List.find?_some h⟩

theorem create_eq_some : k.create key msqid = some k' ↔ (∀ p ∈ k.issued, p.1 ≠ msqid) ∧
    k' = ⟨⟨msqid, key, []⟩ :: k.queues, (msqid, key) :: k.issued⟩ := by
  rw [create, Option.ite_none_right_eq_some, Option.some.injEq, eq_comm (b := k')]

theorem Sorted.create (h : k.Sorted Belongs) (hnew : k.create key msqid = some k') :
    k'.Sorted Belongs := by
  obtain ⟨hfresh, rfl⟩ := create_eq_some.mp hnew
  refine ⟨fun q hq => ?_, fun {id key₁ key₂} h₁ h₂ => ?_, fun q hq => ?_⟩
  · rcases List.mem_cons.mp hq with rfl | hq
    · exact List.mem_cons_self
    · exact List.mem_cons_of_mem _ (h.issued q hq)
  · rcases List.mem_cons.mp h₁ with h₁ | h₁ <;> rcases List.mem_cons.mp h₂ with h₂ | h₂
    · exact (Prod.ext_iff.mp h₁).2.trans (Prod.ext_iff.mp h₂).2.symm
    · exact absurd (Prod.ext_iff.mp h₁).1 (hfresh (id, key₂) h₂)
    · exact absurd (Prod.ext_iff.mp h₂).1 (hfresh (id, key₁) h₁)
    · exact h.unique h₁ h₂
  · rcases List.mem_cons.mp hq with rfl | hq
    · exact nofun
    · exact h.belongs q hq

theorem Sorted.modify (h : k.Sorted Belongs) {f : List M → List M}
    (hf : ∀ key messages, (msqid, key) ∈ k.issued → (∀ m ∈ messages, Belongs key m) →
      ∀ m ∈ f messages, Belongs key m) : (k.modify msqid f).Sorted Belongs := by
  refine ⟨List.forall_mem_map.mpr fun q hq => ?_, h.unique,
    List.forall_mem_map.mpr fun q hq => ?_⟩
  · have hissued := h.issued q hq
    split_ifs <;> exact hissued
  · split_ifs with hid
    · subst hid
      exact hf q.key q.messages (h.issued q hq) (h.belongs q hq)
    · exact h.belongs q hq

theorem Sorted.remove (h : k.Sorted Belongs) : (k.remove msqid).Sorted Belongs :=
  ⟨fun q hq => h.issued q (List.mem_filter.mp hq).1, h.unique,
    fun q hq => h.belongs q (List.mem_filter.mp hq).1⟩

/-! ### What waits under a key -/

structure Unique (k : Kernel Id K M) : Prop where
  msqids : (k.queues.map Queue.msqid).Nodup
  keys : (k.queues.map Queue.key).Nodup

def pending [DecidableEq K] (k : Kernel Id K M) (key : K) : List M :=
  (k.queues.find? fun q => q.key = key).elim [] Queue.messages

omit [DecidableEq Id] in
theorem unique_empty : (empty : Kernel Id K M).Unique := ⟨List.nodup_nil, List.nodup_nil⟩

section Unique
variable {q q' : Queue Id K M} {f : List M → List M}

theorem map_modify {α : Type*} (g : Queue Id K M → α)
    (hg : ∀ q messages, g { q with messages } = g q) :
    (k.modify msqid f).queues.map g = k.queues.map g := by
  simp only [modify, List.map_map]
  refine List.map_congr_left fun q _ => ?_
  simp only [Function.comp_apply]
  split_ifs
  · exact hg q _
  · rfl

theorem Unique.modify (h : k.Unique) : (k.modify msqid f).Unique := by
  refine ⟨?_, ?_⟩
  · rw [map_modify Queue.msqid fun _ _ => rfl]
    exact h.msqids
  · rw [map_modify Queue.key fun _ _ => rfl]
    exact h.keys

theorem Unique.remove (h : k.Unique) : (k.remove msqid).Unique :=
  ⟨h.msqids.sublist (List.filter_sublist.map _), h.keys.sublist (List.filter_sublist.map _)⟩

theorem Unique.create [DecidableEq K] (h : k.Unique) (hissued : ∀ q ∈ k.queues,
    (q.msqid, q.key) ∈ k.issued) (hnone : k.find? key = none)
    (hnew : k.create key msqid = some k') : k'.Unique := by
  obtain ⟨hfresh, rfl⟩ := create_eq_some.mp hnew
  refine ⟨List.nodup_cons.mpr ⟨fun hmem => ?_, h.msqids⟩,
    List.nodup_cons.mpr ⟨fun hmem => ?_, h.keys⟩⟩
  · obtain ⟨q, hq, hid⟩ := List.mem_map.mp hmem
    exact hfresh _ (hissued q hq) hid
  · obtain ⟨q, hq, hkey⟩ := List.mem_map.mp hmem
    have hno := List.find?_eq_none.mp (Option.map_eq_none_iff.mp hnone) q hq
    exact hno (by simpa using hkey)

variable [DecidableEq K]

omit [DecidableEq Id] in
theorem pending_eq_nil (hno : ∀ q ∈ k.queues, q.key ≠ key) : k.pending key = [] := by
  have hfind : (k.queues.find? fun q => q.key = key) = none :=
    List.find?_eq_none.mpr fun q hq => by simpa using hno q hq
  rw [pending, hfind]
  rfl

variable (h : k.Unique)
include h

omit [DecidableEq Id] in
theorem Unique.pending_of_mem (hq : q ∈ k.queues) : k.pending q.key = q.messages := by
  obtain ⟨q', hfind⟩ : ∃ q', (k.queues.find? fun q' => q'.key = q.key) = some q' :=
    Option.isSome_iff_exists.mp (List.find?_isSome.mpr ⟨q, hq, by simp⟩)
  have hkey : q'.key = q.key := by simpa using List.find?_some hfind
  obtain rfl := List.inj_on_of_nodup_map h.keys (List.mem_of_find?_eq_some hfind) hq hkey
  rw [pending, hfind]
  rfl

omit [DecidableEq Id] in
theorem Unique.pending_of_kept {k' : Kernel Id K M} (h' : k'.Unique)
    (hkept : ∀ q, q.key = key → (q ∈ k'.queues ↔ q ∈ k.queues)) :
    k'.pending key = k.pending key := by
  by_cases hq : ∃ q ∈ k.queues, q.key = key
  · obtain ⟨q, hq, rfl⟩ := hq
    rw [h.pending_of_mem hq, h'.pending_of_mem ((hkept q rfl).mpr hq)]
  · push Not at hq
    rw [pending_eq_nil hq, pending_eq_nil fun q hq' hkey => hq q ((hkept q hkey).mp hq') hkey]

theorem Unique.pending_modify (hq : q ∈ k.queues) (f : List M → List M) (key : K) :
    (k.modify q.msqid f).pending key = if q.key = key then f q.messages else k.pending key := by
  split_ifs with hkey
  · subst hkey
    have hmem : { q with messages := f q.messages } ∈ (k.modify q.msqid f).queues :=
      List.mem_map.mpr ⟨q, hq, if_pos rfl⟩
    exact h.modify.pending_of_mem hmem
  · refine h.pending_of_kept h.modify fun q' hq' => ?_
    subst hq'
    constructor
    · intro hmem
      obtain ⟨q₀, hq₀, rfl⟩ := List.mem_map.mp hmem
      split_ifs at hkey ⊢ with hid
      · obtain rfl := List.inj_on_of_nodup_map h.msqids hq₀ hq hid
        exact absurd rfl hkey
      · exact hq₀
    · intro hmem
      refine List.mem_map.mpr ⟨q', hmem, if_neg fun hid => hkey ?_⟩
      rw [List.inj_on_of_nodup_map h.msqids hmem hq hid]

theorem Unique.pending_remove (hq : q ∈ k.queues) (key : K) :
    (k.remove q.msqid).pending key = if q.key = key then [] else k.pending key := by
  split_ifs with hkey
  · subst hkey
    refine pending_eq_nil fun q' hq' heq => ?_
    obtain ⟨hmem, hid⟩ := List.mem_filter.mp hq'
    rw [List.inj_on_of_nodup_map h.keys hmem hq heq] at hid
    simp at hid
  · refine h.pending_of_kept h.remove fun q' hq' => ?_
    subst hq'
    refine ⟨fun hmem => (List.mem_filter.mp hmem).1, fun hmem => List.mem_filter.mpr ⟨hmem, ?_⟩⟩
    have hid : q'.msqid ≠ q.msqid := fun hid =>
      hkey (congrArg Queue.key (List.inj_on_of_nodup_map h.msqids hmem hq hid)).symm
    simpa using hid

theorem Unique.pending_remove_or (msqid : Id) (key : K) :
    (k.remove msqid).pending key = k.pending key ∨ (k.remove msqid).pending key = [] := by
  by_cases hq : ∃ q ∈ k.queues, q.msqid = msqid
  · obtain ⟨q, hq, rfl⟩ := hq
    rw [h.pending_remove hq]
    split_ifs
    · exact .inr rfl
    · exact .inl rfl
  · push Not at hq
    refine .inl (h.pending_of_kept h.remove fun q _ => ?_)
    exact ⟨fun hmem => (List.mem_filter.mp hmem).1,
      fun hmem => List.mem_filter.mpr ⟨hmem, by simpa using hq q hmem⟩⟩

theorem Unique.pending_create (h' : k'.Unique) (hnew : k.create key msqid = some k')
    (hnone : k.find? key = none) (key' : K) : k'.pending key' = k.pending key' := by
  obtain ⟨-, rfl⟩ := create_eq_some.mp hnew
  have hno (q) (hq : q ∈ k.queues) : q.key ≠ key := by
    simpa using List.find?_eq_none.mp (Option.map_eq_none_iff.mp hnone) q hq
  by_cases hkey : key = key'
  · subst hkey
    exact (h'.pending_of_mem List.mem_cons_self).trans (pending_eq_nil hno).symm
  · refine h.pending_of_kept h' fun q hq => ?_
    subst hq
    refine ⟨fun hmem => (List.mem_cons.mp hmem).resolve_left ?_, List.mem_cons_of_mem _⟩
    rintro rfl
    exact hkey rfl

end Unique

end Kernel

end MessageQueues
