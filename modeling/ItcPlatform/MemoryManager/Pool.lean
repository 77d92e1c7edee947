import Mathlib.Data.List.Count
import ItcPlatform.LockFreeQueue.Sequential

/-! The memory pool on one region: queues of free slots at its start, then the slots of the three
size classes. -/

namespace ItcPlatform.MemoryManager
open LockFreeQueue

inductive SizeClass
  | pool64
  | pool256
  | pool512
  deriving DecidableEq

def roundUpTo64Bytes (x : ℕ) : ℕ := (x + 63) / 64 * 64

namespace SizeClass

def slotSize : SizeClass → ℕ
  | pool64 => 64
  | pool256 => 256
  | pool512 => 512

def slots : SizeClass → ℕ
  | pool64 => 51
  | pool256 | pool512 => 16

def metadataSize : SizeClass → ℕ
  | pool64 => roundUpTo64Bytes (4 * pool64.slots + 128)
  | pool256 => 4 * pool256.slots + 128
  | pool512 => 4 * pool512.slots + 128

def totalSize (c : SizeClass) : ℕ := c.slots * c.slotSize

end SizeClass

def memoryPoolUnlimitedMetadataSize : ℕ := roundUpTo64Bytes 4

def memoryPoolMetadataSize : ℕ :=
  SizeClass.pool64.metadataSize + SizeClass.pool256.metadataSize + SizeClass.pool512.metadataSize +
    memoryPoolUnlimitedMetadataSize

def memoryPoolTotalSize : ℕ :=
  memoryPoolMetadataSize + SizeClass.pool64.totalSize + SizeClass.pool256.totalSize +
    SizeClass.pool512.totalSize

def SizeClass.startOffset : SizeClass → ℕ
  | pool64 => memoryPoolMetadataSize
  | pool256 => memoryPoolMetadataSize + pool64.totalSize
  | pool512 => memoryPoolMetadataSize + pool64.totalSize + pool256.totalSize

def SizeClass.queueParams (c : SizeClass) : Params (BitVec 32) where
  size := c.slots
  nil := -1
  minimizeContention := true
  maximizeThroughput := true
  sizeofElem := 4
  size_pos := by cases c <;> decide
  size_lt := by cases c <;> decide
  size_le := by cases c <;> decide

/-- Two counters on cache lines of their own, then the array. -/
def SizeClass.sizeofQueue (c : SizeClass) : ℕ := 128 + 4 * c.queueParams.mSize

structure MemoryPool where
  mBaseAddr : ℕ
  mPool : SizeClass → ℕ
  queue : (c : SizeClass) → Traced c.queueParams

section Queues
variable {P : Params (BitVec 32)}

def push (t : Traced P) (element : BitVec 32) : Traced P :=
  (t.alone 4 (Call.start (.push element))).1

/-- `none` where `pop` would wait for an element. -/
def pop (t : Traced P) : Option (Traced P × BitVec 32) :=
  match t.alone 4 (Call.start .pop) with
  | (t, .returned (.popped element)) => some (t, element)
  | _ => none

end Queues

namespace MemoryPool

def initialSlots (c : SizeClass) : List (BitVec 32) :=
  (List.range c.slots).map fun i => BitVec.ofNat 32 (c.startOffset + i * c.slotSize)

/-- The second and the third queue lie whole queues behind the one before: `m_pool64` and
`m_pool256` are pointers to queues, and so many of them are added. -/
def placedAt (baseAddr : ℕ) (c : SizeClass) : ℕ :=
  let mPool64 := baseAddr
  let mPool256 := mPool64 + SizeClass.pool64.metadataSize * SizeClass.pool64.sizeofQueue
  let mPool512 := mPool256 + SizeClass.pool256.metadataSize * SizeClass.pool256.sizeofQueue
  match c with
  | .pool64 => mPool64
  | .pool256 => mPool256
  | .pool512 => mPool512

/-- `none` where the region is too small for the queues to be built. -/
def new (baseAddr size : ℕ) : Option MemoryPool :=
  if size < memoryPoolTotalSize then none
  else some ⟨baseAddr, placedAt baseAddr, fun c => (initialSlots c).foldl push (.new _)⟩

def take (m : MemoryPool) (c : SizeClass) : Option (MemoryPool × ℕ) := do
  let (t, index) ← pop (m.queue c)
  some ({ m with queue := Function.update m.queue c t },
    m.mBaseAddr + c.startOffset + (index * BitVec.ofNat 32 c.slotSize).toNat)

def allocate (m : MemoryPool) (size : ℕ) : Option (MemoryPool × ℕ) :=
  if size ≤ SizeClass.pool64.slotSize then m.take .pool64
  else if size ≤ SizeClass.pool256.slotSize then m.take .pool256
  else if size ≤ SizeClass.pool512.slotSize then m.take .pool512
  else some (m, 0)

structure Block where
  sizeClass : SizeClass
  address : ℕ

def classOf (size : ℕ) : SizeClass :=
  if size ≤ SizeClass.pool64.slotSize then .pool64
  else if size ≤ SizeClass.pool256.slotSize then .pool256
  else .pool512

def allocateAll (m : MemoryPool) : List ℕ → Option (MemoryPool × List Block)
  | [] => some (m, [])
  | size :: sizes => do
    let (m, address) ← m.allocate size
    let (m, blocks) ← m.allocateAll sizes
    some (m, ⟨classOf size, address⟩ :: blocks)

/-- The slots of the region, each handed out at most once. -/
structure Slots (baseAddr : ℕ) (blocks : List Block) : Prop where
  inside : ∀ b ∈ blocks, baseAddr + b.sizeClass.startOffset ≤ b.address ∧
    b.address + b.sizeClass.slotSize ≤
      baseAddr + b.sizeClass.startOffset + b.sizeClass.totalSize
  boundary : ∀ b ∈ blocks, b.sizeClass.slotSize ∣ b.address - (baseAddr + b.sizeClass.startOffset)
  apart : blocks.Pairwise fun b b' => b.address + b.sizeClass.slotSize ≤ b'.address ∨
    b'.address + b'.sizeClass.slotSize ≤ b.address
  metadata : ∀ b ∈ blocks, baseAddr + memoryPoolMetadataSize ≤ b.address

end MemoryPool

section Queues
variable {P : Params (BitVec 32)} {t : Traced P} {element : BitVec 32} {l : List (BitVec 32)}

theorem push_holds (h : t.queue.Holds l) (hmin : P.minimizeContention = true)
    (hroom : l.length < P.mSize) (he : element ≠ P.nil) :
    (push t element).queue.Holds (l ++ [element]) := by
  rw [push, alone_push (h.free hmin hroom)]
  exact h.push hmin hroom he

theorem foldl_push_holds (h : t.queue.Holds l) (hmin : P.minimizeContention = true)
    {elements : List (BitVec 32)} (hroom : l.length + elements.length ≤ P.mSize)
    (he : ∀ element ∈ elements, element ≠ P.nil) :
    (elements.foldl push t).queue.Holds (l ++ elements) := by
  induction elements generalizing t l with
  | nil => simpa using h
  | cons element elements ih =>
    rw [List.length_cons] at hroom
    have hpush := push_holds h hmin (by omega) (he element List.mem_cons_self)
    have := ih hpush (by rw [List.length_append, List.length_singleton]; omega)
      fun e hmem => he e (List.mem_cons_of_mem _ hmem)
    rwa [List.append_assoc] at this

theorem pop_of_holds (h : t.queue.Holds (element :: l)) :
    ∃ t', pop t = some (t', element) ∧ t'.queue.Holds l := by
  rw [pop, alone_pop h]
  exact ⟨_, rfl, h.pop⟩

end Queues

namespace MemoryPool

/-- What is pushed are byte offsets of slots, and no numbers of slots. -/
theorem initialSlots_spec {c : SizeClass} {index : BitVec 32} (h : index ∈ initialSlots c) :
    c.slots ≤ index.toNat ∧ index.toNat * c.slotSize < 2 ^ 32 := by
  obtain ⟨i, hi, rfl⟩ := List.mem_map.mp h
  rw [List.mem_range] at hi
  rw [BitVec.toNat_ofNat]
  cases c <;> simp only [SizeClass.slots, SizeClass.slotSize, SizeClass.startOffset,
    SizeClass.totalSize, memoryPoolMetadataSize, memoryPoolUnlimitedMetadataSize,
    SizeClass.metadataSize, roundUpTo64Bytes] at hi ⊢ <;> omega

theorem totalSize_le_scaled {c : SizeClass} {index : BitVec 32} (h : index ∈ initialSlots c) :
    c.totalSize ≤ (index * BitVec.ofNat 32 c.slotSize).toNat := by
  obtain ⟨hle, hlt⟩ := initialSlots_spec h
  have hsize : c.slotSize < 2 ^ 32 := by cases c <;> decide
  rw [BitVec.toNat_mul, BitVec.toNat_ofNat, Nat.mod_eq_of_lt hsize, Nat.mod_eq_of_lt hlt]
  exact Nat.mul_le_mul_right _ hle

theorem new_holds {baseAddr size : ℕ} {m : MemoryPool} (h : new baseAddr size = some m) :
    m.mBaseAddr = baseAddr ∧ ∀ c, (m.queue c).queue.Holds (initialSlots c) := by
  rw [new] at h
  split_ifs at h
  cases h
  refine ⟨rfl, fun c => ?_⟩
  have hempty : (Queue.new c.queueParams).Holds [] :=
    Queue.Holds.of_free (by cases c <;> decide) rfl fun _ => rfl
  have hroom : ([] : List (BitVec 32)).length + (initialSlots c).length ≤ c.queueParams.mSize := by
    have hle : c.slots ≤ c.queueParams.mSize := c.queueParams.le_mSize
    simpa [initialSlots] using hle
  refine foldl_push_holds (t := .new _) hempty rfl hroom fun index hmem hnil => ?_
  have hspec := initialSlots_spec hmem
  rw [hnil] at hspec
  exact absurd hspec.2 (by cases c <;> decide)

theorem take_of_holds {m : MemoryPool} {c : SizeClass} {index : BitVec 32} {l : List (BitVec 32)}
    (h : (m.queue c).queue.Holds (index :: l)) : ∃ t, t.queue.Holds l ∧
      m.take c = some ({ m with queue := Function.update m.queue c t },
        m.mBaseAddr + c.startOffset + (index * BitVec.ofNat 32 c.slotSize).toNat) := by
  obtain ⟨t, hpop, ht⟩ := pop_of_holds h
  exact ⟨t, ht, by rw [take, hpop]; rfl⟩

theorem allocate_eq_take (m : MemoryPool) {size : ℕ} (h : size ≤ 512) :
    m.allocate size = m.take (classOf size) := by
  rw [allocate, classOf, if_pos (show size ≤ SizeClass.pool512.slotSize from h)]
  split_ifs <;> rfl

def Stocked (m : MemoryPool) (left : SizeClass → List (BitVec 32)) : Prop :=
  ∀ c, (m.queue c).queue.Holds (left c)

theorem allocateAll_spec {sizes : List ℕ} {m : MemoryPool} {left : SizeClass → List (BitVec 32)}
    (hleft : m.Stocked left) (hoffsets : ∀ c, ∀ index ∈ left c, index ∈ initialSlots c)
    (hsizes : ∀ size ∈ sizes, size ≤ 512)
    (hroom : ∀ c, sizes.countP (classOf · = c) ≤ (left c).length) :
    ∃ m' blocks, m.allocateAll sizes = some (m', blocks) ∧ blocks.length = sizes.length ∧
      ∀ b ∈ blocks, m.mBaseAddr + b.sizeClass.startOffset + b.sizeClass.totalSize ≤ b.address := by
  induction sizes generalizing m left with
  | nil => exact ⟨m, [], rfl, rfl, by simp⟩
  | cons size sizes ih =>
    set c := classOf size with hc
    have hcount : ∀ c', (size :: sizes).countP (classOf · = c') =
        sizes.countP (classOf · = c') + if c = c' then 1 else 0 := fun c' => by
      rw [List.countP_cons, hc]
      simp
    cases hlist : left c with
    | nil =>
      have := hroom c
      rw [hcount, hlist, if_pos rfl] at this
      cases this
    | cons index l =>
      obtain ⟨t, ht, htake⟩ := take_of_holds (hlist ▸ hleft c)
      have hstocked : Stocked { m with queue := Function.update m.queue c t }
          (Function.update left c l) := by
        intro c'
        by_cases hc' : c' = c
        · subst hc'
          simpa using ht
        · simpa [hc'] using hleft c'
      have hoffsets' : ∀ c', ∀ index ∈ Function.update left c l c', index ∈ initialSlots c' := by
        intro c' index' hmem
        by_cases hc' : c' = c
        · subst hc'
          rw [Function.update_self] at hmem
          exact hoffsets _ _ (hlist ▸ List.mem_cons_of_mem _ hmem)
        · rw [Function.update_of_ne hc'] at hmem
          exact hoffsets _ _ hmem
      have hroom' : ∀ c', sizes.countP (classOf · = c') ≤ (Function.update left c l c').length := by
        intro c'
        have hle := hroom c'
        rw [hcount] at hle
        by_cases hc' : c' = c
        · subst hc'
          rw [hlist, if_pos rfl, List.length_cons] at hle
          rw [Function.update_self]
          omega
        · rw [Function.update_of_ne hc']
          omega
      obtain ⟨m', blocks, hrest, hlen, hblocks⟩ := ih hstocked hoffsets'
        (fun size hmem => hsizes size (List.mem_cons_of_mem _ hmem)) hroom'
      refine ⟨m', ⟨c, m.mBaseAddr + c.startOffset + (index * BitVec.ofNat 32 c.slotSize).toNat⟩ ::
        blocks, ?_, congrArg Nat.succ hlen, fun b hb => ?_⟩
      · rw [allocateAll, allocate_eq_take m (hsizes size List.mem_cons_self), ← hc, htake]
        simp only [Option.bind_eq_bind, Option.bind_some, hrest]
      · rcases List.mem_cons.mp hb with rfl | hb
        · exact Nat.add_le_add_left
            (totalSize_le_scaled (hoffsets c index (hlist ▸ List.mem_cons_self))) _
        · exact hblocks b hb

/-- A pool hands out slots of its region only as long as it hands out nothing. -/
theorem slots_iff {baseAddr size : ℕ} (hregion : memoryPoolTotalSize ≤ size) {sizes : List ℕ}
    (hsizes : ∀ n ∈ sizes, 1 ≤ n ∧ n ≤ 512)
    (hroom : ∀ c, sizes.countP (classOf · = c) ≤ c.slots) :
    ∃ m m' blocks, new baseAddr size = some m ∧ m.allocateAll sizes = some (m', blocks) ∧
      blocks.length = sizes.length ∧ (Slots baseAddr blocks ↔ sizes = []) := by
  have hnew : new baseAddr size = some ⟨baseAddr, placedAt baseAddr, fun c =>
      (initialSlots c).foldl push (.new _)⟩ := if_neg (Nat.not_lt.mpr hregion)
  obtain ⟨hbase, hholds⟩ := new_holds hnew
  obtain ⟨m', blocks, hall, hlen, hbehind⟩ := allocateAll_spec hholds (fun _ _ hmem => hmem)
    (fun n hmem => (hsizes n hmem).2) fun c => by simpa [initialSlots] using hroom c
  refine ⟨_, m', blocks, hnew, hall, hlen, ?_⟩
  cases sizes with
  | nil =>
    obtain rfl : blocks = [] := List.eq_nil_of_length_eq_zero hlen
    exact iff_of_true ⟨by simp, by simp, .nil, by simp⟩ rfl
  | cons size sizes =>
    refine iff_of_false (fun h => ?_) (List.cons_ne_nil _ _)
    cases blocks with
    | nil => cases hlen
    | cons b blocks =>
      have hin := (h.inside b List.mem_cons_self).2
      have hout := hbehind b List.mem_cons_self
      have hpos : 0 < b.sizeClass.slotSize := by cases b.sizeClass <;> decide
      omega

theorem slots_iff_one : ∃ m m' blocks, new 4096 16384 = some m ∧
    m.allocateAll [64] = some (m', blocks) ∧ blocks.length = [64].length ∧
      (Slots 4096 blocks ↔ [64] = []) :=
  slots_iff (by decide) (by decide) fun c => by cases c <;> decide

/-- The first block of a pool at address 4096 lies 54080 bytes behind it, 37696 behind the end of
the region. -/
theorem not_slots_one : ∃ m m' blocks, new 4096 16384 = some m ∧
    m.allocateAll [64] = some (m', blocks) ∧ blocks = [⟨.pool64, 4096 + 54080⟩] ∧
      ¬ Slots 4096 blocks := by
  obtain ⟨m, hnew⟩ : ∃ m, new 4096 16384 = some m := ⟨_, if_neg (by decide)⟩
  obtain ⟨hbase, hholds⟩ := new_holds hnew
  have hfirst : initialSlots .pool64 = 832 :: (initialSlots .pool64).tail := rfl
  obtain ⟨t, -, htake⟩ := take_of_holds (hfirst ▸ hholds .pool64)
  have haddress : m.mBaseAddr + SizeClass.pool64.startOffset +
      (832 * BitVec.ofNat 32 SizeClass.pool64.slotSize).toNat = 4096 + 54080 := by
    rw [hbase]
    decide
  rw [haddress] at htake
  have hall : m.allocateAll [64] =
      some ({ m with queue := Function.update m.queue .pool64 t }, [⟨.pool64, 4096 + 54080⟩]) := by
    rw [allocateAll, allocate_eq_take m (by decide), show classOf 64 = .pool64 from rfl, htake]
    rfl
  refine ⟨m, _, _, hnew, hall, rfl, fun h => ?_⟩
  exact absurd (h.inside _ List.mem_cons_self).2 (by decide)

end MemoryPool

end ItcPlatform.MemoryManager
