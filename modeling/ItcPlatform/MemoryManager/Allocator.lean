import ItcPlatform.Lib.Custody

/-! `MemoryAllocator`: what it acquires and releases in each of its modes. -/

namespace ItcPlatform.MemoryManager.MemoryAllocator

def memoryPoolPageSize : BitVec 32 := 4096

def roundUpToPageSizes (x : BitVec 32) : BitVec 32 :=
  (x + memoryPoolPageSize - 1) &&& ~~~(memoryPoolPageSize - 1)

/-- `failed` is what `mmap` and `shmat` return on an error. -/
inductive UInt8RawPtr
  | null
  | failed
  | region (address : ℕ)
  deriving DecidableEq

def UInt8RawPtr.ofCall : Option ℕ → UInt8RawPtr
  | none => .failed
  | some address => .region address

inductive Resource
  | block (address : ℕ)
  | mapping (address : ℕ) (size : BitVec 32)
  | attachment (address : ℕ)
  | descriptor (shmId : ℤ)
  | sharedObject (shmName : String)
  | segment (shmId : ℤ)
  deriving DecidableEq

def Resource.Private : Resource → Prop
  | .block _ | .mapping _ _ | .attachment _ | .descriptor _ => True
  | .sharedObject _ | .segment _ => False

instance : DecidablePred Resource.Private
  | .block _ | .mapping _ _ | .attachment _ | .descriptor _ => isTrue trivial
  | .sharedObject _ | .segment _ => isFalse id

@[simp] theorem UInt8RawPtr.ofCall_some (address : ℕ) :
    UInt8RawPtr.ofCall (some address) = .region address := rfl

@[simp] theorem UInt8RawPtr.ofCall_none : UInt8RawPtr.ofCall none = .failed := rfl

abbrev World := Custody Resource

section SystemCalls
variable (w : World)

def World.obtain (resource : ℕ → Resource) : Option ℕ → World
  | none => w
  | some address => w.acquire (resource address)

def World.munmap (size : BitVec 32) : UInt8RawPtr → World
  | .region address => w.release (.mapping address size)
  | _ => w

def World.shmdt : UInt8RawPtr → World
  | .region address => w.release (.attachment address)
  | _ => w

def World.closeAndUnlink (shmId : ℤ) (shmName : String) : World :=
  (w.release (.descriptor shmId)).release (.sharedObject shmName)

@[simp] theorem World.obtain_some (resource : ℕ → Resource) (address : ℕ) :
    w.obtain resource (some address) = w.acquire (resource address) := rfl

@[simp] theorem World.obtain_none (resource : ℕ → Resource) : w.obtain resource none = w := rfl

@[simp] theorem World.munmap_region (size : BitVec 32) (address : ℕ) :
    w.munmap size (.region address) = w.release (.mapping address size) := rfl

end SystemCalls

/-- What the system calls return to one call of the allocator: an address or a number, and for a
failed creation whether `errno` was `EEXIST`. -/
structure Outcomes where
  new : Option ℕ := none
  mmap : Option ℕ := none
  shmOpen : ℤ := -1
  shmOpenExists : Bool := false
  shmOpenAgain : ℤ := -1
  fchmod : ℤ := -1
  ftruncate : ℤ := -1
  ftok : ℤ := -1
  shmget : ℤ := -1
  shmgetExists : Bool := false
  shmgetAgain : ℤ := -1
  shmat : Option ℕ := none

structure Mode1Attributes where
  baseAddr : UInt8RawPtr := .null

structure Mode2Attributes where
  baseAddr : UInt8RawPtr := .null
  size : BitVec 32 := 0

structure Mode3Attributes where
  baseAddr : UInt8RawPtr := .null
  size : BitVec 32 := 0
  appendedBaseAddress : UInt8RawPtr := .null
  appendedSize : BitVec 32 := 0
  shmId : ℤ := -1
  isOwner : Bool := false
  shmName : String := ""

structure Mode4Attributes where
  baseAddr : UInt8RawPtr := .null
  size : BitVec 32 := 0
  shmId : ℤ := -1
  projId : ℤ := -1
  isOwner : Bool := false
  shmName : String := ""

inductive MemoryAllocatorParams
  | mode1 (attrs : Mode1Attributes)
  | mode2 (attrs : Mode2Attributes)
  | mode3 (attrs : Mode3Attributes)
  | mode4 (attrs : Mode4Attributes)

/-- A call: `ret` is missing where `new` threw, `obtained` is the region the call got. -/
structure Called (α : Type) where
  ret : Option UInt8RawPtr
  obtained : Option ℕ
  attrs : α
  world : World

def Called.map {α β : Type} (f : α → β) (c : Called α) : Called β :=
  ⟨c.ret, c.obtained, f c.attrs, c.world⟩

def Mode1Attributes.allocate (attrs : Mode1Attributes) (o : Outcomes) (w : World) :
    Called Mode1Attributes :=
  match o.new with
  | none => ⟨none, none, attrs, w⟩
  | some address =>
    ⟨some (.region address), some address, { baseAddr := .region address },
      w.acquire (.block address)⟩

def Mode2Attributes.allocate (size : BitVec 32) (o : Outcomes) (w : World) :
    Called Mode2Attributes :=
  let baseAddr := UInt8RawPtr.ofCall o.mmap
  let size := roundUpToPageSizes size
  ⟨some baseAddr, o.mmap, { baseAddr, size }, w.obtain (.mapping · size) o.mmap⟩

namespace Mode3Attributes

def setUp (attrs : Mode3Attributes) (size : BitVec 32) (o : Outcomes) (shmId : ℤ)
    (isOwner : Bool) (w : World) : Called Mode3Attributes :=
  if o.fchmod < 0 then
    ⟨some .null, none, attrs, if isOwner then w.closeAndUnlink shmId attrs.shmName else w⟩
  else if o.ftruncate < 0 then
    ⟨some .null, none, attrs, if isOwner then w.closeAndUnlink shmId attrs.shmName else w⟩
  else
    let baseAddr := UInt8RawPtr.ofCall o.mmap
    let size := roundUpToPageSizes size
    ⟨some baseAddr, o.mmap, { attrs with baseAddr, size, shmId, isOwner },
      w.obtain (.mapping · size) o.mmap⟩

def allocate (attrs : Mode3Attributes) (size : BitVec 32) (o : Outcomes) (w : World) :
    Called Mode3Attributes :=
  if o.shmOpen < 0 then
    if !o.shmOpenExists then ⟨some .null, none, attrs, w⟩
    else if o.shmOpenAgain < 0 then ⟨some .null, none, attrs, w⟩
    else attrs.setUp size o o.shmOpenAgain false (w.acquire (.descriptor o.shmOpenAgain))
  else
    attrs.setUp size o o.shmOpen true
      ((w.acquire (.sharedObject attrs.shmName)).acquire (.descriptor o.shmOpen))

/-- `ftruncate` on the number of no descriptor fails. -/
def append (attrs : Mode3Attributes) (size : BitVec 32) (o : Outcomes) (w : World) :
    Called Mode3Attributes :=
  if attrs.appendedBaseAddress ≠ .null then ⟨some .null, none, attrs, w⟩
  else if attrs.shmId < 0 ∨ o.ftruncate < 0 then
    ⟨some .null, none, attrs,
      if attrs.isOwner then w.closeAndUnlink attrs.shmId attrs.shmName else w⟩
  else
    let appendedBaseAddress := UInt8RawPtr.ofCall o.mmap
    let appendedSize := roundUpToPageSizes size
    ⟨some .null, o.mmap, { attrs with appendedBaseAddress, appendedSize },
      w.obtain (.mapping · appendedSize) o.mmap⟩

def release (attrs : Mode3Attributes) (w : World) : World :=
  let w := w.munmap attrs.size attrs.baseAddr
  let w := w.munmap attrs.appendedSize attrs.appendedBaseAddress
  let w := if 0 < attrs.shmId then w.release (.descriptor attrs.shmId) else w
  w.release (.sharedObject attrs.shmName)

end Mode3Attributes

namespace Mode4Attributes

def attach (attrs : Mode4Attributes) (size : BitVec 32) (o : Outcomes) (shmId : ℤ)
    (isOwner : Bool) (w : World) : Called Mode4Attributes :=
  let baseAddr := UInt8RawPtr.ofCall o.shmat
  ⟨some baseAddr, o.shmat,
    { attrs with baseAddr, size := roundUpToPageSizes size, shmId, isOwner },
    w.obtain .attachment o.shmat⟩

def allocate (attrs : Mode4Attributes) (size : BitVec 32) (o : Outcomes) (w : World) :
    Called Mode4Attributes :=
  if o.ftok < 0 then ⟨some .null, none, attrs, w⟩
  else if o.shmget < 0 then
    if !o.shmgetExists then ⟨some .null, none, attrs, w⟩
    else if o.shmgetAgain < 0 then ⟨some .null, none, attrs, w⟩
    else attrs.attach size o o.shmgetAgain false w
  else attrs.attach size o o.shmget true (w.acquire (.segment o.shmget))

def release (attrs : Mode4Attributes) (w : World) : World :=
  let w := w.shmdt attrs.baseAddr
  if 0 < attrs.shmId then w.release (.segment attrs.shmId) else w

end Mode4Attributes

namespace MemoryAllocatorParams

def allocate (size : BitVec 32) (o : Outcomes) (w : World) :
    MemoryAllocatorParams → Called MemoryAllocatorParams
  | .mode1 attrs => (attrs.allocate o w).map .mode1
  | .mode2 _ => (Mode2Attributes.allocate size o w).map .mode2
  | .mode3 attrs => (attrs.allocate size o w).map .mode3
  | .mode4 attrs => (attrs.allocate size o w).map .mode4

def append (size : BitVec 32) (o : Outcomes) (w : World) :
    MemoryAllocatorParams → Called MemoryAllocatorParams
  | .mode3 attrs => (attrs.append size o w).map .mode3
  | params => params.allocate size o w

def deallocate (w : World) : MemoryAllocatorParams → MemoryAllocatorParams × World
  | .mode1 attrs =>
    match attrs.baseAddr with
    | .region address => (.mode1 {}, w.release (.block address))
    | _ => (.mode1 attrs, w)
  | .mode2 attrs =>
    if attrs.baseAddr = .null then (.mode2 attrs, w)
    else (.mode2 {}, w.munmap attrs.size attrs.baseAddr)
  | .mode3 attrs => if attrs.isOwner then (.mode3 {}, attrs.release w) else (.mode3 attrs, w)
  | .mode4 attrs => if attrs.isOwner then (.mode4 {}, attrs.release w) else (.mode4 attrs, w)

end MemoryAllocatorParams

inductive Mode
  | mode1
  | mode2
  | mode3 (shmName : String)
  | mode4 (shmName : String) (projId : ℤ)

def MemoryAllocatorParams.new : Mode → MemoryAllocatorParams
  | .mode1 => .mode1 {}
  | .mode2 => .mode2 {}
  | .mode3 shmName => .mode3 { shmName }
  | .mode4 shmName projId => .mode4 { shmName, projId }

structure Call extends Outcomes where
  size : BitVec 32

end ItcPlatform.MemoryManager.MemoryAllocator
