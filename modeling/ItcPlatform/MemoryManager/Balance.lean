import Mathlib.Data.List.Count
import ItcPlatform.MemoryManager.Allocator

/-! What the allocator has given back once `deallocate` returns. -/

namespace ItcPlatform.MemoryManager.MemoryAllocator

section Property
variable {α : Type}

def Called.Clean (c : Called α) (before : World) : Prop :=
  c.obtained = none → c.world.held ≤ before.held

def Called.Truthful (c : Called α) : Prop :=
  match c.obtained with
  | some address => c.ret = some (.region address)
  | none => c.ret = some .null ∨ c.ret = none

end Property

def BalancedFrom (params : MemoryAllocatorParams) (w : World) : List Call → Prop
  | [] => (params.deallocate w).2.Settled Resource.Private
  | call :: calls =>
    let called := params.append call.size call.toOutcomes w
    called.Truthful ∧ called.Clean w ∧ BalancedFrom called.attrs called.world calls

def Balanced (mode : Mode) (first : Call) (appends : List Call) : Prop :=
  let called := (MemoryAllocatorParams.new mode).allocate first.size first.toOutcomes .empty
  called.Clean .empty ∧ BalancedFrom called.attrs called.world appends

namespace Call
variable (c : Call)

def Refuses : Prop :=
  if c.shmOpen < 0 then c.shmOpenExists = false ∨ c.shmOpenAgain < 0
  else c.fchmod < 0 ∨ c.ftruncate < 0

def MapsOwn : Prop :=
  0 < c.shmOpen ∧ 0 ≤ c.fchmod ∧ 0 ≤ c.ftruncate ∧ c.mmap.isSome

def OnlyMapFails : Prop := 0 ≤ c.ftruncate ∧ c.mmap = none

def Reaches : Prop :=
  0 ≤ c.ftok ∧ (0 ≤ c.shmget ∨ c.shmgetExists = true ∧ 0 ≤ c.shmgetAgain)

instance : Decidable c.Reaches := inferInstanceAs (Decidable (_ ∧ _))

def AttachesOwn : Prop := 0 ≤ c.ftok ∧ 0 ≤ c.shmget ∧ c.shmat.isSome

def AttachesNothing : Prop := c.Reaches → c.shmget < 0 ∧ c.shmat = none

end Call

/-- The outcomes with which the allocator gives everything back. -/
def GoodOutcomes (first : Call) (appends : List Call) : Mode → Prop
  | .mode1 => (first :: appends).countP (·.new.isSome) ≤ 1
  | .mode2 => (∀ c ∈ appends, c.mmap.isSome) ∧ (first :: appends).countP (·.mmap.isSome) ≤ 1
  | .mode3 _ => first.Refuses ∨ first.MapsOwn ∧ ∀ c ∈ appends.head?, c.OnlyMapFails
  | .mode4 _ _ =>
    let reaching := appends.filter (·.Reaches)
    first.AttachesOwn ∧ reaching = [] ∨
      first.AttachesNothing ∧ (∀ c ∈ reaching, c.AttachesOwn) ∧ reaching.length ≤ 1

@[simp] theorem private_block (address : ℕ) : (Resource.block address).Private := trivial

@[simp] theorem private_mapping (address : ℕ) (size : BitVec 32) :
    (Resource.mapping address size).Private := trivial

@[simp] theorem private_attachment (address : ℕ) : (Resource.attachment address).Private := trivial

@[simp] theorem private_descriptor (shmId : ℤ) : (Resource.descriptor shmId).Private := trivial

@[simp] theorem not_private_sharedObject (shmName : String) :
    ¬(Resource.sharedObject shmName).Private := id

@[simp] theorem not_private_segment (shmId : ℤ) : ¬(Resource.segment shmId).Private := id

theorem not_clean_of_mem {α : Type} {c : Called α} {x : Resource} (hc : c.obtained = none)
    (hx : x ∈ c.world.held) : ¬c.Clean .empty :=
  fun h => Multiset.notMem_zero x (Multiset.mem_of_le (h hc) hx)

theorem settled_empty : (Custody.empty : World).Settled Resource.Private := ⟨rfl, rfl⟩

theorem not_settled_of_due {w : World} (h : 0 < w.due Resource.Private) :
    ¬w.Settled Resource.Private := fun hw => h.ne' hw.1

theorem due_le_obtain (w : World) (resource : ℕ → Resource) (region : Option ℕ) :
    w.due Resource.Private ≤ (w.obtain resource region).due Resource.Private := by
  cases region with
  | none => exact le_rfl
  | some address => exact le_of_le_of_eq (Nat.le_add_right _ _) (Custody.due_acquire _ _ _).symm

/-! ### One region at a time -/

def Tracks (resource : ℕ → Resource) (baseAddr : UInt8RawPtr) (w : World) : Prop :=
  w.stray = false ∧ (∀ x ∈ w.held, x.Private) ∧
    match baseAddr with
    | .region address => ∃ rest, w.held = resource address ::ₘ rest
    | _ => w.held = 0

section OneRegion
variable {resource resource' : ℕ → Resource} {baseAddr : UInt8RawPtr} {w : World} {address : ℕ}

theorem tracks_empty : Tracks resource .null .empty := ⟨rfl, by simp, rfl⟩

theorem tracks_failed : Tracks resource .failed .empty := ⟨rfl, by simp, rfl⟩

theorem Tracks.acquire (h : Tracks resource baseAddr w) (hp : (resource' address).Private) :
    Tracks resource' (.region address) (w.acquire (resource' address)) := by
  refine ⟨h.1, ?_, w.held, rfl⟩
  intro x hx
  obtain rfl | hx := Multiset.mem_cons.mp hx
  · exact hp
  · exact h.2.1 x hx

theorem Tracks.settled_iff (h : Tracks resource baseAddr w) :
    (match baseAddr with
      | .region address => w.release (resource address)
      | _ => w).Settled Resource.Private ↔ w.held.card ≤ 1 := by
  obtain ⟨hs, hp, hw⟩ := h
  have hnone (hw : w.held = 0) : w.Settled Resource.Private ↔ w.held.card ≤ 1 := by
    simp [Custody.Settled, Custody.due, hw, hs]
  cases baseAddr with
  | null => exact hnone hw
  | failed => exact hnone hw
  | region address =>
    obtain ⟨rest, hw⟩ := hw
    have hrest : ∀ x ∈ rest, x.Private := fun x hx => hp x (hw ▸ Multiset.mem_cons_of_mem hx)
    simp only [Custody.release_of_cons hw, hw, Multiset.card_cons]
    change rest.countP Resource.Private = 0 ∧ w.stray = false ↔ rest.card + 1 ≤ 1
    rw [Multiset.countP_eq_card.mpr hrest]
    simp [hs]

theorem balancedFrom_mode1 {attrs : Mode1Attributes} (h : Tracks .block attrs.baseAddr w)
    (appends : List Call) : BalancedFrom (.mode1 attrs) w appends ↔
      w.held.card + appends.countP (·.new.isSome) ≤ 1 := by
  induction appends generalizing attrs w with
  | nil =>
    obtain ⟨baseAddr⟩ := attrs
    cases baseAddr with
    | null => exact h.settled_iff
    | failed => exact h.settled_iff
    | region address => exact h.settled_iff
  | cons call calls ih =>
    have hstep : (MemoryAllocatorParams.mode1 attrs).append call.size call.toOutcomes w =
        (attrs.allocate call.toOutcomes w).map .mode1 := rfl
    simp only [BalancedFrom, hstep, List.countP_cons]
    cases hn : call.new with
    | none =>
      simp only [Mode1Attributes.allocate, hn]
      simpa [Called.map, Called.Truthful, Called.Clean] using ih h
    | some address =>
      simp only [Mode1Attributes.allocate, hn]
      simp only [Called.map, Called.Truthful, Called.Clean]
      simpa [Nat.add_assoc, Nat.add_comm 1] using ih (h.acquire (private_block address))

theorem balancedFrom_mode2 {attrs : Mode2Attributes}
    (h : Tracks (.mapping · attrs.size) attrs.baseAddr w) (appends : List Call) :
    BalancedFrom (.mode2 attrs) w appends ↔
      (∀ c ∈ appends, c.mmap.isSome) ∧ w.held.card + appends.countP (·.mmap.isSome) ≤ 1 := by
  induction appends generalizing attrs w with
  | nil =>
    obtain ⟨baseAddr, size⟩ := attrs
    have hend := h.settled_iff
    cases baseAddr with
    | null => simpa [BalancedFrom, MemoryAllocatorParams.deallocate] using hend
    | failed => simpa [BalancedFrom, MemoryAllocatorParams.deallocate, World.munmap] using hend
    | region address => simpa [BalancedFrom, MemoryAllocatorParams.deallocate] using hend
  | cons call calls ih =>
    have hstep : (MemoryAllocatorParams.mode2 attrs).append call.size call.toOutcomes w =
        (Mode2Attributes.allocate call.size call.toOutcomes w).map .mode2 := rfl
    simp only [BalancedFrom, hstep, List.countP_cons]
    cases hm : call.mmap with
    | none => simp [Mode2Attributes.allocate, Called.map, Called.Truthful, UInt8RawPtr.ofCall, hm]
    | some address =>
      have hih := @ih _ ⟨.region address, roundUpToPageSizes call.size⟩
        (h.acquire (private_mapping address (roundUpToPageSizes call.size)))
      simp only [Mode2Attributes.allocate, hm]
      simp only [Called.map, Called.Truthful, Called.Clean]
      simpa [Nat.add_assoc, Nat.add_comm 1, hm] using hih

theorem balanced_mode1_iff (first : Call) (appends : List Call) :
    Balanced .mode1 first appends ↔ GoodOutcomes first appends .mode1 := by
  have hstep : Balanced .mode1 first appends ↔
      let called := Mode1Attributes.allocate {} first.toOutcomes .empty
      called.Clean .empty ∧ BalancedFrom (.mode1 called.attrs) called.world appends := Iff.rfl
  rw [hstep, GoodOutcomes, List.countP_cons]
  cases hn : first.new with
  | none =>
    have hrest := @balancedFrom_mode1 _ {} tracks_empty appends
    simpa [Mode1Attributes.allocate, hn, Called.Clean] using hrest
  | some address =>
    have hrest := @balancedFrom_mode1 _ ⟨.region address⟩
      ((@tracks_empty .block).acquire (private_block address)) appends
    simpa [Mode1Attributes.allocate, hn, Called.Clean, Nat.add_comm 1] using hrest

theorem balanced_mode2_iff (first : Call) (appends : List Call) :
    Balanced .mode2 first appends ↔ GoodOutcomes first appends .mode2 := by
  have hstep : Balanced .mode2 first appends ↔
      let called := Mode2Attributes.allocate first.size first.toOutcomes .empty
      called.Clean .empty ∧ BalancedFrom (.mode2 called.attrs) called.world appends := Iff.rfl
  rw [hstep, GoodOutcomes, List.countP_cons]
  cases hm : first.mmap with
  | none =>
    have hrest := @balancedFrom_mode2 _ ⟨.failed, roundUpToPageSizes first.size⟩
      tracks_failed appends
    simpa [Mode2Attributes.allocate, hm, Called.Clean] using hrest
  | some address =>
    have hrest := @balancedFrom_mode2 _ ⟨.region address, roundUpToPageSizes first.size⟩
      ((@tracks_empty .block).acquire
        (private_mapping address (roundUpToPageSizes first.size))) appends
    simpa [Mode2Attributes.allocate, hm, Called.Clean, Nat.add_comm 1] using hrest

end OneRegion

/-! ### Shared memory -/

inductive Doomed : MemoryAllocatorParams → World → Prop
  | unlinked {attrs : Mode3Attributes} {w : World} (owner : attrs.isOwner = true)
      (gone : .sharedObject attrs.shmName ∉ w.held) : Doomed (.mode3 attrs) w
  | opened {attrs : Mode3Attributes} {w : World} (owner : attrs.isOwner = false)
      (due : 0 < w.due Resource.Private) : Doomed (.mode3 attrs) w
  | attached {attrs : Mode4Attributes} {w : World} (owner : attrs.isOwner = false)
      (due : 0 < w.due Resource.Private) : Doomed (.mode4 attrs) w
  | attachedTwice {attrs : Mode4Attributes} {w : World} (due : 1 < w.due Resource.Private) :
      Doomed (.mode4 attrs) w

section Shared
variable {w : World} {size : BitVec 32} {o : Outcomes}

theorem notMem_munmap {x : Resource} (h : x ∉ w.held) (size : BitVec 32) (p : UInt8RawPtr) :
    x ∉ (w.munmap size p).held := by
  cases p with
  | null => exact h
  | failed => exact h
  | region address => exact Custody.notMem_release h _

theorem notMem_obtain {shmName : String} (h : .sharedObject shmName ∉ w.held)
    (size : BitVec 32) (region : Option ℕ) :
    .sharedObject shmName ∉ (w.obtain (.mapping · size) region).held := by
  cases region with
  | none => exact h
  | some address => simpa using h

theorem Mode3Attributes.stray_release {attrs : Mode3Attributes}
    (h : .sharedObject attrs.shmName ∉ w.held) : (attrs.release w).stray = true := by
  unfold Mode3Attributes.release
  have hw := notMem_munmap (notMem_munmap h attrs.size attrs.baseAddr) attrs.appendedSize
    attrs.appendedBaseAddress
  split
  · rw [Custody.release_of_notMem (Custody.notMem_release hw _)]
  · rw [Custody.release_of_notMem hw]

theorem Mode4Attributes.due_release {attrs : Mode4Attributes} :
    w.due Resource.Private ≤ (attrs.release w).due Resource.Private + 1 := by
  have hd : w.due Resource.Private ≤ (w.shmdt attrs.baseAddr).due Resource.Private + 1 := by
    cases attrs.baseAddr with
    | null => exact Nat.le_succ _
    | failed => exact Nat.le_succ _
    | region address => exact Custody.due_release_le _ _ _
  unfold Mode4Attributes.release
  split
  · rwa [Custody.due_release_of_not _ _ (not_private_segment _)]
  · exact hd

theorem Doomed.not_settled {params : MemoryAllocatorParams} (h : Doomed params w) :
    ¬(params.deallocate w).2.Settled Resource.Private := by
  cases h with
  | unlinked owner gone =>
    intro hs
    have := hs.2
    simp only [MemoryAllocatorParams.deallocate, owner, if_true] at this
    rw [Mode3Attributes.stray_release gone] at this
    cases this
  | opened owner due =>
    simpa [MemoryAllocatorParams.deallocate, owner] using not_settled_of_due due
  | attached owner due =>
    simpa [MemoryAllocatorParams.deallocate, owner] using not_settled_of_due due
  | @attachedTwice attrs _ due =>
    have hd := @Mode4Attributes.due_release w attrs
    simp only [MemoryAllocatorParams.deallocate]
    split
    · exact not_settled_of_due (show 0 < (attrs.release w).due Resource.Private by omega)
    · exact not_settled_of_due (show 0 < w.due Resource.Private by omega)

theorem notMem_closeAndUnlink {x : Resource} (h : x ∉ w.held) (shmId : ℤ) (shmName : String) :
    x ∉ (w.closeAndUnlink shmId shmName).held :=
  Custody.notMem_release (Custody.notMem_release h _) _

theorem Doomed.mode3_append {attrs : Mode3Attributes} (h : Doomed (.mode3 attrs) w) :
    Doomed (.mode3 (attrs.append size o w).attrs) (attrs.append size o w).world := by
  unfold Mode3Attributes.append
  cases h with
  | unlinked owner gone =>
    split_ifs
    · exact .unlinked owner gone
    · exact .unlinked owner (notMem_closeAndUnlink gone _ _)
    · exact .unlinked owner (notMem_obtain gone _ _)
  | opened owner due =>
    split_ifs with h1 h2 h3
    · exact .opened owner due
    · exact absurd h3 (by simp [owner])
    · exact .opened owner due
    · exact .opened owner (due.trans_le (due_le_obtain _ _ _))

theorem Mode4Attributes.allocate_cases (attrs : Mode4Attributes) (size : BitVec 32)
    (w : World) (call : Call) :
    ¬call.Reaches ∧ attrs.allocate size call.toOutcomes w = ⟨some .null, none, attrs, w⟩ ∨
    call.Reaches ∧ 0 ≤ call.shmget ∧ attrs.allocate size call.toOutcomes w =
      attrs.attach size call.toOutcomes call.shmget true (w.acquire (.segment call.shmget)) ∨
    call.Reaches ∧ call.shmget < 0 ∧ attrs.allocate size call.toOutcomes w =
      attrs.attach size call.toOutcomes call.shmgetAgain false w := by
  unfold Mode4Attributes.allocate Call.Reaches
  split_ifs with h1 h2 h3 h4
  · exact .inl ⟨fun h => by omega, rfl⟩
  · refine .inl ⟨?_, rfl⟩
    rintro ⟨-, h | ⟨h, -⟩⟩
    · omega
    · simp [h] at h3
  · exact .inl ⟨fun h => by omega, rfl⟩
  · exact .inr (.inr ⟨⟨by omega, .inr ⟨by simpa using h3, by omega⟩⟩, h2, rfl⟩)
  · exact .inr (.inl ⟨⟨by omega, .inl (by omega)⟩, by omega, rfl⟩)

theorem Mode4Attributes.due_attach {attrs : Mode4Attributes} {shmId : ℤ} {isOwner : Bool}
    (ht : (attrs.attach size o shmId isOwner w).Truthful) :
    (attrs.attach size o shmId isOwner w).world.due Resource.Private =
      w.due Resource.Private + 1 := by
  cases hs : o.shmat with
  | none => simp [Mode4Attributes.attach, Called.Truthful, hs] at ht
  | some address => simp [Mode4Attributes.attach, hs]

theorem Doomed.mode4_append {attrs : Mode4Attributes} (h : Doomed (.mode4 attrs) w) (call : Call)
    (ht : (attrs.allocate size call.toOutcomes w).Truthful) :
    Doomed (.mode4 (attrs.allocate size call.toOutcomes w).attrs)
      (attrs.allocate size call.toOutcomes w).world := by
  have hdue : 0 < w.due Resource.Private := by
    cases h with
    | attached owner due => exact due
    | attachedTwice due => omega
  obtain ⟨-, he⟩ | ⟨-, -, he⟩ | ⟨-, -, he⟩ := attrs.allocate_cases size w call
  · rwa [he]
  · rw [he] at ht ⊢
    refine .attachedTwice ?_
    rw [Mode4Attributes.due_attach ht]
    simpa using hdue
  · rw [he] at ht ⊢
    refine .attachedTwice ?_
    rw [Mode4Attributes.due_attach ht]
    omega

theorem Doomed.not_balancedFrom {params : MemoryAllocatorParams} (h : Doomed params w)
    (appends : List Call) : ¬BalancedFrom params w appends := by
  induction appends generalizing params w with
  | nil => exact h.not_settled
  | cons call calls ih =>
    rintro ⟨ht, -, hb⟩
    cases params with
    | mode1 attrs => cases h
    | mode2 attrs => cases h
    | mode3 attrs => exact ih h.mode3_append hb
    | mode4 attrs => exact ih (h.mode4_append call ht) hb

end Shared

section Modes

def MapsOnly (attrs : Mode3Attributes) (w : World) : Prop :=
  attrs.isOwner = true ∧ 0 ≤ attrs.shmId ∧ ∃ address, attrs.baseAddr = .region address ∧
    w = ((Custody.empty.acquire (.sharedObject attrs.shmName)).acquire
      (.descriptor attrs.shmId)).acquire (.mapping address attrs.size)

section
variable {attrs : Mode3Attributes} {w : World}

/-- `deallocate` takes descriptor 0 for no descriptor. -/
theorem MapsOnly.settled_iff (h : MapsOnly attrs w)
    (happended : ∀ address, attrs.appendedBaseAddress ≠ .region address) :
    (attrs.release w).Settled Resource.Private ↔ 0 < attrs.shmId := by
  obtain ⟨-, -, address, hb, rfl⟩ := h
  have hnone (w : World) : w.munmap attrs.appendedSize attrs.appendedBaseAddress = w := by
    unfold World.munmap
    split
    · next hp => exact absurd hp (happended _)
    · rfl
  simp only [Mode3Attributes.release, hb, World.munmap_region, Custody.release_acquire, hnone]
  split
  · next hpos => simpa [hpos] using settled_empty
  · next hpos =>
    refine iff_of_false (not_settled_of_due ?_) hpos
    rw [Custody.due_release_of_not _ _ (not_private_sharedObject _)]
    simp

theorem MapsOnly.balancedFrom_failed (h : MapsOnly attrs w)
    (happended : attrs.appendedBaseAddress = .failed) (appends : List Call) :
    BalancedFrom (.mode3 attrs) w appends ↔ 0 < attrs.shmId := by
  induction appends with
  | nil =>
    simpa [BalancedFrom, MemoryAllocatorParams.deallocate, h.1] using
      h.settled_iff (by simp [happended])
  | cons call calls ih =>
    have hstep : (MemoryAllocatorParams.mode3 attrs).append call.size call.toOutcomes w =
        ⟨some .null, none, .mode3 attrs, w⟩ := by
      simp [MemoryAllocatorParams.append, Mode3Attributes.append, happended, Called.map]
    simpa [BalancedFrom, hstep, Called.Truthful, Called.Clean] using ih

theorem MapsOnly.balancedFrom_iff (h : MapsOnly attrs w)
    (happended : attrs.appendedBaseAddress = .null) (appends : List Call) :
    BalancedFrom (.mode3 attrs) w appends ↔
      0 < attrs.shmId ∧ ∀ c ∈ appends.head?, c.OnlyMapFails := by
  cases appends with
  | nil =>
    simpa [BalancedFrom, MemoryAllocatorParams.deallocate, h.1] using
      h.settled_iff (by simp [happended])
  | cons call calls =>
    have hid : ¬attrs.shmId < 0 := Int.not_lt.mpr h.2.1
    have hstep : (MemoryAllocatorParams.mode3 attrs).append call.size call.toOutcomes w =
        (attrs.append call.size call.toOutcomes w).map .mode3 := rfl
    by_cases hf : call.ftruncate < 0
    · refine iff_of_false ?_ (fun hg => absurd (hg.2 call rfl).1 (by omega))
      rintro ⟨-, -, hb⟩
      refine Doomed.not_balancedFrom ?_ calls hb
      rw [hstep]
      simp only [Mode3Attributes.append, happended, hf, or_true, if_true, h.1, ne_eq,
        not_true_eq_false, if_false]
      obtain ⟨howner, -, address, -, rfl⟩ := h
      refine .unlinked howner ?_
      simp [Called.map, World.closeAndUnlink]
    · have htruncate : 0 ≤ call.ftruncate := by omega
      cases hm : call.mmap with
      | none =>
        have hnext := @MapsOnly.balancedFrom_failed
          { attrs with appendedBaseAddress := .failed,
                       appendedSize := roundUpToPageSizes call.size } w h rfl calls
        simpa [BalancedFrom, hstep, Mode3Attributes.append, happended, hid, hf, hm, Called.map,
          Called.Truthful, Called.Clean, Call.OnlyMapFails, htruncate] using hnext
      | some address =>
        refine iff_of_false ?_ (fun hg => by simpa [hm] using (hg.2 call rfl).2)
        rintro ⟨ht, -⟩
        simp [hstep, Mode3Attributes.append, happended, hid, hf, hm, Called.map,
          Called.Truthful] at ht

theorem balancedFrom_refused (shmName : String) (appends : List Call) :
    BalancedFrom (.mode3 { shmName }) .empty appends := by
  induction appends with
  | nil => exact settled_empty
  | cons call calls ih => exact ⟨.inl rfl, fun _ => le_rfl, ih⟩

theorem setUp_of_fails {size : BitVec 32} {o : Outcomes} (h : o.fchmod < 0 ∨ o.ftruncate < 0)
    (shmId : ℤ) (isOwner : Bool) : attrs.setUp size o shmId isOwner w =
      ⟨some .null, none, attrs, if isOwner then w.closeAndUnlink shmId attrs.shmName else w⟩ := by
  unfold Mode3Attributes.setUp
  obtain h | h := h
  · rw [if_pos h]
  · simp only [h, if_true, ite_self]

theorem setUp_of_works {size : BitVec 32} {o : Outcomes} (h : ¬(o.fchmod < 0 ∨ o.ftruncate < 0))
    (shmId : ℤ) (isOwner : Bool) : attrs.setUp size o shmId isOwner w =
      ⟨some (UInt8RawPtr.ofCall o.mmap), o.mmap,
        { attrs with baseAddr := UInt8RawPtr.ofCall o.mmap, size := roundUpToPageSizes size,
                     shmId, isOwner },
        w.obtain (.mapping · (roundUpToPageSizes size)) o.mmap⟩ := by
  obtain ⟨h1, h2⟩ := not_or.mp h
  simp only [Mode3Attributes.setUp, h1, h2, if_false]

/-- Setting up the object of another process leaves its descriptor open. -/
theorem not_balanced_setUp_opened (call : Call) (shmId : ℤ) (appends : List Call)
    (hc : (attrs.setUp call.size call.toOutcomes shmId false
      (Custody.empty.acquire (.descriptor shmId))).Clean .empty) :
    let called := attrs.setUp call.size call.toOutcomes shmId false
      (Custody.empty.acquire (.descriptor shmId))
    ¬BalancedFrom (.mode3 called.attrs) called.world appends := by
  by_cases hfail : call.fchmod < 0 ∨ call.ftruncate < 0
  · rw [setUp_of_fails hfail] at hc
    exact absurd hc (not_clean_of_mem (x := .descriptor shmId) rfl (by simp))
  · rw [setUp_of_works hfail]
    refine Doomed.not_balancedFrom (.opened rfl ?_) appends
    refine lt_of_lt_of_le ?_ (due_le_obtain _ _ _)
    simp

theorem balanced_mode3 (shmName : String) (first : Call) (appends : List Call) :
    Balanced (.mode3 shmName) first appends ↔
      let called := Mode3Attributes.allocate { shmName } first.size first.toOutcomes .empty
      called.Clean .empty ∧ BalancedFrom (.mode3 called.attrs) called.world appends := Iff.rfl

theorem Mode3Attributes.allocate_cases (attrs : Mode3Attributes) (size : BitVec 32) (w : World)
    (call : Call) :
    (call.shmOpen < 0 ∧ (call.shmOpenExists = false ∨ call.shmOpenAgain < 0) ∧
      attrs.allocate size call.toOutcomes w = ⟨some .null, none, attrs, w⟩) ∨
    (call.shmOpen < 0 ∧ ¬(call.shmOpenExists = false ∨ call.shmOpenAgain < 0) ∧
      attrs.allocate size call.toOutcomes w = attrs.setUp size call.toOutcomes call.shmOpenAgain
        false (w.acquire (.descriptor call.shmOpenAgain))) ∨
    ¬call.shmOpen < 0 ∧
      attrs.allocate size call.toOutcomes w = attrs.setUp size call.toOutcomes call.shmOpen true
        ((w.acquire (.sharedObject attrs.shmName)).acquire (.descriptor call.shmOpen)) := by
  unfold Mode3Attributes.allocate
  split_ifs with hopen hexists hagain
  · exact .inl ⟨hopen, .inl (by simpa using hexists), rfl⟩
  · exact .inl ⟨hopen, .inr hagain, rfl⟩
  · exact .inr (.inl ⟨hopen, not_or.mpr ⟨by simpa using hexists, hagain⟩, rfl⟩)
  · exact .inr (.inr ⟨hopen, rfl⟩)

theorem balanced_mode3_iff (shmName : String) (first : Call) (appends : List Call) :
    Balanced (.mode3 shmName) first appends ↔ GoodOutcomes first appends (.mode3 shmName) := by
  have hrefused := balancedFrom_refused shmName appends
  rw [balanced_mode3, GoodOutcomes]
  obtain ⟨hopen, hagain, he⟩ | ⟨hopen, hagain, he⟩ | ⟨hopen, he⟩ :=
    Mode3Attributes.allocate_cases { shmName } first.size .empty first
  · have hrefuses : first.Refuses := by simpa [Call.Refuses, hopen] using hagain
    rw [he]
    exact iff_of_true ⟨fun _ => le_rfl, hrefused⟩ (.inl hrefuses)
  · have hrefuses : ¬first.Refuses := by simpa [Call.Refuses, hopen] using hagain
    have hmaps : ¬first.MapsOwn := fun h => by
      have := h.1
      omega
    rw [he]
    refine iff_of_false (fun h => ?_) (not_or.mpr ⟨hrefuses, fun h => hmaps h.1⟩)
    exact not_balanced_setUp_opened first first.shmOpenAgain appends h.1 h.2
  · rw [he]
    by_cases hfail : first.fchmod < 0 ∨ first.ftruncate < 0
    · have hrefuses : first.Refuses := by simpa [Call.Refuses, hopen] using hfail
      rw [setUp_of_fails hfail]
      simp only [World.closeAndUnlink, Custody.release_acquire, if_true]
      exact iff_of_true ⟨fun _ => le_rfl, hrefused⟩ (.inl hrefuses)
    · have hrefuses : ¬first.Refuses := by simpa [Call.Refuses, hopen] using hfail
      rw [setUp_of_works hfail]
      cases hm : first.mmap with
      | none =>
        refine iff_of_false ?_ ?_
        · rintro ⟨hc, -⟩
          exact not_clean_of_mem (x := .descriptor first.shmOpen) rfl (by simp) hc
        · rintro (h | ⟨h, -⟩)
          · exact hrefuses h
          · simpa [hm] using h.2.2.2
      | some address =>
        have hmaps : first.MapsOwn ↔ 0 < first.shmOpen := by
          simp only [Call.MapsOwn, hm, Option.isSome_some, and_true]
          omega
        have howns : MapsOnly
            { baseAddr := .region address, size := roundUpToPageSizes first.size,
              shmId := first.shmOpen, isOwner := true, shmName } _ :=
          ⟨rfl, Int.not_lt.mp hopen, address, rfl, rfl⟩
        rw [or_iff_right hrefuses, hmaps]
        exact (and_iff_right (fun h => absurd h (by simp))).trans
          (howns.balancedFrom_iff rfl appends)

end

def AttachesOnly (attrs : Mode4Attributes) (w : World) : Prop :=
  attrs.isOwner = true ∧ ∃ address, attrs.baseAddr = .region address ∧
    w = (Custody.empty.acquire (.segment attrs.shmId)).acquire (.attachment address)

section
variable {attrs : Mode4Attributes} {w : World}

theorem balancedFrom_mode4_cons (call : Call) (calls : List Call) :
    BalancedFrom (.mode4 attrs) w (call :: calls) ↔
      let called := attrs.allocate call.size call.toOutcomes w
      called.Truthful ∧ called.Clean w ∧
        BalancedFrom (.mode4 called.attrs) called.world calls := Iff.rfl

theorem AttachesOnly.settled (h : AttachesOnly attrs w) :
    (attrs.release w).Settled Resource.Private := by
  obtain ⟨-, address, hb, rfl⟩ := h
  simp only [Mode4Attributes.release, hb, World.shmdt, Custody.release_acquire]
  split
  · exact settled_empty
  · exact ⟨rfl, rfl⟩

theorem AttachesOnly.balancedFrom_iff (h : AttachesOnly attrs w) (appends : List Call) :
    BalancedFrom (.mode4 attrs) w appends ↔ ∀ c ∈ appends, ¬c.Reaches := by
  have hdue : w.due Resource.Private = 1 := by
    obtain ⟨-, address, -, rfl⟩ := h
    simp
  induction appends with
  | nil =>
    simpa [BalancedFrom, MemoryAllocatorParams.deallocate, h.1] using h.settled
  | cons call calls ih =>
    rw [balancedFrom_mode4_cons, List.forall_mem_cons]
    obtain ⟨hr, he⟩ | ⟨hr, -, he⟩ | ⟨hr, -, he⟩ :=
      attrs.allocate_cases call.size w call
    · rw [he]
      simpa [Called.Truthful, Called.Clean, hr] using ih
    · rw [he]
      refine iff_of_false (fun hb => ?_) (fun hb => hb.1 hr)
      refine Doomed.not_balancedFrom (.attachedTwice ?_) calls hb.2.2
      rw [Mode4Attributes.due_attach hb.1]
      simp [hdue]
    · rw [he]
      refine iff_of_false (fun hb => ?_) (fun hb => hb.1 hr)
      refine Doomed.not_balancedFrom (.attachedTwice ?_) calls hb.2.2
      rw [Mode4Attributes.due_attach hb.1, hdue]
      exact Nat.one_lt_two

theorem balancedFrom_unattached (howner : attrs.isOwner = false) (appends : List Call) :
    BalancedFrom (.mode4 attrs) .empty appends ↔
      (∀ c ∈ appends.filter (·.Reaches), c.AttachesOwn) ∧
        (appends.filter (·.Reaches)).length ≤ 1 := by
  induction appends with
  | nil => simpa [BalancedFrom, MemoryAllocatorParams.deallocate, howner] using settled_empty
  | cons call calls ih =>
    rw [balancedFrom_mode4_cons]
    obtain ⟨hr, he⟩ | ⟨hr, hget, he⟩ | ⟨hr, hget, he⟩ :=
      attrs.allocate_cases call.size .empty call
    · rw [he, List.filter_cons_of_neg (by simpa using hr)]
      simpa [Called.Truthful, Called.Clean] using ih
    · rw [he, List.filter_cons_of_pos (by simpa using hr)]
      cases hs : call.shmat with
      | none =>
        refine iff_of_false (fun hb => ?_) (fun hb => ?_)
        · simpa [Mode4Attributes.attach, Called.Truthful, hs] using hb.1
        · simpa [hs] using (hb.1 call List.mem_cons_self).2.2
      | some address =>
        have hattaches : call.AttachesOwn := ⟨hr.1, hget, by simp [hs]⟩
        have hnext : AttachesOnly { attrs with
            baseAddr := .region address, size := roundUpToPageSizes call.size,
            shmId := call.shmget, isOwner := true } _ := ⟨rfl, address, rfl, rfl⟩
        have hrest := hnext.balancedFrom_iff calls
        have himp (h : ∀ c ∈ calls, ¬c.Reaches) : ∀ c ∈ calls, c.Reaches → c.AttachesOwn :=
          fun c hc hcr => absurd hcr (h c hc)
        simpa [Mode4Attributes.attach, Called.Truthful, Called.Clean, hs, hattaches,
          List.filter_eq_nil_iff, and_iff_right_of_imp himp] using hrest
    · rw [he, List.filter_cons_of_pos (by simpa using hr)]
      refine iff_of_false (fun hb => ?_) (fun hb => ?_)
      · refine Doomed.not_balancedFrom (.attached rfl ?_) calls hb.2.2
        rw [Mode4Attributes.due_attach hb.1]
        exact Nat.succ_pos _
      · have := (hb.1 call List.mem_cons_self).2.1
        omega

theorem balanced_mode4 (shmName : String) (projId : ℤ) (first : Call) (appends : List Call) :
    Balanced (.mode4 shmName projId) first appends ↔
      let called := Mode4Attributes.allocate { shmName, projId } first.size first.toOutcomes .empty
      called.Clean .empty ∧ BalancedFrom (.mode4 called.attrs) called.world appends := Iff.rfl

theorem balanced_mode4_iff (shmName : String) (projId : ℤ) (first : Call)
    (appends : List Call) : Balanced (.mode4 shmName projId) first appends ↔
      GoodOutcomes first appends (.mode4 shmName projId) := by
  rw [balanced_mode4, GoodOutcomes]
  obtain ⟨hr, he⟩ | ⟨hr, hget, he⟩ | ⟨hr, hget, he⟩ :=
    Mode4Attributes.allocate_cases { shmName, projId } first.size .empty first
  · have hown : ¬first.AttachesOwn := fun h => hr ⟨h.1, .inl h.2.1⟩
    have hnothing : first.AttachesNothing := fun h => absurd h hr
    have hrest := @balancedFrom_unattached { shmName, projId } rfl appends
    rw [he]
    simpa [hown, hnothing, Called.Clean] using hrest
  · have hnothing : ¬first.AttachesNothing := fun h => by
      have := (h hr).1
      omega
    rw [he]
    cases hs : first.shmat with
    | none =>
      refine iff_of_false ?_ ?_
      · rintro ⟨hc, -⟩
        exact not_clean_of_mem (x := .segment first.shmget) hs
          (by simp [Mode4Attributes.attach, hs]) hc
      · rintro (⟨h, -⟩ | ⟨h, -⟩)
        · simpa [hs] using h.2.2
        · exact hnothing h
    | some address =>
      have hown : first.AttachesOwn := ⟨hr.1, hget, by simp [hs]⟩
      have hnext : AttachesOnly
          { baseAddr := .region address, size := roundUpToPageSizes first.size,
            shmId := first.shmget, projId, isOwner := true, shmName } _ := ⟨rfl, address, rfl, rfl⟩
      have hrest := hnext.balancedFrom_iff appends
      simpa [Mode4Attributes.attach, Called.Clean, hs, hown, hnothing,
        List.filter_eq_nil_iff] using hrest
  · have hown : ¬first.AttachesOwn := fun h => by
      have := h.2.1
      omega
    rw [he]
    cases hs : first.shmat with
    | none =>
      have hnothing : first.AttachesNothing := fun _ => ⟨hget, hs⟩
      have hrest := @balancedFrom_unattached
        { baseAddr := .failed, size := roundUpToPageSizes first.size,
          shmId := first.shmgetAgain, projId, shmName } rfl appends
      simpa [Mode4Attributes.attach, Called.Clean, hs, hown, hnothing] using hrest
    | some address =>
      refine iff_of_false ?_ ?_
      · rintro ⟨-, hb⟩
        exact Doomed.not_balancedFrom (.attached rfl (by simp [Mode4Attributes.attach, hs]))
          appends hb
      · rintro (⟨h, -⟩ | ⟨h, -⟩)
        · exact hown h
        · simpa [hs] using (h hr).2

end

/-- The allocator gives back what it takes under these outcomes only. -/
theorem balanced_iff_goodOutcomes (mode : Mode) (first : Call) (appends : List Call) :
    Balanced mode first appends ↔ GoodOutcomes first appends mode := by
  cases mode with
  | mode1 => exact balanced_mode1_iff first appends
  | mode2 => exact balanced_mode2_iff first appends
  | mode3 shmName => exact balanced_mode3_iff shmName first appends
  | mode4 shmName projId => exact balanced_mode4_iff shmName projId first appends

/-- `append` maps a second region of a shared object and returns `nullptr`. -/
theorem not_balanced_appended : ¬Balanced (.mode3 "shm")
    { size := 100, shmOpen := 3, fchmod := 0, ftruncate := 0, mmap := some 4096 }
    [{ size := 100, ftruncate := 0, mmap := some 8192 }] := by
  rintro ⟨-, ht, -⟩
  cases ht

end Modes

end ItcPlatform.MemoryManager.MemoryAllocator
