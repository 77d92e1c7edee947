import ItcPlatform.ConcurrentContainer.Ownership
import ItcPlatform.LockFreeQueue.Sequential

/-! The container in the hands of one thread: acquiring until no entry is left, and what the
blocking pop behind `tryPopFromQueue` does then. -/

namespace ItcPlatform.ConcurrentContainer
open History LockFreeQueue

variable {C : Capacity}

inductive Request
  | tryPopFromQueue
  | tryPushIntoQueue (entry : Entry)

/-- An entry that was acquired shows as its distance from `m_rawEntries`. -/
inductive Reply
  | acquired (distance : Option ℕ)
  | released (isPushed : Bool)

/-- What a call shows of the container: its reply and the counters of the queue after it. -/
structure Shown where
  reply : Reply
  mHead : BitVec 32
  mTail : BitVec 32

/-- `none` where the call never returns. -/
def tryPopFromQueue (q : Traced (inactiveEntriesParams C)) :
    Option (Traced (inactiveEntriesParams C) × RawPtr) :=
  match q.alone 4 (Call.start .pop) with
  | (q, .returned (.popped entry)) => some (q, entry)
  | _ => none

def tryPushIntoQueue (q : Traced (inactiveEntriesParams C)) (entry : Entry) :
    Option (Traced (inactiveEntriesParams C) × Bool) :=
  match q.alone 4 (Call.start (.tryPush (some entry))) with
  | (q, .returned .pushed) => some (q, true)
  | (q, .returned .refused) => some (q, false)
  | _ => none

def answer (q : Traced (inactiveEntriesParams C)) :
    Request → Option (Traced (inactiveEntriesParams C) × Shown)
  | .tryPopFromQueue => (tryPopFromQueue q).map fun r =>
    (r.1, ⟨.acquired (r.2.map BitVec.toNat), r.1.queue.mHead, r.1.queue.mTail⟩)
  | .tryPushIntoQueue entry => (tryPushIntoQueue q entry).map fun r =>
    (r.1, ⟨.released r.2, r.1.queue.mHead, r.1.queue.mTail⟩)

/-- What a container is for: entries that are free, in the order in which they were released, and
entries that are held, all by their distances. -/
structure Lending where
  free : List ℕ
  held : List ℕ
  mHead : BitVec 32
  mTail : BitVec 32

namespace Lending

def new (C : Capacity) : Lending :=
  ⟨(List.range C.size).map (· * 64), [], BitVec.ofNat 32 C.size, 0⟩

def reference (s : Lending) : Request → Lending × Shown
  | .tryPopFromQueue =>
    match s.free with
    | [] => (s, ⟨.acquired none, s.mHead, s.mTail⟩)
    | distance :: free =>
      (⟨free, distance :: s.held, s.mHead, s.mTail + 1⟩,
        ⟨.acquired (some distance), s.mHead, s.mTail + 1⟩)
  | .tryPushIntoQueue entry =>
    (⟨s.free ++ [entry.toNat], s.held.erase entry.toNat, s.mHead + 1, s.mTail⟩,
      ⟨.released true, s.mHead + 1, s.mTail⟩)

def Allowed (s : Lending) : Request → Prop
  | .tryPopFromQueue => True
  | .tryPushIntoQueue entry => entry.toNat ∈ s.held

/-- No acquire comes while all entries are held. -/
def LeavesOne (C : Capacity) (s : Lending) : Request → Prop
  | .tryPopFromQueue => s.held.length < C.size
  | .tryPushIntoQueue _ => True

def rawPtr (distance : ℕ) : RawPtr := some (BitVec.ofNat 32 distance)

structure Backs (q : Traced (inactiveEntriesParams C)) (s : Lending) : Prop where
  holds : q.queue.Holds (s.free.map rawPtr)
  mHead : q.queue.mHead = s.mHead
  mTail : q.queue.mTail = s.mTail
  all : s.free.length + s.held.length = C.size
  addressed : ∀ distance ∈ s.free, distance < 2 ^ 32

end Lending

section Calls
variable {q : Traced (inactiveEntriesParams C)} {s : Lending} {r : Request}

theorem alone_tryPush_of_holds {l : List RawPtr} (h : q.queue.Holds l)
    (hroom : l.length < (inactiveEntriesParams C).mSize) (e : RawPtr) :
    q.alone 4 (Call.start (.tryPush e)) =
      (⟨⟨q.queue.mHead + 1, q.queue.mTail,
          Function.update q.queue.mQueue ((inactiveEntriesParams C).slot q.queue.mHead) e⟩,
        q.pushTickets + 1, q.popTickets, q.stored ++ [e], q.taken⟩, .returned .pushed) :=
  alone_tryPush (Bool.eq_false_iff.mpr fun hfull => hroom.ne (h.full_iff.mp hfull))
    (h.free rfl hroom)

theorem holds_constructed {n : ℕ} (hn : n ≤ C.size) :
    (constructed C n).queue.Holds (((List.range n).map (· * 64)).map Lending.rawPtr) := by
  have hsize : C.size ≤ (inactiveEntriesParams C).mSize := (inactiveEntriesParams C).le_mSize
  induction n with
  | zero => exact .of_free C.size_le rfl fun _ => rfl
  | succ n ih =>
    have hholds := ih (by omega)
    have hroom : (((List.range n).map (· * 64)).map Lending.rawPtr).length <
        (inactiveEntriesParams C).mSize := by
      simp only [List.length_map, List.length_range]
      omega
    have hentry : some (getAlignedEntry (BitVec.ofNat 32 n)) = Lending.rawPtr (n * 64) :=
      congrArg some (BitVec.ofNat_mul n 64).symm
    have hturn : constructed C (n + 1) = _ :=
      congrArg Prod.fst (alone_tryPush_of_holds hholds hroom (some (getAlignedEntry n)))
    rw [hturn, List.range_succ, List.map_append, List.map_append, List.map_singleton,
      List.map_singleton, ← hentry]
    exact hholds.push rfl hroom (Option.some_ne_none _)

theorem backs_new (h : C.size < 2 ^ 26) : Lending.Backs (constructed C C.size) (.new C) := by
  have hf := filled_constructed (le_refl C.size)
  refine ⟨holds_constructed le_rfl, ?_, ?_, by simp [Lending.new], fun distance hd => ?_⟩
  · rw [hf.sound.head, hf.pushes]
    rfl
  · rw [hf.sound.tail, hf.pops]
    rfl
  · obtain ⟨i, hi, rfl⟩ := List.mem_map.mp hd
    have hlt := List.mem_range.mp hi
    omega

theorem Lending.Backs.follows (h : s.Backs q) (hallowed : s.Allowed r) (hleaves : s.LeavesOne C r) :
    ∃ q', answer q r = some (q', (s.reference r).2) ∧ (s.reference r).1.Backs q' := by
  obtain ⟨hholds, hhead, htail, hall, haddressed⟩ := h
  obtain ⟨free, held, mHead, mTail⟩ := s
  obtain rfl : q.queue.mHead = mHead := hhead
  obtain rfl : q.queue.mTail = mTail := htail
  cases r with
  | tryPopFromQueue =>
    have hlt : held.length < C.size := hleaves
    cases free with
    | nil => exact absurd hall (by simp only [List.length_nil]; omega)
    | cons distance free =>
      have hdistance : (BitVec.ofNat 32 distance).toNat = distance :=
        (BitVec.toNat_ofNat _ _).trans
          (Nat.mod_eq_of_lt (haddressed distance (List.mem_cons_self ..)))
      simp only [answer, tryPopFromQueue, alone_pop hholds, Option.map_some, Lending.rawPtr,
        Lending.reference, hdistance]
      refine ⟨_, rfl, hholds.pop, rfl, rfl, ?_, fun d hd => haddressed d (.tail _ hd)⟩
      simp only [List.length_cons] at hall ⊢
      omega
  | tryPushIntoQueue entry =>
    have hmem : entry.toNat ∈ held := hallowed
    have hpos := List.length_pos_of_mem hmem
    have hroom : (free.map Lending.rawPtr).length < (inactiveEntriesParams C).mSize := by
      have hsize : C.size ≤ (inactiveEntriesParams C).mSize := (inactiveEntriesParams C).le_mSize
      simp only [List.length_map] at hall ⊢
      omega
    have hentry : Lending.rawPtr entry.toNat = some entry :=
      congrArg some (by simp)
    simp only [answer, tryPushIntoQueue, alone_tryPush_of_holds hholds hroom, Option.map_some,
      Lending.reference]
    refine ⟨_, rfl, ?_, rfl, rfl, ?_, fun d hd => ?_⟩
    · rw [List.map_append, List.map_singleton, hentry]
      exact hholds.push rfl hroom (Option.some_ne_none _)
    · simp only [List.length_append, List.length_singleton, List.length_erase_of_mem hmem] at hall ⊢
      omega
    · obtain hd | hd := List.mem_append.mp hd
      · exact haddressed d hd
      · rw [List.mem_singleton.mp hd]
        exact entry.isLt

theorem Lending.Backs.waits (h : s.Backs q) (hleaves : ¬ s.LeavesOne C r) : answer q r = none := by
  cases r with
  | tryPopFromQueue =>
    have hempty : s.free = [] := by
      have hall := h.all
      have hge : ¬ s.held.length < C.size := hleaves
      exact List.length_eq_zero_iff.mp (by omega)
    have hholds := h.holds
    rw [hempty] at hholds
    have hwaits := alone_pop_waits hholds.free_of_empty 4
    rw [answer, tryPopFromQueue]
    split
    · rename_i hreturned
      exact absurd (congrArg Prod.snd hreturned) (hwaits _)
    · rfl
  | tryPushIntoQueue entry => exact absurd trivial hleaves

/-- One thread acquires and releases as it should exactly where the container's length in bytes fits
into a `uint32_t` and the thread never acquires while it holds all entries. -/
theorem lends_cleanly_iff {requests : List Request}
    (hallowed :
      Each (fun s r => some (Lending.reference s r).1) Lending.Allowed requests (.new C)) :
    (∃ q, construct C = some q ∧
        results answer requests q = some (expected Lending.reference requests (.new C))) ↔
      C.size < 2 ^ 26 ∧ Each (fun s r => some (Lending.reference s r).1) (Lending.LeavesOne C)
        requests (.new C) := by
  have hiff (hsize : C.size < 2 ^ 26) : results answer requests (constructed C C.size) =
      some (expected Lending.reference requests (.new C)) ↔
        Each (fun s r => some (Lending.reference s r).1) (Lending.LeavesOne C) requests
          (.new C) := by
    refine results_eq_iff_of_each (R := fun q s => Lending.Backs q s) ?_ ?_ (backs_new hsize)
      hallowed
    · intro q s r h hallowed hleaves
      exact h.follows hallowed hleaves
    · intro q s r h _ hleaves q' heq
      rw [h.waits hleaves] at heq
      cases heq
  constructor
  · rintro ⟨q, hconstruct, hresults⟩
    have hsize : C.size < 2 ^ 26 := by
      by_contra hlt
      rw [construct_eq_none (not_lt.mp hlt)] at hconstruct
      cases hconstruct
    rw [construct_eq_some hsize] at hconstruct
    obtain rfl := Option.some.inj hconstruct
    exact ⟨hsize, (hiff hsize).mp hresults⟩
  · exact fun ⟨hsize, hleaves⟩ => ⟨_, construct_eq_some hsize, (hiff hsize).mpr hleaves⟩

end Calls

def pair : Capacity := ⟨2, by decide, by decide⟩

def reacquire : List Request :=
  [.tryPopFromQueue, .tryPopFromQueue, .tryPushIntoQueue 64, .tryPopFromQueue]

theorem lends_cleanly_reacquire : ∃ q, construct pair = some q ∧
    results answer reacquire q = some [⟨.acquired (some 0), 2, 1⟩, ⟨.acquired (some 64), 2, 2⟩,
      ⟨.released true, 3, 2⟩, ⟨.acquired (some 64), 3, 3⟩] := by
  have hnew : Lending.new pair = ⟨[0, 64], [], 2, 0⟩ := rfl
  have hsize : pair.size = 2 := rfl
  refine (@lends_cleanly_iff pair reacquire ?_).mpr ⟨by rw [hsize]; decide, ?_⟩
  · simp [reacquire, Each, Lending.Allowed, Lending.reference, hnew]
  · simp [reacquire, Each, Lending.LeavesOne, Lending.reference, hnew, hsize]

/-- With both entries held a third acquire moves the tail counter and never returns. -/
theorem not_lends_cleanly_exhausted : construct pair = some (constructed pair 2) ∧
    (∃ q, after (fun q r => (answer q r).map Prod.fst) [.tryPopFromQueue, .tryPopFromQueue]
        (constructed pair 2) = some q ∧
      (q.alone 1 (Call.start .pop)).1.queue.mTail = q.queue.mTail + 1 ∧
      ∀ n ret, (q.alone n (Call.start .pop)).2 ≠ .returned ret) ∧
    results answer [.tryPopFromQueue, .tryPopFromQueue, .tryPopFromQueue] (constructed pair 2) ≠
      some (expected Lending.reference [.tryPopFromQueue, .tryPopFromQueue, .tryPopFromQueue]
        (.new pair)) := by
  refine ⟨construct_eq_some (by decide), ⟨_, rfl, rfl, fun n ret => ?_⟩, ?_⟩
  · cases n with
    | zero => nofun
    | succ n => exact alone_emptying_waits rfl (.inl rfl) ret
  · exact (Option.some_ne_none _).symm

end ItcPlatform.ConcurrentContainer
