import Mathlib.Algebra.Order.BigOperators.Group.Finset
import ItcPlatform.ConcurrentContainer.Machine

/-! Who has an entry. The entries are shared out between the queue, the calls in progress and
the holders; since a releasing thread has one, the queue it pushes to is never full. -/

namespace ItcPlatform.ConcurrentContainer
open Interleaving LockFreeQueue
variable {ι : Type*} {C : Capacity}

def entry (i : ℕ) : Entry := getAlignedEntry (BitVec.ofNat 32 i)

def entries (C : Capacity) : List RawPtr := (List.range C.size).map fun i => some (entry i)

theorem entry_toNat (i : ℕ) : (entry i).toNat = i * 64 % 2 ^ 32 := by
  rw [entry, getAlignedEntry, BitVec.toNat_mul, BitVec.toNat_ofNat, Nat.mod_mul_mod]
  rfl

theorem nodup_entries (h : C.size < 2 ^ 26) : (entries C).Nodup := by
  refine List.Nodup.map_on (fun i hi j hj he => ?_) List.nodup_range
  have := congrArg BitVec.toNat (Option.some.inj he)
  rw [entry_toNat, entry_toNat] at this
  rw [List.mem_range] at hi hj
  omega

theorem rawEntriesLength_toNat : (rawEntriesLength C).toNat = C.size * 64 % 2 ^ 32 := by
  rw [rawEntriesLength, BitVec.toNat_mul, BitVec.toNat_ofNat, Nat.mod_mul_mod]
  rfl

theorem entry_lt_iff (i : ℕ) :
    entry i < rawEntriesLength C ↔ i * 64 % 2 ^ 32 < C.size * 64 % 2 ^ 32 := by
  rw [BitVec.lt_def, entry_toNat, rawEntriesLength_toNat]

theorem construct_eq_some (h : C.size < 2 ^ 26) : construct C = some (constructed C C.size) := by
  refine if_pos fun i hi => (entry_lt_iff i).mpr ?_
  omega

theorem construct_eq_none (h : 2 ^ 26 ≤ C.size) : construct C = none := by
  refine if_neg fun hinside => ?_
  have hlast := (entry_lt_iff (2 ^ 26 - 1)).mp (hinside (2 ^ 26 - 1) (by omega))
  omega

section Construction

/-- The capacity test of `tryPush`, whose head may be stale, on the counters behind the words. -/
theorem sle_sub_eq_false {m h r : ℕ} (hm : m ≤ 2 ^ 30) (hlt : h < r + m) (hr : r < 2 ^ 31) :
    (BitVec.ofNat 32 m).sle (BitVec.ofNat 32 h - BitVec.ofNat 32 r) = false := by
  rw [BitVec.sle_eq_decide, decide_eq_false_iff_not, not_le,
    toInt_ofNat_sub (by omega) (by omega), toInt_ofNat_of_lt (by omega)]
  omega

structure Filled (n : ℕ) (t : Traced (inactiveEntriesParams C)) : Prop where
  sound : t.Sound
  pushes : t.pushTickets = n
  pops : t.popTickets = 0
  stored : t.stored = (List.range n).map fun i => some (entry i)
  taken : t.taken = []
  slots : ∀ c < (inactiveEntriesParams C).mSize, t.queue.mQueue
    ((inactiveEntriesParams C).slot (BitVec.ofNat 32 c)) = if c < n then some (entry c) else none

theorem slot_ne {c c' : ℕ} (hc : c < (inactiveEntriesParams C).mSize)
    (hc' : c' < (inactiveEntriesParams C).mSize) (hne : c ≠ c') :
    (inactiveEntriesParams C).slot (BitVec.ofNat 32 c) ≠
      (inactiveEntriesParams C).slot (BitVec.ofNat 32 c') := fun he => by
  have := ((inactiveEntriesParams C).slot_ofNat_eq_iff
    ((inactiveEntriesParams C).mSize_dvd rfl)).mp he
  rw [Nat.mod_eq_of_lt hc, Nat.mod_eq_of_lt hc'] at this
  exact hne this

theorem filled_constructed {n : ℕ} (hn : n ≤ C.size) : Filled n (constructed C n) := by
  -- every `tryPush` of the constructor finds room, and entry `i` gets the slot of ticket `i`
  have hsize : C.size ≤ (inactiveEntriesParams C).mSize := (inactiveEntriesParams C).le_mSize
  induction n with
  | zero =>
    exact ⟨Traced.sound_new, rfl, rfl, rfl, rfl, fun c _ => (if_neg (Nat.not_lt_zero c)).symm⟩
  | succ n ih =>
    obtain ⟨hsound, hpushes, hpops, hstored, htaken, hslots⟩ := ih (by omega)
    have hhead := hsound.head
    rw [hpushes] at hhead
    have htail := hsound.tail
    rw [hpops] at htail
    have hempty := hslots n (by omega)
    rw [if_neg (lt_irrefl n), ← hhead] at hempty
    have hroom : (BitVec.ofNat 32 (inactiveEntriesParams C).mSize).sle
        ((constructed C n).queue.mHead - (constructed C n).queue.mTail) = false := by
      rw [hhead, htail]
      exact sle_sub_eq_false ((inactiveEntriesParams C).mSize_le C.size_le) (by omega) (by omega)
    have hturn := alone_tryPush (e := some (entry n)) hroom hempty
    have heq : constructed C (n + 1) = _ := congrArg Prod.fst hturn
    have hsound' : (constructed C (n + 1)).Sound := hsound.alone (Option.some_ne_none _)
    rw [heq] at hsound' ⊢
    refine ⟨hsound', congrArg (· + 1) hpushes, hpops, ?_, htaken, fun c hc => ?_⟩
    · rw [hstored, List.range_succ, List.map_append]
      rfl
    · simp only [hhead]
      by_cases hcn : c = n
      · subst hcn
        rw [Function.update_self, if_pos (Nat.lt_succ_self c)]
      · rw [Function.update_of_ne (slot_ne hc (by omega) hcn), hslots c hc]
        split_ifs <;> first | rfl | omega

end Construction

section Invariant

def cargo : Phase RawPtr → Multiset RawPtr
  | .wantsPush e | .storing e _ | .returned (.popped e) => {e}
  | _ => 0

def undrawn : Phase RawPtr → ℕ
  | .wantsPop => 1
  | _ => 0

namespace Holder

def phase? (h : Holder) : Option (Phase RawPtr) := h.call.map Pc.phase

theorem eq_mk {h : Holder} {c : Option (Pc RawPtr)} (hcall : h.call = c) : h = ⟨h.held, c⟩ :=
  hcall ▸ rfl

def toStore (h : Holder) : ℕ := h.phase?.elim 0 Phase.toStore

def toTake (h : Holder) : ℕ := h.phase?.elim 0 Phase.toTake

def toDraw (h : Holder) : ℕ := h.phase?.elim 0 undrawn

def holdings (h : Holder) : Multiset RawPtr := ↑(h.held.map some) + h.phase?.elim 0 cargo

theorem holdings_idle (held : List Entry) :
    (⟨held, none⟩ : Holder).holdings = ↑(held.map some) :=
  add_zero _

theorem holdings_carrying {pc : Pc RawPtr} {entry : Entry} (hcargo : cargo pc.phase = {some entry})
    (held : List Entry) :
    (⟨held, some pc⟩ : Holder).holdings = (⟨entry :: held, none⟩ : Holder).holdings := by
  rw [holdings_idle, List.map_cons, ← Multiset.cons_coe, ← Multiset.singleton_add, add_comm]
  exact congrArg ((held.map some : Multiset RawPtr) + ·) hcargo

end Holder

/-- The accesses of acquires and of releases that are not refused, with the counter `n` of push
tickets the loaded heads come from. -/
def Fits (n : ℕ) : Pc RawPtr → Prop
  | .popFetchAdd | .doPopExchange _ | .doPopLoad _ | .returned .pushed => True
  | .tryPushLoadHead e | .doPushCas e _ | .doPushLoad e _ | .returned (.popped e) => e ≠ none
  | .tryPushLoadTail e head | .tryPushCasHead e head => e ≠ none ∧ ∃ h ≤ n, head = BitVec.ofNat 32 h
  | _ => False

theorem Fits.mono {n n' : ℕ} {pc : Pc RawPtr} (h : Fits n pc) (hn : n ≤ n') : Fits n' pc := by
  unfold Fits at h ⊢
  split at h
  all_goals first | exact h | exact trivial | exact ⟨h.1, h.2.imp fun _ hh => ⟨hh.1.trans hn, hh.2⟩⟩

theorem Fits.legal {n : ℕ} {pc : Pc RawPtr} (h : Fits n pc) :
    pc.phase.Legal (inactiveEntriesParams C) := by
  unfold Fits at h
  split at h <;> first | exact trivial | exact h | exact h.1 | exact h.elim

section Step
variable {t : Traced (inactiveEntriesParams C)} {q : Queue (inactiveEntriesParams C)}
  {pc pc' : Pc RawPtr} {ev : Event RawPtr} {f f' : Phase RawPtr}

theorem Fits.step {choice : Bool} (hf : Fits t.pushTickets pc)
    (hstep : step (inactiveEntriesParams C) choice t.queue pc = some (q, pc', ev))
    (hhead : t.queue.mHead = BitVec.ofNat 32 t.pushTickets)
    (hroom : ∀ e head, pc = .tryPushLoadTail e head → (BitVec.ofNat 32
      (inactiveEntriesParams C).mSize).sle (head - t.queue.mTail) = false) :
    Fits (t.record q ev).pushTickets pc' := by
  -- where the capacity test passes, no access leads to a refusal
  cases pc <;> try exact hf.elim
  all_goals simp only [LockFreeQueue.step] at hstep
  case tryPushLoadTail e head =>
    rw [hroom e head rfl, if_neg Bool.false_ne_true] at hstep
    obtain ⟨rfl, rfl, rfl⟩ := by simpa using hstep
    exact hf
  case tryPushLoadHead e =>
    obtain ⟨rfl, rfl, rfl⟩ := by simpa using hstep
    exact ⟨hf, _, le_rfl, hhead⟩
  case returned => cases hstep
  case popFetchAdd =>
    obtain ⟨rfl, rfl, rfl⟩ := by simpa using hstep
    exact trivial
  case doPopExchange tail =>
    split_ifs at hstep with hne <;> obtain ⟨rfl, rfl, rfl⟩ := by simpa using hstep
    · exact hne
    · exact trivial
    · exact trivial
  all_goals
    split_ifs at hstep <;> obtain ⟨rfl, rfl, rfl⟩ := by simpa using hstep
  all_goals first | exact trivial | exact hf | exact hf.1 | exact ⟨hf.1, _, le_rfl, hhead⟩

theorem cargo_account (h : Effect (inactiveEntriesParams C) t.queue f ev q f')
    (hf : f.Legal (inactiveEntriesParams C)) (hnot : f' ≠ .returned .refused) :
    q.contents + cargo f' = t.queue.contents + cargo f := by
  cases h with
  | refusePush | refusePop => exact absurd rfl hnot
  | stored e k h => rw [Queue.contents_store _ h hf]; exact add_zero _
  | taken e k h hne => rw [← Queue.contents_take _ h hne]; exact (add_zero _).symm
  | _ => rfl

theorem draw_account (h : Effect (inactiveEntriesParams C) t.queue f ev q f')
    (hnot : f' ≠ .returned .refused) :
    (t.record q ev).popTickets + undrawn f' = t.popTickets + undrawn f := by
  cases h with
  | refusePush | refusePop => exact absurd rfl hnot
  | _ => rfl

end Step

section Pool
variable [Fintype ι] {s : State ι (Container C) Holder}

structure Pooled (s : State ι (Container C) Holder) : Prop where
  sound : s.shared.mInactiveEntries.Sound
  pushes : s.shared.mInactiveEntries.pushTickets =
    s.shared.mInactiveEntries.stored.length + ∑ j, (s.locals j).toStore
  pops : s.shared.mInactiveEntries.popTickets =
    s.shared.mInactiveEntries.taken.length + ∑ j, (s.locals j).toTake
  draws : s.shared.acquires = s.shared.mInactiveEntries.popTickets + ∑ j, (s.locals j).toDraw
  conserved : (entries C : Multiset RawPtr) =
    s.shared.mInactiveEntries.queue.contents + ∑ j, (s.locals j).holdings
  fits : ∀ j, ∀ pc ∈ (s.locals j).call, Fits s.shared.mInactiveEntries.pushTickets pc

theorem pooled_newContainer :
    Pooled (newContainer (constructed C C.size) : State ι (Container C) Holder) := by
  have hf := filled_constructed (le_refl C.size)
  have hidle : (⟨[], none⟩ : Holder).holdings = 0 := rfl
  refine ⟨hf.sound, ?_, ?_, ?_, ?_, nofun⟩
  · simp [newContainer, hf.pushes, hf.stored, Holder.toStore, Holder.phase?]
  · simp [newContainer, hf.pops, hf.taken, Holder.toTake, Holder.phase?]
  · simp [newContainer, hf.pops, Holder.toDraw, Holder.phase?]
  · have hbalance := hf.sound.balance
    rw [hf.stored, hf.taken, Multiset.coe_nil, zero_add] at hbalance
    simp only [newContainer, hidle, Finset.sum_const_zero, add_zero, entries, hbalance]

theorem Holder.toStore_le (h : Holder) : h.toStore ≤ h.holdings.card := by
  -- A stored entry or a carried one: a thread has at least what it owes the queue
  rw [Holder.holdings, Multiset.card_add]
  refine le_add_left ?_
  unfold Holder.toStore
  cases h.phase? with
  | none => exact le_rfl
  | some f => cases f <;> first | exact le_rfl | exact Nat.zero_le _

theorem Pooled.room (hp : Pooled s) (hcalls : s.shared.acquires < 2 ^ 31) {i : ι} {e : RawPtr}
    {head : BitVec 32} (hcall : (s.locals i).call = some (.tryPushLoadTail e head)) :
    (BitVec.ofNat 32 (inactiveEntriesParams C).mSize).sle
      (head - s.shared.mInactiveEntries.queue.mTail) = false := by
  obtain ⟨-, h, hle, rfl⟩ := hp.fits i _ hcall
  rw [hp.sound.tail]
  have hsum : ∑ j, (s.locals j).toStore < ∑ j, (s.locals j).holdings.card := by
    refine Finset.sum_lt_sum (fun j _ => (s.locals j).toStore_le) ⟨i, Finset.mem_univ i, ?_⟩
    simp [Holder.toStore, Holder.holdings, Holder.phase?, hcall, Pc.phase, Phase.toStore, cargo]
  have hentries := congrArg Multiset.card hp.conserved
  have hbalance := congrArg Multiset.card hp.sound.balance
  simp only [Multiset.card_add, Multiset.card_sum, Multiset.coe_card] at hentries hbalance
  have hlen : (entries C).length = C.size := by simp [entries]
  have hpushes := hp.pushes
  have hpops := hp.pops
  have hdraws := hp.draws
  have hsize : C.size ≤ (inactiveEntriesParams C).mSize := (inactiveEntriesParams C).le_mSize
  exact sle_sub_eq_false ((inactiveEntriesParams C).mSize_le C.size_le) (by omega) (by omega)

structure Balanced (c : Container C) (h : Holder) (c' : Container C) (h' : Holder) : Prop where
  pushes : c'.mInactiveEntries.pushTickets + (c.mInactiveEntries.stored.length + h.toStore) =
    c.mInactiveEntries.pushTickets + (c'.mInactiveEntries.stored.length + h'.toStore)
  pops : c'.mInactiveEntries.popTickets + (c.mInactiveEntries.taken.length + h.toTake) =
    c.mInactiveEntries.popTickets + (c'.mInactiveEntries.taken.length + h'.toTake)
  draws : c'.acquires + (c.mInactiveEntries.popTickets + h.toDraw) =
    c.acquires + (c'.mInactiveEntries.popTickets + h'.toDraw)
  conserved : c'.mInactiveEntries.queue.contents + h'.holdings =
    c.mInactiveEntries.queue.contents + h.holdings
  sound : c'.mInactiveEntries.Sound
  fits : ∀ pc ∈ h'.call, Fits c'.mInactiveEntries.pushTickets pc
  pushes_le : c.mInactiveEntries.pushTickets ≤ c'.mInactiveEntries.pushTickets

theorem Balanced.of_boundary {c c' : Container C} {h h' : Holder}
    (hqueue : c'.mInactiveEntries = c.mInactiveEntries) (hsound : c.mInactiveEntries.Sound)
    (howes : h'.toStore = h.toStore ∧ h'.toTake = h.toTake)
    (hdraw : c'.acquires + h.toDraw = c.acquires + h'.toDraw)
    (hholds : h'.holdings = h.holdings)
    (hfits : ∀ pc ∈ h'.call, Fits c.mInactiveEntries.pushTickets pc) : Balanced c h c' h' := by
  refine ⟨?_, ?_, ?_, ?_, ?_, ?_, ?_⟩ <;> rw [hqueue]
  · rw [howes.1]
  · rw [howes.2]
  · omega
  · rw [hholds]
  · exact hsound
  · exact hfits

theorem Pooled.balanced (hp : Pooled s) (hcalls : s.shared.acquires < 2 ^ 31) {i : ι}
    {c' : Container C} {h' : Holder} (hm : Move C s.shared (s.locals i) c' h') :
    Balanced s.shared (s.locals i) c' h' := by
  have hfits := hp.fits i
  cases hm with
  | acquire hcall =>
    rw [Holder.eq_mk hcall]
    refine .of_boundary rfl hp.sound ⟨rfl, rfl⟩ rfl rfl ?_
    rintro _ ⟨⟩
    exact trivial
  | @release entry hcall hheld =>
    rw [Holder.eq_mk hcall]
    refine .of_boundary rfl hp.sound ⟨rfl, rfl⟩ rfl ?_ ?_
    · -- the entry leaves the list of those held and becomes the cargo of the call
      have hperm := (List.perm_cons_erase hheld).map some
      rw [Holder.holdings_carrying rfl, Holder.holdings_idle, Holder.holdings_idle]
      exact Multiset.coe_eq_coe.mpr hperm.symm
    · rintro _ ⟨⟩
      exact Option.some_ne_none _
  | @acquired entry hcall =>
    rw [Holder.eq_mk hcall]
    refine .of_boundary rfl hp.sound ⟨rfl, rfl⟩ rfl (Holder.holdings_carrying rfl _).symm ?_
    rintro _ ⟨⟩
  | @finished ret hcall hret =>
    obtain rfl : ret = .pushed := by
      have hf := hfits _ hcall
      cases ret with
      | pushed => rfl
      | popped e =>
        obtain ⟨entry, rfl⟩ := Option.ne_none_iff_exists'.mp hf
        exact absurd rfl (hret entry)
      | _ => exact hf.elim
    rw [Holder.eq_mk hcall]
    refine .of_boundary rfl hp.sound ⟨rfl, rfl⟩ rfl rfl ?_
    rintro _ ⟨⟩
  | @accessed choice pc pc' q ev hcall hstep =>
    have heff := step_effect hstep
    have hf := hfits _ hcall
    have hf' := hf.step hstep hp.sound.head fun e head hpc => hp.room hcalls (hpc ▸ hcall)
    have hnot : pc'.phase ≠ .returned .refused := fun he => by
      cases pc' <;> simp only [Pc.phase, reduceCtorEq, Phase.returned.injEq] at he
      subst he
      exact hf'
    have hphase : (s.locals i).phase? = some pc.phase := by rw [Holder.phase?, hcall]; rfl
    refine ⟨?_, ?_, ?_, ?_, heff.sound hf.legal hp.sound, ?_, ?_⟩
    · rw [Holder.toStore, hphase]
      exact heff.push_account
    · rw [Holder.toTake, hphase]
      exact heff.pop_account
    · rw [Holder.toDraw, hphase]
      exact congrArg (s.shared.acquires + ·) (draw_account heff hnot).symm
    · rw [Holder.holdings, Holder.holdings, hphase]
      change (s.shared.mInactiveEntries.record q ev).queue.contents + (_ + cargo pc'.phase) =
        _ + (_ + cargo pc.phase)
      rw [Traced.record_queue, add_left_comm, cargo_account heff hf.legal hnot, add_left_comm]
    · rintro _ ⟨⟩
      exact hf'
    · cases ev <;> first | exact le_rfl | exact Nat.le_succ _

variable [DecidableEq ι]

theorem Pooled.move (hp : Pooled s) (hcalls : s.shared.acquires < 2 ^ 31) {i : ι}
    {c' : Container C} {h' : Holder} (hm : Move C s.shared (s.locals i) c' h') :
    Pooled ⟨c', Function.update s.locals i h'⟩ := by
  have hb := hp.balanced hcalls hm
  refine ⟨hb.sound, balance_update (g := Holder.toStore) hp.pushes hb.pushes,
    balance_update (g := Holder.toTake) hp.pops hb.pops,
    balance_update (g := Holder.toDraw) hp.draws hb.draws,
    balance_update (g := Holder.holdings) hp.conserved (by rw [hb.conserved]), ?_⟩
  exact forall_update (J := fun _ (h : Holder) => ∀ pc ∈ h.call, Fits _ pc)
    (K := fun _ (h : Holder) => ∀ pc ∈ h.call, Fits _ pc) hp.fits hb.fits
    fun _ _ hk pc hpc => (hk pc hpc).mono hb.pushes_le

theorem pooled_of_run (h : Run (container C) anyStep (newContainer (constructed C C.size)) s)
    (hcalls : s.shared.acquires < 2 ^ 31) : Pooled s := by
  refine h.invariant (I := fun s => s.shared.acquires < 2 ^ 31 → Pooled s)
    (fun _ => pooled_newContainer) ?_ hcalls
  rintro s i a c' h' hp - hP hcalls'
  have hm := container_move hP
  have hle : s.shared.acquires ≤ c'.acquires := by
    cases hm <;> first | exact le_rfl | exact Nat.le_succ _
  have hcalls := hle.trans_lt hcalls'
  exact (hp hcalls).move hcalls hm

end Pool

section Owned
variable [Fintype ι] {s : State ι (Container C) Holder}

theorem Pooled.size (hp : Pooled s) (hidle : ∀ j, (s.locals j).call = none) :
    (ConcurrentContainer.size C s.shared.mInactiveEntries.queue).toNat =
      ∑ j, (s.locals j).held.length := by
  have hphase : ∀ j, (s.locals j).phase? = none := fun j => by rw [Holder.phase?, hidle]; rfl
  have hpush := hp.pushes
  have hpop := hp.pops
  rw [Finset.sum_eq_zero fun j _ => by rw [Holder.toStore, hphase]; rfl] at hpush
  rw [Finset.sum_eq_zero fun j _ => by rw [Holder.toTake, hphase]; rfl] at hpop
  have hsize := hp.sound.sizeOf_toNat C.size_le hpush hpop
  have hcard := congrArg Multiset.card hp.conserved
  have hheld : ∀ j, (s.locals j).holdings.card = (s.locals j).held.length := fun j => by
    simp [Holder.holdings, hphase]
  simp only [Multiset.card_add, Multiset.card_sum, Multiset.coe_card, hheld, entries,
    List.length_map, List.length_range] at hcard
  have hle := C.size_le
  rw [ConcurrentContainer.size, BitVec.toNat_sub, BitVec.toNat_ofNat, hsize]
  omega

/-- Exclusive ownership: every entry is in exactly one place, a free slot, a holder's hands or
a call's; no release is refused; at rest `size` counts the entries held. -/
structure Owned (s : State ι (Container C) Holder) : Prop where
  conserved : (entries C : Multiset RawPtr) =
    s.shared.mInactiveEntries.queue.contents + ∑ j, (s.locals j).holdings
  once : (s.shared.mInactiveEntries.queue.contents + ∑ j, (s.locals j).holdings).Nodup
  exclusive : ∀ i j, i ≠ j → ∀ e ∈ (s.locals i).held, e ∉ (s.locals j).held
  accepted : ∀ j, (s.locals j).call ≠ some (.returned .refused)
  size : (∀ j, (s.locals j).call = none) →
    (size C s.shared.mInactiveEntries.queue).toNat = ∑ j, (s.locals j).held.length

variable [DecidableEq ι]

theorem disjoint_of_nodup {f : ι → Multiset RawPtr} (h : (∑ j, f j).Nodup) {i j : ι} (hij : i ≠ j) :
    Disjoint (f i) (f j) := by
  have hle : ∑ k ∈ {i, j}, f k ≤ ∑ k, f k :=
    Finset.sum_le_sum_of_subset (Finset.subset_univ _)
  rw [Finset.sum_pair hij] at hle
  exact (Multiset.nodup_add.mp (Multiset.nodup_of_le hle h)).2.2

theorem Holder.mem_holdings {h : Holder} {e : Entry} (he : e ∈ h.held) : some e ∈ h.holdings :=
  Multiset.mem_add.mpr (.inl (List.mem_map_of_mem he))

theorem owned_of_run (hsize : C.size < 2 ^ 26)
    (h : Run (container C) anyStep (newContainer (constructed C C.size)) s)
    (hcalls : s.shared.acquires + s.shared.releases < 2 ^ 31) : Owned s := by
  have hp := pooled_of_run h (by omega)
  have hnodup : (entries C : Multiset RawPtr).Nodup := nodup_entries hsize
  rw [hp.conserved] at hnodup
  refine ⟨hp.conserved, hnodup, fun i j hij e hi hj => ?_, fun j hcall => ?_, hp.size⟩
  · have hdisj := disjoint_of_nodup (Multiset.nodup_add.mp hnodup).2.1 hij
    exact Multiset.disjoint_left.mp hdisj (Holder.mem_holdings hi) (Holder.mem_holdings hj)
  · exact hp.fits j _ hcall

/-- A container is constructed inside its block, and its entries are owned exclusively whatever the
threads do in fewer than `2 ^ 31` calls, exactly when its length in bytes fits into a `uint32_t`. -/
theorem owned_iff : (∃ q, construct C = some q ∧ ∀ s : State ι (Container C) Holder,
    Run (container C) anyStep (newContainer q) s →
      s.shared.acquires + s.shared.releases < 2 ^ 31 → Owned s) ↔ C.size < 2 ^ 26 := by
  constructor
  · rintro ⟨q, hconstruct, -⟩
    by_contra hlt
    rw [construct_eq_none (not_lt.mp hlt)] at hconstruct
    cases hconstruct
  · exact fun hsize => ⟨_, construct_eq_some hsize, fun s => owned_of_run hsize⟩

end Owned

end Invariant

section Overgrown

structure Drained (C : Capacity) (n : ℕ) (s : State (Fin 2) (Container C) Holder) : Prop where
  run : Run (container C) anyStep (newContainer (constructed C C.size)) s
  idle : ∀ j, (s.locals j).call = none
  acquires : s.shared.acquires = n
  releases : s.shared.releases = 0
  tail : s.shared.mInactiveEntries.queue.mTail = BitVec.ofNat 32 n
  slots : ∀ c < (inactiveEntriesParams C).mSize, n ≤ c → s.shared.mInactiveEntries.queue.mQueue
    ((inactiveEntriesParams C).slot (BitVec.ofNat 32 c)) =
      if c < C.size then some (entry c) else none

theorem drained_newContainer : Drained C 0 (newContainer (constructed C C.size)) := by
  have hf := filled_constructed (le_refl C.size)
  refine ⟨.start, fun _ => rfl, rfl, rfl, ?_, fun c hc _ => hf.slots c hc⟩
  rw [← hf.pops]
  exact hf.sound.tail

def acquireSteps (i : Fin 2) : List (Fin 2 × Action) :=
  [(i, .acquire), (i, .access false), (i, .access false), (i, .access false)]

theorem exec_acquireSteps {i : Fin 2} {e : Entry} {s : State (Fin 2) (Container C) Holder}
    (hidle : (s.locals i).call = none) (hslot : s.shared.mInactiveEntries.queue.mQueue
      ((inactiveEntriesParams C).slot s.shared.mInactiveEntries.queue.mTail) = some e) :
    let q := s.shared.mInactiveEntries
    exec (container C) anyStep (acquireSteps i) s = some
      ⟨⟨⟨⟨q.queue.mHead, q.queue.mTail + 1,
            Function.update q.queue.mQueue ((inactiveEntriesParams C).slot q.queue.mTail) none⟩,
            q.pushTickets, q.popTickets + 1, q.stored, q.taken ++ [some e]⟩,
          s.shared.acquires + 1, s.shared.releases⟩,
        Function.update s.locals i ⟨e :: (s.locals i).held, none⟩⟩ := by
  intro q
  have hcalled : container C i .acquire s.shared (s.locals i) =
      some ({ s.shared with acquires := s.shared.acquires + 1 },
        ⟨(s.locals i).held, some .popFetchAdd⟩) := by simp only [container, hidle, Call.start]
  have htaken := @step_takes _ _ (inactiveEntriesParams C) false
    { q.queue with mTail := q.queue.mTail + 1 } _ _ hslot (Option.some_ne_none e)
  rw [acquireSteps, exec_cons hcalled, exec_cons_update rfl,
    exec_cons_update (congrArg (Option.map _) htaken), exec_cons_update rfl]
  rfl

theorem Drained.acquire {n : ℕ} {s : State (Fin 2) (Container C) Holder} (h : Drained C n s)
    (hn : n < C.size) (i : Fin 2) : ∃ s', Drained C (n + 1) s' ∧
      (s'.locals i).held = entry n :: (s.locals i).held ∧
      ∀ j ≠ i, s'.locals j = s.locals j := by
  have hsize : C.size ≤ (inactiveEntriesParams C).mSize := (inactiveEntriesParams C).le_mSize
  have hslot := h.slots n (by omega) le_rfl
  rw [if_pos hn, ← h.tail] at hslot
  have hidle := h.idle i
  refine ⟨_, ⟨exec_run (exec_acquireSteps (h.idle i) hslot) h.run, ?_, ?_, h.releases, ?_, ?_⟩,
    ?_, ?_⟩
  · intro j
    by_cases hj : j = i <;> simp [hj, h.idle j]
  · exact congrArg (· + 1) h.acquires
  · simp only [h.tail]
    exact (BitVec.ofNat_add n 1).symm
  · intro c hc hle
    simp only [h.tail]
    rw [Function.update_of_ne (slot_ne hc (by omega) (by omega)), h.slots c hc (by omega)]
  · simp
  · intro j hj
    simp [hj]

theorem drained {n : ℕ} (hn : n < C.size) :
    ∃ s, Drained C (n + 1) s ∧ (s.locals 0).held = [entry 0] := by
  induction n with
  | zero =>
    obtain ⟨s, hs, hheld, -⟩ := drained_newContainer.acquire hn 0
    exact ⟨s, hs, hheld⟩
  | succ n ih =>
    obtain ⟨s, hs, hheld⟩ := ih (by omega)
    obtain ⟨s', hs', -, hother⟩ := hs.acquire hn 1
    exact ⟨s', hs', by rw [hother 0 Fin.zero_ne_one, hheld]⟩

def overgrown : Capacity := ⟨2 ^ 26 + 1, by decide, by decide⟩

/-- With `2 ^ 26 + 1` entries the block has the length of one. Where the entries are written all the
same, the first and the last one acquired are one entry, held twice. -/
theorem held_by_two_threads : construct overgrown = none ∧
    ∃ s : State (Fin 2) (Container overgrown) Holder,
      Run (container overgrown) anyStep (newContainer (constructed overgrown overgrown.size)) s ∧
        s.shared.acquires + s.shared.releases < 2 ^ 31 ∧
        ∃ e : Entry, e ∈ (s.locals 0).held ∧ e ∈ (s.locals 1).held := by
  have hsize : overgrown.size = 2 ^ 26 + 1 := rfl
  obtain ⟨s, hs, hfirst⟩ := @drained overgrown (2 ^ 26 - 1) (by omega)
  obtain ⟨s', hs', hlast, hother⟩ := hs.acquire (by omega) 1
  have halias : entry (2 ^ 26 - 1 + 1) = entry 0 := by decide
  refine ⟨construct_eq_none (by omega), s', hs'.run, ?_, entry 0, ?_, ?_⟩
  · rw [hs'.acquires, hs'.releases]
    omega
  · rw [hother 0 Fin.zero_ne_one, hfirst]
    exact List.mem_singleton_self _
  · rw [hlast, halias]
    exact List.mem_cons_self

end Overgrown

end ItcPlatform.ConcurrentContainer
