import ItcPlatform.LockFreeQueue.Index

/-! The slots and cache lines of consecutive tickets. The counters wrap at `2 ^ 32`, which a
capacity that is no power of two does not divide. -/

namespace ItcPlatform.LockFreeQueue

namespace Params
variable {T : Type*} (P : Params T)

/-- `mSize` consecutive tickets from `t` on meet as many slots of the array. -/
def SlotsApart (t : BitVec 32) : Prop :=
  let index k :=
    (remapIndex P.shuffleBits ((t + BitVec.ofNat 32 k) % BitVec.ofNat 32 P.mSize)).toNat
  (∀ k < P.mSize, index k < P.mSize) ∧ Set.InjOn index (Set.Iio P.mSize)

theorem slot_add_eq_iff (t : BitVec 32) (k k' : ℕ) :
    P.slot (t + BitVec.ofNat 32 k) = P.slot (t + BitVec.ofNat 32 k') ↔
      (t.toNat + k) % 2 ^ 32 % P.mSize = (t.toNat + k') % 2 ^ 32 % P.mSize := by
  simp only [slot_eq_iff, BitVec.toNat_add, BitVec.toNat_ofNat, Nat.add_mod_mod]

theorem slotsApart_iff (t : BitVec 32) :
    P.SlotsApart t ↔ P.mSize ∣ 2 ^ 32 ∨ t.toNat + P.mSize ≤ 2 ^ 32 := by
  rw [← TicketRing.injOn_wrapped_mod_iff P.mSize_lt.le t.isLt]
  have hiff : ∀ k k', (P.slot (t + BitVec.ofNat 32 k) : ℕ) = P.slot (t + BitVec.ofNat 32 k') ↔
      (t.toNat + k) % 2 ^ 32 % P.mSize = (t.toNat + k') % 2 ^ 32 % P.mSize := fun k k' => by
    rw [Fin.val_inj, slot_add_eq_iff]
  constructor
  · rintro ⟨_, hinj⟩ k hk k' hk' h
    exact hinj hk hk' ((hiff k k').mpr h)
  · intro hinj
    exact ⟨fun k _ => (P.slot _).isLt, fun k hk k' hk' h => hinj hk hk' ((hiff k k').mp h)⟩

def unrounded : Params (BitVec 8) where
  size := 5
  nil := 0#8
  minimizeContention := false
  maximizeThroughput := true
  sizeofElem := 1
  size_pos := by decide
  size_lt := by decide
  size_le := by decide

/-- The last ticket before the wrap and the first one after it share slot 0. -/
theorem not_slotsApart_unrounded : ¬ unrounded.SlotsApart (BitVec.ofNat 32 (2 ^ 32 - 1)) := by
  rintro ⟨_, hinj⟩
  have h := hinj (show 0 < 5 by decide) (show 1 < 5 by decide) (by decide)
  cases h

end Params

section CacheLines
variable {bits : ℕ} {index : BitVec 32}

theorem remapIndex_div_mod (h : 2 * bits ≤ 32) :
    (remapIndex bits index).toNat / 2 ^ bits % 2 ^ bits = index.toNat % 2 ^ bits := by
  apply Nat.eq_of_testBit_eq
  intro j
  rw [Nat.testBit_mod_two_pow, Nat.testBit_mod_two_pow, Nat.testBit_div_two_pow]
  by_cases hj : j < bits
  · rw [BitVec.testBit_toNat, remapIndex_getLsbD h (by omega), if_neg (by omega),
      if_pos (by omega), Nat.add_sub_cancel, ← BitVec.testBit_toNat]
  · simp [hj]

theorem remapIndex_cacheLines {n : ℕ} (hn : ∃ k ≤ 31, n = 2 ^ k) (hbits : 1 ≤ bits)
    (hle : 2 ^ (2 * bits) ≤ n) :
    (∀ i : BitVec 32, i.toNat < n →
      (remapIndex bits i).toNat < n ∧ remapIndex bits (remapIndex bits i) = i) ∧
    ∀ t : BitVec 32, Set.InjOn (fun j =>
      (remapIndex bits ((t + BitVec.ofNat 32 j) % BitVec.ofNat 32 n)).toNat / 2 ^ bits)
        (Set.Iio (2 ^ bits)) := by
  obtain ⟨k, hk, rfl⟩ := hn
  have hbk : 2 * bits ≤ k := (Nat.pow_le_pow_iff_right (by decide)).mp hle
  refine ⟨fun i hi => ⟨remapIndex_lt hbk (by omega) hi, remapIndex_remapIndex (by omega)⟩,
    fun t j hj j' hj' heq => ?_⟩
  have hlow : ∀ i, (remapIndex bits ((t + BitVec.ofNat 32 i) % BitVec.ofNat 32 (2 ^ k))).toNat /
      2 ^ bits % 2 ^ bits = (t.toNat + i) % 2 ^ bits := fun i => by
    have hn : (BitVec.ofNat 32 (2 ^ k)).toNat = 2 ^ k := by
      rw [BitVec.toNat_ofNat]
      exact Nat.mod_eq_of_lt (Nat.pow_lt_pow_right (by decide) (by omega))
    rw [remapIndex_div_mod (by omega), BitVec.toNat_umod, hn,
      Nat.mod_mod_of_dvd _ (pow_dvd_pow 2 (by omega)), BitVec.toNat_add, BitVec.toNat_ofNat,
      Nat.add_mod_mod, Nat.mod_mod_of_dvd _ (pow_dvd_pow 2 (by omega))]
  have hmod : (t.toNat + j) % 2 ^ bits = (t.toNat + j') % 2 ^ bits := by
    rw [← hlow j, ← hlow j']
    exact congrArg (· % 2 ^ bits) heq
  have := Nat.ModEq.add_left_cancel' t.toNat hmod
  rwa [Nat.ModEq, Nat.mod_eq_of_lt hj, Nat.mod_eq_of_lt hj'] at this

theorem remapIndex_cacheLines_sixty_four :
    (∃ k ≤ 31, 64 = 2 ^ k) ∧ 2 ^ (2 * 3) ≤ 64 ∧
    (∀ i : BitVec 32, i.toNat < 64 →
      (remapIndex 3 i).toNat < 64 ∧ remapIndex 3 (remapIndex 3 i) = i) ∧
    ∀ t : BitVec 32, Set.InjOn (fun j =>
      (remapIndex 3 ((t + BitVec.ofNat 32 j) % BitVec.ofNat 32 64)).toNat / 2 ^ 3)
        (Set.Iio (2 ^ 3)) :=
  ⟨⟨6, by decide, rfl⟩, by decide,
    remapIndex_cacheLines ⟨6, by decide, rfl⟩ (by decide) (by decide)⟩

end CacheLines

end ItcPlatform.LockFreeQueue
