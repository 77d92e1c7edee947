import Mathlib.Data.Nat.Size
import Mathlib.Data.Fintype.EquivFin
import Mathlib.Data.Int.ModEq
import Mathlib.Order.Bounds.Basic
import ItcPlatform.Lib.TicketRing

/-! The compile-time size and index arithmetic of the queue: capacity rounding, the index
shuffle against false sharing, and the slot a 32-bit ticket addresses. -/

namespace ItcPlatform.LockFreeQueue

def cacheLineSize : ℕ := 64

def getCacheLineIndexBits (elementsPerCacheLine : ℕ) : ℕ :=
  match elementsPerCacheLine with
  | 256 => 8
  | 128 => 7
  | 64 => 6
  | 32 => 5
  | 16 => 4
  | 8 => 3
  | 4 => 2
  | 2 => 1
  | _ => 0

def getIndexShuffleBits (minimizeContention : Bool) (size elementsPerCacheLine : ℕ) : ℕ :=
  let bits := getCacheLineIndexBits elementsPerCacheLine
  let minSize := ((1 : BitVec 32) <<< (bits * 2)).toNat
  if minimizeContention then (if size < minSize then 0 else bits) else 0

def remapIndex (bits : ℕ) (index : BitVec 32) : BitVec 32 :=
  if bits = 0 then index else
    let mixMask : BitVec 32 := (1 <<< bits) - 1
    let mix := (index ^^^ (index >>> bits)) &&& mixMask
    index ^^^ mix ^^^ (mix <<< bits)

section Rounding
variable {w : ℕ}

def decrement (x : BitVec w) : BitVec w := x - 1

def increment (x : BitVec w) : BitVec w := x + 1

def orEqual (x : BitVec w) : List ℕ → BitVec w
  | [] => x
  | u :: rest => orEqual (x ||| x >>> u) rest

def roundUpToPowerOf2 (a : BitVec 32) : BitVec 32 :=
  increment (orEqual (decrement a) [1, 2, 4, 8, 16])

def roundUpToPowerOf2UInt64 (a : BitVec 64) : BitVec 64 :=
  increment (orEqual (decrement a) [1, 2, 4, 8, 16, 32])

def Doubling : ℕ → List ℕ → Prop
  | _, [] => True
  | n, u :: rest => u = n ∧ Doubling (2 * n) rest

theorem orEqual_getLsbD {x y : BitVec w} {n : ℕ} {shifts : List ℕ} (hs : Doubling n shifts)
    (h : ∀ j, y.getLsbD j ↔ ∃ k < n, x.getLsbD (j + k)) (j : ℕ) :
    (orEqual y shifts).getLsbD j ↔ ∃ k < n * 2 ^ shifts.length, x.getLsbD (j + k) := by
  induction shifts generalizing n y with
  | nil => simpa [orEqual] using h j
  | cons u rest ih =>
    obtain ⟨rfl, hrest⟩ := hs
    have hnext : ∀ j, (y ||| y >>> u).getLsbD j ↔ ∃ k < 2 * u, x.getLsbD (j + k) := by
      intro j
      simp only [BitVec.getLsbD_or, BitVec.getLsbD_ushiftRight, Bool.or_eq_true, h]
      constructor
      · rintro (⟨k, hk, hx⟩ | ⟨k, hk, hx⟩)
        · exact ⟨k, by omega, hx⟩
        · exact ⟨u + k, by omega, by rwa [show j + (u + k) = u + j + k by omega]⟩
      · rintro ⟨k, hk, hx⟩
        by_cases hlt : k < u
        · exact .inl ⟨k, hlt, hx⟩
        · exact .inr ⟨k - u, by omega, by rwa [show u + j + (k - u) = j + k by omega]⟩
    have := ih hrest hnext
    rwa [orEqual, List.length_cons, Nat.pow_succ', ← Nat.mul_assoc, Nat.mul_comm u 2]

theorem orEqual_toNat {x : BitVec w} {shifts : List ℕ} (hs : Doubling 1 shifts)
    (hw : w ≤ 2 ^ shifts.length) : (orEqual x shifts).toNat = 2 ^ Nat.size x.toNat - 1 := by
  -- once the shifts cover the word, every bit below the leading one is set
  apply Nat.eq_of_testBit_eq
  intro j
  rw [Nat.testBit_two_pow_sub_one, Bool.eq_iff_iff, decide_eq_true_iff, Nat.lt_size]
  have h := orEqual_getLsbD (x := x) (y := x) hs (fun j => by simp) j
  rw [← BitVec.testBit_toNat] at h
  rw [h, Nat.one_mul]
  constructor
  · rintro ⟨k, _, hx⟩
    rw [← BitVec.testBit_toNat] at hx
    exact (Nat.pow_le_pow_right two_pos (Nat.le_add_right j k)).trans (Nat.ge_two_pow_of_testBit hx)
  · intro hle
    obtain ⟨i, hi, hx⟩ := Nat.exists_ge_and_testBit_of_ge_two_pow hle
    rw [BitVec.testBit_toNat] at hx
    have := BitVec.lt_of_getLsbD hx
    exact ⟨i - j, by omega, by rwa [show j + (i - j) = i by omega]⟩

theorem one_toNat (h : 1 < 2 ^ w) : (1 : BitVec w).toNat = 1 :=
  (BitVec.toNat_ofNat 1 w).trans (Nat.mod_eq_of_lt h)

theorem decrement_toNat {a : BitVec w} (h : 1 ≤ a.toNat) :
    (decrement a).toNat = a.toNat - 1 := by
  have hone := one_toNat (h.trans_lt a.isLt)
  rw [decrement, BitVec.toNat_sub_of_le (by rwa [BitVec.le_def, hone]), hone]

theorem increment_orEqual_decrement_toNat {a : BitVec w} {shifts : List ℕ}
    (hs : Doubling 1 shifts) (hw : w ≤ 2 ^ shifts.length) (h : 1 ≤ a.toNat)
    (h' : a.toNat ≤ 2 ^ (w - 1)) :
    (increment (orEqual (decrement a) shifts)).toNat = 2 ^ Nat.size (a.toNat - 1) := by
  have hlt := a.isLt
  have hpos : 0 < w := Nat.pos_of_ne_zero fun hw0 => by
    subst hw0
    omega
  have hsize : Nat.size (a.toNat - 1) ≤ w - 1 := Nat.size_le.mpr (by omega)
  have hpow : 2 ^ Nat.size (a.toNat - 1) < 2 ^ w :=
    Nat.pow_lt_pow_right (by decide) (by omega)
  have hone := one_toNat (h.trans_lt hlt)
  rw [increment, BitVec.toNat_add, orEqual_toNat hs hw, decrement_toNat h, hone,
    Nat.sub_add_cancel (Nat.two_pow_pos _), Nat.mod_eq_of_lt hpow]

theorem roundUpToPowerOf2_toNat {a : BitVec 32} (h : 1 ≤ a.toNat) (h' : a.toNat ≤ 2 ^ 31) :
    (roundUpToPowerOf2 a).toNat = 2 ^ Nat.size (a.toNat - 1) :=
  increment_orEqual_decrement_toNat (by simp [Doubling]) (by decide) h h'

theorem roundUpToPowerOf2UInt64_toNat {a : BitVec 64} (h : 1 ≤ a.toNat) (h' : a.toNat ≤ 2 ^ 63) :
    (roundUpToPowerOf2UInt64 a).toNat = 2 ^ Nat.size (a.toNat - 1) :=
  increment_orEqual_decrement_toNat (by simp [Doubling]) (by decide) h h'

theorem isLeast_two_pow_size {n : ℕ} (h : 1 ≤ n) :
    IsLeast {m | (∃ k, m = 2 ^ k) ∧ n ≤ m} (2 ^ Nat.size (n - 1)) := by
  have hlt := Nat.lt_size_self (n - 1)
  refine ⟨⟨⟨_, rfl⟩, by omega⟩, ?_⟩
  rintro _ ⟨⟨k, rfl⟩, hle⟩
  exact Nat.pow_le_pow_right two_pos (Nat.size_le.mpr (by omega))

theorem roundUpToPowerOf2_isLeast :
    (∀ a : BitVec 32, 1 ≤ a.toNat → a.toNat ≤ 2 ^ 31 →
      IsLeast {m | (∃ k, m = 2 ^ k) ∧ a.toNat ≤ m} (roundUpToPowerOf2 a).toNat) ∧
    ∀ a : BitVec 64, 1 ≤ a.toNat → a.toNat ≤ 2 ^ 63 →
      IsLeast {m | (∃ k, m = 2 ^ k) ∧ a.toNat ≤ m} (roundUpToPowerOf2UInt64 a).toNat := by
  constructor
  · intro a h h'
    rw [roundUpToPowerOf2_toNat h h']
    exact isLeast_two_pow_size h
  · intro a h h'
    rw [roundUpToPowerOf2UInt64_toNat h h']
    exact isLeast_two_pow_size h

theorem roundUpToPowerOf2_isLeast_five :
    (1 ≤ (5#32).toNat ∧ (5#32).toNat ≤ 2 ^ 31 ∧ (roundUpToPowerOf2 5#32).toNat = 8 ∧
      IsLeast {m | (∃ k, m = 2 ^ k) ∧ (5#32).toNat ≤ m} (roundUpToPowerOf2 5#32).toNat) ∧
    1 ≤ (BitVec.ofNat 64 (2 ^ 63)).toNat ∧ (BitVec.ofNat 64 (2 ^ 63)).toNat ≤ 2 ^ 63 ∧
      (roundUpToPowerOf2UInt64 (BitVec.ofNat 64 (2 ^ 63))).toNat = 2 ^ 63 ∧
      IsLeast {m | (∃ k, m = 2 ^ k) ∧ (BitVec.ofNat 64 (2 ^ 63)).toNat ≤ m}
        (roundUpToPowerOf2UInt64 (BitVec.ofNat 64 (2 ^ 63))).toNat :=
  ⟨⟨by decide, by decide, by decide, roundUpToPowerOf2_isLeast.1 _ (by decide) (by decide)⟩,
    by decide, by decide, by decide, roundUpToPowerOf2_isLeast.2 _ (by decide) (by decide)⟩

end Rounding

section Remap
variable {bits : ℕ} {index : BitVec 32}

theorem mixMask_getLsbD (h : bits < 32) (j : ℕ) :
    ((1 <<< bits : BitVec 32) - 1).getLsbD j = decide (j < bits) := by
  have hpow := Nat.pow_lt_pow_right (a := 2) (by decide) h
  have hpos := Nat.two_pow_pos bits
  rw [← BitVec.testBit_toNat, ← Nat.testBit_two_pow_sub_one]
  congr 1
  simp [BitVec.toNat_sub, Nat.shiftLeft_eq]
  omega

theorem remapIndex_getLsbD (h : 2 * bits ≤ 32) {j : ℕ} (hj : j < 32) :
    (remapIndex bits index).getLsbD j =
      if j < bits then index.getLsbD (bits + j)
      else if j < 2 * bits then index.getLsbD (j - bits) else index.getLsbD j := by
  by_cases h0 : bits = 0
  · simp [remapIndex, h0]
  · have hb : bits < 32 := by omega
    simp only [remapIndex, if_neg h0, BitVec.getLsbD_xor, BitVec.getLsbD_and,
      BitVec.getLsbD_ushiftRight, BitVec.getLsbD_shiftLeft, mixMask_getLsbD hb]
    split_ifs with h1 h2
    · simp [h1, show j - bits < bits by omega]
    · have hxor : ∀ a b : Bool, (a ^^ (b ^^ a)) = b := by decide
      simp [h1, hj, show j - bits < bits by omega, show bits + (j - bits) = j by omega, hxor]
    · simp [h1, show ¬ j - bits < bits by omega]

theorem remapIndex_remapIndex (h : 2 * bits ≤ 32) :
    remapIndex bits (remapIndex bits index) = index := by
  apply BitVec.eq_of_getLsbD_eq
  intro j hj
  rw [remapIndex_getLsbD h hj]
  split_ifs with h1 h2
  · rw [remapIndex_getLsbD h (by omega), if_neg (by omega), if_pos (by omega)]
    congr 1
    omega
  · rw [remapIndex_getLsbD h (by omega), if_pos (by omega)]
    congr 1
    omega
  · rw [remapIndex_getLsbD h hj, if_neg h1, if_neg h2]

theorem remapIndex_injective (h : 2 * bits ≤ 32) : Function.Injective (remapIndex bits) :=
  Function.LeftInverse.injective fun _ => remapIndex_remapIndex h

theorem remapIndex_lt {k : ℕ} (h : 2 * bits ≤ k) (hk : k ≤ 32) (hi : index.toNat < 2 ^ k) :
    (remapIndex bits index).toNat < 2 ^ k := by
  apply Nat.lt_pow_two_of_testBit
  intro j hj
  rw [BitVec.testBit_toNat]
  by_cases hlt : j < 32
  · rw [remapIndex_getLsbD (by omega) hlt, if_neg (by omega), if_neg (by omega),
      ← BitVec.testBit_toNat]
    exact Nat.testBit_lt_two_pow (hi.trans_le (Nat.pow_le_pow_right two_pos hj))
  · exact BitVec.getLsbD_of_ge _ _ (by omega)

end Remap

/-- The template arguments of one queue type. `SIZE` is a `uint32_t`, and where it is rounded up
the next power of two must be one as well, or there would be no array of that length. -/
structure Params (T : Type*) where
  size : ℕ
  nil : T
  minimizeContention : Bool
  maximizeThroughput : Bool
  /-- `sizeof(std::atomic<T>)` -/
  sizeofElem : ℕ
  size_pos : 1 ≤ size
  size_lt : size < 2 ^ 32
  size_le : minimizeContention = true → size ≤ 2 ^ 31

namespace Params
variable {T : Type*} (P : Params T)

def mSize : ℕ :=
  if P.minimizeContention then (roundUpToPowerOf2 (BitVec.ofNat 32 P.size)).toNat else P.size

def shuffleBits : ℕ :=
  getIndexShuffleBits P.minimizeContention P.mSize (cacheLineSize / P.sizeofElem)

theorem mSize_eq_two_pow (h : P.minimizeContention = true) :
    P.mSize = 2 ^ Nat.size (P.size - 1) := by
  have hpos := P.size_pos
  have hle := P.size_le h
  have hn : (BitVec.ofNat 32 P.size).toNat = P.size := by
    rw [BitVec.toNat_ofNat]
    exact Nat.mod_eq_of_lt (by omega)
  rw [mSize, if_pos h, roundUpToPowerOf2_toNat (by omega) (by omega), hn]

theorem le_mSize : P.size ≤ P.mSize := by
  cases h : P.minimizeContention with
  | false => simp [mSize, h]
  | true =>
    rw [P.mSize_eq_two_pow h]
    have := Nat.lt_size_self (P.size - 1)
    omega

theorem mSize_pos : 0 < P.mSize := P.size_pos.trans P.le_mSize

theorem mSize_lt : P.mSize < 2 ^ 32 := by
  cases h : P.minimizeContention with
  | false => simpa [mSize, h] using P.size_lt
  | true =>
    have hle := P.size_le h
    rw [P.mSize_eq_two_pow h]
    exact Nat.pow_lt_pow_right (by decide) (Nat.lt_succ_of_le (Nat.size_le.mpr (by omega)))

theorem mSize_le (hsize : P.size ≤ 2 ^ 30) : P.mSize ≤ 2 ^ 30 := by
  have hpos := P.size_pos
  cases h : P.minimizeContention with
  | false => simpa [mSize, h] using hsize
  | true =>
    rw [P.mSize_eq_two_pow h]
    exact Nat.pow_le_pow_right two_pos (Nat.size_le.mpr (by omega))

theorem mSize_isLeast (h : P.minimizeContention = true) :
    IsLeast {n | (∃ k, n = 2 ^ k) ∧ P.size ≤ n} P.mSize := by
  rw [P.mSize_eq_two_pow h]
  exact isLeast_two_pow_size P.size_pos

theorem getCacheLineIndexBits_le (n : ℕ) : getCacheLineIndexBits n ≤ 8 := by
  unfold getCacheLineIndexBits
  split <;> omega

theorem shuffleBits_spec : P.shuffleBits = 0 ∨
    ∃ k, P.mSize = 2 ^ k ∧ 2 * P.shuffleBits ≤ k ∧ k ≤ 31 := by
  -- either nothing is shuffled, or the two swapped fields fit the capacity
  have hpos := P.size_pos
  cases h : P.minimizeContention with
  | false => exact .inl (by simp [shuffleBits, getIndexShuffleBits, h])
  | true =>
    have hle := P.size_le h
    have hbits := getCacheLineIndexBits_le (cacheLineSize / P.sizeofElem)
    set bits := getCacheLineIndexBits (cacheLineSize / P.sizeofElem) with hb
    have hmin : ((1 : BitVec 32) <<< (bits * 2)).toNat = 2 ^ (bits * 2) := by
      have := Nat.pow_le_pow_right two_pos (show bits * 2 ≤ 16 by omega)
      simp [Nat.shiftLeft_eq]
      omega
    have heq : P.shuffleBits = if P.mSize < 2 ^ (bits * 2) then 0 else bits := by
      simp only [shuffleBits, getIndexShuffleBits, h, if_true, ← hb, hmin]
    rw [heq]
    split_ifs with hlt
    · exact .inl rfl
    · refine .inr ⟨_, P.mSize_eq_two_pow h, ?_, Nat.size_le.mpr (by omega)⟩
      rw [P.mSize_eq_two_pow h, Nat.pow_lt_pow_iff_right (by decide)] at hlt
      omega

theorem two_mul_shuffleBits_le : 2 * P.shuffleBits ≤ 32 := by
  rcases P.shuffleBits_spec with h | ⟨k, _, h, hk⟩ <;> omega

theorem umod_mSize_toNat (ticket : BitVec 32) :
    (ticket % BitVec.ofNat 32 P.mSize).toNat = ticket.toNat % P.mSize := by
  rw [BitVec.toNat_umod, BitVec.toNat_ofNat, Nat.mod_eq_of_lt P.mSize_lt]

theorem remapIndex_lt_mSize (ticket : BitVec 32) :
    (remapIndex P.shuffleBits (ticket % BitVec.ofNat 32 P.mSize)).toNat < P.mSize := by
  have hlt := Nat.mod_lt ticket.toNat P.mSize_pos
  rw [← P.umod_mSize_toNat] at hlt
  rcases P.shuffleBits_spec with h | ⟨k, hm, h, hk⟩
  · simpa [h, remapIndex] using hlt
  · rw [hm] at hlt ⊢
    exact remapIndex_lt h (by omega) hlt

def slot (ticket : BitVec 32) : Fin P.mSize :=
  ⟨(remapIndex P.shuffleBits (ticket % BitVec.ofNat 32 P.mSize)).toNat,
    P.remapIndex_lt_mSize ticket⟩

theorem slot_eq_iff {t t' : BitVec 32} :
    P.slot t = P.slot t' ↔ t.toNat % P.mSize = t'.toNat % P.mSize := by
  rw [← umod_mSize_toNat, ← umod_mSize_toNat, slot, slot, Fin.mk.injEq, BitVec.toNat_inj,
    (remapIndex_injective P.two_mul_shuffleBits_le).eq_iff, BitVec.toNat_inj]

def ticketSlot (c : ℕ) : Fin P.mSize := P.slot (BitVec.ofNat 32 c)

theorem mSize_dvd (h : P.minimizeContention = true) : P.mSize ∣ 2 ^ 32 := by
  have hpos := P.size_pos
  have hle := P.size_le h
  rw [P.mSize_eq_two_pow h]
  exact pow_dvd_pow 2 ((Nat.size_le.mpr (show P.size - 1 < 2 ^ 31 by omega)).trans (by decide))

theorem slot_ofNat_eq_iff (h : P.mSize ∣ 2 ^ 32) {c c' : ℕ} :
    P.slot (BitVec.ofNat 32 c) = P.slot (BitVec.ofNat 32 c') ↔ c % P.mSize = c' % P.mSize := by
  rw [slot_eq_iff, BitVec.toNat_ofNat, BitVec.toNat_ofNat, Nat.mod_mod_of_dvd _ h,
    Nat.mod_mod_of_dvd _ h]

def ring (h : P.mSize ∣ 2 ^ 32) : TicketRing (Fin P.mSize) where
  period := P.mSize
  slot c := P.slot (BitVec.ofNat 32 c)
  inj R c hc c' hc' he := by
    have hmod := (P.slot_ofNat_eq_iff h).mp he
    obtain ⟨hc1, hc2⟩ := hc
    obtain ⟨hc1', hc2'⟩ := hc'
    have h1 : (c - R) % P.mSize = (c' - R) % P.mSize :=
      Nat.ModEq.add_right_cancel' R (by rwa [Nat.sub_add_cancel hc1, Nat.sub_add_cancel hc1'])
    rw [Nat.mod_eq_of_lt (by omega), Nat.mod_eq_of_lt (by omega)] at h1
    omega
  surj R s := by
    have hinj : Function.Injective fun k : Fin P.mSize =>
        P.slot (BitVec.ofNat 32 (R + k)) := fun k k' he => by
      have hmod := (P.slot_ofNat_eq_iff h).mp he
      have := Nat.ModEq.add_left_cancel' R hmod
      rw [Nat.ModEq, Nat.mod_eq_of_lt k.isLt, Nat.mod_eq_of_lt k'.isLt] at this
      exact Fin.ext this
    obtain ⟨k, hk⟩ := Finite.surjective_of_injective hinj s
    exact ⟨R + k, ⟨Nat.le_add_right R k, Nat.add_lt_add_left k.isLt R⟩, hk⟩

end Params

end ItcPlatform.LockFreeQueue
