import Mathlib.Algebra.Order.Ring.Int
import Mathlib.Data.Int.Notation

/-! The deadlines of `SyncObject` and the time differences of the mutex traces, in exact
arithmetic: a result that its C type cannot hold is `none`. -/

namespace ItcPlatform.SyncObjects

def long (z : ℤ) : Option ℤ := if -2 ^ 63 ≤ z ∧ z < 2 ^ 63 then some z else none

def unsignedLong (z : ℤ) : Option ℤ := if 0 ≤ z ∧ z < 2 ^ 64 then some z else none

def uint32 (z : ℤ) : Option ℤ := if 0 ≤ z ∧ z < 2 ^ 32 then some z else none

theorem long_eq {z : ℤ} (h : -2 ^ 63 ≤ z) (h' : z < 2 ^ 63) : long z = some z := if_pos ⟨h, h'⟩

theorem unsignedLong_eq {z : ℤ} (h : 0 ≤ z) (h' : z < 2 ^ 64) : unsignedLong z = some z :=
  if_pos ⟨h, h'⟩

theorem uint32_eq {z : ℤ} (h : 0 ≤ z) (h' : z < 2 ^ 32) : uint32 z = some z := if_pos ⟨h, h'⟩

structure Timespec where
  tvSec : ℤ
  tvNsec : ℤ
  deriving DecidableEq

def calculateExpiredDate (now : Timespec) (relativeTimeout : BitVec 32) : Option Timespec := do
  let tvSec ← long (now.tvSec + (relativeTimeout / 1000).toNat)
  let millis ← uint32 ((relativeTimeout % 1000).toNat * 1000000)
  let tvNsec ← long (now.tvNsec + millis)
  if tvNsec ≥ 1000000000 then
    let tvSec ← long (tvSec + 1)
    let tvNsec ← long (tvNsec - 1000000000)
    return ⟨tvSec, tvNsec⟩
  else
    return ⟨tvSec, tvNsec⟩

def getTimeDiffInNanoSec (tStart tEnd : Timespec) : Option ℤ := do
  if tEnd.tvNsec < tStart.tvNsec then
    let sec ← long (tEnd.tvSec - tStart.tvSec)
    let nsec ← long (sec * 1000000000)
    let borrow ← long (tStart.tvNsec - tEnd.tvNsec)
    let diff ← long (nsec - borrow)
    unsignedLong diff
  else
    let sec ← long (tEnd.tvSec - tStart.tvSec)
    let nsec ← long (sec * 1000000000)
    let rest ← long (tEnd.tvNsec - tStart.tvNsec)
    let diff ← long (nsec + rest)
    unsignedLong diff

namespace Timespec
variable (t : Timespec)

def nanoseconds : ℤ := t.tvSec * 10 ^ 9 + t.tvNsec

def Normalised : Prop := 0 ≤ t.tvNsec ∧ t.tvNsec < 10 ^ 9

end Timespec

/-- A normalised reading of a clock before the year 2038. -/
structure Reading extends Timespec where
  normalised : toTimespec.Normalised
  tvSec_nonneg : 0 ≤ tvSec
  tvSec_lt : tvSec < 2 ^ 31

instance : LE Reading where
  le a b := a.tvSec < b.tvSec ∨ a.tvSec = b.tvSec ∧ a.tvNsec ≤ b.tvNsec

theorem Reading.nanoseconds_le {a b : Reading} (h : a ≤ b) :
    a.nanoseconds ≤ b.nanoseconds := by
  obtain ⟨ha, ha'⟩ := a.normalised
  obtain ⟨hb, hb'⟩ := b.normalised
  rcases h with h | ⟨h, h'⟩ <;> simp only [Timespec.nanoseconds] <;> omega

theorem getTimeDiffInNanoSec_eq {a b : Timespec} (ha : a.Normalised) (hb : b.Normalised)
    (ha0 : 0 ≤ a.tvSec) (hb32 : b.tvSec < 2 ^ 32) (h : a.nanoseconds ≤ b.nanoseconds) :
    getTimeDiffInNanoSec a b = some (b.nanoseconds - a.nanoseconds) := by
  obtain ⟨ha, ha'⟩ := ha
  obtain ⟨hb, hb'⟩ := hb
  simp only [Timespec.nanoseconds] at h ⊢
  have hsec : a.tvSec ≤ b.tvSec := by omega
  rw [getTimeDiffInNanoSec, long_eq (z := b.tvSec - a.tvSec) (by omega) (by omega)]
  simp only [Option.bind_eq_bind, Option.bind_some]
  rw [long_eq (z := (b.tvSec - a.tvSec) * 1000000000) (by omega) (by omega)]
  simp only [Option.bind_some]
  split_ifs with hborrow
  · rw [long_eq (by omega) (by omega), Option.bind_some, long_eq (by omega) (by omega),
      Option.bind_some, unsignedLong_eq (by omega) (by omega), Option.some_inj]
    omega
  · rw [long_eq (by omega) (by omega), Option.bind_some, long_eq (by omega) (by omega),
      Option.bind_some, unsignedLong_eq (by omega) (by omega), Option.some_inj]
    omega

theorem calculateExpiredDate_eq {now : Timespec} (hnow : now.Normalised) (h0 : 0 ≤ now.tvSec)
    (h31 : now.tvSec < 2 ^ 31) (relativeTimeout : BitVec 32) :
    ∃ deadline, calculateExpiredDate now relativeTimeout = some deadline ∧ deadline.Normalised ∧
      deadline.tvSec < 2 ^ 32 ∧
      deadline.nanoseconds = now.nanoseconds + relativeTimeout.toNat * 10 ^ 6 := by
  obtain ⟨hn, hn'⟩ := hnow
  have hlt := relativeTimeout.isLt
  have hdiv : (relativeTimeout / 1000).toNat = relativeTimeout.toNat / 1000 := by
    simp [BitVec.toNat_udiv]
  have hmod : (relativeTimeout % 1000).toNat = relativeTimeout.toNat % 1000 := by
    simp [BitVec.toNat_umod]
  set sec := ((relativeTimeout.toNat / 1000 : ℕ) : ℤ) with hsec
  set millis := ((relativeTimeout.toNat % 1000 : ℕ) : ℤ) with hmillis
  have hsecs := long_eq (z := now.tvSec + sec) (by omega) (by omega)
  have hmul := uint32_eq (z := millis * 1000000) (by omega) (by omega)
  have hnsecs := long_eq (z := now.tvNsec + millis * 1000000) (by omega) (by omega)
  by_cases hcarry : now.tvNsec + millis * 1000000 ≥ 1000000000
  · have hsucc := long_eq (z := now.tvSec + sec + 1) (by omega) (by omega)
    have hrest := long_eq (z := now.tvNsec + millis * 1000000 - 1000000000) (by omega) (by omega)
    refine ⟨⟨now.tvSec + sec + 1, now.tvNsec + millis * 1000000 - 1000000000⟩, ?_, ?_, ?_, ?_⟩
    · simp only [calculateExpiredDate, hdiv, hmod, ← hsec, ← hmillis, hsecs, hmul, hnsecs,
        Option.bind_eq_bind, Option.bind_some, if_pos hcarry, hsucc, hrest, Option.pure_def]
    · exact ⟨by dsimp only; omega, by dsimp only; omega⟩
    · dsimp only
      omega
    · simp only [Timespec.nanoseconds]
      omega
  · refine ⟨⟨now.tvSec + sec, now.tvNsec + millis * 1000000⟩, ?_, ?_, ?_, ?_⟩
    · simp only [calculateExpiredDate, hdiv, hmod, ← hsec, ← hmillis, hsecs, hmul, hnsecs,
        Option.bind_eq_bind, Option.bind_some, if_neg hcarry, Option.pure_def]
    · exact ⟨by dsimp only; omega, by dsimp only; omega⟩
    · dsimp only
      omega
    · simp only [Timespec.nanoseconds]
      omega

theorem deadlines_exact :
    (∀ (now : Reading) (relativeTimeout : BitVec 32), ∃ deadline,
      calculateExpiredDate now.toTimespec relativeTimeout = some deadline ∧
      deadline.Normalised ∧
      getTimeDiffInNanoSec now.toTimespec deadline = some ((relativeTimeout.toNat : ℤ) * 10 ^ 6)) ∧
    ∀ a b c : Reading, a ≤ b → b ≤ c → ∃ ab bc,
      getTimeDiffInNanoSec a.toTimespec b.toTimespec = some ab ∧
      getTimeDiffInNanoSec b.toTimespec c.toTimespec = some bc ∧
      getTimeDiffInNanoSec a.toTimespec c.toTimespec = some (ab + bc) := by
  constructor
  · intro now relativeTimeout
    obtain ⟨deadline, heq, hnorm, hsec, hnano⟩ := calculateExpiredDate_eq now.normalised
      now.tvSec_nonneg now.tvSec_lt relativeTimeout
    have hle : now.nanoseconds ≤ deadline.nanoseconds := by omega
    refine ⟨deadline, heq, hnorm, ?_⟩
    rw [getTimeDiffInNanoSec_eq now.normalised hnorm now.tvSec_nonneg hsec hle, hnano,
      add_sub_cancel_left]
  · intro a b c hab hbc
    have diff : ∀ x y : Reading, x ≤ y → getTimeDiffInNanoSec x.toTimespec y.toTimespec =
        some (y.nanoseconds - x.nanoseconds) := fun x y h =>
      getTimeDiffInNanoSec_eq x.normalised y.normalised x.tvSec_nonneg
        (y.tvSec_lt.trans (by decide)) (Reading.nanoseconds_le h)
    have hac := (Reading.nanoseconds_le hab).trans (Reading.nanoseconds_le hbc)
    refine ⟨_, _, diff a b hab, diff b c hbc, ?_⟩
    rw [getTimeDiffInNanoSec_eq a.normalised c.normalised a.tvSec_nonneg
      (c.tvSec_lt.trans (by decide)) hac, add_comm, sub_add_sub_cancel]

/-- Three readings with a borrow in the first difference only. -/
theorem deadlines_exact_half_seconds :
    let a : Reading := ⟨⟨0, 500000000⟩, ⟨by decide, by decide⟩, by decide, by decide⟩
    let b : Reading := ⟨⟨1, 0⟩, ⟨by decide, by decide⟩, by decide, by decide⟩
    let c : Reading := ⟨⟨1, 500000000⟩, ⟨by decide, by decide⟩, by decide, by decide⟩
    (a ≤ b ∧ b ≤ c) ∧ ∃ ab bc,
      getTimeDiffInNanoSec a.toTimespec b.toTimespec = some ab ∧
      getTimeDiffInNanoSec b.toTimespec c.toTimespec = some bc ∧
      getTimeDiffInNanoSec a.toTimespec c.toTimespec = some (ab + bc) := by
  intro a b c
  have hab : a ≤ b := .inl (by decide)
  have hbc : b ≤ c := .inr ⟨rfl, by decide⟩
  exact ⟨⟨hab, hbc⟩, deadlines_exact.2 a b c hab hbc⟩

end ItcPlatform.SyncObjects
