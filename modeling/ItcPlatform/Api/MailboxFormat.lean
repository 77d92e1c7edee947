import ItcPlatform.Api.GiveUp
import ItcPlatform.TransportLocal.Send

/-! The format of a mailbox id: the region in the 12 highest bits, the unit in the 16 lowest. The
places that build an id are compared with those that take one apart. -/

namespace ItcPlatform.Api
open ConcurrentContainer ItcPlatform.Mailbox TransportLocal

section Fields
variable {n i : ℕ}

def regionIdOf (n : ℕ) : MailboxId := BitVec.ofNat 32 n <<< itcRegionIdShift

theorem regionIdOf_toNat (hn : n ≤ 0xFFF) : (regionIdOf n).toNat = n * 2 ^ 20 := by
  rw [regionIdOf, itcRegionIdShift, BitVec.toNat_shiftLeft, BitVec.toNat_ofNat, Nat.shiftLeft_eq]
  omega

theorem regionIdOf_or_toNat (hn : n ≤ 0xFFF) (hi : i < 2 ^ 16) :
    (regionIdOf n ||| BitVec.ofNat 32 i).toNat = n * 2 ^ 20 + i := by
  rw [BitVec.toNat_or, regionIdOf_toNat hn, BitVec.toNat_ofNat, Nat.mod_eq_of_lt (by omega),
    Nat.mul_comm, Nat.two_pow_add_eq_or_of_lt (by omega)]

theorem region_of_fields (hn : n ≤ 0xFFF) (hi : i < 2 ^ 16) :
    (regionIdOf n ||| BitVec.ofNat 32 i) &&& itcMaskRegionId = regionIdOf n := by
  apply BitVec.eq_of_toNat_eq
  rw [and_itcMaskRegionId, itcRegionIdShift, BitVec.toNat_shiftLeft, BitVec.toNat_ushiftRight,
    regionIdOf_or_toNat hn hi, regionIdOf_toNat hn, Nat.shiftLeft_eq, Nat.shiftRight_eq_div_pow]
  omega

theorem unit_of_fields (hn : n ≤ 0xFFF) (hi : i < 2 ^ 16) :
    unitOf (regionIdOf n ||| BitVec.ofNat 32 i) = BitVec.ofNat 32 i := by
  have hmask : itcMaskUnitId.toNat = 2 ^ 16 - 1 := rfl
  apply BitVec.eq_of_toNat_eq
  rw [unitOf, BitVec.toNat_and, regionIdOf_or_toNat hn hi, hmask, Nat.and_two_pow_sub_one_eq_mod,
    BitVec.toNat_ofNat]
  omega

theorem unitOf_ofNat (hi : i < 2 ^ 16) : unitOf (BitVec.ofNat 32 i) = BitVec.ofNat 32 i := by
  have hunit := unit_of_fields (Nat.zero_le _) hi
  rwa [show regionIdOf 0 = 0#32 from rfl, BitVec.zero_or] at hunit

theorem regionIdOf_injective {m : ℕ} (hn : n ≤ 0xFFF) (hm : m ≤ 0xFFF)
    (h : regionIdOf n = regionIdOf m) : n = m := by
  have := congrArg BitVec.toNat h
  rw [regionIdOf_toNat hn, regionIdOf_toNat hm] at this
  omega

end Fields

/-- The id the container's callback gives a mailbox: it runs in the constructor, where
`m_regionId` still has its default. -/
def constructedId (i : Fin itcMaxSupportedMailboxes) : MailboxId :=
  ((newMboxList itcMailboxIdDefault : MboxList Unit).mRawEntries i).mMailboxId

theorem constructedId_eq (i : Fin itcMaxSupportedMailboxes) :
    constructedId i = regionIdOf 0xFFF ||| BitVec.ofNat 32 i :=
  congrArg (regionIdOf 0xFFF ||| ·) (unitOf_ofNat (i.isLt.trans (by decide)))

section Format
variable {env : Env} {p : Platform} {n : ℕ} {i : Fin itcMaxSupportedMailboxes}

theorem emplaced_mailboxId (hregion : p.mRegionId = regionIdOf n)
    (hvalue : env.hasValueAt (BitVec.ofNat 32 i) = true) :
    (p.emplaced env (BitVec.ofNat 32 i)).mailboxId = regionIdOf n ||| BitVec.ofNat 32 i := by
  rw [Platform.emplaced, if_pos hvalue, ← hregion]
  exact congrArg (p.mRegionId ||| ·) (unitOf_ofNat (i.isLt.trans (by decide)))

/-- The id of mailbox `i` of the platform, as the code takes it apart: `send` takes it for a local
one in this region only, and the local transport finds the mailbox. -/
structure WellFormed (p : Platform) (i : Fin itcMaxSupportedMailboxes) (mboxId : MailboxId) :
    Prop where
  region : mboxId &&& itcMaskRegionId = p.mRegionId
  unit : unitOf mboxId = BitVec.ofNat 32 i
  classified : ∀ other : Platform,
    other.transport mboxId = .itcTransportLocal ↔ other.mRegionId = p.mRegionId
  indexed : entryAt (unitOf mboxId) = some (entry i)

structure OneFormat (env : Env) (p : Platform) (i : Fin itcMaxSupportedMailboxes) : Prop where
  agree : constructedId i = (p.emplaced env (BitVec.ofNat 32 i)).mailboxId
  constructed : WellFormed p i (constructedId i)
  created : WellFormed p i (p.emplaced env (BitVec.ofNat 32 i)).mailboxId

theorem transport_eq_iff {other : Platform} {mboxId : MailboxId} :
    other.transport mboxId = .itcTransportLocal ↔
      other.mRegionId = mboxId &&& itcMaskRegionId := by
  rw [Platform.transport]
  split_ifs with h
  · exact iff_of_false nofun fun he => h he.symm
  · exact iff_of_true rfl (not_not.mp h).symm

theorem wellFormed_of_fields (hn : n ≤ 0xFFF) (hregion : p.mRegionId = regionIdOf n) :
    WellFormed p i (regionIdOf n ||| BitVec.ofNat 32 i) := by
  have hi : (i : ℕ) < 2 ^ 16 := i.isLt.trans (by decide)
  refine ⟨?_, unit_of_fields hn hi, fun other => ?_, ?_⟩
  · rw [region_of_fields hn hi, hregion]
  · rw [transport_eq_iff, region_of_fields hn hi, hregion]
  · rw [unit_of_fields hn hi]
    rfl

/-- The ids of the constructor have region `0xFFF`, whatever region the platform is given later. -/
theorem oneFormat_iff (hn : 1 ≤ n ∧ n ≤ 0xFFF) (hregion : p.mRegionId = regionIdOf n)
    (hvalue : env.hasValueAt (BitVec.ofNat 32 i) = true) : OneFormat env p i ↔ n = 0xFFF := by
  have hi : (i : ℕ) < 2 ^ 16 := i.isLt.trans (by decide)
  have hcreated := emplaced_mailboxId hregion hvalue
  constructor
  · intro h
    have hsame := h.constructed.region
    rw [constructedId_eq, region_of_fields le_rfl hi, hregion] at hsame
    exact (regionIdOf_injective le_rfl hn.2 hsame).symm
  · rintro rfl
    refine ⟨?_, ?_, ?_⟩
    · rw [constructedId_eq, hcreated]
    · rw [constructedId_eq]
      exact wellFormed_of_fields le_rfl hregion
    · rw [hcreated]
      exact wellFormed_of_fields le_rfl hregion

end Format

def inRegion (n : ℕ) : Platform := { Platform.caller with mRegionId := regionIdOf n }

def emplacing : Env := { Platform.answering true with hasValueAt := fun _ => true }

theorem oneFormat_iff_lastRegion : OneFormat emplacing (inRegion 0xFFF) 5 :=
  (@oneFormat_iff emplacing (inRegion 0xFFF) 0xFFF 5 ⟨by decide, le_rfl⟩ rfl rfl).mpr rfl

/-- In region 3 mailbox 5 is constructed as `0xFFF00005` and created as `0x00300005`; the first is
no local id there. -/
theorem not_oneFormat_region3 : constructedId 5 = 0xFFF00005 ∧
    ((inRegion 3).emplaced emplacing 5).mailboxId = 0x00300005 ∧
    (inRegion 3).transport (constructedId 5) = .itcTransportSysvMsgQueue ∧
    ¬ OneFormat emplacing (inRegion 3) 5 := by
  have hconstructed : constructedId 5 = 0xFFF00005 := rfl
  have hcreated : ((inRegion 3).emplaced emplacing 5).mailboxId = 0x00300005 := rfl
  refine ⟨hconstructed, hcreated, rfl, fun h => ?_⟩
  have hagree : constructedId 5 = ((inRegion 3).emplaced emplacing 5).mailboxId := h.agree
  rw [hconstructed, hcreated] at hagree
  exact absurd hagree (by decide)

end ItcPlatform.Api
