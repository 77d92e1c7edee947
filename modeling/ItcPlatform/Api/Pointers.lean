import ItcPlatform.Mailbox.Sequential

/-! The pointers of users and of the platform to one message. A user's points to `msgno`, 16
bytes behind the other. -/

namespace ItcPlatform.Pointers
open LittleEndian LockFreeQueue Mailbox

abbrev Address := BitVec 64

def convertToAdminMessage (msg : Address) : Address :=
  msg - BitVec.ofNat 64 itcAdminMessagePreambleSize

def convertToUserMessage (adminMsg : Address) : Address :=
  adminMsg + BitVec.ofNat 64 itcAdminMessagePreambleSize

structure BlockAddress where
  address : Address
  ne_null : address ≠ 0
  fits : address.toNat + itcAdminMessageMinSize ≤ 2 ^ 64

structure Blocks where
  block : Address → Option AdminMessage
  fits : ∀ a m, block a = some m → a ≠ 0 ∧ a.toNat + m.bytes.length ≤ 2 ^ 64

/-- What the platform needs to receive: its guards, and where the messages are. -/
structure Inbox (ι : Type*) where
  mIsInitialised : Bool
  mMyMailbox : Option (ItcMailbox ι)
  addressOf : Envelope ι → BlockAddress

section Calls
variable (new : BlockAddress) (heap : ℕ → Byte) (msgno : BitVec 32) (size : ℕ)
  (blocks : Blocks) {ι : Type*} (p : Inbox ι) [DecidableEq ι] (mode : BitVec 32)

def allocateAt : Address :=
  if (AdminMessageHelper.allocate heap msgno size).isSome then new.address else 0

def allocateMessage : Address := convertToUserMessage (allocateAt new heap msgno size)

/-- Whether the message was freed, and the blocks that were; `none` where memory is read that
is no message. -/
def deallocateAt (adminMsg : Address) : Option (Bool × List Address) :=
  if adminMsg = 0 then some (AdminMessageHelper.deallocate none, [])
  else
    (blocks.block adminMsg).map fun m =>
      let isFreed := AdminMessageHelper.deallocate (some m)
      (isFreed, if isFreed then [adminMsg] else [])

def deallocateMessage (msg : Address) : Option (ReturnCode × List Address) :=
  (deallocateAt blocks (convertToAdminMessage msg)).map fun (isFreed, freed) =>
    (if isFreed then .itcOk else .itcFailed, freed)

def Inbox.pointer (msg : Message ι) : Address := msg.elim 0 fun y => (p.addressOf y).address

/-- `none` where the mailbox waits for a message. -/
def Inbox.receive : Option (Inbox ι × Address) :=
  if p.mIsInitialised = false then some (p, 0)
  else
    match p.mMyMailbox with
    | none => some (p, 0)
    | some my => (my.pop mode).map fun (my, msg) =>
      ({ p with mMyMailbox := some my }, convertToUserMessage (p.pointer msg))

def noReply (rep : Address) : Bool := rep = 0

/-- What is received is null exactly when the mailbox had nothing, and then there was no reply. -/
def Inbox.ReceivesNull : Prop :=
  ∀ my ∈ p.mMyMailbox, ∀ popped ∈ my.pop mode, ∀ r ∈ p.receive mode,
    (r.2 = 0 ↔ popped.2 = none) ∧ (noReply r.2 = true ↔ popped.2 = none)

def AllocatesNull : Prop :=
  allocateMessage new heap msgno size = 0 ↔ allocateAt new heap msgno size = 0

def DeallocatesNull : Prop := deallocateMessage blocks 0 = some (.itcOk, [])

end Calls

section Conversions
variable (a : Address)

theorem convertToAdminMessage_user : convertToAdminMessage (convertToUserMessage a) = a :=
  BitVec.add_sub_cancel a _

theorem convertToUserMessage_admin : convertToUserMessage (convertToAdminMessage a) = a :=
  BitVec.sub_add_cancel a _

theorem BlockAddress.user_ne_null (new : BlockAddress) : convertToUserMessage new.address ≠ 0 := by
  intro h
  have hsum := congrArg BitVec.toNat h
  have hfits : new.address.toNat + 21 ≤ 2 ^ 64 := new.fits
  have hpreamble : (BitVec.ofNat 64 itcAdminMessagePreambleSize).toNat = 16 := rfl
  rw [convertToUserMessage, BitVec.toNat_add, hpreamble, Nat.mod_eq_of_lt (by omega)] at hsum
  exact absurd hsum (Nat.succ_ne_zero _)

theorem user_null_ne_null : convertToUserMessage 0 ≠ 0 := by decide

theorem user_pointer_ne_null {ι : Type*} (p : Inbox ι) (msg : Message ι) :
    convertToUserMessage (p.pointer msg) ≠ 0 := by
  cases msg with
  | none => exact user_null_ne_null
  | some y => exact (p.addressOf y).user_ne_null

end Conversions

section Calls
variable {new : BlockAddress} {heap : ℕ → Byte} {msgno : BitVec 32} {size : ℕ}
  {blocks : Blocks} {ι : Type*} {p : Inbox ι} [DecidableEq ι] {mode : BitVec 32}

theorem allocateMessage_ne_null : allocateMessage new heap msgno size ≠ 0 := by
  rw [allocateMessage, allocateAt]
  split_ifs
  · exact new.user_ne_null
  · exact user_null_ne_null

theorem allocateAt_eq_null_iff : allocateAt new heap msgno size = 0 ↔ size < 4 := by
  rw [← @AdminMessageHelper.allocate_eq_none_iff heap msgno, allocateAt]
  split_ifs with h
  · exact iff_of_false new.ne_null (Option.isSome_iff_ne_none.mp h)
  · exact iff_of_true rfl (Option.not_isSome_iff_eq_none.mp h)

theorem allocatesNull_iff : AllocatesNull new heap msgno size ↔ 4 ≤ size := by
  rw [AllocatesNull, iff_false_left allocateMessage_ne_null, allocateAt_eq_null_iff, Nat.not_lt]

theorem not_deallocatesNull : ¬ DeallocatesNull blocks := by
  have hwild : convertToAdminMessage 0 ≠ 0 := by decide
  have hnone : blocks.block (convertToAdminMessage 0) = none := by
    refine Option.eq_none_iff_forall_ne_some.mpr fun m hm => ?_
    have hhigh : (convertToAdminMessage 0).toNat = 2 ^ 64 - 16 := by decide
    have hfits := (blocks.fits _ m hm).2
    have hlen := m.header_le
    omega
  rw [DeallocatesNull, deallocateMessage, deallocateAt, if_neg hwild, hnone]
  exact Option.some_ne_none _ ∘ Eq.symm

theorem receive_eq {my : ItcMailbox ι} (hinit : p.mIsInitialised = true)
    (hmy : p.mMyMailbox = some my) : p.receive mode = (my.pop mode).map fun popped =>
      ({ p with mMyMailbox := some popped.1 }, convertToUserMessage (p.pointer popped.2)) := by
  rw [Inbox.receive, if_neg (by simp [hinit]), hmy]

theorem receivesNull_iff {my : ItcMailbox ι} (hinit : p.mIsInitialised = true)
    (hmy : p.mMyMailbox = some my) :
    p.ReceivesNull mode ↔ ∀ popped ∈ my.pop mode, popped.2 ≠ none := by
  have hreceive := @receive_eq ι p _ mode my hinit hmy
  constructor
  · intro h popped hpopped hnone
    have hr : _ ∈ p.receive mode := hreceive ▸ Option.mem_map_of_mem _ hpopped
    exact user_pointer_ne_null p _ ((h my hmy popped hpopped _ hr).1.mpr hnone)
  · intro h my' hmy' popped hpopped r hr
    obtain rfl : my' = my := Option.some.inj (hmy'.symm.trans hmy)
    rw [hreceive, Option.mem_def.mp hpopped] at hr
    obtain rfl := Option.some.inj hr
    have hsome := h popped hpopped
    have hne := user_pointer_ne_null p popped.2
    exact ⟨iff_of_false hne hsome, iff_of_false (by simpa [noReply] using hne) hsome⟩

theorem pop_ne_null_iff {my : ItcMailbox ι} {l : List (Message ι)}
    (hl : my.mRxMsgQueue.queue.Holds l) : (∀ popped ∈ my.pop mode, popped.2 ≠ none) ↔
      my.mIsActive = true ∧ (l ≠ [] ∨ mode &&& itcModeReceiveNonBlocking = 0) := by
  cases hact : my.mIsActive with
  | false =>
    have hpop : my.pop mode = some (my, none) := if_pos hact
    rw [hpop]
    simp
  | true =>
    cases l with
    | nil =>
      rw [ItcMailbox.pop_of_empty hact hl]
      split_ifs with hmode
      · simpa using hmode
      · simpa using hmode
    | cons msg l =>
      rw [ItcMailbox.pop_of_pending hact hl]
      have hne : msg ≠ none := hl.first.2
      simpa using hne

/-- Null stays null exactly where there is none: in `receive` and in the test for a reply when a
message was popped, in `allocateMessage` when the size is accepted, in `deallocateMessage` never.
The conversions are inverse to each other for every address, with null among them. -/
theorem null_iff {my : ItcMailbox ι} (hinit : p.mIsInitialised = true)
    (hmy : p.mMyMailbox = some my) (mode : BitVec 32) (new : BlockAddress) (heap : ℕ → Byte)
    (msgno : BitVec 32) (size : ℕ) (blocks : Blocks) :
    (∀ a, convertToAdminMessage (convertToUserMessage a) = a ∧
      convertToUserMessage (convertToAdminMessage a) = a) ∧
    (p.ReceivesNull mode ↔ ∀ popped ∈ my.pop mode, popped.2 ≠ none) ∧
    (∀ l, my.mRxMsgQueue.queue.Holds l → (p.ReceivesNull mode ↔
      my.mIsActive = true ∧ (l ≠ [] ∨ mode &&& itcModeReceiveNonBlocking = 0))) ∧
    (AllocatesNull new heap msgno size ↔ 4 ≤ size) ∧ ¬ DeallocatesNull blocks := by
  have hreceives := @receivesNull_iff ι p _ mode my hinit hmy
  refine ⟨fun a => ⟨convertToAdminMessage_user a, convertToUserMessage_admin a⟩, hreceives,
    fun l hl => hreceives.trans (pop_ne_null_iff hl), allocatesNull_iff, not_deallocatesNull⟩

end Calls

section Examples

def idle : Inbox Unit := ⟨true, some (.new 0x00300005 0), fun _ => ⟨0x1000, by decide, by decide⟩⟩

def noBlocks : Blocks := ⟨fun _ => none, fun _ _ h => nomatch h⟩

theorem null_iff_idle :
    idle.ReceivesNull 0 ↔ ∀ popped ∈ (ItcMailbox.new 0x00300005 0 : ItcMailbox Unit).pop 0,
      popped.2 ≠ none :=
  (null_iff (p := idle) rfl rfl 0 ⟨0x1000, by decide, by decide⟩ (fun _ => 0) 0x500 4 noBlocks).2.1

/-- A request for two bytes is refused with a pointer that is not null. -/
theorem allocates_no_null : ¬ ∀ (p : Inbox Unit) (my : ItcMailbox Unit) (mode : BitVec 32)
    (new : BlockAddress) (heap : ℕ → Byte) (msgno : BitVec 32) (size : ℕ) (blocks : Blocks),
      p.mIsInitialised = true → p.mMyMailbox = some my →
        p.ReceivesNull mode ∧ AllocatesNull new heap msgno size ∧ DeallocatesNull blocks := by
  intro h
  have hnull := (h idle _ 0 ⟨0x1000, by decide, by decide⟩ (fun _ => 0) 0x500 2 noBlocks rfl
    rfl).2.1
  have hrefused : allocateAt ⟨0x1000, by decide, by decide⟩ (fun _ => 0) 0x500 2 = 0 := by decide
  exact absurd (hnull.mpr hrefused) allocateMessage_ne_null

end Examples

end ItcPlatform.Pointers
