import ItcPlatform.SysvTransport.Send

/-! The retry loop of `send` against a kernel that goes on failing. A re-made contact never
looks failed to the loop, and the other failures have no exit at all. -/

namespace ItcPlatform.SysvTransport
open LittleEndian AdminMessage

/-- Everything the kernel will ever answer to one loop, call by call. -/
structure Environment where
  msgsnd : ℕ → Option Errno
  ftok : ℕ → BitVec 32
  msgGet : ℕ → BitVec 32 × Errno

namespace Environment

def msgsnds (env : Environment) (n : ℕ) : List MsgsndAnswer :=
  (List.range n).map fun k _ _ => env.msgsnd k

def keys (env : Environment) (n : ℕ) : KeyAnswers :=
  ⟨(List.range n).map fun k _ => env.ftok k, (List.range n).map fun k _ => env.msgGet k⟩

/-- From call `start` on the queue is gone and its key leads to no other, or `msgsnd` fails
with one error other than `EINTR`. -/
def FailsFrom (env : Environment) (start : ℕ) : Prop :=
  (∀ n ≥ start, env.msgsnd n = some .einval ∨ env.msgsnd n = some .eidrm) ∧
    ((∀ n ≥ start, env.ftok n = -1) ∨ ∀ n ≥ start, (env.msgGet n).1 = -1) ∨
  ∃ errno ≠ .eintr, ∀ n ≥ start, env.msgsnd n = some errno

theorem FailsFrom.ne_none {env : Environment} {start n : ℕ} (h : env.FailsFrom start)
    (hn : start ≤ n) : env.msgsnd n ≠ none := by
  rcases h with ⟨hgone, -⟩ | ⟨errno, -, hfails⟩
  · rcases hgone n hn with heq | heq <;> simp [heq]
  · simp [hfails n hn]

end Environment

def Leaves (projectId : ProjectId) (receiver : MailboxId) (txMsg : List Byte)
    (mContactList : ContactList) (env : Environment) : Prop :=
  ∃ n, sendLoop projectId receiver txMsg (env.msgsnds n) (env.keys n) mContactList ≠ none

section Loop
variable {projectId : ProjectId} {receiver : MailboxId} {txMsg : List Byte}
  {mContactList : ContactList} {os : KeyAnswers} {env : Environment} {start : ℕ}

theorem exists_getMsgQueueId (mboxId : MailboxId) {n : ℕ} (hftok : n < os.ftok.length)
    (hget : n < os.msgGet.length) : ∃ msgQueueId os',
      getMsgQueueId os mboxId = some (msgQueueId, os') ∧
        n ≤ os'.ftok.length ∧ n ≤ os'.msgGet.length := by
  obtain ⟨ftok, msgGet⟩ := os
  cases ftok with
  | nil => cases hftok
  | cons ftok restFtok =>
    cases msgGet with
    | nil => cases hget
    | cons msgGet restGet =>
      have hftok := Nat.le_of_lt_succ hftok
      have hget := Nat.le_of_lt_succ hget
      simp only [getMsgQueueId]
      split_ifs
      · exact ⟨_, _, rfl, hftok, hget.trans (Nat.le_succ _)⟩
      · exact ⟨_, _, rfl, hftok, hget⟩
      · exact ⟨_, _, rfl, hftok, hget⟩

theorem exists_addContactInfoAtIndex (mContactList : ContactList) (atIndex : ProjectId)
    (mboxId : MailboxId) {n : ℕ} (hftok : n < os.ftok.length) (hget : n < os.msgGet.length) :
    ∃ mContactList' os', addContactInfoAtIndex mContactList atIndex mboxId os =
      some (mContactList', os') ∧ n ≤ os'.ftok.length ∧ n ≤ os'.msgGet.length := by
  obtain ⟨msgQueueId, os', hid, hlengths⟩ := exists_getMsgQueueId mboxId hftok hget
  simp only [addContactInfoAtIndex, hid]
  split_ifs
  · exact ⟨_, _, rfl, hlengths⟩
  · exact ⟨_, _, rfl, hlengths⟩

theorem sendLoop_ne_none {msgsnd : List MsgsndAnswer} (hftok : msgsnd.length ≤ os.ftok.length)
    (hget : msgsnd.length ≤ os.msgGet.length)
    (htook : ∃ answer ∈ msgsnd, ∀ msgQueueId, answer msgQueueId txMsg = none) :
    sendLoop projectId receiver txMsg msgsnd os mContactList ≠ none := by
  induction msgsnd generalizing os mContactList with
  | nil => simp at htook
  | cons answer rest ih =>
    rw [List.length_cons] at hftok hget
    have hrest (hfails : answer (mContactList projectId).msgQueueId txMsg ≠ none) :
        ∃ a ∈ rest, ∀ msgQueueId, a msgQueueId txMsg = none := by
      obtain ⟨a, hmem, ha⟩ := htook
      rcases List.mem_cons.mp hmem with rfl | hmem
      · exact absurd (ha _) hfails
      · exact ⟨a, hmem, ha⟩
    obtain ⟨c, os', hadd, hftok', hget'⟩ := exists_addContactInfoAtIndex
      (removeContactInfoAtIndex mContactList projectId) projectId receiver hftok hget
    cases hanswer : answer (mContactList projectId).msgQueueId txMsg with
    | none => simp [sendLoop, hanswer]
    | some errno =>
      have hrest := hrest (by simp [hanswer])
      cases errno with
      | einval | eidrm =>
        simp only [sendLoop, hanswer, hadd]
        split_ifs
        · exact Option.some_ne_none _
        · exact ih hftok' hget' hrest
      | eintr | enoent | other =>
        simp only [sendLoop, hanswer]
        exact ih (by omega) (by omega) hrest

/-- Where the failure persists, the loop is left only by a success that came before it. -/
theorem leaves_iff (hfails : env.FailsFrom start)
    (hproject : projectId.val = (regionOf receiver).toNat) (hlow : 1 ≤ projectId.val) :
    Leaves projectId receiver txMsg mContactList env ↔ ∃ n < start, env.msgsnd n = none := by
  have hregion : (receiver &&& itcMaskRegionId) ≠ 0 := fun h => by
    rw [hproject, regionOf, h] at hlow
    exact absurd hlow (by decide)
  constructor
  · rintro ⟨n, hn⟩
    obtain ⟨⟨sent, c⟩, hloop⟩ := Option.ne_none_iff_exists'.mp hn
    obtain ⟨-, answer, hmem, msgQueueId, htook⟩ := sendLoop_sent hregion hloop
    obtain ⟨k, -, rfl⟩ := List.mem_map.mp hmem
    exact ⟨k, not_le.mp fun hk => hfails.ne_none hk htook, htook⟩
  · rintro ⟨n, -, htook⟩
    refine ⟨n + 1, sendLoop_ne_none ?_ ?_ ⟨fun _ _ => env.msgsnd n,
      List.mem_map.mpr ⟨n, by simp, rfl⟩, fun _ => htook⟩⟩
    · simp [Environment.msgsnds, Environment.keys]
    · simp [Environment.msgsnds, Environment.keys]

end Loop

def removedReceiver : Environment :=
  ⟨fun _ => some .eidrm, fun _ => 0x01000002, fun _ => (-1, .enoent)⟩

theorem not_leaves_removedReceiver : ∃ txMsg, txFrame intactMessage = some txMsg ∧
    removedReceiver.FailsFrom 0 ∧
      ¬ Leaves ⟨2, by decide⟩ intactMessage.receiver txMsg freshTransport.mContactList
        removedReceiver := by
  refine ⟨_, rfl, .inl ⟨fun _ _ => .inr rfl, .inr fun _ _ => rfl⟩, ?_⟩
  rintro ⟨n, hn⟩
  obtain ⟨⟨sent, c⟩, hloop⟩ := Option.ne_none_iff_exists'.mp hn
  obtain ⟨-, answer, hmem, msgQueueId, htook⟩ := sendLoop_sent (by decide) hloop
  obtain ⟨k, -, rfl⟩ := List.mem_map.mp hmem
  cases htook

def removedLater : Environment :=
  ⟨fun n => if n = 1 then none else some .eidrm, fun _ => 0x01000002, fun _ => (-1, .enoent)⟩

theorem leaves_removedLater : ∃ txMsg, txFrame intactMessage = some txMsg ∧
    removedLater.FailsFrom 2 ∧
      Leaves ⟨2, by decide⟩ intactMessage.receiver txMsg freshTransport.mContactList
        removedLater := by
  have hfails : removedLater.FailsFrom 2 :=
    .inl ⟨fun n hn => .inr (if_neg (by omega)), .inr fun _ _ => rfl⟩
  exact ⟨_, rfl, hfails, (leaves_iff hfails (by decide) (by decide)).mpr ⟨1, by decide, rfl⟩⟩

end ItcPlatform.SysvTransport
