import ItcPlatform.Lib.Interleaving
import ItcPlatform.Lib.MessageQueues
import ItcPlatform.SysvTransport.Send

/-! Processes with a SysV transport each, over one kernel: their initialisations and releases,
the start and the exit of receive threads, and sends, one access at a time. -/

namespace ItcPlatform.SysvTransport
open Interleaving MessageQueues AdminMessage

abbrev Key := BitVec 32

abbrev MsgQueueId := BitVec 32

/-- The queues and their history: the ids a receive thread got from `msgget`, the messages
`msgsnd` took and those `msgrcv` gave out, and what the clean-up of a start removed unread. -/
structure System (ι : Type*) where
  kernel : Kernel MsgQueueId Key AdminMessage
  opened : List (ι × MsgQueueId)
  placed : List (MsgQueueId × AdminMessage)
  read : List (ι × AdminMessage)
  destroyed : List (ι × AdminMessage)

def System.new (ι : Type*) : System ι := ⟨.empty, [], [], [], []⟩

inductive RxStage
  | starting
  | opening (key : Key) (recreate : Bool)
  | statting (key : Key)
  | removing (key : Key)
  | receiving
  | waiting (msqid : MsgQueueId)
  | exiting
  | destructing

inductive TxStage
  | sending
  | waiting (msqid : MsgQueueId)
  | removing
  | adding
  | checking

inductive Pc
  | idle
  | rx (stage : RxStage)
  | tx (stage : TxStage) (projectId : ProjectId) (adminMsg : AdminMessage)

/-- One process: the members of its transport, whether its thread manager has the task of the
receive thread, and its threads. -/
structure Process where
  mRegionId : MailboxId
  mMsgQueueId : MsgQueueId
  mIsInitialised : Bool
  mIsRxThreadTerminated : Bool
  mContactList : ContactList
  hasTask : Bool
  threads : ℕ → Pc

namespace Process

def new : Process := ⟨itcMailboxIdDefault, -1, false, false, fun _ => {}, false, fun _ => .idle⟩

theorem toNat_lt_of_accepted {projectId : BitVec 32}
    (h : ¬ (projectId = 0 ∨ itcMaxSupportedRegions ≤ projectId)) :
    projectId.toNat < itcMaxSupportedRegions.toNat :=
  BitVec.lt_def.mp (BitVec.not_le.mp (not_or.mp h).2)

def goto (p : Process) (t : ℕ) (pc : Pc) : Process :=
  { p with threads := Function.update p.threads t pc }

def initialise (p : Process) (regionId : MailboxId) (createPath keyCreate : Bool) :
    Process × Bool :=
  if p.mIsInitialised then (p, false)
  else if !createPath then (p, false)
  else if !keyCreate then ({ p with mRegionId := regionId }, false)
  else ({ p with mRegionId := regionId, hasTask := true, mIsInitialised := true }, true)

theorem initialise_snd {p : Process} {regionId : MailboxId} {createPath keyCreate : Bool} :
    (p.initialise regionId createPath keyCreate).2 = true ↔
      p.mIsInitialised = false ∧ createPath = true ∧ keyCreate = true := by
  cases hinit : p.mIsInitialised <;> cases createPath <;> cases keyCreate <;>
    simp [initialise, hinit]

theorem mIsInitialised_of_initialise_fails {p : Process} {regionId : MailboxId}
    {createPath keyCreate : Bool} (h : (p.initialise regionId createPath keyCreate).2 = false) :
    (p.initialise regionId createPath keyCreate).1.mIsInitialised = p.mIsInitialised := by
  cases hinit : p.mIsInitialised <;> cases createPath <;> cases keyCreate <;>
    simp [initialise, hinit] at h ⊢

theorem mRegionId_of_initialise_fails {p : Process} {regionId : MailboxId}
    {createPath keyCreate : Bool} (h : (p.initialise regionId createPath keyCreate).2 = false) :
    (p.initialise regionId createPath keyCreate).1.mRegionId = p.mRegionId ↔
      p.mIsInitialised = true ∨ createPath = false ∨
        keyCreate = false ∧ p.mRegionId = regionId := by
  cases hinit : p.mIsInitialised <;> cases createPath <;> cases keyCreate <;>
    simp [initialise, hinit, eq_comm] at h ⊢

def release (p : Process) (keyDelete : Bool) : Process :=
  if p.mIsInitialised && keyDelete then
    { p with mIsRxThreadTerminated := true, mIsInitialised := false }
  else p

/-- `send` up to its loop; `none` where it throws. -/
def beginSend (p : Process) (adminMsg : AdminMessage) : Option Pc :=
  if p.mIsInitialised = false then some .idle
  else
    let projectId := (adminMsg.receiver &&& itcMaskRegionId) >>> itcRegionIdShift
    if h : projectId = 0 ∨ itcMaxSupportedRegions ≤ projectId then some .idle
    else
      (txFrame adminMsg).map fun _ =>
        .tx .sending ⟨projectId.toNat, toNat_lt_of_accepted h⟩ adminMsg

end Process

/-- Every call of a process; an access says which thread goes on, whether the system call it
comes to fails, and the id that a new queue would get. -/
inductive Action
  | initialise (createPath keyCreate : Bool)
  | release (keyDelete : Bool)
  | startThread (t : ℕ)
  | cancel (t : ℕ)
  | kill
  | send (t : ℕ) (adminMsg : AdminMessage)
  | access (t : ℕ) (fault : Bool) (msqid : MsgQueueId)

variable {ι : Type*} (ftok : BitVec 32 → Key) (fault : Bool)

namespace System

/-- `msgget` with `IPC_CREAT`; `none` where the kernel would not give out this id. -/
def msgGetCreate (s : System ι) (i : ι) (key : Key) (msqid : MsgQueueId) :
    Option (System ι × MsgQueueId) :=
  match s.kernel.find? key with
  | some found => some ({ s with opened := s.opened ++ [(i, found)] }, found)
  | none =>
    if msqid.slt 0 then none
    else (s.kernel.create key msqid).map fun kernel =>
      ({ s with kernel, opened := s.opened ++ [(i, msqid)] }, msqid)

def msgGet (s : System ι) (key : Key) : MsgQueueId × Errno :=
  match s.kernel.find? key with
  | some msqid => (msqid, .other)
  | none => (-1, .enoent)

def place (s : System ι) (msqid : MsgQueueId) (adminMsg : AdminMessage) : System ι :=
  { s with
    kernel := s.kernel.modify msqid (· ++ [adminMsg])
    placed := s.placed ++ [(msqid, adminMsg)] }

def take (s : System ι) (i : ι) (msqid : MsgQueueId) (adminMsg : AdminMessage) : System ι :=
  { s with
    kernel := s.kernel.modify msqid List.tail
    read := s.read ++ [(i, adminMsg)] }

def remove (s : System ι) (msqid : MsgQueueId) : System ι :=
  { s with
    kernel := s.kernel.remove msqid }

def cleanUp (s : System ι) (i : ι) (q : Queue MsgQueueId Key AdminMessage) : System ι :=
  { s.remove q.msqid with
    destroyed := s.destroyed ++ q.messages.map (i, ·) }

end System

/-- The receive thread; `none` where it is blocked in `msgrcv`. -/
def rxStep (i : ι) (msqid : MsgQueueId) (s : System ι) (p : Process) :
    RxStage → Option (System ι × Process × Pc)
  | .starting =>
    let key := if fault then -1 else ftok (p.mRegionId >>> itcRegionIdShift)
    if key = -1 then some (s, p, .rx .exiting) else some (s, p, .rx (.opening key false))
  | .opening key recreate =>
    if fault then some (s, { p with mMsgQueueId := -1 }, .rx .exiting)
    else (s.msgGetCreate i key msqid).map fun r =>
      (r.1, { p with mMsgQueueId := r.2 }, .rx (if recreate then .receiving else .statting key))
  | .statting key =>
    match s.kernel.get? p.mMsgQueueId with
    | none => some (s, p, .rx .exiting)
    | some q =>
      if fault then some (s, p, .rx .exiting)
      else if q.messages.length ≠ 0 then some (s, p, .rx (.removing key))
      else some (s, p, .rx .receiving)
  | .removing key =>
    match s.kernel.get? p.mMsgQueueId with
    | none => some (s, p, .rx .exiting)
    | some q =>
      if fault then some (s, p, .rx .exiting)
      else some (s.cleanUp i q, p, .rx (.opening key true))
  | .receiving =>
    some (s, p, .rx (if p.mIsRxThreadTerminated then .exiting else .waiting p.mMsgQueueId))
  | .waiting msqid =>
    match s.kernel.get? msqid with
    | none => some (s, p, .rx .receiving)
    | some q =>
      if fault then some (s, p, .rx .receiving)
      else
        match q.messages with
        | [] => none
        | adminMsg :: _ => some (s.take i q.msqid adminMsg, p, .rx .receiving)
  | .exiting =>
    -- a key that is gone or was never set leaves the destructor out
    if fault ∨ p.mMsgQueueId = -1 then some (s, p, .idle)
    else some (s, { p with mIsRxThreadTerminated := true, mIsInitialised := false },
      .rx .destructing)
  | .destructing =>
    some (if fault then s else s.remove p.mMsgQueueId, { p with mMsgQueueId := -1 }, .idle)

def txStep (s : System ι) (p : Process) (projectId : ProjectId) (adminMsg : AdminMessage) :
    TxStage → Option (System ι × Process × Pc)
  | .sending =>
    some (s, p, .tx (.waiting (p.mContactList projectId).msgQueueId) projectId adminMsg)
  | .waiting msqid =>
    match s.kernel.get? msqid with
    | none => some (s, p, .tx .removing projectId adminMsg)
    | some q =>
      if fault then some (s, p, .tx .sending projectId adminMsg)
      else some (s.place q.msqid adminMsg, p, .idle)
  | .removing =>
    some (s, { p with mContactList := removeContactInfoAtIndex p.mContactList projectId },
      .tx .adding projectId adminMsg)
  | .adding =>
    (addContactInfoAtIndex p.mContactList projectId adminMsg.receiver
      ⟨[fun n => if fault then -1 else ftok n], [s.msgGet]⟩).map fun r =>
        (s, { p with mContactList := r.1 }, .tx .checking projectId adminMsg)
  | .checking =>
    if (p.mContactList projectId).regionId = 0 then some (s, p, .idle)
    else some (s, p, .tx .sending projectId adminMsg)

def threadStep (i : ι) (msqid : MsgQueueId) (s : System ι) (p : Process) :
    Pc → Option (System ι × Process × Pc)
  | .idle => none
  | .rx stage => rxStep ftok fault i msqid s p stage
  | .tx stage projectId adminMsg => txStep ftok fault s p projectId adminMsg stage

def sysvProcesses (regionId : ι → MailboxId) : Program ι Action (System ι) Process :=
  fun i a s p =>
  match a with
  | .initialise createPath keyCreate => some (s, (p.initialise (regionId i) createPath keyCreate).1)
  | .release keyDelete => some (s, p.release keyDelete)
  | .startThread t =>
    match p.hasTask, p.threads t with
    | true, .idle => some (s, p.goto t (.rx .starting))
    | _, _ => none
  | .cancel t =>
    match p.threads t with
    | .rx _ => some (s, p.goto t (.rx .exiting))
    | _ => none
  | .kill => some (s, .new)
  | .send t adminMsg =>
    match p.threads t with
    | .idle => (p.beginSend adminMsg).map fun pc => (s, p.goto t pc)
    | _ => none
  | .access t fault msqid =>
    (threadStep ftok fault i msqid s p (p.threads t)).map fun r => (r.1, r.2.1.goto t r.2.2)

def noProcesses (ι : Type*) : State ι (System ι) Process := ⟨.new ι, fun _ => .new⟩

end ItcPlatform.SysvTransport
