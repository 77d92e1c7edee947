import ItcPlatform.Lib.History
import ItcPlatform.Api.Platform
import ItcPlatform.LSocketTransport.Connection
import ItcPlatform.SysvTransport.Machine
import ItcPlatform.ThreadManager.Threads

/-! `initialise` and `release` of the platform with the transports, the daemon check and the
thread manager they drive. One flag guards every other call of the platform. -/

namespace ItcPlatform.Api
open History LSocketTransport ThreadManager SysvTransport

abbrev itcFlagIAmItcServer : BitVec 32 := 1
abbrev itcNrInternalUsedMailboxes : ℕ := 1

/-- The process: the platform, whether the local transport has its mailbox list, the other
transports and the thread list. -/
structure LifeCycle where
  platform : Platform
  isLocalInitialised : Bool
  lsocket : ItcTransportLSocket
  sysv : SysvTransport.Process
  threads : List Thread

/-- What a call of `initialise` or `release` meets. A receive thread that is started gets the
queue `rxMsgQueueId`. -/
structure Outcomes where
  socketExists : Bool
  fork : Bool
  locate : LocateAnswers
  connect : ConnectAnswers
  createPath : Bool
  sysvKeyCreate : Bool
  keyCreate : ℤ
  startThread : ℕ → StartAnswer
  rxMsgQueueId : MsgQueueId
  mboxListSize : ℕ
  stopThread : ℕ → StopAnswer
  close : ℤ
  removePath : Bool
  sysvKeyDelete : Bool
  keyDelete : ℤ

namespace LifeCycle
variable (o : Outcomes) (s : LifeCycle)

def new (memory : ℕ → Message) : LifeCycle :=
  ⟨⟨itcMailboxIdDefault, itcMailboxIdDefault, false, none, memory, 0⟩, false, .new, .new, []⟩

def checkAndStartItcServer : Bool := if !o.socketExists then o.fork else false

def assignRegion (flags : BitVec 32) : LifeCycle × Bool :=
  if flags &&& itcFlagIAmItcServer ≠ 0 then
    let mRegionId := 1#32 <<< itcRegionIdShift
    ({ s with
        platform := { s.platform with mRegionId, mItcServerMboxId := mRegionId ||| 1 } }, true)
  else
    let (lsocket, located) := s.lsocket.locateItcServer o.locate
    if located.assignedRegionId = itcMailboxIdDefault ∨
        located.itcServerMboxId = itcMailboxIdDefault then
      ({ s with lsocket }, false)
    else
      ({ s with
          lsocket
          platform := { s.platform with
            mRegionId := located.assignedRegionId
            mItcServerMboxId := located.itcServerMboxId } }, true)

/-- All three transports, one after the other. A new receive thread takes its sync object over
from those before it. -/
def initialiseTransports : LifeCycle × Bool :=
  let (lsocket, isLSocketOk) := s.lsocket.initialise o.connect
  let (sysv, isSysvOk) := s.sysv.initialise s.platform.mRegionId o.createPath o.sysvKeyCreate
  let threads :=
    if isSysvOk then s.threads.map (fun thr => { thr with hasSyncObj := false }) ++ [⟨false, true⟩]
    else s.threads
  ({ s with isLocalInitialised := true, lsocket, sysv, threads }, isLSocketOk && isSysvOk)

def startThreads : LifeCycle × Bool :=
  let (threads, rc) := startAllThreads o.startThread s.threads
  let sysv := if threads = s.threads then s.sysv else { s.sysv with mMsgQueueId := o.rxMsgQueueId }
  ({ s with threads, sysv }, rc = .threadManagerOk)

def orFail (r : LifeCycle × Bool) (f : LifeCycle → LifeCycle × ReturnCode) :
    LifeCycle × ReturnCode :=
  if r.2 then f r.1 else (r.1, .itcFailed)

def initialise (flags : BitVec 32) : LifeCycle × ReturnCode :=
  if checkAndStartItcServer o = false then (s, .itcFailed)
  else if s.platform.mIsInitialised then (s, .itcOk)
  else
    orFail (s.assignRegion o flags) fun s =>
    orFail (s.initialiseTransports o) fun s =>
    if o.keyCreate ≠ 0 then (s, .itcFailed)
    else orFail (s.startThreads o) fun s => (s, .itcOk)

def destructRxThread (t : SysvTransport.Process) : SysvTransport.Process :=
  if t.mMsgQueueId ≠ -1 then
    { t with mIsRxThreadTerminated := true, mIsInitialised := false, mMsgQueueId := -1 }
  else t

def terminateThreads : LifeCycle × Bool :=
  let (threads, rc) := terminateAllThreads o.stopThread s.threads
  let sysv := if threads = s.threads then s.sysv else destructRxThread s.sysv
  ({ s with threads, sysv }, rc = .threadManagerOk)

def release : LifeCycle × ReturnCode :=
  if s.platform.mIsInitialised = false then (s, .itcOk)
  else if itcNrInternalUsedMailboxes < o.mboxListSize then (s, .itcFailed)
  else
    orFail (s.terminateThreads o) fun s =>
    let lsocket := s.lsocket.release o.close o.removePath
    let s := { s with lsocket, sysv := s.sysv.release o.sysvKeyDelete }
    if o.keyDelete ≠ 0 then (s, .itcFailed) else (s, .itcOk)

end LifeCycle

inductive LifeCycleCall
  | initialise (flags : BitVec 32) (o : Outcomes)
  | release (o : Outcomes)

namespace LifeCycleCall

def isInitialise : LifeCycleCall → Bool
  | initialise _ _ => true
  | release _ => false

end LifeCycleCall

def LifeCycle.call (s : LifeCycle) : LifeCycleCall → LifeCycle × ReturnCode
  | .initialise flags o => s.initialise o flags
  | .release o => s.release o

structure Outcomes.AllSucceed (o : Outcomes) : Prop where
  fork : o.fork = true
  locate : o.locate.Succeed
  connect : o.connect.Succeed
  createPath : o.createPath = true
  sysvKeyCreate : o.sysvKeyCreate = true
  keyCreate : o.keyCreate = 0
  startThread : ∀ n, (o.startThread n).configureAndStartThread = .threadManagerOk ∧
    (o.startThread n).condTimedWait = 0
  stopThread : ∀ n, (o.stopThread n).cancel = 0 ∧ (o.stopThread n).join = 0
  close : 0 ≤ o.close
  removePath : o.removePath = true
  sysvKeyDelete : o.sysvKeyDelete = true
  keyDelete : o.keyDelete = 0

structure LifeCycle.Released (s : LifeCycle) : Prop where
  isItcServerRunning : s.lsocket.mIsItcServerRunning = false
  sockFd : s.lsocket.mSockFd = -1
  sysv : s.sysv.mIsInitialised = false

/-- What the callers of one call rely on. -/
def LifeCycle.Keeps (s : LifeCycle) : LifeCycleCall → Prop
  | .initialise flags o =>
    let r := s.initialise o flags
    r.2 = .itcOk ∧ r.1.platform.mIsInitialised = true ∧
      (s.platform.mIsInitialised = true → r.1 = s)
  | .release o =>
    let r := s.release o
    r.2 = .itcOk → r.1.platform.mIsInitialised = false ∧ r.1.Released

namespace LifeCycle
variable {o : Outcomes} {s : LifeCycle} {calls : List LifeCycleCall} {memory : ℕ → Message}

theorem orFail_fst {I : LifeCycle → Prop} {r : LifeCycle × Bool}
    {f : LifeCycle → LifeCycle × ReturnCode} (h : I r.1) (hf : ∀ s, I s → I (f s).1) :
    I (orFail r f).1 := by
  unfold orFail
  split_ifs
  · exact hf _ h
  · exact h

theorem orFail_of_true {r : LifeCycle × Bool} {f : LifeCycle → LifeCycle × ReturnCode}
    (h : r.2 = true) : orFail r f = f r.1 :=
  if_pos h

theorem mIsInitialised_assignRegion (flags : BitVec 32) :
    (s.assignRegion o flags).1.platform.mIsInitialised = s.platform.mIsInitialised := by
  unfold assignRegion
  split_ifs
  · rfl
  · dsimp only
    split_ifs <;> rfl

theorem mIsInitialised_initialise (flags : BitVec 32) :
    (s.initialise o flags).1.platform.mIsInitialised = s.platform.mIsInitialised := by
  let I (s' : LifeCycle) : Prop := s'.platform.mIsInitialised = s.platform.mIsInitialised
  change I _
  rw [initialise]
  split
  · rfl
  split
  · rfl
  refine orFail_fst (mIsInitialised_assignRegion flags) fun s₁ h₁ => ?_
  refine orFail_fst (show I _ from h₁) fun s₂ h₂ => ?_
  split
  · exact h₂
  · exact orFail_fst (show I _ from h₂) fun _ h₃ => h₃

theorem mIsInitialised_release :
    (s.release o).1.platform.mIsInitialised = s.platform.mIsInitialised := by
  let I (s' : LifeCycle) : Prop := s'.platform.mIsInitialised = s.platform.mIsInitialised
  change I _
  rw [release]
  split
  · rfl
  split
  · rfl
  refine orFail_fst (show I _ from rfl) fun s₁ h₁ => ?_
  dsimp only
  split <;> exact h₁

theorem mIsInitialised_call (c : LifeCycleCall) :
    (s.call c).1.platform.mIsInitialised = s.platform.mIsInitialised := by
  cases c with
  | initialise flags o => exact mIsInitialised_initialise flags
  | release o => exact mIsInitialised_release

def next (s : LifeCycle) (c : LifeCycleCall) : Option LifeCycle := some (s.call c).1

/-- Whatever is called and whatever it meets, the flag stays as it was constructed. -/
theorem never_initialised (h : s.platform.mIsInitialised = false) :
    Always next (fun s => s.platform.mIsInitialised = false) calls s := by
  refine always_of_keeps ?_ h
  rintro s c _ hs ⟨⟩
  exact (mIsInitialised_call c).trans hs

structure ShutOut (p : Platform) : Prop where
  createMailbox : ∀ env name flags, p.createMailbox env name flags = (p, itcMailboxIdDefault)
  deleteMailbox : ∀ env mboxId, p.deleteMailbox env mboxId = some (p, .itcFailed)
  send : ∀ env msg toMbox, p.send env msg toMbox = (p, .itcFailed)
  receive : ∀ env mode, p.receive env mode = none

theorem shutOut_of_not_initialised {p : Platform} (h : p.mIsInitialised = false) : ShutOut p :=
  ⟨fun _ _ _ => if_pos h, fun _ _ => if_pos h, fun _ _ _ => if_pos h, fun _ _ => if_pos h⟩

theorem always_shutOut : Always next (fun s => ShutOut s.platform) calls (.new memory) :=
  (never_initialised rfl).mono fun _ => shutOut_of_not_initialised

theorem assignRegion_client {flags : BitVec 32} (h : o.locate.Succeed)
    (hclient : flags &&& itcFlagIAmItcServer = 0) :
    let r := s.assignRegion o flags
    r.2 = true ∧ r.1.lsocket.mIsItcServerRunning = true ∧ r.1.sysv = s.sysv ∧
      r.1.threads = s.threads := by
  have hlocated := @locateItcServer_of_succeed s.lsocket _ h
  have hreply := not_or.mpr ⟨h.assignedRegionId, h.itcServerMboxId⟩
  simp only [assignRegion, hclient, ne_eq, not_true, if_false, hlocated, if_neg hreply, and_self]

theorem initialiseTransports_located (h : o.AllSucceed)
    (hserver : s.lsocket.mIsItcServerRunning = true) (hsysv : s.sysv.mIsInitialised = false)
    (hthreads : s.threads = []) :
    let r := s.initialiseTransports o
    r.2 = true ∧ r.1.threads = [⟨false, true⟩] := by
  have hlsocket := (initialise_eq_true_iff h.connect).mpr hserver
  simp [initialiseTransports, SysvTransport.Process.initialise, hsysv, h.createPath,
    h.sysvKeyCreate, hlsocket, hthreads]

theorem startThreads_ok (h : o.AllSucceed) (hsync : ∀ thr ∈ s.threads, thr.hasSyncObj = true) :
    (s.startThreads o).2 = true := by
  rw [startThreads, startAllThreads_of_starts h.startThread fun thr hthr => .inr (hsync thr hthr)]
  rfl

theorem initialise_new_iff {flags : BitVec 32} (h : o.AllSucceed) :
    ((LifeCycle.new memory).initialise o flags).2 = .itcOk ↔
      o.socketExists = false ∧ flags &&& itcFlagIAmItcServer = 0 := by
  cases hsocket : o.socketExists with
  | true =>
    have hcheck : checkAndStartItcServer o = false := by simp [checkAndStartItcServer, hsocket]
    rw [initialise, if_pos hcheck]
    simp
  | false =>
    have hcheck : ¬ checkAndStartItcServer o = false := by
      simp [checkAndStartItcServer, hsocket, h.fork]
    rw [initialise, if_neg hcheck, if_neg Bool.noConfusion]
    by_cases hserver : flags &&& itcFlagIAmItcServer = 0
    swap
    · refine iff_of_false ?_ fun hand => hserver hand.2
      rw [assignRegion, if_pos hserver]
      exact nofun
    · refine iff_of_true ?_ ⟨rfl, hserver⟩
      obtain ⟨hregion, hlocated, hsysv, hthreads⟩ :=
        @assignRegion_client o (.new memory) flags h.locate hserver
      obtain ⟨htransports, hlist⟩ := initialiseTransports_located h hlocated
        (congrArg SysvTransport.Process.mIsInitialised hsysv) hthreads
      rw [orFail_of_true hregion, orFail_of_true htransports, if_neg (not_not_intro h.keyCreate),
        orFail_of_true (startThreads_ok h (by simp [hlist]))]

theorem Released.new : (LifeCycle.new memory).Released := ⟨rfl, rfl, rfl⟩

theorem keeps_iff (h : s.platform.mIsInitialised = false) (hreleased : s.Released)
    (c : LifeCycleCall) : s.Keeps c ↔ c.isInitialise = false := by
  cases c with
  | initialise flags o =>
    refine iff_of_false (fun hkeeps => ?_) (by simp [LifeCycleCall.isInitialise])
    rw [Keeps, mIsInitialised_initialise, h] at hkeeps
    exact Bool.noConfusion hkeeps.2.1
  | release o =>
    have hrelease : s.release o = (s, .itcOk) := if_pos h
    refine iff_of_true (fun _ => ?_) rfl
    rw [hrelease]
    exact ⟨h, hreleased⟩

/-- The contract is kept exactly as long as nobody calls `initialise`. -/
theorem lifeCycle_iff : Each next Keeps calls (.new memory) ↔
    ∀ c ∈ calls, c.isInitialise = false := by
  have hnew : (LifeCycle.new memory).platform.mIsInitialised = false := rfl
  induction calls with
  | nil => exact iff_of_true trivial (by simp)
  | cons c calls ih =>
    rw [List.forall_mem_cons, Each, keeps_iff hnew .new]
    refine and_congr_right fun hc => ?_
    cases c with
    | initialise flags o => cases hc
    | release o =>
      -- a release of what was never initialised changes nothing
      have hstay : next (.new memory) (.release o) = some (.new memory) := rfl
      rw [hstay]
      exact ⟨fun h => ih.mp (h _ rfl), fun h s' hs' => Option.some.inj hs' ▸ ih.mpr h⟩

end LifeCycle

def firstOutcomes : Outcomes :=
  { socketExists := false, fork := true,
    locate := ⟨true, 3, 0, 8, 12, itcEthernetMessageLocateItcServerReply, 0x00200000, 0x00100001⟩,
    connect := ⟨true, true, 4, 0, 4, true⟩, createPath := true, sysvKeyCreate := true,
    keyCreate := 0, startThread := fun _ => ⟨.threadManagerOk, 0⟩, rxMsgQueueId := 0,
    mboxListSize := 0, stopThread := fun _ => ⟨0, 0⟩, close := 0, removePath := true,
    sysvKeyDelete := true, keyDelete := 0 }

theorem allSucceed_firstOutcomes : firstOutcomes.AllSucceed :=
  ⟨rfl, ⟨rfl, by decide, by decide, by decide, rfl, rfl, by decide, by decide⟩,
    ⟨rfl, rfl, by decide, by decide, rfl, rfl⟩, rfl, rfl, rfl, fun _ => ⟨rfl, rfl⟩,
    fun _ => ⟨rfl, rfl⟩, by decide, rfl, rfl, rfl⟩

def firstMemory : ℕ → Message := fun _ => ⟨SysvTransport.intactMessage, []⟩

/-- A first `initialise` that reports `ITC_OK` and leaves the platform uninitialised. -/
theorem not_each_keeps_firstInitialise : firstOutcomes.AllSucceed ∧
    ((LifeCycle.new firstMemory).initialise firstOutcomes 0).2 = .itcOk ∧
    ¬ Each LifeCycle.next LifeCycle.Keeps [.initialise 0 firstOutcomes] (.new firstMemory) := by
  refine ⟨allSucceed_firstOutcomes,
    (LifeCycle.initialise_new_iff allSucceed_firstOutcomes).mpr ⟨rfl, rfl⟩, fun h => ?_⟩
  exact Bool.noConfusion ((LifeCycle.keeps_iff rfl .new _).mp h.1)

end ItcPlatform.Api
