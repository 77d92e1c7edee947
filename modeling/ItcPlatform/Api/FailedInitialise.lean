import ItcPlatform.Api.LifeCycle

/-! What an `initialise` that fails leaves behind, with the destruct keys of the platform and of
the SysV transport. -/

namespace ItcPlatform.Api
open History LSocketTransport ThreadManager SysvTransport

abbrev PthreadKey := BitVec 32

/-- The process, with the destruct keys that it created, the last one in `m_destructKey`. -/
structure Keyed where
  process : LifeCycle
  platformKeys : List PthreadKey
  sysvKeys : List PthreadKey

structure NewKeys where
  platform : PthreadKey
  sysv : PthreadKey

namespace Keyed
variable (o : Outcomes) (keys : NewKeys) (flags : BitVec 32) (s : Keyed)

def initialise : Keyed × ReturnCode :=
  if LifeCycle.checkAndStartItcServer o = false then (s, .itcFailed)
  else if s.process.platform.mIsInitialised then (s, .itcOk)
  else
    let (process, isAssigned) := s.process.assignRegion o flags
    if isAssigned = false then ({ s with process }, .itcFailed)
    else
      let (_, isSysvOk) :=
        process.sysv.initialise process.platform.mRegionId o.createPath o.sysvKeyCreate
      let sysvKeys := if isSysvOk then s.sysvKeys ++ [keys.sysv] else s.sysvKeys
      let (process, areTransportsInitialised) := process.initialiseTransports o
      if areTransportsInitialised = false then ({ s with process, sysvKeys }, .itcFailed)
      else if o.keyCreate ≠ 0 then ({ s with process, sysvKeys }, .itcFailed)
      else
        let platformKeys := s.platformKeys ++ [keys.platform]
        let (process, isStarted) := process.startThreads o
        (⟨process, platformKeys, sysvKeys⟩, if isStarted then .itcOk else .itcFailed)

theorem initialise_process :
    ((s.initialise o keys flags).1.process, (s.initialise o keys flags).2) =
      s.process.initialise o flags := by
  rw [initialise, LifeCycle.initialise]
  split
  · rfl
  split
  · rfl
  simp only [LifeCycle.orFail]
  cases hassign : (s.process.assignRegion o flags).2 with
  | false => simp
  | true =>
    simp only [Bool.true_eq_false, if_false, if_true]
    cases htransports :
        ((s.process.assignRegion o flags).1.initialiseTransports o).2 with
    | false => simp
    | true =>
      simp only [Bool.true_eq_false, if_false, if_true]
      split_ifs <;> rfl

/-- What a failed `initialise` is to leave alone. -/
structure Footprint where
  mRegionId : MailboxId
  mItcServerMboxId : MailboxId
  mIsInitialised : Bool
  platformKeys : List PthreadKey
  mIsItcServerRunning : Bool
  openSockets : Multiset ℤ
  sysvRegionId : MailboxId
  isSysvInitialised : Bool
  sysvKeys : List PthreadKey
  threads : List Thread

def footprint : Footprint :=
  { mRegionId := s.process.platform.mRegionId
    mItcServerMboxId := s.process.platform.mItcServerMboxId
    mIsInitialised := s.process.platform.mIsInitialised
    platformKeys := s.platformKeys
    mIsItcServerRunning := s.process.lsocket.mIsItcServerRunning
    openSockets := openSockets s.process.lsocket.sockets
    sysvRegionId := s.process.sysv.mRegionId
    isSysvInitialised := s.process.sysv.mIsInitialised
    sysvKeys := s.sysvKeys
    threads := s.process.threads }

end Keyed

namespace LifeCycle
variable (o : Outcomes) (flags : BitVec 32) (s : LifeCycle)

abbrev IsItcServer : Prop := flags &&& itcFlagIAmItcServer ≠ 0

def Assigned : Prop :=
  IsItcServer flags ∨ o.locate.Locates ∧ o.locate.itcServerMboxId ≠ itcMailboxIdDefault

def newRegionId : MailboxId :=
  if IsItcServer flags then 1#32 <<< itcRegionIdShift else o.locate.assignedRegionId

def newItcServerMboxId : MailboxId :=
  if IsItcServer flags then 1#32 <<< itcRegionIdShift ||| 1 else o.locate.itcServerMboxId

def lsocketLocated : ItcTransportLSocket :=
  if IsItcServer flags then s.lsocket else (s.lsocket.locateItcServer o.locate).1

def withIds : LifeCycle :=
  { s with
    lsocket := lsocketLocated o flags s
    platform := { s.platform with
      mRegionId := newRegionId o flags
      mItcServerMboxId := newItcServerMboxId o flags } }

def withRxThread (threads : List Thread) : List Thread :=
  threads.map (fun thr => { thr with hasSyncObj := false }) ++ [⟨false, true⟩]

structure Succeeds : Prop where
  assigned : Assigned o flags
  running : IsItcServer flags → s.lsocket.mIsItcServerRunning = true
  opens : o.connect.OpensSocket s.lsocket.mIsLSockPathCreated
  acknowledged : o.connect.Acknowledged
  isSysvInitialised : s.sysv.mIsInitialised = false
  createPath : o.createPath = true
  sysvKeyCreate : o.sysvKeyCreate = true
  keyCreate : o.keyCreate = 0
  startAllThreads : (startAllThreads o.startThread (withRxThread s.threads)).2 = .threadManagerOk

structure LocatesNothing : Prop where
  unassigned : ¬ Assigned o flags
  closes : o.locate.OpensSocket → o.locate.Exchanges
  known : o.locate.Locates → s.lsocket.mIsItcServerRunning = true

structure TransportsRefuse : Prop where
  assigned : Assigned o flags
  regionId : newRegionId o flags = s.platform.mRegionId
  itcServerMboxId : newItcServerMboxId o flags = s.platform.mItcServerMboxId
  known : ¬ IsItcServer flags → s.lsocket.mIsItcServerRunning = true
  lsocket : ¬ (s.lsocket.mIsItcServerRunning = true ∧
    o.connect.OpensSocket s.lsocket.mIsLSockPathCreated)
  sysv : s.sysv.mIsInitialised = true ∨ o.createPath = false ∨
    o.sysvKeyCreate = false ∧ s.sysv.mRegionId = newRegionId o flags

variable {o flags s}

theorem assignRegion_of_not_assigned (h : ¬ Assigned o flags) :
    s.assignRegion o flags = ({ s with lsocket := lsocketLocated o flags s }, false) := by
  obtain ⟨hclient, hlocate⟩ := not_or.mp h
  rw [assignRegion, if_neg hclient, lsocketLocated, if_neg hclient]
  dsimp only
  refine if_pos ?_
  by_cases hlocates : o.locate.Locates
  · rw [located_of_locates hlocates]
    exact .inr (by_contra fun hmbox => hlocate ⟨hlocates, hmbox⟩)
  · rw [located_of_not_locates hlocates]
    exact .inl rfl

theorem assignRegion_of_assigned (h : Assigned o flags) :
    s.assignRegion o flags = (withIds o flags s, true) := by
  by_cases hserver : IsItcServer flags
  · rw [assignRegion, if_pos hserver, withIds, lsocketLocated, newRegionId, newItcServerMboxId]
    simp only [if_pos hserver]
  · obtain ⟨hlocates, hmbox⟩ := h.resolve_left hserver
    rw [assignRegion, if_neg hserver, withIds, lsocketLocated, newRegionId, newItcServerMboxId]
    dsimp only
    rw [located_of_locates hlocates, if_neg (not_or.mpr ⟨hlocates.2.2, hmbox⟩)]
    simp only [if_neg hserver]

theorem startThreads_spec (o : Outcomes) (p : LifeCycle) :
    ((p.startThreads o).2 = true ↔
      (startAllThreads o.startThread p.threads).2 = .threadManagerOk) ∧
      (p.startThreads o).1.threads.length = p.threads.length :=
  ⟨decide_eq_true_iff, length_startAllThreads ..⟩

theorem mIsLSockPathCreated_lsocketLocated :
    (lsocketLocated o flags s).mIsLSockPathCreated = s.lsocket.mIsLSockPathCreated := by
  rw [lsocketLocated]
  split
  · rfl
  · exact mIsLSockPathCreated_locateItcServer _

theorem openSockets_lsocketLocated (h : Assigned o flags) :
    openSockets (lsocketLocated o flags s).sockets = openSockets s.lsocket.sockets := by
  by_cases hserver : IsItcServer flags
  · rw [lsocketLocated, if_pos hserver]
  · rw [lsocketLocated, if_neg hserver]
    exact (openSockets_locateItcServer _).mpr fun _ => (h.resolve_left hserver).1.1

theorem mIsItcServerRunning_lsocketLocated (h : Assigned o flags) :
    (lsocketLocated o flags s).mIsItcServerRunning = true ↔
      (IsItcServer flags → s.lsocket.mIsItcServerRunning = true) := by
  by_cases hserver : IsItcServer flags
  · rw [lsocketLocated, if_pos hserver]
    exact ⟨fun hrun _ => hrun, fun hrun => hrun hserver⟩
  · rw [lsocketLocated, if_neg hserver, mIsItcServerRunning_locateItcServer]
    exact iff_of_true (.inr (h.resolve_left hserver).1) fun hyes => absurd hyes hserver

theorem mIsItcServerRunning_lsocketLocated_eq (h : Assigned o flags) :
    (lsocketLocated o flags s).mIsItcServerRunning = s.lsocket.mIsItcServerRunning ↔
      (¬ IsItcServer flags → s.lsocket.mIsItcServerRunning = true) := by
  rw [Bool.eq_iff_iff, mIsItcServerRunning_lsocketLocated h]
  tauto

end LifeCycle

namespace Keyed
open LifeCycle
variable {o : Outcomes} {keys : NewKeys} {flags : BitVec 32} {s : Keyed}

theorem length_withRxThread (threads : List Thread) :
    (withRxThread threads).length = threads.length + 1 := by
  simp [withRxThread]

theorem threads_initialiseTransports {p : LifeCycle}
    (h : (p.sysv.initialise p.platform.mRegionId o.createPath o.sysvKeyCreate).2 = true) :
    (p.initialiseTransports o).1.threads = withRxThread p.threads := by
  rw [initialiseTransports]
  exact if_pos h

theorem initialise_of_not_assigned (hcheck : ¬ checkAndStartItcServer o = false)
    (hinit : ¬ s.process.platform.mIsInitialised = true) (h : ¬ Assigned o flags) :
    s.initialise o keys flags =
      ({ s with process := { s.process with lsocket := lsocketLocated o flags s.process } },
        .itcFailed) := by
  rw [initialise, if_neg hcheck, if_neg hinit, assignRegion_of_not_assigned h]
  rfl

theorem footprint_lsocketLocated_iff (h : ¬ Assigned o flags) :
    ({ s with process := { s.process with lsocket := lsocketLocated o flags s.process } } :
      Keyed).footprint = s.footprint ↔ LocatesNothing o flags s.process := by
  simp only [footprint, Footprint.mk.injEq, true_and, and_true]
  rw [lsocketLocated, if_neg (not_or.mp h).1, mIsItcServerRunning_locateItcServer_eq,
    openSockets_locateItcServer]
  exact ⟨fun hsame => ⟨h, hsame.2, hsame.1⟩, fun hnone => ⟨hnone.known, hnone.closes⟩⟩

def AllInitialised (o : Outcomes) (p : LifeCycle) : Prop :=
  (p.lsocket.initialise o.connect).2 = true ∧
    (p.sysv.initialise p.platform.mRegionId o.createPath o.sysvKeyCreate).2 = true

theorem initialise_of_transports_fail (hcheck : ¬ checkAndStartItcServer o = false)
    (hinit : ¬ s.process.platform.mIsInitialised = true) (h : Assigned o flags)
    (hfail : ¬ AllInitialised o (withIds o flags s.process)) :
    s.initialise o keys flags =
      (let p := withIds o flags s.process
      { s with
        process := (p.initialiseTransports o).1
        sysvKeys :=
          if (p.sysv.initialise p.platform.mRegionId o.createPath o.sysvKeyCreate).2 then
            s.sysvKeys ++ [keys.sysv]
          else s.sysvKeys }, .itcFailed) := by
  have hok : ((withIds o flags s.process).initialiseTransports o).2 = false := by
    rw [← Bool.not_eq_true, initialiseTransports, Bool.and_eq_true]
    exact hfail
  rw [initialise, if_neg hcheck, if_neg hinit, assignRegion_of_assigned h]
  dsimp only
  rw [if_neg (by simp)]
  exact if_pos hok

theorem footprint_initialiseTransports_iff (h : Assigned o flags) {sysvKeys : List PthreadKey}
    (hkeys : (s.process.sysv.initialise (newRegionId o flags) o.createPath o.sysvKeyCreate).2 =
      false → sysvKeys = s.sysvKeys) :
    ({ s with process := ((withIds o flags s.process).initialiseTransports o).1, sysvKeys } :
      Keyed).footprint = s.footprint ↔ TransportsRefuse o flags s.process := by
  cases hsysv :
      (s.process.sysv.initialise (newRegionId o flags) o.createPath o.sysvKeyCreate).2 with
  | true =>
    refine iff_of_false (fun hsame => ?_) fun hrefuse => ?_
    · -- the thread list has grown
      have hthreads := congrArg (fun f => f.threads.length) hsame
      dsimp only [footprint] at hthreads
      rw [threads_initialiseTransports hsysv, length_withRxThread] at hthreads
      exact Nat.succ_ne_self _ hthreads
    · obtain ⟨hinit, hpath, hkey⟩ := SysvTransport.Process.initialise_snd.mp hsysv
      simpa [hinit, hpath, hkey] using hrefuse.sysv
  | false =>
    have hthreads : ((withIds o flags s.process).initialiseTransports o).1.threads =
        s.process.threads := if_neg (Bool.not_eq_true _ ▸ hsysv)
    have hlsocket : ((withIds o flags s.process).initialiseTransports o).1.lsocket =
      ((lsocketLocated o flags s.process).initialise o.connect).1 := rfl
    have hopens := openSockets_initialise (t := lsocketLocated o flags s.process) o.connect
    rw [openSockets_lsocketLocated h, mIsLSockPathCreated_lsocketLocated] at hopens
    have hregion := SysvTransport.Process.mRegionId_of_initialise_fails hsysv
    simp only [footprint, Footprint.mk.injEq, hthreads, hlsocket, hkeys hsysv, and_true,
      mIsItcServerRunning_initialise, mIsItcServerRunning_lsocketLocated_eq h, hopens]
    constructor
    · rintro ⟨hid, hmbox, -, -, hknown, hclosed, hsysvId, -⟩
      refine ⟨h, hid, hmbox, hknown, ?_, hregion.mp hsysvId⟩
      rwa [(mIsItcServerRunning_lsocketLocated_eq h).mpr hknown] at hclosed
    · rintro ⟨-, hid, hmbox, hknown, hclosed, hsysvId⟩
      refine ⟨hid, hmbox, rfl, trivial, hknown, ?_, hregion.mpr hsysvId,
        SysvTransport.Process.mIsInitialised_of_initialise_fails hsysv⟩
      rwa [(mIsItcServerRunning_lsocketLocated_eq h).mpr hknown]

theorem allInitialised_iff (h : Assigned o flags) :
    AllInitialised o (withIds o flags s.process) ↔
      ((IsItcServer flags → s.process.lsocket.mIsItcServerRunning = true) ∧
        o.connect.OpensSocket s.process.lsocket.mIsLSockPathCreated ∧ o.connect.Acknowledged) ∧
      s.process.sysv.mIsInitialised = false ∧ o.createPath = true ∧ o.sysvKeyCreate = true := by
  rw [AllInitialised, SysvTransport.Process.initialise_snd, initialise_snd]
  dsimp only [withIds]
  rw [mIsItcServerRunning_lsocketLocated h, mIsLSockPathCreated_lsocketLocated]

theorem initialise_of_transports (hcheck : ¬ checkAndStartItcServer o = false)
    (hinit : ¬ s.process.platform.mIsInitialised = true) (h : Assigned o flags)
    (hok : AllInitialised o (withIds o flags s.process)) :
    ((s.initialise o keys flags).2 = .itcFailed ↔ ¬ (o.keyCreate = 0 ∧
      (startAllThreads o.startThread (withRxThread s.process.threads)).2 = .threadManagerOk)) ∧
      (s.initialise o keys flags).1.process.threads.length = s.process.threads.length + 1 := by
  have hthreads := threads_initialiseTransports hok.2
  have hboth : ¬ ((withIds o flags s.process).initialiseTransports o).2 = false := by
    rw [Bool.not_eq_false, initialiseTransports, Bool.and_eq_true]
    exact hok
  obtain ⟨hstart, hlength⟩ :=
    startThreads_spec o ((withIds o flags s.process).initialiseTransports o).1
  rw [hthreads] at hstart hlength
  rw [initialise, if_neg hcheck, if_neg hinit, assignRegion_of_assigned h]
  dsimp only
  rw [if_neg Bool.noConfusion, if_neg hboth]
  split
  · rename_i hkey
    refine ⟨iff_of_true rfl fun hand => hkey hand.1, ?_⟩
    exact (congrArg List.length hthreads).trans (length_withRxThread _)
  · rename_i hkey
    refine ⟨?_, hlength.trans (length_withRxThread _)⟩
    rw [and_iff_right (not_not.mp hkey)]
    refine Iff.trans ?_ (not_congr hstart)
    dsimp only
    split
    · rename_i hstarted
      exact iff_of_false (by simp) (not_not_intro hstarted)
    · rename_i hstarted
      exact iff_of_true rfl hstarted

/-- `ITC_FAILED` leaves everything as it was exactly where the check of the itc-server fails,
nothing is located, or neither transport gets anywhere. -/
theorem footprint_initialise_iff (o : Outcomes) (keys : NewKeys) (flags : BitVec 32) (s : Keyed) :
    ((s.initialise o keys flags).2 = .itcFailed →
        (s.initialise o keys flags).1.footprint = s.footprint) ↔
      checkAndStartItcServer o = false ∨ s.process.platform.mIsInitialised = true ∨
        Succeeds o flags s.process ∨ LocatesNothing o flags s.process ∨
          TransportsRefuse o flags s.process := by
  by_cases hcheck : checkAndStartItcServer o = false
  · have hsame : s.initialise o keys flags = (s, .itcFailed) := if_pos hcheck
    rw [hsame]
    exact iff_of_true (fun _ => rfl) (.inl hcheck)
  by_cases hinit : s.process.platform.mIsInitialised = true
  · have hsame : s.initialise o keys flags = (s, .itcOk) := by
      rw [initialise, if_neg hcheck, if_pos hinit]
    rw [hsame]
    exact iff_of_true (fun _ => rfl) (.inr (.inl hinit))
  rw [or_iff_right hcheck, or_iff_right hinit]
  by_cases hassigned : Assigned o flags
  swap
  · rw [initialise_of_not_assigned hcheck hinit hassigned]
    refine (imp_iff_right rfl).trans ((footprint_lsocketLocated_iff hassigned).trans ?_)
    constructor
    · exact fun hnone => .inr (.inl hnone)
    · rintro (hall | hnone | hrefuse)
      · exact absurd hall.assigned hassigned
      · exact hnone
      · exact absurd hrefuse.assigned hassigned
  by_cases hok : AllInitialised o (withIds o flags s.process)
  · obtain ⟨hrc, hlength⟩ := @initialise_of_transports o keys flags s hcheck hinit hassigned hok
    obtain ⟨⟨hrunning, hopens, hack⟩, hsysv, hpath, hkey⟩ := (allInitialised_iff hassigned).mp hok
    have hchanged : (s.initialise o keys flags).1.footprint ≠ s.footprint := fun hsame => by
      have hthreads := congrArg (fun f => f.threads.length) hsame
      exact Nat.succ_ne_self _ (hlength.symm.trans hthreads)
    constructor
    · intro hleaves
      obtain ⟨hcreate, hstart⟩ := not_not.mp fun hfail => hchanged (hleaves (hrc.mpr hfail))
      exact .inl ⟨hassigned, hrunning, hopens, hack, hsysv, hpath, hkey, hcreate, hstart⟩
    · rintro (hall | hnone | hrefuse) hfailed
      · exact absurd ⟨hall.keyCreate, hall.startAllThreads⟩ (hrc.mp hfailed)
      · exact absurd hassigned hnone.unassigned
      · have hsysvRefuses := hrefuse.sysv
        simp [hsysv, hpath, hkey] at hsysvRefuses
  · rw [initialise_of_transports_fail hcheck hinit hassigned hok]
    refine (imp_iff_right rfl).trans ((footprint_initialiseTransports_iff hassigned fun hfails =>
      if_neg ((Bool.not_eq_true _).mpr hfails)).trans ?_)
    constructor
    · exact fun hrefuse => .inr (.inr hrefuse)
    · rintro (hall | hnone | hrefuse)
      · refine absurd ((allInitialised_iff hassigned).mpr ?_) hok
        exact ⟨⟨hall.running, hall.opens, hall.acknowledged⟩, hall.isSysvInitialised,
          hall.createPath, hall.sysvKeyCreate⟩
      · exact absurd hassigned hnone.unassigned
      · exact hrefuse

/-- The itc-server itself: every call succeeds, `initialise` fails, and a receive thread, a key
and new ids remain. -/
theorem leaves_rxThread_of_itcServer :
    ¬ (((⟨.new firstMemory, [], []⟩ : Keyed).initialise firstOutcomes ⟨1, 0⟩
          itcFlagIAmItcServer).2 = .itcFailed →
      ((⟨.new firstMemory, [], []⟩ : Keyed).initialise firstOutcomes ⟨1, 0⟩
          itcFlagIAmItcServer).1.footprint = footprint ⟨.new firstMemory, [], []⟩) := by
  intro hleaves
  have hthreads := congrArg (fun f => f.threads.length) (hleaves rfl)
  revert hthreads
  decide

end Keyed
end ItcPlatform.Api
