import Mathlib.Data.Int.Notation
import Mathlib.Data.Multiset.AddSub
import ItcPlatform.Constant

/-! The local socket to the itc-server: how it is located, connected and let go. -/

namespace ItcPlatform.LSocketTransport

abbrev itcEthernetMessageNumberBase : BitVec 32 := 0x100
abbrev itcEthernetMessageLocateItcServerReply : BitVec 32 := itcEthernetMessageNumberBase + 0x2

abbrev sizeofLocateReply : ℤ := 12

inductive SocketEvent
  | opened (sockFd : ℤ)
  | closed (sockFd : ℤ)
  | closeFailed (sockFd : ℤ)

/-- The transport, with the sockets it opened and closed so far. -/
structure ItcTransportLSocket where
  mSockFd : ℤ
  mIsItcServerRunning : Bool
  mIsLSockPathCreated : Bool
  sockets : List SocketEvent

structure LocatedResults where
  assignedRegionId : MailboxId := itcMailboxIdDefault
  itcServerMboxId : MailboxId := itcMailboxIdDefault

structure LocateAnswers where
  cWrapperIf : Bool
  socket : ℤ
  connect : ℤ
  send : ℤ
  recv : ℤ
  msgno : BitVec 32
  assignedRegionId : MailboxId
  itcServerMboxId : MailboxId

/-- What `initialise` meets; `recv` is the first answer other than `EINTR`. -/
structure ConnectAnswers where
  cWrapperIf : Bool
  createPath : Bool
  socket : ℤ
  connect : ℤ
  recv : ℤ
  isAck : Bool

namespace ItcTransportLSocket

def new : ItcTransportLSocket := ⟨-1, false, false, []⟩

def trace (t : ItcTransportLSocket) (event : SocketEvent) : ItcTransportLSocket :=
  { t with sockets := t.sockets ++ [event] }

def locateItcServer (t : ItcTransportLSocket) (a : LocateAnswers) :
    ItcTransportLSocket × LocatedResults :=
  if !a.cWrapperIf then (t, {})
  else if a.socket < 0 then (t, {})
  else
    let t := t.trace (.opened a.socket)
    if a.connect < 0 then (t, {})
    else if a.send < 0 then (t, {})
    else if a.recv < sizeofLocateReply then (t, {})
    else
      let t := t.trace (.closed a.socket)
      if a.msgno = itcEthernetMessageLocateItcServerReply ∧
          a.assignedRegionId ≠ itcMailboxIdDefault then
        ({ t with mIsItcServerRunning := true }, ⟨a.assignedRegionId, a.itcServerMboxId⟩)
      else (t, {})

def initialise (t : ItcTransportLSocket) (a : ConnectAnswers) : ItcTransportLSocket × Bool :=
  if t.mIsItcServerRunning then
    if !a.cWrapperIf then (t, false)
    else if !t.mIsLSockPathCreated && !a.createPath then (t, false)
    else
      let t := { t with mIsLSockPathCreated := true }
      if a.socket < 0 then (t, false)
      else
        let t := t.trace (.opened a.socket)
        if a.connect < 0 then (t, false)
        else if a.recv < 0 then (t, false)
        else if a.recv ≠ 4 ∨ a.isAck = false then (t, false)
        else ({ t with mSockFd := a.socket }, true)
  else (t, false)

def release (t : ItcTransportLSocket) (close : ℤ) (removePath : Bool) : ItcTransportLSocket :=
  if t.mIsItcServerRunning then
    let t := t.trace (if close < 0 then .closeFailed t.mSockFd else .closed t.mSockFd)
    if close < 0 then t
    else
      let t := { t with mSockFd := -1 }
      if !removePath then t
      else { t with mIsLSockPathCreated := false, mIsItcServerRunning := false }
  else t

end ItcTransportLSocket

structure LocateAnswers.Succeed (a : LocateAnswers) : Prop where
  cWrapperIf : a.cWrapperIf = true
  socket : 0 ≤ a.socket
  connect : 0 ≤ a.connect
  send : 0 ≤ a.send
  recv : a.recv = sizeofLocateReply
  msgno : a.msgno = itcEthernetMessageLocateItcServerReply
  assignedRegionId : a.assignedRegionId ≠ itcMailboxIdDefault
  itcServerMboxId : a.itcServerMboxId ≠ itcMailboxIdDefault

structure ConnectAnswers.Succeed (a : ConnectAnswers) : Prop where
  cWrapperIf : a.cWrapperIf = true
  createPath : a.createPath = true
  socket : 0 ≤ a.socket
  connect : 0 ≤ a.connect
  recv : a.recv = 4
  isAck : a.isAck = true

variable {t : ItcTransportLSocket}

def openSockets (sockets : List SocketEvent) : Multiset ℤ :=
  sockets.foldl (fun fds event =>
    match event with
    | .opened sockFd => sockFd ::ₘ fds
    | .closed sockFd => fds.erase sockFd
    | .closeFailed _ => fds) 0

@[simp] theorem openSockets_opened (t : ItcTransportLSocket) (sockFd : ℤ) :
    openSockets (t.trace (.opened sockFd)).sockets = sockFd ::ₘ openSockets t.sockets := by
  simp [openSockets, ItcTransportLSocket.trace]

@[simp] theorem openSockets_closed (t : ItcTransportLSocket) (sockFd : ℤ) :
    openSockets (t.trace (.closed sockFd)).sockets = (openSockets t.sockets).erase sockFd := by
  simp [openSockets, ItcTransportLSocket.trace]

def LocateAnswers.OpensSocket (a : LocateAnswers) : Prop := a.cWrapperIf = true ∧ 0 ≤ a.socket

def LocateAnswers.Exchanges (a : LocateAnswers) : Prop :=
  a.OpensSocket ∧ 0 ≤ a.connect ∧ 0 ≤ a.send ∧ sizeofLocateReply ≤ a.recv

def LocateAnswers.Locates (a : LocateAnswers) : Prop :=
  a.Exchanges ∧ a.msgno = itcEthernetMessageLocateItcServerReply ∧
    a.assignedRegionId ≠ itcMailboxIdDefault

def ConnectAnswers.OpensSocket (a : ConnectAnswers) (mIsLSockPathCreated : Bool) : Prop :=
  a.cWrapperIf = true ∧ (mIsLSockPathCreated = true ∨ a.createPath = true) ∧ 0 ≤ a.socket

def ConnectAnswers.Acknowledged (a : ConnectAnswers) : Prop :=
  0 ≤ a.connect ∧ a.recv = 4 ∧ a.isAck = true

instance (a : LocateAnswers) : Decidable a.OpensSocket := inferInstanceAs (Decidable (_ ∧ _))

instance (a : ConnectAnswers) (mIsLSockPathCreated : Bool) :
    Decidable (a.OpensSocket mIsLSockPathCreated) := inferInstanceAs (Decidable (_ ∧ _))

instance (a : ConnectAnswers) : Decidable a.Acknowledged := inferInstanceAs (Decidable (_ ∧ _))

theorem locateItcServer_of_not_opens {a : LocateAnswers} (h : ¬ a.OpensSocket) :
    t.locateItcServer a = (t, {}) := by
  unfold ItcTransportLSocket.locateItcServer
  split
  · rfl
  split
  · rfl
  · rename_i hwrapper hsocket
    exact absurd ⟨by simpa using hwrapper, not_lt.mp hsocket⟩ h

/-- Every failure between `socket` and the reply leaves the socket open. -/
theorem locateItcServer_of_not_exchanges {a : LocateAnswers} (h : a.OpensSocket)
    (hfail : ¬ a.Exchanges) : t.locateItcServer a = (t.trace (.opened a.socket), {}) := by
  have hwrapper : ¬ (!a.cWrapperIf) = true := by simp [h.1]
  rw [ItcTransportLSocket.locateItcServer, if_neg hwrapper, if_neg (not_lt.mpr h.2)]
  dsimp only
  split_ifs with hconnect hsend hrecv
  · rfl
  · rfl
  · rfl
  · exact absurd ⟨h, not_lt.mp hconnect, not_lt.mp hsend, not_lt.mp hrecv⟩ hfail
  · exact absurd ⟨h, not_lt.mp hconnect, not_lt.mp hsend, not_lt.mp hrecv⟩ hfail

theorem locateItcServer_of_exchanges {a : LocateAnswers} (h : a.Exchanges) :
    t.locateItcServer a =
      if a.msgno = itcEthernetMessageLocateItcServerReply ∧
          a.assignedRegionId ≠ itcMailboxIdDefault then
        ({ (t.trace (.opened a.socket)).trace (.closed a.socket) with mIsItcServerRunning := true },
          ⟨a.assignedRegionId, a.itcServerMboxId⟩)
      else ((t.trace (.opened a.socket)).trace (.closed a.socket), {}) := by
  obtain ⟨⟨hwrapper, hsocket⟩, hconnect, hsend, hrecv⟩ := h
  rw [ItcTransportLSocket.locateItcServer, if_neg (by simp [hwrapper]), if_neg (not_lt.mpr hsocket)]
  dsimp only
  rw [if_neg (not_lt.mpr hconnect), if_neg (not_lt.mpr hsend), if_neg (not_lt.mpr hrecv)]

theorem openSockets_locateItcServer (a : LocateAnswers) :
    openSockets (t.locateItcServer a).1.sockets = openSockets t.sockets ↔
      (a.OpensSocket → a.Exchanges) := by
  by_cases hopens : a.OpensSocket
  swap
  · rw [locateItcServer_of_not_opens hopens]
    exact iff_of_true rfl fun h => absurd h hopens
  by_cases hall : a.Exchanges
  · rw [locateItcServer_of_exchanges hall]
    refine iff_of_true ?_ fun _ => hall
    split <;> simp
  · rw [locateItcServer_of_not_exchanges hopens hall]
    refine iff_of_false ?_ fun h => hall (h hopens)
    rw [openSockets_opened]
    exact (Multiset.lt_cons_self _ _).ne'

theorem mIsItcServerRunning_locateItcServer (a : LocateAnswers) :
    (t.locateItcServer a).1.mIsItcServerRunning = true ↔
      t.mIsItcServerRunning = true ∨ a.Locates := by
  by_cases hopens : a.OpensSocket
  swap
  · rw [locateItcServer_of_not_opens hopens]
    simp [LocateAnswers.Locates, LocateAnswers.Exchanges, hopens]
  by_cases hall : a.Exchanges
  · rw [locateItcServer_of_exchanges hall]
    split_ifs with hreply
    · exact iff_of_true rfl (.inr ⟨hall, hreply⟩)
    · have hnot : ¬ a.Locates := fun h => hreply h.2
      simp [ItcTransportLSocket.trace, hnot]
  · rw [locateItcServer_of_not_exchanges hopens hall]
    simp [LocateAnswers.Locates, ItcTransportLSocket.trace, hall]

theorem mIsItcServerRunning_locateItcServer_eq (a : LocateAnswers) :
    (t.locateItcServer a).1.mIsItcServerRunning = t.mIsItcServerRunning ↔
      (a.Locates → t.mIsItcServerRunning = true) := by
  rw [Bool.eq_iff_iff, mIsItcServerRunning_locateItcServer]
  tauto

@[simp] theorem mIsLSockPathCreated_locateItcServer (a : LocateAnswers) :
    (t.locateItcServer a).1.mIsLSockPathCreated = t.mIsLSockPathCreated := by
  unfold ItcTransportLSocket.locateItcServer
  dsimp only [ItcTransportLSocket.trace]
  split_ifs <;> rfl

theorem located_of_locates {a : LocateAnswers} (h : a.Locates) :
    (t.locateItcServer a).2 = ⟨a.assignedRegionId, a.itcServerMboxId⟩ := by
  rw [locateItcServer_of_exchanges h.1, if_pos h.2]

theorem located_of_not_locates {a : LocateAnswers} (h : ¬ a.Locates) :
    (t.locateItcServer a).2 = {} := by
  by_cases hopens : a.OpensSocket
  swap
  · rw [locateItcServer_of_not_opens hopens]
  by_cases hall : a.Exchanges
  · rw [locateItcServer_of_exchanges hall, if_neg fun hreply => h ⟨hall, hreply⟩]
  · rw [locateItcServer_of_not_exchanges hopens hall]

@[simp] theorem mIsItcServerRunning_initialise (a : ConnectAnswers) :
    (t.initialise a).1.mIsItcServerRunning = t.mIsItcServerRunning := by
  unfold ItcTransportLSocket.initialise
  dsimp only [ItcTransportLSocket.trace]
  split_ifs <;> rfl

theorem initialise_of_opens {a : ConnectAnswers} (hrun : t.mIsItcServerRunning = true)
    (h : a.OpensSocket t.mIsLSockPathCreated) :
    t.initialise a = ({ t.trace (.opened a.socket) with
      mIsLSockPathCreated := true
      mSockFd := if a.Acknowledged then a.socket else t.mSockFd }, decide a.Acknowledged) := by
  obtain ⟨hwrapper, hpath, hsocket⟩ := h
  have hpath' : ¬ (!t.mIsLSockPathCreated && !a.createPath) = true := by
    rcases hpath with h | h <;> simp [h]
  rw [ItcTransportLSocket.initialise, if_pos hrun, if_neg (by simp [hwrapper]), if_neg hpath']
  dsimp only
  rw [if_neg (not_lt.mpr hsocket)]
  by_cases hack : a.Acknowledged
  · obtain ⟨hconnect, hrecv, hisAck⟩ := id hack
    rw [if_pos hack, if_neg (not_lt.mpr hconnect), if_neg (by simp [hrecv]),
      if_neg (by simp [hrecv, hisAck]), decide_eq_true hack]
    rfl
  · rw [if_neg hack, decide_eq_false hack]
    split_ifs with hconnect hrecv hno
    · rfl
    · rfl
    · rfl
    · obtain ⟨hlen, hyes⟩ := not_or.mp hno
      exact absurd ⟨not_lt.mp hconnect, not_not.mp hlen, by simpa using hyes⟩ hack

theorem initialise_of_not_opens {a : ConnectAnswers}
    (h : ¬ (t.mIsItcServerRunning = true ∧ a.OpensSocket t.mIsLSockPathCreated)) :
    ∃ created, t.initialise a = ({ t with mIsLSockPathCreated := created }, false) := by
  unfold ItcTransportLSocket.initialise
  split
  swap
  · exact ⟨_, rfl⟩
  split
  · exact ⟨_, rfl⟩
  split
  · exact ⟨_, rfl⟩
  dsimp only
  split
  · exact ⟨_, rfl⟩
  · rename_i hrun hwrapper hpath hsocket
    refine absurd ⟨hrun, by simpa using hwrapper, ?_, not_lt.mp hsocket⟩ h
    simpa [imp_iff_or_not, or_comm] using hpath

theorem openSockets_initialise (a : ConnectAnswers) :
    openSockets (t.initialise a).1.sockets = openSockets t.sockets ↔
      ¬ (t.mIsItcServerRunning = true ∧ a.OpensSocket t.mIsLSockPathCreated) := by
  by_cases h : t.mIsItcServerRunning = true ∧ a.OpensSocket t.mIsLSockPathCreated
  · rw [initialise_of_opens h.1 h.2]
    refine iff_of_false ?_ (not_not_intro h)
    exact (openSockets_opened t a.socket).trans_ne (Multiset.lt_cons_self _ _).ne'
  · obtain ⟨created, heq⟩ := initialise_of_not_opens h
    rw [heq]
    exact iff_of_true rfl h

theorem initialise_snd (a : ConnectAnswers) :
    (t.initialise a).2 = true ↔ t.mIsItcServerRunning = true ∧
      a.OpensSocket t.mIsLSockPathCreated ∧ a.Acknowledged := by
  by_cases h : t.mIsItcServerRunning = true ∧ a.OpensSocket t.mIsLSockPathCreated
  · simp [initialise_of_opens h.1 h.2, h.1, h.2]
  · obtain ⟨created, heq⟩ := initialise_of_not_opens h
    simp [heq, ← and_assoc, h]

theorem locateItcServer_of_succeed {a : LocateAnswers} (h : a.Succeed) :
    t.locateItcServer a =
      ({ t with
          mIsItcServerRunning := true
          sockets := t.sockets ++ [.opened a.socket] ++ [.closed a.socket] },
        ⟨a.assignedRegionId, a.itcServerMboxId⟩) := by
  have hexchanges : a.Exchanges := ⟨⟨h.cWrapperIf, h.socket⟩, h.connect, h.send, h.recv.ge⟩
  rw [locateItcServer_of_exchanges hexchanges, if_pos ⟨h.msgno, h.assignedRegionId⟩]
  rfl

/-- Where every call succeeds, `initialise` fails exactly on a server it has not located. -/
theorem initialise_eq_true_iff {a : ConnectAnswers} (h : a.Succeed) :
    (t.initialise a).2 = true ↔ t.mIsItcServerRunning = true := by
  have hopens : a.OpensSocket t.mIsLSockPathCreated :=
    ⟨h.cWrapperIf, .inr h.createPath, h.socket⟩
  have hack : a.Acknowledged := ⟨h.connect, h.recv, h.isAck⟩
  rw [initialise_snd]
  exact and_iff_left ⟨hopens, hack⟩

end ItcPlatform.LSocketTransport
