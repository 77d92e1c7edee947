import Mathlib.Data.Finset.Insert
import Mathlib.Tactic.Tauto
import ItcPlatform.LSocketTransport.Connection
import ItcPlatform.Lib.History

/-! The descriptor table under the transport: `socket` and `close` as the kernel sees them, over
all sequences of calls. -/

namespace ItcPlatform.LSocketTransport
open History

/-- What `close` returns, and whether the kernel let the descriptor go: a success always does, and
POSIX leaves it open what a failure does. -/
structure CloseAnswer where
  ret : ℤ
  letsGo : Bool
  success : 0 ≤ ret → letsGo = true

/-- The transport over the descriptors that are still open. -/
structure Sockets extends ItcTransportLSocket where
  isOpen : Finset ℤ
  strayClose : Bool

inductive SocketCall
  | locateItcServer (a : LocateAnswers) (close : CloseAnswer)
  | initialise (a : ConnectAnswers)
  | release (close : CloseAnswer) (removePath : Bool)

namespace Sockets

def new : Sockets := ⟨.new, ∅, false⟩

def socket (s : Sockets) (sockFd : ℤ) : Sockets := { s with isOpen := insert sockFd s.isOpen }

def close (s : Sockets) (sockFd : ℤ) (letsGo : Bool) : Sockets :=
  { s with
    isOpen := if letsGo then s.isOpen.erase sockFd else s.isOpen
    strayClose := s.strayClose || decide (sockFd ∉ s.isOpen) }

def meet (letsGo : Bool) (s : Sockets) : SocketEvent → Sockets
  | .opened sockFd => s.socket sockFd
  | .closed sockFd | .closeFailed sockFd => s.close sockFd letsGo

/-- The table after what a call of the transport did last. -/
def follow (s : Sockets) (letsGo : Bool) (t : ItcTransportLSocket) : Sockets :=
  (t.sockets.drop s.sockets.length).foldl (meet letsGo) { s with toItcTransportLSocket := t }

section Functions
variable (s : Sockets)

def opened : SocketCall → Option ℤ
  | .locateItcServer a _ => if a.OpensSocket then some a.socket else none
  | .initialise a =>
    if s.mIsItcServerRunning = true ∧ a.OpensSocket s.mIsLSockPathCreated then some a.socket
    else none
  | .release .. => none

def apply : SocketCall → Sockets
  | .locateItcServer a c => s.follow c.letsGo (s.toItcTransportLSocket.locateItcServer a).1
  | .initialise a => s.follow true (s.toItcTransportLSocket.initialise a).1
  | .release c removePath =>
    s.follow c.letsGo (s.toItcTransportLSocket.release c.ret removePath)

/-- `none` where the kernel would give out a descriptor that is still open. -/
def next (call : SocketCall) : Option Sockets :=
  if ∃ sockFd ∈ s.isOpen, s.opened call = some sockFd then none else some (s.apply call)

structure Tracks : Prop where
  isOpen : s.isOpen = if s.mSockFd ≠ -1 then {s.mSockFd} else ∅
  no_stray : s.strayClose = false

def Meets : SocketCall → Prop
  | .locateItcServer a c => a.OpensSocket → a.Exchanges ∧ c.letsGo = true
  | .initialise a => s.mIsItcServerRunning = true → a.OpensSocket s.mIsLSockPathCreated →
    a.Acknowledged ∧ s.mSockFd = -1
  | .release c _ => s.mIsItcServerRunning = true →
    s.mSockFd ≠ -1 ∧ (c.ret < 0 → c.letsGo = false)

end Functions

section Steps
variable {s s' : Sockets}

theorem follow_eq {t : ItcTransportLSocket} (events : List SocketEvent) (letsGo : Bool)
    (h : t.sockets = s.sockets ++ events) :
    s.follow letsGo t = events.foldl (meet letsGo) { s with toItcTransportLSocket := t } := by
  rw [follow, h, List.drop_left]

theorem follow_self (letsGo : Bool) : s.follow letsGo s.toItcTransportLSocket = s :=
  follow_eq [] letsGo (List.append_nil _).symm

theorem next_eq_some_iff {call : SocketCall} : s.next call = some s' ↔
    (∀ sockFd ∈ s.isOpen, s.opened call ≠ some sockFd) ∧ s' = s.apply call := by
  unfold next
  split_ifs with h
  · refine iff_of_false nofun fun hand => ?_
    obtain ⟨sockFd, hmem, heq⟩ := h
    exact hand.1 sockFd hmem heq
  · rw [Option.some_inj, eq_comm]
    refine (and_iff_right ?_).symm
    exact fun sockFd hmem heq => h ⟨sockFd, hmem, heq⟩

theorem Tracks.mem_iff (h : s.Tracks) (sockFd : ℤ) :
    sockFd ∈ s.isOpen ↔ sockFd = s.mSockFd ∧ s.mSockFd ≠ -1 := by
  rw [h.isOpen]
  split_ifs with hfd
  · simp [hfd]
  · simp [not_not.mp hfd]

theorem apply_of_not_exchanges {a : LocateAnswers} (h : a.OpensSocket) (hfail : ¬ a.Exchanges)
    (c : CloseAnswer) : s.apply (.locateItcServer a c) =
      { s.socket a.socket with toItcTransportLSocket := s.trace (.opened a.socket) } := by
  rw [apply, locateItcServer_of_not_exchanges h hfail]
  exact follow_eq [.opened a.socket] c.letsGo rfl

theorem apply_of_exchanges {a : LocateAnswers} (h : a.Exchanges) (c : CloseAnswer) :
    ∃ t : ItcTransportLSocket, t.mSockFd = s.mSockFd ∧ s.apply (.locateItcServer a c) =
      { (s.socket a.socket).close a.socket c.letsGo with toItcTransportLSocket := t } := by
  refine ⟨(s.toItcTransportLSocket.locateItcServer a).1, ?_,
    follow_eq [.opened a.socket, .closed a.socket] c.letsGo ?_⟩
  · rw [locateItcServer_of_exchanges h]
    split <;> rfl
  · rw [locateItcServer_of_exchanges h]
    split <;> exact List.append_assoc ..

theorem apply_of_opens {a : ConnectAnswers} (hrun : s.mIsItcServerRunning = true)
    (h : a.OpensSocket s.mIsLSockPathCreated) :
    ∃ t : ItcTransportLSocket, (t.mSockFd = if a.Acknowledged then a.socket else s.mSockFd) ∧
      s.apply (.initialise a) = { s.socket a.socket with toItcTransportLSocket := t } := by
  refine ⟨(s.toItcTransportLSocket.initialise a).1, ?_, follow_eq [.opened a.socket] true ?_⟩
  · rw [initialise_of_opens hrun h]
  · rw [initialise_of_opens hrun h]
    rfl

theorem apply_of_not_opens {a : ConnectAnswers}
    (h : ¬ (s.mIsItcServerRunning = true ∧ a.OpensSocket s.mIsLSockPathCreated)) :
    ∃ created, s.apply (.initialise a) = { s with mIsLSockPathCreated := created } := by
  obtain ⟨created, heq⟩ := initialise_of_not_opens h
  rw [apply, heq]
  exact ⟨created, follow_eq [] true (List.append_nil _).symm⟩

theorem apply_release (hrun : s.mIsItcServerRunning = true) (c : CloseAnswer) (removePath : Bool) :
    ∃ t : ItcTransportLSocket, (t.mSockFd = if c.ret < 0 then s.mSockFd else -1) ∧
      s.apply (.release c removePath) =
        { s.close s.mSockFd c.letsGo with toItcTransportLSocket := t } := by
  refine ⟨s.toItcTransportLSocket.release c.ret removePath, ?_, ?_⟩
  · rw [ItcTransportLSocket.release, if_pos hrun]
    split_ifs <;> rfl
  rw [apply]
  by_cases hret : c.ret < 0
  · refine follow_eq [.closeFailed s.mSockFd] c.letsGo ?_
    rw [ItcTransportLSocket.release, if_pos hrun]
    simp only [if_pos hret]
    rfl
  · refine follow_eq [.closed s.mSockFd] c.letsGo ?_
    rw [ItcTransportLSocket.release, if_pos hrun]
    simp only [if_neg hret]
    split <;> rfl

theorem tracks_close {letsGo : Bool} {sockFd : ℤ} {t : ItcTransportLSocket}
    (hfresh : sockFd ∉ s.isOpen) (h : s.Tracks) (hlets : letsGo = true)
    (hfd : t.mSockFd = s.mSockFd) :
    { (s.socket sockFd).close sockFd letsGo with toItcTransportLSocket := t : Sockets }.Tracks := by
  refine ⟨?_, ?_⟩
  · simp only [socket, close, if_pos hlets, Finset.erase_insert hfresh, hfd]
    exact h.isOpen
  · simp [socket, close, h.no_stray]

theorem not_tracks_of_leak {sockFd : ℤ} (hfresh : sockFd ∉ s.isOpen) (h : s.Tracks)
    (hfd : s'.mSockFd = s.mSockFd) (hopen : s'.isOpen = insert sockFd s.isOpen) :
    ¬ s'.Tracks := fun h' => by
  have heq := h'.isOpen
  rw [hopen, hfd, ← h.isOpen] at heq
  exact hfresh (heq ▸ Finset.mem_insert_self ..)

theorem tracks_locateItcServer {a : LocateAnswers} (c : CloseAnswer) (h : s.Tracks)
    (hnew : a.OpensSocket → a.socket ∉ s.isOpen) :
    (s.apply (.locateItcServer a c)).Tracks ↔
      (a.OpensSocket → a.Exchanges ∧ c.letsGo = true) := by
  by_cases hopens : a.OpensSocket
  swap
  · rw [apply, locateItcServer_of_not_opens hopens, follow_self]
    exact iff_of_true h fun hop => absurd hop hopens
  by_cases hall : a.Exchanges
  · obtain ⟨t, hfd, heq⟩ := apply_of_exchanges (s := s) hall c
    rw [heq]
    by_cases hlets : c.letsGo = true
    · exact iff_of_true (tracks_close (hnew hopens) h hlets hfd) fun _ => ⟨hall, hlets⟩
    · refine iff_of_false (not_tracks_of_leak (hnew hopens) h hfd ?_) fun hmeets =>
        hlets (hmeets hopens).2
      simp [close, socket, hlets]
  · rw [apply_of_not_exchanges hopens hall]
    exact iff_of_false (not_tracks_of_leak (hnew hopens) h rfl rfl) fun hmeets =>
      hall (hmeets hopens).1

theorem tracks_initialise {a : ConnectAnswers} (h : s.Tracks)
    (hnew : s.mIsItcServerRunning = true ∧ a.OpensSocket s.mIsLSockPathCreated →
      a.socket ∉ s.isOpen) :
    (s.apply (.initialise a)).Tracks ↔ (s.mIsItcServerRunning = true →
      a.OpensSocket s.mIsLSockPathCreated → a.Acknowledged ∧ s.mSockFd = -1) := by
  by_cases hopens : s.mIsItcServerRunning = true ∧ a.OpensSocket s.mIsLSockPathCreated
  swap
  · obtain ⟨created, heq⟩ := apply_of_not_opens hopens
    rw [heq]
    exact iff_of_true ⟨h.isOpen, h.no_stray⟩ fun hrun hop => absurd ⟨hrun, hop⟩ hopens
  obtain ⟨t, htfd, heq⟩ := apply_of_opens hopens.1 hopens.2
  rw [heq]
  by_cases hack : a.Acknowledged
  · have hsocket : a.socket ≠ -1 := by
      have := hopens.2.2.2
      omega
    rw [if_pos hack] at htfd
    by_cases hfd : s.mSockFd = -1
    · refine iff_of_true ⟨?_, h.no_stray⟩ fun _ _ => ⟨hack, hfd⟩
      have hempty : s.isOpen = ∅ := by rw [h.isOpen, if_neg (not_not_intro hfd)]
      simp only [htfd, socket, hempty, insert_empty_eq, if_pos hsocket]
    · -- the descriptor of an earlier connection is overwritten
      refine iff_of_false (fun h' => ?_) fun hmeets => hfd (hmeets hopens.1 hopens.2).2
      have hold := (h.mem_iff _).mpr ⟨rfl, hfd⟩
      have hnow : s.mSockFd = a.socket :=
        ((h'.mem_iff s.mSockFd).mp (Finset.mem_insert_of_mem hold)).1.trans htfd
      exact hnew hopens (hnow ▸ hold)
  · exact iff_of_false (not_tracks_of_leak (hnew hopens) h (htfd.trans (if_neg hack)) rfl)
      fun hmeets => hack (hmeets hopens.1 hopens.2).1

theorem tracks_release (c : CloseAnswer) (removePath : Bool) (h : s.Tracks) :
    (s.apply (.release c removePath)).Tracks ↔
      (s.mIsItcServerRunning = true → s.mSockFd ≠ -1 ∧ (c.ret < 0 → c.letsGo = false)) := by
  by_cases hrun : s.mIsItcServerRunning = true
  swap
  · rw [apply, ItcTransportLSocket.release, if_neg hrun, follow_self]
    exact iff_of_true h fun hrun' => absurd hrun' hrun
  obtain ⟨t, htfd, heq⟩ := apply_release hrun c removePath
  rw [heq]
  by_cases hfd : s.mSockFd = -1
  · refine iff_of_false (fun h' => ?_) fun hmeets => (hmeets hrun).1 hfd
    have hmem : s.mSockFd ∉ s.isOpen := fun hmem => ((h.mem_iff _).mp hmem).2 hfd
    have hstray : (s.close s.mSockFd c.letsGo).strayClose = true := by simp [close, hmem]
    exact Bool.noConfusion (h'.no_stray.symm.trans hstray)
  have hmem := (h.mem_iff _).mpr ⟨rfl, hfd⟩
  have hone : s.isOpen = {s.mSockFd} := by rw [h.isOpen, if_pos hfd]
  have hstray : (s.close s.mSockFd c.letsGo).strayClose = false := by
    simp [close, hmem, h.no_stray]
  by_cases hret : c.ret < 0
  · rw [if_pos hret] at htfd
    cases hlets : c.letsGo with
    | false =>
      refine iff_of_true ⟨?_, hlets ▸ hstray⟩ fun _ => ⟨hfd, fun _ => rfl⟩
      simp [close, htfd, h.isOpen]
    | true =>
      refine iff_of_false (fun h' => ?_) fun hmeets => Bool.noConfusion ((hmeets hrun).2 hret)
      have hnow := (h'.mem_iff s.mSockFd).mpr ⟨htfd.symm, htfd ▸ hfd⟩
      simp [close] at hnow
  · rw [if_neg hret] at htfd
    refine iff_of_true ⟨?_, hstray⟩ fun _ => ⟨hfd, fun hneg => absurd hneg hret⟩
    simp [close, c.success (Int.not_lt.mp hret), hone, htfd]

theorem tracks_apply {call : SocketCall} (h : s.Tracks)
    (hfresh : ∀ sockFd ∈ s.isOpen, s.opened call ≠ some sockFd) :
    (s.apply call).Tracks ↔ s.Meets call := by
  cases call with
  | locateItcServer a c =>
    exact tracks_locateItcServer c h fun hopens hmem => hfresh _ hmem (if_pos hopens)
  | initialise a => exact tracks_initialise h fun hopens hmem => hfresh _ hmem (if_pos hopens)
  | release c removePath => exact tracks_release c removePath h

/-- The transport keeps track of its socket exactly as long as every call that comes about lets
it. -/
theorem always_tracks_iff (calls : List SocketCall) :
    Always next Tracks calls new ↔
      Each next (fun s call => ∀ s', s.next call = some s' → s.Meets call) calls new := by
  refine always_iff_each (fun _ h => h) ?_ ?_ ⟨rfl, rfl⟩
  · intro s call s' h hok hs
    obtain ⟨hfresh, heq⟩ := next_eq_some_iff.mp hs
    exact heq ▸ (tracks_apply h hfresh).mpr (hok s' hs)
  · intro s call h hnot
    obtain ⟨s', hrest⟩ := not_forall.mp hnot
    obtain ⟨hs, hmeets⟩ := Classical.not_imp.mp hrest
    obtain ⟨hfresh, rfl⟩ := next_eq_some_iff.mp hs
    exact ⟨_, hs, fun h' => hmeets ((tracks_apply h hfresh).mp h')⟩

end Steps

/-- `connect` fails: the socket of `locateItcServer` stays open. -/
theorem not_tracks_refused :
    ¬ Always next Tracks [.locateItcServer ⟨true, 5, -1, 0, 0, 0, 0, 0⟩ ⟨0, true, fun _ => rfl⟩]
      new := by
  rintro ⟨_, hnext⟩
  have hopen := (hnext _ rfl).isOpen
  exact absurd hopen (by decide)

end Sockets

end ItcPlatform.LSocketTransport
