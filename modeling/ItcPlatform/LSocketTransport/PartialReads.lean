import ItcPlatform.LSocketTransport.Connection
import ItcPlatform.Lib.LittleEndian

/-! The handshake with the itc-server over a stream socket: a reply comes in as many pieces as
the kernel likes, and any `recv` may be interrupted. -/

namespace ItcPlatform.LSocketTransport
open LittleEndian

/-- What one `recv` meets. -/
inductive StreamEvent
  | eintr
  | chunk (bytes : List Byte)
  deriving DecidableEq

def delivered : List StreamEvent → List Byte
  | [] => []
  | .eintr :: events => delivered events
  | .chunk bytes :: events => bytes ++ delivered events

/-- A reply of `n` bytes as it comes over the connection. -/
structure Delivery (n : ℕ) where
  events : List StreamEvent
  chunk_ne_nil : .chunk [] ∉ events
  length_delivered : (delivered events).length = n

def Delivery.reply {n : ℕ} (d : Delivery n) : List Byte := delivered d.events

def Delivery.whole {n : ℕ} (d : Delivery n) : List StreamEvent := [.chunk d.reply]

def cRecv : List StreamEvent → ℤ × List Byte
  | [] => (0, [])
  | .eintr :: _ => (-1, [])
  | .chunk bytes :: _ => (bytes.length, bytes)

def cRecvAgain : List StreamEvent → ℤ × List Byte
  | .eintr :: events => cRecvAgain events
  | events => cRecv events

def ack : List Byte := [0x61, 0x63, 0x6b, 0]

def LocateAnswers.receiving (a : LocateAnswers) (events : List StreamEvent) : LocateAnswers :=
  let (recv, rxBuffer) := cRecv events
  { a with
    recv
    msgno := BitVec.ofNat 32 (load rxBuffer 0 4)
    assignedRegionId := BitVec.ofNat 32 (load rxBuffer 4 4)
    itcServerMboxId := BitVec.ofNat 32 (load rxBuffer 8 4) }

def ConnectAnswers.receiving (a : ConnectAnswers) (events : List StreamEvent) : ConnectAnswers :=
  let (recv, bytes) := cRecvAgain events
  { a with recv, isAck := bytes ++ List.replicate (4 - bytes.length) 0 = ack }

def LocateAnswers.Receives (a : LocateAnswers) : Prop :=
  a.OpensSocket ∧ 0 ≤ a.connect ∧ 0 ≤ a.send

def ItcTransportLSocket.Receives (t : ItcTransportLSocket) (a : ConnectAnswers) : Prop :=
  t.mIsItcServerRunning = true ∧ a.OpensSocket t.mIsLSockPathCreated ∧ 0 ≤ a.connect

def Accepted (reply : List Byte) : Prop :=
  BitVec.ofNat 32 (load reply 0 4) = itcEthernetMessageLocateItcServerReply ∧
    BitVec.ofNat 32 (load reply 4 4) ≠ itcMailboxIdDefault

section Results
variable (t : ItcTransportLSocket)

def LocatesAsWhole (a : LocateAnswers) (d : Delivery 12) : Prop :=
  (t.locateItcServer (a.receiving d.events)).2 = (t.locateItcServer (a.receiving d.whole)).2 ∧
    (t.locateItcServer (a.receiving d.events)).1.mIsItcServerRunning =
      (t.locateItcServer (a.receiving d.whole)).1.mIsItcServerRunning

def ConnectsAsWhole (a : ConnectAnswers) (d : Delivery 4) : Prop :=
  (t.initialise (a.receiving d.events)).2 = (t.initialise (a.receiving d.whole)).2

end Results

def Delivery.first {n : ℕ} (d : Delivery n) : Option StreamEvent :=
  (d.events.dropWhile (· = .eintr)).head?

section Cuts
variable {n : ℕ} {t : ItcTransportLSocket}

theorem delivered_dropWhile (events : List StreamEvent) :
    delivered (events.dropWhile (· = .eintr)) = delivered events := by
  induction events with
  | nil => rfl
  | cons event events ih =>
    cases event with
    | eintr => simpa [delivered] using ih
    | chunk bytes => rfl

theorem cRecvAgain_eq (events : List StreamEvent) :
    cRecvAgain events = cRecv (events.dropWhile (· = .eintr)) := by
  induction events with
  | nil => rfl
  | cons event events ih =>
    cases event with
    | eintr => simpa [cRecvAgain] using ih
    | chunk bytes => rfl

theorem le_cRecv_iff {events : List StreamEvent} {reply : List Byte}
    (h : delivered events = reply) (hpos : reply ≠ []) :
    reply.length ≤ (cRecv events).1 ↔ events.head? = some (.chunk reply) := by
  have hlen := List.length_pos_iff.mpr hpos
  cases events with
  | nil => exact absurd h.symm hpos
  | cons event events =>
    cases event with
    | eintr =>
      refine iff_of_false (fun hle => ?_) nofun
      rw [cRecv] at hle
      omega
    | chunk bytes =>
      rw [delivered] at h
      rw [cRecv, List.head?_cons, Option.some_inj, StreamEvent.chunk.injEq, Int.ofNat_le]
      constructor
      · intro hle
        rw [← h, List.length_append] at hle
        have hnil : delivered events = [] := List.eq_nil_of_length_eq_zero (by omega)
        rw [← h, hnil, List.append_nil]
      · rintro rfl
        exact le_rfl

theorem cRecv_le (events : List StreamEvent) : (cRecv events).1 ≤ (delivered events).length := by
  cases events with
  | nil => exact le_rfl
  | cons event events =>
    cases event with
    | eintr =>
      rw [cRecv]
      omega
    | chunk bytes =>
      rw [cRecv, delivered, List.length_append]
      omega

theorem cRecv_of_head {events : List StreamEvent} {reply : List Byte}
    (h : events.head? = some (.chunk reply)) : cRecv events = ((reply.length : ℤ), reply) := by
  cases events with
  | nil => cases h
  | cons event events =>
    cases Option.some.inj h
    rfl

section Locate
variable {a : LocateAnswers} {d : Delivery 12}

theorem locates_receiving (a : LocateAnswers) (events : List StreamEvent) :
    (a.receiving events).Locates ↔
      a.Receives ∧ sizeofLocateReply ≤ (cRecv events).1 ∧ Accepted (cRecv events).2 := by
  constructor
  · rintro ⟨⟨hopens, hconnect, hsend, hrecv⟩, haccepted⟩
    exact ⟨⟨hopens, hconnect, hsend⟩, hrecv, haccepted⟩
  · rintro ⟨⟨hopens, hconnect, hsend⟩, hrecv, haccepted⟩
    exact ⟨⟨hopens, hconnect, hsend, hrecv⟩, haccepted⟩

theorem locates_whole : (a.receiving d.whole).Locates ↔ a.Receives ∧ Accepted d.reply := by
  have hle : sizeofLocateReply ≤ (d.reply.length : ℤ) := by
    rw [Delivery.reply, d.length_delivered]
    decide
  rw [locates_receiving, Delivery.whole, cRecv]
  exact and_congr_right fun _ => and_iff_right hle

theorem locates_cut : (a.receiving d.events).Locates ↔
    (a.Receives ∧ Accepted d.reply) ∧ d.events.head? = some (.chunk d.reply) := by
  have hlen : d.reply.length = 12 := d.length_delivered
  have hle := @le_cRecv_iff d.events d.reply rfl
    (List.ne_nil_of_length_pos (by omega))
  rw [hlen] at hle
  rw [locates_receiving, show sizeofLocateReply = ((12 : ℕ) : ℤ) from rfl, hle]
  constructor
  · rintro ⟨hreceives, hhead, haccepted⟩
    rw [cRecv_of_head hhead] at haccepted
    exact ⟨⟨hreceives, haccepted⟩, hhead⟩
  · rintro ⟨⟨hreceives, haccepted⟩, hhead⟩
    refine ⟨hreceives, hhead, ?_⟩
    rwa [cRecv_of_head hhead]

theorem locatesAsWhole_iff : LocatesAsWhole t a d ↔
    (a.Receives → Accepted d.reply → d.events.head? = some (.chunk d.reply)) := by
  have hrun (events : List StreamEvent) :=
    @mIsItcServerRunning_locateItcServer t (a.receiving events)
  by_cases hwhole : a.Receives ∧ Accepted d.reply
  · by_cases hhead : d.events.head? = some (.chunk d.reply)
    · have heq : a.receiving d.events = a.receiving d.whole := by
        rw [LocateAnswers.receiving, LocateAnswers.receiving, cRecv_of_head hhead,
          @cRecv_of_head d.whole _ rfl]
      exact iff_of_true (by rw [LocatesAsWhole, heq]; exact ⟨rfl, rfl⟩) fun _ _ => hhead
    · refine iff_of_false (fun h => ?_) fun h => hhead (h hwhole.1 hwhole.2)
      have hl := locates_whole.mpr hwhole
      have hids := h.1
      rw [located_of_locates hl, located_of_not_locates fun hcut => hhead (locates_cut.mp hcut).2]
        at hids
      exact hl.2.2 (congrArg LocatedResults.assignedRegionId hids).symm
  · have hw : ¬ (a.receiving d.whole).Locates := fun h => hwhole (locates_whole.mp h)
    have hc : ¬ (a.receiving d.events).Locates := fun h => hwhole (locates_cut.mp h).1
    refine iff_of_true ⟨?_, ?_⟩ fun hreceives haccepted => absurd ⟨hreceives, haccepted⟩ hwhole
    · rw [located_of_not_locates hw, located_of_not_locates hc]
    · rw [Bool.eq_iff_iff, hrun, hrun]
      simp [hw, hc]

end Locate

section Connect
variable {a : ConnectAnswers} {d : Delivery 4}

theorem isAck_reply {reply : List Byte} (h : reply.length = 4) :
    reply ++ List.replicate (4 - reply.length) 0 = ack ↔ reply = ack := by
  rw [h, Nat.sub_self, List.replicate_zero, List.append_nil]

theorem initialise_receiving (a : ConnectAnswers) (events : List StreamEvent) :
    (t.initialise (a.receiving events)).2 = true ↔ t.Receives a ∧ (cRecvAgain events).1 = 4 ∧
      (cRecvAgain events).2 ++ List.replicate (4 - (cRecvAgain events).2.length) 0 = ack := by
  rw [initialise_snd]
  constructor
  · rintro ⟨hrun, hopens, hconnect, hrecv, hack⟩
    exact ⟨⟨hrun, hopens, hconnect⟩, hrecv, of_decide_eq_true hack⟩
  · rintro ⟨⟨hrun, hopens, hconnect⟩, hrecv, hack⟩
    exact ⟨hrun, hopens, hconnect, hrecv, decide_eq_true hack⟩

theorem initialise_whole :
    (t.initialise (a.receiving d.whole)).2 = true ↔ t.Receives a ∧ d.reply = ack := by
  have hlen : d.reply.length = 4 := d.length_delivered
  have hrecv : cRecvAgain d.whole = ((d.reply.length : ℤ), d.reply) := rfl
  rw [initialise_receiving, hrecv, isAck_reply hlen, hlen]
  exact and_congr_right fun _ => and_iff_right rfl

theorem initialise_cut : (t.initialise (a.receiving d.events)).2 = true ↔
    (t.Receives a ∧ d.reply = ack) ∧ d.first = some (.chunk d.reply) := by
  have hlen : d.reply.length = 4 := d.length_delivered
  have hle := @le_cRecv_iff _ d.reply (delivered_dropWhile d.events)
    (List.ne_nil_of_length_pos (by omega))
  have hmax := cRecv_le (d.events.dropWhile (· = .eintr))
  rw [delivered_dropWhile, ← Delivery.reply, hlen] at hmax
  rw [hlen] at hle
  rw [initialise_receiving, cRecvAgain_eq]
  constructor
  · rintro ⟨hreceives, hrecv, hack⟩
    have hfirst := hle.mp hrecv.ge
    rw [cRecv_of_head hfirst, isAck_reply hlen] at hack
    exact ⟨⟨hreceives, hack⟩, hfirst⟩
  · rintro ⟨⟨hreceives, hack⟩, hfirst⟩
    refine ⟨hreceives, hmax.antisymm (hle.mpr hfirst), ?_⟩
    rwa [cRecv_of_head hfirst, isAck_reply hlen]

theorem connectsAsWhole_iff : ConnectsAsWhole t a d ↔
    (t.Receives a → d.reply = ack → d.first = some (.chunk d.reply)) := by
  rw [ConnectsAsWhole, Bool.eq_iff_iff, initialise_cut, initialise_whole]
  constructor
  · exact fun h hreceives hack => (h.mpr ⟨hreceives, hack⟩).2
  · exact fun h => ⟨fun hcut => hcut.1, fun hwhole => ⟨hwhole, h hwhole.1 hwhole.2⟩⟩

end Connect

/-- The handshake does not depend on the cut where a reply that would be accepted comes in one
piece, for `locateItcServer` moreover without an interruption. -/
theorem handshake_asWhole_iff (t : ItcTransportLSocket) (a : LocateAnswers) (d : Delivery 12)
    (b : ConnectAnswers) (e : Delivery 4) :
    LocatesAsWhole t a d ∧ ConnectsAsWhole t b e ↔
      (a.Receives → Accepted d.reply → d.events.head? = some (.chunk d.reply)) ∧
      (t.Receives b → e.reply = ack → e.first = some (.chunk e.reply)) :=
  and_congr locatesAsWhole_iff connectsAsWhole_iff

end Cuts

def interrupted : Delivery 12 where
  events := [.eintr, .chunk [0x2, 0x1, 0, 0, 0, 0, 0x30, 0, 0x1, 0, 0x10, 0]]
  chunk_ne_nil := by decide
  length_delivered := by decide

/-- `locateItcServer` gives up on it, where `initialise` would have called `recv` again. -/
theorem not_locatesAsWhole_interrupted :
    ¬ LocatesAsWhole .new ⟨true, 5, 0, 0, 0, 0, 0, 0⟩ interrupted := fun h => by
  have := congrArg LocatedResults.assignedRegionId h.1
  exact absurd this (by decide)

end ItcPlatform.LSocketTransport
