import ItcPlatform.Api.Notification

/-! `locateMailboxSync` with the queue of messages that the caller has pending, the reply of the
itc-server among them. -/

namespace ItcPlatform.Api
open LittleEndian

/-- What is pending, each message as a reader takes it that expects a reply. -/
abbrev Pending := List LocateReply

abbrev itcModeLocateInAll : BitVec 32 := 0b1110

namespace Platform
variable (env : Env) (p : Platform)

/-- `none` where the mailbox has nothing and waits. -/
def receivePending (pending : Pending) (mode : BitVec 32) : Option (Option LocateReply × Pending) :=
  match pending with
  | rep :: rest => some (some rep, rest)
  | [] => if mode &&& itcModeReceiveNonBlocking ≠ 0 then some (none, []) else none

/-- The itc-server answers a request that is taken over, and its reply comes behind what is pending
already. -/
def locatePending (answer : AdminMessage → Option LocateReply) (pending : Pending)
    (mboxName : Name) (mode : BitVec 32) : Option (Platform × Pending × MailboxContactInfo) :=
  if p.mIsInitialised = false ∨ p.mMyMailbox.isNone then some (p, pending, {})
  else
    let locateMode := mode &&& itcMaskLocate
    match if locateMode &&& itcModeLocateInRegion ≠ 0 then env.idOf mboxName else none with
    | some mailboxId => some (p, pending, { mailboxId })
    | none =>
      if locateMode &&& itcModeLocateInWorld = 0 ∧ locateMode &&& itcModeLocateInUniverse = 0 then
        some (p, pending, {})
      else
        let (p, req) := p.allocateMessage (locateSyncRequest env.heap locateMode mboxName)
        let (p, rc) := p.send env req ⟨p.mItcServerMboxId, 0⟩
        let reply := answer (p.memory req).adminMsg
        let p := (p.deallocateMessage req).1
        if rc ≠ .itcOk then some (p, pending, {})
        else
          (receivePending (pending ++ reply.toList) (mode &&& env.itcMaskTimeout)).map
            fun (rep, pending) =>
              match rep with
              | none => (p, pending, {})
              | some rep =>
                if rep.msgno ≠ itcSystemMessageLocateMboxInItcServerReply then (p, pending, {})
                else (p, pending, rep.locatedMbox)

structure AsksFor (mode : BitVec 32) (mboxName : Name) (req : AdminMessage) : Prop where
  receiver : req.receiver = p.mItcServerMboxId
  mode : load (userBytes req) 4 4 = (mode &&& itcModeLocateInAll).toNat
  mboxName : cString mboxName <+: (userBytes req).drop 8

/-- The scopes of the mode are searched: the region first, then the others by one request. -/
def Searches (answer : AdminMessage → Option LocateReply) (pending : Pending) (mboxName : Name)
    (mode : BitVec 32) : Prop :=
  ∃ p' pending' info, p.locatePending env answer pending mboxName mode = some (p', pending', info) ∧
    if mode &&& itcModeLocateInRegion ≠ 0 ∧ env.idOf mboxName ≠ none then
      sentFrom p p' = [] ∧ env.idOf mboxName = some info.mailboxId ∧ info.worldId = 0
    else if mode &&& itcModeLocateInWorld ≠ 0 ∨ mode &&& itcModeLocateInUniverse ≠ 0 then
      ∃ req, sentFrom p p' = [req] ∧ p.AsksFor mode mboxName req ∧
        ∀ rep, answer req = some rep → info = rep.locatedMbox ∧ pending' = pending
    else sentFrom p p' = [] ∧ info = {}

/-- No scope was asked for in which the mailbox could be found. -/
def AsksNowhere (mboxName : Name) (mode : BitVec 32) : Prop :=
  if mode &&& itcModeLocateInRegion ≠ 0 ∧ env.idOf mboxName ≠ none then
    env.idOf mboxName = some itcMailboxIdDefault
  else mode &&& itcModeLocateInWorld = 0 ∧ mode &&& itcModeLocateInUniverse = 0

section Locate
variable {env : Env} {p : Platform} {answer : AdminMessage → Option LocateReply}
  {pending : Pending} {mboxName : Name} {mode : BitVec 32}

theorem receive_idle {q : Platform} (hinit : q.mIsInitialised = p.mIsInitialised)
    (hmy : q.mMyMailbox = p.mMyMailbox)
    (h : ¬ (p.mIsInitialised = false ∨ p.mMyMailbox.isNone)) (mode : BitVec 32) :
    q.receive env mode = env.received mode := by
  obtain ⟨hp, hmine⟩ := not_or.mp h
  obtain ⟨my, hsome⟩ := Option.ne_none_iff_exists'.mp (mt Option.isNone_iff_eq_none.mpr hmine)
  rw [receive, if_neg (hinit ▸ hp), hmy, hsome, Option.bind_some]

theorem locatePending_view {p' : Platform} {pending' : Pending} {info : MailboxContactInfo}
    (h : p.locatePending env answer pending mboxName mode = some (p', pending', info)) :
    ∃ received, p.locateMailboxSync { env with received } mboxName mode = (p', info) := by
  let r := p.allocateMessage (locateSyncRequest env.heap (mode &&& itcMaskLocate) mboxName)
  let s := r.1.send env r.2 ⟨r.1.mItcServerMboxId, 0⟩
  let reply := answer (s.1.memory r.2).adminMsg
  refine ⟨fun mode => (receivePending (pending ++ reply.toList) mode).bind Prod.fst, ?_⟩
  unfold locatePending at h
  unfold locateMailboxSync
  split_ifs at h ⊢ with hidle
  · cases h
    rfl
  dsimp only at h ⊢
  generalize (if mode &&& itcMaskLocate &&& itcModeLocateInRegion ≠ 0 then env.idOf mboxName
    else none) = found at h ⊢
  cases found with
  | some mailboxId =>
    cases h
    rfl
  | none =>
  dsimp only at h ⊢
  have hsend (received) (msg : ℕ) (toMbox : MailboxContactInfo) :
      r.1.send { env with received } msg toMbox = r.1.send env msg toMbox := rfl
  simp only [r] at hsend
  simp only [hsend]
  split_ifs at h ⊢
  · cases h
    rfl
  · cases h
    rfl
  · have hinit : (s.1.deallocateMessage r.2).1.mIsInitialised = p.mIsInitialised :=
      mIsInitialised_deallocateMessage.trans (mIsInitialised_send _)
    have hmy : (s.1.deallocateMessage r.2).1.mMyMailbox = p.mMyMailbox :=
      mMyMailbox_deallocateMessage.trans (mMyMailbox_send _)
    rw [receive_idle hinit hmy hidle]
    obtain ⟨⟨rep, rest⟩, hrep, h⟩ := Option.map_eq_some_iff.mp h
    dsimp only [reply, s, r]
    rw [hrep, Option.bind_some]
    cases rep with
    | none =>
      cases h
      rfl
    | some rep =>
      dsimp only at h ⊢
      split_ifs at h ⊢ <;> cases h <;> rfl

theorem locateInRegion_eq_zero (mode : BitVec 32) :
    mode &&& itcMaskLocate &&& itcModeLocateInRegion = 0 := by
  rw [BitVec.and_assoc]
  exact BitVec.and_zero

theorem locatePending_eq : p.locatePending env answer pending mboxName mode =
    some (p, pending, {}) := by
  unfold locatePending
  split_ifs with hidle
  · rfl
  · dsimp only
    rw [if_neg (not_not_intro (locateInRegion_eq_zero mode)), if_pos (locateMode_eq_zero mode)]

/-- What was asked for is done exactly when there was nothing to find. -/
theorem searches_iff (env : Env) (p : Platform) (answer : AdminMessage → Option LocateReply)
    (pending : Pending) (mboxName : Name) (mode : BitVec 32) :
    p.Searches env answer pending mboxName mode ↔ AsksNowhere env mboxName mode := by
  have hnone : sentFrom p p = [] := sentFrom_of_next rfl
  simp only [Searches, AsksNowhere, locatePending_eq, Option.some.injEq, Prod.mk.injEq]
  split_ifs with hregion hfar
  · constructor
    · rintro ⟨p', pending', info, ⟨rfl, rfl, rfl⟩, -, hid, -⟩
      exact hid
    · exact fun hid => ⟨p, pending, {}, ⟨rfl, rfl, rfl⟩, hnone, hid, rfl⟩
  · refine iff_of_false ?_ fun hquiet => ?_
    · rintro ⟨p', pending', info, ⟨rfl, rfl, rfl⟩, req, hone, -⟩
      rw [hnone] at hone
      cases hone
    · exact hfar.elim (fun h => h hquiet.1) fun h => h hquiet.2
  · refine iff_of_true ⟨p, pending, {}, ⟨rfl, rfl, rfl⟩, hnone, rfl⟩ ?_
    exact ⟨not_not.mp fun h => hfar (.inl h), not_not.mp fun h => hfar (.inr h)⟩

theorem searches_nowhere : ¬ ∀ (env : Env) (p : Platform)
    (answer : AdminMessage → Option LocateReply) (pending : Pending) (mboxName : Name)
    (mode : BitVec 32),
      p.mIsInitialised = true → p.mMyMailbox ≠ none →
        p.Searches env answer pending mboxName mode := by
  intro h
  obtain ⟨p', pending', info, hrun, hsent⟩ := h (answering true) caller (fun _ => none) [] [0x61]
    itcModeLocateInWorld rfl (Option.some_ne_none _)
  rw [locatePending_eq] at hrun
  cases hrun
  rw [if_neg (by decide), if_pos (by decide)] at hsent
  obtain ⟨req, hone, -⟩ := hsent
  rw [sentFrom_of_next rfl] at hone
  cases hone

end Locate

end Platform

end ItcPlatform.Api
