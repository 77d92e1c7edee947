import ItcPlatform.Api.Requests

/-! Two runs of a call that differ in what a fresh block holds, and the requests to the itc-server
in both. -/

namespace ItcPlatform.Api
open LittleEndian

section Builders
variable {name : Name} {off n : ℕ} {a : List Byte}

theorem fresh_same_iff :
    (∀ heap heap', fresh heap off n ++ a = fresh heap' off n ++ a) ↔ n = 0 := by
  constructor
  · intro h
    have hzero := h (fun _ => 0) (fun _ => 1)
    rw [fresh_const, fresh_const, List.append_cancel_right_eq, List.replicate_inj] at hzero
    exact hzero.2.resolve_right (by decide)
  · rintro rfl heap heap'
    rfl

theorem no_tail_iff : name.length + 1 - (cString name).length = 0 ↔ 0 ∉ name := by
  rw [← length_cString_iff]
  have := length_cString_le name
  omega

theorem notifyRequest_same_iff (isCreation mboxId : BitVec 32) (ext : Option (BitVec 32)) :
    (∀ heap heap', userBytes (notifyRequest heap isCreation mboxId ext name) =
      userBytes (notifyRequest heap' isCreation mboxId ext name)) ↔ ext ≠ none ∧ 0 ∉ name := by
  simp only [userBytes_notifyRequest, List.append_cancel_left_eq]
  cases ext with
  | none =>
    refine iff_of_false (fun h => ?_) fun h => h.1 rfl
    have hfirst := h (fun _ => 0) (fun _ => 1)
    rw [Option.elim_none, Option.elim_none, fresh_const, fresh_const] at hfirst
    cases hfirst
  | some v =>
    simp only [Option.elim_some, List.append_cancel_left_eq]
    rw [fresh_same_iff, no_tail_iff]
    simp

theorem locateAsyncRequest_same_iff (mode : BitVec 32) (mailboxId : Option MailboxId) :
    (∀ heap heap', userBytes (locateAsyncRequest heap mode name mailboxId) =
      userBytes (locateAsyncRequest heap' mode name mailboxId)) ↔
        mailboxId ≠ none ∧ 0 ∉ name := by
  simp only [userBytes_locateAsyncRequest, List.append_cancel_left_eq]
  cases mailboxId with
  | none =>
    refine iff_of_false (fun h => ?_) fun h => h.1 rfl
    have hfirst := h (fun _ => 0) (fun _ => 1)
    rw [Option.elim_none, Option.elim_none, fresh_const, fresh_const, fresh_const,
      fresh_const] at hfirst
    cases hfirst
  | some v =>
    simp only [Option.elim_some, List.append_cancel_left_eq]
    rw [fresh_same_iff, no_tail_iff]
    simp

end Builders

namespace Platform

inductive Requesting
  | createMailbox (name : Name) (flags : BitVec 32)
  | deleteMailbox (mboxId : MailboxId)
  | locateMailboxSync (mboxName : Name) (mode : BitVec 32)
  | locateMailboxAsync (mboxName : Name) (mode : BitVec 32)

def Requesting.run (env : Env) (p : Platform) : Requesting → Option Platform
  | .createMailbox name flags => some (p.createMailbox env name flags).1
  | .deleteMailbox mboxId => (p.deleteMailbox env mboxId).map Prod.fst
  | .locateMailboxSync mboxName mode => some (p.locateMailboxSync env mboxName mode).1
  | .locateMailboxAsync mboxName mode => some (p.locateMailboxAsync env mboxName mode).1

def requests (env : Env) (p : Platform) (call : Requesting) : List (List Byte) :=
  (call.run env p).elim [] fun p' => (allocatedFrom p p').map fun req => userBytes req.adminMsg

def withHeap (env : Env) (heap : ℕ → Byte) : Env := { env with heap }

/-- The requests are the same whatever the heap held, and one for an asynchronous location says
whether the name was found. -/
structure NeverStale (env : Env) (p : Platform) (call : Requesting) : Prop where
  same : ∀ heap heap', requests (withHeap env heap) p call = requests (withHeap env heap') p call
  replyImmediately : ∀ mboxName mode, call = .locateMailboxAsync mboxName mode →
    ∀ heap, ∀ req ∈ requests (withHeap env heap) p call,
      load req 8 4 = if env.idOf mboxName = none then 0 else 1

/-- Every byte of the request is written: the name has no zero byte in it, the mailbox is one that
is created, or a name that is found. -/
def WritesAll (env : Env) (p : Platform) : Requesting → Prop
  | .createMailbox name flags => ∀ index, Announces env p name flags index → 0 ∉ name
  | .deleteMailbox mboxId => ∀ my, ¬ Withdraws p mboxId my
  | .locateMailboxSync _ _ => True
  | .locateMailboxAsync mboxName _ =>
    ¬ (p.mIsInitialised = false ∨ p.mMyMailbox.isNone) → env.idOf mboxName ≠ none ∧ 0 ∉ mboxName

section Requests
variable {env : Env} {p q : Platform} {req : AdminMessage}

theorem allocatedFrom_requested (hnext : q.next = p.next) :
    (allocatedFrom p (if (requested env q req).2 ≠ .itcOk then
      ((requested env q req).1.deallocateMessage q.next).1 else (requested env q req).1)).map
        (fun req => userBytes req.adminMsg) = [userBytes req] := by
  have hmade := requested_next env q req
  rw [allocatedFrom_one, ← hnext, List.map_singleton]
  · split_ifs
    · rw [adminMsg_deallocateMessage, userBytes_requested]
    · rw [userBytes_requested]
  · split_ifs
    · rw [deallocateMessage_next, hmade, hnext]
    · rw [hmade, hnext]

theorem requests_createMailbox {name : Name} {flags index : BitVec 32}
    (h : Announces env p name flags index) : requests env p (.createMailbox name flags) =
      [userBytes (creationRequest env (p.emplaced env index) name flags)] := by
  rw [requests, Requesting.run, Option.elim_some, createMailbox_of_announces h]
  exact allocatedFrom_requested rfl

theorem requests_deleteMailbox {mboxId : MailboxId} {my : Mailbox} (h : Withdraws p mboxId my) :
    requests env p (.deleteMailbox mboxId) =
      [userBytes (deletionRequest env (env.remove my) my.name)] := by
  obtain ⟨r, hr, hnext, hmemory⟩ := deleteMailbox_of_withdraws env h
  rw [requests, Requesting.run, Option.mem_def.mp hr, Option.map_some, Option.elim_some,
    allocatedFrom_congr hnext hmemory]
  exact allocatedFrom_requested rfl

theorem requests_createMailbox_nil {name : Name} {flags : BitVec 32}
    (h : ¬ ∃ index, Announces env p name flags index) :
    requests env p (.createMailbox name flags) = [] := by
  rw [requests, Requesting.run, Option.elim_some, allocatedFrom_of_next (createMailbox_next h)]
  rfl

theorem requests_deleteMailbox_nil {mboxId : MailboxId} (h : ¬ ∃ my, Withdraws p mboxId my) :
    requests env p (.deleteMailbox mboxId) = [] := by
  by_cases hmy : p.mIsInitialised = true → p.mMyMailbox ≠ none
  · obtain ⟨r, hr, hnext⟩ := deleteMailbox_next env hmy h
    rw [requests, Requesting.run, Option.mem_def.mp hr, Option.map_some, Option.elim_some,
      allocatedFrom_of_next hnext]
    rfl
  · push Not at hmy
    simp [requests, Requesting.run, deleteMailbox, hmy.1, hmy.2]

theorem requests_locateMailboxSync (mboxName : Name) (mode : BitVec 32) :
    requests env p (.locateMailboxSync mboxName mode) = [] := by
  rw [requests, Requesting.run, Option.elim_some, locateMailboxSync_fst, allocatedFrom_of_next rfl]
  rfl

theorem requests_locateMailboxAsync (mboxName : Name) (mode : BitVec 32) :
    requests env p (.locateMailboxAsync mboxName mode) =
      if p.mIsInitialised = false ∨ p.mMyMailbox.isNone then []
      else [userBytes (locateAsyncRequest env.heap (mode &&& itcMaskLocate) mboxName
        (env.idOf mboxName))] := by
  rw [requests, Requesting.run, Option.elim_some, locateMailboxAsync_fst]
  split_ifs with hidle
  · rw [allocatedFrom_of_next rfl]
    rfl
  · rw [allocatedFrom_one (deallocateMessage_next.trans (requested_next env p _)),
      List.map_singleton, adminMsg_deallocateMessage, userBytes_requested]

theorem load_replyImmediately {heap : ℕ → Byte} {name : Name} (mode : BitVec 32)
    (mailboxId : MailboxId) :
    load (userBytes (locateAsyncRequest heap mode name (some mailboxId))) 8 4 = 1 := by
  rw [userBytes_locateAsyncRequest, Option.elim_some]
  rfl

theorem neverStale_iff_same {call : Requesting}
    (h : ∀ mboxName mode, call ≠ .locateMailboxAsync mboxName mode) :
    NeverStale env p call ↔
      ∀ heap heap', requests (withHeap env heap) p call = requests (withHeap env heap') p call :=
  ⟨NeverStale.same, fun hsame => ⟨hsame, fun mboxName mode hcall => absurd hcall (h mboxName mode)⟩⟩

theorem never_stale_createMailbox (name : Name) (flags : BitVec 32) :
    NeverStale env p (.createMailbox name flags) ↔ WritesAll env p (.createMailbox name flags) := by
  rw [neverStale_iff_same (by simp), WritesAll]
  by_cases h : ∃ index, Announces env p name flags index
  · obtain ⟨index, hindex⟩ := h
    have hmade (heap : ℕ → Byte) : requests (withHeap env heap) p (.createMailbox name flags) =
        [userBytes (creationRequest (withHeap env heap) (p.emplaced env index) name flags)] :=
      @requests_createMailbox (withHeap env heap) p name flags index { hindex with }
    simp only [hmade, List.cons.injEq, and_true]
    refine (notifyRequest_same_iff 1 _ _).trans ⟨fun hand _ _ => hand.2, fun hname => ?_⟩
    exact ⟨Option.some_ne_none _, hname index hindex⟩
  · refine iff_of_true (fun heap heap' => ?_) fun index hindex => absurd ⟨index, hindex⟩ h
    rw [requests_createMailbox_nil, requests_createMailbox_nil]
    · exact fun ⟨index, hindex⟩ => h ⟨index, { hindex with }⟩
    · exact fun ⟨index, hindex⟩ => h ⟨index, { hindex with }⟩

theorem never_stale_deleteMailbox (mboxId : MailboxId) :
    NeverStale env p (.deleteMailbox mboxId) ↔ WritesAll env p (.deleteMailbox mboxId) := by
  rw [neverStale_iff_same (by simp), WritesAll]
  by_cases h : ∃ my, Withdraws p mboxId my
  · obtain ⟨my, hmy⟩ := h
    have hmade (heap : ℕ → Byte) : requests (withHeap env heap) p (.deleteMailbox mboxId) =
        [userBytes (notifyRequest heap 2 (env.remove my).mailboxId none my.name)] :=
      requests_deleteMailbox hmy
    simp only [hmade, List.cons.injEq, and_true]
    refine iff_of_false (fun hsame => ?_) fun hall => hall my hmy
    exact ((notifyRequest_same_iff 2 _ none).mp hsame).1 rfl
  · refine iff_of_true (fun heap heap' => ?_) fun my hmy => h ⟨my, hmy⟩
    rw [requests_deleteMailbox_nil h, requests_deleteMailbox_nil h]

theorem never_stale_locateMailboxAsync (mboxName : Name) (mode : BitVec 32) :
    NeverStale env p (.locateMailboxAsync mboxName mode) ↔
      WritesAll env p (.locateMailboxAsync mboxName mode) := by
  have hmade (heap : ℕ → Byte) := @requests_locateMailboxAsync (withHeap env heap) p mboxName mode
  rw [WritesAll]
  by_cases hidle : p.mIsInitialised = false ∨ p.mMyMailbox.isNone
  · simp only [if_pos hidle] at hmade
    refine iff_of_true ⟨fun heap heap' => ?_, fun _ _ _ heap req hreq => ?_⟩ (absurd hidle)
    · rw [hmade, hmade]
    · simp_all
  · simp only [if_neg hidle] at hmade
    have hsame : (∀ heap heap', requests (withHeap env heap) p (.locateMailboxAsync mboxName mode) =
        requests (withHeap env heap') p (.locateMailboxAsync mboxName mode)) ↔
          env.idOf mboxName ≠ none ∧ 0 ∉ mboxName := by
      simp only [hmade, List.cons.injEq, and_true]
      exact locateAsyncRequest_same_iff _ _
    refine ⟨fun h _ => hsame.mp h.same, fun h => ⟨hsame.mpr (h hidle), ?_⟩⟩
    rintro _ _ ⟨⟩ heap req hreq
    obtain ⟨mailboxId, hid⟩ := Option.ne_none_iff_exists'.mp (h hidle).1
    rw [hmade, List.mem_singleton] at hreq
    subst hreq
    rw [if_neg (h hidle).1]
    exact hid ▸ load_replyImmediately _ mailboxId

/-- A request has no byte from the heap exactly when all of its fields are written, and its name
up to the endpoint: by `createMailbox` for a name without a zero byte, by `locateMailboxAsync` for
one that is also found, by `deleteMailbox` never; `locateMailboxSync` sends none. -/
theorem never_stale_iff (env : Env) (p : Platform) (call : Requesting) :
    NeverStale env p call ↔ WritesAll env p call := by
  cases call with
  | createMailbox name flags => exact never_stale_createMailbox name flags
  | deleteMailbox mboxId => exact never_stale_deleteMailbox mboxId
  | locateMailboxSync mboxName mode =>
    refine iff_of_true ((neverStale_iff_same (by simp)).mpr fun heap heap' => ?_) trivial
    rw [requests_locateMailboxSync, requests_locateMailboxSync]
  | locateMailboxAsync mboxName mode => exact never_stale_locateMailboxAsync mboxName mode

/-- A name that is not found, by a caller whose requests are taken. -/
theorem stale_replyImmediately : ¬ ∀ (env : Env) (p : Platform) (call : Requesting),
    NeverStale env p call := by
  intro h
  have hstale := (h (answering true) caller (.locateMailboxAsync [] 0)).replyImmediately [] 0 rfl
    (fun _ => 1)
  simp only [requests, Requesting.run, Option.elim_some, locateMailboxAsync_fst] at hstale
  revert hstale
  decide

end Requests

end Platform

end ItcPlatform.Api
