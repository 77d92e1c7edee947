import ItcPlatform.Api.LifeCycle

/-! The life cycles of one SysV transport whose system calls all succeed: `initialise` and
`release`, receive threads that start, are handed frames and exit. -/

namespace ItcPlatform.SysvTransport
open History LittleEndian Api.LifeCycle

/-- A thread in `sysvMsgQueueRxThread`. It is due in its loop if it was started after a successful
`initialise` and no `release` or exit came since. -/
structure RxThread where
  isLooping : Bool
  isDue : Bool
  received : List (List Byte)
  parsed : List (List Byte)

structure RxLife where
  transport : Process
  hasInitialised : Bool
  threads : ℕ → RxThread

inductive RxLifeCall
  | initialise (regionId : MailboxId)
  | startRxThread (t : ℕ) (msgQueueId : MsgQueueId)
  | frame (t : ℕ) (text : List Byte)
  | exitRxThread (t : ℕ)
  | release

namespace RxLife

def new : RxLife := ⟨.new, false, fun _ => ⟨false, false, [], []⟩⟩

def put (s : RxLife) (t : ℕ) (thread : RxThread) : RxLife :=
  { s with threads := Function.update s.threads t thread }

def excuse (s : RxLife) : RxLife :=
  { s with threads := fun t => { s.threads t with isDue := false } }

def turn (s : RxLife) (t : ℕ) (thread : RxThread) : RxLife :=
  if s.transport.mIsRxThreadTerminated then
    { s with transport := destructRxThread s.transport }.put t { thread with isLooping := false }
  else s.put t { thread with isLooping := true }

/-- `none` where a thread starts that runs already, exits or receives without running, or where
`msgget` fails. -/
def next (s : RxLife) : RxLifeCall → Option RxLife
  | .initialise regionId =>
    let (transport, isOk) := s.transport.initialise regionId true true
    some { s with transport, hasInitialised := s.hasInitialised || isOk }
  | .startRxThread t msgQueueId =>
    if (s.threads t).isLooping = true ∨ msgQueueId = -1 then none
    else
      some ({ s with transport := { s.transport with mMsgQueueId := msgQueueId } }.turn t
        ⟨false, s.hasInitialised, [], []⟩)
  | .frame t text =>
    let thread := s.threads t
    if thread.isLooping then
      let parsed :=
        if text.length ≤ sizeofLong + itcAdminMessageMinSize then thread.parsed
        else thread.parsed ++ [text]
      some (s.turn t { thread with received := thread.received ++ [text], parsed })
    else none
  | .exitRxThread t =>
    if (s.threads t).isLooping then
      some ({ s with transport := destructRxThread s.transport }.put t
        { s.threads t with isLooping := false }).excuse
    else none
  | .release => some { s with transport := s.transport.release true }.excuse

/-- An initialised transport lets its receive threads run; those that are due are in their loop
and have handed every frame on. -/
structure Serves (s : RxLife) : Prop where
  flag : s.transport.mIsInitialised = true → s.transport.mIsRxThreadTerminated = false
  loop : ∀ t, (s.threads t).isDue = true →
    (s.threads t).isLooping = true ∧ (s.threads t).parsed = (s.threads t).received

def MeetsRunning (s : RxLife) : RxLifeCall → Prop
  | .initialise _ =>
    s.transport.mIsInitialised = false → s.transport.mIsRxThreadTerminated = false
  | .startRxThread t msgQueueId =>
    (s.threads t).isLooping = false → msgQueueId ≠ -1 → s.hasInitialised = true →
      s.transport.mIsRxThreadTerminated = false
  | .frame t text =>
    (s.threads t).isDue = true → sizeofLong + itcAdminMessageMinSize < text.length
  | .exitRxThread _ | .release => True

section Process
variable {p : Process}

@[simp] theorem mIsRxThreadTerminated_initialise (regionId : MailboxId)
    (createPath keyCreate : Bool) :
    (p.initialise regionId createPath keyCreate).1.mIsRxThreadTerminated =
      p.mIsRxThreadTerminated := by
  unfold Process.initialise
  split_ifs <;> rfl

theorem mIsInitialised_initialise (regionId : MailboxId) :
    (p.initialise regionId true true).1.mIsInitialised = true := by
  cases hinit : p.mIsInitialised <;> simp [Process.initialise, hinit]

theorem mIsRxThreadTerminated_destructRxThread (h : p.mIsRxThreadTerminated = true) :
    (destructRxThread p).mIsRxThreadTerminated = true := by
  unfold destructRxThread
  split
  · rfl
  · exact h

theorem mIsRxThreadTerminated_release (h : p.mIsRxThreadTerminated = true) :
    (p.release true).mIsRxThreadTerminated = true := by
  unfold Process.release
  split
  · rfl
  · exact h

def LetsRun (p : Process) : Prop := p.mIsInitialised = true → p.mIsRxThreadTerminated = false

theorem LetsRun.destructRxThread (h : LetsRun p) : LetsRun (destructRxThread p) := by
  unfold Api.LifeCycle.destructRxThread
  split
  · exact fun hinit => Bool.noConfusion hinit
  · exact h

theorem LetsRun.release (h : LetsRun p) : LetsRun (p.release true) := by
  unfold Process.release
  split
  · exact fun hinit => Bool.noConfusion hinit
  · exact h

end Process

variable {s s' : RxLife} {c : RxLifeCall} {calls : List RxLifeCall}

theorem mIsRxThreadTerminated_turn {t : ℕ} {thread : RxThread}
    (h : s.transport.mIsRxThreadTerminated = true) :
    (s.turn t thread).transport.mIsRxThreadTerminated = true := by
  rw [turn, if_pos h]
  exact mIsRxThreadTerminated_destructRxThread h

theorem eq_of_startRxThread {t : ℕ} {msgQueueId : MsgQueueId}
    (hs : next s (.startRxThread t msgQueueId) = some s') :
    (s.threads t).isLooping = false ∧ msgQueueId ≠ -1 ∧
      s' = { s with transport := { s.transport with mMsgQueueId := msgQueueId } }.turn t
        ⟨false, s.hasInitialised, [], []⟩ := by
  rw [next] at hs
  split at hs
  · cases hs
  · rename_i hstart
    obtain ⟨hidle, hqueue⟩ := not_or.mp hstart
    exact ⟨by simpa using hidle, hqueue, (Option.some.inj hs).symm⟩

theorem eq_of_frame {t : ℕ} {text : List Byte} (hs : next s (.frame t text) = some s') :
    s' = s.turn t { s.threads t with
      received := (s.threads t).received ++ [text]
      parsed :=
        if text.length ≤ sizeofLong + itcAdminMessageMinSize then (s.threads t).parsed
        else (s.threads t).parsed ++ [text] } := by
  dsimp only [next] at hs
  split at hs
  · exact (Option.some.inj hs).symm
  · cases hs

theorem eq_of_exitRxThread {t : ℕ} (hs : next s (.exitRxThread t) = some s') :
    s' = ({ s with transport := destructRxThread s.transport }.put t
      { s.threads t with isLooping := false }).excuse := by
  rw [next] at hs
  split at hs
  · exact (Option.some.inj hs).symm
  · cases hs

/-- Nothing ever resets the flag. -/
theorem mIsRxThreadTerminated_next (hs : next s c = some s')
    (h : s.transport.mIsRxThreadTerminated = true) :
    s'.transport.mIsRxThreadTerminated = true := by
  cases c with
  | initialise regionId =>
    obtain rfl := Option.some.inj hs
    exact (mIsRxThreadTerminated_initialise ..).trans h
  | startRxThread t msgQueueId =>
    obtain ⟨-, -, rfl⟩ := eq_of_startRxThread hs
    exact mIsRxThreadTerminated_turn h
  | frame t text =>
    obtain rfl := eq_of_frame hs
    exact mIsRxThreadTerminated_turn h
  | exitRxThread t =>
    obtain rfl := eq_of_exitRxThread hs
    exact mIsRxThreadTerminated_destructRxThread h
  | release =>
    obtain rfl := Option.some.inj hs
    exact mIsRxThreadTerminated_release h

theorem always_terminated (h : s.transport.mIsRxThreadTerminated = true) :
    Always next (fun s => s.transport.mIsRxThreadTerminated = true) calls s :=
  always_of_keeps (fun _ _ _ h hs => mIsRxThreadTerminated_next hs h) h

structure Inv (s : RxLife) : Prop extends Serves s where
  due : ∀ t, (s.threads t).isDue = true → s.transport.mIsRxThreadTerminated = false

theorem Inv.new : Inv .new where
  flag := by simp [RxLife.new, Process.new]
  loop := by simp [RxLife.new]
  due := by simp [RxLife.new]

theorem Inv.excuse {p : Process} {hasInitialised : Bool} {threads : ℕ → RxThread}
    (h : LetsRun p) : Inv (RxLife.excuse ⟨p, hasInitialised, threads⟩) where
  flag := h
  loop _ hdue := Bool.noConfusion hdue
  due _ hdue := Bool.noConfusion hdue

theorem Inv.turn {t : ℕ} {thread : RxThread} {p : Process} (h : Inv s) (hrun : LetsRun p)
    (hsame : p.mIsRxThreadTerminated = s.transport.mIsRxThreadTerminated)
    (hthread : thread.isDue = true →
      p.mIsRxThreadTerminated = false ∧ thread.parsed = thread.received) :
    Inv ({ s with transport := p }.turn t thread) := by
  cases hflag : p.mIsRxThreadTerminated with
  | true =>
    have hnone (u : ℕ) : (Function.update s.threads t { thread with isLooping := false } u).isDue ≠
        true := by
      intro hdue
      by_cases hu : u = t
      · subst hu
        rw [Function.update_self] at hdue
        exact Bool.noConfusion (hflag.symm.trans (hthread hdue).1)
      · rw [Function.update_of_ne hu] at hdue
        exact Bool.noConfusion (hflag.symm.trans (hsame.trans (h.due u hdue)))
    rw [RxLife.turn, if_pos hflag]
    exact ⟨⟨hrun.destructRxThread, fun u hdue => absurd hdue (hnone u)⟩,
      fun u hdue => absurd hdue (hnone u)⟩
  | false =>
    rw [RxLife.turn, if_neg (by simp [hflag])]
    refine ⟨⟨hrun, fun u hdue => ?_⟩, fun u _ => hflag⟩
    by_cases hu : u = t
    · subst hu
      simp only [put, Function.update_self] at hdue ⊢
      exact ⟨trivial, (hthread hdue).2⟩
    · simp only [put, Function.update_of_ne hu] at hdue ⊢
      exact h.loop u hdue

theorem Inv.next (h : Inv s) (hok : MeetsRunning s c) (hs : next s c = some s') : Inv s' := by
  cases c with
  | initialise regionId =>
    obtain rfl := Option.some.inj hs
    have hflag := mIsRxThreadTerminated_initialise (p := s.transport) regionId true true
    refine ⟨⟨fun _ => ?_, h.loop⟩, fun t hdue => hflag.trans (h.due t hdue)⟩
    refine hflag.trans ?_
    cases hinit : s.transport.mIsInitialised with
    | true => exact h.flag hinit
    | false => exact hok hinit
  | startRxThread t msgQueueId =>
    obtain ⟨hidle, hqueue, rfl⟩ := eq_of_startRxThread hs
    exact h.turn h.flag rfl fun hdue => ⟨hok hidle hqueue hdue, rfl⟩
  | frame t text =>
    obtain rfl := eq_of_frame hs
    refine h.turn h.flag rfl fun hdue => ⟨h.due t hdue, ?_⟩
    dsimp only
    rw [if_neg (not_le.mpr (hok hdue)), (h.loop t hdue).2]
  | exitRxThread t =>
    obtain rfl := eq_of_exitRxThread hs
    exact .excuse (LetsRun.destructRxThread h.flag)
  | release =>
    obtain rfl := Option.some.inj hs
    exact .excuse (LetsRun.release h.flag)

theorem not_serves_of_not_meetsRunning (h : Inv s) (hnot : ¬ MeetsRunning s c) :
    ∃ s', next s c = some s' ∧ ¬ Serves s' := by
  cases c with
  | initialise regionId =>
    obtain ⟨-, hflag⟩ := Classical.not_imp.mp hnot
    refine ⟨_, rfl, fun hserves => hflag ?_⟩
    exact (mIsRxThreadTerminated_initialise ..).symm.trans
      (hserves.flag (mIsInitialised_initialise regionId))
  | startRxThread t msgQueueId =>
    obtain ⟨hidle, hnot⟩ := Classical.not_imp.mp hnot
    obtain ⟨hqueue, hnot⟩ := Classical.not_imp.mp hnot
    obtain ⟨hdue, hflag⟩ := Classical.not_imp.mp hnot
    refine ⟨_, if_neg (not_or.mpr ⟨by simp [hidle], hqueue⟩), fun hserves => ?_⟩
    have hloop := hserves.loop t
    rw [turn, if_pos (by simpa using hflag)] at hloop
    simp [put, hdue] at hloop
  | frame t text =>
    obtain ⟨hdue, hshort⟩ := Classical.not_imp.mp hnot
    refine ⟨_, if_pos (h.loop t hdue).1, fun hserves => ?_⟩
    have hloop := hserves.loop t
    rw [turn, if_neg (by simp [h.due t hdue])] at hloop
    have heq := (hloop (by simpa [put] using hdue)).2
    simp only [put, Function.update_self, if_pos (not_lt.mp hshort), (h.loop t hdue).2] at heq
    simpa using congrArg List.length heq
  | exitRxThread t => exact absurd trivial hnot
  | release => exact absurd trivial hnot

/-- The transport serves throughout exactly where its receive thread was never ended before an
`initialise` or a start, and no due thread is handed a text that its loop drops. -/
theorem always_serves_iff : Always next Serves calls .new ↔ Each next MeetsRunning calls .new :=
  always_iff_each (I := Inv) (fun _ h => h.toServes) (fun _ _ _ h hok hs => h.next hok hs)
    (fun _ _ h hnot => not_serves_of_not_meetsRunning h hnot) .new

/-- A second life cycle: the transport is initialised again after its receive thread exited. -/
theorem not_always_serves_restarted : ¬ Always next Serves
    [.initialise 0x00100000, .startRxThread 0 5, .exitRxThread 0, .initialise 0x00100000] .new := by
  intro h
  have hserves := (h.2 _ rfl).2 _ rfl |>.2 _ rfl |>.2 _ rfl
  exact Bool.noConfusion (hserves.flag rfl)

end RxLife
end ItcPlatform.SysvTransport
