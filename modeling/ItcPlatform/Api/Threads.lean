import ItcPlatform.Api.MailboxFormat
import ItcPlatform.Api.Registration
import ItcPlatform.Lib.Interleaving

/-! The threads of one process creating and deleting mailboxes, call by call, until they end and
the destructor of `m_destructKey` runs. -/

namespace ItcPlatform.Api
open Interleaving Registry TransportLocal
variable {ι : Type*}

/-- What every thread has of its own: `m_myMailbox` and its value of `m_destructKey`. -/
structure ThreadLocals where
  mMyMailbox : Option (Fin itcMaxSupportedMailboxes)
  destructKey : Option (Fin itcMaxSupportedMailboxes)
  hasEnded : Bool
  deriving DecidableEq

def ThreadLocals.Keyed (th : ThreadLocals) : Prop :=
  ∀ i, th.mMyMailbox = some i → th.destructKey = some i

inductive ThreadCall
  | createMailbox (env : Env) (place : Option (Fin itcMaxSupportedMailboxes)) (name : Name)
    (flags : BitVec 32)
  | deleteMailbox (env : Env) (mboxId : MailboxId)
  | exit (env : Env)

namespace Registry

def seenBy (r : Registry) (th : ThreadLocals) : Registry := { r with mMyMailbox := th.mMyMailbox }

def exist (r : Registry) (name : Name) : Bool :=
  decide (∃ i, (r.mMboxList.entry i).any fun mbox => mbox.name = name)

/-- `args` is the place the thread had at its last `pthread_setspecific`; `none` is the read through
a null `m_myMailbox`. -/
def destructMailboxAtThreadExit (env : Env) (r : Registry)
    (args : Fin itcMaxSupportedMailboxes) : Option Registry :=
  let myMbox := r.mMboxList.objects args
  if r.exist myMbox.name then (r.deleteMailbox env myMbox.mailboxId).map (·.1) else some r

end Registry

def ThreadLocals.created (th : ThreadLocals) (setSpecific : ℤ)
    (mMyMailbox : Option (Fin itcMaxSupportedMailboxes)) : ThreadLocals :=
  let isNew := th.mMyMailbox.isNone && mMyMailbox.isSome
  { th with
    mMyMailbox
    destructKey := if isNew ∧ setSpecific = 0 then mMyMailbox else th.destructKey }

/-- A thread with no value of the key ends without the destructor. -/
def process : Program ι ThreadCall Registry ThreadLocals := fun _ call r th =>
  if th.hasEnded then none
  else
    match call with
    | .createMailbox env place name flags =>
      let r' := ((r.seenBy th).createMailbox env place name flags).1
      some (r', th.created env.setSpecific r'.mMyMailbox)
    | .deleteMailbox env mboxId =>
      ((r.seenBy th).deleteMailbox env mboxId).map fun d =>
        (d.1, { th with mMyMailbox := d.1.mMyMailbox })
    | .exit env =>
      (th.destructKey.elim (some r) ((r.seenBy th).destructMailboxAtThreadExit env)).map
        (·, ⟨none, none, true⟩)

structure Fresh (r : Registry) : Prop where
  initialised : r.mIsInitialised = true
  region : unitOf r.mRegionId = 0
  empty : ∀ i, r.mMboxList.entry i = none

def newThreads (r : Registry) : State ι Registry ThreadLocals := ⟨r, fun _ => ⟨none, none, false⟩⟩

/-- The key is set for every new mailbox, and a thread that deletes its own mailbox succeeds. -/
def Completes (s : State ι Registry ThreadLocals) (i : ι) : ThreadCall → Prop
  | .createMailbox env _ _ _ => env.setSpecific = 0
  | .deleteMailbox env mboxId => ∀ d ∈ (s.shared.seenBy (s.locals i)).deleteMailbox env mboxId,
      ∀ index ∈ (s.locals i).mMyMailbox, mboxId = (s.shared.mMboxList.objects index).mailboxId →
        d.2 = .itcOk
  | .exit _ => True

instance (s : State ι Registry ThreadLocals) (i : ι) : ∀ call, Decidable (Completes s i call)
  | .createMailbox env _ _ _ => inferInstanceAs (Decidable (env.setSpecific = 0))
  | .deleteMailbox env mboxId => inferInstanceAs (Decidable
      (∀ d ∈ (s.shared.seenBy (s.locals i)).deleteMailbox env mboxId,
        ∀ index ∈ (s.locals i).mMyMailbox,
          mboxId = (s.shared.mMboxList.objects index).mailboxId → d.2 = .itcOk))
  | .exit _ => .isTrue trivial

/-- The registered mailboxes are those of the threads, one each, under the ids of their places. -/
structure Settled (mRegionId : MailboxId) (s : State ι Registry ThreadLocals) : Prop where
  initialised : s.shared.mIsInitialised = true
  region : s.shared.mRegionId = mRegionId
  tenants : s.shared.mMboxList.Tenants fun t => (s.locals t).mMyMailbox
  named : ∀ i, ∀ mbox ∈ s.shared.mMboxList.entry i, mbox.mailboxId = s.shared.idAt i
  keyed : ∀ t, (s.locals t).Keyed

section Calls
variable {env : Env} {place : Option (Fin itcMaxSupportedMailboxes)} {r : Registry} {name : Name}
  {flags : BitVec 32} {mboxId : MailboxId} {th : ThreadLocals}
  {index : Fin itcMaxSupportedMailboxes}

theorem unitOf_idAt (h : unitOf r.mRegionId = 0) :
    (r.idAt index &&& itcMaskUnitId).toNat = index := by
  have hunit : unitOf (BitVec.ofNat 32 index) = BitVec.ofNat 32 index :=
    unitOf_ofNat (index.isLt.trans (by decide))
  have hid : r.idAt index &&& itcMaskUnitId = BitVec.ofNat 32 index := by
    rw [idAt, BitVec.and_or_distrib_right]
    change unitOf r.mRegionId ||| unitOf (unitOf (BitVec.ofNat 32 index)) = _
    rw [h, hunit, hunit]
    exact BitVec.zero_or
  rw [hid, BitVec.toNat_ofNat, Nat.mod_eq_of_lt (index.isLt.trans (by decide))]

inductive Turn (r r' : Registry) (th th' : ThreadLocals) : Prop
  | entered (index : Fin itcMaxSupportedMailboxes) (name : Name) (new : th.mMyMailbox = none)
      (free : r.mMboxList.entry index = none)
      (entry : r'.mMboxList.entry =
        Function.update r.mMboxList.entry index (some ⟨r.idAt index, name⟩))
      (mMyMailbox : th'.mMyMailbox = some index) (destructKey : th'.destructKey = some index)
  | left (index : Fin itcMaxSupportedMailboxes) (mine : th.mMyMailbox = some index)
      (entry : r'.mMboxList.entry = Function.update r.mMboxList.entry index none)
      (mMyMailbox : th'.mMyMailbox = none)
  | stayed (entry : r'.mMboxList.entry = r.mMboxList.entry)
      (mMyMailbox : th'.mMyMailbox = th.mMyMailbox)
      (destructKey : th'.mMyMailbox = none ∨ th'.destructKey = th.destructKey)

structure SamePlatform (r r' : Registry) : Prop where
  initialised : r'.mIsInitialised = r.mIsInitialised
  region : r'.mRegionId = r.mRegionId

theorem samePlatform_createMailbox :
    SamePlatform r (r.createMailbox env place name flags).1 := by
  by_cases hplace : ∃ index, r.Emplaces place index
  · obtain ⟨index, h⟩ := hplace
    obtain ⟨memory, next, heq⟩ :=
      (@createMailbox_of_emplaces env place r index name flags h).registry
    rw [heq]
    exact ⟨rfl, rfl⟩
  · rw [createMailbox_fst hplace]
    exact ⟨rfl, rfl⟩

theorem samePlatform_deleteMailbox {d : Registry × ReturnCode}
    (h : r.deleteMailbox env mboxId = some d) : SamePlatform r d.1 := by
  by_cases hdeletes : ∃ index, r.Deletes mboxId index
  · obtain ⟨index, hindex⟩ := hdeletes
    rw [deleteMailbox_eq hindex] at h
    obtain rfl := Option.some.inj h
    dsimp only
    split_ifs <;> exact ⟨rfl, rfl⟩
  · rw [deleteMailbox_failed hdeletes h]
    exact ⟨rfl, rfl⟩

end Calls

section Step
variable {r r' : Registry} {th th' : ThreadLocals} {i : ι} {call : ThreadCall} {env : Env}
  {s : State ι Registry ThreadLocals} {mRegionId : MailboxId}

theorem turn_createMailbox {place : Option (Fin itcMaxSupportedMailboxes)} {name : Name}
    {flags : BitVec 32} (hset : env.setSpecific = 0)
    (hr : ((r.seenBy th).createMailbox env place name flags).1 = r') :
    Turn r r' th (th.created env.setSpecific r'.mMyMailbox) := by
  by_cases hplace : ∃ index, (r.seenBy th).Emplaces place index
  · obtain ⟨index, h⟩ := hplace
    obtain ⟨memory, next, heq⟩ :=
      (@createMailbox_of_emplaces env place _ index name flags h).registry
    obtain rfl := hr.symm.trans heq
    have hnew : th.mMyMailbox = none := h.new
    refine .entered index name hnew h.free entry_emplaced rfl ?_
    simp [ThreadLocals.created, hnew, hset, emplaced]
  · rw [createMailbox_fst hplace] at hr
    subst hr
    refine .stayed rfl rfl (.inr (if_neg ?_))
    cases hmine : th.mMyMailbox <;> simp [seenBy, hmine]

structure Fits (r : Registry) (th : ThreadLocals) : Prop where
  region : unitOf r.mRegionId = 0
  named : ∀ i, ∀ mbox ∈ r.mMboxList.entry i, mbox.mailboxId = r.idAt i
  registered : ∀ i, th.mMyMailbox = some i → r.mMboxList.entry i ≠ none
  keyed : th.Keyed

theorem Fits.deletes_iff (h : Fits r th) (hinit : r.mIsInitialised = true) {mboxId : MailboxId}
    {index : Fin itcMaxSupportedMailboxes} : (r.seenBy th).Deletes mboxId index ↔
      th.mMyMailbox = some index ∧ mboxId = r.idAt index := by
  have hobject (hmine : th.mMyMailbox = some index) :
      (r.mMboxList.objects index).mailboxId = r.idAt index := by
    refine h.named index _ ?_
    have hregistered := h.registered index hmine
    unfold SlotTable.entry at hregistered ⊢
    split_ifs at hregistered ⊢
    · rfl
    · exact absurd rfl hregistered
  constructor
  · rintro ⟨-, hmine, hnamed⟩
    exact ⟨hmine, hnamed.trans (hobject hmine)⟩
  · rintro ⟨hmine, hnamed⟩
    exact ⟨hinit, hmine, hnamed.trans (hobject hmine).symm⟩

theorem Fits.entry_removed (h : Fits r th) (index : Fin itcMaxSupportedMailboxes) :
    (r.removed env (r.idAt index)).entry = Function.update r.mMboxList.entry index none := by
  rw [removed, unitOf_idAt h.region]
  exact SlotTable.entry_remove _ _

theorem Fits.turn_deleteMailbox (h : Fits r th) (hinit : r.mIsInitialised = true)
    {mboxId : MailboxId} {d : Registry × ReturnCode}
    (hd : (r.seenBy th).deleteMailbox env mboxId = some d)
    (hok : ∀ index ∈ th.mMyMailbox, mboxId = (r.mMboxList.objects index).mailboxId →
      d.2 = .itcOk) : Turn r d.1 th { th with mMyMailbox := d.1.mMyMailbox } := by
  by_cases hdeletes : ∃ index, (r.seenBy th).Deletes mboxId index
  · obtain ⟨index, hindex⟩ := hdeletes
    obtain ⟨d', hd', hdeleted⟩ := @deleteMailbox_of_deletes env _ index mboxId hindex
    obtain rfl := Option.some.inj (hd.symm.trans hd')
    have htold := hdeleted.ok_iff.mp (hok index hindex.mine hindex.named)
    obtain ⟨hmine, rfl⟩ := (h.deletes_iff hinit).mp hindex
    refine .left index hmine ?_ (hdeleted.told htold).2
    rw [hdeleted.mMboxList]
    exact h.entry_removed index
  · rw [deleteMailbox_failed hdeletes hd]
    exact .stayed rfl rfl (.inr rfl)

theorem exist_of_entry {index : Fin itcMaxSupportedMailboxes}
    (h : r.mMboxList.entry index ≠ none) :
    r.exist (r.mMboxList.objects index).name = true := by
  refine decide_eq_true ⟨index, ?_⟩
  unfold SlotTable.entry at h ⊢
  split_ifs at h ⊢
  · exact decide_eq_true rfl
  · exact absurd rfl h

theorem deleteMailbox_eq_none (hinit : r.mIsInitialised = true) {mboxId : MailboxId} :
    (r.seenBy th).deleteMailbox env mboxId = none ↔ th.mMyMailbox = none := by
  have hinit' : ¬ (r.seenBy th).mIsInitialised = false := by simp [seenBy, hinit]
  unfold deleteMailbox
  rw [if_neg hinit', Option.map_eq_none_iff]
  rfl

theorem destruct_eq_none_iff (hinit : r.mIsInitialised = true)
    (index : Fin itcMaxSupportedMailboxes) :
    (r.seenBy th).destructMailboxAtThreadExit env index = none ↔
      th.mMyMailbox = none ∧ r.exist (r.mMboxList.objects index).name = true := by
  unfold destructMailboxAtThreadExit
  dsimp only
  split_ifs with hexist
  · rw [Option.map_eq_none_iff, deleteMailbox_eq_none hinit]
    exact (and_iff_left hexist).symm
  · exact iff_of_false not_false fun h => hexist h.2

theorem Fits.turn_exit (h : Fits r th) (hinit : r.mIsInitialised = true)
    (hr : th.destructKey.elim (some r) ((r.seenBy th).destructMailboxAtThreadExit env) = some r') :
    SamePlatform r r' ∧ Turn r r' th ⟨none, none, true⟩ := by
  cases hkey : th.destructKey with
  | none =>
    rw [hkey] at hr
    obtain rfl := Option.some.inj hr
    have hnew : th.mMyMailbox = none := by
      by_contra hmine
      obtain ⟨i, hi⟩ := Option.ne_none_iff_exists'.mp hmine
      cases hkey.symm.trans (h.keyed i hi)
    exact ⟨⟨rfl, rfl⟩, .stayed rfl hnew.symm (.inl rfl)⟩
  | some index =>
    rw [hkey, Option.elim_some, destructMailboxAtThreadExit] at hr
    split_ifs at hr with hexist
    · obtain ⟨d, hd, rfl⟩ := Option.map_eq_some_iff.mp hr
      have hsame := samePlatform_deleteMailbox hd
      refine ⟨⟨hsame.initialised, hsame.region⟩, ?_⟩
      have hmine : th.mMyMailbox ≠ none := fun hnew => by
        rw [(deleteMailbox_eq_none hinit).mpr hnew] at hd
        cases hd
      obtain ⟨i, hi⟩ := Option.ne_none_iff_exists'.mp hmine
      obtain rfl : index = i := Option.some.inj (hkey.symm.trans (h.keyed i hi))
      have hobject := ((h.deletes_iff hinit).mpr ⟨hi, rfl⟩).named
      have hdeletes := (h.deletes_iff hinit).mpr ⟨hi, hobject.symm⟩
      obtain ⟨d', hd', hdeleted⟩ := @deleteMailbox_of_deletes env _ index _ hdeletes
      obtain rfl := Option.some.inj (hd.symm.trans hd')
      refine .left index hi ?_ rfl
      rw [hdeleted.mMboxList]
      have hremoved := @Fits.entry_removed r th env h index
      rwa [hobject] at hremoved
    · obtain rfl := Option.some.inj hr
      refine ⟨⟨rfl, rfl⟩, .stayed rfl ?_ (.inl rfl)⟩
      by_contra hmine
      obtain ⟨i, hi⟩ := Option.ne_none_iff_exists'.mp (Ne.symm hmine)
      obtain rfl : index = i := Option.some.inj (hkey.symm.trans (h.keyed i hi))
      exact hexist (exist_of_entry (h.registered index hi))

theorem Settled.fits (h : Settled mRegionId s) (hregion : unitOf mRegionId = 0) (t : ι) :
    Fits s.shared (s.locals t) :=
  ⟨h.region.symm ▸ hregion, h.named, h.tenants.registered t, h.keyed t⟩

variable [DecidableEq ι]

theorem Settled.turn (h : Settled mRegionId s) (hsame : SamePlatform s.shared r')
    (hturn : Turn s.shared r' (s.locals i) th') :
    Settled mRegionId ⟨r', Function.update s.locals i th'⟩ := by
  have hid (j : Fin itcMaxSupportedMailboxes) : r'.idAt j = s.shared.idAt j := by
    rw [idAt, idAt, hsame.region]
  have howns : (fun t => (Function.update s.locals i th' t).mMyMailbox) =
      Function.update (fun t => (s.locals t).mMyMailbox) i th'.mMyMailbox :=
    Function.comp_update ThreadLocals.mMyMailbox s.locals i th'
  refine ⟨hsame.initialised.trans h.initialised, hsame.region.trans h.region, ?_, ?_, ?_⟩
  · rw [howns]
    cases hturn with
    | entered index name new free entry mMyMailbox =>
      rw [mMyMailbox]
      exact h.tenants.enter new free entry
    | left index mine entry mMyMailbox =>
      rw [mMyMailbox]
      exact h.tenants.leave mine entry
    | stayed entry mMyMailbox =>
      rw [mMyMailbox, Function.update_eq_self_iff.mpr rfl]
      exact ⟨fun o j hj => entry ▸ h.tenants.registered o j hj,
        fun j hj => h.tenants.owned j (entry ▸ hj), h.tenants.apart⟩
  · intro j mbox hmbox
    rw [hid]
    cases hturn with
    | entered index name _ _ entry =>
      rw [entry] at hmbox
      by_cases hj : j = index
      · subst hj
        rw [Function.update_self] at hmbox
        cases hmbox
        rfl
      · rw [Function.update_of_ne hj] at hmbox
        exact h.named j mbox hmbox
    | left index _ entry =>
      rw [entry] at hmbox
      by_cases hj : j = index
      · subst hj
        rw [Function.update_self] at hmbox
        cases hmbox
      · rw [Function.update_of_ne hj] at hmbox
        exact h.named j mbox hmbox
    | stayed entry => exact h.named j mbox (entry ▸ hmbox)
  · refine @forall_update _ _ _ _ (fun _ => ThreadLocals.Keyed) _ _ _ h.keyed (fun k hk => ?_)
      fun _ _ hkeyed => hkeyed
    cases hturn with
    | entered index _ _ _ _ mMyMailbox destructKey =>
      rw [destructKey, ← mMyMailbox, hk]
    | left _ _ _ mMyMailbox => cases mMyMailbox.symm.trans hk
    | stayed _ mMyMailbox destructKey =>
      obtain hnone | hsame := destructKey
      · cases hnone.symm.trans hk
      · rw [hsame]
        exact h.keyed i k (mMyMailbox.symm.trans hk)

theorem Settled.step (h : Settled mRegionId s) (hregion : unitOf mRegionId = 0)
    (hok : Completes s i call) (hstep : process i call s.shared (s.locals i) = some (r', th')) :
    Settled mRegionId ⟨r', Function.update s.locals i th'⟩ := by
  have hfits := h.fits hregion i
  unfold process at hstep
  split_ifs at hstep with hended
  cases call with
  | createMailbox env place name flags =>
    obtain ⟨rfl, rfl⟩ := Prod.mk.inj (Option.some.inj hstep)
    refine h.turn ?_ (turn_createMailbox hok rfl)
    have hsame := @samePlatform_createMailbox env place (s.shared.seenBy (s.locals i)) name flags
    exact ⟨hsame.initialised, hsame.region⟩
  | deleteMailbox env mboxId =>
    obtain ⟨d, hd, heq⟩ := Option.map_eq_some_iff.mp hstep
    obtain ⟨rfl, rfl⟩ := Prod.mk.inj heq
    have hsame := samePlatform_deleteMailbox hd
    exact h.turn ⟨hsame.initialised, hsame.region⟩
      (hfits.turn_deleteMailbox h.initialised hd (hok d hd))
  | exit env =>
    obtain ⟨r, hr, heq⟩ := Option.map_eq_some_iff.mp hstep
    obtain ⟨rfl, rfl⟩ := Prod.mk.inj heq
    obtain ⟨hsame, hturn⟩ := hfits.turn_exit h.initialised hr
    exact h.turn hsame hturn

end Step

structure Orderly (mRegionId : MailboxId) (s : State ι Registry ThreadLocals) : Prop where
  settled : Settled mRegionId s
  /-- no two mailboxes have the same id -/
  distinct : ∀ i j, ∀ mbox ∈ s.shared.mMboxList.entry i, ∀ mbox' ∈ s.shared.mMboxList.entry j,
    mbox.mailboxId = mbox'.mailboxId → i = j
  /-- the end of a thread reads through null exactly when it has deleted its mailbox and one is
  registered under the name that is found in its place -/
  exits : ∀ t env, (s.locals t).hasEnded = false →
    (process t (.exit env) s.shared (s.locals t) = none ↔ (s.locals t).mMyMailbox = none ∧
      ∃ i ∈ (s.locals t).destructKey, s.shared.exist (s.shared.mMboxList.objects i).name = true)

/-- Whatever the order of the calls, the registered mailboxes are those of the living threads, one
each, and no two have the same id. -/
theorem mailboxes_of_threads [DecidableEq ι] {r : Registry} {s : State ι Registry ThreadLocals}
    (hr : Fresh r) (h : Run process Completes (newThreads r) s) : Orderly r.mRegionId s := by
  have hsettled : Settled r.mRegionId s := by
    refine h.invariant ⟨hr.initialised, rfl, ⟨nofun, ?_, nofun⟩, ?_, fun _ => nofun⟩ ?_
    · exact fun i hi => absurd (hr.empty i) hi
    · intro i mbox hmbox
      cases (hr.empty i).symm.trans hmbox
    · exact fun s i call r' th' ih hok hstep => ih.step hr.region hok hstep
  refine ⟨hsettled, fun i j mbox hmbox mbox' hmbox' hsame => ?_, fun t env halive => ?_⟩
  · have hregion : unitOf s.shared.mRegionId = 0 := hsettled.region.symm ▸ hr.region
    rw [hsettled.named i mbox hmbox, hsettled.named j mbox' hmbox'] at hsame
    have hi := @unitOf_idAt s.shared i hregion
    rw [hsame, unitOf_idAt hregion] at hi
    exact Fin.ext hi.symm
  · unfold process
    rw [if_neg (by simp [halive])]
    dsimp only
    rw [Option.map_eq_none_iff]
    cases hkey : (s.locals t).destructKey with
    | none => exact iff_of_false (Option.some_ne_none _) fun ⟨_, _, hi, _⟩ => by cases hi
    | some index =>
      rw [Option.elim_some, destruct_eq_none_iff hsettled.initialised]
      simp

def deleteAndReuse {ι : Type*} (i j : ι) (place : Option (Fin itcMaxSupportedMailboxes))
    (mailboxId : MailboxId) : List (ι × ThreadCall) :=
  let env := Platform.answering true
  [(i, .createMailbox env place [] 0), (i, .deleteMailbox env mailboxId),
    (j, .createMailbox env place [] 0)]

set_option maxRecDepth 4000 in
theorem mailboxes_of_threads_deleteAndReuse :
    ∃ s : State (Fin 2) Registry ThreadLocals,
      exec process Completes (deleteAndReuse 0 1 (some 5) 0x00300005) (newThreads firstThread) =
        some s ∧
      Orderly firstThread.mRegionId s ∧
      process 0 (.exit (Platform.answering true)) s.shared (s.locals 0) = none := by
  obtain ⟨s, hs, hlocals⟩ : ∃ s : State (Fin 2) Registry ThreadLocals,
      exec process Completes (deleteAndReuse 0 1 (some 5) 0x00300005) (newThreads firstThread) =
        some s ∧
      s.locals 0 = ⟨none, some 5, false⟩ ∧ (s.locals 1).mMyMailbox = some 5 := ⟨_, rfl, rfl, rfl⟩
  have horderly := mailboxes_of_threads ⟨rfl, by decide, fun _ => rfl⟩ (exec_run hs .start)
  refine ⟨s, hs, horderly, (horderly.exits 0 _ (by rw [hlocals.1])).mpr ?_⟩
  rw [hlocals.1]
  exact ⟨rfl, 5, rfl, exist_of_entry (horderly.settled.tenants.registered 1 5 hlocals.2)⟩

end ItcPlatform.Api
