import Mathlib.Data.List.Pairwise
import Mathlib.Order.Nat
import Mathlib.Tactic.Tauto
import ItcPlatform.Lib.History
import ItcPlatform.ThreadManager.Manager

/-! Who holds which thread of a `ThreadManager`, and how often each is joined until the manager is
destroyed. -/

namespace ItcPlatform.ThreadManager
open Sweep History

def GetsTid (a : EntryStart) (k : Pthreads) (thr : Entry) : Prop :=
  thr.isRunning = false ∧ a.hasSyncObj = true ∧ thr.syncObj ∉ k.lockedSyncObjs ∧
    (a.configureAndStartThread = .threadManagerOk ∨ a.losesTid = true)

structure Held (k : Pthreads) (es : List Entry) : Prop where
  bound : ∀ thr ∈ es, ∀ n, thr.tid = .thread n → n < k.next
  distinct : es.Pairwise fun x y => ∀ n, x.tid = .thread n → y.tid ≠ .thread n

def Lost (k : Pthreads) (es : List Entry) (n : ℕ) : Prop :=
  n < k.next ∧ ∀ thr ∈ es, thr.tid ≠ .thread n

section Steps
variable {a : EntryStart} {b : StopAnswer} {k k' : Pthreads} {thr thr' : Entry}
  {r : Option ThreadManagerIfReturnCode} {pre es : List Entry} {n : ℕ}

theorem startThread_cases (h : startThread a k thr = some (k', thr', r)) :
    k'.cancelled = k.cancelled ∧ k'.joined = k.joined ∧
      (¬ GetsTid a k thr ∧ thr' = thr ∧ k'.next = k.next ∧ k'.timedOut = k.timedOut ∨
        GetsTid a k thr ∧ thr'.tid = .undefined ∧ thr'.isRunning = false ∧ k'.next = k.next ∧
          k'.timedOut = k.timedOut ∨
        GetsTid a k thr ∧ thr'.tid = .thread k.next ∧ k'.next = k.next + 1 ∧
          k'.timedOut = if thr'.isRunning then k.timedOut else k.next :: k.timedOut) := by
  obtain ⟨tid, syncObj, isRunning⟩ := thr
  unfold startThread at h
  split_ifs at h with hrun hobj hlocked hstart hloses hwait <;> cases h <;>
    simp_all [GetsTid]

def Passes (b : StopAnswer) (thr : Entry) : Prop :=
  thr.isRunning = true → b.cancel = 0 ∧ b.join = 0

instance (b : StopAnswer) (thr : Entry) : Decidable (Passes b thr) :=
  inferInstanceAs (Decidable (_ → _))

theorem stopThread_spec (h : stopThread b k thr = some (k', thr', r)) :
    thr'.tid = thr.tid ∧ k'.next = k.next ∧ k'.timedOut = k.timedOut ∧ (r = none ↔ Passes b thr) ∧
      (thr'.isRunning = true ↔ thr.isRunning = true ∧ ¬ Passes b thr) ∧
      ∀ n, k'.joined.count n = k.joined.count n +
        if thr.tid = .thread n ∧ thr.isRunning = true ∧ Passes b thr then 1 else 0 := by
  unfold stopThread at h
  split_ifs at h with hrun hcancel hjoin <;> cases h <;> simp_all [Passes]

theorem Held.replace (h : Held k (pre ++ thr :: es)) (hnext : k.next ≤ k'.next)
    (hnew : ∀ n, thr'.tid = .thread n → thr.tid = .thread n ∨ k.next ≤ n ∧ n < k'.next) :
    Held k' (pre ++ thr' :: es) := by
  obtain ⟨hpre, hes, hcross⟩ := List.pairwise_append.mp h.distinct
  obtain ⟨hthr, hes⟩ := List.pairwise_cons.mp hes
  have hbound (x : Entry) (hx : x ∈ pre ++ thr :: es) (n : ℕ) (hn : x.tid = .thread n) :
      thr'.tid = .thread n → thr.tid = .thread n := fun htid =>
    (hnew n htid).resolve_right fun hge => absurd (h.bound x hx n hn) (Nat.not_lt.mpr hge.1)
  have hself : thr ∈ pre ++ thr :: es := List.mem_append_right _ List.mem_cons_self
  refine ⟨fun x hx n hn => ?_,
    List.pairwise_append.mpr ⟨hpre, List.pairwise_cons.mpr ⟨fun y hy n hn hyn => ?_, hes⟩, ?_⟩⟩
  · rcases List.mem_append.mp hx with hx | hx
    · exact (h.bound x (List.mem_append_left _ hx) n hn).trans_le hnext
    rcases List.mem_cons.mp hx with rfl | hx
    · rcases hnew n hn with hold | hge
      · exact (h.bound thr hself n hold).trans_le hnext
      · exact hge.2
    · exact (h.bound x (List.mem_append_right _ (List.mem_cons_of_mem _ hx)) n hn).trans_le hnext
  · have hmem := List.mem_append_right pre (List.mem_cons_of_mem thr hy)
    exact hthr y hy n (hbound y hmem n hyn hn) hyn
  · intro x hx y hy n hn hyn
    rcases List.mem_cons.mp hy with rfl | hy
    · have hold := hbound x (List.mem_append_left _ hx) n hn hyn
      exact hcross x hx thr List.mem_cons_self n hn hold
    · exact hcross x hx y (List.mem_cons_of_mem _ hy) n hn hyn

theorem Held.start (h : Held k (pre ++ thr :: es))
    (hs : startThread a k thr = some (k', thr', r)) : Held k' (pre ++ thr' :: es) := by
  obtain ⟨-, -, ⟨-, rfl, hnext, -⟩ | ⟨-, htid, -, hnext, -⟩ | ⟨-, htid, hnext, -⟩⟩ :=
    startThread_cases hs
  · exact h.replace hnext.ge fun n hn => .inl hn
  · exact h.replace hnext.ge fun n hn => Tid.noConfusion (htid.symm.trans hn)
  · refine h.replace (hnext ▸ Nat.le_succ _) fun n hn => .inr ?_
    obtain rfl := Tid.thread.inj (htid.symm.trans hn)
    exact ⟨le_rfl, hnext ▸ Nat.lt_succ_self _⟩

theorem Held.stop (h : Held k (pre ++ thr :: es))
    (hs : stopThread b k thr = some (k', thr', r)) : Held k' (pre ++ thr' :: es) := by
  obtain ⟨htid, hnext, -⟩ := stopThread_spec hs
  exact h.replace hnext.ge fun n hn => .inl (htid ▸ hn)

/-- A thread that no entry holds, and that was not joined exactly once: it never will be. -/
def Forsaken (k : Pthreads) (es : List Entry) : Prop :=
  ∃ n, Lost k es n ∧ k.joined.count n ≠ 1

def KeepsTimedOut (a : EntryStart) (k : Pthreads) (thr : Entry) : Prop :=
  GetsTid a k thr → ∀ n, thr.tid = .thread n → n ∉ k.timedOut

def Unlocked (a : EntryStart) (k : Pthreads) (thr : Entry) : Prop :=
  thr.isRunning = false → a.hasSyncObj = true → thr.syncObj ∉ k.lockedSyncObjs

theorem isSome_startThread_iff (a : EntryStart) (k : Pthreads) (thr : Entry) :
    (startThread a k thr).isSome ↔ Unlocked a k thr := by
  unfold startThread
  split_ifs <;> simp_all [Unlocked]

theorem isSome_stopThread (b : StopAnswer) (k : Pthreads) (thr : Entry) :
    (stopThread b k thr).isSome := by
  unfold stopThread
  split_ifs <;> rfl

/-- A thread was joined, once, if it was started in time and runs no more. -/
def Counted (k : Pthreads) (thr : Entry) : Prop := ∀ n, thr.tid = .thread n →
  (thr.isRunning = true → n ∉ k.timedOut) ∧
    k.joined.count n = if thr.isRunning = true ∨ n ∈ k.timedOut then 0 else 1

structure Kept (k : Pthreads) (es : List Entry) : Prop extends Held k es where
  fresh : ∀ n, k.next ≤ n → n ∉ k.timedOut ∧ k.joined.count n = 0
  counted : ∀ thr ∈ es, Counted k thr

theorem forall_replace {P : Entry → Prop} :
    (∀ x ∈ pre ++ thr :: es, P x) ↔ (∀ x ∈ pre ++ es, P x) ∧ P thr := by
  simp only [List.forall_mem_append, List.forall_mem_cons]
  tauto

theorem Held.ne_of_others (h : Held k (pre ++ thr :: es)) (hn : thr.tid = .thread n) :
    ∀ x ∈ pre ++ es, x.tid ≠ .thread n := by
  obtain ⟨-, hes, hcross⟩ := List.pairwise_append.mp h.distinct
  intro x hx
  rcases List.mem_append.mp hx with hx | hx
  · exact fun hxn => hcross x hx thr List.mem_cons_self n hxn hn
  · exact (List.pairwise_cons.mp hes).1 x hx n hn

theorem Kept.start (h : Kept k (pre ++ thr :: es))
    (hs : startThread a k thr = some (k', thr', r)) : Kept k' (pre ++ thr' :: es) := by
  obtain ⟨-, hjoined, hcases⟩ := startThread_cases hs
  obtain ⟨hothers, hself⟩ := forall_replace.mp h.counted
  have hbound := (forall_replace.mp h.bound).1
  have hfresh := h.fresh k.next le_rfl
  have hsame (heq : k'.timedOut = k.timedOut) {x : Entry} (hx : Counted k x) : Counted k' x := by
    unfold Counted
    rw [hjoined, heq]
    exact hx
  obtain ⟨-, rfl, hnext, heq⟩ | ⟨-, htid, -, hnext, heq⟩ | ⟨-, htid, hnext, heq⟩ := hcases
  · refine ⟨h.toHeld.start hs, fun n hn => ?_, forall_replace.mpr
      ⟨fun x hx => hsame heq (hothers x hx), hsame heq hself⟩⟩
    rw [hjoined, heq]
    exact h.fresh n (hnext ▸ hn)
  · refine ⟨h.toHeld.start hs, fun n hn => ?_, forall_replace.mpr
      ⟨fun x hx => hsame heq (hothers x hx), fun n hn => Tid.noConfusion (htid.symm.trans hn)⟩⟩
    rw [hjoined, heq]
    exact h.fresh n (hnext ▸ hn)
  · -- the new thread is in nobody's books yet
    have hmem (n : ℕ) (hn : n ≠ k.next) : n ∈ k'.timedOut ↔ n ∈ k.timedOut := by
      rw [heq]
      split <;> simp [hn]
    refine ⟨h.toHeld.start hs, fun n hn => ?_, forall_replace.mpr ⟨fun x hx n hn => ?_, ?_⟩⟩
    · rw [hmem n (by omega), hjoined]
      exact h.fresh n (by omega)
    · simp only [hmem n (hbound x hx n hn).ne, hjoined]
      exact hothers x hx n hn
    · intro n hn
      obtain rfl := Tid.thread.inj (htid.symm.trans hn)
      rw [hjoined, hfresh.2, heq]
      cases thr'.isRunning <;> simp [hfresh.1]

theorem Kept.stop (h : Kept k (pre ++ thr :: es))
    (hs : stopThread b k thr = some (k', thr', r)) : Kept k' (pre ++ thr' :: es) := by
  obtain ⟨htid, hnext, htimed, -, hrun, hcount⟩ := stopThread_spec hs
  obtain ⟨hothers, hself⟩ := forall_replace.mp h.counted
  have hne (n : ℕ) (hn : thr.tid ≠ .thread n) : k'.joined.count n = k.joined.count n := by
    rw [hcount, if_neg fun hand => hn hand.1, Nat.add_zero]
  refine ⟨h.toHeld.stop hs, fun n hn => ?_, forall_replace.mpr ⟨fun x hx n hn => ?_, ?_⟩⟩
  · have hmem := List.mem_append_right pre (List.mem_cons_self (a := thr) (l := es))
    rw [htimed, hne n fun hn' => (h.bound thr hmem n hn').not_ge (hnext ▸ hn)]
    exact h.fresh n (hnext ▸ hn)
  · rw [htimed, hne n fun hn' => h.toHeld.ne_of_others hn' x hx hn]
    exact hothers x hx n hn
  · intro n hn
    have hn' : thr.tid = .thread n := htid ▸ hn
    obtain ⟨hintime, hold⟩ := hself n hn'
    simp only [htimed, hrun, hcount, hold, hn', true_and]
    refine ⟨fun hand => hintime hand.1, ?_⟩
    by_cases hrunning : thr.isRunning = true
    · by_cases hpasses : Passes b thr <;> simp [hrunning, hpasses, hintime hrunning]
    · simp [hrunning]

theorem Lost.start (h : Lost k (pre ++ thr :: es) n)
    (hs : startThread a k thr = some (k', thr', r)) : Lost k' (pre ++ thr' :: es) n := by
  obtain ⟨hothers, hself⟩ := forall_replace.mp h.2
  obtain ⟨-, -, ⟨-, rfl, hnext, -⟩ | ⟨-, htid, -, hnext, -⟩ | ⟨-, htid, hnext, -⟩⟩ :=
    startThread_cases hs
  · exact ⟨hnext ▸ h.1, h.2⟩
  · exact ⟨hnext ▸ h.1, forall_replace.mpr ⟨hothers, htid ▸ Tid.noConfusion⟩⟩
  · refine ⟨hnext ▸ Nat.lt_succ_of_lt h.1, forall_replace.mpr ⟨hothers, fun hn => ?_⟩⟩
    exact h.1.ne' (Tid.thread.inj (htid.symm.trans hn))

theorem Forsaken.start (h : Forsaken k (pre ++ thr :: es))
    (hs : startThread a k thr = some (k', thr', r)) : Forsaken k' (pre ++ thr' :: es) := by
  obtain ⟨n, hlost, hcount⟩ := h
  exact ⟨n, hlost.start hs, (startThread_cases hs).2.1 ▸ hcount⟩

theorem Counted.joined_iff (h : Counted k thr) (hidle : thr.isRunning = false)
    (hn : thr.tid = .thread n) : k.joined.count n = 1 ↔ n ∉ k.timedOut := by
  rw [(h n hn).2, hidle]
  by_cases hmem : n ∈ k.timedOut <;> simp [hmem]

theorem keepsTimedOut_iff (h : Kept k (pre ++ thr :: es)) (hgood : ¬ Forsaken k (pre ++ thr :: es))
    (hs : startThread a k thr = some (k', thr', r)) :
    KeepsTimedOut a k thr ↔ ¬ Forsaken k' (pre ++ thr' :: es) := by
  obtain ⟨-, hjoined, hcases⟩ := startThread_cases hs
  have hself : thr ∈ pre ++ thr :: es := List.mem_append_right _ List.mem_cons_self
  constructor
  · rintro hkeeps ⟨n, ⟨hn, hlost⟩, hcount⟩
    obtain ⟨hothers, hnew⟩ := forall_replace.mp hlost
    rw [hjoined] at hcount
    have hover (hgets : GetsTid a k thr) (hheld : thr.tid = .thread n) : k.joined.count n = 1 :=
      ((h.counted thr hself).joined_iff hgets.1 hheld).mpr (hkeeps hgets n hheld)
    -- lost only now: it was in this entry, which got another thread id
    obtain ⟨-, rfl, hnext, -⟩ | ⟨hgets, -, -, hnext, -⟩ | ⟨hgets, htid, hnext, -⟩ := hcases
    · exact hgood ⟨n, ⟨hnext ▸ hn, hlost⟩, hcount⟩
    · by_cases hheld : thr.tid = .thread n
      · exact hcount (hover hgets hheld)
      · exact hgood ⟨n, ⟨hnext ▸ hn, forall_replace.mpr ⟨hothers, hheld⟩⟩, hcount⟩
    · have hold : n < k.next := by
        refine lt_of_le_of_ne (Nat.lt_succ_iff.mp (hn.trans_eq hnext)) ?_
        rintro rfl
        exact hnew htid
      by_cases hheld : thr.tid = .thread n
      · exact hcount (hover hgets hheld)
      · exact hgood ⟨n, ⟨hold, forall_replace.mpr ⟨hothers, hheld⟩⟩, hcount⟩
  · intro hkept hgets n hn htimed
    have hcount : k.joined.count n ≠ 1 := fun hone =>
      ((h.counted thr hself).joined_iff hgets.1 hn).mp hone htimed
    have hbound := h.bound thr hself n hn
    have hothers := h.toHeld.ne_of_others hn
    refine hkept ⟨n, ?_, hjoined ▸ hcount⟩
    obtain ⟨hnot, -⟩ | ⟨-, htid, -, hnext, -⟩ | ⟨-, htid, hnext, -⟩ := hcases
    · exact absurd hgets hnot
    · exact ⟨hnext ▸ hbound, forall_replace.mpr ⟨hothers, htid ▸ Tid.noConfusion⟩⟩
    · refine ⟨hnext ▸ Nat.lt_succ_of_lt hbound, forall_replace.mpr ⟨hothers, fun hnew => ?_⟩⟩
      exact hbound.ne' (Tid.thread.inj (htid.symm.trans hnew))

theorem forsaken_stop (hs : stopThread b k thr = some (k', thr', r)) :
    Forsaken k' (pre ++ thr' :: es) ↔ Forsaken k (pre ++ thr :: es) := by
  obtain ⟨htid, hnext, -, -, -, hcount⟩ := stopThread_spec hs
  refine exists_congr fun n => ?_
  have hlost : Lost k' (pre ++ thr' :: es) n ↔ Lost k (pre ++ thr :: es) n := by
    rw [Lost, Lost, forall_replace, forall_replace, htid, hnext]
  rw [hlost]
  refine and_congr_right fun hn => ?_
  rw [hcount, if_neg fun hand => (forall_replace.mp hn.2).2 hand.1, Nat.add_zero]

end Steps

section Terminate
variable {stop : ℕ → StopAnswer} {k k' : Pthreads} {es es' : List Entry} {thr : Entry}
  {r : Option ThreadManagerIfReturnCode} {n i : ℕ}

def GetsPast (stop : ℕ → StopAnswer) (es : List Entry) (i : ℕ) : Prop :=
  ∀ j ≤ i, ∀ thr ∈ es[j]?, Passes (stop j) thr

instance : Decidable (GetsPast stop es i) :=
  inferInstanceAs (Decidable (∀ j ≤ i, ∀ thr ∈ es[j]?, Passes (stop j) thr))

theorem getsPast_zero : GetsPast stop (thr :: es) 0 ↔ Passes (stop 0) thr := by
  simp [GetsPast]

theorem getsPast_succ : GetsPast stop (thr :: es) (i + 1) ↔
    Passes (stop 0) thr ∧ GetsPast (fun n => stop (n + 1)) es i := by
  constructor
  · exact fun h => ⟨h 0 (Nat.zero_le _) thr rfl, fun j hj => h (j + 1) (Nat.succ_le_succ hj)⟩
  · rintro ⟨hfirst, hrest⟩ (_ | j) hj x hx
    · obtain rfl := Option.some.inj hx
      exact hfirst
    · exact hrest j (Nat.le_of_succ_le_succ hj) x hx

theorem map_tid_terminate (hs : sweep stopThread stop k es = some (k', es', r)) :
    es'.map (·.tid) = es.map (·.tid) := by
  refine sweep_keeps (I := fun _ l => l.map (·.tid) = es.map (·.tid)) ?_ rfl hs
  intro b k e k' e' r pre rest h hstep
  rw [List.map_append, List.map_cons, (stopThread_spec hstep).1, ← List.map_cons,
    ← List.map_append]
  exact h

theorem count_terminate_of_not_held (hs : sweep stopThread stop k es = some (k', es', r))
    (h : ∀ thr ∈ es, thr.tid ≠ .thread n) : k'.joined.count n = k.joined.count n := by
  refine (sweep_keeps (I := fun k₁ l => k₁.joined.count n = k.joined.count n ∧
    ∀ thr ∈ l, thr.tid ≠ .thread n) ?_ ⟨rfl, h⟩ hs).1
  rintro b k₁ e k₂ e' r pre rest ⟨hcount, hne⟩ hstep
  obtain ⟨htid, -, -, -, -, hjoin⟩ := stopThread_spec hstep
  obtain ⟨hothers, hself⟩ := forall_replace.mp hne
  refine ⟨?_, forall_replace.mpr ⟨hothers, htid ▸ hself⟩⟩
  rw [hjoin, if_neg fun hand => hself hand.1, Nat.add_zero, hcount]

theorem count_terminate (hs : sweep stopThread stop k es = some (k', es', r))
    (hd : es.Pairwise fun x y => ∀ n, x.tid = .thread n → y.tid ≠ .thread n)
    (hi : es[i]? = some thr) (hn : thr.tid = .thread n) :
    k'.joined.count n = k.joined.count n +
      if thr.isRunning = true ∧ GetsPast stop es i then 1 else 0 := by
  induction es generalizing stop k es' i with
  | nil => cases hi
  | cons e es ih =>
    obtain ⟨hfirst, hrest⟩ := List.pairwise_cons.mp hd
    obtain ⟨e', r', hstep, -, -⟩ | ⟨k₁, e', es₁, hstep, -, hsweep⟩ := sweep_cons hs
    · -- the loop ends at the first entry, so it gets past none
      obtain ⟨-, -, -, hnone, -, hcount⟩ := stopThread_spec hstep
      have hends : ¬ Passes (stop 0) e := fun hpasses => Option.some_ne_none _ (hnone.mpr hpasses)
      have hnot : ¬ GetsPast stop (e :: es) i := fun hpast =>
        hends (hpast 0 (Nat.zero_le _) e rfl)
      rw [hcount, if_neg fun hand => hends hand.2.2, if_neg fun hand => hnot hand.2]
    · obtain ⟨-, -, -, hnone, -, hcount⟩ := stopThread_spec hstep
      have hpasses : Passes (stop 0) e := hnone.mp rfl
      cases i with
      | zero =>
        obtain rfl := Option.some.inj hi
        rw [count_terminate_of_not_held hsweep fun x hx => hfirst x hx n hn, hcount]
        simp only [hn, true_and, getsPast_zero]
      | succ i =>
        have hmem : thr ∈ es := List.mem_of_getElem? hi
        rw [ih hsweep hrest hi, hcount, if_neg fun hand => hfirst thr hmem n hand.1 hn]
        simp only [getsPast_succ, hpasses, true_and, Nat.add_zero]

end Terminate

section Clear
variable {reset : ℕ → StopAnswer} {k : Pthreads} {es : List Entry} {n : ℕ}

@[simp] theorem next_clear : (Manager.clear reset k es).next = k.next := by
  induction es generalizing reset k with
  | nil => rfl
  | cons thr rest ih => rw [Manager.clear, ih, Pthreads.next_reset]

theorem count_clear_of_not_held (h : ∀ thr ∈ es, thr.tid ≠ .thread n) :
    (Manager.clear reset k es).joined.count n = k.joined.count n := by
  induction es generalizing reset k with
  | nil => rfl
  | cons thr rest ih =>
    obtain ⟨hthr, hrest⟩ := List.forall_mem_cons.mp h
    rw [Manager.clear, ih hrest, Pthreads.count_joined_reset, if_neg fun hand => hthr hand.1]
    rfl

theorem count_clear_of_held {thr : Entry} {i : ℕ}
    (h : es.Pairwise fun x y => ∀ n, x.tid = .thread n → y.tid ≠ .thread n)
    (hi : es[i]? = some thr) (hn : thr.tid = .thread n) :
    (Manager.clear reset k es).joined.count n =
      k.joined.count n + if (reset i).join = 0 then 1 else 0 := by
  induction es generalizing reset k i with
  | nil => cases hi
  | cons x rest ih =>
    obtain ⟨hx, hrest⟩ := List.pairwise_cons.mp h
    rw [Manager.clear]
    cases i with
    | zero =>
      obtain rfl := Option.some.inj hi
      rw [count_clear_of_not_held fun y hy => hx y hy n hn, Pthreads.count_joined_reset]
      simp only [hn, true_and]
    | succ i =>
      have hmem : thr ∈ rest := List.mem_of_getElem? hi
      rw [ih hrest hi, Pthreads.count_joined_reset, if_neg fun hand => hx thr hmem n hand.1 hn]
      rfl

end Clear

inductive ListCall
  | startAllThreads (answer : ℕ → EntryStart)
  | terminateAllThreads (answer : ℕ → StopAnswer)

namespace Manager

def registered (syncObjs : List ℕ) : Manager :=
  { new with mThreadList := syncObjs.map fun syncObj => ⟨.zero, syncObj, false⟩ }

def listCall (m : Manager) : ListCall → Option (Manager × ThreadManagerIfReturnCode)
  | .startAllThreads answer => m.startAllThreads answer
  | .terminateAllThreads answer => m.terminateAllThreads answer

def next (m : Manager) (c : ListCall) : Option Manager := (m.listCall c).map Prod.fst

def JoinedOnce (k : Pthreads) : Prop := ∀ n < k.next, k.joined.count n = 1

def lifetime (syncObjs : List ℕ) (calls : List ListCall) (stop reset : ℕ → StopAnswer) :
    Option Pthreads :=
  (after next calls (registered syncObjs)).bind fun m => m.destruct stop reset

/-- No start waits for a mutex that an earlier failed start left locked. -/
def StartsUnlocked (m : Manager) : ListCall → Prop
  | .startAllThreads answer => Visits startThread Unlocked answer m.pthreads m.mThreadList
  | .terminateAllThreads _ => True

/-- No start gives up a thread whose handshake timed out. -/
def StartsKeeping (m : Manager) : ListCall → Prop
  | .startAllThreads answer => Visits startThread KeepsTimedOut answer m.pthreads m.mThreadList
  | .terminateAllThreads _ => True

/-- The destructor of an entry has its join succeed exactly where the handshake of its thread timed
out, or the thread runs and `terminateAllThreads` of the manager's destructor does not get past
it. -/
def LastJoins (m : Manager) (stop reset : ℕ → StopAnswer) : Prop :=
  ∀ (i : ℕ) (thr : Entry) (n : ℕ), m.mThreadList[i]? = some thr → thr.tid = .thread n →
    ((reset i).join = 0 ↔ n ∈ m.pthreads.timedOut ∨
      thr.isRunning = true ∧ ¬ GetsPast stop m.mThreadList i)

variable {m m' : Manager} {c : ListCall} {rc : ThreadManagerIfReturnCode}

def IsKept (m : Manager) : Prop := Kept m.pthreads m.mThreadList

def IsForsaken (m : Manager) : Prop := Forsaken m.pthreads m.mThreadList

theorem tid_registered {syncObjs : List ℕ} {thr : Entry}
    (h : thr ∈ (registered syncObjs).mThreadList) : thr.tid = .zero := by
  obtain ⟨syncObj, -, rfl⟩ := List.mem_map.mp h
  rfl

theorem IsKept.registered (syncObjs : List ℕ) : IsKept (registered syncObjs) where
  bound _ hthr _ hn := Tid.noConfusion ((tid_registered hthr).symm.trans hn)
  distinct := List.pairwise_of_forall_mem_list fun _ hx _ _ _ hn =>
    Tid.noConfusion ((tid_registered hx).symm.trans hn)
  fresh _ _ := ⟨List.not_mem_nil, rfl⟩
  counted _ hthr _ hn := Tid.noConfusion ((tid_registered hthr).symm.trans hn)

theorem not_isForsaken_registered (syncObjs : List ℕ) :
    ¬ IsForsaken (Manager.registered syncObjs) := by
  rintro ⟨n, hn, -⟩
  exact absurd hn.1 (Nat.not_lt_zero n)

theorem sweep_of_loop {α : Type*} {answer : ℕ → α}
    {step : α → Pthreads → Entry → Option (Pthreads × Entry × Option ThreadManagerIfReturnCode)}
    (h : (sweep step answer m.pthreads m.mThreadList).map (fun (pthreads, mThreadList, rc) =>
      (({ m with pthreads, mThreadList } : Manager), rc.getD .threadManagerOk)) = some (m', rc)) :
    ∃ r, sweep step answer m.pthreads m.mThreadList =
      some (m'.pthreads, m'.mThreadList, r) := by
  obtain ⟨⟨k, es, r⟩, hs, heq⟩ := Option.map_eq_some_iff.mp h
  cases heq
  exact ⟨r, hs⟩

theorem startAllThreads_eq {answer : ℕ → EntryStart}
    (h : m.startAllThreads answer = some (m', rc)) :
    ∃ r, sweep startThread answer m.pthreads m.mThreadList =
      some (m'.pthreads, m'.mThreadList, r) :=
  sweep_of_loop h

theorem terminateAllThreads_eq {answer : ℕ → StopAnswer}
    (h : m.terminateAllThreads answer = some (m', rc)) :
    ∃ r, sweep stopThread answer m.pthreads m.mThreadList =
      some (m'.pthreads, m'.mThreadList, r) :=
  sweep_of_loop h

theorem isSome_terminateAllThreads (m : Manager) (answer : ℕ → StopAnswer) :
    (m.terminateAllThreads answer).isSome := by
  rw [terminateAllThreads, Option.isSome_map]
  refine (isSome_sweep_iff fun b k e => Iff.rfl).mpr ?_
  exact visits_of_forall isSome_stopThread

theorem isSome_next_iff (m : Manager) (c : ListCall) : (m.next c).isSome ↔ m.StartsUnlocked c := by
  rw [next, Option.isSome_map]
  cases c with
  | startAllThreads answer =>
    rw [listCall, startAllThreads, Option.isSome_map]
    exact isSome_sweep_iff isSome_startThread_iff
  | terminateAllThreads answer => exact iff_of_true (isSome_terminateAllThreads m answer) trivial

theorem IsKept.start {answer : ℕ → EntryStart} (h : m.IsKept)
    (hs : m.startAllThreads answer = some (m', rc)) : m'.IsKept := by
  obtain ⟨r, hs⟩ := startAllThreads_eq hs
  exact sweep_keeps (fun _ _ _ _ _ _ _ _ h hs => h.start hs) h hs

theorem IsKept.stop {answer : ℕ → StopAnswer} (h : m.IsKept)
    (hs : m.terminateAllThreads answer = some (m', rc)) : m'.IsKept := by
  obtain ⟨r, hs⟩ := terminateAllThreads_eq hs
  exact sweep_keeps (fun _ _ _ _ _ _ _ _ h hs => h.stop hs) h hs

theorem isForsaken_stop {answer : ℕ → StopAnswer}
    (hs : m.terminateAllThreads answer = some (m', rc)) : m'.IsForsaken ↔ m.IsForsaken := by
  obtain ⟨r, hs⟩ := terminateAllThreads_eq hs
  refine sweep_keeps (I := fun k es => Forsaken k es ↔ m.IsForsaken) ?_ Iff.rfl hs
  exact fun _ _ _ _ _ _ _ _ h hs => (forsaken_stop hs).trans h

theorem next_eq (hs : m.next c = some m') : ∃ rc, m.listCall c = some (m', rc) := by
  obtain ⟨⟨m', rc⟩, hcall, rfl⟩ := Option.map_eq_some_iff.mp hs
  exact ⟨rc, hcall⟩

theorem startsKeeping_iff (h : m.IsKept) (hgood : ¬ m.IsForsaken)
    (hs : m.next c = some m') : m.StartsKeeping c ↔ ¬ m'.IsForsaken := by
  obtain ⟨rc, hcall⟩ := next_eq hs
  cases c with
  | startAllThreads answer =>
    obtain ⟨r, hsweep⟩ := startAllThreads_eq hcall
    exact visits_iff (fun _ _ _ _ _ _ _ _ h hs => h.start hs)
      (fun _ _ _ _ _ _ _ _ _ hbad hs => hbad.start hs)
      (fun _ _ _ _ _ _ _ _ h hgood hs => keepsTimedOut_iff h hgood hs) h hgood hsweep
  | terminateAllThreads answer =>
    exact iff_of_true trivial ((isForsaken_stop hcall).not.mpr hgood)

theorem IsKept.next (h : m.IsKept) (hs : m.next c = some m') : m'.IsKept := by
  obtain ⟨rc, hcall⟩ := next_eq hs
  cases c with
  | startAllThreads answer => exact h.start hcall
  | terminateAllThreads answer => exact h.stop hcall

theorem IsForsaken.next (h : m.IsForsaken) (hs : m.next c = some m') : m'.IsForsaken := by
  obtain ⟨rc, hcall⟩ := next_eq hs
  cases c with
  | startAllThreads answer =>
    obtain ⟨r, hsweep⟩ := startAllThreads_eq hcall
    exact sweep_keeps (fun _ _ _ _ _ _ _ _ hbad hs => hbad.start hs) h hsweep
  | terminateAllThreads answer => exact (isForsaken_stop hcall).mpr h

theorem each_startsKeeping_iff {calls : List ListCall} {syncObjs : List ℕ}
    (h : after next calls (registered syncObjs) = some m) :
    Each next StartsKeeping calls (registered syncObjs) ↔ ¬ m.IsForsaken :=
  each_iff_of_after (fun _ _ _ h hs => IsKept.next h hs)
    (fun _ _ _ _ hbad hs => IsForsaken.next hbad hs)
    (fun _ _ _ h hgood hs => startsKeeping_iff h hgood hs) (.registered syncObjs)
    (not_isForsaken_registered syncObjs) h

theorem isSome_destruct (m : Manager) (stop reset : ℕ → StopAnswer) :
    (m.destruct stop reset).isSome := by
  rw [destruct, Option.isSome_map]
  exact isSome_terminateAllThreads m stop

theorem next_destruct {stop reset : ℕ → StopAnswer} {k : Pthreads}
    (hend : m.destruct stop reset = some k) : k.next = m.pthreads.next := by
  obtain ⟨⟨m', rc⟩, hs, rfl⟩ := Option.map_eq_some_iff.mp hend
  obtain ⟨r, hsweep⟩ := terminateAllThreads_eq hs
  rw [next_clear]
  refine sweep_keeps (I := fun k _ => k.next = m.pthreads.next) ?_ rfl hsweep
  exact fun _ _ _ _ _ _ _ _ h hs => (stopThread_spec hs).2.1.trans h

theorem count_destruct_of_not_held {stop reset : ℕ → StopAnswer} {k : Pthreads} {n : ℕ}
    (hend : m.destruct stop reset = some k) (h : ∀ thr ∈ m.mThreadList, thr.tid ≠ .thread n) :
    k.joined.count n = m.pthreads.joined.count n := by
  obtain ⟨⟨m', rc⟩, hs, rfl⟩ := Option.map_eq_some_iff.mp hend
  obtain ⟨r, hsweep⟩ := terminateAllThreads_eq hs
  have htids (x : Entry) (hx : x ∈ m'.mThreadList) : x.tid ≠ .thread n := by
    have hmem : x.tid ∈ m'.mThreadList.map (·.tid) := List.mem_map_of_mem hx
    rw [map_tid_terminate hsweep] at hmem
    obtain ⟨y, hy, htid⟩ := List.mem_map.mp hmem
    exact htid ▸ h y hy
  rw [count_clear_of_not_held htids, count_terminate_of_not_held hsweep h]

theorem count_destruct {stop reset : ℕ → StopAnswer} {k : Pthreads} (h : m.IsKept)
    (hend : m.destruct stop reset = some k) {i n : ℕ} {thr : Entry}
    (hi : m.mThreadList[i]? = some thr) (hn : thr.tid = .thread n) :
    k.joined.count n = m.pthreads.joined.count n +
      (if thr.isRunning = true ∧ GetsPast stop m.mThreadList i then 1 else 0) +
        if (reset i).join = 0 then 1 else 0 := by
  obtain ⟨⟨m', rc⟩, hs, rfl⟩ := Option.map_eq_some_iff.mp hend
  obtain ⟨r, hsweep⟩ := terminateAllThreads_eq hs
  have htids := congrArg (·[i]?) (map_tid_terminate hsweep)
  simp only [List.getElem?_map, hi, Option.map_some, hn] at htids
  obtain ⟨thr', hi', hn'⟩ := Option.map_eq_some_iff.mp htids
  rw [count_clear_of_held (h.stop hs).distinct hi' hn', count_terminate hsweep h.distinct hi hn]

theorem joinedOnce_destruct_iff {stop reset : ℕ → StopAnswer} {k : Pthreads} (h : m.IsKept)
    (hend : m.destruct stop reset = some k) :
    JoinedOnce k ↔ ¬ m.IsForsaken ∧ m.LastJoins stop reset := by
  have hone {i n : ℕ} {thr : Entry} (hi : m.mThreadList[i]? = some thr) (hn : thr.tid = .thread n) :
      k.joined.count n = 1 ↔ ((reset i).join = 0 ↔ n ∈ m.pthreads.timedOut ∨
        thr.isRunning = true ∧ ¬ GetsPast stop m.mThreadList i) := by
    obtain ⟨hintime, hcount⟩ := h.counted thr (List.mem_of_getElem? hi) n hn
    rw [count_destruct h hend hi hn, hcount]
    by_cases hrunning : thr.isRunning = true
    · by_cases hpast : GetsPast stop m.mThreadList i <;> by_cases hjoin : (reset i).join = 0 <;>
        simp [hrunning, hpast, hjoin, hintime hrunning]
    · by_cases htimed : n ∈ m.pthreads.timedOut <;> by_cases hjoin : (reset i).join = 0 <;>
        simp [hrunning, htimed, hjoin]
  have hnext : k.next = m.pthreads.next := next_destruct hend
  constructor
  · refine fun hall => ⟨?_, fun i thr n hi hn => (hone hi hn).mp ?_⟩
    · rintro ⟨n, ⟨hn, hlost⟩, hcount⟩
      exact hcount (count_destruct_of_not_held hend hlost ▸ hall n (hnext ▸ hn))
    · exact hall n (hnext ▸ h.bound thr (List.mem_of_getElem? hi) n hn)
  · rintro ⟨hkept, hlast⟩ n hn
    by_cases hex : ∃ thr ∈ m.mThreadList, thr.tid = .thread n
    · obtain ⟨thr, hthr, htid⟩ := hex
      obtain ⟨i, hi⟩ := List.mem_iff_getElem?.mp hthr
      exact (hone hi htid).mpr (hlast i thr n hi htid)
    · have hlost : ∀ thr ∈ m.mThreadList, thr.tid ≠ .thread n := fun thr hthr htid =>
        hex ⟨thr, hthr, htid⟩
      rw [count_destruct_of_not_held hend hlost]
      exact by_contra fun hcount => hkept ⟨n, ⟨hnext ▸ hn, hlost⟩, hcount⟩

theorem exists_lifetime_iff {syncObjs : List ℕ} {calls : List ListCall}
    {stop reset : ℕ → StopAnswer} {P : Pthreads → Prop} :
    (∃ k, lifetime syncObjs calls stop reset = some k ∧ P k) ↔
      ∃ m, after next calls (registered syncObjs) = some m ∧
        ∃ k, m.destruct stop reset = some k ∧ P k := by
  simp only [lifetime, Option.bind_eq_some_iff]
  constructor
  · rintro ⟨k, ⟨m, hm, hk⟩, hP⟩
    exact ⟨m, hm, k, hk, hP⟩
  · rintro ⟨m, hm, k, hk, hP⟩
    exact ⟨k, ⟨m, hm, hk⟩, hP⟩

/-- The manager's life comes to its end with every thread joined exactly once, if no start waits for
a mutex for good or gives up a thread whose handshake timed out, and the destructors of the entries
join exactly what is left. -/
theorem joinedOnce_iff {syncObjs : List ℕ} {calls : List ListCall} {stop reset : ℕ → StopAnswer} :
    (∃ k, lifetime syncObjs calls stop reset = some k ∧ JoinedOnce k) ↔
      Each next StartsUnlocked calls (registered syncObjs) ∧
        Each next StartsKeeping calls (registered syncObjs) ∧
        ∀ m ∈ after next calls (registered syncObjs), m.LastJoins stop reset := by
  rw [exists_lifetime_iff, ← isSome_after_iff isSome_next_iff]
  cases hafter : after next calls (registered syncObjs) with
  | none => exact iff_of_false (fun ⟨m, hm, _⟩ => nomatch hm) fun hand => nomatch hand.1
  | some m =>
    have hkept := after_keeps (fun _ _ _ h hs => IsKept.next h hs) (.registered syncObjs) hafter
    obtain ⟨k, hend⟩ := Option.isSome_iff_exists.mp (isSome_destruct m stop reset)
    rw [each_startsKeeping_iff hafter]
    constructor
    · rintro ⟨_, ⟨⟩, k', hend', hall⟩
      obtain ⟨hgood, hlast⟩ := (joinedOnce_destruct_iff hkept hend').mp hall
      refine ⟨rfl, hgood, ?_⟩
      rintro _ ⟨⟩
      exact hlast
    · rintro ⟨-, hgood, hlast⟩
      exact ⟨m, rfl, k, hend, (joinedOnce_destruct_iff hkept hend).mpr ⟨hgood, hlast m rfl⟩⟩

def started : EntryStart := ⟨⟨.threadManagerOk, 0⟩, true, false⟩

def timedOut : EntryStart := ⟨⟨.threadManagerOk, 110⟩, true, false⟩

theorem joinedOnce_timedOut : ∃ k,
    lifetime [0] [.startAllThreads fun _ => timedOut] (fun _ => stopped) (fun _ => stopped) =
      some k ∧ JoinedOnce k := by
  refine joinedOnce_iff.mpr ⟨⟨⟨fun _ _ => List.not_mem_nil, ?_⟩, ?_⟩, ⟨⟨?_, ?_⟩, ?_⟩, ?_⟩
  · rintro _ _ ⟨⟩
  · exact fun _ _ => trivial
  · exact fun _ _ hn => Tid.noConfusion hn
  · rintro _ _ ⟨⟩
  · exact fun _ _ => trivial
  · rintro _ ⟨⟩ (_ | i) _ _ ⟨⟩ ⟨⟩
    exact iff_of_true rfl (.inl List.mem_cons_self)

/-- A thread that is started, terminated and then joined again by the destructor of its entry. -/
theorem not_joinedOnce_terminated : ∃ k,
    lifetime [0] [.startAllThreads fun _ => started, .terminateAllThreads fun _ => stopped]
        (fun _ => stopped) (fun _ => stopped) = some k ∧ ¬ JoinedOnce k :=
  ⟨_, rfl, fun h => absurd (h 0 (by decide)) (by decide)⟩

end Manager

end ItcPlatform.ThreadManager
