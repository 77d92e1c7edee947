import ItcPlatform.Lib.Once

/-! `getInstance()` of the classes of which a process has one object each. -/

namespace ItcPlatform
open Interleaving

inductive ClassName
  | itcPlatform
  | threadManager
  | cWrapper
  | fileSystem
  | itcTransportLocal
  | itcTransportLSocket
  | itcTransportSysvMsgQueue
  deriving DecidableEq

/-- The classes whose `getInstance()` the constructor of a class calls. -/
def ClassName.constructor : ClassName → List ClassName
  | threadManager => [cWrapper]
  | _ => []

def singletons : Once.Makers ClassName where
  calls := ClassName.constructor
  rank c := c.constructor.length
  rank_lt c d hd := by
    cases c with
    | threadManager =>
      obtain rfl := List.mem_singleton.mp hd
      exact Nat.zero_lt_one
    | _ => cases hd

/-- `SINGLETON_DEFINITION` takes `m_singletonMutex` of the class for the whole of the call, the
constructor included; `SINGLETON_IF_DEFINITION` passes the call on. -/
abbrev getInstance {ι : Type*} :
    Interleaving.Program ι (Once.Action ClassName) (Once.Objects ClassName ι)
      (Once.Caller ClassName) :=
  Once.once singletons

/-- What the calls of `getInstance()` have made of a process. -/
structure OneEach {ι : Type*} [DecidableEq ι]
    (s : State ι (Once.Objects ClassName ι) (Once.Caller ClassName)) : Prop where
  made_once : s.shared.made.Nodup
  returned : ∀ i, ∀ r ∈ (s.locals i).results, ∃ n : ℕ, r.2 = some n ∧
    s.shared.made[n]? = some r.1 ∧ s.shared.instanceOf r.1 = some n
  completes : ∃ s', Run getInstance Once.stepOnly s s' ∧ ∀ i, (s'.locals i).stack = []

/-- In every interleaving of the calls, every class is constructed at most once and every call
returns that one object, and no calls wait for each other. -/
theorem oneEach_getInstance {ι : Type*} [Fintype ι] [DecidableEq ι]
    {s : State ι (Once.Objects ClassName ι) (Once.Caller ClassName)}
    (h : Run getInstance anyStep Once.noObjects s) : OneEach s := by
  have hsound := Once.Sound.of_run h
  refine ⟨hsound.nodup, fun i r hr => ?_, hsound.completes⟩
  obtain ⟨n, hn, hinstance⟩ := (hsound.good i).results r hr
  exact ⟨n, hn, hsound.objects r.1 n hinstance, hinstance⟩

def constructorWaits {ι : Type*} (i j : ι) : List (ι × Once.Action ClassName) :=
  [(i, .call .threadManager), (i, .step), (j, .call .cWrapper), (j, .step), (i, .step)]

theorem oneEach_getInstance_constructorWaits :
    ∃ s : State (Fin 2) (Once.Objects ClassName (Fin 2)) (Once.Caller ClassName),
      exec getInstance anyStep (constructorWaits 0 1) Once.noObjects = some s ∧
      s.shared.made = [.threadManager, .cWrapper] ∧
      getInstance 0 .step s.shared (s.locals 0) = none ∧ OneEach s := by
  obtain ⟨s, hs, hmade, hwaits⟩ :
      ∃ s : State (Fin 2) (Once.Objects ClassName (Fin 2)) (Once.Caller ClassName),
        exec getInstance anyStep (constructorWaits 0 1) Once.noObjects = some s ∧
        s.shared.made = [.threadManager, .cWrapper] ∧
        getInstance 0 .step s.shared (s.locals 0) = none := ⟨_, rfl, rfl, rfl⟩
  exact ⟨s, hs, hmade, hwaits, oneEach_getInstance (exec_run hs .start)⟩

end ItcPlatform
