import Mathlib.Data.Finset.Card
import Mathlib.Data.Nat.Count
import Mathlib.Data.Nat.ModEq
import Mathlib.Data.Set.Function
import Mathlib.Order.Interval.Set.Basic
import Mathlib.Tactic.Ring

/-! A ring of slots addressed by an endless sequence of tickets, any window of `period`
consecutive tickets meeting every slot once. One consumer empties the slots in ticket
order; whatever lies in a slot therefore already has the position at which it will be taken. -/

variable {S E : Type*}

structure TicketRing (S : Type*) where
  period : ℕ
  slot : ℕ → S
  inj : ∀ R, Set.InjOn slot (Set.Ico R (R + period))
  surj : ∀ R s, ∃ c, (R ≤ c ∧ c < R + period) ∧ slot c = s

namespace TicketRing
variable (ring : TicketRing S)

theorem period_pos (s : S) : 0 < ring.period := by
  obtain ⟨c, ⟨_, _⟩, _⟩ := ring.surj 0 s
  omega

theorem slot_add_period (R : ℕ) : ring.slot (R + ring.period) = ring.slot R := by
  have hpos := ring.period_pos (ring.slot R)
  obtain ⟨d, ⟨hle, hlt⟩, hd⟩ := ring.surj R (ring.slot (R + ring.period))
  rcases hle.eq_or_lt with rfl | hlt'
  · exact hd.symm
  · have hd' : d ∈ Set.Ico (R + 1) (R + 1 + ring.period) := ⟨hlt', by omega⟩
    have he : R + ring.period ∈ Set.Ico (R + 1) (R + 1 + ring.period) := ⟨by omega, by omega⟩
    have := ring.inj (R + 1) hd' he hd
    omega

theorem slot_ne_of_lt {R c : ℕ} (h : R < c) (h' : c < R + ring.period) :
    ring.slot c ≠ ring.slot R := fun he => by
  have := ring.inj R ⟨h.le, h'⟩ ⟨le_rfl, by omega⟩ he
  omega

section Position
variable [DecidableEq S]

/-- The first ticket from `R` on that addresses the slot. -/
def position (R : ℕ) (s : S) : ℕ :=
  Nat.find (p := fun c => (R ≤ c ∧ c < R + ring.period) ∧ ring.slot c = s) (ring.surj R s)

theorem position_spec (R : ℕ) (s : S) :
    (R ≤ ring.position R s ∧ ring.position R s < R + ring.period) ∧
      ring.slot (ring.position R s) = s :=
  Nat.find_spec (p := fun c => (R ≤ c ∧ c < R + ring.period) ∧ ring.slot c = s) (ring.surj R s)

theorem eq_position {R c : ℕ} {s : S} (h : R ≤ c) (h' : c < R + ring.period)
    (hs : ring.slot c = s) : c = ring.position R s := by
  obtain ⟨⟨hle, hlt⟩, heq⟩ := ring.position_spec R s
  exact ring.inj R ⟨h, h'⟩ ⟨hle, hlt⟩ (hs.trans heq.symm)

def tickets (N : ℕ) (s : S) : ℕ := Nat.count (fun t => ring.slot t = s) N

theorem tickets_succ (N : ℕ) (s : S) :
    ring.tickets (N + 1) s = ring.tickets N s + if ring.slot N = s then 1 else 0 :=
  Nat.count_succ _ N

theorem tickets_position (R : ℕ) (s : S) :
    ring.tickets (ring.position R s) s = ring.tickets R s := by
  obtain ⟨⟨hle, hlt⟩, _⟩ := ring.position_spec R s
  obtain ⟨d, hd⟩ := Nat.exists_eq_add_of_le hle
  have hnone : Nat.count (fun k => ring.slot (R + k) = s) d = 0 := by
    rw [Nat.count_iff_forall_not]
    intro k hk hs
    have := ring.eq_position (Nat.le_add_right R k) (by omega) hs
    omega
  rw [hd, tickets, Nat.count_add, hnone, Nat.add_zero, tickets]

theorem position_lt {R N : ℕ} {s : S} (h : ring.tickets R s < ring.tickets N s) :
    ring.position R s < N := by
  by_contra hcon
  have := Nat.count_monotone (fun t => ring.slot t = s) (not_lt.mp hcon)
  have hpos := ring.tickets_position R s
  simp only [tickets] at h this hpos
  omega

/-- Where the tickets not yet served at a slot are all those of a set, the oldest of them waits for
a position no earlier than itself. -/
theorem le_position {R N t : ℕ} {unserved : Finset ℕ} (hlt : ∀ k ∈ unserved, k < N)
    (hslots : ring.tickets N (ring.slot t) = ring.tickets R (ring.slot t) +
      (unserved.filter fun k => ring.slot k = ring.slot t).card)
    (ht : t ∈ unserved) (hold : ∀ k ∈ unserved, k < t → ring.slot k ≠ ring.slot t) :
    t ≤ ring.position R (ring.slot t) := by
  set s := ring.slot t
  have hcount (n : ℕ) :
      ring.tickets n s = ((Finset.range n).filter fun k => ring.slot k = s).card :=
    Nat.count_eq_card_filter_range _ n
  -- the tickets below `t` and those not served make no more than the tickets below `N`
  have hdisjoint : Disjoint ((Finset.range t).filter fun k => ring.slot k = s)
      (unserved.filter fun k => ring.slot k = s) := by
    rw [Finset.disjoint_left]
    intro k hk hk'
    rw [Finset.mem_filter] at hk hk'
    exact hold k hk'.1 (Finset.mem_range.mp hk.1) hk.2
  have hsubset : ((Finset.range t).filter fun k => ring.slot k = s) ∪
      (unserved.filter fun k => ring.slot k = s) ⊆
        (Finset.range N).filter fun k => ring.slot k = s := by
    intro k hk
    simp only [Finset.mem_union, Finset.mem_filter, Finset.mem_range] at hk ⊢
    rcases hk with ⟨hk, hs⟩ | ⟨hk, hs⟩
    · exact ⟨hk.trans (hlt t ht), hs⟩
    · exact ⟨hlt k hk, hs⟩
  have hle := Finset.card_le_card hsubset
  rw [Finset.card_union_of_disjoint hdisjoint, ← hcount, ← hcount, hslots] at hle
  by_contra hcon
  have hsucc := ring.tickets_succ (ring.position R s) s
  rw [if_pos (ring.position_spec R s).2, ring.tickets_position] at hsucc
  have hmono : ring.tickets (ring.position R s + 1) s ≤ ring.tickets t s :=
    Nat.count_monotone _ (not_le.mp hcon)
  omega

end Position

def At (taken : List E) (slots : S → Option E) (c : ℕ) (x : E) : Prop :=
  taken[c]? = some x ∨
    (taken.length ≤ c ∧ c < taken.length + ring.period) ∧ slots (ring.slot c) = some x

variable {ring} {taken : List E} {slots : S → Option E}

theorem At.taken_of_lt {c : ℕ} {x : E} (h : ring.At taken slots c x) (hc : c < taken.length) :
    taken[c]? = some x := by
  rcases h with h | ⟨h, _⟩
  · exact h
  · omega

variable [DecidableEq S]

theorem at_fill {s : S} {y x : E} {c : ℕ} (hs : slots s = none) :
    ring.At taken (Function.update slots s (some y)) c x ↔
      ring.At taken slots c x ∨ (c = ring.position taken.length s ∧ x = y) := by
  -- filling an empty slot gives the element its position and moves no other
  obtain ⟨⟨hle, hlt⟩, hpos⟩ := ring.position_spec taken.length s
  constructor
  · rintro (h | ⟨⟨h, h'⟩, hx⟩)
    · exact .inl (.inl h)
    · by_cases hc : ring.slot c = s
      · rw [hc, Function.update_self] at hx
        exact .inr ⟨ring.eq_position h h' hc, (Option.some.inj hx).symm⟩
      · rw [Function.update_of_ne hc] at hx
        exact .inl (.inr ⟨⟨h, h'⟩, hx⟩)
  · rintro ((h | ⟨h, hx⟩) | ⟨rfl, rfl⟩)
    · exact .inl h
    · have hc : ring.slot c ≠ s := fun he => by simp [he, hs] at hx
      exact .inr ⟨h, by rwa [Function.update_of_ne hc]⟩
    · exact .inr ⟨⟨hle, hlt⟩, by rw [hpos, Function.update_self]⟩

theorem at_take {y x : E} {c : ℕ} (hs : slots (ring.slot taken.length) = some y) :
    ring.At (taken ++ [y]) (Function.update slots (ring.slot taken.length) none) c x ↔
      ring.At taken slots c x := by
  -- taking the element whose turn it is moves no element to another position
  have hpos := ring.period_pos (ring.slot taken.length)
  simp only [At, List.length_append, List.length_singleton]
  rcases lt_trichotomy c taken.length with hc | rfl | hc
  · rw [List.getElem?_append_left hc]
    constructor <;> rintro (h | ⟨⟨h, _⟩, _⟩) <;> first | exact .inl h | omega
  · rw [List.getElem?_append_right le_rfl, List.getElem?_eq_none le_rfl, hs]
    simp only [Nat.sub_self, List.getElem?_cons_zero, reduceCtorEq, false_or]
    constructor
    · rintro (h | ⟨⟨h, _⟩, _⟩)
      · exact ⟨⟨le_rfl, by omega⟩, h⟩
      · omega
    · exact fun h => .inl h.2
  · rw [List.getElem?_eq_none (by simp; omega), List.getElem?_eq_none hc.le]
    simp only [reduceCtorEq, false_or]
    constructor
    · rintro ⟨⟨h, h'⟩, hx⟩
      rcases Nat.lt_or_ge c (taken.length + ring.period) with hlt | hge
      · rw [Function.update_of_ne (ring.slot_ne_of_lt hc hlt)] at hx
        exact ⟨⟨hc.le, hlt⟩, hx⟩
      · -- one lap ahead lies the slot just emptied
        obtain rfl : c = taken.length + ring.period := by omega
        rw [ring.slot_add_period, Function.update_self] at hx
        cases hx
    · rintro ⟨⟨_, h'⟩, hx⟩
      exact ⟨⟨hc, by omega⟩, by rwa [Function.update_of_ne (ring.slot_ne_of_lt hc h')]⟩

/-- A counter that wraps at `N` gives the `m` residues of a window, unless the window crosses the
wrap and `m` does not divide `N`. -/
theorem injOn_wrapped_mod_iff {m N t : ℕ} (hm : m ≤ N) (ht : t < N) :
    Set.InjOn (fun k => (t + k) % N % m) (Set.Iio m) ↔ m ∣ N ∨ t + m ≤ N := by
  constructor
  · intro hinj
    by_contra hcon
    obtain ⟨hdvd, hwrap⟩ := not_or.mp hcon
    have hr : N % m ≠ 0 := fun h => hdvd (Nat.dvd_of_mod_eq_zero h)
    have hrm := Nat.mod_lt N (show 0 < m by omega)
    have hdiv := Nat.div_add_mod N m
    set r := N % m
    rcases Nat.lt_or_ge (N - t) r with hlt | hge
    · -- the first ticket comes again `r` tickets later, after the wrap
      have hfirst : (t + 0) % N % m = r - (N - t) := by
        rw [Nat.mod_eq_of_lt (show t + 0 < N by omega),
          show t + 0 = (r - (N - t)) + m * (N / m) by omega, Nat.add_mul_mod_self_left,
          Nat.mod_eq_of_lt (by omega)]
      have hlater : (t + r) % N % m = r - (N - t) := by
        rw [show t + r = (r - (N - t)) + N by omega, Nat.add_mod_right,
          Nat.mod_eq_of_lt (show r - (N - t) < N by omega), Nat.mod_eq_of_lt (by omega)]
      have := hinj (show 0 < m by omega) hrm (hfirst.trans hlater.symm)
      omega
    · -- ticket 0 meets the last multiple of `m` before the wrap
      have hbefore : (t + (N - t - r)) % N % m = 0 := by
        rw [Nat.mod_eq_of_lt (show t + (N - t - r) < N by omega),
          show t + (N - t - r) = m * (N / m) by omega, Nat.mul_mod_right]
      have hzero : (t + (N - t)) % N % m = 0 := by
        rw [show t + (N - t) = N by omega, Nat.mod_self, Nat.zero_mod]
      have := hinj (show N - t - r < m by omega) (show N - t < m by omega)
        (hbefore.trans hzero.symm)
      omega
  · intro h k hk k' hk' heq
    simp only [Set.mem_Iio] at hk hk'
    have hmod : (t + k) % m = (t + k') % m := by
      rcases h with hdvd | hle
      · simpa only [Nat.mod_mod_of_dvd _ hdvd] using heq
      · simpa only [Nat.mod_eq_of_lt (show t + k < N by omega),
          Nat.mod_eq_of_lt (show t + k' < N by omega)] using heq
    have := Nat.ModEq.add_left_cancel' t hmod
    rwa [Nat.ModEq, Nat.mod_eq_of_lt hk, Nat.mod_eq_of_lt hk'] at this

end TicketRing
