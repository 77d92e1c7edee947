import Mathlib.Data.List.Basic
import Mathlib.Tactic.Ring

/-! Little-endian numbers in a list of bytes, and memory as such a list: loads and stores
of byte ranges at an offset. -/

namespace LittleEndian

abbrev Byte := BitVec 8

def encode : ℕ → ℕ → List Byte
  | 0, _ => []
  | n + 1, x => BitVec.ofNat 8 x :: encode n (x / 256)

def decode : List Byte → ℕ
  | [] => 0
  | b :: bs => b.toNat + 256 * decode bs

@[simp] theorem length_encode (n x : ℕ) : (encode n x).length = n := by
  induction n generalizing x with
  | zero => rfl
  | succ n ih => simp [encode, ih]

theorem decode_encode {n x : ℕ} (h : x < 256 ^ n) : decode (encode n x) = x := by
  induction n generalizing x with
  | zero => simp at h; simp [encode, decode, h]
  | succ n ih =>
    have hdiv : x / 256 < 256 ^ n := Nat.div_lt_of_lt_mul (by rwa [← pow_succ'])
    rw [encode, decode, ih hdiv, BitVec.toNat_ofNat]
    omega

/-- The number held by the `n` bytes at `off`. -/
def load (m : List Byte) (off n : ℕ) : ℕ := decode ((m.drop off).take n)

def store (m : List Byte) (off : ℕ) (bs : List Byte) : List Byte :=
  m.take off ++ bs ++ m.drop (off + bs.length)

variable {m bs : List Byte} {off : ℕ}

theorem length_store (h : off + bs.length ≤ m.length) : (store m off bs).length = m.length := by
  simp only [store, List.length_append, List.length_take, List.length_drop]
  omega

theorem getElem?_store (h : off + bs.length ≤ m.length) (i : ℕ) :
    (store m off bs)[i]? =
      if off ≤ i ∧ i < off + bs.length then bs[i - off]? else m[i]? := by
  have hlen : (m.take off).length = off := by simp; omega
  by_cases h1 : i < off
  · rw [store, List.append_assoc, List.getElem?_append_left (by omega),
      List.getElem?_take_of_lt h1, if_neg (by omega)]
  · by_cases h2 : i < off + bs.length
    · rw [store, List.append_assoc, List.getElem?_append_right (by omega),
        List.getElem?_append_left (by omega), hlen, if_pos (by omega)]
    · rw [store, List.getElem?_append_right (by simp; omega), List.getElem?_drop, if_neg (by omega)]
      congr 1
      simp only [List.length_append, hlen]
      omega

theorem getElem?_drop_take (m : List Byte) (off n i : ℕ) :
    ((m.drop off).take n)[i]? = if i < n then m[off + i]? else none := by
  split_ifs with h
  · rw [List.getElem?_take_of_lt h, List.getElem?_drop]
  · exact List.getElem?_eq_none (by simp; omega)

theorem slice_store_self (h : off + bs.length ≤ m.length) :
    ((store m off bs).drop off).take bs.length = bs := by
  apply List.ext_getElem?
  intro i
  rw [getElem?_drop_take, getElem?_store h]
  split_ifs with h1 h2
  · rw [Nat.add_sub_cancel_left]
  · omega
  · exact (List.getElem?_eq_none (by omega)).symm

theorem slice_store_disjoint (h : off + bs.length ≤ m.length) {off' n : ℕ}
    (hd : off' + n ≤ off ∨ off + bs.length ≤ off') :
    ((store m off bs).drop off').take n = (m.drop off').take n := by
  apply List.ext_getElem?
  intro i
  rw [getElem?_drop_take, getElem?_drop_take]
  split_ifs with h1
  · rw [getElem?_store h, if_neg (by omega)]
  · rfl

theorem load_store_self (h : off + bs.length ≤ m.length) :
    load (store m off bs) off bs.length = decode bs := by
  rw [load, slice_store_self h]

theorem load_store_disjoint (h : off + bs.length ≤ m.length) {off' n : ℕ}
    (hd : off' + n ≤ off ∨ off + bs.length ≤ off') :
    load (store m off bs) off' n = load m off' n := by
  rw [load, slice_store_disjoint h hd, load]

theorem load_append_left {n x : ℕ} (h : x < 256 ^ n) (m : List Byte) :
    load (encode n x ++ m) 0 n = x := by
  rw [load, List.drop_zero, List.take_append_of_le_length (length_encode n x).ge,
    List.take_of_length_le (length_encode n x).le, decode_encode h]

theorem load_take {n k : ℕ} (h : off + k ≤ n) : load (m.take n) off k = load m off k := by
  rw [load, List.drop_take, List.take_take, Nat.min_eq_left (by omega), load]

theorem load_append_right (a m : List Byte) (off n : ℕ) :
    load (a ++ m) (a.length + off) n = load m off n := by
  rw [load, List.drop_length_add_append, load]

theorem drop_store {n : ℕ} (h : n + off ≤ m.length) :
    (store m (n + off) bs).drop n = store (m.drop n) off bs := by
  have htake : (m.take (n + off)).length = n + off := List.length_take_of_le h
  rw [store, store, List.append_assoc, List.drop_append_of_le_length (by omega), List.drop_take,
    Nat.add_sub_cancel_left, List.drop_drop, List.append_assoc, Nat.add_assoc]

theorem store_append {a b c : List Byte} (hoff : a.length = off) (hbs : b.length = bs.length) :
    store (a ++ (b ++ c)) off bs = a ++ (bs ++ c) := by
  rw [store, ← hoff, ← hbs, List.take_left, ← List.drop_drop, List.drop_left, List.drop_left,
    List.append_assoc]

theorem store_skip {a : List Byte} (h : a.length ≤ off) :
    store (a ++ m) off bs = a ++ store m (off - a.length) bs := by
  obtain ⟨n, rfl⟩ := Nat.exists_eq_add_of_le h
  rw [store, store, List.take_length_add_append, Nat.add_assoc, List.drop_length_add_append,
    Nat.add_sub_cancel_left, List.append_assoc, List.append_assoc, List.append_assoc]

theorem store_append_left {b c : List Byte} (hbs : b.length = bs.length) :
    store (b ++ c) 0 bs = bs ++ c := @store_append bs 0 [] b c rfl hbs

theorem store_append_right {a b : List Byte} (hoff : a.length = off) (hbs : b.length = bs.length) :
    store (a ++ b) off bs = a ++ bs := by
  have h := store_append (c := []) hoff hbs
  rwa [List.append_nil, List.append_nil] at h

theorem store_zero (h : bs.length = m.length) : store m 0 bs = bs := by
  simp [store, h]

end LittleEndian
