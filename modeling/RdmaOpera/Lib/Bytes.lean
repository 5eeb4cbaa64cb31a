import Mathlib.Tactic.Ring
import Mathlib.Data.List.Basic

/-!
# Bytes in memory: integers in either byte order, and ranges of a block

`ByteOrder.bytes o w n` is how a machine of byte order `o` stores the `w`-byte unsigned integer `n`,
`ByteOrder.nat o` reads it back. `slice` and `splice` read and overwrite a range of a block.
-/

namespace Lib

/-! ## Integers as bytes -/

inductive ByteOrder where
  | little | big
deriving DecidableEq, Repr

/-- Least significant byte first. -/
def leBytes : Nat → Nat → List UInt8
  | 0, _ => []
  | w + 1, n => UInt8.ofNat n :: leBytes w (n / 256)

def leNat : List UInt8 → Nat
  | [] => 0
  | b :: bs => b.toNat + 256 * leNat bs

@[simp] theorem length_leBytes : ∀ w n, (leBytes w n).length = w
  | 0, _ => rfl
  | w + 1, n => by simp [leBytes, length_leBytes w]

theorem leNat_leBytes : ∀ w n, leNat (leBytes w n) = n % 256 ^ w
  | 0, n => by simp [leBytes, leNat, Nat.mod_one]
  | w + 1, n => by
    simp only [leBytes, leNat, leNat_leBytes w]
    rw [Nat.pow_succ, Nat.mul_comm (256 ^ w), Nat.mod_mul]
    simp

theorem leNat_lt : ∀ bs : List UInt8, leNat bs < 256 ^ bs.length
  | [] => by simp [leNat]
  | b :: bs => by
    have h1 : b.toNat < 256 := b.toNat_lt
    have h2 := leNat_lt bs
    simp only [leNat, List.length_cons, Nat.pow_succ]
    omega

theorem leBytes_leNat : ∀ bs : List UInt8, leBytes bs.length (leNat bs) = bs
  | [] => rfl
  | b :: bs => by
    have hb : b.toNat < 256 := b.toNat_lt
    have hdiv : (b.toNat + 256 * leNat bs) / 256 = leNat bs := by omega
    simp only [leNat, List.length_cons, leBytes, hdiv, leBytes_leNat bs, List.cons.injEq, and_true]
    apply UInt8.toNat_inj.1
    simp only [UInt8.toNat_ofNat']
    omega

namespace ByteOrder

def bytes : ByteOrder → Nat → Nat → List UInt8
  | little, w, n => leBytes w n
  | big, w, n => (leBytes w n).reverse

def nat : ByteOrder → List UInt8 → Nat
  | little, bs => leNat bs
  | big, bs => leNat bs.reverse

@[simp] theorem length_bytes (o : ByteOrder) (w n : Nat) : (o.bytes w n).length = w := by
  cases o <;> simp [bytes]

theorem nat_bytes (o : ByteOrder) (w n : Nat) : o.nat (o.bytes w n) = n % 256 ^ w := by
  cases o <;> simp [bytes, nat, leNat_leBytes]

/-- An integer crosses from one byte order to the other if its bytes are the same either way round. -/
theorem nat_bytes_other {o o' : ByteOrder} (h : o ≠ o') {w n : Nat} (hn : n < 256 ^ w) :
    o'.nat (o.bytes w n) = n ↔ (leBytes w n).reverse = leBytes w n := by
  have hrev : ∀ bs : List UInt8, bs.length = w → (leNat bs = n ↔ bs = leBytes w n) := by
    rintro bs rfl
    constructor
    · rintro rfl
      exact (leBytes_leNat bs).symm
    · intro hbs
      rw [hbs, leNat_leBytes, Nat.mod_eq_of_lt hn]
  cases o <;> cases o'
  · exact absurd rfl h
  · exact hrev _ (by simp)
  · exact hrev _ (by simp)
  · exact absurd rfl h

end ByteOrder

/-! ## Ranges of a block -/

section
variable {α : Type}

/-- The `len` entries of `bs` from `off` on. -/
def slice (off len : Nat) (bs : List α) : List α := (bs.drop off).take len

/-- `bs` with `data` written over the entries from `off` on. -/
def splice (off : Nat) (data bs : List α) : List α :=
  bs.take off ++ data ++ bs.drop (off + data.length)

theorem length_slice {off len : Nat} {bs : List α} (h : off + len ≤ bs.length) :
    (slice off len bs).length = len := by
  simp [slice]; omega

@[simp] theorem length_splice {off : Nat} {data bs : List α} (h : off + data.length ≤ bs.length) :
    (splice off data bs).length = bs.length := by
  simp [splice]; omega

theorem slice_all (bs : List α) : slice 0 bs.length bs = bs := by simp [slice]

theorem getElem?_slice {off len : Nat} {bs : List α} {i : Nat} (h : i < len) :
    (slice off len bs)[i]? = bs[off + i]? := by
  simp [slice, h, List.getElem?_drop]

theorem getElem?_splice {off : Nat} {data bs : List α} {i : Nat} (h : off + data.length ≤ bs.length) :
    (splice off data bs)[i]? =
      if off ≤ i ∧ i < off + data.length then data[i - off]? else bs[i]? := by
  have ht : (bs.take off).length = off := by simp; omega
  unfold splice
  rw [List.append_assoc, List.getElem?_append, ht]
  split
  · rename_i hi
    rw [if_neg (by omega), List.getElem?_take, if_pos hi]
  · rename_i hi
    rw [List.getElem?_append]
    split
    · rw [if_pos (by omega)]
    · rw [if_neg (by omega), List.getElem?_drop]
      congr 1; omega

theorem slice_ext {off len off' len' : Nat} {bs cs : List α} (hlen : len = len')
    (h : ∀ i, i < len → bs[off + i]? = cs[off' + i]?) : slice off len bs = slice off' len' cs := by
  subst hlen
  apply List.ext_getElem?
  intro i
  by_cases hi : i < len
  · rw [getElem?_slice hi, getElem?_slice hi, h i hi]
  · simp [slice, hi]

/-- What was written is read back. -/
theorem slice_splice_self {off : Nat} {data bs : List α} (h : off + data.length ≤ bs.length) :
    slice off data.length (splice off data bs) = data := by
  conv_rhs => rw [← slice_all data]
  apply slice_ext rfl
  intro i hi
  rw [getElem?_splice h, if_pos (by omega), Nat.add_sub_cancel_left, Nat.zero_add]

/-- A range that does not meet the written one is unchanged. -/
theorem slice_splice_of_disjoint {off off' len : Nat} {data bs : List α}
    (h : off + data.length ≤ bs.length) (hd : off' + len ≤ off ∨ off + data.length ≤ off') :
    slice off' len (splice off data bs) = slice off' len bs := by
  apply slice_ext rfl
  intro i hi
  rw [getElem?_splice h, if_neg (by omega)]

/-- A range of a range. -/
theorem slice_slice {off len off' len' : Nat} {bs : List α} (h : off' + len' ≤ len) :
    slice off' len' (slice off len bs) = slice (off + off') len' bs := by
  apply slice_ext rfl
  intro i hi
  rw [getElem?_slice (by omega)]
  congr 1; omega

/-- Two ranges, one behind the other. -/
theorem slice_add (off m n : Nat) (bs : List α) :
    slice off (m + n) bs = slice off m bs ++ slice (off + m) n bs := by
  simp only [slice, List.take_add, List.drop_drop]

theorem slice_append_left {len : Nat} {as bs : List α} (h : as.length = len) :
    slice 0 len (as ++ bs) = as := by
  subst h; simp [slice]

theorem slice_append_right {off len : Nat} {as bs : List α} (h : as.length = off) :
    slice off len (as ++ bs) = slice 0 len bs := by
  subst h; simp [slice]

/-! ### Arrays of records of one size -/

theorem length_flatMap_range {f : Nat → List α} {w count : Nat} (h : ∀ n < count, (f n).length = w) :
    ((List.range count).flatMap f).length = w * count := by
  induction count with
  | zero => simp
  | succ c ih =>
    rw [List.range_succ, List.flatMap_append, List.length_append, ih fun n hn => h n (by omega)]
    simp [h c (by omega), Nat.mul_succ]

/-- The record at index `n`. -/
theorem slice_flatMap_range {f : Nat → List α} {w count n : Nat} (h : ∀ n < count, (f n).length = w)
    (hn : n < count) : slice (w * n) w ((List.range count).flatMap f) = f n := by
  obtain ⟨k, rfl⟩ : ∃ k, count = n + (k + 1) := ⟨count - n - 1, by omega⟩
  have hpre := length_flatMap_range fun m (hm : m < n) => h m (by omega)
  rw [List.range_add, List.flatMap_append, slice_append_right hpre, List.range_succ_eq_map]
  simp only [List.map_cons, List.flatMap_cons, Nat.add_zero]
  exact slice_append_left (h n (by omega))

/-! ### A block overwritten several times -/

/-- Overwrite the ranges of `ps` in order. -/
def patched : List (Nat × List α) → List α → List α
  | [], bs => bs
  | p :: ps, bs => patched ps (splice p.1 p.2 bs)

/-- All ranges lie inside the block. -/
def Inside (ps : List (Nat × List α)) (len : Nat) : Prop := ∀ p ∈ ps, p.1 + p.2.length ≤ len

theorem Inside.cons {p : Nat × List α} {ps : List (Nat × List α)} {bs : List α}
    (h : Inside (p :: ps) bs.length) :
    p.1 + p.2.length ≤ bs.length ∧ Inside ps (splice p.1 p.2 bs).length := by
  have hp := h p (by simp)
  refine ⟨hp, fun q hq => ?_⟩
  rw [length_splice hp]
  exact h q (by simp [hq])

theorem length_patched {ps : List (Nat × List α)} {bs : List α} (h : Inside ps bs.length) :
    (patched ps bs).length = bs.length := by
  induction ps generalizing bs with
  | nil => rfl
  | cons p ps ih =>
    obtain ⟨hp, hps⟩ := h.cons
    rw [patched, ih hps, length_splice hp]

/-- A range that no patch meets is as it was. -/
theorem slice_patched_of_disjoint {ps : List (Nat × List α)} {bs : List α} {off len : Nat}
    (h : Inside ps bs.length) (hd : ∀ p ∈ ps, off + len ≤ p.1 ∨ p.1 + p.2.length ≤ off) :
    slice off len (patched ps bs) = slice off len bs := by
  induction ps generalizing bs with
  | nil => rfl
  | cons p ps ih =>
    obtain ⟨hp, hps⟩ := h.cons
    rw [patched, ih hps fun q hq => hd q (by simp [hq])]
    exact slice_splice_of_disjoint hp (hd p (by simp))

/-- A range holds what was written to it if whatever else was written is the same or elsewhere. -/
theorem slice_patched_of_mem {ps : List (Nat × List α)} {bs : List α} {p : Nat × List α}
    (h : Inside ps bs.length) (hp : p ∈ ps)
    (hd : ∀ q ∈ ps, q = p ∨ p.1 + p.2.length ≤ q.1 ∨ q.1 + q.2.length ≤ p.1) :
    slice p.1 p.2.length (patched ps bs) = p.2 := by
  induction ps generalizing bs with
  | nil => cases hp
  | cons q ps ih =>
    obtain ⟨hq, hps⟩ := h.cons
    have hd' : ∀ q ∈ ps, q = p ∨ p.1 + p.2.length ≤ q.1 ∨ q.1 + q.2.length ≤ p.1 :=
      fun q hq => hd q (by simp [hq])
    rw [patched]
    by_cases hmem : p ∈ ps
    · exact ih hps hmem hd'
    · obtain rfl : p = q := by simpa [hmem] using hp
      rw [slice_patched_of_disjoint hps fun r hr => (hd' r hr).resolve_left fun e => hmem (e ▸ hr)]
      exact slice_splice_self hq

end

end Lib
