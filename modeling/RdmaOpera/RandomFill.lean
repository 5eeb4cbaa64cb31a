import RdmaOpera.Lib.Bytes
import RdmaOpera.Lib.Stores

/-!
# `malloc_random` (`dccs_utils.h:471-494`)

The block is filled by a loop over words and a loop over the bytes that are left. The answers of the
two allocators and of `rand` are parameters; addresses are those of a flat memory.
-/

namespace RdmaOpera

open Lib

/-- `sizeof(int)`. -/
def sizeofInt : Nat := 4

variable (o : ByteOrder) (r : Int32)

/-- The bytes of `r` in memory, and `(char)r`. -/
def intBytes : List UInt8 := o.bytes sizeofInt r.toUInt32.toNat
def charOf : UInt8 := r.toUInt32.toUInt8

/-- `*((int *)buf + n) = r`. -/
def storeInt (buf n : Nat) : Store UInt8 := ⟨buf + n * sizeofInt, intBytes o r⟩

/-- `*((char *)buf + n) = (char)r`. -/
def storeChar (buf n : Nat) : Store UInt8 := ⟨buf + n, [charOf r]⟩

/-- The two loops. -/
def fillRandom (buf size : Nat) : List (Store UInt8) :=
  (List.range (size / sizeofInt)).map (storeInt o r buf) ++
    (List.range' (size / sizeofInt * sizeofInt) (size - size / sizeofInt * sizeofInt)).map (storeChar r buf)

/-- The block, if one of the allocators has returned one, and what is stored in it. -/
def mallocRandom (posixMemalign malloc : Option Nat) (size : Nat) :
    Option (Nat × List (Store UInt8)) :=
  (posixMemalign <|> malloc).map fun buf => (buf, fillRandom o r buf size)

/-- Every byte of the block is stored once, and nothing else is. -/
structure RandomFilled (buf size : Nat) (stores : List (Store UInt8)) : Prop where
  once : stores.flatMap Store.addrs = List.range' buf size
  outside : ∀ mem a, ¬ Range.Contains ⟨buf, size⟩ a → stored stores mem a = mem a
  words : ∀ mem, ∀ n < size / sizeofInt,
    contents (stored stores mem) ⟨buf + n * sizeofInt, sizeofInt⟩ = intBytes o r
  rest : ∀ mem i, size / sizeofInt * sizeofInt ≤ i → i < size →
    stored stores mem (buf + i) = charOf r

@[simp] theorem length_intBytes : (intBytes o r).length = sizeofInt := by simp [intBytes]

section
variable {o r} {buf size : Nat}

theorem mem_fillRandom {s : Store UInt8} : s ∈ fillRandom o r buf size ↔
    (∃ n < size / sizeofInt, s = storeInt o r buf n) ∨
      ∃ i, size / sizeofInt * sizeofInt ≤ i ∧ i < size ∧ s = storeChar r buf i := by
  have hle : size / sizeofInt * sizeofInt ≤ size := Nat.div_mul_le_self _ _
  simp only [fillRandom, List.mem_append, List.mem_map, List.mem_range, List.mem_range'_1]
  constructor
  · rintro (⟨n, hn, rfl⟩ | ⟨i, ⟨hi, hlt⟩, rfl⟩)
    · exact .inl ⟨n, hn, rfl⟩
    · exact .inr ⟨i, hi, by omega, rfl⟩
  · rintro (⟨n, hn, rfl⟩ | ⟨i, hi, hlt, rfl⟩)
    · exact .inl ⟨n, hn, rfl⟩
    · exact .inr ⟨i, ⟨hi, by omega⟩, rfl⟩

theorem contains_storeInt {n a : Nat} :
    (storeInt o r buf n).range.Contains a ↔ buf + n * sizeofInt ≤ a ∧
      a < buf + n * sizeofInt + sizeofInt := by
  simp [storeInt, Store.range, Range.Contains]

theorem contains_storeChar {i a : Nat} : (storeChar r buf i).range.Contains a ↔ a = buf + i := by
  simp only [storeChar, Store.range, Range.Contains, List.length_singleton]
  omega

/-- The first loop ends where the second one begins, and the second where the block does. -/
theorem fillRandom_once : (fillRandom o r buf size).flatMap Store.addrs = List.range' buf size := by
  have hle : size / sizeofInt * sizeofInt ≤ size := Nat.div_mul_le_self _ _
  have hwords := flatMap_addrs_cells (storeInt o r buf) (fun _ => rfl)
    (fun _ => length_intBytes o r) (size / sizeofInt)
  have hchars : ∀ first k, ((List.range' first k).map (storeChar r buf)).flatMap Store.addrs =
    List.range' (buf + first) k := by
    intro first k
    rw [List.range'_eq_map_range, List.map_map]
    have haddr : ∀ i, ((storeChar r buf ∘ (first + ·)) i).addr = buf + first + i * 1 := by
      simp [storeChar, Nat.add_assoc]
    have := flatMap_addrs_cells (storeChar r buf ∘ (first + ·)) haddr (fun _ => rfl) k
    rwa [Nat.mul_one] at this
  rw [fillRandom, List.flatMap_append, hwords, hchars, List.range'_append_1,
    Nat.add_sub_cancel' hle]

/-- No word reaches beyond the whole words of the block. -/
theorem contains_lt {s : Store UInt8} (hs : s ∈ fillRandom o r buf size) {a : Nat}
    (ha : s.range.Contains a) :
    Range.Contains ⟨buf, size⟩ a := by
  have hle : size / sizeofInt * sizeofInt ≤ size := Nat.div_mul_le_self _ _
  rcases mem_fillRandom.1 hs with ⟨n, hn, rfl⟩ | ⟨i, hi, hlt, rfl⟩
  · obtain ⟨hfirst, hlast⟩ := contains_storeInt.1 ha
    have hword : (n + 1) * sizeofInt ≤ size / sizeofInt * sizeofInt := Nat.mul_le_mul_right _ hn
    rw [Nat.succ_mul] at hword
    exact ⟨by simp only; omega, by simp only; omega⟩
  · obtain rfl := contains_storeChar.1 ha
    exact ⟨by simp only; omega, by simp only; omega⟩

theorem stored_word (mem : Nat → UInt8) {n : Nat} (hn : n < size / sizeofInt) :
    contents (stored (fillRandom o r buf size) mem) ⟨buf + n * sizeofInt, sizeofInt⟩ =
      intBytes o r := by
  have hmem : storeInt o r buf n ∈ fillRandom o r buf size := mem_fillRandom.2 (.inl ⟨n, hn, rfl⟩)
  have hrange : (storeInt o r buf n).range = ⟨buf + n * sizeofInt, sizeofInt⟩ := by
    simp [storeInt, Store.range]
  rw [← hrange]
  refine contents_stored_of_mem hmem (fun s hs => ?_) mem
  rw [hrange]
  rcases mem_fillRandom.1 hs with ⟨m, hm, rfl⟩ | ⟨i, hi, hlt, rfl⟩
  · by_cases hmn : m = n
    · exact .inl (by rw [hmn])
    · right
      have hcells : ((⟨buf, size⟩ : Range).cell sizeofInt m).Apart
        (Range.cell ⟨buf, size⟩ sizeofInt n) := Range.cell_apart hmn
      simpa [storeInt, Store.range, Range.cell] using hcells
  · right
    right
    have hword : (n + 1) * sizeofInt ≤ size / sizeofInt * sizeofInt := Nat.mul_le_mul_right _ hn
    rw [Nat.succ_mul] at hword
    show buf + n * sizeofInt + sizeofInt ≤ buf + i
    omega

theorem stored_char (mem : Nat → UInt8) {i : Nat} (hi : size / sizeofInt * sizeofInt ≤ i)
    (hlt : i < size) :
    stored (fillRandom o r buf size) mem (buf + i) = charOf r := by
  have hmem : storeChar r buf i ∈ fillRandom o r buf size :=
    mem_fillRandom.2 (.inr ⟨i, hi, hlt, rfl⟩)
  have hget := stored_of_mem hmem (contains_storeChar.2 rfl) (fun s hs => ?_) mem
  · have hfirst : (storeChar r buf i).data[buf + i - (storeChar r buf i).addr]? = some (charOf r) := by
      simp [storeChar]
    rw [hfirst] at hget
    exact (Option.some.inj hget).symm
  · rcases mem_fillRandom.1 hs with ⟨n, hn, rfl⟩ | ⟨j, -, -, rfl⟩
    · right
      rw [contains_storeInt]
      have hword : (n + 1) * sizeofInt ≤ size / sizeofInt * sizeofInt := Nat.mul_le_mul_right _ hn
      rw [Nat.succ_mul] at hword
      omega
    · by_cases hij : j = i
      · exact .inl (by rw [hij])
      · right
        rw [contains_storeChar]
        omega

theorem randomFilled_fillRandom : RandomFilled o r buf size (fillRandom o r buf size) where
  once := fillRandom_once
  outside mem _ ha := stored_of_not_contains (fun _ hs h => ha (contains_lt hs h)) mem
  words mem _ hn := stored_word mem hn
  rest mem _ hi hlt := stored_char mem hi hlt

/-- What the block holds does not depend on where it is, nor on what it held before. -/
theorem RandomFilled.contents_eq {stores : List (Store UInt8)}
    (h : RandomFilled o r buf size stores) (mem : Nat → UInt8) :
    contents (stored stores mem) ⟨buf, size⟩ =
      (List.replicate (size / sizeofInt) (intBytes o r)).flatten ++
      List.replicate (size % sizeofInt) (charOf r) := by
  have hwords : ∀ k ≤ size / sizeofInt, contents (stored stores mem) ⟨buf, k * sizeofInt⟩ =
      (List.replicate k (intBytes o r)).flatten := by
    intro k
    induction k with
    | zero =>
      intro _
      simp [contents]
    | succ k ih =>
      intro hk
      rw [Nat.succ_mul, contents_append, ih (by omega), h.words mem k hk, List.replicate_succ',
        List.flatten_append]
      simp
  have hsize : size / sizeofInt * sizeofInt + size % sizeofInt = size :=
    Nat.div_add_mod' size sizeofInt
  have hrest : contents (stored stores mem) ⟨buf + size / sizeofInt * sizeofInt, size % sizeofInt⟩ =
      List.replicate (size % sizeofInt) (charOf r) := by
    refine List.eq_replicate_iff.2 ⟨length_contents _ _, fun b hb => ?_⟩
    obtain ⟨a, ha, rfl⟩ := List.mem_map.1 hb
    obtain ⟨hle, hlt⟩ := List.mem_range'_1.1 ha
    obtain ⟨i, rfl⟩ : ∃ i, a = buf + i := ⟨a - buf, by simp only at hle; omega⟩
    exact h.rest mem i (by simp only at hle; omega) (by simp only at hlt; omega)
  rw [← hwords _ le_rfl, ← hrest, ← contents_append, hsize]

end

/-- **`malloc_random`** stores every byte of its block once, and what it stores is the same in every
block of that size. -/
theorem mallocRandom_filled {posixMemalign malloc posixMemalign' malloc' : Option Nat}
    {size buf buf' : Nat} {stores stores' : List (Store UInt8)}
    (h : mallocRandom o r posixMemalign malloc size = some (buf, stores))
    (h' : mallocRandom o r posixMemalign' malloc' size = some (buf', stores')) :
    RandomFilled o r buf size stores ∧
      ∀ mem mem', contents (stored stores mem) ⟨buf, size⟩ =
      contents (stored stores' mem') ⟨buf', size⟩ := by
  obtain ⟨_, -, he⟩ := Option.map_eq_some_iff.1 h
  obtain ⟨_, -, he'⟩ := Option.map_eq_some_iff.1 h'
  cases he
  cases he'
  have hfilled : RandomFilled o r buf size _ := randomFilled_fillRandom
  have hfilled' : RandomFilled o r buf' size _ := randomFilled_fillRandom
  exact ⟨hfilled, fun mem mem' => by rw [hfilled.contents_eq, hfilled'.contents_eq]⟩

/-- Seven bytes, once aligned and once not. -/
theorem mallocRandom_filled_seven : ∃ stores stores',
    RandomFilled .little 0x01020304 4096 7 stores ∧
      contents (stored stores fun _ => 9) ⟨4096, 7⟩ = [4, 3, 2, 1, 4, 4, 4] ∧
      contents (stored stores fun _ => 9) ⟨4096, 7⟩ =
      contents (stored stores' fun _ => 0) ⟨50, 7⟩ := by
  have h : mallocRandom .little 0x01020304 (some 4096) none 7 =
    some (4096, fillRandom .little 0x01020304 4096 7) := rfl
  have h' : mallocRandom .little 0x01020304 none (some 50) 7 =
    some (50, fillRandom .little 0x01020304 50 7) := rfl
  obtain ⟨hfilled, hsame⟩ := mallocRandom_filled .little 0x01020304 h h'
  exact ⟨_, _, hfilled, by decide +kernel, hsame _ _⟩

end RdmaOpera
