import RdmaOpera.MpiMain

/-!
# The verdict of `verify_checksum`

Rank 0 compares its digest with that of every other rank as if the two were C strings
(`mpi_main.c:43`): what lies behind the first zero byte of its own digest is never looked at.
-/

namespace RdmaOpera.MpiExec

open Lib Prog

/-- The two differ in a byte before which there is no zero byte. -/
def DiffersEarly (a b : List UInt8) : Prop := ∃ i : Nat, a[i]? ≠ b[i]? ∧ ∀ j < i, a[j]? ≠ some 0

theorem differsEarly_cons {x y : UInt8} {a b : List UInt8} :
    DiffersEarly (x :: a) (y :: b) ↔ x ≠ y ∨ x = y ∧ x ≠ 0 ∧ DiffersEarly a b := by
  constructor
  · rintro ⟨i, hne, hz⟩
    by_cases hxy : x = y
    · right
      cases i with
      | zero =>
        subst hxy
        exact absurd rfl hne
      | succ i =>
        have h0 := hz 0 (Nat.succ_pos i)
        refine ⟨hxy, fun hx => h0 (by rw [hx]; rfl), i, hne,
          fun j hj => hz (j + 1) (Nat.succ_lt_succ hj)⟩
    · exact .inl hxy
  · rintro (hxy | ⟨rfl, hx, i, hne, hz⟩)
    · exact ⟨0, fun h => hxy (Option.some.inj h), fun j hj => absurd hj (Nat.not_lt_zero j)⟩
    · refine ⟨i + 1, hne, fun j hj => ?_⟩
      cases j with
      | zero => exact fun h => hx (Option.some.inj h)
      | succ j => exact hz j (Nat.lt_of_succ_lt_succ hj)

theorem not_differsEarly_self (a : List UInt8) : ¬ DiffersEarly a a := fun ⟨_, hne, _⟩ => hne rfl

/-- What `strncmp` sees of two digests. -/
theorem strncmp_ne_zero : ∀ {n : Nat} {a b : List UInt8}, a.length = n → b.length = n →
    (strncmp n a b ≠ 0 ↔ DiffersEarly a b)
  | 0, [], [], _, _ => by
    have hself := not_differsEarly_self []
    simp [strncmp, hself]
  | n + 1, x :: a, y :: b, ha, hb => by
    have ih := strncmp_ne_zero (Nat.succ.inj ha) (Nat.succ.inj hb)
    rw [differsEarly_cons, ← ih, strncmp]
    by_cases hxy : x = y
    · subst hxy
      by_cases hx : x = 0 <;> simp [hx]
    · have hsub : (x.toNat : Int) - y.toNat ≠ 0 := by
        intro h
        exact hxy (UInt8.toNat_inj.1 (by omega))
      simp [hxy, hsub]

/-! ## Rank 0 -/

section rank0
variable (content : List UInt8) (remote : Nat → Digest)

/-- Rank 0's buffer holds `content`, and rank `src` sends `remote src`; the state is the rank
received from. -/
def collecting : Monitor Mpi Nat where
  upd src op _ := match op with
    | .recvPost _ src' => src'
    | _ => src
  adm src op a := match op, a with
    | .load _, (bytes : List UInt8) => bytes = content
    | .recvWait, (bytes : List UInt8) => bytes = (remote src).toList
    | _, _ => True
  spins := False

/-- `verify_checksum` on rank 0 of `size` returns, and it returns 0 if and only if every rank's
digest is rank 0's. -/
def ChecksumVerdict (sha1sum : List UInt8 → Digest) (bufferSize size : Nat) : Prop :=
  Safe (collecting content remote) (Answerable (collecting content remote))
    (verifyChecksum sha1sum bufferSize 0 size) 0
    fun rv _ => rv = 0 ↔ ∀ src, 1 ≤ src → src < size → remote src = sha1sum content

variable {content remote}

/-- The loop stops at the first rank whose digest differs early. -/
theorem safe_verifyFrom (digest : Digest) : ∀ (k src s : Nat),
    Safe (collecting content remote) (Answerable (collecting content remote)) (verifyFrom digest k src) s
      fun rv _ => rv = 0 ↔ ∀ j, src ≤ j → j < src + k →
      ¬ DiffersEarly digest.toList (remote j).toList
  | 0, src, s => ⟨fun _ j h1 h2 => by omega, fun _ => rfl⟩
  | k + 1, src, s => by
    refine safe_bind.2 ⟨⟨(), trivial⟩, fun _ _ => safe_bind.2 ⟨⟨(remote src).toList, rfl⟩, ?_⟩⟩
    rintro bytes (rfl : bytes = (remote src).toList)
    have hcmp := strncmp_ne_zero (n := shaDigestLength) (a := digest.toList)
      (b := (remote src).toList) (by simp) (by simp)
    refine safe_ret.2 (safe_ite.2 ⟨fun hne => safe_bind.2 ⟨⟨(), trivial⟩, fun _ _ => ?_⟩, fun heq => ?_⟩)
    · refine ⟨fun h => absurd h (by decide), fun hall => ?_⟩
      exact absurd (hcmp.1 hne) (hall src (Nat.le_refl _) (by omega))
    · refine (safe_verifyFrom digest k (src + 1) src).mono fun rv _ hrv =>
        hrv.trans ⟨fun hall j h1 h2 => ?_, fun hall j h1 h2 => ?_⟩
      · rcases Nat.eq_or_lt_of_le h1 with rfl | hlt
        · exact fun h => heq (hcmp.2 h)
        · exact hall j hlt (by omega)
      · exact hall j (by omega) (by omega)

/-- The verdict as it is: no digest differs early. -/
theorem safe_verifyChecksum (sha1sum : List UInt8 → Digest) (bufferSize size : Nat) :
    Safe (collecting content remote) (Answerable (collecting content remote))
      (verifyChecksum sha1sum bufferSize 0 size) 0
      fun rv _ => rv = 0 ↔ ∀ src, 1 ≤ src → src < size →
      ¬ DiffersEarly (sha1sum content).toList (remote src).toList := by
  refine safe_bind.2 ⟨⟨content, rfl⟩, ?_⟩
  rintro buf (rfl : buf = content)
  refine safe_ite.2 ⟨fun _ => ?_, fun h => absurd rfl h⟩
  refine (safe_verifyFrom (sha1sum buf) (size - 1) 1 0).mono fun rv _ hrv => hrv.trans ?_
  constructor
  · exact fun hall src h1 h2 => hall src h1 (by omega)
  · exact fun hall src h1 h2 => hall src h1 (by omega)

/-- **The verdict** is right if and only if all digests are equal or some digest differs from rank
0's in a byte with no zero byte before it in rank 0's. -/
theorem checksumVerdict_iff (sha1sum : List UInt8 → Digest) (bufferSize size : Nat) :
    ChecksumVerdict content remote sha1sum bufferSize size ↔
      (∀ src, 1 ≤ src → src < size → remote src = sha1sum content) ∨
        ∃ src, 1 ≤ src ∧ src < size ∧
        DiffersEarly (sha1sum content).toList (remote src).toList := by
  have hverdict := @safe_verifyChecksum content remote sha1sum bufferSize size
  have hequal : (∀ src, 1 ≤ src → src < size → remote src = sha1sum content) →
      ∀ src, 1 ≤ src → src < size →
        ¬ DiffersEarly (sha1sum content).toList (remote src).toList := by
    intro hall src h1 h2
    rw [hall src h1 h2]
    exact not_differsEarly_self _
  constructor
  · intro h
    obtain ⟨rv, -, -, hrv, hrv'⟩ := (h.and hverdict).returns id fun _ _ ha => ha
    by_cases hall : ∀ src, 1 ≤ src → src < size → remote src = sha1sum content
    · exact .inl hall
    · right
      by_contra hno
      exact hall (hrv.1 (hrv'.2 fun src h1 h2 hd => hno ⟨src, h1, h2, hd⟩))
  · intro h
    refine hverdict.mono fun rv _ hrv => hrv.trans ⟨fun hno => ?_, hequal⟩
    rcases h with hall | ⟨src, h1, h2, hd⟩
    · exact hall
    · exact absurd hd (hno src h1 h2)

end rank0

/-- Two digests that begin with a zero byte. -/
def zeroDigest : Digest := Vector.replicate 20 0

def otherDigest : Digest := zeroDigest.set 1 1

/-- Rank 1's digest is not rank 0's, and the verdict is 0. -/
theorem checksumVerdict_counterexample :
    ¬ ChecksumVerdict [] (fun _ => otherDigest) (fun _ => zeroDigest) 0 2 := by
  intro h
  have hrun : Reach (collecting [] fun _ => otherDigest)
    (verifyChecksum (fun _ => zeroDigest) 0 0 2) 0 (.ret 0) 1 :=
    .call ([] : List UInt8) rfl (.call () trivial (.call otherDigest.toList rfl (.refl _ _)))
  have hverdict := (h.reach hrun).1 rfl 1 (by decide) (by decide)
  exact absurd hverdict (by decide)

end RdmaOpera.MpiExec
