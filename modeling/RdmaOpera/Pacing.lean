import RdmaOpera.ControlReport
import RdmaOpera.Lib.Growth

/-!
# The slots of a control server

The target of a round is that of the round before and one slot more, whenever that round ended
(`control_main.c:130-140`). The clock is any sequence of readings that does not go back;
`get_cycles` takes the next one, and `wait_until` as many as its loop needs.

| here | there |
| --- | --- |
| `waitUntil`          | `wait_until`, `control_main.c:21-23` |
| `pacing`             | the readings a server takes in its rounds, by what they are for |
| `Paced`              | what they have to do with the slots |
-/

namespace RdmaOpera.ControlExec

open Lib Prog

/-! ## `wait_until` -/

section
variable (clock : Nat → UInt64) (target : UInt64)

/-- `while (get_cycles() < target);` from reading `i` on: the index of the reading that ends the
loop, unless that takes more than `fuel` of them. -/
def waitUntil : Nat → Nat → Option Nat
  | 0, _ => none
  | fuel + 1, i => if clock i < target then waitUntil fuel (i + 1) else some i

/-- The readings from `i` to `j`, without the last. -/
def readings (i j : Nat) : List UInt64 := (List.range' i (j - i)).map clock

/-- The loop ends at the first reading that has reached the target. -/
theorem waitUntil_some {fuel i j : Nat} (h : waitUntil clock target fuel i = some j) :
    i ≤ j ∧ (∀ k, i ≤ k → k < j → clock k < target) ∧ ¬ clock j < target := by
  induction fuel generalizing i with
  | zero => cases h
  | succ fuel ih =>
    unfold waitUntil at h
    by_cases hlt : clock i < target
    · rw [if_pos hlt] at h
      obtain ⟨hle, hbefore, hlast⟩ := ih h
      refine ⟨by omega, fun k hk hkj => ?_, hlast⟩
      by_cases hki : k = i
      · rw [hki]
        exact hlt
      · exact hbefore k (by omega) hkj
    · rw [if_neg hlt] at h
      obtain rfl := Option.some.inj h
      exact ⟨Nat.le_refl i, fun k hk hki => absurd hki (by omega), hlt⟩

/-- It does end if there is one. -/
theorem waitUntil_isSome (fuel : Nat) {i k : Nat} (hik : i ≤ k) (hfuel : k < i + fuel)
    (hk : ¬ clock k < target) :
    (waitUntil clock target fuel i).isSome := by
  induction fuel generalizing i with
  | zero => omega
  | succ fuel ih =>
    unfold waitUntil
    by_cases hlt : clock i < target
    · rw [if_pos hlt]
      have hne : i ≠ k := by
        rintro rfl
        exact hk hlt
      exact ih (by omega) (by omega)
    · rw [if_neg hlt]
      rfl

end

/-! ## The readings of a round -/

structure Round where
  /-- the readings of the wait that did not end it -/
  waited : List UInt64
  /-- the one that did -/
  reached : UInt64
  /-- one for each write -/
  starts : List UInt64 := []
  end_ : Option UInt64 := none

structure Pace where
  /-- the number of readings so far -/
  taken : Nat := 0
  past : List Round := []
  current : Option Round := none
  /-- completions of the current round have been asked for -/
  polled : Bool := false

def Pace.rounds (w : Pace) : List Round := w.past ++ w.current.toList

def Round.read (polled : Bool) (now : UInt64) (r : Round) : Round :=
  if polled then { r with end_ := some now } else { r with starts := r.starts ++ [now] }

variable {clock : Nat → UInt64}

/-- The readings are those of the clock, and a wait is over when the loop is. -/
def pacing (clock : Nat → UInt64) : Monitor Verbs Pace where
  upd w
    | .getCycles, (now : UInt64) =>
      { w with taken := w.taken + 1, current := w.current.map (Round.read w.polled now) }
    | .waitUntil _, (r : List UInt64 × UInt64) =>
      { taken := w.taken + r.1.length + 1, past := w.rounds, current := some { waited := r.1, reached := r.2 } }
    | .pollSend _, (_ : Poll) => { w with polled := true }
    | _, _ => w
  adm w
    | .getCycles, (now : UInt64) => now = clock w.taken
    | .waitUntil target, (r : List UInt64 × UInt64) =>
      ∃ fuel j, waitUntil clock target fuel w.taken = some j ∧
        r = (readings clock w.taken j, clock j)
    | _, _ => True
  spins := True

/-- The instant at which round `n` is due. -/
def due (t0 n : Nat) : Nat := t0 + (n + 1) * slotNs.toNat

structure OnTime (target : Nat) (r : Round) : Prop where
  waited : ∀ t ∈ r.waited, t.toNat < target
  reached : target ≤ r.reached.toNat
  started : ∀ t ∈ r.starts, target ≤ t.toNat
  ended : ∀ t ∈ r.starts, ∀ e ∈ r.end_, t ≤ e

/-- Round `n` waits for its own instant and no longer, and starts when it has come and the round
before has ended. -/
structure Paced (t0 : Nat) (rounds : List Round) : Prop where
  onTime : ∀ n r, rounds[n]? = some r → OnTime (due t0 n) r
  ended : ∀ r ∈ rounds.dropLast, r.end_.isSome
  apart : rounds.Pairwise fun r r' => ∀ e ∈ r.end_, ∀ t ∈ r'.starts, e ≤ t

/-- The two arrays when the loop has been left. -/
structure Stamped (params : DccsParameters) (stamps : RoundState) (rounds : List Round) : Prop where
  start : ∀ n r, rounds[n]? = some r → r.starts.getLast? = some (stamps.start.getD n 0)
  end_ : ∀ n r, rounds[n]? = some r → ∀ e ∈ r.end_, stamps.end_.getD n 0 = e
  length : rounds.length ≤ params.repeat_
  all : stamps.broke = false → rounds.length = params.repeat_ ∧ ∀ r ∈ rounds, r.end_.isSome

/-- One round more. -/
theorem paced_concat {t0 : Nat} {past : List Round} {r : Round} : Paced t0 (past ++ [r]) ↔
    Paced t0 past ∧ (∀ r' ∈ past, r'.end_.isSome ∧ ∀ e ∈ r'.end_, ∀ t ∈ r.starts, e ≤ t) ∧
      OnTime (due t0 past.length) r := by
  constructor
  · rintro ⟨honTime, hended, hapart⟩
    rw [List.dropLast_concat] at hended
    obtain ⟨hpast, -, hlast⟩ := List.pairwise_append.1 hapart
    obtain ⟨honTime, hr⟩ := forall_getElem?_concat.1 honTime
    exact ⟨⟨honTime, fun r' hr' => hended r' (List.dropLast_subset past hr'), hpast⟩,
      fun r' hr' => ⟨hended r' hr', hlast r' hr' r (List.mem_singleton_self r)⟩, hr⟩
  · rintro ⟨⟨honTime, hended, hapart⟩, hlast, hr⟩
    refine ⟨forall_getElem?_concat.2 ⟨honTime, hr⟩, ?_, ?_⟩
    · rw [List.dropLast_concat]
      exact fun r' hr' => (hlast r' hr').1
    · refine List.pairwise_append.2 ⟨hapart, List.pairwise_singleton _ _, fun r' hr' r'' hr'' => ?_⟩
      rw [List.mem_singleton.1 hr'']
      exact (hlast r' hr').2

/-! ## What each reading keeps -/

/-- With the readings so far before those to come. -/
structure Pacing (clock : Nat → UInt64) (t0 : Nat) (w : Pace) : Prop where
  paced : Paced t0 w.rounds
  reached : ∀ r ∈ w.current, r.reached ≤ clock w.taken
  started : ∀ r ∈ w.current, ∀ t ∈ r.starts, t ≤ clock w.taken
  ended : ∀ r ∈ w.rounds, ∀ e ∈ r.end_, e ≤ clock w.taken

section
variable {target : Nat} {r : Round} {now : UInt64}

theorem OnTime.readStart (h : OnTime target r) (hreached : r.reached ≤ now) (hnone : r.end_ = none) :
    OnTime target (r.read false now) where
  waited := h.waited
  reached := h.reached
  started t ht := by
    rcases List.mem_append.1 ht with ht | ht
    · exact h.started t ht
    · rw [List.mem_singleton.1 ht]
      exact le_trans h.reached (UInt64.le_iff_toNat_le.1 hreached)
  ended t _ e he := by
    have hsome : r.end_ = some e := he
    rw [hnone] at hsome
    cases hsome

theorem OnTime.readEnd (h : OnTime target r) (hstarted : ∀ t ∈ r.starts, t ≤ now) :
    OnTime target (r.read true now) where
  waited := h.waited
  reached := h.reached
  started := h.started
  ended t ht e he := by
    cases he
    exact hstarted t ht

end

theorem Pace.rounds_eq {w : Pace} {r : Round} (h : w.current = some r) :
    w.rounds = w.past ++ [r] := by
  unfold Pace.rounds
  rw [h]
  rfl

section
variable {t0 : Nat} (hclock : ∀ i j, i ≤ j → clock i ≤ clock j)
include hclock

theorem Pacing.wait {w : Pace} (h : Pacing clock t0 w) (hended : ∀ r ∈ w.rounds, r.end_.isSome)
    {target : UInt64} (htarget : target.toNat = due t0 w.rounds.length) {a : List UInt64 × UInt64}
    (ha : (pacing clock).adm w (.waitUntil target) a) :
    Pacing clock t0 ((pacing clock).upd w (.waitUntil target) a) := by
  obtain ⟨fuel, j, hj, rfl⟩ := ha
  obtain ⟨hle, hbefore, hlast⟩ := waitUntil_some clock target hj
  have htaken : w.taken + (readings clock w.taken j).length + 1 = j + 1 := by
    simp only [readings, List.length_map, List.length_range']
    omega
  have hlater : ∀ e, e ≤ clock w.taken → e ≤ clock (j + 1) :=
    fun e he => UInt64.le_trans he (hclock _ _ (by omega))
  have hnew : Paced t0 (w.rounds ++
    [{ waited := readings clock w.taken j, reached := clock j }]) := by
    refine paced_concat.2 ⟨h.paced, fun r hr => ⟨hended r hr, nofun⟩, fun t ht => ?_,
      ?_, nofun, nofun⟩
    · obtain ⟨k, hk, rfl⟩ := List.mem_map.1 ht
      obtain ⟨hk, hkj⟩ := List.mem_range'_1.1 hk
      rw [← htarget]
      exact UInt64.lt_iff_toNat_lt.1 (hbefore k hk (by omega))
    · rw [← htarget]
      exact UInt64.le_iff_toNat_le.1 (UInt64.not_lt.1 hlast)
  show Pacing clock t0 ⟨w.taken + (readings clock w.taken j).length + 1, w.rounds,
    some { waited := readings clock w.taken j, reached := clock j }, false⟩
  rw [htaken]
  refine ⟨hnew, ?_, ?_, ?_⟩
  · intro r hr
    cases hr
    exact hclock _ _ (Nat.le_succ j)
  · intro r hr
    cases hr
    exact nofun
  · intro r hr e he
    rcases List.mem_append.1 hr with hr | hr
    · exact hlater e (h.ended r hr e he)
    · cases List.mem_singleton.1 hr
      cases he

/-- A start, while no completion has been asked for, or the end. -/
theorem Pacing.read {w : Pace} (h : Pacing clock t0 w)
    (hnew : ∀ r ∈ w.current, w.polled = false → r.end_ = none) :
    Pacing clock t0 ((pacing clock).upd w .getCycles (clock w.taken)) := by
  have hnext : clock w.taken ≤ clock (w.taken + 1) := hclock _ _ (Nat.le_succ _)
  have hlater : ∀ t, t ≤ clock w.taken → t ≤ clock (w.taken + 1) :=
    fun t ht => UInt64.le_trans ht hnext
  show Pacing clock t0 ⟨w.taken + 1, w.past,
    w.current.map (Round.read w.polled (clock w.taken)), w.polled⟩
  cases hcurrent : w.current with
  | none =>
    have hrounds : w.rounds = w.past ++ [] := by
      unfold Pace.rounds
      rw [hcurrent]
      rfl
    obtain ⟨hpaced, -, -, hended⟩ := h
    rw [hrounds] at hpaced hended
    exact ⟨hpaced, nofun, nofun, fun r hr e he => hlater e (hended r hr e he)⟩
  | some r =>
    obtain ⟨hpaced, hreached, hstarted, hended⟩ := h
    rw [Pace.rounds_eq hcurrent] at hpaced hended
    obtain ⟨hpast, hapart, honTime⟩ := paced_concat.1 hpaced
    have hreached := hreached r hcurrent
    have hstarted := hstarted r hcurrent
    have hends : ∀ r' ∈ w.past, ∀ e ∈ r'.end_, e ≤ clock w.taken :=
      fun r' hr' e he => hended r' (List.mem_append_left _ hr') e he
    cases hpolled : w.polled with
    | false =>
      have hnone : r.end_ = none := hnew r hcurrent hpolled
      refine ⟨paced_concat.2 ⟨hpast, fun r' hr' => ⟨(hapart r' hr').1, fun e he t ht => ?_⟩,
        honTime.readStart hreached hnone⟩, ?_, ?_, ?_⟩
      · rcases List.mem_append.1 ht with ht | ht
        · exact (hapart r' hr').2 e he t ht
        · rw [List.mem_singleton.1 ht]
          exact hends r' hr' e he
      · intro r' hr'
        cases hr'
        exact hlater _ hreached
      · intro r' hr' t ht
        cases hr'
        rcases List.mem_append.1 ht with ht | ht
        · exact hlater t (hstarted t ht)
        · rw [List.mem_singleton.1 ht]
          exact hnext
      · intro r' hr' e he
        rcases List.mem_append.1 hr' with hr' | hr'
        · exact hlater e (hends r' hr' e he)
        · rw [List.mem_singleton.1 hr'] at he
          have hsome : r.end_ = some e := he
          rw [hnone] at hsome
          cases hsome
    | true =>
      refine ⟨paced_concat.2 ⟨hpast, hapart, honTime.readEnd hstarted⟩, ?_, ?_, ?_⟩
      · intro r' hr'
        cases hr'
        exact hlater _ hreached
      · intro r' hr' t ht
        cases hr'
        exact hlater t (hstarted t ht)
      · intro r' hr' e he
        rcases List.mem_append.1 hr' with hr' | hr'
        · exact hlater e (hends r' hr' e he)
        · cases List.mem_singleton.1 hr'
          cases he
          exact hnext

end

def Keeps (clock : Nat → UInt64) (t0 : Nat) (w : Pace) (op : VOp) : Prop :=
  Pacing clock t0 w → ∀ a, (pacing clock).adm w op a → Pacing clock t0 ((pacing clock).upd w op a)

theorem quiet_pacing (t0 : Nat) : Quiet (pacing clock) (Keeps clock t0) :=
  ⟨fun _ _ h _ _ => h, fun _ _ _ => rfl⟩

/-! ## One round -/

section
variable {requestsOut : List DccsRequest} {params : DccsParameters} {t0 : Nat}

/-- Before turn `i` of the inner loop of round `n`. -/
structure Starting (n : Nat) (stamps : RoundState) (past : List Round) (i : Nat)
    (s : RoundState × Bool) (w : Pace) : Prop where
  same : s.1.target = stamps.target ∧ s.1.end_ = stamps.end_ ∧ s.1.broke = stamps.broke
  length : s.1.start.length = stamps.start.length
  before : ∀ j, j ≠ n → s.1.start.getD j 0 = stamps.start.getD j 0
  refused : s.2 = true → 0 < i
  past : w.past = past
  polled : w.polled = false
  current : ∃ r, w.current = some r ∧ r.end_ = none ∧
    r.starts.getLast? = if i = 0 then none else some (s.1.start.getD n 0)

theorem safe_postOne_pacing (hclock : ∀ i j, i ≤ j → clock i ≤ clock j) {n i : Nat}
    {stamps : RoundState} {past : List Round} {s : RoundState × Bool} {w : Pace}
    (hn : n < stamps.start.length) (h : Starting n stamps past i s w) :
    Safe (pacing clock) (Keeps clock t0) (postOne requestsOut n i s) w (Starting n stamps past (i + 1)) := by
  obtain ⟨hsame, hlen, hbefore, hrefused, hpast, hpolled, r, hcurrent, hend, hstarts⟩ := h
  have hn' : n < s.1.start.length := hlen ▸ hn
  refine safe_postOne_of_quiet (quiet_pacing t0) (fun hs => ?_) fun _ =>
    ⟨fun hw now hnow => ?_, fun now hnow => ⟨fun hw _ _ => hw, ?_⟩⟩
  · have hi := hrefused hs
    rw [if_neg hi.ne'] at hstarts
    exact ⟨hsame, hlen, hbefore, fun _ => Nat.succ_pos i, hpast, hpolled, r, hcurrent,
      hend, by rw [hstarts, if_neg (Nat.succ_ne_zero i)]⟩
  · obtain rfl : now = clock w.taken := hnow
    refine hw.read hclock fun r' hr' _ => ?_
    cases hcurrent.symm.trans hr'
    exact hend
  · intro rv _
    refine ⟨hsame, by rw [List.length_set]; exact hlen, fun j hj => ?_, fun _ => Nat.succ_pos i, hpast, hpolled,
      r.read false now, ?_, hend, ?_⟩
    · rw [getD_set now hn', if_neg hj.symm]
      exact hbefore j hj
    · show w.current.map (Round.read w.polled now) = _
      rw [hcurrent, hpolled]
      rfl
    · show (r.starts ++ [now]).getLast? = _
      rw [if_neg (Nat.succ_ne_zero i), getD_set now hn', if_pos rfl, List.getLast?_concat]

/-- The wait reads no clock. -/
theorem safe_wait_pacing {count : Nat} {w : Pace} :
    Safe (pacing clock) (Keeps clock t0) (whileZero (dccsRdmaSendComp (toInt32 count))) w
      fun _ w' => w' = { w with polled := true } := by
  refine (quiet_pacing t0).whileSendComp trivial (fun wcArr w' => { w' with polled := true } =
    { w with polled := true } ∧
    (wcArr ≠ [] → w'.polled = true)) (fun wcArr w' _ hI => ⟨fun hw p _ => ?_, fun p _ => ?_⟩)
      (fun wcArr w' _ hne hI => ?_)
    ⟨rfl, fun hne => absurd rfl hne⟩
  · exact ⟨hw.paced, hw.reached, hw.started, hw.ended⟩
  · split
    · exact ⟨hI.1, fun _ => rfl⟩
    · exact hI.1
  · obtain ⟨hsame, hpolled⟩ := hI
    rw [← hsame, ← hpolled hne]

/-! ## The loop -/

/-- Before turn `n` of the round loop: the target does not depend on when the rounds started and
ended. -/
structure Turn (params : DccsParameters) (t0 n : Nat) (stamps : RoundState) (w : Pace) : Prop where
  lengths : stamps.start.length = params.repeat_ ∧ stamps.end_.length = params.repeat_
  start : ∀ i r, w.rounds[i]? = some r → r.starts.getLast? = some (stamps.start.getD i 0)
  end_ : ∀ i r, w.rounds[i]? = some r → ∀ e ∈ r.end_, stamps.end_.getD i 0 = e
  rounds : w.rounds.length ≤ n
  going : stamps.broke = false → w.rounds.length = n ∧ stamps.target.toNat = t0 + n * slotNs.toNat ∧
    ∀ r ∈ w.rounds, r.end_.isSome

/-- One round more, whether it has ended or not. -/
theorem Turn.next {n : Nat} {stamps stamps' : RoundState} {w w' : Pace} {r : Round}
    (h : Turn params t0 n stamps w) (hlen : w.rounds.length = n)
    (hrounds : w'.rounds = w.rounds ++ [r])
    (hlengths : stamps'.start.length = params.repeat_ ∧ stamps'.end_.length = params.repeat_)
    (hbefore : ∀ i, i ≠ n → stamps'.start.getD i 0 = stamps.start.getD i 0 ∧
      stamps'.end_.getD i 0 = stamps.end_.getD i 0)
    (hstart : r.starts.getLast? = some (stamps'.start.getD n 0))
    (hend : ∀ e ∈ r.end_, stamps'.end_.getD n 0 = e)
    (hgoing : stamps'.broke = false → stamps'.target.toNat = t0 + (n + 1) * slotNs.toNat ∧
      r.end_.isSome ∧ ∀ r' ∈ w.rounds, r'.end_.isSome) :
    Turn params t0 (n + 1) stamps' w' := by
  subst hlen
  have hne : ∀ i r', w.rounds[i]? = some r' → i ≠ w.rounds.length :=
    fun _ _ hr' => (List.getElem?_eq_some_iff.1 hr').1.ne
  refine ⟨hlengths, ?_, ?_, ?_, fun hb => ?_⟩
  · rw [hrounds, forall_getElem?_concat]
    refine ⟨fun i r' hr' => ?_, hstart⟩
    rw [(hbefore i (hne i r' hr')).1]
    exact h.start i r' hr'
  · rw [hrounds, forall_getElem?_concat]
    refine ⟨fun i r' hr' => ?_, hend⟩
    rw [(hbefore i (hne i r' hr')).2]
    exact h.end_ i r' hr'
  · simp [hrounds]
  · obtain ⟨htarget, hr, hended⟩ := hgoing hb
    refine ⟨by simp [hrounds], htarget, fun r' hr' => ?_⟩
    rw [hrounds] at hr'
    rcases List.mem_append.1 hr' with hr' | hr'
    · exact hended r' hr'
    · rw [List.mem_singleton.1 hr']
      exact hr

theorem safe_controlRound_pacing (hclock : ∀ i j, i ≤ j → clock i ≤ clock j)
    (hcount : 0 < params.count) (hfit : t0 + params.repeat_ * slotNs.toNat < 2 ^ 64) {n : Nat}
    (hn : n < params.repeat_) {stamps : RoundState} {w : Pace} (h : Turn params t0 n stamps w) :
    Safe (pacing clock) (Keeps clock t0) (controlRound requestsOut params n stamps) w
      (Turn params t0 (n + 1)) := by
  have hlengths := h.lengths
  refine safe_ite.2 ⟨fun hb => ?_, fun hb => safe_ite.2 ⟨fun _ => trivial, fun _ => ?_⟩⟩
  · exact ⟨hlengths, h.start, h.end_, Nat.le_succ_of_le h.rounds,
      fun hb' => nomatch hb.symm.trans hb'⟩
  obtain ⟨hlen, htarget, hended⟩ := h.going (Bool.eq_false_of_not_eq_true hb)
  -- the sum does not wrap: another slot still ends within `2 ^ 64`
  have hslot : (stamps.target + slotNs).toNat = t0 + (n + 1) * slotNs.toNat := by
    have hle : (n + 1) * slotNs.toNat ≤ params.repeat_ * slotNs.toNat := Nat.mul_le_mul_right _ hn
    rw [Nat.succ_mul] at hle ⊢
    rw [UInt64.toNat_add, htarget, Nat.mod_eq_of_lt (by omega), Nat.add_assoc]
  refine safe_bind.2 ⟨fun hw a ha => hw.wait hclock hended (by rw [hslot, hlen]; rfl) ha, fun a _ => ?_⟩
  have hfirst : Starting n { stamps with target := stamps.target + slotNs } w.rounds 0
      ({ stamps with target := stamps.target + slotNs }, false)
        ((pacing clock).upd w (.waitUntil (stamps.target + slotNs)) a) :=
    ⟨⟨rfl, rfl, rfl⟩, rfl, fun _ _ => rfl, nofun, rfl, rfl, _, rfl, rfl, rfl⟩
  refine Safe.bind (safe_forN (Starting n { stamps with target := stamps.target + slotNs } w.rounds) hfirst
    fun i s t _ hs => safe_postOne_pacing hclock (hlengths.1.symm ▸ hn) hs) fun s t hs => ?_
  obtain ⟨⟨htarget', hends, hbroke⟩, hlength, hbefore, -, hpast, -, r, hcurrent, hnone, hstarts⟩ := hs
  rw [if_neg hcount.ne'] at hstarts
  have hlength : s.1.start.length = params.repeat_ := hlength.trans hlengths.1
  have hlength' : s.1.end_.length = params.repeat_ := (congrArg _ hends).trans hlengths.2
  refine safe_wait_pacing.bind fun rv t' ht' => ?_
  subst ht'
  have hrounds : t.rounds = w.rounds ++ [r] := by rw [Pace.rounds_eq hcurrent, hpast]
  refine safe_ite.2 ⟨fun _ => (quiet_pacing t0).logError_bind ?_,
    fun _ => safe_bind.2 ⟨fun hw now hnow => ?_, fun now _ => ?_⟩⟩
  · -- a completion failed: the round does not end
    refine h.next hlen hrounds ⟨hlength, hlength'⟩ (fun i hi => ⟨hbefore i hi, ?_⟩) hstarts
      (fun e he => ?_) nofun
    · show s.1.end_.getD i 0 = _
      rw [hends]
    · rw [hnone] at he
      cases he
  · obtain rfl : now = clock t.taken := hnow
    exact hw.read hclock nofun
  · have hend : n < s.1.end_.length := hlength'.symm ▸ hn
    have hnow : ({ t with
        taken := t.taken + 1
        current := t.current.map (Round.read true now)
        polled := true } : Pace).rounds = w.rounds ++ [r.read true now] := by
      rw [Pace.rounds_eq (r := r.read true now) (by rw [hcurrent]; rfl)]
      exact congrArg (· ++ _) hpast
    refine h.next hlen hnow ⟨hlength, by rw [List.length_set]; exact hlength'⟩
      (fun i hi => ⟨hbefore i hi, ?_⟩) hstarts
      (fun e he => ?_) fun _ => ⟨?_, rfl, hended⟩
    · rw [getD_set now hend, if_neg hi.symm, hends]
    · cases he
      rw [getD_set now hend, if_pos rfl]
    · rw [← hslot]
      exact congrArg _ htarget'

theorem safe_serverRounds_pacing (hclock : ∀ i j, i ≤ j → clock i ≤ clock j)
    (hcount : 0 < params.count) (hfit : (clock 0).toNat + params.repeat_ * slotNs.toNat < 2 ^ 64) :
    Safe (pacing clock) (Keeps clock (clock 0).toNat) (serverRounds requestsOut params) {}
      (Turn params (clock 0).toNat params.repeat_) := by
  refine safe_bind.2 ⟨fun hw now hnow => ?_, fun now hnow => ?_⟩
  · obtain rfl : now = clock 0 := hnow
    exact hw.read hclock nofun
  · obtain rfl : now = clock 0 := hnow
    refine safe_forN (Turn params (clock 0).toNat) ?_ fun n s t hn hs =>
      safe_controlRound_pacing hclock hcount hfit hn hs
    exact ⟨⟨List.length_replicate, List.length_replicate⟩, nofun, nofun, le_rfl,
      fun _ => ⟨rfl, by simp, nofun⟩⟩

/-- **Pacing.** At every point of a run of the rounds the readings are paced, and in the end the
arrays hold them; a wait ends if the clock ever reaches its target. -/
theorem serverRounds_paced (h : Accepted params) (hclock : ∀ i j, i ≤ j → clock i ≤ clock j)
    (hfit : (clock 0).toNat + params.repeat_ * slotNs.toNat < 2 ^ 64) {p : VProg RoundState}
    {w : Pace} (hreach : Reach (pacing clock) (serverRounds requestsOut params) {} p w) :
    Paced (clock 0).toNat w.rounds ∧ (∀ stamps, p = .ret stamps → Stamped params stamps w.rounds) ∧
      ∀ target i, w.taken ≤ i → ¬ clock i < target →
      Answerable (pacing clock) w (.waitUntil target) := by
  have hsafe : Safe (pacing clock) _ (serverRounds requestsOut params) {} _ :=
    safe_serverRounds_pacing hclock h.checked.1 hfit
  have hfirst : Pacing clock (clock 0).toNat {} :=
    ⟨⟨nofun, nofun, List.Pairwise.nil⟩, nofun, nofun, nofun⟩
  refine ⟨(hsafe.kept hreach hfirst).paced, ?_, fun target i hi hreached => ?_⟩
  · rintro stamps rfl
    obtain ⟨-, hstart, hend, hrounds, hgoing⟩ :
      Turn params (clock 0).toNat params.repeat_ stamps w := hsafe.reach hreach
    refine ⟨hstart, hend, hrounds, fun hbroke => ?_⟩
    obtain ⟨hlen, -, hended⟩ := hgoing hbroke
    exact ⟨hlen, hended⟩
  · obtain ⟨j, hj⟩ :=
      Option.isSome_iff_exists.1 (waitUntil_isSome clock target (i + 1) hi (by omega) hreached)
    exact ⟨_, i + 1, j, hj, rfl⟩

/-! ### A clock that jumps -/

/-- A reading every `30000` nanoseconds, but for a gap of half a millisecond more before the tenth;
the clock ends after a thousand. -/
def jumpTime (i : Nat) : Nat :=
  if i < 10 then 30000 * i else if i < 1000 then 30000 * i + 500000 else 2 ^ 64 - 1

def jumpClock (i : Nat) : UInt64 := UInt64.ofNat (jumpTime i)

theorem toNat_jumpClock (i : Nat) : (jumpClock i).toNat = jumpTime i := by
  have hlt : jumpTime i < 2 ^ 64 := by
    unfold jumpTime
    split_ifs <;> omega
  rw [jumpClock, UInt64.toNat_ofNat', Nat.mod_eq_of_lt hlt]

theorem jumpClock_le {i j : Nat} (h : i ≤ j) : jumpClock i ≤ jumpClock j := by
  rw [UInt64.le_iff_toNat_le, toNat_jumpClock, toNat_jumpClock]
  unfold jumpTime
  split_ifs <;> omega

/-- Everything succeeds. -/
def jumpAnswers (w : Pace) : (op : VOp) → op.Ans
  | .getCycles => jumpClock w.taken
  | .waitUntil target => match waitUntil jumpClock target 1001 w.taken with
    | some j => (readings jumpClock w.taken j, jumpClock j)
    | none => ([], 0)
  | op => serverAnswers false {} op

theorem jumpAnswers_adm (w : Pace) (op : VOp) : (pacing jumpClock).adm w op (jumpAnswers w op) := by
  cases op with
  | getCycles => exact rfl
  | waitUntil target =>
    have hend : ¬ jumpClock (max w.taken 1000) < target := by
      rw [UInt64.lt_iff_toNat_lt, toNat_jumpClock]
      have := target.toNat_lt
      unfold jumpTime
      split_ifs <;> omega
    obtain ⟨j, hj⟩ := Option.isSome_iff_exists.1
      (waitUntil_isSome jumpClock target 1001 (le_max_left w.taken 1000) (by omega) hend)
    refine ⟨1001, j, hj, ?_⟩
    show (match waitUntil jumpClock target 1001 w.taken with
      | some j => (readings jumpClock w.taken j, jumpClock j)
      | none => ([], 0)) = _
    rw [hj]
  | _ => trivial

/-- All rounds went through, the third one after the gap: it was due at `300000`. -/
def jumpedOver : RoundState × Pace → Bool
  | (stamps, w) => w.rounds.length == 100 && !stamps.broke && stamps.start.getD 2 0 == 830000

/-- A hundred rounds, some of them late. -/
theorem serverRounds_paced_jump :
    ∃ stamps rounds, Paced 0 rounds ∧ Stamped oneWriteServer stamps rounds ∧ rounds.length = 100 ∧
    stamps.start.getD 2 0 = 830000 := by
  have haccepted : Accepted oneWriteServer :=
    ⟨oneWriteServer, ⟨by decide, by decide, by decide, by decide, by decide, by decide⟩, rfl⟩
  have hrun : (play (pacing jumpClock) jumpAnswers (serverRounds [{}] oneWriteServer) {}).any
    jumpedOver = true := by decide +kernel
  obtain ⟨stamps, w, hreach, hcheck⟩ := exists_reach_of_play jumpAnswers_adm hrun
  rw [jumpedOver, Bool.and_eq_true, Bool.and_eq_true, beq_iff_eq, beq_iff_eq] at hcheck
  obtain ⟨hpaced, hstamped, -⟩ :=
    serverRounds_paced haccepted (fun _ _ h => jumpClock_le h) (by decide) hreach
  exact ⟨stamps, w.rounds, hpaced, hstamped stamps rfl, hcheck.1.1, hcheck.2⟩

end

end RdmaOpera.ControlExec
