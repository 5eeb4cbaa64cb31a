import Mathlib.Data.List.Nodup
import Mathlib.Data.List.Perm.Subperm
import RdmaOpera.Interleaving

/-!
# While the connection stands

`Standing` says that there has been no error and none is to be expected: everything queued lies in
regions that are still registered. Processes that are `Ready` at each call keep it so; then all
completions are good, and a call can be answered unless it polls a queue that has nothing new
(`answer_ready`).
-/

namespace RdmaOpera

open Lib Prog

namespace Local

/-- The call asks for nothing the library has run out of. -/
def Served (l : Local) : VOp → Prop
  | .stackVar bytes => bytes.length < 2 ^ 64
  | .malloc bytes => bytes.length < 2 ^ 64
  | .mallocRandom size => size < 2 ^ 64
  | .regMr access _ _ => access = .msgs ∨ l.regions.length < 2 ^ 32
  | .load p len => ∃ b block, p.block = some b ∧ l.blocks[b]? = some block ∧
      block.base ≤ p.addr ∧ p.addr + len ≤ block.base + block.bytes.length
  | .store p bytes => l.Covers p bytes.length
  | .pollSend num => 0 < num
  | _ => True

theorem Ready.served {l : Local} {op : VOp} (h : l.Ready op) : l.Served op := by
  cases op with
  | regMr access p len => exact .inl h
  | load p len =>
    obtain ⟨b, block, hp, hb, hbase, hlen⟩ := h
    exact ⟨b, block, hp, hb, hbase.le, by omega⟩
  | pollSend num =>
    obtain ⟨rfl, -⟩ := h
    exact Nat.one_pos
  | stackVar bytes => exact h
  | malloc bytes => exact h
  | mallocRandom size => exact h
  | store p bytes => exact h.elim
  | _ => trivial

end Local

namespace Net

/-- No error so far, and none to be expected: what is queued lies in regions that are still
registered. -/
structure Standing (net : Net) : Prop where
  unbroken : net.broken = false
  sends : ∀ r k wr, (net.host r).sdone ≤ k → (net.loc r).sq[k]? = some wr →
    ∃ mr, wr.mr = some mr ∧ mr.handle ∉ (net.loc r).dereged
  recvs : ∀ r k recv, (net.host r).rdone ≤ k → (net.loc r).rq[k]? = some recv →
    ∃ mr, recv.mr = some mr ∧ mr.handle ∉ (net.loc r).dereged

variable {net net' : Net}

theorem Standing.allGood (h : net.Standing) (hrc : net.Rc) : net.AllGood := by
  intro r
  obtain ⟨-, -, hscq⟩ := hrc.standing h.unbroken r
  obtain ⟨-, hrdone, -⟩ := hrc.standing h.unbroken r.peer
  rw [Role.peer_peer] at hrdone
  constructor
  · intro wc hwc
    rw [hscq] at hwc
    obtain ⟨t, -, rfl⟩ := List.mem_map.1 hwc
    exact Wc.good_success
  · intro wc hwc
    obtain ⟨i, hi⟩ := List.getElem?_of_mem hwc
    have hlt := (List.getElem?_eq_some_iff.1 hi).1
    rw [hrc.rcq_len, hrdone] at hlt
    exact (hrc.rcq_good r.peer i wc (by rwa [Role.peer_peer])).2 hlt

/-- What is polled off queues of good completions. -/
theorem answer_good (h : net.AllGood) {hint : Hint} {r : Role}
    {op : VOp} {a : op.Ans} (ha : net.answer hint r op = some a) : GoodWcs op a := by
  cases op with
  | pollSend num =>
    simp only [answer] at ha
    split at ha
    · cases ha
      exact fun wc hwc => by cases hwc
    · intro wc hwc
      have hpre := (nextWcs_some ha).2.2
      exact (h r).1 wc (List.mem_of_mem_drop (hpre.subset hwc))
  | pollRecv =>
    simp only [answer] at ha
    split at ha
    · cases ha
      exact fun wc hwc => by cases hwc
    · intro wc hwc
      have hpre := (nextWcs_some ha).2.2
      exact (h r).2 wc (List.mem_of_mem_drop (hpre.subset hwc))
  | _ => trivial

/-- What has been polled has been carried out. -/
theorem Rc.sWcs_le (h : net.Rc) (hb : net.broken = false) (r : Role) :
    (net.loc r).sWcs.length ≤ (net.host r).sdone := by
  obtain ⟨hsdone, -, hscq⟩ := h.standing hb r
  refine (h.spolled r).length_le.trans ?_
  rw [hscq, List.length_map, hsdone]
  exact List.length_filter_le _ _

theorem Rc.rWcs_le (h : net.Rc) (r : Role) : (net.loc r).rWcs.length ≤ (net.host r).rdone := by
  rw [← h.rcq_len]
  exact (h.rpolled r).length_le

/-- A post from a region that is registered, and a region given back when nothing is queued, leave the
connection standing. -/
theorem Standing.called_of (h : net.Standing) {r : Role} {op : VOp}
    (hsend : ∀ wr, op = .postSend wr → ∃ mr, wr.mr = some mr ∧ mr.handle ∉ (net.loc r).dereged)
    (hrecv : ∀ recv, op = .postRecv recv → ∃ mr, recv.mr = some mr ∧
      mr.handle ∉ (net.loc r).dereged)
    (hdereg : ∀ mr, op = .deregMr mr → (net.loc r).sq.length ≤ (net.host r).sdone ∧
      (net.loc r).rq.length ≤ (net.host r).rdone) (a : op.Ans) : (net.called r op a).Standing := by
  have hhost := fun q => called_host net r q op a
  -- the history of `r` after the call
  have hr : (∀ k wr, (net.host r).sdone ≤ k → ((net.loc r).upd op a).sq[k]? = some wr →
        ∃ mr, wr.mr = some mr ∧ mr.handle ∉ ((net.loc r).upd op a).dereged) ∧
      (∀ k recv, (net.host r).rdone ≤ k → ((net.loc r).upd op a).rq[k]? = some recv →
        ∃ mr, recv.mr = some mr ∧ mr.handle ∉ ((net.loc r).upd op a).dereged) := by
    have hs := h.sends r
    have hv := h.recvs r
    cases op with
    | postSend wr =>
      by_cases ha : a = (0 : Int)
      · simp only [Local.upd, if_pos ha]
        refine ⟨fun k wr' hk hwr => ?_, hv⟩
        rcases getElem?_concat.1 hwr with hwr | ⟨-, rfl⟩
        · exact hs k wr' hk hwr
        · exact hsend _ rfl
      · simp only [Local.upd, if_neg ha]
        exact ⟨hs, hv⟩
    | postRecv recv =>
      by_cases ha : a = (0 : Int)
      · simp only [Local.upd, if_pos ha]
        refine ⟨hs, fun k recv' hk hrecv' => ?_⟩
        rcases getElem?_concat.1 hrecv' with hrecv' | ⟨-, rfl⟩
        · exact hv k recv' hk hrecv'
        · exact hrecv _ rfl
      · simp only [Local.upd, if_neg ha]
        exact ⟨hs, hv⟩
    | deregMr mr =>
      obtain ⟨hle, hle'⟩ := hdereg mr rfl
      constructor
      · intro k wr hk hwr
        have := (List.getElem?_eq_some_iff.1 hwr).1
        simp only [Local.upd] at this
        omega
      · intro k recv hk hrecv
        have := (List.getElem?_eq_some_iff.1 hrecv).1
        simp only [Local.upd] at this
        omega
    | malloc bytes => cases a <;> exact ⟨hs, hv⟩
    | mallocRandom size => cases a <;> exact ⟨hs, hv⟩
    | regMr access p len => cases a <;> exact ⟨hs, hv⟩
    | _ => exact ⟨hs, hv⟩
  refine ⟨h.unbroken, fun q => ?_, fun q => ?_⟩
  · rw [(hhost q).1, called_loc]
    by_cases hq : q = r
    · subst hq
      rw [if_pos rfl]
      exact hr.1
    · rw [if_neg hq]
      exact h.sends q
  · rw [(hhost q).2.1, called_loc]
    by_cases hq : q = r
    · subst hq
      rw [if_pos rfl]
      exact hr.2
    · rw [if_neg hq]
      exact h.recvs q

/-- So does a process that is ready. -/
theorem Standing.called (h : net.Standing) (hrc : net.Rc) {r : Role} {op : VOp}
    (hready : (net.loc r).Ready op) (a : op.Ans) : (net.called r op a).Standing := by
  refine h.called_of ?_ ?_ ?_ a
  · rintro wr rfl
    exact hready.2
  · rintro recv rfl
    exact hready.2
  · rintro mr rfl
    have hle := hrc.sWcs_le h.unbroken r
    have hle' := hrc.rWcs_le r
    rw [hready.sends] at hle
    rw [hready.recvs] at hle'
    exact ⟨hle, hle'⟩

/-- So does a request that is carried out. -/
theorem Standing.carry (h : net.Standing) {t : Transfer} :
    (net.apply t.src t.wr false (.carry t)).Standing := by
  have hsrc := after_src net t false
  have hpeer := after_peer net t false
  refine ⟨rfl, fun q k wr hk hwr => ?_, fun q k recv hk hrecv => ?_⟩
  · rw [apply_loc] at hwr ⊢
    refine h.sends q k wr (le_trans ?_ hk) hwr
    rcases Role.eq_or_eq_peer t.src q with rfl | rfl
    · rw [hsrc]
      exact Nat.le_succ _
    · rw [hpeer]
      split <;> exact Nat.le_refl _
  · rw [apply_loc] at hrecv ⊢
    refine h.recvs q k recv (le_trans ?_ hk) hrecv
    rcases Role.eq_or_eq_peer t.src q with rfl | rfl
    · rw [hsrc]
      exact Nat.le_refl _
    · rw [hpeer]
      split
      · exact Nat.le_succ _
      · exact Nat.le_refl _

/-! ## Which calls can be answered -/

/-- A new block can be had: there is room for it at the bottom of the address space. -/
theorem place?_low {l : Local} {size : Nat} (h : size < 2 ^ 64) :
    place? { addr := 1 } l size = some ⟨some l.blocks.length, 1⟩ :=
      if_pos ⟨by decide, by simp only; omega⟩

theorem nextWcs_isSome {n : Nat} {cq polled : List Wc} (hn : 0 < n) (h : polled.length < cq.length) :
    (nextWcs n cq polled).isSome := by
  unfold nextWcs
  split
  · rename_i hnil
    have hlen := congrArg List.length hnil
    simp only [List.length_take, List.length_drop, List.length_nil] at hlen
    omega
  · rfl

/-- A key that is not in use can be had. -/
theorem exists_fresh_key {l : Local} (h : l.regions.length < 2 ^ 32) :
    ∃ rkey, rkey ∉ l.liveKeys := by
  by_contra hall
  push Not at hall
  have hnodup : ((List.range (l.regions.length + 1)).map UInt32.ofNat).Nodup := by
    refine List.Nodup.map_on (fun i hi j hj he => ?_) List.nodup_range
    have hi := List.mem_range.1 hi
    have hj := List.mem_range.1 hj
    have he := congrArg UInt32.toNat he
    rwa [UInt32.toNat_ofNat', UInt32.toNat_ofNat', Nat.mod_eq_of_lt (by omega),
      Nat.mod_eq_of_lt (by omega)] at he
  have hle := (List.subperm_of_subset hnodup fun rkey _ => hall rkey).length_le
  have hkeys : l.liveKeys.length ≤ l.regions.length := by
    rw [Local.liveKeys, List.length_map]
    exact (List.length_filter_le _ _).trans (by simp)
  simp only [List.length_map, List.length_range] at hle
  omega

/-- A served call is answered, in the plainest way, unless it polls a queue with nothing new. -/
theorem answer_served {r : Role} {op : VOp} (hserved : (net.loc r).Served op)
    (hs : ∀ num, op = .pollSend num → (net.loc r).sWcs.length < (net.host r).scq.length)
    (hr : op = .pollRecv → (net.loc r).rWcs.length < (net.host r).rcq.length)
    (hstore : ∀ p bytes, op = .store p bytes → net.transfers = []) :
    ∃ hint : Hint, hint.fail = false ∧ (net.answer hint r op).isSome := by
  cases op with
  | stackVar bytes =>
    refine ⟨{ addr := 1 }, rfl, ?_⟩
    simp only [answer]
    rw [place?_low hserved]
    rfl
  | malloc bytes =>
    refine ⟨{ addr := 1 }, rfl, ?_⟩
    simp only [answer, Bool.false_eq_true, if_false]
    rw [place?_low hserved]
    rfl
  | mallocRandom size =>
    refine ⟨{ addr := 1, bytes := List.replicate size 0 }, rfl, ?_⟩
    simp only [answer, Bool.false_eq_true, if_false, List.length_replicate, if_true]
    have hplace : place? { addr := 1, bytes := List.replicate size 0 } (net.loc r) size =
        some ⟨some (net.loc r).blocks.length, 1⟩ := place?_low hserved
    rw [hplace]
    rfl
  | regMr access p len =>
    rcases hserved with rfl | hlt
    · exact ⟨{}, rfl, by simp [answer]⟩
    · obtain ⟨rkey, hkey⟩ := exists_fresh_key hlt
      exact ⟨{ rkey }, rfl, by simp [answer, hkey]⟩
  | load p len =>
    obtain ⟨b, block, hp, hb, hlo, hhi⟩ := hserved
    refine ⟨{}, rfl, ?_⟩
    simp only [answer, read, hp, Option.bind_some, hb]
    rw [if_pos ⟨hlo, hhi⟩]
    rfl
  | pollSend num =>
    have hserved : 0 < num := hserved
    exact ⟨{}, rfl, nextWcs_isSome (Nat.lt_min.2 ⟨Nat.one_pos, hserved⟩) (hs num rfl)⟩
  | pollRecv => exact ⟨{}, rfl, nextWcs_isSome (by decide) (hr rfl)⟩
  | store p bytes =>
    refine ⟨{}, rfl, ?_⟩
    simp only [answer]
    rw [if_pos ⟨List.isEmpty_iff.2 (hstore p bytes rfl), hserved⟩]
    rfl
  | _ => exact ⟨{}, rfl, rfl⟩

/-- So is a ready one. -/
theorem answer_ready {r : Role} {op : VOp} (hready : (net.loc r).Ready op)
    (hs : ∀ num, op = .pollSend num → (net.loc r).sWcs.length < (net.host r).scq.length)
    (hr : op = .pollRecv → (net.loc r).rWcs.length < (net.host r).rcq.length) :
    ∃ hint : Hint, hint.fail = false ∧ (net.answer hint r op).isSome :=
  answer_served hready.served hs hr (by rintro p bytes rfl; exact hready.elim)

/-- All requests of `r` are waited for one by one. -/
theorem Rc.scq_length (h : net.Rc) (hb : net.broken = false) {r : Role}
    (hsig : ∀ wr ∈ (net.loc r).sq, wr.signaled) :
    (net.host r).scq.length = (net.host r).sdone := by
  obtain ⟨hsdone, -, hscq⟩ := h.standing hb r
  have hall : (net.done r).filter (·.wr.signaled) = net.done r := by
    refine List.filter_eq_self.2 fun t ht => ?_
    exact hsig t.wr ((h.done_sq r).subset (List.mem_map.2 ⟨t, ht, rfl⟩))
  rw [hscq, hall, List.length_map, hsdone]

/-- Waiting for a completion of the send queue that is not there yet. -/
def WaitsSend (net : Net) (r : Role) : Prop :=
  (net.loc r).sWcs.length < (net.loc r).sq.length ∧ (net.host r).sdone ≤ (net.loc r).sWcs.length

/-- Waiting for a message. -/
def WaitsRecv (net : Net) (r : Role) : Prop :=
  (net.loc r).rWcs.length < (net.loc r).rq.length ∧ (net.host r).rdone ≤ (net.loc r).rWcs.length

end Net

/-- A call that can be answered without a failure can be made. -/
theorem canStep_of_answer {α : Type} {c : Conf rc α} {r : Role} {op : VOp} {k : op.Ans → VProg α}
    {hint : Net.Hint} (hp : c.prog r = .call op k) (hfail : hint.fail = false)
    (hans : (Net.answer c.st hint r op).isSome) : c.CanStep NothingFails := by
  obtain ⟨a, ha⟩ := Option.isSome_iff_exists.1 hans
  have hact : rc.act hint r op c.st = some (a, Net.called c.st r op a) := by
    show (Net.answer c.st hint r op).map _ = _
    rw [ha]
    rfl
  exact Conf.canStep_call hp hact hfail

/-- A process of a steady run has returned, can go on, or waits for a completion. -/
theorem step_or_wait {α : Type} {c : Conf rc α} {r : Role} {plan : Plan}
    {D : Nat → List UInt8 → Prop} {Q : α → Local → Prop} (hrc : Net.Rc c.st)
    (hb : Net.broken c.st = false) (hsig : ∀ wr ∈ (Net.loc c.st r).sq, wr.signaled)
    (hsafe : Safe (tracking .steady D) (plan.ok .steady) (c.prog r) (Net.loc c.st r) Q) :
    (∃ a, c.prog r = .ret a ∧ Q a (Net.loc c.st r)) ∨ c.CanStep NothingFails ∨
      Net.WaitsSend c.st r ∨
      Net.WaitsRecv c.st r := by
  cases hp : c.prog r with
  | ret a =>
    rw [hp] at hsafe
    exact .inl ⟨a, rfl, hsafe⟩
  | spin =>
    rw [hp] at hsafe
    exact absurd trivial hsafe
  | call op k =>
    rw [hp] at hsafe
    have hready := hsafe.1.2 trivial
    by_cases hwaits : Net.WaitsSend c.st r
    · exact .inr (.inr (.inl hwaits))
    by_cases hwaitr : Net.WaitsRecv c.st r
    · exact .inr (.inr (.inr hwaitr))
    obtain ⟨hint, hfail, hans⟩ := Net.answer_ready hready
      (fun num he => by
        subst he
        have hlt := hready.2
        rw [hrc.scq_length hb hsig]
        by_contra hle
        exact hwaits ⟨hlt, by omega⟩)
      (fun he => by
        subst he
        have hlt : (Net.loc c.st r).rWcs.length < (Net.loc c.st r).rq.length := hready
        rw [hrc.rcq_len]
        by_contra hle
        exact hwaitr ⟨hlt, by omega⟩)
    exact .inr (.inl (canStep_of_answer hp hfail hans))

end RdmaOpera
