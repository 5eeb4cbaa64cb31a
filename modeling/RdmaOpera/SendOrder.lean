import RdmaOpera.Progress

/-!
# Completions of a send queue, when the connection may break

A break is final: the completions of a send queue are good up to some point and bad from there on,
and there are at most as many good ones as signaled requests have been carried out (`GoodFirst`).
So a good completion behind all others says that the whole queue has been carried out, whatever
becomes of the connection later.
-/

namespace RdmaOpera

namespace Net

variable {net net' : Net}

/-- Good completions come first, each for a signaled request that has been carried out. -/
def GoodFirst (net : Net) : Prop :=
  ∀ r, ∃ goods bads, (net.host r).scq = goods ++ bads ∧ (∀ wc ∈ bads, ¬ wc.success) ∧
    goods.length ≤ ((net.done r).filter (·.wr.signaled)).length

theorem goodFirst_start : ({} : Net).GoodFirst := fun _ => ⟨[], [], rfl, by simp, Nat.zero_le _⟩

/-- No completion is good but those that are there, and nothing is undone. -/
theorem GoodFirst.grow (h : net.GoodFirst)
    (hscq : ∀ r, ∃ bads, (net'.host r).scq = (net.host r).scq ++ bads ∧ ∀ wc ∈ bads, ¬ wc.success)
    (hdone : ∀ r, net.done r <+: net'.done r) : net'.GoodFirst := by
  intro r
  obtain ⟨goods, bads, heq, hbad, hle⟩ := h r
  obtain ⟨more, hmore, hworse⟩ := hscq r
  refine ⟨goods, bads ++ more, by rw [hmore, heq, List.append_assoc], ?_, ?_⟩
  · intro wc hwc
    rcases List.mem_append.1 hwc with hwc | hwc
    · exact hbad wc hwc
    · exact hworse wc hwc
  · exact hle.trans ((hdone r).filter _).length_le

theorem GoodFirst.called (h : net.GoodFirst) (r : Role) (op : VOp) (a : op.Ans) :
    (net.called r op a).GoodFirst := by
  refine h.grow (fun q => ⟨[], ?_, by simp⟩) fun q => List.prefix_rfl
  rw [(called_host net r q op a).2.2.1, List.append_nil]

/-- While the connection stands there are no others. -/
theorem GoodFirst.of_unbroken (hrc : net.Rc) (hb : net.broken = false) : net.GoodFirst := by
  intro r
  obtain ⟨-, -, hscq⟩ := hrc.standing hb r
  exact ⟨_, [], by rw [hscq, List.append_nil], by simp, by simp⟩

/-- A failed request leaves a bad completion, signaled or not. -/
theorem finish_false (host : Host) (wr : SendWr) :
    (host.finish wr false).scq = host.scq ++ [.bad] := by
  simp [Host.finish, completion]

theorem GoodFirst.tick (h : net.GoodFirst) (hrc : net.Rc) {t : Tick}
    (ht : Net.tick t net = some net') : net'.GoodFirst := by
  have hbad : ∀ wc ∈ [Wc.bad], ¬ wc.success := by
    intro wc hwc
    rw [List.mem_singleton.1 hwc]
    exact Wc.bad_not_success
  have hnone : ∀ wc ∈ ([] : List Wc), ¬ wc.success := by simp
  -- a host with a bad completion more, and one with none more
  have hpair : ∀ (s : Role) (x y : Host), (∃ bads, x.scq = (net.host s).scq ++ bads ∧
      ∀ wc ∈ bads, ¬ wc.success) → y.scq = (net.host s.peer).scq →
      ∀ r, ∃ bads, (pair s x y r).scq = (net.host r).scq ++ bads ∧ ∀ wc ∈ bads, ¬ wc.success := by
    intro s x y hx hy r
    rcases Role.eq_or_eq_peer s r with rfl | rfl
    · rw [pair_self]
      exact hx
    · rw [pair_peer]
      exact ⟨[], by rw [hy, List.append_nil], hnone⟩
  have hfailed : ∀ (s : Role) (wr : SendWr), ∃ bads, ((net.host s).finish wr false).scq =
      (net.host s).scq ++ bads ∧ ∀ wc ∈ bads, ¬ wc.success :=
    fun s wr => ⟨[.bad], finish_false _ _, hbad⟩
  cases Net.tick_cases ht with
  | @exec s lost wr e _ _ _ =>
    cases e with
    | carry t =>
      cases lost with
      | false => exact .of_unbroken (hrc.tick ht) rfl
      | true =>
        refine h.grow (hpair s _ _ (hfailed s wr) ?_) fun r => ?_
        · split <;> rfl
        · exact (later_apply net s wr true (.carry t)).transfers.filter _
    | reject => exact h.grow (hpair s _ _ (hfailed s wr) rfl) fun _ => List.prefix_rfl
    | rejectBoth => exact h.grow (hpair s _ _ (hfailed s wr) rfl) fun _ => List.prefix_rfl
  | @flushSend r wr _ _ => exact h.grow (hpair r _ _ (hfailed r wr) rfl) fun _ => List.prefix_rfl
  | @flushRecv r _ _ _ =>
    refine h.grow (hpair r _ _ ⟨[], ?_, hnone⟩ rfl) fun _ => List.prefix_rfl
    rw [List.append_nil]
    rfl
  | fault => exact h.grow (fun r => ⟨[], (List.append_nil _).symm, hnone⟩) fun _ => List.prefix_rfl

/-- **A good completion behind all others**: every request posted has been carried out. -/
theorem GoodFirst.all_done (h : net.GoodFirst) (hrc : net.Rc) {r : Role}
    (hpolled : (net.loc r).sWcs.length = (net.loc r).signaled)
    (hlast : ∀ wr, (net.loc r).sq[(net.loc r).sq.length - 1]? = some wr → wr.signaled) {wc : Wc}
    (hwc : (net.loc r).sWcs.getLast? = some wc) (hgood : wc.success) :
    (net.done r).length = (net.loc r).sq.length := by
  obtain ⟨goods, bads, hscq, hbad, hle⟩ := h r
  have hpre := hrc.done_sq r
  have hcount : ((net.done r).filter (·.wr.signaled)).length =
      (((net.done r).map (·.wr)).filter (·.signaled)).length := by
    rw [List.filter_map, List.length_map]
    rfl
  -- the last completion polled is one of the good ones, so all are
  have hgoods : (net.loc r).sWcs.length ≤ goods.length := by
    by_contra hlt
    rw [List.getLast?_eq_getElem?] at hwc
    have hat : (net.host r).scq[(net.loc r).sWcs.length - 1]? = some wc :=
      Lib.getElem?_mono (hrc.spolled r) hwc
    rw [hscq, List.getElem?_append_right (by omega)] at hat
    exact hbad wc (List.mem_of_getElem? hat) hgood
  by_contra hne
  have hlength := hpre.length_le
  rw [List.length_map] at hlength
  have hlt : (net.done r).length < (net.loc r).sq.length := by omega
  have hwr := List.getElem?_eq_getElem (show (net.loc r).sq.length - 1 < (net.loc r).sq.length by omega)
  have hfewer := signaled_lt hpre hwr (hlast _ hwr) (by rwa [List.length_map])
  rw [Local.signaled] at hpolled
  omega

end Net

end RdmaOpera
