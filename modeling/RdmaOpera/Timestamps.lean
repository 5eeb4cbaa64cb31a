import RdmaOpera.Lib.Growth
import RdmaOpera.RdmaRules
import RdmaOpera.Reports

/-!
# The timestamps of a round

`send_and_wait_requests` reads the clock once before its loop, after every post, and after every
wait for a completion. The request array is reused from round to round and never cleared.
-/

namespace RdmaOpera

open Lib Prog

/-- The readings of a clock that does not go back. Completions may fail, or never come. -/
def clocked : Monitor Verbs (List UInt64) where
  upd readings
    | .getCycles, (now : UInt64) => readings ++ [now]
    | _, _ => readings
  adm readings
    | .getCycles, (now : UInt64) => ∀ r ∈ readings, r ≤ now
    | _, _ => True
  spins := True

theorem quiet_clocked : Quiet clocked fun _ _ => True := ⟨fun _ _ => trivial, fun _ _ _ => rfl⟩

/-! ## What the reports rely on -/

/-- Latency mode: every start and every end is a reading of this call, in this order. -/
structure LatencyStamped (params : DccsParameters) (requests : List DccsRequest)
    (readings : List UInt64) : Prop where
  start : ∀ n < params.count, readings[2 * n + 1]? = some (reqAt requests n).start
  end_ : ∀ n < params.count, readings[2 * n + 2]? = some (reqAt requests n).end_
  ordered : ∀ n < params.count, (reqAt requests n).start ≤ (reqAt requests n).end_
  chained : ∀ n, n + 1 < params.count → (reqAt requests n).end_ ≤ (reqAt requests (n + 1)).start
  elapsed : ∀ n < params.count, ((reqAt requests n).end_ - (reqAt requests n).start).toNat =
    (reqAt requests n).end_.toNat - (reqAt requests n).start.toNat
  /-- the report sees nothing of an earlier round -/
  report : ∀ clockRate, printLatencyReport clockRate params requests =
    printLatencyReportRaw clockRate
    ((List.range params.count).map fun n => readings.getD (2 * n + 1) 0)
    ((List.range params.count).map fun n => readings.getD (2 * n + 2) 0) params.count
      (readings.getD 1 0) params.verbose

/-- Throughput mode: every start, and the end of the last request. -/
structure ThroughputStamped (params : DccsParameters) (requests : List DccsRequest)
    (readings : List UInt64) : Prop where
  start : ∀ w < params.count, readings[w + 1]? = some (reqAt requests w).start
  end_ : readings[params.count + 1]? = some (reqAt requests (params.count - 1)).end_
  ordered : ∀ w < params.count, (reqAt requests w).start ≤ (reqAt requests (params.count - 1)).end_
  elapsed : ∀ w < params.count,
    ((reqAt requests (params.count - 1)).end_ - (reqAt requests w).start).toNat =
    (reqAt requests (params.count - 1)).end_.toNat - (reqAt requests w).start.toNat
  /-- whatever the warm-up -/
  report : params.count < 2 ^ 64 → ∀ w < params.count, ∀ clockRate report,
    printThroughputReport clockRate { params with warmupCount := w } requests = some report →
      report.elapsedSeconds =
        ((readings.getD (params.count + 1) 0).toNat - (readings.getD (w + 1) 0).toNat : Nat) / clockRate.toNat

def Stamped (params : DccsParameters) (requests : List DccsRequest) (readings : List UInt64) :
    Prop := match params.mode with
  | .latency => LatencyStamped params requests readings
  | .throughput => ThroughputStamped params requests readings

/-! ## One request -/

section
variable {params : DccsParameters} {requests : List DccsRequest} {readings : List UInt64}

theorem safe_postRequest_clocked {request : DccsRequest} {signaled : Bool}
    {Q : Int → List UInt64 → Prop} (h : ∀ rv, Q rv readings) :
    Safe clocked (fun _ _ => True) (postRequest request signaled) readings Q := by
  unfold postRequest
  split
  · exact quiet_clocked.dccsRdmaPost trivial fun rv _ => h rv
  · exact h 0

/-- The request is stamped before the wait, and after it if there is one. -/
def stamp (request : DccsRequest) (start : UInt64) : Option UInt64 → DccsRequest
  | none => { request with start }
  | some end_ => { request with start, end_ }

theorem safe_sendAndWaitOne_clocked {count n : Nat} {s : SendState}
    {Q : SendState → List UInt64 → Prop} (hn : n < s.requests.length)
    (hunsignaled : n ≠ count - 1 → s.signaled = false → ∀ failedCount start,
      Q ⟨s.requests.set n (stamp (reqAt s.requests n) start none), false, failedCount⟩ (readings ++ [start]))
    (hsignaled : n = count - 1 ∨ s.signaled = true → ∀ failedCount start end_,
      Q ⟨s.requests.set n (stamp (reqAt s.requests n) start (some end_)), true, failedCount⟩
      (readings ++ [start, end_])) :
    Safe clocked (fun _ _ => True) (sendAndWaitOne count n s) readings Q := by
  have hset : ∀ start, reqAt (s.requests.set n { reqAt s.requests n with start }) n =
    { reqAt s.requests n with start } := by
    intro start
    rw [reqAt_set hn, if_pos rfl]
  refine safe_bind.2 (safe_postRequest_clocked fun rv => safe_bind.2 ⟨trivial, fun start _ => ?_⟩)
  by_cases hsig : n = count - 1 ∨ s.signaled = true
  · have htrue : (if n = count - 1 then true else s.signaled) = true := by
      split
      · rfl
      · exact hsig.resolve_left ‹_›
    refine safe_ite.2 ⟨fun _ => ?_, fun h => absurd htrue h⟩
    refine safe_bind.2 (quiet_clocked.dccsRdmaSendComp_one trivial
      fun poll _ => safe_bind.2 ⟨trivial, fun end_ _ => ?_⟩)
    have hQ := hsignaled hsig
      (if rv ≠ 0 ∨ poll.rv < 0 then s.failedCount + 1 else s.failedCount) start end_
    rw [List.append_cons readings start [end_]] at hQ
    simp only [htrue, hset, List.set_set]
    exact hQ
  · rw [not_or, Bool.not_eq_true] at hsig
    have hfalse : (if n = count - 1 then true else s.signaled) = false := by
      rw [if_neg hsig.1, hsig.2]
    refine safe_ite.2 ⟨fun h => absurd (hfalse.symm.trans h) Bool.false_ne_true, fun _ => ?_⟩
    simp only [hfalse]
    exact hunsignaled hsig.1 hsig.2 _ start

/-! ## The loops -/

/-- Before request `n` in latency mode. -/
structure LatencyLoop (count n : Nat) (s : SendState) (readings : List UInt64) : Prop where
  length : s.requests.length = count
  signaled : s.signaled = true
  taken : readings.length = 2 * n + 1
  start : ∀ i < n, readings[2 * i + 1]? = some (reqAt s.requests i).start
  end_ : ∀ i < n, readings[2 * i + 2]? = some (reqAt s.requests i).end_

theorem safe_latencyLoop {count n : Nat} (hn : n < count) {s : SendState}
    (h : LatencyLoop count n s readings) :
    Safe clocked (fun _ _ => True) (sendAndWaitOne count n s) readings (LatencyLoop count (n + 1)) := by
  obtain ⟨hlen, hsignaled, hreadings, hstart, hend⟩ := h
  have hn' : n < s.requests.length := hlen ▸ hn
  refine safe_sendAndWaitOne_clocked hn' (fun _ hs => nomatch hsignaled.symm.trans hs)
    fun _ failedCount start end_ => ?_
  have hreq : ∀ i < n + 1,
    reqAt (s.requests.set n (stamp (reqAt s.requests n) start (some end_))) i =
      if n = i then stamp (reqAt s.requests n) start (some end_) else reqAt s.requests i :=
    fun i hi => reqAt_set (by omega)
  refine ⟨by rw [List.length_set, hlen], rfl, by rw [List.length_append, hreadings]; rfl,
    fun i hi => ?_, fun i hi => ?_⟩
  · rw [hreq i hi]
    split
    · rename_i e
      subst e
      rw [List.getElem?_append_right (by omega), hreadings, Nat.sub_self]
      rfl
    · exact getElem?_mono (List.prefix_append _ _) (hstart i (by omega))
  · rw [hreq i hi]
    split
    · rename_i e
      subst e
      rw [List.getElem?_append_right (by omega), hreadings,
        show 2 * n + 2 - (2 * n + 1) = 1 by omega]
      rfl
    · exact getElem?_mono (List.prefix_append _ _) (hend i (by omega))

/-- Before request `n` in throughput mode, where only the last one is waited for. -/
structure ThroughputLoop (count n : Nat) (s : SendState) (readings : List UInt64) : Prop where
  length : s.requests.length = count
  unsignaled : n < count → s.signaled = false ∧ readings.length = n + 1
  start : ∀ i < n, readings[i + 1]? = some (reqAt s.requests i).start
  end_ : n = count → readings[count + 1]? = some (reqAt s.requests (count - 1)).end_

theorem safe_throughputLoop {count n : Nat} (hn : n < count) {s : SendState}
    (h : ThroughputLoop count n s readings) :
    Safe clocked (fun _ _ => True) (sendAndWaitOne count n s) readings (ThroughputLoop count (n + 1)) := by
  obtain ⟨hlen, hunsignaled, hstart, -⟩ := h
  obtain ⟨hsignaled, hreadings⟩ := hunsignaled hn
  have hn' : n < s.requests.length := hlen ▸ hn
  have hreq : ∀ request, ∀ i < n + 1, reqAt (s.requests.set n request) i =
    if n = i then request else reqAt s.requests i :=
    fun request i hi => reqAt_set (by omega)
  have hstamped : ∀ start last more, ∀ i < n + 1, (readings ++ start :: more)[i + 1]? =
      some (reqAt (s.requests.set n (stamp (reqAt s.requests n) start last)) i).start := by
    intro start last more i hi
    rw [hreq _ i hi]
    split
    · rename_i e
      subst e
      rw [List.getElem?_append_right (by omega), hreadings, Nat.sub_self]
      cases last <;> rfl
    · exact getElem?_mono (List.prefix_append _ _) (hstart i (by omega))
  refine safe_sendAndWaitOne_clocked hn' (fun hne _ failedCount start => ?_)
    fun hlast failedCount start end_ => ?_
  · refine ⟨by rw [List.length_set, hlen],
      fun _ => ⟨rfl, by rw [List.length_append, hreadings]; rfl⟩, hstamped _ _ _, ?_⟩
    intro he
    omega
  · obtain rfl : n = count - 1 := hlast.resolve_right (by rw [hsignaled]; exact Bool.false_ne_true)
    refine ⟨by rw [List.length_set, hlen], fun hlt => by omega, hstamped _ _ _, fun _ => ?_⟩
    rw [hreq _ _ (Nat.lt_succ_self _), if_pos rfl, List.getElem?_append_right (by omega), hreadings,
      show count + 1 - (count - 1 + 1) = 1 by omega]
    rfl

/-! ## The call -/

theorem le_of_readings (h : readings.Pairwise (· ≤ ·)) {i j : Nat} (hij : i < j) {a b : UInt64}
    (ha : readings[i]? = some a) (hb : readings[j]? = some b) : a ≤ b := by
  obtain ⟨hi, rfl⟩ := List.getElem?_eq_some_iff.1 ha
  obtain ⟨hj, rfl⟩ := List.getElem?_eq_some_iff.1 hb
  exact List.pairwise_iff_getElem.1 h i j hi hj hij

/-- The readings are in order, whoever asks for them. -/
theorem Safe.inOrder {α : Type} {p : VProg α} {Q : α → List UInt64 → Prop}
    (h : Safe clocked (fun _ _ => True) p [] Q) :
    Safe clocked (fun _ _ => True) p [] fun a t => Q a t ∧ t.Pairwise (· ≤ ·) := by
  refine h.invariant List.Pairwise.nil (fun _ _ _ _ => trivial) fun t o a ht _ ha => ?_
  cases o with
  | getCycles => exact List.pairwise_append.2 ⟨ht, List.pairwise_singleton _ _,
    fun r hr now hnow => List.mem_singleton.1 hnow ▸ ha r hr⟩
  | _ => exact ht

theorem getD_of_getElem? {i : Nat} {a : UInt64} (h : readings[i]? = some a) :
    readings.getD i 0 = a := by
  rw [List.getD_eq_getElem?_getD, h]
  rfl

theorem LatencyLoop.stamped {s : SendState} (h : LatencyLoop params.count params.count s readings)
    (hcount : 0 < params.count) {last : UInt64} (hordered : (readings ++ [last]).Pairwise (· ≤ ·)) :
    LatencyStamped params s.requests (readings ++ [last]) := by
  have hstart := fun n hn => getElem?_mono (List.prefix_append _ [last]) (h.start n hn)
  have hend := fun n hn => getElem?_mono (List.prefix_append _ [last]) (h.end_ n hn)
  have hle : ∀ n < params.count, (reqAt s.requests n).start ≤ (reqAt s.requests n).end_ := fun n hn =>
    le_of_readings hordered (Nat.lt_succ_self _) (hstart n hn) (hend n hn)
  refine ⟨hstart, hend, hle, fun n hn => le_of_readings hordered (by omega) (hend n (by omega))
    (hstart (n + 1) hn),
    fun n hn => UInt64.toNat_sub_of_le _ _ (hle n hn), fun clockRate => ?_⟩
  have hstarts : (List.range params.count).map (fun n => (reqAt s.requests n).start) =
      (List.range params.count).map fun n => (readings ++ [last]).getD (2 * n + 1) 0 :=
    List.map_congr_left fun n hn => (getD_of_getElem? (hstart n (List.mem_range.1 hn))).symm
  have hends : (List.range params.count).map (fun n => (reqAt s.requests n).end_) =
      (List.range params.count).map fun n => (readings ++ [last]).getD (2 * n + 2) 0 :=
    List.map_congr_left fun n hn => (getD_of_getElem? (hend n (List.mem_range.1 hn))).symm
  rw [printLatencyReport, if_neg (by rw [h.length]; exact Nat.lt_irrefl _), hstarts, hends,
    ← getD_of_getElem? (hstart 0 hcount)]

theorem ThroughputLoop.stamped {s : SendState}
    (h : ThroughputLoop params.count params.count s readings) (hcount : 0 < params.count)
    {last : UInt64} (hordered : (readings ++ [last]).Pairwise (· ≤ ·)) :
    ThroughputStamped params s.requests (readings ++ [last]) := by
  have hstart := fun w hw => getElem?_mono (List.prefix_append _ [last]) (h.start w hw)
  have hend := getElem?_mono (List.prefix_append _ [last]) (h.end_ rfl)
  have hle : ∀ w < params.count, (reqAt s.requests w).start ≤
    (reqAt s.requests (params.count - 1)).end_ := fun w hw =>
    le_of_readings hordered (by omega) (hstart w hw) hend
  have helapsed := fun w hw => UInt64.toNat_sub_of_le _ _ (hle w hw)
  refine ⟨hstart, hend, hle, helapsed, fun hsize w hw clockRate report hreport => ?_⟩
  have hlast : sizeSub params.count 1 = params.count - 1 := sizeSub_of_le hcount hsize
  have hget : ∀ n < params.count, s.requests[n]? = some (reqAt s.requests n) := by
    intro n hn
    have hn' : n < s.requests.length := h.length ▸ hn
    rw [reqAt, List.getD_eq_getElem?_getD, List.getElem?_eq_getElem hn']
    rfl
  rw [printThroughputReport, hlast, hget w hw, hget (params.count - 1) (by omega)] at hreport
  cases hreport
  rw [getD_of_getElem? hend, getD_of_getElem? (hstart w hw), ← helapsed w hw]

/-- **Timestamp validity**, whatever an earlier round has left in the requests. -/
theorem sendAndWaitRequests_stamped {requests' : List DccsRequest} {rv : Int}
    (hlen : requests.length = params.count) (hcount : 0 < params.count)
    (h : Reach clocked (sendAndWaitRequests requests params) [] (.ret (rv, requests')) readings) :
    Stamped params requests' readings := by
  suffices hsafe :
    Safe clocked (fun _ _ => True) (sendAndWaitRequests requests params) [] fun r t =>
      ∃ s before last, t = before ++ [last] ∧ r.2 = s.requests ∧ match params.mode with
        | .latency => LatencyLoop params.count params.count s before
        | .throughput => ThroughputLoop params.count params.count s before by
    obtain ⟨⟨s, before, last, rfl, rfl, hloop⟩, hordered⟩ := (Safe.inOrder hsafe).reach h
    unfold Stamped
    cases hmode : params.mode with
    | latency => exact LatencyLoop.stamped (by rwa [hmode] at hloop) hcount hordered
    | throughput => exact ThroughputLoop.stamped (by rwa [hmode] at hloop) hcount hordered
  refine safe_bind.2 ⟨trivial, fun first _ => ?_⟩
  cases hmode : params.mode with
  | latency =>
    have hfirst : LatencyLoop params.count 0 { requests, signaled := true } [first] :=
      ⟨hlen, rfl, rfl, fun _ h => absurd h (Nat.not_lt_zero _),
        fun _ h => absurd h (Nat.not_lt_zero _)⟩
    refine Safe.bind (safe_forN (LatencyLoop params.count) hfirst
      fun n s t hn h => safe_latencyLoop hn h) fun s t hloop => ?_
    exact safe_bind.2 ⟨trivial, fun last _ => ⟨s, t, last, rfl, rfl, hloop⟩⟩
  | throughput =>
    have hfirst : ThroughputLoop params.count 0 { requests, signaled := false } [first] :=
      ⟨hlen, fun _ => ⟨rfl, rfl⟩, fun _ h => absurd h (Nat.not_lt_zero _),
        fun h => absurd h hcount.ne⟩
    refine Safe.bind (safe_forN (ThroughputLoop params.count) hfirst
      fun n s t hn h => safe_throughputLoop hn h) fun s t hloop => ?_
    exact safe_bind.2 ⟨trivial, fun last _ => ⟨s, t, last, rfl, rfl, hloop⟩⟩

def twoSends : DccsParameters := { oneSend with count := 2, mode := .throughput }

/-- What an earlier round has left. -/
def staleRequest : DccsRequest := { verb := .Send, start := 9, end_ := 4 }

/-- The last of two requests fails, and the clock stands still for a while. -/
theorem sendAndWaitRequests_stamped_twoSends :
    Stamped twoSends [{ staleRequest with start := 3 },
      { staleRequest with start := 5, end_ := 8 }] [3, 3, 5, 8, 8] := by
  have hreach : Reach clocked (sendAndWaitRequests [staleRequest, staleRequest] twoSends) []
      (.ret (-1, [{ staleRequest with start := 3 },
        { staleRequest with start := 5, end_ := 8 }])) [3, 3, 5, 8, 8] := by
    have hsecond : ∀ r ∈ ([3] : List UInt64), r ≤ 3 := by simp
    have hthird : ∀ r ∈ ([3, 3] : List UInt64), r ≤ 5 := by simp
    have hend : ∀ r ∈ ([3, 3, 5] : List UInt64), r ≤ 8 := by simp
    have hlast : ∀ r ∈ ([3, 3, 5, 8] : List UInt64), r ≤ 8 := by simp
    refine .call (3 : UInt64) (fun r hr => nomatch hr) ?_
    refine .call (0 : Int) trivial (.call (3 : UInt64) hsecond ?_)
    refine .call (0 : Int) trivial (.call (5 : UInt64) hthird ?_)
    refine .call (Poll.got Wc.bad []) trivial (.call () trivial (.call (8 : UInt64) hend ?_))
    exact .call (8 : UInt64) hlast (.refl _ _)
  exact sendAndWaitRequests_stamped rfl Nat.two_pos hreach

end

end RdmaOpera
