import RdmaOpera.Lib.Growth
import RdmaOpera.RdmaRules

/-!
# The request buffers: one block and one region for each group of requests

`allocate_buffer` and `deallocate_buffer` (`dccs_rdma.h:307-369`) are flat loops over the requests
that act on every `count / mr_count`-th of them only. Their rules are about the groups:
`safe_allocateBuffer` and `safe_deallocateBuffer` ask what one group does.
-/

namespace RdmaOpera

open Lib Prog

def countPerMr (params : DccsParameters) : Nat := params.count / params.mrCount

def bufferLength (params : DccsParameters) : Nat := sizeT (countPerMr params * params.length)

/-- The access a verb's regions are registered with. -/
def accessOf : Verb → Access
  | .Read => .read
  | .Write => .write
  | .Send | .None => .msgs

/-- What the library answered for one group: the block, and its region. -/
structure Grant where
  buf : Option (Ptr × List UInt8)
  mr : Option Mr

def Grant.base (g : Grant) : Ptr := (g.buf.map Prod.fst).getD .null

def allocateGroup (params : DccsParameters) : VProg Grant := do
  let buf ← Call.mallocRandom (bufferLength params)
  let mr ← dccsRegMr (accessOf params.verb) ((buf.map Prod.fst).getD .null) (bufferLength params)
  pure ⟨buf, mr⟩

def deallocateGroup (request : DccsRequest) : VProg Unit := do
  dccsDeregMr request.mr
  Call.free request.buf

/-- Request `n` once its group `g` is there. -/
def laidRequest (params : DccsParameters) (g : Grant) (n : Nat) (request : DccsRequest) :
    DccsRequest :=
  { request with
    verb := params.verb
    buf := g.base.add (n % countPerMr params * params.length)
    length := params.length
    mr := g.mr }

/-- The first `n` requests are filled in from the groups `gs`, the others are as they were. -/
structure Filled (params : DccsParameters) (requests : List DccsRequest) (gs : List Grant) (n : Nat)
    (requests' : List DccsRequest) : Prop where
  length : requests'.length = requests.length
  done : ∀ i < n, ∃ g, gs[i / countPerMr params]? = some g ∧
    reqAt requests' i = laidRequest params g i (reqAt requests i)
  todo : ∀ i, n ≤ i → reqAt requests' i = reqAt requests i

/-! ## Groups of a flat loop -/

/-- The groups begun before turn `n`, in groups of `k`. -/
def begun (k n : Nat) : Nat := n / k + if n % k = 0 then 0 else 1

theorem begun_of_first {k n : Nat} (h : n % k = 0) : begun k n = n / k := by
  unfold begun
  rw [if_pos h, Nat.add_zero]

theorem begun_succ (k n : Nat) : begun k (n + 1) = n / k + 1 := by
  unfold begun
  rw [Nat.succ_div]
  simp only [Nat.dvd_iff_mod_eq_zero]
  split
  · rfl
  · rfl

/-- In the middle of a group the number of groups does not change. -/
theorem begun_of_not_first {k n : Nat} (h : n % k ≠ 0) : begun k n = n / k + 1 := by
  unfold begun
  rw [if_neg h]

namespace Accepted

variable {params : DccsParameters} (h : Accepted params)
include h

theorem countPerMr_mul : params.mrCount * countPerMr params = params.count := by
  obtain ⟨-, -, -, hmod, -⟩ := h.checked
  exact Nat.mul_div_cancel' (Nat.dvd_of_mod_eq_zero hmod)

theorem countPerMr_pos : 0 < countPerMr params := h.quotient_pos

theorem begun_count : begun (countPerMr params) params.count = params.mrCount := by
  have hpos := h.countPerMr_pos
  rw [← h.countPerMr_mul, begun_of_first (Nat.mul_mod_left _ _), Nat.mul_div_cancel _ hpos]

theorem group_lt {n : Nat} (hn : n < params.count) : n / countPerMr params < params.mrCount := by
  rw [← h.countPerMr_mul] at hn
  exact Nat.div_lt_of_lt_mul (by rwa [Nat.mul_comm])

/-- The first request of a group. -/
theorem first_lt {g : Nat} (hg : g < params.mrCount) : g * countPerMr params < params.count := by
  rw [← h.countPerMr_mul]
  exact Nat.mul_lt_mul_of_pos_right hg h.countPerMr_pos

end Accepted

/-! ## The rules -/

section rules
variable {σ : Type} {m : Monitor Verbs σ} {ok : σ → VOp → Prop} {params : DccsParameters}
  {requests : List DccsRequest}
  {s : σ}

/-- The region of a new block. -/
theorem allocateMr_eq (hverb : params.verb ≠ .None) (p : Ptr) (len : Nat) (mr : Option Mr) :
    allocateMr params p len mr = dccsRegMr (accessOf params.verb) p len := by
  unfold allocateMr
  cases hv : params.verb with
  | None => exact absurd hv hverb
  | Send => rfl
  | Read => rfl
  | Write => rfl

theorem allocateRegion_eq (hverb : params.verb ≠ .None) (st : AllocState) :
    allocateRegion params (bufferLength params) st =
      allocateGroup params >>= fun g => pure { st with bufBase := g.base, mr := g.mr } := by
  simp only [allocateRegion, allocateMr_eq hverb, allocateGroup, bind_assoc]
  rfl

/-- Before turn `n` of the loop: the groups begun so far, and the current one in the loop's
variables. -/
structure Laid (params : DccsParameters) (requests : List DccsRequest) (I : List Grant → σ → Prop)
    (n : Nat) (st : AllocState) (t : σ) : Prop where
  groups : ∃ gs, gs.length = begun (countPerMr params) n ∧ I gs t ∧
    Filled params requests gs n st.requests ∧
    (n % countPerMr params ≠ 0 → ∃ g, gs[n / countPerMr params]? = some g ∧
      st.bufBase = g.base ∧ st.mr = g.mr)

theorem Filled.append {gs : List Grant} {n : Nat} {requests' : List DccsRequest}
    (h : Filled params requests gs n requests') (g : Grant) :
    Filled params requests (gs ++ [g]) n requests' where
  length := h.length
  done i hi := by
    obtain ⟨g', hg', hr⟩ := h.done i hi
    exact ⟨g', getElem?_mono (List.prefix_append _ _) hg', hr⟩
  todo := h.todo

/-- The first request of a group has what the group was granted. -/
theorem Filled.first {gs : List Grant} {requests' : List DccsRequest}
    (hfilled : Filled params requests gs params.count requests') (h : Accepted params) {j : Nat}
    (hj : j < params.mrCount) :
    ∃ g, gs[j]? = some g ∧ (reqAt requests' (j * countPerMr params)).mr = g.mr ∧
      (reqAt requests' (j * countPerMr params)).buf = g.base := by
  obtain ⟨g, hg, hr⟩ := hfilled.done _ (h.first_lt hj)
  rw [Nat.mul_div_cancel _ h.countPerMr_pos] at hg
  rw [hr]
  refine ⟨g, hg, rfl, ?_⟩
  show g.base.add (j * countPerMr params % countPerMr params * params.length) = g.base
  rw [Nat.mul_mod_left, Nat.zero_mul]
  rfl

/-- Request `n` is filled in from its group. -/
theorem Filled.set {gs : List Grant} {n : Nat} {requests' : List DccsRequest}
    (h : Filled params requests gs n requests') (hn : n < requests.length) {g : Grant}
    (hg : gs[n / countPerMr params]? = some g) :
    Filled params requests gs (n + 1) (requests'.set n (laidRequest params g n (reqAt requests' n))) where
  length := by rw [List.length_set, h.length]
  done i hi := by
    rw [reqAt_set (by rw [h.length]; omega)]
    by_cases hin : n = i
    · subst hin
      rw [if_pos rfl, h.todo n (Nat.le_refl n)]
      exact ⟨g, hg, rfl⟩
    · rw [if_neg hin]
      exact h.done i (by omega)
  todo i hi := by
    rw [← h.todo i (by omega)]
    by_cases hil : i < requests'.length
    · rw [reqAt_set hil, if_neg (by omega)]
    · have hle := Nat.le_of_not_lt hil
      simp [reqAt, List.getElem?_eq_none hle,
        List.getElem?_eq_none (show (requests'.set n _).length ≤ i by simpa using hle)]

theorem safe_allocateOne (h : Accepted params) (hlen : requests.length = params.count)
    {I : List Grant → σ → Prop}
    (hstep : ∀ gs t, gs.length < params.mrCount → I gs t →
      Safe m ok (allocateGroup params) t fun g t' => I (gs ++ [g]) t')
    {n : Nat} {st : AllocState} {t : σ} (hn : n < params.count) (hl : Laid params requests I n st t) :
    Safe m ok (allocateOne params n st) t (Laid params requests I (n + 1)) := by
  have hpos := h.countPerMr_pos
  have hgroup := h.group_lt hn
  obtain ⟨gs, hgs, hI, hfilled, hcurrent⟩ := hl
  refine safe_ite.2 ⟨fun h0 => ?_, fun _ => ?_⟩
  · have h0 : countPerMr params = 0 := h0
    omega
  -- the group of request `n`, new or not
  refine Safe.bind (R := fun st' t' => st'.requests = st.requests ∧
    ∃ gs', gs'.length = n / countPerMr params + 1 ∧ I gs' t' ∧
      Filled params requests gs' n st.requests ∧
      ∃ g, gs'[n / countPerMr params]? = some g ∧ st'.bufBase = g.base ∧ st'.mr = g.mr) ?_
        fun st' t' hst => ?_
  · refine safe_ite.2 ⟨fun hoff => ?_, fun hoff => ?_⟩
    · have hoff : n % countPerMr params = 0 := hoff
      rw [begun_of_first hoff] at hgs
      rw [show sizeT (params.count / params.mrCount * params.length) = bufferLength params from rfl,
        allocateRegion_eq h.scanned.verb]
      refine Safe.bind (hstep gs t (by omega) hI) fun g t' hI' => ?_
      exact ⟨rfl, gs ++ [g], by simp [hgs], hI', hfilled.append g, g, by simp [← hgs], rfl, rfl⟩
    · have hoff : n % countPerMr params ≠ 0 := hoff
      rw [begun_of_not_first hoff] at hgs
      exact ⟨rfl, gs, hgs, hI, hfilled, hcurrent hoff⟩
  · obtain ⟨hreq, gs', hgs', hI', hfilled', g, hg, hbase, hmr⟩ := hst
    refine ⟨gs', ?_, hI', ?_, fun hoff => ?_⟩
    · rw [begun_succ, hgs']
    · have hset := hfilled'.set (by omega) hg
      rw [← hreq] at hset
      unfold laidRequest at hset
      rw [← hbase, ← hmr] at hset
      exact hset
    · refine ⟨g, ?_, hbase, hmr⟩
      have hdiv : (n + 1) / countPerMr params = n / countPerMr params := by
        rw [Nat.succ_div, if_neg (fun hd => hoff (Nat.mod_eq_zero_of_dvd hd)), Nat.add_zero]
      rw [hdiv]
      exact hg

/-- **`allocate_buffer`**: whatever each group keeps holds of all `mr_count` of them at the end. The
result is 0 whatever the library answers. -/
theorem safe_allocateBuffer (h : Accepted params) (hlen : requests.length = params.count)
    (I : List Grant → σ → Prop) (h0 : I [] s)
    (hstep : ∀ gs t, gs.length < params.mrCount → I gs t →
      Safe m ok (allocateGroup params) t fun g t' => I (gs ++ [g]) t') :
    Safe m ok (allocateBuffer requests params) s fun r t =>
      r.1 = 0 ∧ ∃ gs, gs.length = params.mrCount ∧ I gs t ∧
      Filled params requests gs params.count r.2 := by
  have hmr := h.checked.2.2.1
  refine safe_ite.2 ⟨fun hz => by omega, fun _ => ?_⟩
  have hstart : Laid params requests I 0 { requests } s := by
    refine ⟨[], by simp [begun], h0, ⟨rfl, by simp, fun _ _ => rfl⟩, fun hoff => absurd (Nat.zero_mod _) hoff⟩
  refine Safe.bind (safe_forN (Laid params requests I) hstart
    fun n st t hn hl => safe_allocateOne h hlen hstep hn hl) ?_
  intro st t hl
  obtain ⟨gs, hgs, hI, hfilled, -⟩ := hl
  rw [h.begun_count] at hgs
  exact ⟨rfl, gs, hgs, hI, hfilled⟩

/-- **`deallocate_buffer`** gives every group back through its first request. -/
theorem safe_deallocateBuffer (h : Accepted params) (I : Nat → σ → Prop) (h0 : I 0 s)
    (hstep : ∀ g t, g < params.mrCount → I g t →
      Safe m ok (deallocateGroup (reqAt requests (g * countPerMr params))) t
      fun _ t' => I (g + 1) t') :
    Safe m ok (deallocateBuffer requests params) s fun _ t => I params.mrCount t := by
  have hpos := h.countPerMr_pos
  have hmr := h.checked.2.2.1
  refine safe_ite.2 ⟨fun hz => by omega, fun _ => ?_⟩
  have hloop : Safe m ok (forN params.count (deallocateOne requests params) ()) s fun _ t =>
      I (begun (countPerMr params) params.count) t := by
    refine safe_forN (fun n _ t => I (begun (countPerMr params) n) t) (by simpa [begun] using h0)
      fun n u t hn hI => ?_
    refine safe_ite.2 ⟨fun hz => ?_, fun _ => safe_ite.2 ⟨fun hoff => ?_, fun hoff => ?_⟩⟩
    · have hz : countPerMr params = 0 := hz
      omega
    · have hoff : n % countPerMr params ≠ 0 := hoff
      rw [begun_of_not_first hoff] at hI
      show I (begun (countPerMr params) (n + 1)) t
      rw [begun_succ]
      exact hI
    · have hoff : n % countPerMr params = 0 := not_not.1 hoff
      rw [begun_of_first hoff] at hI
      have hfirst : n / countPerMr params * countPerMr params = n :=
        Nat.div_mul_cancel (Nat.dvd_of_mod_eq_zero hoff)
      have := hstep (n / countPerMr params) t (h.group_lt hn) hI
      rw [hfirst] at this
      rw [begun_succ]
      exact this
  rw [h.begun_count] at hloop
  exact hloop

end rules

/-! ## What the other functions leave alone -/

/-- The times and the remote side of the requests may differ. -/
structure SameBuffers (requests requests' : List DccsRequest) : Prop where
  length : requests'.length = requests.length
  same : ∀ i, (reqAt requests' i).verb = (reqAt requests i).verb ∧
    (reqAt requests' i).length = (reqAt requests i).length ∧
    (reqAt requests' i).mr = (reqAt requests i).mr ∧
      (reqAt requests' i).buf = (reqAt requests i).buf

theorem SameBuffers.refl (requests : List DccsRequest) : SameBuffers requests requests :=
  ⟨rfl, fun _ => ⟨rfl, rfl, rfl, rfl⟩⟩

theorem SameBuffers.trans {requests requests' requests'' : List DccsRequest}
    (h : SameBuffers requests requests') (h' : SameBuffers requests' requests'') :
    SameBuffers requests requests'' := by
  refine ⟨h'.length.trans h.length, fun i => ?_⟩
  obtain ⟨h1, h2, h3, h4⟩ := h.same i
  obtain ⟨h1', h2', h3', h4'⟩ := h'.same i
  exact ⟨h1'.trans h1, h2'.trans h2, h3'.trans h3, h4'.trans h4⟩

/-- One request changed in its times only. -/
theorem SameBuffers.set {requests requests' : List DccsRequest} {n : Nat} {r : DccsRequest}
    (h : SameBuffers requests requests')
    (hr : r.verb = (reqAt requests' n).verb ∧ r.length = (reqAt requests' n).length ∧
      r.mr = (reqAt requests' n).mr ∧ r.buf = (reqAt requests' n).buf) :
    SameBuffers requests (requests'.set n r) := by
  refine ⟨by rw [List.length_set, h.length], fun i => ?_⟩
  have hi := h.same i
  by_cases hil : i < requests'.length
  · rw [reqAt_set hil]
    split
    · rename_i e
      subst e
      obtain ⟨h1, h2, h3, h4⟩ := hr
      rw [h1, h2, h3, h4]
      exact hi
    · exact hi
  · have hle := Nat.le_of_not_lt hil
    have hset : reqAt (requests'.set n r) i = reqAt requests' i := by
      simp [reqAt, List.getElem?_eq_none hle,
        List.getElem?_eq_none (show (requests'.set n r).length ≤ i by simpa using hle)]
    rw [hset]
    exact hi

theorem sameBuffers_storeMrInfos (o : ByteOrder) (infos : List UInt8) (requests : List DccsRequest)
    (count : Nat) :
    SameBuffers requests (storeMrInfos o infos requests count) := by
  refine ⟨by simp [storeMrInfos], fun i => ?_⟩
  by_cases hi : i < requests.length
  · rw [storeMrInfos, reqAt_mapIdx hi]
    split
    · exact ⟨rfl, rfl, rfl, rfl⟩
    · exact ⟨rfl, rfl, rfl, rfl⟩
  · have hle := Nat.le_of_not_lt hi
    have hle' : (storeMrInfos o infos requests count).length ≤ i := by
      simpa [storeMrInfos] using hle
    simp [reqAt, List.getElem?_eq_none hle, List.getElem?_eq_none hle']

section same
variable {σ : Type} {m : Monitor Verbs σ} (hspin : m.spins) {requests : List DccsRequest} {s : σ}

/-- Whatever a program is answered, its result satisfies `Q`. -/
abbrev Anyhow {σ α : Type} (m : Monitor Verbs σ) (p : VProg α) (s : σ) (Q : α → Prop) : Prop :=
  Safe m (fun _ _ => True) p s fun a _ => Q a

include hspin

theorem anyhow_bind {α β : Type} {p : VProg α} {f : α → VProg β} {Q : β → Prop}
    (hf : ∀ a t, Anyhow m (f a) t Q) :
    Anyhow m (p >>= f) s Q := safe_bind_any (fun _ _ => trivial) hspin hf

/-- A result that carries the requests on unchanged. -/
theorem same_of_keep {p : VProg Int} :
    Anyhow m ((·, requests) <$> p) s fun r => SameBuffers requests r.2 :=
  anyhow_bind hspin fun _ _ => SameBuffers.refl requests

theorem same_getRemoteMrInfo (o : ByteOrder) (count : Nat) :
    Anyhow m (getRemoteMrInfo o requests count) s fun r => SameBuffers requests r.2 := by
  refine anyhow_bind hspin fun mrInfos s => ?_
  cases mrInfos with
  | none => exact hspin
  | some mrInfos =>
    refine anyhow_bind hspin fun rcountVar s => anyhow_bind hspin fun mrCount s => ?_
    cases mrCount with
    | none => exact same_of_keep hspin
    | some mrCount =>
      refine anyhow_bind hspin fun mrArray s => ?_
      cases mrArray with
      | none => exact same_of_keep hspin
      | some mrArray =>
        refine anyhow_bind hspin fun r s => safe_ite.2 ⟨fun _ => same_of_keep hspin, fun _ => ?_⟩
        refine anyhow_bind hspin fun rcount s => safe_ite.2 ⟨fun _ => ?_, fun _ => ?_⟩
        · exact anyhow_bind hspin fun _ _ => same_of_keep hspin
        refine anyhow_bind hspin fun r s => safe_ite.2 ⟨fun _ => same_of_keep hspin, fun _ => ?_⟩
        refine safe_ite.2 ⟨fun _ => hspin, fun _ => ?_⟩
        exact anyhow_bind hspin fun infos s => anyhow_bind hspin fun _ _ =>
          sameBuffers_storeMrInfos o infos requests count

theorem same_sendAndWaitOne (count n : Nat) {st : SendState} (hs : SameBuffers requests st.requests) :
    Anyhow m (sendAndWaitOne count n st) s fun st' => SameBuffers requests st'.requests := by
  have hstart : ∀ start,
    SameBuffers requests (st.requests.set n { reqAt st.requests n with start }) :=
    fun start => hs.set ⟨rfl, rfl, rfl, rfl⟩
  refine anyhow_bind hspin fun rv s => anyhow_bind hspin fun start s => ?_
  refine safe_ite.2 ⟨fun _ => ?_, fun _ => hstart start⟩
  exact anyhow_bind hspin fun rv s => anyhow_bind hspin fun end_ s =>
    (hstart start).set ⟨rfl, rfl, rfl, rfl⟩

theorem same_sendAndWaitRequests (params : DccsParameters) :
    Anyhow m (sendAndWaitRequests requests params) s fun r => SameBuffers requests r.2 := by
  refine anyhow_bind hspin fun _ s => ?_
  refine Safe.bind (safe_forN (fun _ st _ => SameBuffers requests st.requests) (.refl requests)
    fun n st s _ hs => ?_) ?_
  · exact same_sendAndWaitOne hspin params.count n hs
  · exact fun st s hs => anyhow_bind hspin fun _ _ => hs

end same

end RdmaOpera
