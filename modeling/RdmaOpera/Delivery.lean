import RdmaOpera.Connection

/-!
# What the connection guarantees

`Rc` holds in every state, whatever the two programs do, with or without faults: requests are
carried out in posting order (`done_sq`), the `k`-th message lands in the `k`-th receive
(`msgs_rq`), completions tell the truth (`rcq_good`), and each transfer is `Sound`: it moved the
bytes of the range its request names to the range named by the receive or the remote key. The bytes
of a block that no transfer has written to are those its own program has left there (`Original`).
-/

namespace RdmaOpera

open Lib Prog

namespace Net

/-- Something has been transferred to the block. -/
def Touched (net : Net) (r : Role) (b : Nat) : Prop := ∃ t ∈ net.transfers, t.dst = r ∧ t.block = b

/-- `data` is what the range holds while nothing has been transferred to its block. -/
def Original (net : Net) (r : Role) (b off len : Nat) (data : List UInt8) : Prop :=
  ¬ net.Touched r b → data = slice off len ((net.loc r).written b)

/-- The data of `t` is that of the range its request names on its own side. -/
def FromSource (net : Net) (t : Transfer) : Prop :=
  ∃ b off, (net.loc t.src).spot t.wr.mr t.wr.addr t.wr.len = some (b, off) ∧
    net.Original t.src b off t.wr.len t.data

/-- `x` is the range of host `r` that the request names by a remote key. -/
def Granted (net : Net) (r : Role) (access : Access) (wr : SendWr) (x : Nat × Nat) : Prop :=
  ∃ (j : Nat) (region : Region), (net.loc r).regions[j]? = some region ∧ region.access = access ∧
    region.rkey = wr.rkey ∧
    (net.loc r).place region wr.raddr.toNat wr.len = some x

structure SoundSend (net : Net) (t : Transfer) : Prop where
  dst : t.dst = t.src.peer
  data : net.FromSource t
  recv : ∃ recv, t.recv = some recv ∧ t.wr.len ≤ recv.len ∧
    (net.loc t.dst).spot recv.mr recv.addr recv.len = some (t.block, t.off)

structure SoundWrite (net : Net) (t : Transfer) : Prop where
  dst : t.dst = t.src.peer
  data : net.FromSource t
  target : net.Granted t.dst .write t.wr (t.block, t.off)

structure SoundRead (net : Net) (t : Transfer) : Prop where
  dst : t.dst = t.src
  data : ∃ x, net.Granted t.src.peer .read t.wr x ∧ net.Original t.src.peer x.1 x.2 t.wr.len t.data
  target : (net.loc t.src).spot t.wr.mr t.wr.addr t.wr.len = some (t.block, t.off)

structure Sound (net : Net) (t : Transfer) : Prop where
  length : t.data.length = t.wr.len
  verb : t.wr.verb ≠ .None
  send : t.wr.verb = .Send → net.SoundSend t
  write : t.wr.verb = .Write → net.SoundWrite t
  read : t.wr.verb = .Read → net.SoundRead t
  recv : t.recv.isSome ↔ t.wr.verb = .Send

/-- **What the connection guarantees.** -/
structure Rc (net : Net) : Prop where
  sound : ∀ t ∈ net.transfers, net.Sound t
  done_sq : ∀ r, (net.done r).map (·.wr) <+: (net.loc r).sq
  msgs_rq : ∀ r, (net.msgs r).map (·.recv) <+: (net.loc r.peer).rq.map some
  done_le : ∀ r, (net.done r).length ≤ (net.host r).sdone
  sdone_le : ∀ r, (net.host r).sdone ≤ (net.loc r).sq.length
  msgs_le : ∀ r, (net.msgs r).length ≤ (net.host r.peer).rdone
  rdone_le : ∀ r, (net.host r).rdone ≤ (net.loc r).rq.length
  rcq_len : ∀ r, (net.host r).rcq.length = (net.host r).rdone
  rcq_good : ∀ r i wc, (net.host r.peer).rcq[i]? = some wc → (wc.success ↔ i < (net.msgs r).length)
  spolled : ∀ r, (net.loc r).sWcs <+: (net.host r).scq
  rpolled : ∀ r, (net.loc r).rWcs <+: (net.host r).rcq
  standing : net.broken = false → ∀ r, (net.host r).sdone = (net.done r).length ∧
    (net.host r.peer).rdone = (net.msgs r).length ∧
    (net.host r).scq = ((net.done r).filter (·.wr.signaled)).map fun _ => .good

/-! ## Later states -/

/-- Histories have grown, and no program has written to its blocks. -/
structure Later (net net' : Net) : Prop where
  loc : ∀ r, (net.loc r).Extends (net'.loc r)
  stores : ∀ r, (net'.loc r).stores = (net.loc r).stores
  transfers : net.transfers <+: net'.transfers

namespace Later

variable {net net' : Net} (h : net.Later net')
include h

theorem touched {r : Role} {b : Nat} (ht : net.Touched r b) : net'.Touched r b := by
  obtain ⟨t, hmem, hd⟩ := ht
  exact ⟨t, h.transfers.subset hmem, hd⟩

theorem original {r : Role} {b off len : Nat} {data : List UInt8} {block : Block}
    (hb : (net.loc r).blocks[b]? = some block) (ho : net.Original r b off len data) :
    net'.Original r b off len data := by
  intro hn
  rw [(h.loc r).written hb (h.stores r)]
  exact ho fun ht => hn (h.touched ht)

theorem fromSource {t : Transfer} (hs : net.FromSource t) : net'.FromSource t := by
  obtain ⟨b, off, hspot, ho⟩ := hs
  obtain ⟨m, r, -, -, hplace⟩ := Local.spot_some hspot
  obtain ⟨block, -, hblock, -⟩ := Local.place_some hplace
  exact ⟨b, off, (h.loc _).spot hspot, h.original hblock ho⟩

theorem granted {r : Role} {access : Access} {wr : SendWr} {x : Nat × Nat}
    (hg : net.Granted r access wr x) :
    net'.Granted r access wr x := by
  obtain ⟨j, region, hr, ha, hk, hp⟩ := hg
  exact ⟨j, region, (h.loc r).region hr, ha, hk, (h.loc r).place hp⟩

theorem sound {t : Transfer} (hs : net.Sound t) : net'.Sound t where
  length := hs.length
  verb := hs.verb
  recv := hs.recv
  send hv := by
    obtain ⟨hd, hdata, recv, hr, hle, hspot⟩ := hs.send hv
    exact ⟨hd, h.fromSource hdata, recv, hr, hle, (h.loc _).spot hspot⟩
  write hv := by
    obtain ⟨hd, hdata, hg⟩ := hs.write hv
    exact ⟨hd, h.fromSource hdata, h.granted hg⟩
  read hv := by
    obtain ⟨hd, ⟨x, hg, ho⟩, hspot⟩ := hs.read hv
    have ⟨j, region, _, _, _, hplace⟩ := hg
    obtain ⟨block, -, hblock, -⟩ := Local.place_some hplace
    exact ⟨hd, ⟨x, h.granted hg, h.original hblock ho⟩, (h.loc _).spot hspot⟩

end Later

/-! ## Contents -/

theorem content_original {net : Net} {r : Role} {b : Nat} (h : ¬ net.Touched r b) :
    net.content r b = (net.loc r).written b := by
  have hnil : net.transfers.filter (fun t => decide (t.dst = r ∧ t.block = b)) = [] := by
    refine List.filter_eq_nil_iff.2 fun t ht hd => h ⟨t, ht, of_decide_eq_true hd⟩
  simp only [content, hnil, List.map_nil, patched]

/-- Where a transfer has written, inside the block. -/
theorem Sound.inside {net : Net} {t : Transfer} (hs : net.Sound t) :
    ∃ block, (net.loc t.dst).blocks[t.block]? = some block ∧
      t.off + t.data.length ≤ block.bytes.length := by
  rw [hs.length]
  cases hv : t.wr.verb with
  | None => exact absurd hv hs.verb
  | Send =>
    obtain ⟨-, -, recv, -, hle, hspot⟩ := hs.send hv
    obtain ⟨m, r, -, -, hplace⟩ := Local.spot_some hspot
    obtain ⟨block, -, hblock, -, hlen⟩ := Local.place_some hplace
    exact ⟨block, hblock, by simp only at hlen; omega⟩
  | Write =>
    obtain ⟨-, -, j, region, -, -, -, hplace⟩ := hs.write hv
    obtain ⟨block, -, hblock, -, hlen⟩ := Local.place_some hplace
    exact ⟨block, hblock, hlen⟩
  | Read =>
    obtain ⟨hd, -, hspot⟩ := hs.read hv
    obtain ⟨m, r, -, -, hplace⟩ := Local.spot_some hspot
    obtain ⟨block, -, hblock, -, hlen⟩ := Local.place_some hplace
    exact ⟨block, hd ▸ hblock, hlen⟩

theorem inside {net : Net} (hs : ∀ t ∈ net.transfers, net.Sound t) (r : Role) (b : Nat) :
    Inside ((net.transfers.filter fun t => t.dst = r ∧ t.block = b).map fun t => (t.off, t.data))
      ((net.loc r).written b).length := by
  intro p hp
  obtain ⟨t, ht, rfl⟩ := List.mem_map.1 hp
  obtain ⟨hmem, hd⟩ := List.mem_filter.1 ht
  obtain ⟨rfl, rfl⟩ := of_decide_eq_true hd
  obtain ⟨block, hblock, hlen⟩ := (hs t hmem).inside
  rw [Local.length_written, Local.bytesOf_eq hblock]
  exact hlen

theorem length_content {net : Net} (hs : ∀ t ∈ net.transfers, net.Sound t) (r : Role) (b : Nat) :
    (net.content r b).length = ((net.loc r).bytesOf b).length :=
  (length_patched (inside hs r b)).trans ((net.loc r).length_written b)

/-- **Read after write**: the range of a transfer holds its data if every other write to the block
was the same or went elsewhere. -/
theorem content_of_mem {net : Net} (hs : ∀ t ∈ net.transfers, net.Sound t) {t : Transfer}
    (ht : t ∈ net.transfers)
    (hd : ∀ u ∈ net.transfers, u.dst = t.dst → u.block = t.block →
      (u.off = t.off ∧ u.data = t.data) ∨ t.off + t.data.length ≤ u.off ∨
      u.off + u.data.length ≤ t.off) :
    slice t.off t.data.length (net.content t.dst t.block) = t.data := by
  refine slice_patched_of_mem (p := (t.off, t.data)) (inside hs _ _) ?_ ?_
  · exact List.mem_map.2 ⟨t, List.mem_filter.2 ⟨ht, decide_eq_true ⟨rfl, rfl⟩⟩, rfl⟩
  · intro q hq
    obtain ⟨u, hu, rfl⟩ := List.mem_map.1 hq
    obtain ⟨hmem, hdu⟩ := List.mem_filter.1 hu
    obtain ⟨h1, h2⟩ := of_decide_eq_true hdu
    rcases hd u hmem h1 h2 with ⟨h3, h4⟩ | h
    · exact .inl (Prod.ext h3 h4)
    · exact .inr h

/-! ## Every step keeps the guarantees -/

section steps
variable {net net' : Net}

@[simp] theorem called_transfers (net : Net) (r : Role) (op : VOp) (a : op.Ans) :
    (net.called r op a).transfers = net.transfers := rfl
@[simp] theorem called_broken (net : Net) (r : Role) (op : VOp) (a : op.Ans) :
    (net.called r op a).broken = net.broken := rfl
@[simp] theorem called_done (net : Net) (r q : Role) (op : VOp) (a : op.Ans) :
    (net.called r op a).done q = net.done q := rfl
@[simp] theorem called_msgs (net : Net) (r q : Role) (op : VOp) (a : op.Ans) :
    (net.called r op a).msgs q = net.msgs q := rfl

theorem called_loc (net : Net) (r q : Role) (op : VOp) (a : op.Ans) :
    (net.called r op a).loc q = if q = r then (net.loc r).upd op a else net.loc q := by
  simp only [called, loc, Function.update_apply]
  split <;> rfl

theorem called_host (net : Net) (r q : Role) (op : VOp) (a : op.Ans) :
    ((net.called r op a).host q).sdone = (net.host q).sdone ∧
      ((net.called r op a).host q).rdone = (net.host q).rdone ∧
    ((net.called r op a).host q).scq = (net.host q).scq ∧
      ((net.called r op a).host q).rcq = (net.host q).rcq := by
  simp only [called, Function.update_apply]
  split
  · rename_i h; subst h; exact ⟨rfl, rfl, rfl, rfl⟩
  · exact ⟨rfl, rfl, rfl, rfl⟩

theorem extends_called (net : Net) (r q : Role) (op : VOp) (a : op.Ans) :
    (net.loc q).Extends ((net.called r op a).loc q) := by
  rw [called_loc]
  split
  · rename_i h; subst h; exact Local.extends_upd _ _ _
  · exact .refl _

theorem later_called (net : Net) (r : Role) {op : VOp} (hop : ∀ p bytes, op ≠ .store p bytes)
    (a : op.Ans) : net.Later (net.called r op a) where
  loc q := net.extends_called r q op a
  stores q := by
    rw [called_loc]
    split
    · rename_i h; subst h; exact Local.stores_upd _ hop _
    · rfl
  transfers := List.prefix_rfl

/-- A program writes to its blocks before anything is carried out. -/
theorem answer_store {hint : Hint} {r : Role} {p : Ptr} {bytes : List UInt8} {a : Unit}
    (h : net.answer hint r (.store p bytes) = some a) :
    net.transfers = [] ∧ (net.loc r).Covers p bytes.length := by
  simp only [answer] at h
  split at h
  · rename_i hc
    exact ⟨List.isEmpty_iff.1 hc.1, hc.2⟩
  · cases h

/-- What a poll takes is what comes next. -/
theorem nextWcs_some {n : Nat} {cq polled : List Wc} {p : Poll} (h : nextWcs n cq polled = some p) :
    p.wcs.length ≤ n ∧ 0 < p.wcs.length ∧ p.wcs <+: cq.drop polled.length := by
  unfold nextWcs at h
  split at h
  · cases h
  · rename_i wc rest heq
    cases h
    have hpre : (wc :: rest) <+: cq.drop polled.length := heq ▸ List.take_prefix _ _
    have hlen : (wc :: rest).length ≤ n := by rw [← heq, List.length_take]; omega
    exact ⟨hlen, by simp [Poll.wcs], hpre⟩

theorem prefix_append_of_drop {polled wcs cq : List Wc} (h : polled <+: cq)
    (hw : wcs <+: cq.drop polled.length) :
    polled ++ wcs <+: cq := by
  obtain ⟨t, ht⟩ := h
  obtain ⟨u, hu⟩ := hw
  rw [← ht, List.drop_left] at hu
  exact ⟨u, by rw [List.append_assoc, hu, ht]⟩

/-- A process has polled a prefix of what its queues have generated, also after its next call. -/
theorem polled_answer {hint : Hint} {r : Role} {op : VOp} {a : op.Ans}
    (h : net.answer hint r op = some a) (hs : (net.loc r).sWcs <+: (net.host r).scq)
    (hr : (net.loc r).rWcs <+: (net.host r).rcq) :
    ((net.loc r).upd op a).sWcs <+: (net.host r).scq ∧
      ((net.loc r).upd op a).rWcs <+: (net.host r).rcq := by
  cases op with
  | pollSend num =>
    simp only [answer] at h
    split at h
    · cases h
      exact ⟨by simpa [Local.upd, Poll.wcs] using hs, hr⟩
    · exact ⟨prefix_append_of_drop hs (nextWcs_some h).2.2, hr⟩
  | pollRecv =>
    simp only [answer] at h
    split at h
    · cases h
      exact ⟨hs, by simpa [Local.upd, Poll.wcs] using hr⟩
    · exact ⟨hs, prefix_append_of_drop hr (nextWcs_some h).2.2⟩
  | malloc bytes => cases a <;> exact ⟨hs, hr⟩
  | mallocRandom size => cases a <;> exact ⟨hs, hr⟩
  | regMr access p len => cases a <;> exact ⟨hs, hr⟩
  | postSend wr => simp only [Local.upd]; split <;> exact ⟨hs, hr⟩
  | postRecv wr => simp only [Local.upd]; split <;> exact ⟨hs, hr⟩
  | _ => exact ⟨hs, hr⟩

theorem Rc.called (h : net.Rc) {hint : Hint} {r : Role} {op : VOp} {a : op.Ans}
    (ha : net.answer hint r op = some a) : (net.called r op a).Rc := by
  have hloc := fun q => net.extends_called r q op a
  have hhost := fun q => called_host net r q op a
  have hpolled := polled_answer ha (h.spolled r) (h.rpolled r)
  refine ⟨?_, ?_, ?_, ?_, ?_, ?_, ?_, ?_, ?_, ?_, ?_, ?_⟩
  · intro t ht
    by_cases hop : ∃ p bytes, op = .store p bytes
    · obtain ⟨p, bytes, rfl⟩ := hop
      rw [called_transfers, (answer_store ha).1] at ht
      cases ht
    · exact (later_called net r (fun p bytes he => hop ⟨p, bytes, he⟩) a).sound (h.sound t ht)
  · exact fun q => (h.done_sq q).trans (hloc q).sq
  · exact fun q => (h.msgs_rq q).trans ((hloc q.peer).rq.map some)
  · intro q; rw [(hhost q).1]; exact h.done_le q
  · intro q; rw [(hhost q).1]; exact (h.sdone_le q).trans (hloc q).sq.length_le
  · intro q; rw [(hhost _).2.1]; exact h.msgs_le q
  · intro q; rw [(hhost q).2.1]; exact (h.rdone_le q).trans (hloc q).rq.length_le
  · intro q; rw [(hhost q).2.1, (hhost q).2.2.2]; exact h.rcq_len q
  · intro q; rw [(hhost _).2.2.2]; exact h.rcq_good q
  · intro q
    rw [(hhost q).2.2.1, called_loc]
    split
    · rename_i e; subst e; exact hpolled.1
    · exact h.spolled q
  · intro q
    rw [(hhost q).2.2.2, called_loc]
    split
    · rename_i e; subst e; exact hpolled.2
    · exact h.rpolled q
  · intro hb q
    rw [(hhost q).1, (hhost _).2.1, (hhost q).2.2.1]
    exact h.standing hb q

/-- A range resolved on host `r` lies inside the block as it is now. -/
theorem slice_content_length (hs : ∀ t ∈ net.transfers, net.Sound t) {r : Role} {region : Region}
    {addr len : Nat} {x : Nat × Nat} (hx : (net.loc r).place region addr len = some x) :
    (slice x.2 len (net.content r x.1)).length = len := by
  obtain ⟨block, -, hblock, -, hlen⟩ := Local.place_some hx
  refine length_slice ?_
  rw [length_content hs, Local.bytesOf_eq hblock]
  exact hlen

theorem original_slice (net : Net) (r : Role) (b off len : Nat) :
    net.Original r b off len (slice off len (net.content r b)) :=
      fun h => by rw [content_original h]

theorem remote_granted {r : Role} {access : Access} {wr : SendWr} {x : Nat × Nat}
    (h : (net.loc r).remote access wr.rkey wr.raddr.toNat wr.len = some x) :
    net.Granted r access wr x := by
  obtain ⟨region, hg, hp⟩ := Option.bind_eq_some_iff.1 h
  obtain ⟨j, hr, -, ha, hk⟩ := Local.granted_some hg
  exact ⟨j, region, hr, ha, hk, hp⟩

/-- A request that is carried out, is carried out soundly; a message takes the next receive. -/
theorem effect_carry (hs : ∀ t ∈ net.transfers, net.Sound t) {s : Role} {wr : SendWr} {t : Transfer}
    (h : net.effect s wr = some (.carry t)) : net.Sound t ∧ t.src = s ∧ t.wr = wr ∧
      (wr.verb = .Send → t.recv = (net.loc s.peer).rq[(net.host s.peer).rdone]?) := by
  unfold effect at h
  split at h
  · cases h
  · cases h
  · -- a message
    rename_i x hv hx
    have hspot := Local.liveSpot_some hx
    obtain ⟨recv, hrecv, h⟩ := Option.map_eq_some_iff.1 h
    split at h
    · cases h
    · rename_i hle
      split at h
      · cases h
      · rename_i y hy
        cases h
        obtain ⟨m, region, -, -, hplace⟩ := Local.spot_some hspot
        refine ⟨⟨slice_content_length hs hplace,
          by simp [hv], fun _ => ⟨rfl, ?_, ?_⟩, fun hf => ?_, fun hf => ?_, ?_⟩,
          rfl, rfl, fun _ => hrecv.symm⟩
        · exact ⟨x.1, x.2, hspot, original_slice _ _ _ _ _⟩
        · exact ⟨recv, rfl, by simp only; omega, Local.liveSpot_some hy⟩
        · simp [hv] at hf
        · simp [hv] at hf
        · simp [hv]
  · -- a write
    rename_i x hv hx
    have hspot := Local.liveSpot_some hx
    split at h
    · cases h
    · rename_i y hy
      cases h
      obtain ⟨m, region, -, -, hplace⟩ := Local.spot_some hspot
      refine ⟨⟨slice_content_length hs hplace,
        by simp [hv], fun hf => ?_, fun _ => ⟨rfl, ?_, remote_granted hy⟩,
        fun hf => ?_, ?_⟩, rfl, rfl, fun hf => ?_⟩
      · simp [hv] at hf
      · exact ⟨x.1, x.2, hspot, original_slice _ _ _ _ _⟩
      · simp [hv] at hf
      · simp [hv]
      · simp [hv] at hf
  · -- a read
    rename_i x hv hx
    have hspot := Local.liveSpot_some hx
    split at h
    · cases h
    · rename_i y hy
      cases h
      have hg := remote_granted hy
      have ⟨j, region, _, _, _, hplace⟩ := hg
      refine ⟨⟨slice_content_length hs hplace, by simp [hv], fun hf => ?_, fun hf => ?_,
        fun _ => ⟨rfl, ⟨y, hg, original_slice _ _ _ _ _⟩, hspot⟩, ?_⟩, rfl, rfl, fun hf => ?_⟩
      · simp [hv] at hf
      · simp [hv] at hf
      · simp [hv]
      · simp [hv] at hf

/-- A queue's completions after the next receive: one more, as good as it is told. -/
theorem take_rcq_good {h : Host} {n m : Nat} {ok : Bool} (hlen : h.rcq.length = n)
    (hm : m = n + ok.toNat) (hgood : ∀ i wc, h.rcq[i]? = some wc → (wc.success ↔ i < n)) :
    ∀ i wc, (h.take ok).rcq[i]? = some wc → (wc.success ↔ i < m) := by
  intro i wc hi
  rcases getElem?_concat.1 hi with hi | ⟨rfl, rfl⟩
  · have hlt := (List.getElem?_eq_some_iff.1 hi).1
    rw [hgood i wc hi]
    omega
  · rw [completion_success]
    cases ok <;> simp at hm ⊢ <;> omega

theorem apply_loc (net : Net) (s : Role) (wr : SendWr) (lost : Bool) (e : Effect) (q : Role) :
    (net.apply s wr lost e).loc q = net.loc q := by
  cases e with
  | carry t =>
    rcases Role.eq_or_eq_peer s q with rfl | rfl
    · simp [apply, loc, Host.finish]
    · simp only [apply, loc, pair_peer]
      split <;> rfl
  | reject =>
    rcases Role.eq_or_eq_peer s q with rfl | rfl
    · simp [apply, loc, Host.finish]
    · simp only [apply, loc, pair_peer]
  | rejectBoth =>
    rcases Role.eq_or_eq_peer s q with rfl | rfl
    · simp [apply, loc, Host.finish]
    · simp only [apply, loc, pair_peer]; rfl

theorem later_apply (net : Net) (s : Role) (wr : SendWr) (lost : Bool) (e : Effect) :
    net.Later (net.apply s wr lost e) where
  loc q := by rw [apply_loc]; exact .refl _
  stores q := by rw [apply_loc]
  transfers := by
    cases e with
    | carry t => exact List.prefix_append _ _
    | reject => exact List.prefix_rfl
    | rejectBoth => exact List.prefix_rfl

section carry
variable (net : Net) (t : Transfer) (lost : Bool)

/-- The state after `t`. -/
abbrev after : Net := net.apply t.src t.wr lost (.carry t)

theorem after_done (q : Role) :
    (net.after t lost).done q = if q = t.src then net.done q ++ [t] else net.done q := by
  simp only [apply, done, List.filter_append, List.filter_cons, List.filter_nil]
  by_cases hq : q = t.src
  · simp [hq]
  · simp [hq, Ne.symm hq]

theorem after_msgs (q : Role) : (net.after t lost).msgs q =
    if q = t.src ∧ t.wr.verb = .Send then net.msgs q ++ [t] else net.msgs q := by
  simp only [apply, msgs, List.filter_append, List.filter_cons, List.filter_nil]
  by_cases hq : q = t.src
  · by_cases hv : t.wr.verb = .Send <;> simp [hq, hv]
  · simp [hq, Ne.symm hq]

theorem after_src : (net.after t lost).host t.src = (net.host t.src).finish t.wr !lost := by
  simp [apply]

theorem after_peer : (net.after t lost).host t.src.peer =
    if t.recv.isSome then (net.host t.src.peer).take true else net.host t.src.peer := by
      simp [apply]

end carry

theorem Rc.carry (h : net.Rc) {s : Role} {wr : SendWr} {lost : Bool} {t : Transfer}
    (hb : net.broken = false) (hwr : (net.loc s).sq[(net.host s).sdone]? = some wr)
    (he : net.effect s wr = some (.carry t)) :
    (net.apply s wr lost (.carry t)).Rc := by
  obtain ⟨hsound, rfl, rfl, hrecv⟩ := effect_carry h.sound he
  obtain ⟨hsdone, hrdone, hscq⟩ := h.standing hb t.src
  obtain ⟨hsdone', hrdone', hscq'⟩ := h.standing hb t.src.peer
  rw [Role.peer_peer] at hrdone'
  have hlater := later_apply net t.src t.wr lost (.carry t)
  have hsrc := after_src net t lost
  have hpeer := after_peer net t lost
  have hdone := after_done net t lost
  have hmsgs := after_msgs net t lost
  have hloc := apply_loc net t.src t.wr lost (.carry t)
  have hslt := (List.getElem?_eq_some_iff.1 hwr).1
  have hne : t.src.peer ≠ t.src := Role.peer_ne _
  -- the receive a message takes is the one its number names
  have hnext : t.wr.verb = .Send →
      ((net.loc t.src.peer).rq.map some)[((net.msgs t.src).map (·.recv)).length]? =
        some t.recv := by
    intro hv
    obtain ⟨recv, hr, -⟩ := (hsound.send hv).recv
    rw [hrecv hv] at hr
    rw [List.length_map, ← hrdone, List.getElem?_map, hr, hrecv hv, hr]
    rfl
  have hmsglt : t.wr.verb = .Send →
    (net.host t.src.peer).rdone < (net.loc t.src.peer).rq.length := by
    intro hv
    obtain ⟨recv, hr, -⟩ := (hsound.send hv).recv
    rw [hrecv hv] at hr
    exact (List.getElem?_eq_some_iff.1 hr).1
  constructor
  case sound =>
    intro u hu
    rcases List.mem_append.1 hu with hu | hu
    · exact hlater.sound (h.sound u hu)
    · obtain rfl := List.mem_singleton.1 hu
      exact hlater.sound hsound
  case done_sq =>
    intro r
    rw [hloc, hdone]
    split
    · rename_i e; subst e
      rw [List.map_append]
      exact prefix_concat (h.done_sq _) (by rwa [List.length_map, ← hsdone])
    · exact h.done_sq r
  case msgs_rq =>
    intro r
    rw [hloc, hmsgs]
    split
    · rename_i e; obtain ⟨rfl, hv⟩ := e
      rw [List.map_append]
      exact prefix_concat (h.msgs_rq _) (hnext hv)
    · exact h.msgs_rq r
  case done_le =>
    intro r
    rw [hdone]
    rcases Role.eq_or_eq_peer t.src r with rfl | rfl
    · rw [hsrc, if_pos rfl]
      simp [Host.finish, hsdone]
    · rw [hpeer, if_neg hne]
      split <;> exact h.done_le _
  case sdone_le =>
    intro r
    rw [hloc]
    rcases Role.eq_or_eq_peer t.src r with rfl | rfl
    · rw [hsrc]; exact hslt
    · rw [hpeer]
      split <;> exact h.sdone_le _
  case msgs_le =>
    intro r
    rw [hmsgs]
    rcases Role.eq_or_eq_peer t.src r with rfl | rfl
    · rw [hpeer]
      by_cases hv : t.wr.verb = .Send
      · rw [if_pos ⟨rfl, hv⟩, if_pos (hsound.recv.2 hv)]
        simp [Host.take, hrdone]
      · rw [if_neg (fun e => hv e.2), if_neg (fun e => hv (hsound.recv.1 e))]
        exact h.msgs_le _
    · rw [if_neg (fun e => hne e.1), Role.peer_peer, hsrc]
      have := h.msgs_le t.src.peer
      rwa [Role.peer_peer] at this
  case rdone_le =>
    intro r
    rw [hloc]
    rcases Role.eq_or_eq_peer t.src r with rfl | rfl
    · rw [hsrc]; exact h.rdone_le _
    · rw [hpeer]
      split
      · rename_i hv; exact hmsglt (hsound.recv.1 hv)
      · exact h.rdone_le _
  case rcq_len =>
    intro r
    rcases Role.eq_or_eq_peer t.src r with rfl | rfl
    · rw [hsrc]; exact h.rcq_len _
    · rw [hpeer]
      split
      · simp [Host.take, h.rcq_len]
      · exact h.rcq_len _
  case rcq_good =>
    intro r
    rw [hmsgs]
    rcases Role.eq_or_eq_peer t.src r with rfl | rfl
    · rw [hpeer]
      by_cases hv : t.wr.verb = .Send
      · rw [if_pos (hsound.recv.2 hv), if_pos ⟨rfl, hv⟩]
        refine take_rcq_good ?_ ?_ (h.rcq_good _)
        · rw [h.rcq_len, hrdone]
        · simp
      · rw [if_neg (fun e => hv (hsound.recv.1 e)), if_neg (fun e => hv e.2)]
        exact h.rcq_good _
    · rw [if_neg (fun e => hne e.1), Role.peer_peer, hsrc]
      have := h.rcq_good t.src.peer
      rwa [Role.peer_peer] at this
  case spolled =>
    intro r
    rw [hloc]
    rcases Role.eq_or_eq_peer t.src r with rfl | rfl
    · rw [hsrc]
      simp only [Host.finish]
      split
      · exact (h.spolled _).trans (List.prefix_append _ _)
      · exact h.spolled _
    · rw [hpeer]
      split <;> exact h.spolled _
  case rpolled =>
    intro r
    rw [hloc]
    rcases Role.eq_or_eq_peer t.src r with rfl | rfl
    · rw [hsrc]; exact h.rpolled _
    · rw [hpeer]
      split
      · exact (h.rpolled _).trans (List.prefix_append _ _)
      · exact h.rpolled _
  case standing =>
    intro hlost r
    have hlost : lost = false := hlost
    subst hlost
    rw [hdone, hmsgs]
    rcases Role.eq_or_eq_peer t.src r with rfl | rfl
    · rw [hsrc, hpeer, if_pos rfl]
      refine ⟨by simp [Host.finish, hsdone], ?_, ?_⟩
      · by_cases hv : t.wr.verb = .Send
        · rw [if_pos (hsound.recv.2 hv), if_pos ⟨rfl, hv⟩]
          simp [Host.take, hrdone]
        · rw [if_neg (fun e => hv (hsound.recv.1 e)), if_neg (fun e => hv e.2)]
          exact hrdone
      · by_cases hsig : t.wr.signaled = true
        · simp [Host.finish, hsig, hscq, completion]
        · simp [Host.finish, hsig, hscq]
    · rw [if_neg hne, if_neg (fun e => hne e.1), Role.peer_peer, hsrc, hpeer]
      split <;> exact ⟨hsdone', hrdone', hscq'⟩

/-- One end after an error: more has completed, and none of it well. -/
structure Degraded (h h' : Host) : Prop where
  loc : h'.loc = h.loc
  sdone : h.sdone ≤ h'.sdone
  sdone_le : h.sdone ≤ h.loc.sq.length → h'.sdone ≤ h.loc.sq.length
  rdone : h.rdone ≤ h'.rdone
  rdone_le : h.rdone ≤ h.loc.rq.length → h'.rdone ≤ h.loc.rq.length
  scq : h.scq <+: h'.scq
  rcq : h.rcq <+: h'.rcq
  rcq_len : h.rcq.length = h.rdone → h'.rcq.length = h'.rdone
  rcq_bad : ∀ i wc, h.rcq.length ≤ i → h'.rcq[i]? = some wc → ¬ wc.success

theorem Degraded.refl (h : Host) : Degraded h h where
  loc := rfl
  sdone := Nat.le_refl _
  sdone_le := id
  rdone := Nat.le_refl _
  rdone_le := id
  scq := List.prefix_rfl
  rcq := List.prefix_rfl
  rcq_len := id
  rcq_bad i wc hi hwc := by rw [List.getElem?_eq_none hi] at hwc; cases hwc

theorem Degraded.finish {h : Host} {wr : SendWr} (hwr : h.loc.sq[h.sdone]? = some wr) :
    Degraded h (h.finish wr false) :=
  { Degraded.refl h with
    sdone := Nat.le_succ _
    sdone_le := fun _ => (List.getElem?_eq_some_iff.1 hwr).1
    scq := by
      simp only [Host.finish]
      split
      · exact List.prefix_append _ _
      · exact List.prefix_rfl }

theorem Degraded.take {h : Host} {recv : RecvWr} (hrecv : h.loc.rq[h.rdone]? = some recv) :
    Degraded h (h.take false) :=
  { Degraded.refl h with
    rdone := Nat.le_succ _
    rdone_le := fun _ => (List.getElem?_eq_some_iff.1 hrecv).1
    rcq := List.prefix_append _ _
    rcq_len := fun hlen => by simp [Host.take, hlen]
    rcq_bad := fun i wc hi hwc => by
      obtain ⟨hlt, rfl⟩ := List.getElem?_eq_some_iff.1 hwc
      obtain rfl : i = h.rcq.length := by
        simp only [Host.take, List.length_append, List.length_singleton] at hlt
        omega
      simp [Host.take] }

/-- Errors leave the guarantees of a broken connection. -/
theorem Rc.degraded (h : net.Rc) {host' : Role → Host} (hd : ∀ r, Degraded (net.host r) (host' r)) :
    ({ net with host := host', broken := true } : Net).Rc := by
  have hloc : ∀ r, (host' r).loc = net.loc r := fun r => (hd r).loc
  have hlater : net.Later { net with host := host', broken := true } :=
    ⟨fun r => by show Local.Extends _ (host' r).loc; rw [hloc]; exact .refl _,
      fun r => by show (host' r).loc.stores = _; rw [hloc], List.prefix_rfl⟩
  constructor
  case sound => exact fun t ht => hlater.sound (h.sound t ht)
  case done_sq => exact fun r => (h.done_sq r).trans (hlater.loc r).sq
  case msgs_rq => exact fun r => (h.msgs_rq r).trans ((hlater.loc r.peer).rq.map some)
  case done_le => exact fun r => (h.done_le r).trans (hd r).sdone
  case sdone_le =>
    intro r
    show (host' r).sdone ≤ (host' r).loc.sq.length
    rw [hloc]
    exact (hd r).sdone_le (h.sdone_le r)
  case msgs_le => exact fun r => (h.msgs_le r).trans (hd r.peer).rdone
  case rdone_le =>
    intro r
    show (host' r).rdone ≤ (host' r).loc.rq.length
    rw [hloc]
    exact (hd r).rdone_le (h.rdone_le r)
  case rcq_len => exact fun r => (hd r).rcq_len (h.rcq_len r)
  case rcq_good =>
    intro r i wc hwc
    by_cases hi : i < (net.host r.peer).rcq.length
    · obtain ⟨u, hu⟩ := (hd r.peer).rcq
      refine h.rcq_good r i wc ?_
      have hwc : (host' r.peer).rcq[i]? = some wc := hwc
      rwa [← hu, List.getElem?_append_left hi] at hwc
    · have hle := h.msgs_le r
      have hlen := h.rcq_len r.peer
      have hbad := (hd r.peer).rcq_bad i wc (by omega) hwc
      exact ⟨fun hs => absurd hs hbad, fun hlt => by simp only [msgs] at hlt hle; omega⟩
  case spolled =>
    intro r
    show (host' r).loc.sWcs <+: (host' r).scq
    rw [hloc]
    exact (h.spolled r).trans (hd r).scq
  case rpolled =>
    intro r
    show (host' r).loc.rWcs <+: (host' r).rcq
    rw [hloc]
    exact (h.rpolled r).trans (hd r).rcq
  case standing => exact fun hf => absurd hf (by simp)

theorem degraded_pair {s : Role} {h' p' : Host} (hs : Degraded (net.host s) h')
    (hp : Degraded (net.host s.peer) p') (r : Role) : Degraded (net.host r) (pair s h' p' r) := by
  rcases Role.eq_or_eq_peer s r with rfl | rfl
  · rw [pair_self]; exact hs
  · rw [pair_peer]; exact hp

/-- The receive is there when it is consumed with an error. -/
theorem effect_rejectBoth {s : Role} {wr : SendWr} (h : net.effect s wr = some .rejectBoth) :
    ∃ recv, (net.loc s.peer).rq[(net.host s.peer).rdone]? = some recv := by
  unfold effect at h
  split at h
  · cases h
  · cases h
  · obtain ⟨recv, hrecv, -⟩ := Option.map_eq_some_iff.1 h
    exact ⟨recv, hrecv⟩
  · split at h <;> cases h
  · split at h <;> cases h

theorem Rc.tick (h : net.Rc) {t : Tick} (ht : Net.tick t net = some net') : net'.Rc := by
  cases tick_cases ht with
  | @exec s lost wr e hb hwr he =>
    cases e with
    | carry t => exact h.carry hb hwr he
    | reject => exact h.degraded (degraded_pair (.finish hwr) (.refl _))
    | rejectBoth =>
      obtain ⟨recv, hrecv⟩ := effect_rejectBoth he
      exact h.degraded (degraded_pair (.finish hwr) (.take hrecv))
  | flushSend hb hwr =>
    have := h.degraded (degraded_pair (.finish hwr) (.refl _))
    rwa [← hb] at this
  | flushRecv hb hrecv =>
    have := h.degraded (degraded_pair (.take hrecv) (.refl _))
    rwa [← hb] at this
  | fault => exact h.degraded fun r => .refl _

/-- Before the first call. -/
theorem rc_start : ({} : Net).Rc := by
  constructor <;> simp [done, msgs]

end steps

end Net

end RdmaOpera
