import RdmaOpera.ExecCalls

/-!
# How the two processes of `rdma_exec` end

The end message, the digest and `deallocate_buffer`: each process returns 1, has hashed once, and
has nothing queued (`fit_run`).
-/

namespace RdmaOpera

open Lib Prog

namespace RdmaExec

section ending
variable {o : ByteOrder} {params : DccsParameters} {r : Role} {D : Nat → List UInt8 → Prop}
  {l : Local} {requests : List DccsRequest}

/-! ## The end message -/

/-- A region for a message is not one that has been given back. -/
theorem Poised.fresh (h : Poised params r l) {mr : Mr} (hmr : mr.handle = l.regions.length) :
    mr.handle ∉ l.dereged := by
  intro hmem
  have := (h.dereged _ hmem).2
  omega

/-- A variable is no part of it. -/
theorem Poised.stackVar (h : Poised params r l) (block : Block) :
    Poised params r { l with blocks := l.blocks ++ [block] } :=
  ⟨h.dereged, h.exchanged, h.sends, h.recvs, h.signaled⟩

/-- Nor is a region that is given back. -/
theorem Finished.deregMr (h : Finished params r l) (mr : Mr) :
    Finished params r { l with dereged := l.dereged ++ [mr.handle] } :=
  ⟨⟨h.drained.sends, h.drained.last, h.drained.recvs⟩, h.exchanged, h.client, h.server⟩

/-- The last message of a client. -/
theorem fit_sendMessage {p : Ptr} {len : Nat} (hposted : l.sq.length = total params)
    (hp : Poised params .client l) :
    Safe (tracking .steady D) (Fit params .client) (sendMessage p len) l fun rv l' =>
      rv = 1 ∧ Finished params .client l' := by
  refine safe_bind.2 (fit_regMsgs fun mr hmr => ?_)
  refine Safe.bind (fit_sendStep (Q := fun r l' => r.1 = 1 ∧ Finished params .client l')
    (hp.fresh hmr) (fun _ hne => (hp.exchanged hne).1 rfl) hp.sends fun wc => ⟨rfl, ?_⟩) ?_
  · refine ⟨⟨?_, ?_, hp.recvs⟩, fun hne => ⟨(hp.exchanged hne).1, fun hs => absurd hs (by decide)⟩, fun _ => ?_,
      fun hs => absurd hs (by decide)⟩
    · simp [Local.signaled, hp.sends]
    · intro wr hwr
      simp at hwr
      rw [← hwr]
    · simp [hposted]
  · rintro rv l' ⟨hrv, hf⟩
    exact ⟨⟨trivial, hf.drained, fun hs => absurd hs (by decide)⟩, fun _ _ => ⟨hrv, hf.deregMr mr⟩⟩

/-- The last message for a server. -/
theorem fit_recvMessage {p : Ptr} {len : Nat} (hposted : l.rq.length = dataMessages params)
    (hp : Poised params .server l) :
    Safe (tracking .steady D) (Fit params .server) (recvMessage p len) l fun rv l' =>
      rv = 1 ∧ Finished params .server l' := by
  refine safe_bind.2 (fit_regMsgs fun mr hmr => ?_)
  refine Safe.bind (fit_recvStep (Q := fun r l' => r.1 = 1 ∧ Finished params .server l')
    (hp.fresh hmr) (fun _ hne => (hp.exchanged hne).2 rfl) hp.recvs fun wc => ⟨rfl, ?_⟩) ?_
  · refine ⟨⟨hp.sends, fun wr hwr => hp.signaled rfl wr (List.mem_of_getElem? hwr), ?_⟩,
      fun hne => ⟨fun hc => absurd hc (by decide), (hp.exchanged hne).2⟩, fun hc => absurd hc (by decide), fun _ => ?_⟩
    · simp [hp.recvs]
    · simp [hposted]
  · rintro rv l' ⟨hrv, hf⟩
    refine ⟨⟨trivial, hf.drained, fun _ _ => ?_⟩, fun _ _ => ⟨hrv, hf.deregMr mr⟩⟩
    rw [ServerThrough, hf.drained.recvs, hf.server rfl]
    exact Nat.lt_succ_self _

/-- The end message lies on the stack. -/
theorem fit_message {bytes : List UInt8} {message : Ptr → VProg Int} {text : String}
    (hsize : bytes.length < 2 ^ 64)
    (hmessage : ∀ p : Ptr, Safe (tracking .steady D) (Fit params r) (message p)
      { l with blocks := l.blocks ++ [⟨p.addr, bytes⟩] } fun rv l' => rv = 1 ∧ Finished params r l') :
    Safe (tracking .steady D) (Fit params r) (do
      let buf ← Call.stackVar bytes
      let rv ← message buf
      if rv < 0 then do
        Call.logError text
        Call.leave buf
        pure rv
      else do
        Call.leave buf
        pure rv) l fun rv l' => rv = 1 ∧ Finished params r l' := by
  refine Steady.message lenient_fit ⟨hsize, trivial⟩ fun buf _ => (hmessage buf).mono ?_
  rintro rv l' ⟨rfl, hf⟩
  exact ⟨by decide, rfl, hf⟩

theorem fit_endMessage_client (hrole : roleOf params = .client)
    (hl : Posting o params (total params) requests l) (hp : Poised params .client l) :
    Safe (tracking .steady D) (Fit params .client) (endMessage params) l fun rv l' =>
      rv = 1 ∧ Slots params l' requests ∧ Finished params .client l' := by
  have hplanned := planned_endMessage_client (R := .successful) (D := D) hrole trivial id requests l hl
  have hfit : Safe (tracking .steady D) (Fit params .client) (endMessage params) l fun rv l' =>
      rv = 1 ∧ Finished params .client l' := by
    unfold endMessage
    rw [hrole]
    exact fit_message (by decide) fun p => fit_sendMessage hl.posted (hp.stackVar _)
  refine (fit_along hplanned hfit).mono ?_
  rintro rv l' ⟨hsent, rfl, hf⟩
  have hsent := hsent (by decide)
  exact ⟨rfl, ⟨hsent.length, fun i hi => (hsent.requests i hi).slot⟩, hf⟩

theorem fit_endMessage_server (hrole : roleOf params = .server)
    (hl : Receiving params (dataMessages params) requests l) (hp : Poised params .server l) :
    Safe (tracking .steady D) (Fit params .server) (endMessage params) l fun rv l' =>
      rv = 1 ∧ Slots params l' requests ∧ Finished params .server l' := by
  have hplanned := planned_endMessage_server (o := .little) (R := .successful) (D := D) hrole trivial id
    requests l hl
  have hfit : Safe (tracking .steady D) (Fit params .server) (endMessage params) l fun rv l' =>
      rv = 1 ∧ Finished params .server l' := by
    unfold endMessage
    rw [hrole]
    exact fit_message (by decide) fun p => fit_recvMessage hl.posted (hp.stackVar _)
  refine (fit_along hplanned hfit).mono ?_
  rintro rv l' ⟨hclosed, rfl, hf⟩
  exact ⟨rfl, (hclosed (by decide)).slots, hf⟩

/-! ## The digest -/

theorem fit_printSha1sum (h : Accepted params) (hsize : countPerMr params * params.length < 2 ^ 64)
    (hslots : Slots params l requests) :
    Safe (tracking .steady D) (Fit params r) (printSha1sum requests params.count) l fun _ l' =>
      ∃ chunks, chunks.length = params.count ∧
        l' = { l with loads := l.loads ++ chunks, digests := l.digests ++ [chunks] } := by
  have hlength : (reqAt requests 0).length = params.length := (hslots.slot 0 h.checked.1).length
  refine Steady.printSha1sum h.checked.1 (fun chunks hn => ?_) fun _ => ⟨trivial, trivial⟩
  have he : l.Extends { l with loads := l.loads ++ chunks } :=
    { Local.Extends.refl l with loads := List.prefix_append _ _ }
  obtain ⟨-, -, bufBase, hg, hbuf⟩ := (hslots.slot _ hn).extends he
  rw [hlength, hbuf]
  refine ⟨Steady.served_load hg ?_, trivial⟩
  rw [show bufferLength params = countPerMr params * params.length from sizeT_of_lt hsize]
  exact Slot.offset_le params _ h.countPerMr_pos

/-! ## `run` -/

/-- The regions of the requests are given back behind the end message. -/
theorem fit_deallocateBuffer (h : Accepted params) (hslots : Slots params l requests)
    (hf : Finished params r l) :
    Safe (tracking .steady D) (Fit params r) (deallocateBuffer requests params) l fun _ l' =>
      ∃ handles, l' = { l with dereged := l.dereged ++ handles } := by
  have hmr : ∀ i < params.count, (reqAt requests i).mr.isSome := by
    intro i hi
    obtain ⟨mr, hmr, -⟩ := slot_handle_lt h hi (hslots.slot i hi)
    rw [hmr]
    rfl
  refine Steady.deallocateBuffer lenient_fit h hmr fun i hi mr _ handles => ?_
  refine ⟨trivial, ⟨hf.drained.sends, hf.drained.last, hf.drained.recvs⟩, fun hs _ => ?_⟩
  show dataMessages params < l.rWcs.length
  rw [hf.drained.recvs, hf.server hs]
  exact Nat.lt_succ_self _

/-- What a process has done when it returns. -/
structure Returned (params : DccsParameters) (r : Role) (rv : Int) (l : Local) : Prop where
  value : rv = 1
  finished : Finished params r l
  digests : ∃ chunks, l.digests = [chunks]

/-- `run`: `X` and `Y` hold behind the exchange and the rounds. -/
theorem fit_steps (h : Accepted params) (hcount : params.count * requestSize < 2 ^ 64)
    (hkeys : params.mrCount ≤ 2 ^ 32) (hsize : countPerMr params * params.length < 2 ^ 64)
    {X Y : List DccsRequest → Local → Prop}
    (hexchange : ∀ requests l, Allocated params requests l → l.regions.length = params.mrCount →
      Safe (tracking .steady D) (Fit params r) (exchangeMrInfo o requests params) l fun res l' =>
        0 ≤ res.1 ∧ X res.2 l')
    (hrounds : ∀ requests l, X requests l →
      Safe (tracking .steady D) (Fit params r) (rounds requests params) l Y)
    (hend : ∀ requests l, Y requests l →
      Safe (tracking .steady D) (Fit params r) (endMessage params) l fun rv l' =>
        rv = 1 ∧ Slots params l' requests ∧ Finished params r l') :
    Safe (tracking .steady D) (Fit params r) (run o params) {} fun rv l => Returned params r rv l := by
  have huntil : Safe (tracking .steady D) (Fit params r) (untilEnd o params) {} fun exit l =>
      ∃ requests, exit = .ended requests 1 ∧ Slots params l requests ∧ Finished params r l := by
    refine Safe.bind (Steady.connect lenient_fit params) ?_
    rintro _ _ ⟨rfl, rfl⟩
    refine safe_ite.2 ⟨fun hne => absurd rfl hne, fun _ => safe_ite.2 ⟨fun hne => ?_, fun _ => ?_⟩⟩
    · exact absurd (sizeT_of_lt hcount) hne
    refine Safe.bind (fit_allocateBuffer h List.length_replicate hkeys) ?_
    rintro ⟨rv, requests⟩ l ⟨hrv, hl, hregions⟩
    refine safe_ite.2 ⟨fun hne => absurd hrv hne, fun _ => ?_⟩
    refine Safe.bind (hexchange requests l hl hregions) ?_
    rintro ⟨rv, requests⟩ l ⟨h0, hX⟩
    refine safe_ite.2 ⟨fun hneg => absurd h0 (Int.not_le.2 hneg), fun _ => ?_⟩
    refine Safe.bind (hrounds requests l hX) fun requests l hY => ?_
    refine Safe.bind (hend requests l hY) ?_
    rintro rv l ⟨rfl, hslots, hf⟩
    exact safe_ite.2 ⟨fun hneg => absurd hneg (by decide), fun _ => ⟨requests, rfl, hslots, hf⟩⟩
  have hcalls : Calls Undigested (untilEnd o params) :=
    calls_untilEnd ⟨fun _ => trivial, fun _ => trivial, fun _ => trivial⟩
      ⟨fun _ => trivial, fun _ => trivial, fun _ => trivial, fun _ _ _ => trivial, fun _ => trivial⟩
      ⟨fun _ => trivial, fun _ => trivial, trivial, fun _ => trivial⟩
      ⟨fun _ => trivial, trivial, fun _ => trivial⟩
      ⟨fun _ => trivial, fun _ => trivial, fun _ => trivial⟩ (fun _ _ => trivial)
      (fun _ _ => trivial) o params
  have hfirst := hcalls.safe (I := fun l : Local => l.digests = []) huntil rfl (fun _ _ _ _ hok => hok)
    fun l op a hop hI _ => (l.digests_upd hop a).trans hI
  refine Safe.bind hfirst ?_
  rintro _ l ⟨⟨requests, rfl, hslots, hf⟩, hdigests⟩
  -- the digest, and what is given back
  refine Safe.bind (fit_printSha1sum h hsize hslots) ?_
  rintro _ _ ⟨chunks, -, rfl⟩
  have hf' : Finished params r
      { l with loads := l.loads ++ chunks, digests := l.digests ++ [chunks] } :=
    ⟨⟨hf.drained.sends, hf.drained.last, hf.drained.recvs⟩, hf.exchanged, hf.client, hf.server⟩
  refine Safe.bind (fit_deallocateBuffer h (hslots.extends
    { Local.Extends.refl l with loads := List.prefix_append _ _ }) hf') ?_
  rintro _ _ ⟨handles, rfl⟩
  refine (Steady.outDisconnect lenient_fit params _).mono ?_
  rintro _ _ ⟨rfl, rfl⟩
  refine ⟨rfl, ⟨⟨hf.drained.sends, hf.drained.last, hf.drained.recvs⟩, hf.exchanged, hf.client,
    hf.server⟩, chunks, ?_⟩
  show l.digests ++ [chunks] = [chunks]
  rw [hdigests, List.nil_append]

/-- Each process gets through, and returns 1. -/
theorem fit_run (h : Accepted params) (hcount : params.count * requestSize < 2 ^ 64)
    (hkeys : params.mrCount ≤ 2 ^ 32) (hsize : countPerMr params * params.length < 2 ^ 64)
    (hread : roleOf params = .client → ∀ data, D 0 data → o.nat data = params.count) :
    Safe (tracking .steady D) (Fit params (roleOf params)) (run o params) {} fun rv l =>
      Returned params (roleOf params) rv l := by
  have hinfos : params.count * mrInfoSize < 2 ^ 64 :=
    Nat.lt_of_le_of_lt (Nat.mul_le_mul_left _ mrInfoSize_le) hcount
  cases hrole : roleOf params with
  | client =>
    exact fit_steps h hcount hkeys hsize
      (X := fun requests l => Posting o params 0 requests l ∧ Poised params .client l)
      (Y := fun requests l => Posting o params (total params) requests l ∧ Poised params .client l)
      (fun _ _ hl hregions => fit_exchange_client h hrole hinfos (hread hrole) hl hregions)
      (fun _ _ hX => fit_rounds_client h hrole hX.1 hX.2)
      fun _ _ hY => fit_endMessage_client hrole hY.1 hY.2
  | server =>
    exact fit_steps h hcount hkeys hsize
      (X := fun requests l => Receiving params 0 requests l ∧ Poised params .server l)
      (Y := fun requests l => Receiving params (dataMessages params) requests l ∧ Poised params .server l)
      (fun _ _ hl hregions => fit_exchange_server h hrole hinfos hl hregions)
      (fun _ _ hX => fit_rounds_server h hrole hX.1 hX.2)
      fun _ _ hY => fit_endMessage_server hrole hY.1 hY.2

end ending

end RdmaExec

end RdmaOpera
