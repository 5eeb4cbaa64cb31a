import RdmaOpera.DataAgreement
import RdmaOpera.SendOrder

/-!
# What a printed digest is worth

The connection may break at any moment, and completions may report errors; only the calls of the two
processes succeed. Each process hashes its requests behind a good completion of the end message
(`vouchPlan`). As a break is final, all data requests have been carried out by then: whatever is
hashed, on either host, is what the host the data comes from had filled its requests with.
-/

namespace RdmaOpera

open Lib Prog

namespace RdmaExec

section walk
variable {o : ByteOrder} {params : DccsParameters} {D : Nat → List UInt8 → Prop}

/-! ## Behind the end message -/

/-- The completions a process waits for to the end: of what it sends, or of what it receives. -/
def polled (r : Role) (l : Local) : List Wc := match r with
  | .client => l.sWcs
  | .server => l.rWcs

/-- The last one is good. -/
def Vouched (r : Role) (l : Local) : Prop := ∃ wc, (polled r l).getLast? = some wc ∧ wc.success

/-- Nothing is read but in the exchange, and behind a good completion. -/
def vouchPlan (params : DccsParameters) (r : Role) : Plan where
  send _ _ _ := True
  recv _ _ _ := True
  region _ _ := True
  store _ _ _ := True
  load l p len :=
    (r = .client ∧ params.verb ≠ .Send ∧ ∃ k < 2, l.loads.length = k ∧ Arrived l k p len) ∨
      Vouched r l
  send_extends _ _ := trivial
  recv_extends _ _ := trivial
  msgs _ := trivial

/-- Calls that such a plan does not restrict. -/
def Unvouched : VOp → Prop
  | .regMr .. | .load .. => False
  | _ => True

theorem vouch_unrestricted {r : Role} {α : Type} {p : VProg α} (h : Calls Unvouched p) {l : Local} :
    Safe (tracking .unfailing D) ((vouchPlan params r).ok .unfailing) p l fun _ _ => True := by
  refine h.keeps (I := fun _ => True) id trivial ?_ fun _ _ _ _ _ _ => trivial
  intro l op hop _
  refine ⟨?_, False.elim⟩
  cases op <;> trivial

theorem vouch_exchange (hrole : roleOf params = r) (requests : List DccsRequest) (l : Local)
    (hl : Allocated params requests l) :
    Safe (tracking .unfailing D) ((vouchPlan params r).ok .unfailing)
      (exchangeMrInfo o requests params) l fun _ _ => True := by
  have hrest := hl.rest
  have hrq : l.rq = [] := by rw [hrest]
  have hloads : l.loads = [] := by rw [hrest]
  refine safe_ite.2 ⟨fun hverb => ?_, fun _ => trivial⟩
  have hverb : params.verb ≠ .Send := by rcases hverb with hv | hv <;> rw [hv] <;> decide
  rw [hrole]
  cases r with
  | client =>
    refine Safe.bind (Tracking.getRemoteMrInfo (by rw [hrest]; rfl) False.elim
      (fun _ _ _ _ _ _ _ => trivial) ?_ False.elim) fun res l' _ => ?_
    · intro l' p len k hk he hlength ha
      rw [hloads, List.length_nil, Nat.zero_add] at hlength
      rw [hrq, List.length_nil, Nat.zero_add] at ha
      exact .inl ⟨rfl, hverb, k, hk, hlength, ha⟩
    · exact safe_ite.2 ⟨fun _ => Tracking.quiet.logError_bind trivial, fun _ => trivial⟩
  | server =>
    refine Safe.bind (Tracking.sendLocalMrInfo False.elim
      (fun _ _ _ _ _ _ _ _ _ _ _ _ _ => trivial) False.elim False.elim) fun rv l' _ => ?_
    exact safe_ite.2 ⟨fun _ => Tracking.quiet.logError_bind trivial, fun _ => trivial⟩

theorem vouch_rounds {r : Role} (requests : List DccsRequest) (l : Local) :
    Safe (tracking .unfailing D) ((vouchPlan params r).ok .unfailing) (rounds requests params) l
      fun _ _ => True :=
  vouch_unrestricted (calls_rounds
    ⟨fun _ => trivial, fun _ => trivial, trivial, fun _ => trivial⟩
    ⟨fun _ => trivial, trivial, fun _ => trivial⟩ (fun _ _ => trivial) requests params)

/-- If the closing message did not fail, its completion was good. -/
theorem vouch_endMessage (hrole : roleOf params = r) (l : Local) :
    Safe (tracking .unfailing D) ((vouchPlan params r).ok .unfailing) (endMessage params) l
      fun rv l' => 0 ≤ rv → Vouched r l' := by
  have hleave : ∀ {text : String} {buf : Ptr} {rv : Int} {l' : Local}, (0 ≤ rv → Vouched r l') →
      Safe (tracking .unfailing D) ((vouchPlan params r).ok .unfailing)
        (if rv < 0 then do
          Call.logError text
          Call.leave buf
          pure rv
        else do
          Call.leave buf
          pure rv) l' fun rv l' => 0 ≤ rv → Vouched r l' := by
    intro text buf rv l' hv
    refine safe_ite.2 ⟨fun _ => ?_, fun _ => Tracking.untraced_bind id (by trivial) fun _ => hv⟩
    exact Tracking.untraced_bind id (by trivial) fun _ => Tracking.untraced_bind id (by trivial) fun _ => hv
  have hnone : ∀ rv < (0 : Int), ∀ l', 0 ≤ rv → Vouched r l' := fun rv hrv l' h0 => by omega
  unfold endMessage
  rw [hrole]
  cases r with
  | client =>
    refine safe_bind.2 (Tracking.stackVar False.elim fun buf _ => ?_)
    refine Safe.bind (R := fun rv l' => 0 ≤ rv → Vouched .client l') ?_ fun rv l' hv => hleave hv
    refine safe_bind.2 (Tracking.regMsgs (fun hc => absurd trivial hc) fun mr _ => ?_)
    refine Safe.bind (Tracking.sendStep (Q := fun res l' => 0 ≤ res.1 → Vouched .client l') trivial
      False.elim (fun _ rv hrv l' => hnone rv hrv l') fun wc hwc _ => ⟨wc, by simp [polled], hwc⟩) ?_
    exact fun res l' hv => ⟨⟨trivial, False.elim⟩, fun _ _ => hv⟩
  | server =>
    refine safe_bind.2 (Tracking.stackVar False.elim fun buf _ => ?_)
    refine Safe.bind (R := fun rv l' => 0 ≤ rv → Vouched .server l') ?_ fun rv l' hv => hleave hv
    refine safe_bind.2 (Tracking.regMsgs (fun hc => absurd trivial hc) fun mr _ => ?_)
    refine Safe.bind (Tracking.recvStep (Q := fun res l' => 0 ≤ res.1 → Vouched .server l') trivial
      False.elim (fun _ rv hrv l' => hnone rv hrv l') fun wc hwc _ => ⟨wc, by simp [polled], hwc⟩) ?_
    exact fun res l' hv => ⟨⟨trivial, False.elim⟩, fun _ _ => hv⟩

/-- The digest is taken behind a good completion. -/
theorem vouch_print {r : Role} (requests : List DccsRequest) (l : Local) (hl : Vouched r l) :
    Safe (tracking .unfailing D) ((vouchPlan params r).ok .unfailing)
      (printSha1sum requests params.count) l fun _ _ => True := by
  let P : VOp → Prop := fun op => match op with
    | .load .. | .logDigest .. | .logError _ => True
    | _ => False
  have hcalls : Calls P (printSha1sum requests params.count) :=
    calls_printSha1sum (fun _ _ => trivial) (fun _ _ _ => trivial) (fun _ => trivial) _ _
  refine (hcalls.keeps (I := Vouched r) id hl ?_ ?_).mono fun _ _ _ => trivial
  · intro l op hop hl
    refine ⟨?_, False.elim⟩
    cases op <;> first | exact hop.elim | exact .inr hl | trivial
  · intro l op a hop hl _
    cases op <;> first | exact hop.elim | (cases r <;> exact hl)

theorem vouch_run (h : Accepted params) :
    Safe (tracking .unfailing D) ((vouchPlan params (roleOf params)).ok .unfailing) (run o params) {}
      fun _ _ => True := by
  refine planned_run (Z := fun _ l => Vouched (roleOf params) l) id ?_ fun requests l hl =>
    vouch_print requests l hl
  exact planned_untilEnd (X := fun _ _ => True) (Y := fun _ _ => True) h trivial id
    (fun _ _ _ => trivial)
    (fun requests l hl => (vouch_exchange rfl requests l hl).mono fun _ _ _ _ => trivial)
    (fun requests l _ => vouch_rounds requests l) fun _ l _ => vouch_endMessage rfl l

end walk

/-! ## Both processes -/

section joint
variable {o : ByteOrder} {client server : DccsParameters} {net : Net}

/-- The joint invariant: what the client has been told is right, and what has been read for a digest
was read when all data requests had been carried out. -/
structure Faithful (o : ByteOrder) (client server : DccsParameters) (net : Net) : Prop where
  goodFirst : net.GoodFirst
  informed : Informed o client server net
  reads : ∀ r i data, (net.loc r).loads[readsBefore client r + i]? = some data →
    FilledWith (paramsOf client server (source client)) (net.loc (source client)) i data ∧
      total client ≤ (net.done .client).length

theorem faithful_start : Faithful o client server {} where
  goodFirst := Net.goodFirst_start
  informed := agreed_start.informed
  reads := by simp

/-- Both requirements on a call. -/
def trustOk (o : ByteOrder) (client server : DccsParameters) (r : Role) (l : Local) (op : VOp) :
    Prop :=
  (execPlan o client server r).ok .unfailing l op ∧
    (vouchPlan (paramsOf client server r) r).ok .unfailing l op

/-- Behind a good completion of the end message all data requests have been carried out. -/
theorem done_of_vouched (h : Matched client server) (ht : Tracked (execPlan o client server) net)
    (hgood : net.GoodFirst) {r : Role} (hv : Vouched r (net.loc r))
    (hthrough : match r with
      | .client => ClientThrough client (net.loc .client)
      | .server => ServerThrough server (net.loc .server)) :
    total client ≤ (net.done .client).length := by
  obtain ⟨wc, hwc, hs⟩ := hv
  cases r with
  | client =>
    obtain ⟨hsq, hpolled⟩ := hthrough
    have hall := hgood.all_done ht.holds hpolled (fun wr hwr => ?_) hwc hs
    · omega
    · rw [hsq, Nat.add_sub_cancel] at hwr
      have hplan : ClientSends o client (net.loc .client) (total client) wr :=
        (ht.kept .client).sends _ wr hwr
      cases hplan with
      | data _ _ hlt _ _ => exact absurd hlt (Nat.lt_irrefl _)
      | end_ _ hend => exact hend.signaled
  | server =>
    have hwc : (net.loc .server).rWcs.getLast? = some wc := hwc
    rw [List.getLast?_eq_getElem?] at hwc
    have hat : (net.host .server).rcq[(net.loc .server).rWcs.length - 1]? = some wc :=
      getElem?_mono (ht.holds.rpolled .server) hwc
    have hlt := (ht.holds.rcq_good .client _ wc hat).1 hs
    have hthrough : dataMessages server < (net.loc .server).rWcs.length := hthrough
    exact Nat.le_of_lt ((marked_iff h ht).2 (by omega))

theorem trusted_read (h : Matched client server) (ht : Tracked (execPlan o client server) net)
    (hF : Faithful o client server net) {r : Role} {p : Ptr} {len : Nat}
    (hok : trustOk o client server r (net.loc r) (.load p len)) :
    ExchangeRead client net r p len ∨ total client ≤ (net.done .client).length := by
  have hplan : (execPlan o client server r).load (net.loc r) p len := hok.1.1
  rcases hok.2.1 with ⟨rfl, hverb, hexchange⟩ | hv
  · exact .inl ⟨rfl, hverb, hexchange⟩
  · cases r with
    | server => exact .inr (done_of_vouched h ht hF.goodFirst hv hplan.1)
    | client =>
      rcases hplan with ⟨hverb, hexchange⟩ | ⟨hthrough, -⟩
      · exact .inl ⟨rfl, hverb, hexchange⟩
      · exact .inr (done_of_vouched h ht hF.goodFirst hv hthrough)

/-- While nothing more is read. -/
theorem Faithful.later {net' : Net} (hF : Faithful o client server net) (hgood : net'.GoodFirst)
    (hlater : net.Later net') (hloads : ∀ r, (net'.loc r).loads = (net.loc r).loads) :
    Faithful o client server net' where
  goodFirst := hgood
  informed := hF.informed.later hlater.loc hloads
  reads r i data hdata := by
    obtain ⟨hfilled, hall⟩ := hF.reads r i data (hloads r ▸ hdata)
    exact ⟨hfilled.extends (hlater.loc _), hall.trans (hlater.transfers.filter _).length_le⟩

theorem Faithful.called (h : Matched client server) (ht : Tracked (execPlan o client server) net)
    (hF : Faithful o client server net) {hint : Net.Hint} {r : Role} {op : VOp} {a : op.Ans}
    (hok : trustOk o client server r (net.loc r) op) (ha : net.answer hint r op = some a) :
    Faithful o client server (net.called r op a) := by
  have hstore : ∀ p bytes, op ≠ .store p bytes := by
    rintro p bytes rfl
    cases r <;> exact hok.1.1.elim
  have hlater := net.later_called r hstore a
  have hgood := hF.goodFirst.called r op a
  by_cases hop : ∃ p len, op = .load p len
  · obtain ⟨p, len, rfl⟩ := hop
    have hall := trusted_read h ht hF hok
    have hnext := reads_next_of h ht hF.informed hok.1.1 hall ha
    refine ⟨hgood, hF.informed.load hnext, fun q i data hdata => ⟨?_, ?_⟩⟩
    · refine FilledWith.extends ?_ (hlater.loc _)
      rcases request_read hnext hdata with hold | hnew
      · exact (hF.reads q i data hold).1
      · exact hnew
    · rcases loads_called hdata with hold | ⟨rfl, hlength, -⟩
      · exact (hF.reads q i data hold).2
      · rcases hall with ⟨rfl, hverb, k, hlt, hk, -⟩ | hall
        · -- the first two reads are those of the exchange
          rw [readsBefore, if_neg hverb] at hlength
          omega
        · exact hall
  · exact hF.later hgood hlater fun q => called_loads net r q (fun p len he => hop ⟨p, len, he⟩) a

theorem Faithful.tick (ht : Tracked (execPlan o client server) net)
    (hF : Faithful o client server net) {t : Net.Tick} {net' : Net}
    (htick : Net.tick t net = some net') : Faithful o client server net' := by
  exact hF.later (hF.goodFirst.tick ht.holds htick) (Net.later_tick htick) fun q => by
    rw [Net.tick_loc htick]

/-- Every digest printed so far is of what the host the data comes from had filled its requests
with; and once one has been printed, the requests hold the same on both hosts. -/
structure DigestsTrusted (client server : DccsParameters) (net : Net) : Prop where
  digests : ∀ r, ∀ chunks ∈ (net.loc r).digests, chunks.length = client.count ∧
    ∀ (i : Nat) (chunk : List UInt8), chunks[i]? = some chunk →
      FilledWith (paramsOf client server (source client)) (net.loc (source client)) i chunk
  agree : (∃ r, (net.loc r).digests ≠ []) → RequestsAgree client server net

theorem digestsTrusted_of_faithful (h : Matched client server)
    (ht : Tracked (execPlan o client server) net) (hF : Faithful o client server net) :
    DigestsTrusted client server net := by
  have hread : ∀ {r : Role} {chunks : List (List UInt8)}, chunks ∈ (net.loc r).digests →
      ∀ (i : Nat) (chunk : List UInt8), chunks[i]? = some chunk →
        FilledWith (paramsOf client server (source client)) (net.loc (source client)) i chunk ∧
          total client ≤ (net.done .client).length := by
    intro r chunks hmem i chunk hchunk
    have hh := hashes_reads ht hF.informed hmem
    refine hF.reads r i chunk ?_
    rw [← hchunk]
    exact (hh.chunk i (by rw [← hh.length]; exact (List.getElem?_eq_some_iff.1 hchunk).1)).symm
  constructor
  · intro r chunks hmem
    have hlength := (hashes_reads ht hF.informed hmem).length
    exact ⟨hlength.trans (h.paramsOf_count r), fun i chunk hchunk => (hread hmem i chunk hchunk).1⟩
  · rintro ⟨r, hne⟩
    obtain ⟨chunks, hmem⟩ := List.exists_mem_of_ne_nil _ hne
    have hlength := (hashes_reads ht hF.informed hmem).length
    rw [h.paramsOf_count] at hlength
    have hpos := h.clientAccepted.checked.1
    have hall := (hread hmem 0 chunks[0] (List.getElem?_eq_getElem (by omega))).2
    exact fun i hi => holds_of_done h ht hF.informed hall hi

/-- **A printed digest can be trusted**, whatever becomes of the connection, as long as no call
fails. -/
theorem digests_trusted (h : Matched client server) {c : Conf rc Int}
    (hc : Reachable NoCallFails (start fun r => run o (paramsOf client server r)) c) :
    DigestsTrusted client server c.st := by
  have hsafe : ∀ r, Safe (tracking .unfailing fun _ _ => True) (trustOk o client server r)
      (run o (paramsOf client server r)) {} fun _ _ => True := by
    intro r
    have hvouched := vouch_run (o := o) (D := fun _ _ => True) (h.accepted r)
    cases r with
    | client =>
      rw [show roleOf (paramsOf client server .client) = .client from h.clientRole] at hvouched
      exact ((planned_client h.clientAccepted h.clientRole trivial id).both hvouched).mono
        fun _ _ _ => trivial
    | server =>
      rw [show roleOf (paramsOf client server .server) = .server from h.serverRole] at hvouched
      exact ((planned_server h.serverAccepted h.serverRole trivial id).both hvouched).mono
        fun _ _ _ => trivial
  obtain ⟨ht, hF, -⟩ := Tracked.reachable_of_ok (R := .unfailing) (I := Faithful o client server)
    (fun _ _ _ hok => hok.1.1) (fun _ _ _ hl _ => hl) (fun _ _ _ _ _ _ _ _ _ _ => trivial)
    (fun _ _ _ _ _ hf => hf.elim) (fun net hint r op a _ ht hF hok ha => hF.called h ht hok ha)
    (fun net t net' _ ht hF htick => hF.tick ht htick) faithful_start hsafe hc
  exact digestsTrusted_of_faithful h ht hF

end joint

/-- A call that does not fail, as it stands in a schedule. -/
def succeeds : Label rc → Bool
  | .call _ hint => !Net.Hint.fail hint
  | .tick _ => true

theorem noCallFails_of_succeeds {l : Label rc} (h : succeeds l) (net : Net) : NoCallFails l net := by
  cases l with
  | call r hint => simpa [succeeds, NoCallFails] using h
  | tick t => trivial

/-- The data written and hashed on both hosts, and then the connection breaks. -/
def writtenThenBreak : List (Label rc) := dataWritten ++ [.tick .fault]

/-- What a host has printed, when the connection is gone. -/
def printedBroken (c : Conf rc Int) : Option (List (List (List UInt8)) × List (List (List UInt8))) :=
  if Net.broken c.st then some ((Net.loc c.st .client).digests, (Net.loc c.st .server).digests)
  else none

theorem digests_trusted_fourWrites :
    ∃ c, Reachable NoCallFails (start fun r => run .little (paramsOf fourWrites fourWritten r)) c ∧
      (∀ r, (Net.loc c.st r).digests = [countedUp]) ∧ Net.broken c.st ∧
        DigestsTrusted fourWrites fourWritten c.st := by
  have hrun : ((start fun r => run .little (paramsOf fourWrites fourWritten r)).follow
      writtenThenBreak).bind printedBroken = some ([countedUp], [countedUp]) := by decide +kernel
  have hsucceeds : writtenThenBreak.all succeeds := by decide +kernel
  obtain ⟨c, hc, hprinted⟩ := Reachable.of_follow
    (fun l hl net => noCallFails_of_succeeds (List.all_eq_true.1 hsucceeds l hl) net) hrun
  obtain ⟨hbroken, hprinted⟩ := Option.ite_none_right_eq_some.1 hprinted
  have hdigests := Prod.mk.inj (Option.some.inj hprinted)
  refine ⟨c, hc, fun r => ?_, hbroken, digests_trusted matched_fourWrites hc⟩
  cases r with
  | client => exact hdigests.1
  | server => exact hdigests.2

end RdmaExec

end RdmaOpera
