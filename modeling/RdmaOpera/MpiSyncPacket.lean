import RdmaOpera.Checksum
import RdmaOpera.MpiIsolation
import RdmaOpera.MpiStability

/-!
# The sync packet

`run` as it is shipped (`TEST_SYNC_PACKET`): one block of five bytes, the word `sync` and slot 0.
As long as MPI reads nothing out of a freed buffer, every rank sends and receives the same five
bytes: no buffer ever holds anything else, all digests are equal, and rank 0 never complains. In the
direction 1-N there is never anything to read out of a freed buffer.
-/

namespace RdmaOpera.MpiExec

open Lib Prog

/-- The five bytes. -/
def packet : List UInt8 := syncPacketHeader ++ [0]

def packetRange : Range := ⟨0, packet.length⟩

section sha1
variable (sha1sum : List UInt8 → Digest)

/-! ## One rank -/

/-- Whether the buffer holds the packet, and what is to be expected then. -/
def packing : Monitor Mpi Bool where
  upd packed op _ := match op with
    | .mallocRandom _ => false
    | .store _ _ => true
    | _ => packed
  adm _ op a := match op, a with
    | .load _, (bytes : List UInt8) => bytes = packet
    | .recvWait, (bytes : List UInt8) => bytes = (sha1sum packet).toList
    | _, _ => True
  spins := True

/-- A rank writes the packet before anything else, and never reports a wrong digest. -/
def Packs (packed : Bool) : MOp → Prop
  | .mallocRandom _ => packed = false
  | .store offset bytes => if packed then offset = syncPacketHeader.length ∧ bytes = [0]
    else offset = 0 ∧ bytes = packet
  | .load length => packed = true ∧ length = packet.length
  | .send data _ => packed = true ∧ data = (sha1sum packet).toList
  | .logError _ => False
  | _ => packed = true

section rank
variable {sha1sum} {params : DccsParameters} {size rank : Nat}

theorem strncmp_self (digest : Digest) :
    strncmp shaDigestLength digest.toList digest.toList = 0 := by
  by_contra hdiffers
  have hlength : digest.toList.length = shaDigestLength := Vector.length_toList
  exact not_differsEarly_self _ ((strncmp_ne_zero hlength hlength).1 hdiffers)

theorem safe_sendMessages_packed {target : Int} (hvalid : ¬ invalid target size) (bytes : Nat) :
    Safe (packing sha1sum) (Packs sha1sum) (sendMessages size rank params target bytes) true
      fun _ packed => packed = true := by
  unfold sendMessages
  rw [if_neg hvalid]
  refine (safe_postMessages (fun _ _ _ packed => packed = true) rfl (fun _ _ _ _ _ h => h) ?_
    fun _ _ _ h => h).bind fun _ packed h => h
  rintro n host s packed - - - rfl
  exact ⟨rfl, fun _ _ => ⟨rfl, fun _ _ => rfl⟩⟩

theorem safe_recvMessages_packed {source : Int} (hvalid : ¬ invalid source size) (bytes : Nat) :
    Safe (packing sha1sum) (Packs sha1sum) (recvMessages size rank params source bytes) true
      fun _ packed => packed = true := by
  unfold recvMessages
  rw [if_neg hvalid]
  refine (safe_postMessages (fun _ _ _ packed => packed = true) rfl (fun _ _ _ _ _ h => h) ?_
    fun _ _ _ h => h).bind ?_
  · rintro n host s packed - - - rfl
    exact ⟨rfl, fun _ _ => rfl⟩
  · rintro s packed rfl
    exact ⟨rfl, fun _ _ => rfl⟩

theorem safe_round_packed (hrank : rank < size) (r : Nat) :
    Safe (packing sha1sum) (Packs sha1sum) (round size rank params r ()) true
      fun _ packed => packed = true := by
  obtain ⟨hsendTarget, hrecvSource⟩ := targets_valid hrank params.direction
  have hsend : Safe (packing sha1sum) (Packs sha1sum)
      (if (targets rank params.direction).shouldSend then sendMessages size rank params
        (targets rank params.direction).sendTarget 0
        else pure (0, 0) : MProg (Int × Nat)) true fun _ packed => packed = true :=
    safe_ite.2 ⟨fun _ => safe_sendMessages_packed hsendTarget 0, fun _ => rfl⟩
  refine ⟨rfl, fun _ _ => ⟨rfl, fun _ _ => hsend.bind ?_⟩⟩
  rintro sent packed rfl
  refine safe_ite.2 ⟨fun _ => ⟨rfl, fun _ _ => ?_⟩, fun _ => rfl⟩
  refine (safe_recvMessages_packed hrecvSource 0).bind ?_
  rintro received packed rfl
  exact ⟨rfl, fun _ _ => ⟨rfl, fun _ _ => rfl⟩⟩

theorem safe_verifyFrom_packed :
    ∀ k src, Safe (packing sha1sum) (Packs sha1sum) (verifyFrom (sha1sum packet) k src) true
      fun rv packed => rv = 0 ∧ packed = true
  | 0, _ => ⟨rfl, rfl⟩
  | k + 1, src => by
    refine ⟨rfl, fun _ _ => ⟨rfl, fun bytes hbytes => ?_⟩⟩
    obtain rfl : bytes = (sha1sum packet).toList := hbytes
    exact safe_ite.2 ⟨fun hne => absurd (strncmp_self _) hne,
      fun _ => safe_verifyFrom_packed k (src + 1)⟩

theorem safe_run_packed (hrank : rank < size) :
    Safe (packing sha1sum) (Packs sha1sum) (run sha1sum size rank params) false
      fun rv _ => rv = 0 := by
  have hexchange : Safe (packing sha1sum) (Packs sha1sum)
      (exchange sha1sum size rank (paramsOf true params)) true
      fun rv packed => rv = 0 ∧ packed = true := by
    refine (safe_forN (fun _ _ packed => packed = true) rfl ?_).bind ?_
    · rintro n - packed - rfl
      exact safe_round_packed hrank n
    · rintro - packed rfl
      refine ⟨⟨rfl, rfl⟩, fun content hcontent => ?_⟩
      obtain rfl : content = packet := hcontent
      refine safe_ite.2 ⟨fun _ => safe_verifyFrom_packed _ _, fun _ => ?_⟩
      exact ⟨⟨rfl, rfl⟩, fun _ _ => ⟨rfl, rfl⟩⟩
  refine ⟨rfl, fun allocated _ => safe_ite.2 ⟨fun _ => trivial, fun _ => ?_⟩⟩
  refine ⟨⟨rfl, rfl⟩, fun _ _ => ⟨⟨rfl, rfl⟩, fun _ _ => hexchange.bind ?_⟩⟩
  rintro rv packed ⟨-, rfl⟩
  exact ⟨rfl, fun _ _ => rfl⟩

end rank

/-! ## The memory -/

theorem bytesAt_packet {mem : Nat → UInt8} :
    bytesAt mem packetRange = packet ↔
      mem 0 = 115 ∧ mem 1 = 121 ∧ mem 2 = 110 ∧ mem 3 = 99 ∧ mem 4 = 0 := by
  simp [bytesAt, packetRange, packet, syncPacketHeader, List.range_succ]

theorem bytesAt_store_packet (mem : Nat → UInt8) :
    bytesAt (writeAt mem 0 packet) packetRange = packet := by
  rw [bytesAt_packet]
  simp [writeAt, packet, syncPacketHeader]

theorem bytesAt_store_slot {mem : Nat → UInt8} (h : bytesAt mem packetRange = packet) :
    bytesAt (writeAt mem syncPacketHeader.length [0]) packetRange = packet := by
  rw [bytesAt_packet] at h ⊢
  simp [writeAt, syncPacketHeader, h]

/-- What a place of these messages is sent with. -/
def contentOf : Place → List UInt8
  | .block _ => packet
  | .array _ => (sha1sum packet).toList

/-- Every block is the whole packet. -/
theorem block_planned {params : DccsParameters} {size s d : Nat} {b : Range}
    (h : Place.block b ∈ planned (paramsOf true params) size s d) : b = packetRange := by
  rcases List.mem_append.1 h with h | h
  · split at h
    · obtain ⟨i, hi, hb⟩ := mem_rounds h
      obtain rfl : i = 0 := Nat.lt_one_iff.1 hi
      cases hb
      rfl
    · cases h
  · split at h
    · cases List.mem_singleton.1 h
    · cases h

/-- The digest has its place behind the blocks. -/
theorem digestAt_planned {params : DccsParameters} {size s : Nat} (h1 : 1 ≤ s) (hs : s < size) :
    (planned params size s 0)[digestAt params s]? = some (.array shaDigestLength) := by
  have hlength : (if talks params.direction s 0 ∧ s < size ∧ 0 < size then
      rounds params params.repeat_ else []).length = digestAt params s := by
    have hzero : 0 < size := by omega
    by_cases htalks : talks params.direction s 0
    · rw [if_pos ⟨htalks, hs, hzero⟩, length_rounds, digestAt, if_pos htalks]
    · rw [if_neg fun h => htalks h.1, digestAt, if_neg htalks]
      rfl
  have hdigest : 0 = 0 ∧ 1 ≤ s ∧ s < size := ⟨rfl, h1, hs⟩
  rw [planned, List.getElem?_append_right hlength.le, hlength, Nat.sub_self, if_pos hdigest]
  rfl

/-! ## All ranks -/

/-- It reads nothing out of a freed buffer. -/
def Tick.live (w : World) : Tick → Prop
  | .read s _ _ _ => w.freed s = false
  | _ => True

/-- MPI never does. -/
def ReadsLive {size : Nat} (l : Label (mpi size)) (w : World) : Prop :=
  match l with
  | .call _ _ => True
  | .tick t => Tick.live w t

instance {size : Nat} : ∀ (l : Label (mpi size)) (w : (mpi size).St), Decidable (ReadsLive l w)
  | .call _ _, _ => inferInstanceAs (Decidable True)
  | .tick (.read s _ _ _), w => inferInstanceAs (Decidable (World.freed w s = false))
  | .tick (.pair _ _), _ | .tick (.deliver _ _ _), _ => inferInstanceAs (Decidable True)

/-- Who has written the packet still has it, and nothing else is under way. -/
structure Synced (params : DccsParameters) (size : Nat) (w : World) (t : Fin size → Bool) :
    Prop where
  flow : Flow (paramsOf true params) size w
  idle : ∀ r : Fin size, t r = false → w.loc r = {}
  mem : ∀ r : Fin size, t r = true → bytesAt (w.mem r) packetRange = packet
  read : ∀ s d k bytes, w.read (s, d, k) = some bytes →
    ∀ place, ((w.loc s).sends d)[k]? = some place → bytes = contentOf sha1sum place

namespace Synced

variable {sha1sum} {params : DccsParameters} {size : Nat} {w w' : World} {t : Fin size → Bool}

theorem start (sha1sum : List UInt8 → Digest) (params : DccsParameters) (size : Nat)
    (mem : Nat → Nat → UInt8) : Synced sha1sum params size { mem } fun _ => false where
  flow := .start _ size mem
  idle _ _ := rfl
  mem _ h := nomatch h
  read _ _ _ _ h := nomatch h

/-- What has arrived is what its place is sent with. -/
theorem got_eq (h : Synced sha1sum params size w t) {s d k : Nat} {bytes : List UInt8}
    (hgot : w.got (s, d, k) = some bytes) :
    ∃ place, ((w.loc d).recvs s)[k]? = some place ∧ bytes = contentOf sha1sum place := by
  obtain ⟨hpaired, hread⟩ := h.flow.got s d k bytes hgot
  obtain ⟨heq, place, hsent, hposted⟩ :=
    h.flow.aligned.inStep s d k _ (List.getElem?_eq_getElem hpaired)
  exact ⟨place, hposted, h.read s d k bytes hread place hsent⟩

/-- A posted block of a rank is that of its packet. -/
theorem block_eq (h : Synced sha1sum params size w t) {s d k : Nat} {b : Range}
    (hsent : ((w.loc s).sends d)[k]? = some (.block b)) : b = packetRange ∧ s < size := by
  have hs : s < size := by
    by_contra hge
    rw [h.flow.aligned.idle s (by omega)] at hsent
    cases hsent
  exact ⟨block_planned (((h.flow.aligned.onPlan s hs).sends d).subset (List.mem_of_getElem? hsent)),
    hs⟩

theorem tick (h : Synced sha1sum params size w t) {x : Tick}
    (hlive : x.live w') (ht : w.tick x = some w') :
    Synced sha1sum params size w' t := by
  have hflow := h.flow.tick ht
  have hloc := World.tick_loc ht
  cases World.tick_cases ht with
  | pair _ => exact ⟨hflow, h.idle, h.mem, h.read⟩
  | @read s d k seen b hplace hread =>
    have hmem : w.visible s seen = w.mem s := World.visible_of_live hlive
    refine ⟨hflow, h.idle, h.mem, fun s' d' k' bytes hb place hsent => ?_⟩
    by_cases hx : (s', d', k') = (s, d, k)
    · cases hx
      obtain rfl := Option.some.inj (hplace.symm.trans hsent)
      obtain ⟨rfl, hs⟩ := h.block_eq hplace
      have hb : Function.update w.read (s, d, k)
        (some (bytesAt (w.visible s seen) packetRange)) (s, d, k) = some bytes := hb
      rw [Function.update_self, hmem] at hb
      cases hb
      refine h.mem ⟨s, hs⟩ ?_
      -- who has posted a block has written the packet
      by_contra hpacked
      rw [h.idle ⟨s, hs⟩ (by simpa using hpacked)] at hplace
      cases hplace
    · refine h.read s' d' k' bytes ?_ place hsent
      rw [← hb]
      exact (Function.update_of_ne hx _ _).symm
  | @deliver s d k y bytes place hy hread _ hposted _ _ =>
    obtain ⟨rfl, place', hsent, hposted'⟩ := h.flow.aligned.inStep s d k y hy
    obtain rfl := Option.some.inj (hposted'.symm.trans hposted)
    have hbytes := h.read s d k bytes hread place' hsent
    obtain ⟨hloc', -, hread', -⟩ := World.arrive_eq w s d k bytes place'
    refine ⟨hflow, by rw [hloc']; exact h.idle, fun r hr => ?_,
      by rw [hloc', hread']; exact h.read⟩
    cases place' with
    | array n => exact h.mem r hr
    | block b =>
      obtain ⟨rfl, -⟩ := h.block_eq hsent
      obtain rfl : bytes = packet := hbytes
      show bytesAt (Function.update w.mem d (writeAt (w.mem d) 0 packet) r) packetRange = packet
      rw [Function.update_apply]
      split
      · exact bytesAt_store_packet _
      · exact h.mem r hr

/-- What a rank is answered is what it expects. -/
theorem admits (h : Synced sha1sum params size w t) {r : Fin size} {hint : Hint} {op : MOp}
    {a : MOp.Ans op} (ha : w.answer size hint r op = some a)
    (hok : Orderly True (paramsOf true params) size r (w.loc r) op)
    (hpacks : Packs sha1sum (t r) op) : (packing sha1sum).adm (t r) op a := by
  cases op with
  | load length =>
    obtain ⟨hpacked, rfl⟩ := hpacks
    cases ha
    exact h.mem r hpacked
  | recvWait =>
    obtain ⟨h0, -, s, hcollects⟩ := hok
    have ha : (w.loc r).waiting.bind (fun x => w.got (x.1, r, x.2)) = some a := ha
    rw [hcollects.waiting] at ha
    obtain ⟨place, hposted, rfl⟩ := h.got_eq ha
    have hplanned := getElem?_mono ((h.flow.aligned.onPlan r r.isLt).recvs s) hposted
    rw [h0, digestAt_planned hcollects.pos hcollects.lt] at hplanned
    cases hplanned
    rfl
  | _ => trivial

theorem called (h : Synced sha1sum params size w t) {r : Fin size} {hint : Hint} {op : MOp}
    {a : MOp.Ans op} (ha : w.answer size hint r op = some a)
    (hplan : OnPlan (paramsOf true params) size r ((w.loc r).upd op a))
    (hpacks : Packs sha1sum (t r) op) :
    Synced sha1sum params size (w.called hint r op a)
      (Function.update t r ((packing sha1sum).upd (t r) op a)) := by
  refine ⟨h.flow.called r.isLt ha hplan, fun q hq => ?_, fun q hq => ?_,
    fun s d k bytes hb place hsent => ?_⟩
  · by_cases hqr : q = r
    · subst hqr
      rw [Function.update_self] at hq
      rw [World.called_loc, if_pos rfl]
      cases op with
      | mallocRandom n => exact h.idle q hpacks
      | store offset bytes => cases hq
      | logError format => exact hpacks.elim
      | load length => exact (Bool.false_ne_true (hq.symm.trans hpacks.1)).elim
      | send data dest => exact (Bool.false_ne_true (hq.symm.trans hpacks.1)).elim
      | _ => exact (Bool.false_ne_true (hq.symm.trans hpacks)).elim
    · rw [Function.update_of_ne hqr] at hq
      rw [World.called_loc, if_neg fun heq => hqr (Fin.ext heq)]
      exact h.idle q hq
  · by_cases hqr : q = r
    · subst hqr
      rw [Function.update_self] at hq
      cases op with
      | mallocRandom n => cases hq
      | store offset bytes =>
        show bytesAt (Function.update w.mem q (writeAt (w.mem q) offset bytes) q) packetRange = packet
        rw [Function.update_self]
        have hpacks : if t q then offset = syncPacketHeader.length ∧ bytes = [0]
          else offset = 0 ∧ bytes = packet := hpacks
        split at hpacks
        · rename_i hpacked
          obtain ⟨rfl, rfl⟩ := hpacks
          exact bytesAt_store_slot (h.mem q hpacked)
        · obtain ⟨rfl, rfl⟩ := hpacks
          exact bytesAt_store_packet _
      | _ => exact h.mem q hq
    · rw [Function.update_of_ne hqr] at hq
      have hother : (w.called hint r op a).mem q = w.mem q := by
        have hne : (q : Nat) ≠ r := fun heq => hqr (Fin.ext heq)
        cases op with
        | mallocRandom n =>
          cases hf : hint.fresh <;> simp [World.called, World.effect, hf, Function.update_of_ne hne]
        | store offset bytes => exact Function.update_of_ne hne _ _
        | _ => rfl
      rw [hother]
      exact h.mem q hq
  · rcases Flow.read_called w hint r op a (s, d, k) with heq | ⟨data, dest, rfl, hx, hdata⟩
    · rw [heq] at hb
      obtain ⟨place', hold, -⟩ := h.flow.read s d k bytes hb
      have hkept : (((w.called hint r op a).loc s).sends d)[k]? = some place' := by
        rcases Flow.sends_called w hint r op a s d with hs | ⟨-, new, hs, -⟩
        · rwa [hs]
        · rw [hs]
          exact getElem?_mono (List.prefix_append _ _) hold
      obtain rfl := Option.some.inj (hkept.symm.trans hsent)
      exact h.read s d k bytes hb place' hold
    · cases hx
      obtain rfl := Option.some.inj (hb.symm.trans hdata)
      have hlast : (((w.called hint r (.send bytes d) a).loc r).sends d)[((w.loc r).sends d).length]? =
          some (.array bytes.length) := by
        rw [World.called_loc, if_pos rfl]
        show (post (w.loc r).sends d _ d)[_]? = _
        rw [post_apply, if_pos rfl]
        simp
      obtain rfl := Option.some.inj (hlast.symm.trans hsent)
      exact hpacks.2

end Synced

/-! ## Every run -/

/-- The packet is everywhere, nothing but packets and their digest has arrived, and nobody is about
to report a wrong digest. -/
structure Shipped (size : Nat) (c : Conf (mpi size) Int) : Prop where
  buffers : ∀ r : Fin size, 1 ≤ (World.loc c.st r).barriers →
    bytesAt (World.mem c.st r) packetRange = packet
  arrived : ∀ s d k bytes, World.got c.st (s, d, k) = some bytes →
    bytes = packet ∨ bytes = (sha1sum packet).toList
  silent : ∀ r : Fin size, ∀ op k, c.prog r = .call op k → ∀ format, op ≠ .logError format

theorem countable_packet (params : DccsParameters) {size : Nat} (hsize : size < 2 ^ 31) :
    Countable (paramsOf true params) size := by
  show (size - 1) * 1 < 2 ^ 31
  omega

/-- A rank of 1-N has been read out before it frees its buffer. -/
theorem reachable_readsLive {params : DccsParameters} {size : Nat} {mem : Nat → Nat → UInt8}
    {c : Conf (mpi size) Int} (hdir : params.direction = .dirOut)
    (hc : Reachable AnyMpiStep (launch mem fun rank : Fin size => run sha1sum size rank params) c) :
    Reachable ReadsLive (launch mem fun rank : Fin size => run sha1sum size rank params) c := by
  have hstable : ∀ c, Reachable AnyMpiStep
      (launch mem fun rank : Fin size => runOf sha1sum true size rank params) c → Stable c := by
    intro c hc
    rcases Nat.eq_zero_or_pos params.repeat_ with hnone | hrepeat
    · have hnone : NoBlocks (paramsOf true params) size := .inr (.inr (.inl hnone))
      exact stable_of_noBlocks hnone mem c hc
    · exact broadcast_stable sha1sum true hdir (Nat.mul_pos hrepeat Nat.one_pos) (.inl rfl) hc
  induction hc with
  | init => exact .init
  | @step c c' l hc _ hn ih =>
    refine ih.step l ?_ hn
    cases l with
    | call p hint => trivial
    | tick t =>
      obtain ⟨w', ht, rfl⟩ := Conf.next_tick hn
      change World.tick c.st t = some w' at ht
      cases World.tick_cases ht with
      | pair _ => trivial
      | @read s d k seen b hplace hread => exact (hstable c hc).present s b ⟨d, k, hplace, hread⟩
      | deliver _ _ _ _ _ _ => trivial

theorem shipped_of_readsLive {params : DccsParameters} {size : Nat} {mem : Nat → Nat → UInt8}
    {c : Conf (mpi size) Int} (hsize : size < 2 ^ 31)
    (hc : Reachable ReadsLive (launch mem fun rank : Fin size => run sha1sum size rank params) c) :
    Shipped sha1sum size c := by
  have hcounts := countable_packet params hsize
  have hinv := mpi_invariant_ghost (I := Synced sha1sum params size) rfl ?_
    (fun _ w w' t hlive h ht => h.tick hlive ht)
    (.start sha1sum params size mem)
    (fun rank => (safe_runOf_within rank.isLt hcounts).prod (safe_run_packed rank.isLt)) hc
  · obtain ⟨t, h, hsafe⟩ := hinv
    refine ⟨fun r hr => h.mem r ?_, fun s d k bytes hgot => ?_, fun r op k hp format => ?_⟩
    · by_contra hpacked
      rw [h.idle r (by simpa using hpacked)] at hr
      exact absurd hr (by decide)
    · obtain ⟨place, -, rfl⟩ := h.got_eq hgot
      cases place with
      | block b => exact .inl rfl
      | array n => exact .inr rfl
    · rintro rfl
      have hr := hsafe r
      rw [hp] at hr
      exact hr.1.2
  · rintro rank hint op a w t - h ⟨⟨⟨hok, -⟩, hplan⟩, hpacks⟩ ha
    exact ⟨watching_admits ha, h.admits ha hok hpacks, h.called ha (hplan a) hpacks⟩

/-- **The sync packet** arrives unaltered: in every direction while no freed buffer is read, and in
the direction 1-N over every run. -/
theorem run_shipped (sha1sum : List UInt8 → Digest) (params : DccsParameters) (size : Nat)
    (mem : Nat → Nat → UInt8) (hsize : size < 2 ^ 31) (c : Conf (mpi size) Int) :
    (Reachable ReadsLive (launch mem fun rank : Fin size => run sha1sum size rank params) c →
      Shipped sha1sum size c) ∧
    (params.direction = .dirOut →
      Reachable AnyMpiStep (launch mem fun rank : Fin size => run sha1sum size rank params) c →
        Shipped sha1sum size c) :=
  ⟨shipped_of_readsLive sha1sum hsize,
    fun hdir hc => shipped_of_readsLive sha1sum hsize (reachable_readsLive sha1sum hdir hc)⟩

end sha1

/-- Two ranks send each other their packet, in their second round. -/
theorem run_shipped_twoRounds : ∃ c : Conf (mpi 2) Int,
    World.got c.st (1, 0, 0) = some packet ∧ Shipped (fun _ => Vector.replicate 20 0) 2 c := by
  have hrun : ((launch (fun _ _ => 0) fun rank : Fin 2 => run
    (fun _ => Vector.replicate 20 0) 2 rank twoRounds).followIf ReadsLive
      (twoBlocks 0 1)).bind (fun c => some (World.got c.st (1, 0, 0))) = some (some packet) := by
    decide +kernel
  obtain ⟨c, hreach, hgot⟩ := Reachable.of_followIf hrun
  exact ⟨c, Option.some.inj hgot, (run_shipped _ twoRounds 2 _ (by decide) c).1 hreach⟩

end RdmaOpera.MpiExec
