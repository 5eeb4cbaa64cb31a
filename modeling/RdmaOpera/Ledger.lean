import Mathlib.Algebra.Order.Group.Multiset
import RdmaOpera.Buffers
import RdmaOpera.CallKinds

/-!
# The resource ledger of `rdma_exec`

| here | there |
| --- | --- |
| `Resource.addrinfo`, `.ep`   | `rdma_getaddrinfo`, `rdma_create_ep`, `rdma_get_request`, and what undoes them |
| `Resource.region`            | the memory regions, of the buffers, of the exchange and of the end message |
| `Resource.heap`              | the `mr_infos` arrays and the request buffers |

`Ledger` counts what is held. Every function of `run` leaves it as it found it, up to what the
function is there to acquire or release; `dccs_connect` does not when `rdma_set_option` fails: it
jumps to `out_free_addrinfo`, past the label that destroys the endpoint (`dccs_rdma.h:65-67`).
-/

namespace RdmaOpera.RdmaExec

open Lib Prog

inductive Resource where
  | addrinfo
  | ep (e : Ep)
  | region (mr : Mr)
  | heap (p : Ptr)
deriving DecidableEq

/-- What is held, whether something was released that was not, and whether `rdma_set_option` failed. -/
structure Ledger where
  held : Multiset Resource := 0
  stray : Bool := false
  tosRefused : Bool := false
deriving DecidableEq

namespace Ledger

def acquire (w : Ledger) (r : Resource) : Ledger := { w with held := r ::ₘ w.held }

def release (w : Ledger) (r : Resource) : Ledger :=
  if r ∈ w.held then { w with held := w.held.erase r } else { w with stray := true }

/-- A connection call that succeeds. -/
def granted (w : Ledger) : CmCall → Ledger
  | .getaddrinfo => w.acquire .addrinfo
  | .createEp e => w.acquire (.ep e)
  | .getRequest => w.acquire (.ep .id)
  | .setOption _ | .connect | .listen | .accept => w

/-- A connection call that fails. -/
def refused (w : Ledger) : CmCall → Ledger
  | .setOption _ => { w with tosRefused := true }
  | _ => w

/-- `free(NULL)` does nothing. -/
def upd (w : Ledger) : (op : VOp) → op.Ans → Ledger
  | .cm c, (rv : Int) => if rv = 0 then w.granted c else w.refused c
  | .cmRelease .freeaddrinfo, _ => w.release .addrinfo
  | .cmRelease (.destroyEp e), _ => w.release (.ep e)
  | .malloc _, (some p : Option Ptr) => w.acquire (.heap p)
  | .mallocRandom _, (some (p, _) : Option (Ptr × List UInt8)) => w.acquire (.heap p)
  | .free p, _ => if p = .null then w else w.release (.heap p)
  | .regMr .., (some mr : Option Mr) => w.acquire (.region mr)
  | .deregMr mr, _ => w.release (.region mr)
  | _, _ => w

/-- Everything acquired has been released once, and nothing else has. -/
def Settled (w : Ledger) : Prop := w.held = 0 ∧ w.stray = false

instance (w : Ledger) : Decidable w.Settled := inferInstanceAs (Decidable (_ ∧ _))

theorem release_cons (w : Ledger) (r : Resource) (held : Multiset Resource) :
    ({ w with held := r ::ₘ held } : Ledger).release r = { w with held := held } := by
  rw [release, if_pos (Multiset.mem_cons_self r held), Multiset.erase_cons_head]

theorem release_acquire (w : Ledger) (r : Resource) : (w.acquire r).release r = w :=
  release_cons w r w.held

end Ledger

/-- A block that was handed out is not `NULL`. -/
def NotNull : (op : VOp) → op.Ans → Prop
  | .malloc _, (some p : Option Ptr) => p ≠ .null
  | .mallocRandom _, (some (p, _) : Option (Ptr × List UInt8)) => p ≠ .null
  | _, _ => True

/-- Any call may fail. -/
def ledger : Monitor Verbs Ledger where
  upd := Ledger.upd
  adm _ := NotNull
  spins := True

theorem quiet_ledger : Quiet ledger fun _ _ => True := ⟨fun _ _ => trivial, fun _ _ _ => rfl⟩

/-- Whatever fails: from the ledger `w` to a result and a ledger that satisfy `Q`. -/
abbrev Keeps {α : Type} (p : VProg α) (w : Ledger) (Q : α → Ledger → Prop) : Prop :=
  Safe ledger (fun _ _ => True) p w Q

/-! ## Calls that acquire nothing -/

def AcquiresNothing : VOp → Prop
  | .postSend _ | .postRecv _ | .pollSend _ | .pollRecv | .load .. | .getCycles | .stackVar _ | .leave _
  | .logError _ | .report .. | .logDigest .. => True
  | _ => False

theorem upd_acquiresNothing {w : Ledger} {op : VOp} (h : AcquiresNothing op) (a : op.Ans) :
    w.upd op a = w := by
  cases op <;> first | exact absurd h id | rfl

/-- Such a program leaves the ledger alone. -/
theorem keeps_of_calls {α : Type} {p : VProg α} (h : Calls AcquiresNothing p) (w : Ledger) :
    Keeps p w fun _ w' => w' = w := by
  refine h.keeps (I := (· = w)) trivial rfl (fun _ _ _ _ => trivial) ?_
  rintro _ op a ho rfl -
  exact upd_acquiresNothing ho a

theorem acquires_sends : Sends AcquiresNothing :=
  ⟨fun _ => trivial, fun _ => trivial, trivial, fun _ => trivial⟩

theorem acquires_receives : Receives AcquiresNothing :=
  ⟨fun _ => trivial, trivial, fun _ => trivial⟩

/-! ## The connection -/

/-- `if ((rv = call) != 0) { log; goto label; }` -/
theorem keeps_orElse {α : Type} {c : CmCall} {text : String} {f g : Int → VProg α} {w : Ledger}
    {Q : α → Ledger → Prop} (hfail : ∀ rv, rv ≠ 0 → Keeps (g rv) (w.refused c) Q)
    (hok : Keeps (f 0) (w.granted c) Q) :
    Keeps (orPerror (Call.cm c) text >>= fun rv => if rv ≠ 0 then g rv else f rv) w Q := by
  refine safe_bind.2 (quiet_ledger.orPerror ⟨trivial, fun rv _ => ?_⟩)
  have hupd : ledger.upd w (.cm c) rv = if rv = 0 then w.granted c else w.refused c := rfl
  rw [hupd]
  by_cases hrv : rv = 0
  · subst hrv
    exact hok
  · rw [if_neg hrv]
    show Keeps (if rv ≠ (0 : Int) then g rv else f rv) (w.refused c) Q
    rw [if_pos hrv]
    exact hfail rv hrv

/-- The endpoints of a connected process. -/
def endpoints : Role → Multiset Resource
  | .client => {.ep .id}
  | .server => {.ep .id, .ep .listenId}

/-- What `dccs_connect` and `dccs_listen` leave: the endpoints, or nothing, or what
`rdma_set_option` made them forget. -/
structure Connected (role : Role) (rv : Int) (w : Ledger) : Prop where
  ok : rv = 0 → w = { held := endpoints role }
  failed : rv ≠ 0 → (w.Settled ↔ w.tosRefused = false)

theorem connected_of_ne {role : Role} {rv : Int} {w : Ledger} (hrv : rv ≠ 0)
    (hw : w.Settled ↔ w.tosRefused = false) :
    Connected role rv w := ⟨fun h => absurd h hrv, fun _ => hw⟩

theorem keeps_dccsConnect (tos : UInt8) : Keeps (dccsConnect tos) {} (Connected .client) := by
  refine keeps_orElse (fun rv hrv => connected_of_ne hrv (by decide)) ?_
  refine keeps_orElse (fun rv hrv => ⟨trivial, fun ⟨⟩ _ => connected_of_ne hrv (by decide)⟩) ?_
  -- `goto out_free_addrinfo` with the endpoint created
  have hleak : ∀ rv, rv ≠ 0 → Connected .client rv { held := {.ep .id}, tosRefused := true } :=
    fun rv hrv => connected_of_ne hrv (by decide)
  refine keeps_orElse (fun rv hrv => ⟨trivial, fun ⟨⟩ _ => hleak rv hrv⟩) ?_
  show Keeps _ ((({} : Ledger).granted .getaddrinfo).granted (.createEp .id)) (Connected .client)
  refine keeps_orElse
    (fun rv hrv => ⟨trivial, fun ⟨⟩ _ => ⟨trivial, fun ⟨⟩ _ => connected_of_ne hrv (by decide)⟩⟩) ?_
  exact ⟨trivial, fun ⟨⟩ _ => ⟨fun _ => by decide, fun h => absurd rfl h⟩⟩

theorem keeps_dccsListen : Keeps dccsListen {} (Connected .server) := by
  refine keeps_orElse (fun rv hrv => connected_of_ne hrv (by decide)) ?_
  refine keeps_orElse (fun rv hrv => ⟨trivial, fun ⟨⟩ _ => connected_of_ne hrv (by decide)⟩) ?_
  refine keeps_orElse
    (fun rv hrv => ⟨trivial, fun ⟨⟩ _ => ⟨trivial, fun ⟨⟩ _ => connected_of_ne hrv (by decide)⟩⟩) ?_
  refine keeps_orElse
    (fun rv hrv => ⟨trivial, fun ⟨⟩ _ => ⟨trivial, fun ⟨⟩ _ => connected_of_ne hrv (by decide)⟩⟩) ?_
  refine keeps_orElse (fun rv hrv => ⟨trivial, fun ⟨⟩ _ => ⟨trivial, fun ⟨⟩ _ => ⟨trivial, fun ⟨⟩ _ =>
    connected_of_ne hrv (by decide)⟩⟩⟩) ?_
  exact ⟨trivial, fun ⟨⟩ _ => ⟨fun _ => by decide, fun h => absurd rfl h⟩⟩

theorem keeps_connect (params : DccsParameters) :
    Keeps (connect params) {} (Connected (roleOf params)) := by
  unfold connect
  cases roleOf params with
  | client => exact keeps_dccsConnect params.tos
  | server => exact keeps_dccsListen

/-! ## The request buffers -/

/-- The block of a group, if it was granted. -/
def blockOf : Option (Ptr × List UInt8) → Multiset Resource
  | some (p, _) => {.heap p}
  | none => 0

def regionOf : Option Mr → Multiset Resource
  | some mr => {.region mr}
  | none => 0

def holdings : List Grant → Multiset Resource
  | [] => 0
  | g :: gs => regionOf g.mr + (blockOf g.buf + holdings gs)

theorem holdings_append (gs : List Grant) (g : Grant) :
    holdings (gs ++ [g]) = regionOf g.mr + (blockOf g.buf + holdings gs) := by
  induction gs with
  | nil => rfl
  | cons g' gs ih =>
    simp only [List.cons_append, holdings, ih]
    ac_rfl

/-- The first request of every group leads to what the group holds. -/
structure Owns (params : DccsParameters) (gs : List Grant) (requests : List DccsRequest) :
    Prop where
  length : gs.length = params.mrCount
  notNull : ∀ g ∈ gs, ∀ p bytes, g.buf = some (p, bytes) → p ≠ .null
  first : ∀ (j : Nat) (g : Grant), gs[j]? = some g →
    (reqAt requests (j * countPerMr params)).mr = g.mr ∧
      (reqAt requests (j * countPerMr params)).buf = g.base

section buffers
variable {params : DccsParameters} {requests requests' : List DccsRequest} {gs : List Grant} {w : Ledger}

theorem Owns.of_same (h : Owns params gs requests) (hs : SameBuffers requests requests') :
    Owns params gs requests' where
  length := h.length
  notNull := h.notNull
  first j g hj := by
    obtain ⟨hmr, hbuf⟩ := h.first j g hj
    obtain ⟨-, -, hmr', hbuf'⟩ := hs.same (j * countPerMr params)
    exact ⟨hmr'.trans hmr, hbuf'.trans hbuf⟩

theorem keeps_allocateGroup : Keeps (allocateGroup params) w fun g w' =>
    (∀ p bytes, g.buf = some (p, bytes) → p ≠ .null) ∧
      w' = { w with held := regionOf g.mr + (blockOf g.buf + w.held) } := by
  refine safe_bind.2 ⟨trivial, fun buf hbuf => ?_⟩
  refine safe_bind.2 (quiet_ledger.dccsRegMr trivial fun mr _ => ⟨?_, ?_⟩)
  · rintro p bytes hp
    have hp : buf = some (p, bytes) := hp
    rw [hp] at hbuf
    exact hbuf
  · cases buf with
    | none =>
      cases mr with
      | none =>
        show w = { w with held := 0 + (0 + w.held) }
        rw [zero_add, zero_add]
      | some mr =>
        show w.acquire (.region mr) = { w with held := {.region mr} + (0 + w.held) }
        rw [zero_add]
        rfl
    | some x =>
      cases mr with
      | none =>
        show w.acquire (.heap x.1) = { w with held := 0 + ({.heap x.1} + w.held) }
        rw [zero_add]
        rfl
      | some mr => rfl

theorem keeps_deallocateGroup {request : DccsRequest} {g : Grant} {rest : Multiset Resource}
    (hmr : request.mr = g.mr) (hbuf : request.buf = g.base)
    (hnull : ∀ p bytes, g.buf = some (p, bytes) → p ≠ .null) :
    Keeps (deallocateGroup request) { w with held := regionOf g.mr + (blockOf g.buf + rest) }
      fun _ w' => w' = { w with held := rest } := by
  rw [deallocateGroup, hmr, hbuf]
  cases hg : g.mr with
  | none => trivial
  | some mr =>
    refine safe_bind.2 ⟨trivial, fun u _ => ⟨trivial, fun u' _ => ?_⟩⟩
    show Ledger.upd (Ledger.release { w with held := .region mr ::ₘ (blockOf g.buf + rest) }
      (.region mr)) (.free g.base) u' = _
    rw [Ledger.release_cons]
    cases hb : g.buf with
    | none =>
      have hbase : g.base = .null := by rw [Grant.base, hb]; rfl
      rw [hbase]
      show ({ w with held := 0 + rest } : Ledger) = { w with held := rest }
      rw [zero_add]
    | some x =>
      obtain ⟨p, bytes⟩ := x
      have hbase : g.base = p := by rw [Grant.base, hb]; rfl
      rw [hbase]
      show (if p = .null then _ else Ledger.release { w with held := .heap p ::ₘ rest } (.heap p)) = _
      rw [if_neg (hnull p bytes hb), Ledger.release_cons]

theorem keeps_allocateBuffer (h : Accepted params) (hlen : requests.length = params.count) :
    Keeps (allocateBuffer requests params) w fun r w' =>
      r.1 = 0 ∧ ∃ gs, Owns params gs r.2 ∧ w' = { w with held := holdings gs + w.held } := by
  let I : List Grant → Ledger → Prop := fun gs w' =>
    (∀ g ∈ gs, ∀ p bytes, g.buf = some (p, bytes) → p ≠ .null) ∧
      w' = { w with held := holdings gs + w.held }
  have h0 : I [] w := ⟨by simp, by rw [holdings, zero_add]⟩
  refine Safe.mono (safe_allocateBuffer h hlen I h0 fun gs t _ hI => ?_) ?_
  · obtain ⟨hnull, rfl⟩ := hI
    refine Safe.mono keeps_allocateGroup ?_
    rintro g w' ⟨hg, rfl⟩
    refine ⟨fun g' hg' => ?_, ?_⟩
    · rcases List.mem_append.1 hg' with hg' | hg'
      · exact hnull g' hg'
      · rw [List.mem_singleton.1 hg']
        exact hg
    · rw [holdings_append, add_assoc, add_assoc]
  · rintro ⟨rv, requests'⟩ w' ⟨hrv, gs, hgs, ⟨hnull, hw⟩, hfilled⟩
    refine ⟨hrv, gs, ⟨hgs, hnull, fun j g hj => ?_⟩, hw⟩
    have hjlt : j < params.mrCount := by
      rw [← hgs]
      exact (List.getElem?_eq_some_iff.1 hj).1
    obtain ⟨g', hg', hfirst⟩ := hfilled.first h hjlt
    obtain rfl := Option.some.inj (hj.symm.trans hg')
    exact hfirst

theorem keeps_deallocateBuffer (h : Accepted params) (ho : Owns params gs requests)
    {rest : Multiset Resource} :
    Keeps (deallocateBuffer requests params) { w with held := holdings gs + rest } fun _ w' =>
      w' = { w with held := rest } := by
  let I : Nat → Ledger → Prop := fun n w' => w' = { w with held := holdings (gs.drop n) + rest }
  have h0 : I 0 { w with held := holdings gs + rest } := rfl
  refine Safe.mono (safe_deallocateBuffer h I h0 fun j t hj hI => ?_) ?_
  · have hI : t = { w with held := holdings (gs.drop j) + rest } := hI
    subst hI
    have hjlt : j < gs.length := by
      rw [ho.length]
      exact hj
    obtain ⟨hmr, hbuf⟩ := ho.first j gs[j] (List.getElem?_eq_getElem hjlt)
    rw [List.drop_eq_getElem_cons hjlt, holdings, add_assoc, add_assoc]
    exact keeps_deallocateGroup hmr hbuf (ho.notNull _ (List.getElem_mem hjlt))
  · rintro _ w' hI
    have hI : w' = { w with held := holdings (gs.drop params.mrCount) + rest } := hI
    rw [hI, ← ho.length, List.drop_length, holdings, zero_add]

end buffers

/-! ## The exchange and the end message -/

section messages
variable {α : Type} {w : Ledger}

theorem keeps_outFreeBuf {p var : Ptr} {rv : Int} (hp : p ≠ .null) :
    Keeps (MrInfo.outFreeBuf p var rv) (w.acquire (.heap p)) fun _ w' => w' = w := by
  refine safe_bind.2 ⟨trivial, fun u _ => safe_bind.2 ⟨trivial, fun u' _ => ?_⟩⟩
  show (if p = .null then w.acquire (.heap p) else (w.acquire (.heap p)).release (.heap p)) = w
  rw [if_neg hp, Ledger.release_acquire]

theorem keeps_outDeregMrCount {p var : Ptr} {mrCount : Mr} {rv : Int} (hp : p ≠ .null) :
    Keeps (MrInfo.outDeregMrCount (some mrCount) p var rv)
      ((w.acquire (.heap p)).acquire (.region mrCount)) fun _ w' => w' = w := by
  refine ⟨trivial, fun u _ => ?_⟩
  show Keeps (MrInfo.outFreeBuf p var rv) (Ledger.release (Ledger.acquire _ _) _) _
  rw [Ledger.release_acquire]
  exact keeps_outFreeBuf hp

theorem keeps_failure {p var : Ptr} {mrCount mrArray : Mr} {rv : Int} (hp : p ≠ .null) :
    Keeps (MrInfo.failure (some mrArray) (some mrCount) p var rv)
      (((w.acquire (.heap p)).acquire (.region mrCount)).acquire (.region mrArray))
      fun _ w' => w' = w := by
  refine ⟨trivial, fun u _ => ?_⟩
  show Keeps (MrInfo.outDeregMrCount (some mrCount) p var rv) (Ledger.release (Ledger.acquire _ _) _) _
  rw [Ledger.release_acquire]
  exact keeps_outDeregMrCount hp

/-- A call that acquires nothing, in between. -/
theorem keeps_bind {β : Type} {p : VProg α} {f : α → VProg β} {Q : β → Ledger → Prop}
    (hp : Calls AcquiresNothing p) (hf : ∀ a, Keeps (f a) w Q) : Keeps (p >>= f) w Q := by
  refine (keeps_of_calls hp w).bind fun a w' hw => ?_
  subst hw
  exact hf a

/-- The region of a message, or the way out. -/
theorem keeps_dccsRegMr {access : Access} {p : Ptr} {len : Nat} {f : Option Mr → VProg α}
    {Q : α → Ledger → Prop} (hnone : Keeps (f none) w Q)
    (hsome : ∀ mr, Keeps (f (some mr)) (w.acquire (.region mr)) Q) :
    Keeps (dccsRegMr access p len >>= f) w Q := by
  refine safe_bind.2 (quiet_ledger.dccsRegMr trivial fun mr _ => ?_)
  cases mr with
  | none => exact hnone
  | some mr => exact hsome mr

theorem keeps_getRemoteMrInfo (o : ByteOrder) (requests : List DccsRequest) (count : Nat) :
    Keeps (getRemoteMrInfo o requests count) w fun _ w' => w' = w := by
  refine safe_bind.2 ⟨trivial, fun mrInfos hp => ?_⟩
  cases mrInfos with
  | none => trivial
  | some mrInfos =>
    have hp : mrInfos ≠ .null := hp
    refine safe_bind.2 ⟨trivial, fun var _ => ?_⟩
    refine keeps_dccsRegMr (Safe.bind (keeps_outFreeBuf hp) fun _ _ h => h) fun mrCount => ?_
    refine keeps_dccsRegMr (Safe.bind (keeps_outDeregMrCount hp) fun _ _ h => h) fun mrArray => ?_
    have hfail : ∀ (rv : Int) (requests : List DccsRequest),
        Keeps ((·, requests) <$> MrInfo.failure (some mrArray) (some mrCount) mrInfos var rv)
          (((w.acquire (.heap mrInfos)).acquire (.region mrCount)).acquire (.region mrArray))
            fun _ w' => w' = w :=
      fun rv requests => Safe.bind (keeps_failure hp) fun _ _ h => h
    refine keeps_bind (acquires_receives.recvStep _ _ _ _ _) fun r =>
      safe_ite.2 ⟨fun _ => hfail _ _, fun _ => ?_⟩
    refine safe_bind.2 (safe_bind.2 ⟨trivial, fun data _ => safe_ite.2 ⟨fun _ => ?_, fun _ => ?_⟩⟩)
    · exact safe_bind.2 ⟨trivial, fun u _ => hfail _ _⟩
    · refine keeps_bind (acquires_receives.recvStep _ _ _ _ _) fun r =>
        safe_ite.2 ⟨fun _ => hfail _ _, fun _ => ?_⟩
      refine safe_ite.2 ⟨fun _ => trivial, fun _ => safe_bind.2 ⟨trivial, fun infos _ => ?_⟩⟩
      exact hfail _ _

theorem keeps_sendLocalMrInfo (o : ByteOrder) (requests : List DccsRequest) (count : Nat) :
    Keeps (sendLocalMrInfo o requests count) w fun _ w' => w' = w := by
  refine safe_ite.2 ⟨fun _ => trivial, fun _ => ?_⟩
  cases localMrInfos o requests count with
  | none => trivial
  | some bytes =>
    refine safe_bind.2 ⟨trivial, fun mrInfos hp => ?_⟩
    cases mrInfos with
    | none => trivial
    | some mrInfos =>
      have hp : mrInfos ≠ .null := hp
      refine safe_bind.2 ⟨trivial, fun var _ => ?_⟩
      refine keeps_dccsRegMr (keeps_outFreeBuf hp) fun mrCount => ?_
      refine keeps_dccsRegMr (keeps_outDeregMrCount hp) fun mrArray => ?_
      refine keeps_bind (acquires_sends.sendStep _ _ _ _ _) fun r =>
        safe_ite.2 ⟨fun _ => keeps_failure hp, fun _ => ?_⟩
      exact keeps_bind (acquires_sends.sendStep _ _ _ _ _) fun r => keeps_failure hp

theorem keeps_exchangeMrInfo (o : ByteOrder) (requests : List DccsRequest) (params : DccsParameters) :
    Keeps (exchangeMrInfo o requests params) w fun r w' => w' = w ∧ SameBuffers requests r.2 := by
  refine Safe.and ?_ ?_
  · refine safe_ite.2 ⟨fun _ => ?_, fun _ => rfl⟩
    cases roleOf params with
    | client =>
      refine Safe.bind (keeps_getRemoteMrInfo o requests params.count) fun r w' hw => ?_
      exact safe_ite.2 ⟨fun _ => safe_bind.2 ⟨trivial, fun _ _ => hw⟩, fun _ => hw⟩
    | server =>
      refine Safe.bind (keeps_sendLocalMrInfo o requests params.count) fun rv w' hw => ?_
      exact safe_ite.2 ⟨fun _ => safe_bind.2 ⟨trivial, fun _ _ => hw⟩, fun _ => hw⟩
  · refine safe_ite.2 ⟨fun _ => ?_, fun _ => SameBuffers.refl requests⟩
    cases roleOf params with
    | client =>
      refine Safe.bind (same_getRemoteMrInfo trivial o params.count) fun r w' hs => ?_
      exact safe_ite.2 ⟨fun _ => anyhow_bind trivial fun _ _ => hs, fun _ => hs⟩
    | server =>
      refine anyhow_bind trivial fun rv w' =>
        safe_ite.2 ⟨fun _ => ?_, fun _ => SameBuffers.refl requests⟩
      exact anyhow_bind trivial fun _ _ => SameBuffers.refl requests

theorem keeps_rounds (requests : List DccsRequest) (params : DccsParameters) :
    Keeps (rounds requests params) w fun requests' w' => w' = w ∧
      SameBuffers requests requests' := by
  refine Safe.and (keeps_of_calls (calls_rounds acquires_sends acquires_receives
    (fun _ _ => trivial) requests params) w) ?_
  unfold rounds
  cases roleOf params with
  | client =>
    refine safe_forN (fun _ requests' _ => SameBuffers requests requests') (.refl requests)
      fun n requests' w' _ hs => ?_
    refine Safe.bind (same_sendAndWaitRequests trivial params) fun r w' hs' =>
      safe_ite.2 ⟨fun _ => ?_, fun _ => ?_⟩
    · exact anyhow_bind trivial fun _ _ => anyhow_bind trivial fun _ _ => hs.trans hs'
    · exact anyhow_bind trivial fun _ _ => hs.trans hs'
  | server =>
    refine safe_forN (fun _ requests' _ => SameBuffers requests requests') (.refl requests)
      fun n requests' w' _ hs => ?_
    unfold serverRound
    cases params.verb with
    | Read | Write | None => exact hs
    | Send =>
      refine anyhow_bind trivial fun rv w' => safe_ite.2 ⟨fun _ => ?_, fun _ => hs⟩
      exact anyhow_bind trivial fun _ _ => hs

/-- The region of a single message is given back, whether it went through or not. -/
theorem keeps_sendMessage (buf : Ptr) (len : Nat) :
    Keeps (sendMessage buf len) w fun _ w' => w' = w := by
  refine keeps_dccsRegMr rfl fun mr => keeps_bind (acquires_sends.sendStep _ _ _ _ _) fun r =>
    ⟨trivial, fun u _ => ?_⟩
  exact Ledger.release_acquire w _

theorem keeps_recvMessage (buf : Ptr) (len : Nat) :
    Keeps (recvMessage buf len) w fun _ w' => w' = w := by
  refine keeps_dccsRegMr rfl fun mr => keeps_bind (acquires_receives.recvStep _ _ _ _ _) fun r =>
    ⟨trivial, fun u _ => ?_⟩
  exact Ledger.release_acquire w _

theorem keeps_endMessage (params : DccsParameters) :
    Keeps (endMessage params) w fun _ w' => w' = w := by
  unfold endMessage
  cases roleOf params with
  | client =>
    refine safe_bind.2 ⟨trivial, fun buf _ => Safe.bind (keeps_sendMessage buf _)
      fun rv w' hw => ?_⟩
    refine safe_ite.2 ⟨fun _ => ?_, fun _ => safe_bind.2 ⟨trivial, fun _ _ => hw⟩⟩
    exact safe_bind.2 ⟨trivial, fun _ _ => safe_bind.2 ⟨trivial, fun _ _ => hw⟩⟩
  | server =>
    refine safe_bind.2 ⟨trivial, fun buf _ => Safe.bind (keeps_recvMessage buf _)
      fun rv w' hw => ?_⟩
    refine safe_ite.2 ⟨fun _ => ?_, fun _ => safe_bind.2 ⟨trivial, fun _ _ => hw⟩⟩
    exact safe_bind.2 ⟨trivial, fun _ _ => safe_bind.2 ⟨trivial, fun _ _ => hw⟩⟩

end messages

/-! ## The whole run -/

/-- What is held where the first part of `run` is left. -/
def LeftWith (params : DccsParameters) (exit : Exit) (w : Ledger) : Prop := match exit with
  | .end_ _ => w.Settled ↔ w.tosRefused = false
  | .outDisconnect _ => w = { held := endpoints (roleOf params) }
  | .outDeallocateBuffer requests _ | .ended requests _ =>
    ∃ gs, Owns params gs requests ∧ w = { held := holdings gs + endpoints (roleOf params) }

theorem keeps_untilEnd (o : ByteOrder) {params : DccsParameters} (h : Accepted params) :
    Keeps (untilEnd o params) {} (LeftWith params) := by
  refine Safe.bind (keeps_connect params) fun rv w hw =>
    safe_ite.2 ⟨fun hrv => hw.failed hrv, fun hrv => ?_⟩
  obtain rfl := hw.ok (not_not.1 hrv)
  refine safe_ite.2 ⟨fun _ => trivial, fun _ => ?_⟩
  refine Safe.bind (keeps_allocateBuffer h (by simp)) fun r w hr => ?_
  obtain ⟨hrv, gs, howns, rfl⟩ := hr
  refine safe_ite.2 ⟨fun hne => absurd hrv hne, fun _ => ?_⟩
  refine Safe.bind (keeps_exchangeMrInfo o r.2 params) fun r' w hr' => ?_
  obtain ⟨rfl, hsame⟩ := hr'
  have howns := howns.of_same hsame
  refine safe_ite.2 ⟨fun _ => ⟨gs, howns, rfl⟩, fun _ => ?_⟩
  refine Safe.bind (keeps_rounds r'.2 params) fun requests w hr => ?_
  obtain ⟨rfl, hsame⟩ := hr
  have howns := howns.of_same hsame
  refine Safe.bind (keeps_endMessage params) fun rv w hw => ?_
  subst hw
  exact safe_ite.2 ⟨fun _ => ⟨gs, howns, rfl⟩, fun _ => ⟨gs, howns, rfl⟩⟩

/-- Disconnecting gives the endpoints back. -/
theorem keeps_outDisconnect (params : DccsParameters) (rv : Int) :
    Keeps (outDisconnect params rv) { held := endpoints (roleOf params) } fun _ w => w = {} := by
  have hclient : Ledger.release { held := endpoints .client } (.ep .id) = {} := by decide
  have hserver : Ledger.release (Ledger.release { held := endpoints .server } (.ep .id))
    (.ep .listenId) = {} := by decide
  unfold outDisconnect
  cases roleOf params with
  | client => exact ⟨trivial, fun ⟨⟩ _ => ⟨trivial, fun ⟨⟩ _ => hclient⟩⟩
  | server => exact ⟨trivial, fun ⟨⟩ _ => ⟨trivial, fun ⟨⟩ _ => ⟨trivial, fun ⟨⟩ _ => hserver⟩⟩⟩

theorem keeps_outDeallocateBuffer {params : DccsParameters} (h : Accepted params)
    {requests : List DccsRequest} {gs : List Grant} (ho : Owns params gs requests) (rv : Int) :
    Keeps (outDeallocateBuffer requests params rv)
      { held := holdings gs + endpoints (roleOf params) } fun _ w => w = {} := by
  refine Safe.bind (keeps_deallocateBuffer (w := {}) h ho) fun _ w hw => ?_
  subst hw
  exact keeps_outDisconnect params rv

/-- Every label goes on to the end with what is held there. -/
theorem keeps_finish {params : DccsParameters} (h : Accepted params) {exit : Exit} {w : Ledger}
    (hw : LeftWith params exit w) :
    Keeps (finish params exit) w fun _ w' => w'.Settled ↔ w'.tosRefused = false := by
  have hempty : ∀ w' : Ledger, w' = {} → (w'.Settled ↔ w'.tosRefused = false) := by
    rintro _ rfl
    decide
  cases exit with
  | end_ rv => exact hw
  | outDisconnect rv =>
    have hw : w = { held := endpoints (roleOf params) } := hw
    subst hw
    exact (keeps_outDisconnect params rv).mono fun _ w' => hempty w'
  | outDeallocateBuffer requests rv =>
    obtain ⟨gs, ho, rfl⟩ := hw
    exact (keeps_outDeallocateBuffer h ho rv).mono fun _ w' => hempty w'
  | ended requests rv =>
    obtain ⟨gs, ho, rfl⟩ := hw
    refine keeps_bind (calls_printSha1sum (fun _ _ => trivial) (fun _ _ _ => trivial)
      (fun _ => trivial) _ _) fun _ => ?_
    exact (keeps_outDeallocateBuffer h ho rv).mono fun _ w' => hempty w'

/-- **Resource ledger.** When `run` returns, everything is released exactly once and nothing else
is, unless `rdma_set_option` failed: then, and only then, something is left. -/
theorem run_settled_iff (o : ByteOrder) {params : DccsParameters} (h : Accepted params) {rv : Int}
    {w : Ledger} (hret : Reach ledger (run o params) {} (.ret rv) w) :
    w.Settled ↔ w.tosRefused = false := by
  have hsafe : Keeps (run o params) {} fun _ w => w.Settled ↔ w.tosRefused = false :=
    Safe.bind (keeps_untilEnd o h) fun exit w hw => keeps_finish h hw
  exact hsafe.reach hret

/-- Everything is granted but a block on the heap when `full` resources are held. -/
def grants (full : Nat) (w : Ledger) : (op : VOp) → op.Ans
  | .cm _ => (0 : Int)
  | .malloc _ => if w.held.card = full then none else some ⟨none, w.held.card + 1⟩
  | .mallocRandom size => some (⟨none, w.held.card + 1⟩, List.replicate size 0)
  | .regMr .. => some ⟨w.held.card, 0⟩
  | .postSend _ | .postRecv _ => (0 : Int)
  | .pollSend _ | .pollRecv => .got .good []
  | .load .. => ByteOrder.little.bytes 8 4
  | .stackVar _ => ⟨none, 1⟩
  | .getCycles => (0 : UInt64)
  | .waitUntil _ => ([], 0)
  | .cmRelease _ | .leave _ | .free _ | .deregMr _ | .store .. | .logError _ | .report ..
  | .logDigest .. => ()

theorem grants_adm (full : Nat) (w : Ledger) (op : VOp) : ledger.adm w op (grants full w op) := by
  cases op with
  | malloc bytes =>
    show NotNull (.malloc bytes) (if w.held.card = full then none else some ⟨none, w.held.card + 1⟩)
    split
    · trivial
    · exact fun he => nomatch he
  | mallocRandom size => exact fun he => nomatch he
  | _ => trivial

/-- Two regions, the blocks of the exchange and the end message: all of it is acquired, and given
back. -/
theorem run_settled_iff_fourWrites :
    ∃ w, Reach ledger (run .little fourWrites) {} (.ret 1) w ∧ (w.Settled ↔ w.tosRefused = false) := by
  have hrun : (play ledger (grants 100) (run .little fourWrites) {}).any
      (fun r => decide (r.1 = 1)) = true := by decide +kernel
  obtain ⟨rv, w, hreach, hcheck⟩ := exists_reach_of_play (grants_adm 100) hrun
  obtain rfl : rv = 1 := of_decide_eq_true hcheck
  exact ⟨w, hreach, run_settled_iff .little accepted_fourWrites hreach⟩

/-- The address is found, the endpoint created, and the TOS option refused: the endpoint stays. -/
theorem run_settled_counterexample : Accepted oneSend ∧
    ¬ ∀ rv w, Reach ledger (run .little oneSend) {} (.ret rv) w → w.Settled := by
  refine ⟨accepted_oneSend, fun hall => ?_⟩
  have hret : Reach ledger (run .little oneSend) {} (.ret (-1)) { held := {.ep .id}, tosRefused := true } :=
    .call (0 : Int) trivial
      (.call (0 : Int) trivial (.call (-1 : Int) trivial (.call () trivial (.call () trivial (.refl _ _)))))
  exact absurd (hall _ _ hret) (by decide)

end RdmaOpera.RdmaExec
