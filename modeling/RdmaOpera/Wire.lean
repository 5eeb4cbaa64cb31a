import RdmaOpera.Lib.Bytes
import RdmaOpera.Parameters

/-!
# What travels in the exchange of memory regions

| here | there |
| --- | --- |
| `htonll`, `htonl`      | `dccs_rdma.h:19-27`, and the C library's `htonl`; each is its own inverse |
| `mrInfoBytes`          | a `struct dccs_mr_info` in memory (`dccs_parameters.h:18-21`), its padding zeroed by `memset` |
| `localMrInfos`         | the loop that fills `mr_infos` (`dccs_rdma.h:492-497`) |
| `storeMrInfos`         | the loop that reads `mr_infos` (`dccs_rdma.h:447-452`) |
-/

namespace RdmaOpera

open Lib

variable (o : ByteOrder)

def bswap64 (x : UInt64) : UInt64 := UInt64.ofNat (ByteOrder.big.nat (leBytes 8 x.toNat))
def bswap32 (x : UInt32) : UInt32 := UInt32.ofNat (ByteOrder.big.nat (leBytes 4 x.toNat))

def htonll (x : UInt64) : UInt64 := match o with
  | .little => bswap64 x
  | .big => x

def htonl (x : UInt32) : UInt32 := match o with
  | .little => bswap32 x
  | .big => x

/-- In memory, a converted address is in network order whatever the host is. -/
theorem bytes_htonll (x : UInt64) :
    o.bytes 8 (htonll o x).toNat = ByteOrder.big.bytes 8 x.toNat := by
  cases o with
  | big => rfl
  | little =>
    have hlen : (leBytes 8 x.toNat).reverse.length = 8 := by simp
    have hlt := leNat_lt (leBytes 8 x.toNat).reverse
    have hback := leBytes_leNat (leBytes 8 x.toNat).reverse
    rw [hlen] at hlt hback
    simp only [ByteOrder.bytes, htonll, bswap64, ByteOrder.nat, UInt64.toNat_ofNat']
    rw [Nat.mod_eq_of_lt (show _ < 2 ^ 64 from hlt), hback]

theorem bytes_htonl (x : UInt32) : o.bytes 4 (htonl o x).toNat = ByteOrder.big.bytes 4 x.toNat := by
  cases o with
  | big => rfl
  | little =>
    have hlen : (leBytes 4 x.toNat).reverse.length = 4 := by simp
    have hlt := leNat_lt (leBytes 4 x.toNat).reverse
    have hback := leBytes_leNat (leBytes 4 x.toNat).reverse
    rw [hlen] at hlt hback
    simp only [ByteOrder.bytes, htonl, bswap32, ByteOrder.nat, UInt32.toNat_ofNat']
    rw [Nat.mod_eq_of_lt (show _ < 2 ^ 32 from hlt), hback]

/-- Reading a stored `uint64_t` back. -/
theorem ofNat_nat_bytes64 (x : UInt64) : UInt64.ofNat (o.nat (o.bytes 8 x.toNat)) = x := by
  rw [ByteOrder.nat_bytes, Nat.mod_eq_of_lt (show x.toNat < 256 ^ 8 from x.toNat_lt),
    UInt64.ofNat_toNat]

theorem ofNat_nat_bytes32 (x : UInt32) : UInt32.ofNat (o.nat (o.bytes 4 x.toNat)) = x := by
  rw [ByteOrder.nat_bytes, Nat.mod_eq_of_lt (show x.toNat < 256 ^ 4 from x.toNat_lt),
    UInt32.ofNat_toNat]

/-- `ntohll` undoes `htonll`. -/
theorem htonll_htonll (x : UInt64) : htonll o (htonll o x) = x := by
  cases o with
  | big => rfl
  | little =>
    have h : leBytes 8 (bswap64 x).toNat = (leBytes 8 x.toNat).reverse := bytes_htonll .little x
    have hx := ofNat_nat_bytes64 .little x
    simp only [htonll]
    rw [bswap64, h]
    simpa [ByteOrder.nat, ByteOrder.bytes] using hx

theorem htonl_htonl (x : UInt32) : htonl o (htonl o x) = x := by
  cases o with
  | big => rfl
  | little =>
    have h : leBytes 4 (bswap32 x).toNat = (leBytes 4 x.toNat).reverse := bytes_htonl .little x
    have hx := ofNat_nat_bytes32 .little x
    simp only [htonl]
    rw [bswap32, h]
    simpa [ByteOrder.nat, ByteOrder.bytes] using hx

/-! ## The array of `struct dccs_mr_info` -/

/-- `sizeof(struct dccs_mr_info)`: 8 bytes of address, 4 of key, 4 of padding. -/
def mrInfoSize : Nat := 16

def mrInfoBytes (addr : UInt64) (rkey : UInt32) : List UInt8 :=
  o.bytes 8 (htonll o addr).toNat ++ (o.bytes 4 (htonl o rkey).toNat ++ List.replicate 4 0)

@[simp] theorem length_mrInfoBytes (addr : UInt64) (rkey : UInt32) :
    (mrInfoBytes o addr rkey).length = mrInfoSize := by
  simp [mrInfoBytes, mrInfoSize]

/-- One turn of the filling loop; a null `mr` is dereferenced. -/
def localMrInfo (request : DccsRequest) : Option (List UInt8) :=
  request.mr.map fun mr => mrInfoBytes o (UInt64.ofNat request.buf.addr) mr.rkey

/-- The contents of `mr_infos` after the loop, unless the loop crashes. -/
def localMrInfos (requests : List DccsRequest) (count : Nat) : Option (List UInt8) :=
  if ∀ n < count, (reqAt requests n).mr.isSome then
    some ((List.range count).flatMap fun n => (localMrInfo o (reqAt requests n)).getD [])
  else none

/-- One turn of the reading loop, on the record at `mr_infos + n`. -/
def storeMrInfo (mrInfos : List UInt8) (n : Nat) (request : DccsRequest) : DccsRequest :=
  { request with
    remoteAddr := htonll o (UInt64.ofNat (o.nat (slice (mrInfoSize * n) 8 mrInfos)))
    remoteRkey := htonl o (UInt32.ofNat (o.nat (slice (mrInfoSize * n + 8) 4 mrInfos))) }

def storeMrInfos (mrInfos : List UInt8) (requests : List DccsRequest) (count : Nat) :
    List DccsRequest :=
  requests.mapIdx fun n request => if n < count then storeMrInfo o mrInfos n request else request

theorem localMrInfos_some {requests : List DccsRequest} {count : Nat} {bytes : List UInt8}
    (h : localMrInfos o requests count = some bytes) :
    bytes.length = mrInfoSize * count ∧ ∀ n < count, ∃ mr, (reqAt requests n).mr = some mr ∧
      slice (mrInfoSize * n) mrInfoSize bytes =
        mrInfoBytes o (UInt64.ofNat (reqAt requests n).buf.addr) mr.rkey := by
  unfold localMrInfos at h
  split at h
  · rename_i hall
    cases h
    have hlen : ∀ n < count, ((localMrInfo o (reqAt requests n)).getD []).length = mrInfoSize := by
      intro n hn
      obtain ⟨mr, hmr⟩ := Option.isSome_iff_exists.1 (hall n hn)
      simp [localMrInfo, hmr]
    refine ⟨length_flatMap_range hlen, fun n hn => ?_⟩
    obtain ⟨mr, hmr⟩ := Option.isSome_iff_exists.1 (hall n hn)
    refine ⟨mr, hmr, ?_⟩
    rw [slice_flatMap_range hlen hn]
    simp [localMrInfo, hmr]
  · cases h

/-- **The record round trip.** Whatever the byte orders of the two hosts, the address and the key
read from a record are those that were written. -/
theorem storeMrInfo_mrInfoBytes (o' : ByteOrder) {mrInfos : List UInt8} {n : Nat} {addr : UInt64}
    {rkey : UInt32} (h : slice (mrInfoSize * n) mrInfoSize mrInfos = mrInfoBytes o addr rkey)
    (request : DccsRequest) :
    storeMrInfo o' mrInfos n request = { request with remoteAddr := addr, remoteRkey := rkey } := by
  have haddr : slice (mrInfoSize * n) 8 mrInfos = o'.bytes 8 (htonll o' addr).toNat := by
    rw [bytes_htonll, ← bytes_htonll o, ← Nat.add_zero (mrInfoSize * n),
      ← slice_slice (show 0 + 8 ≤ mrInfoSize by decide), h]
    exact slice_append_left (by simp)
  have hrkey : slice (mrInfoSize * n + 8) 4 mrInfos = o'.bytes 4 (htonl o' rkey).toNat := by
    rw [bytes_htonl, ← bytes_htonl o, ← slice_slice (show 8 + 4 ≤ mrInfoSize by decide), h]
    rw [mrInfoBytes, slice_append_right (by simp), slice_append_left (by simp)]
  simp only [storeMrInfo, haddr, hrkey, ofNat_nat_bytes64, ofNat_nat_bytes32,
    htonll_htonll, htonl_htonl]

end RdmaOpera
