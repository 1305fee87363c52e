import CLibrary.Packet.Transport

/-!
The addresses of a packet.

* `ipCompare`: `ip_compare`, for both its word sizes; `ipCompare_eq_iff` is when it
  says that two addresses are equal.
* `Addresses`, `Call.addresses`: the version and the addresses, and what a header
  makes of them.  `result_addresses`: they follow the headers.
* `srcLeft`, `dstLeft`: what headers leave in the bytes that IPv4 does not store.
* `Memory.shift`, `Call.shift`: the same bytes elsewhere.  `chain_shift`: behind an
  IPv6 header with the same bytes there are the same headers.
* `addresses_innermost_iff`: when the addresses are those of the innermost IP header.
* `tunnel_shows`: two packets with the same IPv4 datagram in different tunnels.
-/

namespace CLibrary

/-! ### Comparing addresses -/

/-- `IP_CODE`. -/
inductive IpCode
  | lesser | equal | greater
  deriving DecidableEq, Repr

/-- `addr8`. -/
def addr8 (a : IpAddr) (i : Fin 16) : ℕ := (a i).toNat

/-- `addr32`, on a little-endian target. -/
def addr32 (a : IpAddr) (k : Fin 4) : ℕ :=
  addr8 a ⟨4 * k.val, by omega⟩ + 2 ^ 8 * addr8 a ⟨4 * k.val + 1, by omega⟩ +
    2 ^ 16 * addr8 a ⟨4 * k.val + 2, by omega⟩ + 2 ^ 24 * addr8 a ⟨4 * k.val + 3, by omega⟩

/-- `addr64`, on a little-endian target. -/
def addr64 (a : IpAddr) (k : Fin 2) : ℕ :=
  addr32 a ⟨2 * k.val, by omega⟩ + 2 ^ 32 * addr32 a ⟨2 * k.val + 1, by omega⟩

/-- The comparisons of `ip_compare`, word by word. -/
def compareWords : List (ℕ × ℕ) → IpCode
  | [] => .equal
  | (a, b) :: words =>
      if a < b then .lesser
      else if a > b then .greater
      else compareWords words

/-- `ip_compare`, on `__x86_64__` and elsewhere. -/
def ipCompare (x86_64 : Bool) (ip1 ip2 : IpAddr) : IpCode :=
  if x86_64 then compareWords [(addr64 ip1 0, addr64 ip2 0), (addr64 ip1 1, addr64 ip2 1)]
  else compareWords [(addr32 ip1 0, addr32 ip2 0), (addr32 ip1 1, addr32 ip2 1),
    (addr32 ip1 2, addr32 ip2 2), (addr32 ip1 3, addr32 ip2 3)]

section Compare

variable {a b : IpAddr}

lemma compareWords_eq_iff (words : List (ℕ × ℕ)) :
    compareWords words = .equal ↔ ∀ w ∈ words, w.1 = w.2 := by
  induction words with
  | nil => simp [compareWords]
  | cons w words ih =>
      rw [List.forall_mem_cons, ← ih, compareWords]
      split_ifs with hlt hgt
      · exact iff_of_false (fun h => by cases h) fun h => hlt.ne h.1
      · exact iff_of_false (fun h => by cases h) fun h => hgt.ne' h.1
      · exact (and_iff_right (by omega)).symm

lemma addr8_lt (a : IpAddr) (i : Fin 16) : addr8 a i < 256 := (a i).toNat_lt

lemma addr32_lt (a : IpAddr) (k : Fin 4) : addr32 a k < 2 ^ 32 := by
  have h0 := addr8_lt a ⟨4 * k.val, by omega⟩
  have h1 := addr8_lt a ⟨4 * k.val + 1, by omega⟩
  have h2 := addr8_lt a ⟨4 * k.val + 2, by omega⟩
  have h3 := addr8_lt a ⟨4 * k.val + 3, by omega⟩
  rw [addr32]
  omega

/-- A number has one representation in base 256. -/
lemma digits_inj {x0 x1 x2 x3 y0 y1 y2 y3 : ℕ} (hx : x0 < 256 ∧ x1 < 256 ∧ x2 < 256)
    (hy : y0 < 256 ∧ y1 < 256 ∧ y2 < 256) :
    x0 + 2 ^ 8 * x1 + 2 ^ 16 * x2 + 2 ^ 24 * x3 = y0 + 2 ^ 8 * y1 + 2 ^ 16 * y2 + 2 ^ 24 * y3 ↔
      x0 = y0 ∧ x1 = y1 ∧ x2 = y2 ∧ x3 = y3 := by
  omega

/-- Words are equal if their bytes are. -/
lemma addr32_eq_iff (k : Fin 4) : addr32 a k = addr32 b k ↔
    ∀ i : Fin 16, i.val / 4 = k.val → a i = b i := by
  have hbytes : ∀ x : IpAddr, addr8 x ⟨4 * k.val, by omega⟩ < 256 ∧
      addr8 x ⟨4 * k.val + 1, by omega⟩ < 256 ∧ addr8 x ⟨4 * k.val + 2, by omega⟩ < 256 :=
    fun x => ⟨addr8_lt x _, addr8_lt x _, addr8_lt x _⟩
  rw [addr32, addr32, digits_inj (hbytes a) (hbytes b)]
  simp only [addr8, UInt8.toNat_inj]
  constructor
  · rintro ⟨h0, h1, h2, h3⟩ ⟨i, hlt⟩ hi
    dsimp only at hi
    obtain rfl | rfl | rfl | rfl : i = 4 * k.val ∨ i = 4 * k.val + 1 ∨ i = 4 * k.val + 2 ∨
      i = 4 * k.val + 3 := by omega
    · exact h0
    · exact h1
    · exact h2
    · exact h3
  · intro h
    exact ⟨h _ (by dsimp only; omega), h _ (by dsimp only; omega), h _ (by dsimp only; omega),
      h _ (by dsimp only; omega)⟩

lemma addr64_eq_iff (k : Fin 2) : addr64 a k = addr64 b k ↔
    addr32 a ⟨2 * k.val, by omega⟩ = addr32 b ⟨2 * k.val, by omega⟩ ∧
      addr32 a ⟨2 * k.val + 1, by omega⟩ = addr32 b ⟨2 * k.val + 1, by omega⟩ := by
  have ha := addr32_lt a ⟨2 * k.val, by omega⟩
  have hb := addr32_lt b ⟨2 * k.val, by omega⟩
  rw [addr64, addr64]
  omega

/-- **Equal addresses**: both word sizes compare all bytes. -/
lemma ipCompare_eq_iff (x86_64 : Bool) : ipCompare x86_64 a b = .equal ↔ a = b := by
  have hwords : (∀ k, addr32 a k = addr32 b k) ↔ a = b := by
    simp only [addr32_eq_iff]
    constructor
    · exact fun h => funext fun i => h ⟨i.val / 4, by omega⟩ i rfl
    · exact fun h k i _ => congrFun h i
  rw [← hwords, ipCompare]
  cases x86_64 with
  | true =>
      rw [if_pos rfl, compareWords_eq_iff]
      simp only [List.forall_mem_cons, List.not_mem_nil, addr64_eq_iff, Fin.forall_fin_succ]
      simp [and_assoc]
  | false =>
      rw [if_neg Bool.false_ne_true, compareWords_eq_iff]
      simp [Fin.forall_fin_succ]

end Compare

/-! ### The addresses that headers store -/

/-- The version and the addresses of a packet. -/
@[ext]
structure Addresses where
  version : ℕ
  srcaddr : IpAddr
  dstaddr : IpAddr

/-- Those of a packet from `packet_create`. -/
def Addresses.zero : Addresses := ⟨0, fun _ => 0, fun _ => 0⟩

/-- The version and the addresses of a packet. -/
def Packet.addresses (p : Packet) : Addresses := ⟨p.version, p.srcaddr, p.dstaddr⟩

namespace Call

variable (mem : Memory) (c : Call)

/-- What a header makes of the addresses. -/
def addresses (old : Addresses) : Addresses :=
  match c.decoder with
  | .ip =>
      { version := 4
        srcaddr := fun i => if i.val < 4 then mem (c.pkt + 12 + i) else old.srcaddr i
        dstaddr := fun i => if i.val < 4 then mem (c.pkt + 16 + i) else old.dstaddr i }
  | .ip6 =>
      { version := 6
        srcaddr := fun i => mem (c.pkt + 8 + i)
        dstaddr := fun i => mem (c.pkt + 24 + i) }
  | .ip6Rte =>
      { old with
        dstaddr :=
          if mem.byte (c.pkt + 3) > 0 then fun i => mem (c.pkt + c.extLen mem - 16 + i)
          else old.dstaddr }
  | _ => old

/-- A header that stores all of `dstaddr`. -/
def StoresDst : Prop := c.decoder = .ip6 ∨ c.decoder = .ip6Rte ∧ 0 < mem.byte (c.pkt + 3)

instance : Decidable (c.StoresDst mem) := inferInstanceAs (Decidable (_ ∨ _ ∧ _))

/-- Where it takes it from. -/
def dstField : ℤ := if c.decoder = .ip6 then c.pkt + 24 else c.pkt + c.extLen mem - 16

end Call

/-- What headers make of the addresses. -/
def addressesOf (mem : Memory) (l : List Call) (old : Addresses) : Addresses :=
  l.foldl (fun old h => h.addresses mem old) old

/-- The bytes of `srcaddr` behind headers of which the last IPv6 header stores them. -/
def srcLeft (mem : Memory) (l : List Call) : IpAddr :=
  (l.filter fun h => h.decoder = .ip6).getLast?.elim (fun _ => 0) fun h i => mem (h.pkt + 8 + i)

/-- The bytes of `dstaddr` behind headers of which the last that stores them is an IPv6 or
a routing header. -/
def dstLeft (mem : Memory) (l : List Call) : IpAddr :=
  (l.filter fun h => h.StoresDst mem).getLast?.elim (fun _ => 0) fun h i => mem (h.dstField mem + i)

section Addresses

variable {mem : Memory} {c d h t : Call} {p : Packet} {n : ℕ} {before l : List Call}

/-- A header stores its addresses. -/
lemma addresses_fill (h : Call) (p : Packet) :
    (h.fill mem p).addresses = h.addresses mem p.addresses := by
  cases hc : h.decoder <;>
    simp only [Packet.addresses, Call.fill, Call.fields, Call.addresses, Packet.layerIns, hc]

/-- **The addresses** follow the headers, if none is refused. -/
lemma result_addresses (hall : headers mem n c = chain (Call.nested mem) n c) (p : Packet) :
    (result mem n c p).2.addresses = addressesOf mem (headers mem n c) p.addresses := by
  refine result_field Packet.addresses (fun h old => h.addresses mem old) addresses_fill
    (fun _ _ => rfl) n c p fun d hd hrefused => ?_
  rw [← hall, headers, List.mem_filter] at hd
  exact absurd (of_decide_eq_true hd.2) hrefused

/-- The last of the headers that `q` holds of. -/
lemma getLast?_filter_concat {q : Call → Bool} (l : List Call) (h : Call) :
    ((l ++ [h]).filter q).getLast? = if q h then some h else (l.filter q).getLast? := by
  rw [List.filter_append, List.filter_singleton]
  cases q h with
  | true => exact List.getLast?_concat
  | false => rw [cond_false, List.append_nil, if_neg Bool.false_ne_true]

/-- **What is left** in the bytes behind the first four: what the last header that stores
all of them has stored. -/
lemma left_eq (mem : Memory) (l : List Call) {i : Fin 16} (hi : 4 ≤ i.val) :
    (addressesOf mem l .zero).srcaddr i = srcLeft mem l i ∧
      (addressesOf mem l .zero).dstaddr i = dstLeft mem l i := by
  induction l using List.reverseRecOn with
  | nil => exact ⟨rfl, rfl⟩
  | append_singleton l h ih =>
      have hnot : ¬ i.val < 4 := Nat.not_lt.mpr hi
      rw [srcLeft, dstLeft] at ih ⊢
      rw [addressesOf, List.foldl_append, List.foldl_cons, List.foldl_nil, ← addressesOf,
        getLast?_filter_concat, getLast?_filter_concat]
      cases hc : h.decoder with
      | ip => simp [Call.addresses, Call.StoresDst, hc, hnot, ih]
      | ip6 => simp [Call.addresses, Call.StoresDst, Call.dstField, hc]
      | ip6Rte =>
          by_cases hseg : 0 < mem.byte (h.pkt + 3)
          · simp [Call.addresses, Call.StoresDst, Call.dstField, hc, hseg, ih]
          · simp [Call.addresses, Call.StoresDst, hc, hseg, ih]
      | _ => simp [Call.addresses, Call.StoresDst, hc, ih]

end Addresses

/-! ### The same bytes elsewhere -/

/-- The bytes from `δ` on. -/
def Memory.shift (mem : Memory) (δ : ℤ) : Memory := fun a => mem (a + δ)

/-- A call `δ` bytes further on. -/
def Call.shift (c : Call) (δ : ℤ) : Call := { c with pkt := c.pkt + δ }

/-- The slices of two calls are byte-for-byte equal. -/
structure SameDatagram (mem mem' : Memory) (d d' : Call) : Prop where
  len : d'.len = d.len
  bytes : ∀ k : ℕ, k < d.len → mem' (d'.pkt + k) = mem (d.pkt + k)

section Shift

variable {mem mem' : Memory} {c d d' h : Call} {δ a : ℤ} {old : Addresses}

@[simp] lemma shift_byte : (mem.shift δ).byte a = mem.byte (a + δ) := rfl

@[simp] lemma shift_be16 : (mem.shift δ).be16 a = mem.be16 (a + δ) := by
  simp only [Memory.be16, shift_byte, add_right_comm]

/-- A header is accepted wherever its bytes are. -/
lemma accepts_shift : (c.shift δ).Accepts mem ↔ c.Accepts (mem.shift δ) := by
  cases hc : c.decoder <;>
    simp only [Call.Accepts, Call.IpAccepted, Call.ipHlen, Call.ipLen, Call.extLen, Call.shift, hc,
      shift_byte, shift_be16, add_right_comm]

/-- **A header calls** what follows it, wherever its bytes are. -/
lemma nested_shift : (c.shift δ).nested mem =
    (c.nested (mem.shift δ)).map fun d => d.shift δ := by
  have hfrag : (c.shift δ).Fragment mem ↔ c.Fragment (mem.shift δ) := by
    cases hc : c.decoder <;>
      simp only [Call.Fragment, Call.IpFragment, Call.Ip6Fragment, Call.shift, hc, shift_be16,
        add_right_comm]
  have hsize : (c.shift δ).size mem = c.size (mem.shift δ) := by
    cases hc : c.decoder <;>
      simp only [Call.size, Call.ipHlen, Call.extLen, Call.tcpHlen, Call.shift, hc, shift_byte,
        add_right_comm]
  have hfollow : (c.shift δ).follower mem = c.follower (mem.shift δ) := by
    cases hc : c.decoder <;>
      simp only [Call.follower, Call.shift, hc, shift_byte, add_right_comm]
  rw [Call.nested, Call.nested, hsize, hfollow]
  simp only [accepts_shift, hfrag]
  split_ifs
  · rw [Option.map_map]
    simp only [Call.shift, Function.comp_def, add_right_comm]
  · rfl

/-- And it stores the same addresses. -/
lemma addresses_shift : (c.shift δ).addresses mem old = c.addresses (mem.shift δ) old := by
  cases hc : c.decoder <;>
    simp only [Call.addresses, Call.extLen, Call.shift, hc, shift_byte, Memory.shift,
      add_right_comm, sub_add_eq_add_sub]

/-- In the same bytes a header other than IPv4 is the same. -/
lemma alike_same (hsame : SameBytes mem mem' c) (hin : Within c h) (hip : h.decoder ≠ .ip)
    (hacc : h.Accepts mem) : Alike mem mem' h (h.longer 0) := by
  cases hc : h.decoder with
  | ip => exact absurd hc hip
  | ip6 => exact alike_ip6 hsame hin hc hacc 0
  | ip6Rte => exact alike_ip6Rte hsame hin hc hacc 0
  | ip6Frag => exact alike_ip6Frag hsame hin hc hacc 0
  | ip6Ext => exact alike_ip6Ext hsame hin hc hacc 0
  | tcp => exact alike_tcp hsame hin hc hacc 0
  | udp => exact alike_udp hsame hin hc hacc 0

/-- Its addresses are the fields it stores. -/
lemma addresses_same (halike : Alike mem mem' h (h.longer 0)) :
    h.addresses mem' old = h.addresses mem old := by
  have hfields := halike.fields
    { (default : Packet) with
      version := old.version, srcaddr := old.srcaddr, dstaddr := old.dstaddr }
  rw [longer_zero] at hfields
  have hstored : ∀ mem, h.addresses mem old = (h.fields mem { (default : Packet) with
      version := old.version, srcaddr := old.srcaddr, dstaddr := old.dstaddr }).addresses := by
    intro mem
    cases hc : h.decoder <;> simp only [Call.addresses, Call.fields, Packet.addresses, hc]
  rw [hstored, hstored, hfields]

lemma SameDatagram.sameBytes (hsame : SameDatagram mem mem' d d') :
    SameBytes mem (mem'.shift (d'.pkt - d.pkt)) d := by
  intro a hge hlt
  have hbyte := hsame.bytes (a - d.pkt).toNat (by omega)
  have ha : ((a - d.pkt).toNat : ℤ) = a - d.pkt := Int.toNat_of_nonneg (by omega)
  rw [ha, add_sub_cancel] at hbyte
  rw [← hbyte, Memory.shift]
  congr 1
  ring

/-- **The headers of a datagram** without IPv4 headers are the same elsewhere, and store the
same addresses. -/
lemma chain_shift (hsame : SameDatagram mem mem' d d') (hdec : d'.decoder = d.decoder)
    (hlen : d.len < 2 ^ 32) (hrte : d.decoder ≠ .ip6Rte)
    (hall : ∀ m, ∀ h ∈ chain (Call.nested mem) m d, h.Accepts mem ∧ h.decoder ≠ .ip) (m : ℕ) :
    chain (Call.nested mem') m d' =
        (chain (Call.nested mem) m d).map (fun h => h.shift (d'.pkt - d.pkt)) ∧
      ∀ h ∈ chain (Call.nested mem) m d, ∀ old,
        (h.shift (d'.pkt - d.pkt)).addresses mem' old = h.addresses mem old := by
  have hbytes := hsame.sameBytes
  have hd' : d.shift (d'.pkt - d.pkt) = d' := by
    rw [Call.shift, add_sub_cancel, ← hdec, ← hsame.len]
  -- every header lies in the datagram and is followed by the same headers
  let I : Call → Prop := fun b => Within d b ∧ b.len < 2 ^ 32 ∧
    ∀ m, ∀ h ∈ chain (Call.nested mem) m b, h.Accepts mem ∧ h.decoder ≠ .ip
  have hstart : I d := ⟨⟨le_rfl, rfl, fun h => absurd h hrte⟩, hlen, hall⟩
  have hstep : ∀ b e, I b → b.nested mem = some e → I e := by
    rintro b e ⟨hin, hblen, hb⟩ he
    have helen := nested_len he hblen
    exact ⟨within_nested hin hblen he, by omega, forall_chain_next he hb⟩
  have halike : ∀ b, I b → Alike mem (mem'.shift (d'.pkt - d.pkt)) b (b.longer 0) := by
    rintro b ⟨hin, -, hb⟩
    obtain ⟨hacc, hip⟩ := hb 1 b List.mem_cons_self
    exact alike_same hbytes hin hip hacc
  constructor
  · have hmap : ∀ b, I b → (b.shift (d'.pkt - d.pkt)).nested mem' =
        (b.nested mem).map fun h => h.shift (d'.pkt - d.pkt) := by
      intro b hb
      have hnested := nested_longer (halike b hb).toLeadAlike hb.2.1
      rw [longer_zero] at hnested
      rw [nested_shift, hnested, Option.map_map]
      rfl
    have hchain := map_chain (g := fun h : Call => h.shift (d'.pkt - d.pkt)) hstart hstep hmap m
    rw [hchain, hd']
  · intro h hh old
    rw [addresses_shift]
    exact addresses_same (halike h (forall_chain hstart hstep m h hh))

/-- So they leave the same addresses. -/
lemma addressesOf_shift {l : List Call}
    (h : ∀ e ∈ l, ∀ old, (e.shift δ).addresses mem' old = e.addresses mem old) (old : Addresses) :
    addressesOf mem' (l.map fun e => e.shift δ) old = addressesOf mem l old := by
  induction l generalizing old with
  | nil => rfl
  | cons e l ih =>
      rw [List.forall_mem_cons] at h
      rw [List.map_cons, addressesOf, addressesOf, List.foldl_cons, List.foldl_cons, h.1]
      exact ih h.2 _

end Shift

/-! ### The innermost header -/

/-- The last IP header, with the headers behind it. -/
structure Innermost (d : Call) (behind : List Call) : Prop where
  ip : d.decoder = .ip ∨ d.decoder = .ip6
  behind : ∀ h ∈ behind, h.decoder ≠ .ip ∧ h.decoder ≠ .ip6

/-- The versions are equal, and `ip_compare` returns `IP_EQUAL` on both addresses. -/
def SameAddresses (x86_64 : Bool) (p p' : Packet) : Prop :=
  p.version = p'.version ∧ ipCompare x86_64 p.srcaddr p'.srcaddr = .equal ∧
    ipCompare x86_64 p.dstaddr p'.dstaddr = .equal

section Innermost

variable {mem mem' : Memory} {c d : Call} {packet : Packet} {stats : PacketStats} {n : ℕ}
  {before behind : List Call}

lemma sameAddresses_iff (x86_64 : Bool) (p p' : Packet) :
    SameAddresses x86_64 p p' ↔ p.addresses = p'.addresses := by
  rw [SameAddresses, ipCompare_eq_iff, ipCompare_eq_iff, Packet.addresses, Packet.addresses,
    Addresses.mk.injEq]

/-- The version is that of the last IP header. -/
lemma version_addressesOf (hbehind : ∀ h ∈ behind, h.decoder ≠ .ip ∧ h.decoder ≠ .ip6)
    (old : Addresses) : (addressesOf mem behind old).version = old.version := by
  induction behind generalizing old with
  | nil => rfl
  | cons h behind ih =>
      rw [List.forall_mem_cons] at hbehind
      rw [addressesOf, List.foldl_cons, ← addressesOf, ih hbehind.2]
      cases hc : h.decoder with
      | ip => exact absurd hc hbehind.1.1
      | ip6 => exact absurd hc hbehind.1.2
      | _ => simp only [Call.addresses, hc]

/-- Behind an innermost IPv4 header no addresses are stored. -/
lemma addressesOf_behind_ip (hchain : (d :: behind).IsChain fun a b => a.nested mem = some b)
    (hd : d.decoder = .ip) (hbehind : ∀ h ∈ behind, h.decoder ≠ .ip ∧ h.decoder ≠ .ip6)
    (old : Addresses) : addressesOf mem behind old = old := by
  cases behind with
  | nil => rfl
  | cons h behind =>
      rw [List.isChain_cons_cons] at hchain
      rw [List.forall_mem_cons] at hbehind
      have htransport : h.decoder = .tcp ∨ h.decoder = .udp := by
        rcases nested_of_ip hd hchain.1 with h' | h' | h' | h'
        · exact Or.inl h'
        · exact Or.inr h'
        · exact absurd h' hbehind.1.1
        · exact absurd h' hbehind.1.2
      cases behind with
      | nil =>
          rw [addressesOf, List.foldl_cons, List.foldl_nil]
          rcases htransport with hc | hc <;> simp only [Call.addresses, hc]
      | cons h' behind =>
          have hnone : h.nested mem = none := nested_eq_none htransport
          rw [List.isChain_cons_cons, hnone] at hchain
          cases hchain.2.1

/-- **The addresses of a decoding** that returns 0: those that the innermost header and
what is behind it make of what the outer ones leave. -/
lemma addresses_of_zero (hfresh : packet.addresses = .zero)
    (hret : (decode mem n c (.start packet stats)).1 = some 0)
    (hheaders : headers mem n c = before ++ d :: behind) :
    (decode mem n c (.start packet stats)).2.packet.addresses =
      addressesOf mem behind (d.addresses mem (addressesOf mem before .zero)) := by
  rw [(decode_result n c _).1]
  refine (result_addresses (headers_of_zero hret).1 packet).trans ?_
  rw [hheaders, hfresh, addressesOf, List.foldl_append, List.foldl_cons]
  rfl

/-- The headers from the innermost one on are a chain of their own. -/
lemma chain_of_zero (hret : (decode mem n c (.start packet stats)).1 = some 0)
    (hheaders : headers mem n c = before ++ d :: behind) {m : ℕ} (hm : n ≤ m) :
    chain (Call.nested mem) m d = d :: behind := by
  have hne : (decode mem n c (.start packet stats)).1 ≠ none := hret ▸ Option.some_ne_none 0
  refine @chain_of_append _ _ c d m before behind ?_
  rw [chain_of_returns hne (hm.trans (Nat.le_add_left m _)), ← (headers_of_zero hret).1, hheaders]

omit mem mem' in
/-- The four bytes that IPv4 stores, and the others. -/
lemma stored_eq_iff {f f' : ℕ → UInt8} {g g' : IpAddr} :
    ((fun i : Fin 16 => if i.val < 4 then f i.val else g i) =
        fun i => if i.val < 4 then f' i.val else g' i) ↔
      (∀ k < 4, f k = f' k) ∧ ∀ i : Fin 16, 4 ≤ i.val → g i = g' i := by
  constructor
  · intro h
    refine ⟨fun k hk => ?_, fun i hi => ?_⟩
    · have hbyte := congrFun h ⟨k, by omega⟩
      dsimp only at hbyte
      rwa [if_pos hk, if_pos hk] at hbyte
    · have hbyte := congrFun h i
      rwa [if_neg (Nat.not_lt.mpr hi), if_neg (Nat.not_lt.mpr hi)] at hbyte
  · rintro ⟨hf, hg⟩
    funext i
    split_ifs with hi
    · exact hf i.val hi
    · exact hg i (Nat.not_lt.mp hi)

/-- **An innermost IPv4 header** keeps all but four bytes of what the outer ones leave. -/
lemma addresses_of_ip (hfresh : packet.addresses = .zero)
    (hret : (decode mem n c (.start packet stats)).1 = some 0)
    (hheaders : headers mem n c = before ++ d :: behind) (hd : d.decoder = .ip)
    (hbehind : ∀ h ∈ behind, h.decoder ≠ .ip ∧ h.decoder ≠ .ip6) :
    (decode mem n c (.start packet stats)).2.packet.addresses =
      { version := 4
        srcaddr := fun i => if i.val < 4 then mem (d.pkt + 12 + i) else srcLeft mem before i
        dstaddr := fun i => if i.val < 4 then mem (d.pkt + 16 + i) else dstLeft mem before i } := by
  have hchain : (d :: behind).IsChain fun a b => a.nested mem = some b := by
    have hall := @headers_isChain mem n c
    rw [hheaders] at hall
    exact hall.right_of_append
  rw [addresses_of_zero hfresh hret hheaders, addressesOf_behind_ip hchain hd hbehind]
  simp only [Call.addresses, hd, Addresses.mk.injEq, true_and]
  constructor
  · funext i
    split_ifs with hi
    · rfl
    · exact (left_eq mem before (Nat.not_lt.mp hi)).1
  · funext i
    split_ifs with hi
    · rfl
    · exact (left_eq mem before (Nat.not_lt.mp hi)).2

/-- **Innermost IPv6 headers** with the same bytes store the same addresses. -/
lemma addresses_of_ip6 {c' d' : Call} {packet' : Packet} {stats' : PacketStats} {n' : ℕ}
    {before' behind' : List Call} (hlen : c.len < 2 ^ 32) (hfresh : packet.addresses = .zero)
    (hfresh' : packet'.addresses = .zero)
    (hret : (decode mem n c (.start packet stats)).1 = some 0)
    (hret' : (decode mem' n' c' (.start packet' stats')).1 = some 0)
    (hheaders : headers mem n c = before ++ d :: behind)
    (hheaders' : headers mem' n' c' = before' ++ d' :: behind')
    (hbehind : ∀ h ∈ behind, h.decoder ≠ .ip ∧ h.decoder ≠ .ip6) (hd : d.decoder = .ip6)
    (hdec : d'.decoder = d.decoder) (hsame : SameDatagram mem mem' d d') :
    (decode mem n c (.start packet stats)).2.packet.addresses =
      (decode mem' n' c' (.start packet' stats')).2.packet.addresses := by
  have hmem : d ∈ chain (Call.nested mem) n c := by
    rw [← (headers_of_zero hret).1, hheaders]
    exact List.mem_append_right _ List.mem_cons_self
  have hall : ∀ m, ∀ h ∈ chain (Call.nested mem) m d, h.Accepts mem ∧ h.decoder ≠ .ip := by
    intro m h hh
    have hh' := (chain_initial d (Nat.le_add_left m n)).subset hh
    rw [chain_of_zero hret hheaders (Nat.le_add_right n m)] at hh'
    have hin : h ∈ chain (Call.nested mem) n c := by
      rw [← (headers_of_zero hret).1, hheaders]
      exact List.mem_append_right _ hh'
    refine ⟨accepts_of_zero hret n h hin, ?_⟩
    rcases List.mem_cons.mp hh' with rfl | hh'
    · rw [hd]
      decide
    · exact (hbehind h hh').1
  obtain ⟨hchain, hstores⟩ := chain_shift hsame hdec (chain_len_lt hlen n d hmem)
    (by rw [hd]; decide) hall (n + n')
  rw [chain_of_zero hret hheaders (Nat.le_add_right n n')] at hchain hstores
  rw [chain_of_zero hret' hheaders' (Nat.le_add_left n' n), List.map_cons,
    List.cons_eq_cons] at hchain
  obtain ⟨hhead, htail⟩ := hchain
  rw [List.forall_mem_cons, ← hhead] at hstores
  -- an IPv6 header stores everything, whatever was there
  have hreset : ∀ old old', d.addresses mem old = d.addresses mem old' := by
    intro old old'
    simp only [Call.addresses, hd]
  rw [addresses_of_zero hfresh hret hheaders, addresses_of_zero hfresh' hret' hheaders', htail,
    hstores.1, addressesOf_shift hstores.2]
  rw [hreset]

end Innermost

/-- **When the addresses are those of the innermost IP header alone**: for any two packets
that are decoded into fresh packets with 0 and whose innermost datagrams are equal, exactly
if these are decoded alike and are IPv6, or are IPv4, with equal address bytes, and the
outer headers leave the same in the bytes that IPv4 does not store. -/
theorem addresses_innermost_iff (x86_64 : Bool) {mem mem' : Memory} {c c' d d' : Call}
    (hlen : c.len < 2 ^ 32) {packet packet' : Packet} (hfresh : packet.addresses = .zero)
    (hfresh' : packet'.addresses = .zero) {stats stats' : PacketStats} {n n' : ℕ}
    (hret : (decode mem n c (.start packet stats)).1 = some 0)
    (hret' : (decode mem' n' c' (.start packet' stats')).1 = some 0)
    {before behind before' behind' : List Call}
    (hheaders : headers mem n c = before ++ d :: behind) (hd : Innermost d behind)
    (hheaders' : headers mem' n' c' = before' ++ d' :: behind') (hd' : Innermost d' behind')
    (hsame : SameDatagram mem mem' d d') :
    SameAddresses x86_64 (decode mem n c (.start packet stats)).2.packet
        (decode mem' n' c' (.start packet' stats')).2.packet ↔
      d'.decoder = d.decoder ∧ (d.decoder = .ip6 ∨
        (∀ k < 8, mem (d.pkt + 12 + (k : ℕ)) = mem' (d'.pkt + 12 + (k : ℕ))) ∧
          ∀ i : Fin 16, 4 ≤ i.val → srcLeft mem before i = srcLeft mem' before' i ∧
            dstLeft mem before i = dstLeft mem' before' i) := by
  rw [sameAddresses_iff]
  have hversion := congrArg Addresses.version (addresses_of_zero hfresh hret hheaders)
  have hversion' := congrArg Addresses.version (addresses_of_zero hfresh' hret' hheaders')
  rw [version_addressesOf hd.behind] at hversion
  rw [version_addressesOf hd'.behind] at hversion'
  rcases hd.ip with hip | hip6
  · rcases hd'.ip with hip' | hip6'
    · -- IPv4
      rw [addresses_of_ip hfresh hret hheaders hip hd.behind,
        addresses_of_ip hfresh' hret' hheaders' hip' hd'.behind, Addresses.mk.injEq,
        and_iff_right rfl, @stored_eq_iff (fun k => mem (d.pkt + 12 + k))
          (fun k => mem' (d'.pkt + 12 + k)), @stored_eq_iff (fun k => mem (d.pkt + 16 + k))
          (fun k => mem' (d'.pkt + 16 + k)), and_iff_right (hip'.trans hip.symm),
        or_iff_right (by rw [hip]; decide)]
      constructor
      · rintro ⟨⟨hsrc, hsrcleft⟩, hdst, hdstleft⟩
        refine ⟨fun k hk => ?_, fun i hi => ⟨hsrcleft i hi, hdstleft i hi⟩⟩
        by_cases h4 : k < 4
        · exact hsrc k h4
        · have hbyte := hdst (k - 4) (by omega)
          rwa [Nat.cast_sub (Nat.not_lt.mp h4), Nat.cast_ofNat,
            show d.pkt + 16 + ((k : ℤ) - 4) = d.pkt + 12 + k by ring,
            show d'.pkt + 16 + ((k : ℤ) - 4) = d'.pkt + 12 + k by ring] at hbyte
      · rintro ⟨hbytes, hleft⟩
        refine ⟨⟨fun k hk => hbytes k (by omega), fun i hi => (hleft i hi).1⟩,
          fun k hk => ?_, fun i hi => (hleft i hi).2⟩
        have hbyte := hbytes (k + 4) (by omega)
        rwa [Nat.cast_add, Nat.cast_ofNat,
          show d.pkt + 12 + ((k : ℤ) + 4) = d.pkt + 16 + k by ring,
          show d'.pkt + 12 + ((k : ℤ) + 4) = d'.pkt + 16 + k by ring] at hbyte
    · refine iff_of_false (fun heq => ?_) fun h => ?_
      · rw [congrArg Addresses.version heq, hversion'] at hversion
        simp [Call.addresses, hip, hip6'] at hversion
      · rw [hip, hip6'] at h
        cases h.1
  · rcases hd'.ip with hip' | hip6'
    · refine iff_of_false (fun heq => ?_) fun h => ?_
      · rw [congrArg Addresses.version heq, hversion'] at hversion
        simp [Call.addresses, hip', hip6] at hversion
      · rw [hip', hip6] at h
        cases h.1
    · -- IPv6
      have hdec : d'.decoder = d.decoder := hip6'.trans hip6.symm
      exact iff_of_true (addresses_of_ip6 hlen hfresh hfresh' hret hret' hheaders hheaders'
        hd.behind hip6 hdec hsame) ⟨hdec, Or.inl hip6⟩

/-- UDP in IPv6. -/
def ip6Datagram : List UInt8 :=
  [0x60, 0, 0, 0, 0, 8, 17, 64] ++ List.replicate 16 1 ++ List.replicate 16 2 ++
    [0, 7, 0, 8, 0, 8, 0, 1]

/-- The same in IPv4. -/
def ip6InIp : List UInt8 :=
  [0x45, 0, 0, 68, 0, 0, 0, 0, 64, 41, 0, 0, 10, 0, 0, 1, 10, 0, 0, 2] ++ ip6Datagram

/-- Its addresses are the same. -/
theorem ip6_in_ip_same :
    SameAddresses true
      (decode (.ofList ip6Datagram) 3 ⟨.ip6, 0, 48⟩ (.start default default)).2.packet
      (decode (.ofList ip6InIp) 3 ⟨.ip, 0, 68⟩ (.start default default)).2.packet := by
  have hheaders : headers (.ofList ip6Datagram) 3 ⟨.ip6, 0, 48⟩ =
      [] ++ ⟨.ip6, 0, 48⟩ :: [⟨.udp, 40, 8⟩] := by
    decide +kernel
  have hheaders' : headers (.ofList ip6InIp) 3 ⟨.ip, 0, 68⟩ =
      [⟨.ip, 0, 68⟩] ++ ⟨.ip6, 20, 48⟩ :: [⟨.udp, 60, 8⟩] := by
    decide +kernel
  have hret :
      (decode (.ofList ip6Datagram) 3 ⟨.ip6, 0, 48⟩ (.start default default)).1 = some 0 := by
    decide +kernel
  have hret' : (decode (.ofList ip6InIp) 3 ⟨.ip, 0, 68⟩ (.start default default)).1 = some 0 := by
    decide +kernel
  exact (addresses_innermost_iff true (by decide) rfl rfl hret hret' hheaders
    ⟨Or.inr rfl, by decide⟩ hheaders' ⟨Or.inr rfl, by decide⟩ ⟨rfl, by decide +kernel⟩).mpr
    ⟨rfl, Or.inl rfl⟩

/-- UDP in IPv4. -/
def ipDatagram : List UInt8 :=
  [0x45, 0, 0, 28, 0, 0, 0, 0, 64, 17, 0, 0, 10, 0, 0, 1, 10, 0, 0, 2, 0, 7, 0, 8, 0, 8, 0, 1]

/-- **A tunnel shows**: behind an IPv6 header the addresses of an IPv4 datagram are not what
they are on their own. -/
theorem tunnel_shows :
    let mem := Memory.ofList ipDatagram
    let mem' := Memory.ofList ([0x60, 0, 0, 0, 0, 28, 4, 64] ++ List.replicate 32 1 ++ ipDatagram)
    let out := decode mem 3 ⟨.ip, 0, 28⟩ (.start default default)
    let out' := decode mem' 3 ⟨.ip6, 0, 68⟩ (.start default default)
    out.1 = some 0 ∧ out'.1 = some 0 ∧
      headers mem 3 ⟨.ip, 0, 28⟩ = [⟨.ip, 0, 28⟩, ⟨.udp, 20, 8⟩] ∧
      headers mem' 3 ⟨.ip6, 0, 68⟩ = [⟨.ip6, 0, 68⟩, ⟨.ip, 40, 28⟩, ⟨.udp, 60, 8⟩] ∧
      (∀ k : ℕ, k < 28 → mem' (40 + k) = mem (0 + k)) ∧
      ipCompare true out.2.packet.srcaddr out'.2.packet.srcaddr = .lesser ∧
      ipCompare false out.2.packet.srcaddr out'.2.packet.srcaddr = .lesser := by
  decide +kernel

end CLibrary
