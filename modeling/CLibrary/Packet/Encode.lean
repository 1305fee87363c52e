import CLibrary.Packet.OptionList

/-!
Datagrams, their bytes, and what decoding them stores.

* `bytes16`, `holds_bytes16`: two bytes in network order.
* `IpHeader`, `Ip6Header`, `RteHeader`, `TcpHeader`, `UdpHeader`: headers that are as
  long as they say.  `bytes` are theirs, `store` is what a packet gets of them.
* `Datagram`: headers down to a payload.  `Datagram.encode`, `Datagram.store`,
  `Datagram.payload`, `Datagram.options`.
* `Datagram.OverIp`, `Datagram.OverIp6`, `Datagram.Fits`: which headers may be inside
  which, and that the lengths fit their fields.
-/

namespace CLibrary

/-! ### Bytes -/

/-- Two bytes in network order. -/
def bytes16 (n : ℕ) : List UInt8 := [UInt8.ofNat (n / 256), UInt8.ofNat n]

@[simp] lemma length_bytes16 (n : ℕ) : (bytes16 n).length = 2 := rfl

section Bytes

variable {mem : Memory} {a : ℤ} {n : ℕ}

lemma holds_nil : mem.Holds a [] := fun i hi => absurd hi (Nat.not_lt_zero i)

lemma holds_bytes16 (h : mem.Holds a (bytes16 n)) :
    mem.byte a = n / 256 % 256 ∧ mem.byte (a + 1) = n % 256 := by
  obtain ⟨hhi, hlo⟩ := holds_cons.mp h
  refine ⟨?_, ?_⟩
  · rw [Memory.byte, hhi]
    exact UInt8.toNat_ofNat'
  · rw [Memory.byte, (holds_cons.mp hlo).1]
    exact UInt8.toNat_ofNat'

lemma be16_of_holds (h : mem.Holds a (bytes16 n)) (hn : n < 2 ^ 16) : mem.be16 a = n := by
  obtain ⟨hhi, hlo⟩ := holds_bytes16 h
  rw [Memory.be16, hhi, hlo]
  omega

/-- Read as they are, the two are in the other order. -/
lemma raw16_of_holds (h : mem.Holds a (bytes16 n)) : mem.raw16 a = ntohs n := by
  obtain ⟨hhi, hlo⟩ := holds_bytes16 h
  rw [Memory.raw16, ntohs, hhi, hlo]
  omega

lemma holds_ofFn {k : ℕ} {f : Fin k → UInt8} (h : mem.Holds a (List.ofFn f)) (i : Fin k) :
    mem (a + (i.val : ℤ)) = f i := by
  have hi := h i.val (by rw [List.length_ofFn]; exact i.isLt)
  rw [hi, List.getElem_ofFn]

end Bytes

/-! ### Headers -/

/-- An IPv4 header with options up to a multiple of four bytes. -/
structure IpHeader where
  tos : UInt8
  id : UInt16
  df : Bool
  mf : Bool
  offset : ℕ
  ttl : UInt8
  checksum : UInt16
  srcaddr : Fin 4 → UInt8
  dstaddr : Fin 4 → UInt8
  options : List UInt8
  offset_lt : offset < 2 ^ 13
  words : options.length % 4 = 0
  short : options.length ≤ 40

namespace IpHeader

variable (h : IpHeader)

def size : ℕ := 20 + h.options.length

/-- The flags and the offset. -/
def off : ℕ := h.df.toNat * 2 ^ 14 + h.mf.toNat * 2 ^ 13 + h.offset

/-- The header in front of `len` bytes of `protocol`. -/
def bytes (protocol len : ℕ) : List UInt8 :=
  [UInt8.ofNat (64 + h.size / 4), h.tos] ++ bytes16 (h.size + len) ++ bytes16 h.id.toNat ++
    bytes16 h.off ++ [h.ttl, UInt8.ofNat protocol] ++ bytes16 h.checksum.toNat ++
    List.ofFn h.srcaddr ++ List.ofFn h.dstaddr ++ h.options

/-- An IPv4 address in front of what was there. -/
def patch (addr : Fin 4 → UInt8) (old : IpAddr) : IpAddr := fun i =>
  if hi : i.val < 4 then addr ⟨i.val, hi⟩ else old i

/-- What a packet gets of the header at `a`; `id` stays in network order. -/
def store (a : ℤ) (protocol len : ℕ) (p : Packet) : Packet :=
  { ({ p with
      version := 4
      df := h.df
      mf := h.mf
      offset := h.offset
      id := ntohs h.id.toNat
      tos := h.tos.toNat
      ttl := h.ttl.toNat
      srcaddr := patch h.srcaddr p.srcaddr
      dstaddr := patch h.dstaddr p.dstaddr
      protocol := protocol } : Packet).layerIns a h.size .ip4 with
    payload := p.payload + h.size
    paysize := len }

end IpHeader

/-- An IPv6 header; the decoders never look at `flow`, its version included. -/
structure Ip6Header where
  flow : Fin 4 → UInt8
  hopLimit : UInt8
  srcaddr : IpAddr
  dstaddr : IpAddr

namespace Ip6Header

variable (h : Ip6Header)

/-- The header in front of `len` bytes of `protocol`. -/
def bytes (protocol len : ℕ) : List UInt8 :=
  List.ofFn h.flow ++ bytes16 len ++ [UInt8.ofNat protocol, h.hopLimit] ++ List.ofFn h.srcaddr ++
    List.ofFn h.dstaddr

/-- What a packet gets of the header at `a`. -/
def store (a : ℤ) (protocol len : ℕ) (p : Packet) : Packet :=
  { ({ p with
      version := 6
      protocol := protocol
      ttl := h.hopLimit.toNat
      srcaddr := h.srcaddr
      dstaddr := h.dstaddr } : Packet).layerIns a sizeofIp6Hdr .ip6 with
    payload := p.payload + sizeofIp6Hdr
    paysize := len }

end Ip6Header

/-- A routing header of type 0: the addresses still to be visited are its last
`segleft`. -/
structure RteHeader where
  type : UInt8
  segleft : UInt8
  reserved : Fin 4 → UInt8
  addresses : List IpAddr
  many : addresses.length < 128
  left : segleft.toNat ≤ addresses.length

namespace RteHeader

variable (h : RteHeader)

def size : ℕ := 8 + 16 * h.addresses.length

/-- The header in front of `protocol`. -/
def bytes (protocol : ℕ) : List UInt8 :=
  [UInt8.ofNat protocol, UInt8.ofNat (2 * h.addresses.length), h.type, h.segleft] ++
    List.ofFn h.reserved ++ h.addresses.flatMap fun addr => List.ofFn addr

/-- What a packet gets of the header at `a`: if a segment is left the last address is
the destination. -/
def store (a : ℤ) (protocol : ℕ) (p : Packet) : Packet :=
  { ({ p with
      protocol := protocol
      dstaddr := if h.segleft.toNat = 0 then p.dstaddr
        else h.addresses.getLast?.getD p.dstaddr } : Packet).layerIns a h.size .ip6Rte with
    payload := p.payload + h.size
    paysize := p.paysize - h.size }

end RteHeader

/-- A TCP header with options of known kinds, up to a multiple of four bytes. -/
structure TcpHeader where
  srcport : UInt16
  dstport : UInt16
  seq : Fin 4 → UInt8
  ack : Fin 4 → UInt8
  flags : UInt8
  rest : Fin 6 → UInt8
  options : List KnownOption
  words : (encodeOptions options).length % 4 = 0
  short : (encodeOptions options).length ≤ 40

namespace TcpHeader

variable (h : TcpHeader)

def size : ℕ := 20 + (encodeOptions h.options).length

def bytes : List UInt8 :=
  bytes16 h.srcport.toNat ++ bytes16 h.dstport.toNat ++ List.ofFn h.seq ++ List.ofFn h.ack ++
    [UInt8.ofNat (h.size / 4 * 16), h.flags] ++ List.ofFn h.rest ++ encodeOptions h.options

/-- The options that are recorded: all or, where there are more than `MAX_TCPOPTLEN`
bytes of them, none. -/
def recorded : List KnownOption :=
  if (encodeOptions h.options).length ≤ maxTcpoptlen then h.options else []

/-- What a packet gets of the header at `a`. -/
def store (a : ℤ) (p : Packet) : Packet :=
  ((offsets KnownOption.size 0 h.recorded).map fun e => e.2.placed (a + sizeofTcphdr + e.1)).foldl
    Packet.addOption
    { ({ p with
        transport := (p.layerIns a h.size .tcp).layerCurrent
        srcport := h.srcport.toNat
        dstport := h.dstport.toNat } : Packet).layerIns a h.size .tcp with
      payload := p.payload + h.size
      paysize := p.paysize - h.size }

end TcpHeader

/-- A UDP header. -/
structure UdpHeader where
  srcport : UInt16
  dstport : UInt16
  checksum : UInt16

namespace UdpHeader

variable (h : UdpHeader)

/-- The header in front of `len` bytes. -/
def bytes (len : ℕ) : List UInt8 :=
  bytes16 h.srcport.toNat ++ bytes16 h.dstport.toNat ++ bytes16 (sizeofUdphdr + len) ++
    bytes16 h.checksum.toNat

/-- What a packet gets of the header at `a`. -/
def store (a : ℤ) (p : Packet) : Packet :=
  { ({ p with
      transport := (p.layerIns a sizeofUdphdr .udp).layerCurrent
      srcport := h.srcport.toNat
      dstport := h.dstport.toNat } : Packet).layerIns a sizeofUdphdr .udp with
    payload := p.payload + sizeofUdphdr
    paysize := p.paysize - sizeofUdphdr }

end UdpHeader

/-! ### Datagrams -/

/-- Headers in front of a payload. -/
inductive Datagram
  | udp (h : UdpHeader) (payload : List UInt8)
  | tcp (h : TcpHeader) (payload : List UInt8)
  | fragment (h : IpHeader) (protocol : UInt8) (payload : List UInt8)
  | ip (h : IpHeader) (body : Datagram)
  | ip6 (h : Ip6Header) (body : Datagram)
  | rte (h : RteHeader) (body : Datagram)

namespace Datagram

/-- The decoder of the first header. -/
def decoder : Datagram → Decoder
  | udp _ _ => .udp
  | tcp _ _ => .tcp
  | fragment _ _ _ | ip _ _ => .ip
  | ip6 _ _ => .ip6
  | rte _ _ => .ip6Rte

/-- The number that announces the first header. -/
def number : Datagram → ℕ
  | udp _ _ => ipprotoUdp
  | tcp _ _ => ipprotoTcp
  | fragment _ _ _ | ip _ _ => ipprotoIpip
  | ip6 _ _ => ipprotoIpv6
  | rte _ _ => ipprotoRouting

def encode : Datagram → List UInt8
  | udp h payload => h.bytes payload.length ++ payload
  | tcp h payload => h.bytes ++ payload
  | fragment h protocol payload => h.bytes protocol.toNat payload.length ++ payload
  | ip h body => h.bytes body.number body.encode.length ++ body.encode
  | ip6 h body => h.bytes body.number body.encode.length ++ body.encode
  | rte h body => h.bytes body.number ++ body.encode

/-- What is behind all headers. -/
def payload : Datagram → List UInt8
  | udp _ payload | tcp _ payload | fragment _ _ payload => payload
  | ip _ body | ip6 _ body | rte _ body => body.payload

/-- The TCP options that are recorded. -/
def options : Datagram → List KnownOption
  | tcp h _ => h.recorded
  | udp _ _ | fragment _ _ _ => []
  | ip _ body | ip6 _ body | rte _ body => body.options

/-- The layers of the datagram at `a`. -/
def layers (a : ℤ) : Datagram → List Protocol
  | udp _ _ => [⟨.udp, sizeofUdphdr, a⟩]
  | tcp h _ => [⟨.tcp, h.size, a⟩]
  | fragment h _ _ => [⟨.ip4, h.size, a⟩]
  | ip h body => ⟨.ip4, h.size, a⟩ :: body.layers (a + h.size)
  | ip6 _ body => ⟨.ip6, sizeofIp6Hdr, a⟩ :: body.layers (a + sizeofIp6Hdr)
  | rte h body => ⟨.ip6Rte, h.size, a⟩ :: body.layers (a + h.size)

/-- What a packet gets of the datagram at `a`. -/
def store (a : ℤ) : Datagram → Packet → Packet
  | udp h _, p => h.store a p
  | tcp h _, p => h.store a p
  | fragment h protocol payload, p => h.store a protocol.toNat payload.length p
  | ip h body, p => body.store (a + h.size) (h.store a body.number body.encode.length p)
  | ip6 h body, p => body.store (a + sizeofIp6Hdr) (h.store a body.number body.encode.length p)
  | rte h body, p => body.store (a + h.size) (h.store a body.number p)

/-- The calls and rounds that decoding it takes. -/
def rounds : Datagram → ℕ
  | udp _ _ | fragment _ _ _ => 1
  | tcp h _ => h.options.length + 2
  | ip _ body | ip6 _ body | rte _ body => body.rounds + 1

/-- What may be inside IPv4: anything but a routing header, which is IPv6's. -/
def OverIp : Datagram → Prop
  | rte _ _ => False
  | _ => True

/-- What may be inside IPv6 or behind a routing header: anything but IPv6.  `bind_ip6`
has no case for it, unlike `bind_ip`. -/
def OverIp6 : Datagram → Prop
  | ip6 _ _ => False
  | _ => True

instance : ∀ d, Decidable (OverIp d)
  | rte _ _ => isFalse id
  | udp _ _ | tcp _ _ | fragment _ _ _ | ip _ _ | ip6 _ _ => isTrue trivial

instance : ∀ d, Decidable (OverIp6 d)
  | ip6 _ _ => isFalse id
  | udp _ _ | tcp _ _ | fragment _ _ _ | ip _ _ | rte _ _ => isTrue trivial

/-- The datagram behind a header of IP version `version` can be sent: nothing is inside
a header that cannot carry it, the lengths fit their 16 bits, only a fragment is marked
as one, and a UDP checksum is left out over IPv4 only. -/
def Fits (version : ℕ) : Datagram → Prop
  | udp h _ => version = 6 → h.checksum ≠ 0
  | tcp _ _ => True
  | fragment h _ payload => (h.mf = true ∨ h.offset ≠ 0) ∧ h.size + payload.length < 2 ^ 16
  | ip h body => (h.mf = false ∧ h.offset = 0) ∧ h.size + body.encode.length < 2 ^ 16 ∧
      body.OverIp ∧ body.Fits 4
  | ip6 _ body => body.encode.length < 2 ^ 16 ∧ body.OverIp6 ∧ body.Fits 6
  | rte _ body => body.OverIp6 ∧ body.Fits version

instance : ∀ version d, Decidable (Fits version d)
  | version, udp h _ => inferInstanceAs (Decidable (version = 6 → h.checksum ≠ 0))
  | _, tcp _ _ => inferInstanceAs (Decidable True)
  | _, fragment h _ payload => inferInstanceAs (Decidable
      ((h.mf = true ∨ h.offset ≠ 0) ∧ h.size + payload.length < 2 ^ 16))
  | _, ip h body =>
      have := instDecidableFits 4 body
      inferInstanceAs (Decidable ((h.mf = false ∧ h.offset = 0) ∧
        h.size + body.encode.length < 2 ^ 16 ∧ body.OverIp ∧ body.Fits 4))
  | _, ip6 _ body =>
      have := instDecidableFits 6 body
      inferInstanceAs (Decidable (body.encode.length < 2 ^ 16 ∧ body.OverIp6 ∧ body.Fits 6))
  | version, rte _ body =>
      have := instDecidableFits version body
      inferInstanceAs (Decidable (body.OverIp6 ∧ body.Fits version))

end Datagram

end CLibrary
