import CLibrary.Library.Unsigned

/-!
`packet_private.h`, `packet_private.c`, `stats.h`: the packet a decoder fills
in, and the operations decoders are made of.

* `Packet`, `Protocol`, `TcpOption`, `PacketStats`: the structures, with the
  fields decoders touch.  An array is a function of its index, and an index
  past its end is stored like any other.
* `Memory`: the bytes in front of, in and behind a buffer.
* `Call`: a call of a decoder, `Decoding`: what decoders work on.  Beside the
  packet and the counters it keeps a record, which the C code does not have, of
  the bytes read, the subtractions that make up `paysize`, and the calls.
* `Decode`: a piece of a decoder.  It runs for one call, and `none` says that
  its fuel has run out.
-/

namespace CLibrary

/-! ### The structures -/

/-- `PROTOCOL`. -/
inductive Proto
  | eth | ppp | vlan | mpls | pppoe | ipx | spx | ip4 | ip6 | ip6Rte | ip6Frag | ip6Ext | gre
  | tcp | udp | sctp | icmp | icmp6
  deriving DecidableEq, Repr, Inhabited

/-- `struct _PacketLayer`. -/
structure Protocol where
  protocol : Proto
  size : ℕ
  start : ℤ
  deriving DecidableEq, Repr, Inhabited

/-- `struct Option`. -/
structure TcpOption where
  type : ℕ
  len : ℕ
  value : Option ℤ
  deriving DecidableEq, Repr, Inhabited

/-- `struct ipaddr`, byte by byte. -/
abbrev IpAddr := Fin 16 → UInt8

/-- `struct _Packet`; `transport` is an index of `layer`. -/
structure Packet where
  version : ℕ
  srcaddr : IpAddr
  dstaddr : IpAddr
  srcport : ℕ
  dstport : ℕ
  protocol : ℕ
  mf : Bool
  df : Bool
  offset : ℕ
  id : ℕ
  ttl : ℕ
  tos : ℕ
  paysize : ℕ
  payload : ℤ
  transport : Option ℕ
  layerCount : ℕ
  tcpoptCount : ℕ
  layer : ℕ → Protocol
  tcpOption : ℕ → TcpOption
  deriving Inhabited

/-- The counters of `struct packet_stats` that decoders touch. -/
structure PacketStats where
  ipsPackets : ℕ
  ipsBytes : ℕ
  tcpsPackets : ℕ
  tcpsBytes : ℕ
  tcpsTooshort : ℕ
  deriving Inhabited

/-- `MAX_LAYERS`. -/
def maxLayers : ℕ := 32

/-- `MAX_TCPOPTLEN`. -/
def maxTcpoptlen : ℕ := 32

/-- `packet_layer_ins`; a packet with `MAX_LAYERS` layers keeps both fields. -/
def Packet.layerIns (p : Packet) (start : ℤ) (size : ℕ) (proto : Proto) : Packet :=
  let count := uadd 32 p.layerCount 1
  { p with
    layerCount := if p.layerCount = maxLayers then p.layerCount else count
    layer :=
      if p.layerCount = maxLayers then p.layer
      else Function.update p.layer (usub 32 count 1) ⟨proto, size, start⟩ }

/-- `packet_layer_current`. -/
def Packet.layerCurrent (p : Packet) : Option ℕ :=
  if p.layerCount = 0 then none else some (usub 32 p.layerCount 1)

/-! ### Bytes -/

/-- What is behind a pointer. -/
abbrev Memory := ℤ → UInt8

namespace Memory

/-- A buffer at address 0. -/
def ofList (bytes : List UInt8) : Memory := fun a => bytes.getD a.toNat 0

variable (mem : Memory) (a : ℤ)

/-- A byte. -/
def byte : ℕ := (mem a).toNat

/-- Two bytes after `ntohs`. -/
def be16 : ℕ := 256 * mem.byte a + mem.byte (a + 1)

/-- Two bytes as they are. -/
def raw16 : ℕ := mem.byte a + 256 * mem.byte (a + 1)

/-- Four bytes as they are. -/
def raw32 : ℕ := mem.raw16 a + 2 ^ 16 * mem.raw16 (a + 2)

lemma byte_lt : mem.byte a < 256 := (mem a).toNat_lt

lemma be16_lt : mem.be16 a < 2 ^ 16 := by
  have h1 := mem.byte_lt a
  have h2 := mem.byte_lt (a + 1)
  rw [be16]
  omega

/-- It fits in an `unsigned`. -/
lemma be16_lt_unsigned : mem.be16 a < 2 ^ 32 := (mem.be16_lt a).trans (by norm_num)

end Memory

/-- `ntohs` of a number at hand. -/
def ntohs (x : ℕ) : ℕ := x % 256 * 256 + x / 256 % 256

/-! ### Calls and their record -/

/-- The decoders that call others or are called. -/
inductive Decoder
  | ip | ip6 | ip6Rte | ip6Frag | ip6Ext | tcp | udp
  deriving DecidableEq, Repr

/-- A call of a decoder with its slice. -/
structure Call where
  decoder : Decoder
  pkt : ℤ
  len : ℕ
  deriving DecidableEq, Repr

/-- `size` bytes read from `addr` on in a call. -/
structure Access where
  call : Call
  addr : ℤ
  size : ℕ
  deriving DecidableEq, Repr

/-- Every byte of it is in the slice of the call. -/
def Access.Inside (r : Access) : Prop :=
  ∀ i < r.size, r.call.pkt ≤ r.addr + i ∧ r.addr + i < r.call.pkt + r.call.len

/-- What decoders work on, and the record of what they did: the bytes read, the
subtractions `(a, b)` of `b` from `a` that make up `paysize`, and the calls
`(c, d)` of `d` in `c`. -/
structure Decoding where
  packet : Packet
  stats : PacketStats
  reads : List Access
  subs : List (ℕ × ℕ)
  calls : List (Call × Call)

/-- Nothing done yet. -/
def Decoding.start (packet : Packet) (stats : PacketStats) : Decoding := ⟨packet, stats, [], [], []⟩

/-- The memory, and the call that reads it. -/
structure Frame where
  mem : Memory
  call : Call

/-! ### Pieces of decoders -/

/-- A piece of a decoder. -/
def Decode (α : Type) := Frame → Decoding → Option α × Decoding

namespace Decode

variable {α β : Type} {f : Frame} {s s' : Decoding} {a : α}

instance : Monad Decode where
  pure a := fun _ s => (some a, s)
  bind x k := fun f s =>
    match x f s with
    | (some a, s) => k a f s
    | (none, s) => (none, s)

@[simp] lemma pure_apply : (pure a : Decode α) f s = (some a, s) := rfl

/-- A piece that ends hands on to the next. -/
lemma bind_of_some {x : Decode α} {k : α → Decode β} (h : x f s = (some a, s')) :
    (x >>= k) f s = k a f s' := by
  change (match x f s with | (some a, s) => k a f s | (none, s) => (none, s)) = _
  rw [h]

/-- A piece that does not end is the last. -/
lemma bind_of_none {x : Decode α} {k : α → Decode β} (h : x f s = (none, s')) :
    (x >>= k) f s = (none, s') := by
  change (match x f s with | (some a, s) => k a f s | (none, s) => (none, s)) = _
  rw [h]

/-- No fuel is left. -/
def outOfFuel : Decode α := fun _ s => (none, s)

/-- `*p`. -/
def getPacket : Decode Packet := fun _ s => (some s.packet, s)

/-- Stores to fields of `*p`. -/
def modifyPacket (g : Packet → Packet) : Decode Unit :=
  fun _ s => (some (), { s with packet := g s.packet })

/-- Stores to fields of `s_stats`. -/
def modifyStats (g : PacketStats → PacketStats) : Decode Unit :=
  fun _ s => (some (), { s with stats := g s.stats })

/-- `size` bytes from `addr` on. -/
def readBytes (addr : ℤ) (size : ℕ) : Decode Memory :=
  fun f s => (some f.mem, { s with reads := s.reads ++ [⟨f.call, addr, size⟩] })

/-- `*addr`. -/
def readByte (addr : ℤ) : Decode ℕ := do
  return (← readBytes addr 1).byte addr

/-- `ntohs` of two bytes. -/
def readNtohs (addr : ℤ) : Decode ℕ := do
  return (← readBytes addr 2).be16 addr

/-- The 16 bytes of an address. -/
def readAddr (addr : ℤ) : Decode IpAddr := do
  let mem ← readBytes addr 16
  return fun i => mem (addr + i)

/-- `addr32[0]` replaced by four bytes. -/
def readAddr32 (addr : ℤ) (old : IpAddr) : Decode IpAddr := do
  let mem ← readBytes addr 4
  return fun i => if i < 4 then mem (addr + i) else old i

/-- `a - b` in an `unsigned` that becomes `paysize`. -/
def subtract (a b : ℕ) : Decode ℕ :=
  fun _ s => (some (usub 32 a b), { s with subs := s.subs ++ [(a, b)] })

/-- `p->payload += n`. -/
def addPayload (n : ℕ) : Decode Unit := modifyPacket fun p => { p with payload := p.payload + n }

/-- `p->paysize -= n`. -/
def subPaysize (n : ℕ) : Decode Unit := do
  let paysize ← subtract (← getPacket).paysize n
  modifyPacket fun p => { p with paysize := paysize }

/-- `packet_layer_ins`, whose result nobody looks at. -/
def packetLayerIns (start : ℤ) (size : ℕ) (proto : Proto) : Decode Unit :=
  modifyPacket fun p => p.layerIns start size proto

/-- `packet_layer_current`. -/
def packetLayerCurrent : Decode (Option ℕ) := do
  return (← getPacket).layerCurrent

/-! ### Running the pieces -/

section Running

variable {addr start : ℤ} {size n x y : ℕ} {proto : Proto} {old : IpAddr}

@[simp] lemma run_ite {c : Prop} [Decidable c] {d e : Decode α} :
    (if c then d else e) f s = if c then d f s else e f s := by
  split_ifs <;> rfl

/-- A piece that is followed by a return. -/
lemma bind_ret {d : Decode α} {b : β} :
    (d >>= fun _ => pure b) f s = ((d f s).1.map fun _ => b, (d f s).2) := by
  cases hd : d f s with
  | mk r s' =>
      cases r with
      | none => rw [bind_of_none hd, Option.map_none]
      | some a => rw [bind_of_some hd, Option.map_some, pure_apply]

@[simp] lemma getPacket_bind {k : Packet → Decode β} : (getPacket >>= k) f s = k s.packet f s := rfl

@[simp] lemma modifyPacket_bind {g : Packet → Packet} {k : Unit → Decode β} :
    (modifyPacket g >>= k) f s = k () f { s with packet := g s.packet } := rfl

@[simp] lemma modifyStats_bind {g : PacketStats → PacketStats} {k : Unit → Decode β} :
    (modifyStats g >>= k) f s = k () f { s with stats := g s.stats } := rfl

@[simp] lemma readBytes_bind {k : Memory → Decode β} : (readBytes addr size >>= k) f s =
    k f.mem f { s with reads := s.reads ++ [⟨f.call, addr, size⟩] } := rfl

@[simp] lemma readByte_bind {k : ℕ → Decode β} : (readByte addr >>= k) f s =
    k (f.mem.byte addr) f { s with reads := s.reads ++ [⟨f.call, addr, 1⟩] } := rfl

@[simp] lemma readNtohs_bind {k : ℕ → Decode β} : (readNtohs addr >>= k) f s =
    k (f.mem.be16 addr) f { s with reads := s.reads ++ [⟨f.call, addr, 2⟩] } := rfl

@[simp] lemma readAddr_bind {k : IpAddr → Decode β} : (readAddr addr >>= k) f s =
    k (fun i => f.mem (addr + i)) f { s with reads := s.reads ++ [⟨f.call, addr, 16⟩] } := rfl

@[simp] lemma readAddr32_bind {k : IpAddr → Decode β} : (readAddr32 addr old >>= k) f s =
    k (fun i => if i < 4 then f.mem (addr + i) else old i) f
      { s with reads := s.reads ++ [⟨f.call, addr, 4⟩] } := rfl

@[simp] lemma subtract_bind {k : ℕ → Decode β} : (subtract x y >>= k) f s =
    k (usub 32 x y) f { s with subs := s.subs ++ [(x, y)] } := rfl

@[simp] lemma addPayload_bind {k : Unit → Decode β} : (addPayload n >>= k) f s =
    k () f { s with packet := { s.packet with payload := s.packet.payload + n } } := rfl

@[simp] lemma subPaysize_bind {k : Unit → Decode β} : (subPaysize n >>= k) f s =
    k () f { s with
      packet := { s.packet with paysize := usub 32 s.packet.paysize n }
      subs := s.subs ++ [(s.packet.paysize, n)] } := rfl

@[simp] lemma packetLayerIns_bind {k : Unit → Decode β} :
    (packetLayerIns start size proto >>= k) f s =
      k () f { s with packet := s.packet.layerIns start size proto } := rfl

@[simp] lemma packetLayerCurrent_bind {k : Option ℕ → Decode β} : (packetLayerCurrent >>= k) f s =
    k s.packet.layerCurrent f s := rfl

end Running

end Decode

end CLibrary
