import CLibrary.Packet.Basic

/-!
`ip4.c`, `ip6.c`, `tcp.c`, `udp.c`: the decoders.

* `decodeIp`, `decodeIp6`, `decodeIp6Rte`, `decodeIp6Frag`, `decodeIp6Ext`,
  `decodeTcp`, `decodeUdp`: under the names of the source.  Every call of a
  decoder by `bind_ip` or `bind_ip6` is the last thing its caller does, whose
  return value is that of the call; here a decoder ends with an `Outcome`.
* `decodeTcpOptions`: the loop over the options, `optionStep` one round of it.
* `decode`: makes the calls, as far as its fuel goes; the loop over the options
  runs on the same fuel.
-/

namespace CLibrary

open Decode

/-- How a decoder ends: with a value, or with a call in its place. -/
inductive Outcome
  | ret (r : ℤ)
  | call (c : Call)
  deriving DecidableEq, Repr

/-! ### TCP -/

/-- `tcpopt_len_tbl`. -/
def tcpoptLenTbl : List ℤ := [0, 0, 4, 3, 2, -1, 6, 6, 10]

/-- `TCPOPT_MAX`. -/
def tcpoptMax : ℕ := tcpoptLenTbl.length

/-- The `switch` on the expected length: `jmp_len` and `opt_len`, unless it
returns. -/
def optionLens (len : ℕ) (optStart : ℤ) (depth : ℕ) (expected : ℤ) : Decode (Option (ℕ × ℕ)) := do
  if expected = -1 then
    if ¬ usub 32 len depth > 0 then return none
    let jmpLen ← readByte (optStart + 1)
    return some (jmpLen, usub 8 jmpLen 2)
  else if expected = 0 then
    return some (1, expected.toNat)
  else
    if ¬ usub 32 len depth > 0 then return none
    let jmpLen ← readByte (optStart + 1)
    if (jmpLen : ℤ) ≠ expected then return none
    return some (jmpLen, usub 8 jmpLen 2)

/-- The stores to `tcp_option[tcpopt_count]`. -/
def addOption (optStart : ℤ) (type optLen : ℕ) : Decode Unit :=
  modifyPacket fun p =>
    { p with
      tcpOption := Function.update p.tcpOption p.tcpoptCount
        ⟨type, optLen, if optLen ≠ 0 then some (optStart + 2) else none⟩
      tcpoptCount := uadd 32 p.tcpoptCount 1 }

/-- A round of the loop: `jmp_len`, unless it returns. -/
def optionStep (len : ℕ) (optStart : ℤ) (depth : ℕ) : Decode (Option ℕ) := do
  if (← readByte optStart) ≥ tcpoptMax then
    if ¬ usub 32 len depth > 0 then return none
    let jmpLen ← readByte (optStart + 1)
    if len < jmpLen then return some jmpLen else return none
  else
    let expected := tcpoptLenTbl.getD (← readByte optStart) 0
    match ← optionLens len optStart depth expected with
    | none => return none
    | some (jmpLen, optLen) =>
        addOption optStart (← readByte optStart) optLen
        return some jmpLen

/-- The loop over the options. -/
def optionLoop (start : ℤ) (len : ℕ) : ℕ → ℤ → ℕ → Decode Unit
  | 0, _, _ => outOfFuel
  | fuel + 1, optStart, depth => do
      if optStart < start + len then
        match ← optionStep len optStart depth with
        | none => return ()
        | some jmpLen => optionLoop start len fuel (optStart + jmpLen) (uadd 32 depth jmpLen)
      else return ()

/-- `decode_tcp_options`. -/
def decodeTcpOptions (fuel : ℕ) (start : ℤ) (len : ℕ) : Decode Unit := do
  if len > maxTcpoptlen then return ()
  else optionLoop start len fuel start 0

/-- `sizeof(struct tcphdr)`. -/
def sizeofTcphdr : ℕ := 20

/-- `decode_tcp`. -/
def decodeTcp (fuel : ℕ) (pkt : ℤ) (len : ℕ) : Decode Outcome := do
  modifyStats fun s =>
    { s with tcpsPackets := uadd 32 s.tcpsPackets 1, tcpsBytes := uadd 32 s.tcpsBytes len }
  if len < sizeofTcphdr then
    modifyStats fun s => { s with tcpsTooshort := uadd 32 s.tcpsTooshort 1 }
    return .ret (-1)
  else
    let hlen := (← readByte (pkt + 12)) / 16 * 4
    packetLayerIns pkt hlen .tcp
    let transport ← packetLayerCurrent
    modifyPacket fun p => { p with transport := transport }
    let srcport ← readNtohs pkt
    let dstport ← readNtohs (pkt + 2)
    modifyPacket fun p => { p with srcport := srcport, dstport := dstport }
    addPayload hlen
    subPaysize hlen
    let optlen : ℕ := usub 32 hlen sizeofTcphdr % 2 ^ 16
    if optlen ≠ 0 then
      decodeTcpOptions fuel (pkt + hlen - optlen) optlen
      return .ret 0
    else return .ret 0

/-! ### UDP -/

/-- `sizeof(struct udphdr)`. -/
def sizeofUdphdr : ℕ := 8

/-- `decode_udp`. -/
def decodeUdp (pkt : ℤ) (len : ℕ) : Decode Outcome := do
  if len < sizeofUdphdr then return .ret (-1)
  else
    packetLayerIns pkt sizeofUdphdr .udp
    let transport ← packetLayerCurrent
    modifyPacket fun p => { p with transport := transport }
    let srcport ← readNtohs pkt
    let dstport ← readNtohs (pkt + 2)
    modifyPacket fun p => { p with srcport := srcport, dstport := dstport }
    addPayload sizeofUdphdr
    subPaysize sizeofUdphdr
    -- UDP checksum is mandatory for ipv6
    let sum := (← readBytes (pkt + 6) 2).raw16 (pkt + 6)
    if sum = 0 ∧ (← getPacket).version = 6 then return .ret (-1)
    -- both with and without a checksum
    else return .ret 0

/-! ### The calls -/

/-- `IPPROTO_HOPOPTS`. -/
def ipprotoHopopts : ℕ := 0

/-- `IPPROTO_IPIP`. -/
def ipprotoIpip : ℕ := 4

/-- `IPPROTO_TCP`. -/
def ipprotoTcp : ℕ := 6

/-- `IPPROTO_UDP`. -/
def ipprotoUdp : ℕ := 17

/-- `IPPROTO_IPV6`. -/
def ipprotoIpv6 : ℕ := 41

/-- `IPPROTO_ROUTING`. -/
def ipprotoRouting : ℕ := 43

/-- `IPPROTO_FRAGMENT`. -/
def ipprotoFragment : ℕ := 44

/-- `IPPROTO_DSTOPTS`. -/
def ipprotoDstopts : ℕ := 60

/-- The `switch` of `bind_ip`; `IPPROTO_SCTP` is among the rest. -/
def ipSwitch (protocol : ℕ) : Option Decoder :=
  if protocol = ipprotoTcp then some .tcp
  else if protocol = ipprotoUdp then some .udp
  else if protocol = ipprotoIpip then some .ip
  else if protocol = ipprotoIpv6 then some .ip6
  else none

/-- The `switch` of `bind_ip6`; `IPPROTO_SCTP` is among the rest. -/
def ip6Switch (protocol : ℕ) : Option Decoder :=
  if protocol = ipprotoRouting then some .ip6Rte
  else if protocol = ipprotoFragment then some .ip6Frag
  else if protocol = ipprotoDstopts ∨ protocol = ipprotoHopopts then some .ip6Ext
  else if protocol = ipprotoTcp then some .tcp
  else if protocol = ipprotoUdp then some .udp
  else if protocol = ipprotoIpip then some .ip
  else none

/-- The call a `switch` selects, or -1. -/
def Outcome.ofSwitch (decoder : Option Decoder) (pkt : ℤ) (len : ℕ) : Outcome :=
  decoder.elim (.ret (-1)) fun d => .call ⟨d, pkt, len⟩

/-- `bind_ip`. -/
def bindIp (pkt : ℤ) (len : ℕ) : Decode Outcome := do
  return .ofSwitch (ipSwitch (← getPacket).protocol) pkt len

/-- `bind_ip6`. -/
def bindIp6 (pkt : ℤ) (len : ℕ) : Decode Outcome := do
  return .ofSwitch (ip6Switch (← getPacket).protocol) pkt len

/-! ### IPv4 -/

/-- `decode_ip`. -/
def decodeIp (pkt : ℤ) (len : ℕ) : Decode Outcome := do
  let hlen := (← readByte pkt) % 16 * 4
  let payLen ← subtract (← readNtohs (pkt + 2)) hlen
  modifyStats fun s =>
    { s with ipsPackets := uadd 32 s.ipsPackets 1, ipsBytes := uadd 32 s.ipsBytes len }
  modifyPacket fun p => { p with version := 4 }
  if len < hlen ∨ len < payLen then return .ret (-1)
  else
    packetLayerIns pkt hlen .ip4
    let off ← readNtohs (pkt + 6)
    modifyPacket fun p =>
      { p with df := off / 2 ^ 14 % 2 = 1, mf := off / 2 ^ 13 % 2 = 1, offset := off % 2 ^ 13 }
    addPayload hlen
    modifyPacket fun p => { p with paysize := payLen }
    let id := (← readBytes (pkt + 4) 2).raw16 (pkt + 4)
    let tos ← readByte (pkt + 1)
    let ttl ← readByte (pkt + 8)
    modifyPacket fun p => { p with id := id, tos := tos, ttl := ttl }
    let srcaddr ← readAddr32 (pkt + 12) (← getPacket).srcaddr
    let dstaddr ← readAddr32 (pkt + 16) (← getPacket).dstaddr
    let protocol ← readByte (pkt + 9)
    modifyPacket fun p => { p with srcaddr := srcaddr, dstaddr := dstaddr, protocol := protocol }
    let p ← getPacket
    if p.offset ≠ 0 ∨ p.mf then return .ret 0
    else bindIp (pkt + hlen) (usub 32 len hlen)

/-! ### IPv6 -/

/-- `sizeof(struct ip6_rte)`. -/
def sizeofIp6Rte : ℕ := 8

/-- `decode_ip6_rte`. -/
def decodeIp6Rte (pkt : ℤ) (len : ℕ) : Decode Outcome := do
  if len < sizeofIp6Rte then return .ret (-1)
  else
    let rteLen := (← readByte (pkt + 1)) * 8 + 8
    if len < rteLen then return .ret (-1)
    else
      addPayload rteLen
      subPaysize rteLen
      packetLayerIns pkt rteLen .ip6Rte
      let protocol ← readByte pkt
      modifyPacket fun p => { p with protocol := protocol }
      if (← readByte (pkt + 3)) > 0 then
        let dstaddr ← readAddr (pkt + rteLen - 16)
        modifyPacket fun p => { p with dstaddr := dstaddr }
        bindIp6 (pkt + rteLen) (usub 32 len rteLen)
      else bindIp6 (pkt + rteLen) (usub 32 len rteLen)

/-- `sizeof(struct ip6_frag)`. -/
def sizeofIp6Frag : ℕ := 8

/-- `IP6F_OFF_MASK` on a little-endian target. -/
def ip6fOffMask : ℕ := 0xf8ff

/-- `IP6F_MORE_FRAG` on a little-endian target. -/
def ip6fMoreFrag : ℕ := 0x0100

/-- `decode_ip6_frag`. -/
def decodeIp6Frag (pkt : ℤ) (len : ℕ) : Decode Outcome := do
  if len < sizeofIp6Frag then return .ret (-1)
  else
    let ip6Off ← readNtohs (pkt + 2)
    modifyPacket fun p =>
      { p with offset := ip6Off &&& ip6fOffMask, mf := ip6Off &&& ip6fMoreFrag ≠ 0 }
    let protocol ← readByte pkt
    let id := (← readBytes (pkt + 4) 4).raw32 (pkt + 4)
    modifyPacket fun p => { p with protocol := protocol, id := id }
    addPayload sizeofIp6Frag
    subPaysize sizeofIp6Frag
    packetLayerIns pkt sizeofIp6Frag .ip6Frag
    let p ← getPacket
    if p.offset ≠ 0 ∨ p.mf then return .ret 0
    else bindIp6 (pkt + sizeofIp6Frag) (usub 32 len sizeofIp6Frag)

/-- `sizeof(struct ip6_ext)`. -/
def sizeofIp6Ext : ℕ := 2

/-- `decode_ip6_ext`, with its `ntohs` of a length that is in host order. -/
def decodeIp6Ext (pkt : ℤ) (len : ℕ) : Decode Outcome := do
  if len < sizeofIp6Ext then return .ret (-1)
  else
    let extLen := (← readByte (pkt + 1)) * 8 + 8
    if len < extLen then return .ret (-1)
    else
      subPaysize (ntohs extLen)
      addPayload (ntohs extLen)
      let protocol ← readByte pkt
      modifyPacket fun p => { p with protocol := protocol }
      addPayload extLen
      subPaysize extLen
      packetLayerIns pkt extLen .ip6Ext
      bindIp6 (pkt + extLen) (usub 32 len extLen)

/-- `sizeof(struct ip6_hdr)`. -/
def sizeofIp6Hdr : ℕ := 40

/-- `decode_ip6`. -/
def decodeIp6 (pkt : ℤ) (len : ℕ) : Decode Outcome := do
  if len < sizeofIp6Hdr then return .ret (-1)
  else
    let protocol ← readByte (pkt + 6)
    modifyPacket fun p => { p with version := 6, protocol := protocol }
    addPayload sizeofIp6Hdr
    let paysize ← readNtohs (pkt + 4)
    modifyPacket fun p => { p with paysize := paysize }
    packetLayerIns pkt sizeofIp6Hdr .ip6
    let ttl ← readByte (pkt + 7)
    modifyPacket fun p => { p with ttl := ttl }
    let srcaddr ← readAddr (pkt + 8)
    let dstaddr ← readAddr (pkt + 24)
    modifyPacket fun p => { p with srcaddr := srcaddr, dstaddr := dstaddr }
    bindIp6 (pkt + sizeofIp6Hdr) (usub 32 len sizeofIp6Hdr)

/-! ### Decoding -/

/-- The decoder called. -/
def Call.body (fuel : ℕ) (c : Call) : Decode Outcome :=
  match c.decoder with
  | .ip => decodeIp c.pkt c.len
  | .ip6 => decodeIp6 c.pkt c.len
  | .ip6Rte => decodeIp6Rte c.pkt c.len
  | .ip6Frag => decodeIp6Frag c.pkt c.len
  | .ip6Ext => decodeIp6Ext c.pkt c.len
  | .tcp => decodeTcp fuel c.pkt c.len
  | .udp => decodeUdp c.pkt c.len

/-- A call and the calls it ends with, one after the other. -/
def decode (mem : Memory) : ℕ → Call → Decoding → Option ℤ × Decoding
  | 0, _, s => (none, s)
  | fuel + 1, c, s =>
      match c.body fuel ⟨mem, c⟩ s with
      | (some (.ret r), s) => (some r, s)
      | (some (.call d), s) => decode mem fuel d { s with calls := s.calls ++ [(c, d)] }
      | (none, s) => (none, s)

end CLibrary
