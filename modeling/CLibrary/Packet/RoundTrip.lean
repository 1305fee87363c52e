import CLibrary.Packet.Encode

/-!
Decoding inverts encoding, for whole datagrams.

* `IpHeader.At`, …: the fields where a decoder looks for them; `IpHeader.At.fill`, …:
  so the packet behind a header is the one of its fields.
* `Decodes`: a call ends, and what it leaves in the packet.
* `Datagram.decodes_store`: by induction on the datagram.
* `layers_store`, `options_store`, `payload_store`, `paysize_store`: what the packet of
  a datagram is in terms of its layers, its options and its payload.
* `decode_datagram`: what decoding a datagram returns and leaves in the packet.
-/

namespace CLibrary

section Headers

variable {mem : Memory} {a : ℤ} {protocol len n : ℕ} {p : Packet} {rest : List UInt8}

/-! ### IPv4 -/

lemma IpHeader.off_lt (h : IpHeader) : h.off < 2 ^ 16 := by
  have hoff := h.offset_lt
  have hdf := h.df.toNat_le
  have hmf := h.mf.toNat_le
  rw [IpHeader.off]
  omega

lemma IpHeader.length_bytes (h : IpHeader) : (h.bytes protocol len).length = h.size := by
  simp only [IpHeader.bytes, IpHeader.size, List.length_append, List.length_cons, List.length_nil,
    length_bytes16, List.length_ofFn]

/-- The fields of an IPv4 header. -/
structure IpHeader.At (h : IpHeader) (mem : Memory) (a : ℤ) (protocol len : ℕ) : Prop where
  hlen : mem.byte a % 16 * 4 = h.size
  tos : mem.byte (a + 1) = h.tos.toNat
  total : mem.be16 (a + 2) = h.size + len
  id : mem.raw16 (a + 4) = ntohs h.id.toNat
  off : mem.be16 (a + 6) = h.off
  ttl : mem.byte (a + 8) = h.ttl.toNat
  protocol : mem.byte (a + 9) = protocol
  srcaddr : ∀ i : Fin 4, mem (a + 12 + (i.val : ℤ)) = h.srcaddr i
  dstaddr : ∀ i : Fin 4, mem (a + 16 + (i.val : ℤ)) = h.dstaddr i

lemma IpHeader.at_of_holds {h : IpHeader} (hmem : mem.Holds a (h.bytes protocol len))
    (hlen : h.size + len < 2 ^ 16) (hprotocol : protocol < 256) : h.At mem a protocol len := by
  simp only [IpHeader.bytes, holds_append, holds_cons, List.length_append, List.length_cons,
    List.length_nil, length_bytes16, List.length_ofFn, Nat.reduceAdd, Nat.cast_ofNat] at hmem
  obtain ⟨⟨⟨⟨⟨⟨⟨⟨⟨hb0, hb1, -⟩, hb2⟩, hb4⟩, hb6⟩, hb8, hb9, -⟩, -⟩, hb12⟩, hb16⟩, -⟩ := hmem
  have hwords := h.words
  have hshort := h.short
  refine ⟨?_, ?_, be16_of_holds hb2 hlen, raw16_of_holds hb4, be16_of_holds hb6 h.off_lt, ?_, ?_,
    holds_ofFn hb12, holds_ofFn hb16⟩
  · rw [Memory.byte, hb0, UInt8.toNat_ofNat']
    simp only [IpHeader.size]
    omega
  · rw [Memory.byte, hb1]
  · rw [Memory.byte, hb8]
  · rw [Memory.byte, show a + 9 = a + 8 + 1 by ring, hb9, UInt8.toNat_ofNat']
    omega

namespace IpHeader.At

variable {h : IpHeader}

lemma accepts (hat : h.At mem a protocol len) (hlen : h.size + len < 2 ^ 16)
    (hn : h.size + len ≤ n) : (⟨.ip, a, n⟩ : Call).Accepts mem := by
  have hsub : usub 32 (h.size + len) h.size = len := by
    rw [usub_of_le (by omega) (by omega)]
    omega
  refine ⟨?_, ?_⟩
  · rw [Call.ipHlen, hat.hlen]
    exact (Nat.le_add_right _ _).trans hn
  · rw [Call.ipLen, Call.ipHlen, hat.hlen, hat.total, hsub]
    exact (Nat.le_add_left _ _).trans hn

lemma fragment_iff (hat : h.At mem a protocol len) :
    (⟨.ip, a, n⟩ : Call).Fragment mem ↔ h.mf = true ∨ h.offset ≠ 0 := by
  have hoff := h.offset_lt
  have hiff : (⟨.ip, a, n⟩ : Call).Fragment mem ↔
      mem.be16 (a + 6) % 2 ^ 13 ≠ 0 ∨ mem.be16 (a + 6) / 2 ^ 13 % 2 = 1 := Iff.rfl
  rw [hiff, hat.off, IpHeader.off]
  cases h.df <;> cases h.mf <;>
    simp only [Bool.toNat_true, Bool.toNat_false, Bool.false_eq_true, false_or, true_or,
      iff_true] <;>
    omega

/-- What the decoder stores of a header. -/
lemma fill (hat : h.At mem a protocol len) (hlen : h.size + len < 2 ^ 16) :
    (⟨.ip, a, n⟩ : Call).fill mem p = h.store a protocol len p := by
  have hsub : usub 32 (h.size + len) h.size = len := by
    rw [usub_of_le (by omega) (by omega)]
    omega
  have hflags : decide (h.off / 2 ^ 14 % 2 = 1) = h.df ∧ decide (h.off / 2 ^ 13 % 2 = 1) = h.mf ∧
      h.off % 2 ^ 13 = h.offset := by
    have hoff := h.offset_lt
    rw [IpHeader.off]
    cases h.df <;> cases h.mf <;>
      simp only [Bool.toNat_true, Bool.toNat_false, decide_eq_true_eq, decide_eq_false_iff_not] <;>
      omega
  have hpatch : ∀ (addr : Fin 4 → UInt8) (b : ℤ) (old : IpAddr),
      (∀ i : Fin 4, mem (b + (i.val : ℤ)) = addr i) →
      (fun i : Fin 16 => if i.val < 4 then mem (b + i) else old i) = IpHeader.patch addr old := by
    intro addr b old haddr
    funext i
    rw [IpHeader.patch]
    split_ifs with hi
    · exact haddr ⟨i.val, hi⟩
    · rfl
  obtain ⟨hdf, hmf, hoffset⟩ := hflags
  simp only [Call.fill, Call.fields, Call.size, Call.advance, Call.paysize, Call.ipHlen, Call.ipLen,
    hat.hlen, hat.total, hat.off, hat.id, hat.tos, hat.ttl, hat.protocol, hsub, hdf, hmf, hoffset,
    hpatch h.srcaddr _ _ hat.srcaddr, hpatch h.dstaddr _ _ hat.dstaddr]
  rfl

end IpHeader.At

/-! ### IPv6 -/

lemma Ip6Header.length_bytes (h : Ip6Header) : (h.bytes protocol len).length = sizeofIp6Hdr := by
  simp only [Ip6Header.bytes, List.length_append, List.length_cons, List.length_nil,
    length_bytes16, List.length_ofFn, sizeofIp6Hdr]

/-- The fields of an IPv6 header. -/
structure Ip6Header.At (h : Ip6Header) (mem : Memory) (a : ℤ) (protocol len : ℕ) : Prop where
  length : mem.be16 (a + 4) = len
  protocol : mem.byte (a + 6) = protocol
  hopLimit : mem.byte (a + 7) = h.hopLimit.toNat
  srcaddr : ∀ i : Fin 16, mem (a + 8 + (i.val : ℤ)) = h.srcaddr i
  dstaddr : ∀ i : Fin 16, mem (a + 24 + (i.val : ℤ)) = h.dstaddr i

lemma Ip6Header.at_of_holds {h : Ip6Header} (hmem : mem.Holds a (h.bytes protocol len))
    (hlen : len < 2 ^ 16) (hprotocol : protocol < 256) : h.At mem a protocol len := by
  simp only [Ip6Header.bytes, holds_append, holds_cons, List.length_append, List.length_cons,
    List.length_nil, length_bytes16, List.length_ofFn, Nat.reduceAdd, Nat.cast_ofNat] at hmem
  obtain ⟨⟨⟨⟨-, hb4⟩, hb6, hb7, -⟩, hb8⟩, hb24⟩ := hmem
  refine ⟨be16_of_holds hb4 hlen, ?_, ?_, holds_ofFn hb8, holds_ofFn hb24⟩
  · rw [Memory.byte, hb6, UInt8.toNat_ofNat']
    omega
  · rw [Memory.byte, show a + 7 = a + 6 + 1 by ring, hb7]

/-- What the decoder stores of a header. -/
lemma Ip6Header.At.fill {h : Ip6Header} (hat : h.At mem a protocol len) :
    (⟨.ip6, a, n⟩ : Call).fill mem p = h.store a protocol len p := by
  simp only [Call.fill, Call.fields, Call.size, Call.advance, Call.paysize, hat.length,
    hat.protocol, hat.hopLimit, hat.srcaddr, hat.dstaddr]
  rfl

/-! ### Routing headers -/

lemma length_flatMap_ofFn (addresses : List IpAddr) :
    (addresses.flatMap fun addr => List.ofFn addr).length = 16 * addresses.length := by
  rw [List.length_flatMap, List.map_congr_left fun addr _ => List.length_ofFn,
    List.map_const', List.sum_replicate, smul_eq_mul, mul_comm]

lemma RteHeader.length_bytes (h : RteHeader) : (h.bytes protocol).length = h.size := by
  simp only [RteHeader.bytes, RteHeader.size, List.length_append, List.length_cons,
    List.length_nil, List.length_ofFn, length_flatMap_ofFn]

/-- The fields of a routing header. -/
structure RteHeader.At (h : RteHeader) (mem : Memory) (a : ℤ) (protocol : ℕ) : Prop where
  protocol : mem.byte a = protocol
  hlen : mem.byte (a + 1) * 8 + 8 = h.size
  segleft : mem.byte (a + 3) = h.segleft.toNat
  last : ∀ addr ∈ h.addresses.getLast?, ∀ i : Fin 16,
    mem (a + h.size - 16 + (i.val : ℤ)) = addr i

lemma RteHeader.at_of_holds {h : RteHeader} (hmem : mem.Holds a (h.bytes protocol))
    (hprotocol : protocol < 256) : h.At mem a protocol := by
  simp only [RteHeader.bytes, holds_append, holds_cons, List.length_append, List.length_cons,
    List.length_nil, List.length_ofFn, Nat.reduceAdd, Nat.cast_ofNat] at hmem
  obtain ⟨⟨⟨hb0, hb1, -, hb3, -⟩, -⟩, hb8⟩ := hmem
  have hmany := h.many
  refine ⟨?_, ?_, ?_, fun addr haddr i => ?_⟩
  · rw [Memory.byte, hb0, UInt8.toNat_ofNat']
    omega
  · rw [Memory.byte, hb1, UInt8.toNat_ofNat', RteHeader.size]
    omega
  · rw [Memory.byte, show a + 3 = a + 1 + 1 + 1 by ring, hb3]
  · obtain ⟨l, hl⟩ := List.getLast?_eq_some_iff.mp haddr
    rw [hl, List.flatMap_append, List.flatMap_singleton, holds_append, length_flatMap_ofFn] at hb8
    have hplace : a + (h.size : ℤ) - 16 = a + 8 + ((16 * l.length : ℕ) : ℤ) := by
      rw [RteHeader.size, hl, List.length_append, List.length_singleton]
      push_cast
      ring
    rw [hplace]
    exact holds_ofFn hb8.2 i

/-- What the decoder stores of a header. -/
lemma RteHeader.At.fill {h : RteHeader} (hat : h.At mem a protocol) (hsize : h.size ≤ p.paysize)
    (hp : p.paysize < 2 ^ 32) :
    (⟨.ip6Rte, a, n⟩ : Call).fill mem p = h.store a protocol p := by
  have hdst : (if mem.byte (a + 3) > 0 then fun i : Fin 16 => mem (a + (h.size : ℤ) - 16 + i)
      else p.dstaddr) = if h.segleft.toNat = 0 then p.dstaddr
        else h.addresses.getLast?.getD p.dstaddr := by
    rw [hat.segleft]
    by_cases hleft : h.segleft.toNat = 0
    · rw [if_neg (by omega), if_pos hleft]
    · have hnil : h.addresses ≠ [] := by
        intro hnil
        have hle := h.left
        rw [hnil, List.length_nil] at hle
        omega
      rw [if_pos (Nat.pos_of_ne_zero hleft), if_neg hleft, List.getLast?_eq_some_getLast hnil]
      funext i
      exact hat.last _ (List.getLast?_eq_some_getLast hnil) i
  simp only [Call.fill, Call.fields, Call.size, Call.advance, Call.paysize, Call.extLen, hat.hlen,
    hat.protocol, hdst, usub_of_le hsize hp]
  rfl

/-! ### UDP -/

lemma UdpHeader.length_bytes (h : UdpHeader) : (h.bytes len).length = sizeofUdphdr := rfl

/-- The fields of a UDP header. -/
structure UdpHeader.At (h : UdpHeader) (mem : Memory) (a : ℤ) : Prop where
  srcport : mem.be16 a = h.srcport.toNat
  dstport : mem.be16 (a + 2) = h.dstport.toNat
  checksum : mem.raw16 (a + 6) = ntohs h.checksum.toNat

lemma UdpHeader.at_of_holds {h : UdpHeader} (hmem : mem.Holds a (h.bytes len)) : h.At mem a := by
  simp only [UdpHeader.bytes, holds_append, List.length_append, length_bytes16, Nat.reduceAdd,
    Nat.cast_ofNat] at hmem
  obtain ⟨⟨⟨hb0, hb2⟩, -⟩, hb6⟩ := hmem
  exact ⟨be16_of_holds hb0 h.srcport.toNat_lt, be16_of_holds hb2 h.dstport.toNat_lt,
    raw16_of_holds hb6⟩

/-- What the decoder stores of a header. -/
lemma UdpHeader.At.fill {h : UdpHeader} (hat : h.At mem a) (hsize : sizeofUdphdr ≤ p.paysize)
    (hp : p.paysize < 2 ^ 32) : (⟨.udp, a, n⟩ : Call).fill mem p = h.store a p := by
  simp only [Call.fill, Call.fields, Call.size, Call.advance, Call.paysize, hat.srcport,
    hat.dstport, usub_of_le hsize hp]
  rfl

/-! ### TCP -/

lemma TcpHeader.length_bytes (h : TcpHeader) : h.bytes.length = h.size := by
  simp only [TcpHeader.bytes, TcpHeader.size, List.length_append, List.length_cons,
    List.length_nil, length_bytes16, List.length_ofFn]

/-- The fields of a TCP header. -/
structure TcpHeader.At (h : TcpHeader) (mem : Memory) (a : ℤ) : Prop where
  srcport : mem.be16 a = h.srcport.toNat
  dstport : mem.be16 (a + 2) = h.dstport.toNat
  hlen : mem.byte (a + 12) / 16 * 4 = h.size
  options : mem.Holds (a + sizeofTcphdr) (encodeOptions h.options)

lemma TcpHeader.at_of_holds {h : TcpHeader} (hmem : mem.Holds a h.bytes) : h.At mem a := by
  simp only [TcpHeader.bytes, holds_append, holds_cons, List.length_append, List.length_cons,
    List.length_nil, length_bytes16, List.length_ofFn, Nat.reduceAdd, Nat.cast_ofNat] at hmem
  obtain ⟨⟨⟨⟨⟨⟨hb0, hb2⟩, -⟩, -⟩, hb12, -⟩, -⟩, hb20⟩ := hmem
  have hwords := h.words
  have hshort := h.short
  refine ⟨be16_of_holds hb0 h.srcport.toNat_lt, be16_of_holds hb2 h.dstport.toNat_lt, ?_, hb20⟩
  rw [Memory.byte, hb12, UInt8.toNat_ofNat', TcpHeader.size]
  omega

/-- The options recorded of an area that is full of known ones. -/
lemma recorded_known {items : List KnownOption} (hmem : mem.Holds a (encodeOptions items)) {k : ℕ}
    (hk : items.length < k) : recorded mem a (encodeOptions items).length k 0 =
      (offsets KnownOption.size 0 items).map fun e => e.2.placed (a + e.1) := by
  have hat := known_at (f := ⟨mem, ⟨.tcp, 0, 0⟩⟩) hmem le_rfl
  obtain ⟨m, rfl⟩ : ∃ m, k = items.length + (m + 1) := ⟨k - items.length - 1, by omega⟩
  have hend : optNext mem a (encodeOptions items).length (encodeOptions items).length = none :=
    if_neg (lt_irrefl _)
  rw [recorded, chain_offsets fun e he => (hat e he).2.1, List.filterMap_append,
    List.filterMap_map, ← length_encodeOptions, Nat.zero_add, chain_succ_none hend,
    List.filterMap_cons, if_neg (lt_irrefl _), List.filterMap_nil, List.append_nil]
  refine List.filterMap_eq_map_iff_forall_eq_some.mpr fun e he => ?_
  rw [Function.comp_apply, if_pos (hat e he).1, (hat e he).2.2]

namespace TcpHeader.At

variable {h : TcpHeader}

lemma tcpHlen (hat : h.At mem a) : (⟨.tcp, a, n⟩ : Call).tcpHlen mem = h.size := hat.hlen

lemma tcpOptlen (hat : h.At mem a) :
    (⟨.tcp, a, n⟩ : Call).tcpOptlen mem = (encodeOptions h.options).length := by
  have hshort := h.short
  have hsub : usub 32 h.size sizeofTcphdr = (encodeOptions h.options).length := by
    rw [TcpHeader.size, sizeofTcphdr, usub_of_le (by omega) (by omega)]
    omega
  rw [Call.tcpOptlen, hat.tcpHlen, hsub, Nat.mod_eq_of_lt (by omega)]

lemma optStart (hat : h.At mem a) : (⟨.tcp, a, n⟩ : Call).optStart mem = a + sizeofTcphdr := by
  rw [Call.optStart, hat.tcpHlen, hat.tcpOptlen, TcpHeader.size, sizeofTcphdr]
  push_cast
  ring

/-- The loop over the options ends behind the last. -/
lemma stops (hat : h.At mem a) {k : ℕ} (hk : h.options.length < k) :
    Stops ((⟨.tcp, a, n⟩ : Call).optNext mem) k 0 := by
  have hnext : (⟨.tcp, a, n⟩ : Call).optNext mem =
      optNext mem (a + sizeofTcphdr) (encodeOptions h.options).length := by
    funext pos
    rw [Call.optNext, hat.optStart, hat.tcpOptlen]
  have hend : optNext mem (a + sizeofTcphdr) (encodeOptions h.options).length
      (encodeOptions h.options).length = none := if_neg (lt_irrefl _)
  have hstop : Stops (optNext mem (a + sizeofTcphdr) (encodeOptions h.options).length) 1
      (0 + (h.options.map KnownOption.size).sum) := by
    intro b hb
    rw [Nat.zero_add, ← length_encodeOptions, hend] at hb
    cases hb
  have hat' := known_at (f := ⟨mem, ⟨.tcp, 0, 0⟩⟩) hat.options le_rfl
  rw [hnext]
  exact (stops_offsets (fun e he => (hat' e he).2.1) hstop).mono hk

/-- The options recorded are the ones that there are, if there is room. -/
lemma options_eq (hat : h.At mem a) (hn : sizeofTcphdr ≤ n) {k : ℕ} (hk : h.options.length < k) :
    (⟨.tcp, a, n⟩ : Call).options mem k =
      (offsets KnownOption.size 0 h.recorded).map fun e => e.2.placed (a + sizeofTcphdr + e.1) := by
  rw [Call.options, TcpHeader.recorded]
  by_cases hroom : (encodeOptions h.options).length ≤ maxTcpoptlen
  · rw [if_pos hroom]
    by_cases hnil : (encodeOptions h.options).length = 0
    · have hempty : h.options = [] := by
        cases hitems : h.options with
        | nil => rfl
        | cons o items =>
          have hpos := o.size_pos
          rw [hitems, length_encodeOptions, List.map_cons, List.sum_cons] at hnil
          omega
      rw [if_neg fun hloop => hloop.2.2.1 (by rw [hat.tcpOptlen]; exact hnil), hempty]
      rfl
    · have hloop : (⟨.tcp, a, n⟩ : Call).LoopsOptions mem := by
        refine ⟨hn, ?_, ?_⟩
        · rw [hat.tcpOptlen]
          exact hnil
        · rw [hat.tcpOptlen]
          exact hroom
      rw [if_pos ⟨rfl, hloop⟩, hat.optStart, hat.tcpOptlen]
      exact recorded_known hat.options hk
  · have hloop : ¬ (⟨.tcp, a, n⟩ : Call).LoopsOptions mem := by
      intro hloop
      have hle := hloop.2.2
      rw [hat.tcpOptlen] at hle
      exact hroom hle
    rw [if_neg hroom, if_neg fun h' => hloop h'.2]
    rfl

/-- What the decoder stores of a header and its options. -/
lemma finish (hat : h.At mem a) (hn : sizeofTcphdr ≤ n) {k : ℕ} (hk : h.options.length < k)
    (hsize : h.size ≤ p.paysize) (hp : p.paysize < 2 ^ 32) :
    (⟨.tcp, a, n⟩ : Call).finish mem k p = h.store a p := by
  have hacc : (⟨.tcp, a, n⟩ : Call).Accepts mem := hn
  have hhlen : (⟨.tcp, a, n⟩ : Call).tcpHlen mem = h.size := hat.tcpHlen
  rw [Call.finish, if_pos hacc, hat.options_eq hn hk, TcpHeader.store]
  simp only [Call.fill, Call.fields, Call.size, Call.advance, Call.paysize, hat.srcport,
    hat.dstport, hhlen, usub_of_le hsize hp]
  rfl

end TcpHeader.At

end Headers

/-! ### Datagrams -/

namespace Datagram

variable {mem : Memory} {a : ℤ} {version n k : ℕ} {p : Packet} {d : Datagram}

lemma number_lt (d : Datagram) : d.number < 256 := by
  cases d <;>
    norm_num [number, ipprotoUdp, ipprotoTcp, ipprotoIpip, ipprotoIpv6, ipprotoRouting]

/-- `bind_ip` knows the numbers of what may be inside IPv4, and no others. -/
lemma ipSwitch_iff (d : Datagram) : ipSwitch d.number = some d.decoder ↔ d.OverIp := by
  cases d with
  | rte h body => exact ⟨fun h => (by cases h), False.elim⟩
  | _ => exact ⟨fun _ => trivial, fun _ => rfl⟩

/-- `bind_ip6` knows the numbers of what may be inside IPv6, and no others. -/
lemma ip6Switch_iff (d : Datagram) : ip6Switch d.number = some d.decoder ↔ d.OverIp6 := by
  cases d with
  | ip6 h body => exact ⟨fun h => (by cases h), False.elim⟩
  | _ => exact ⟨fun _ => trivial, fun _ => rfl⟩

/-- The window starts with the datagram: an IP header sets it. -/
def Windowed (d : Datagram) (p : Packet) : Prop :=
  d.decoder = .ip ∨ d.decoder = .ip6 ∨ p.paysize = d.encode.length

/-- Decoding a datagram ends within its rounds. -/
def Decodes (mem : Memory) (k : ℕ) (c : Call) (p p' : Packet) : Prop :=
  Finishes mem k c ∧ result mem k c p = (0, p')

/-- A header that hands on. -/
lemma Decodes.of_nested {c c' : Call} {p' : Packet} (hnested : c.nested mem = some c')
    (h : Decodes mem k c' (c.fill mem p) p') : Decodes mem (k + 1) c p p' :=
  ⟨(finishes_of_nested hnested).mpr h.1, by rw [result_of_nested hnested, h.2]⟩

/-- The last header, other than a TCP header. -/
lemma Decodes.of_last {c : Call} (hacc : c.Accepts mem) (hnested : c.nested mem = none)
    (hdec : c.decoder ≠ .tcp) (hvalue : c.value mem p = 0) :
    Decodes mem (k + 1) c p (c.fill mem p) := by
  refine ⟨(finishes_of_last hnested).mpr fun h => absurd h hdec, ?_⟩
  have hoptions : c.options mem k = [] := by
    rw [Call.options, if_neg fun h => hdec h.1]
  rw [result_of_last hnested, hvalue, Call.finish, if_pos hacc, hoptions, List.foldl_nil]

lemma decodes_udp (h : UdpHeader) (payload : List UInt8) (hfits : (udp h payload).Fits p.version)
    (hmem : mem.Holds a (udp h payload).encode) (hn : (udp h payload).encode.length ≤ n)
    (hn32 : n < 2 ^ 32) (hp : p.paysize = (udp h payload).encode.length) (hk : 1 ≤ k) :
    Decodes mem k ⟨.udp, a, n⟩ p (h.store a p) := by
  obtain ⟨k, rfl⟩ := Nat.exists_eq_add_of_le' hk
  rw [encode, List.length_append, h.length_bytes] at hn hp
  have hat := UdpHeader.at_of_holds (holds_append.mp hmem).1
  have hacc : (⟨.udp, a, n⟩ : Call).Accepts mem := (Nat.le_add_right _ _).trans hn
  have hvalue : (⟨.udp, a, n⟩ : Call).value mem p = 0 := by
    have hval : (⟨.udp, a, n⟩ : Call).value mem p =
        if mem.raw16 (a + 6) = 0 ∧ p.version = 6 then -1 else 0 := by
      have hwhole : ¬ (⟨.udp, a, n⟩ : Call).Fragment mem := id
      rw [Call.value, if_neg (not_not.mpr hacc), if_neg hwhole]
    rw [hval, hat.checksum, if_neg]
    rintro ⟨hzero, hsix⟩
    refine hfits hsix (UInt16.toNat_inj.mp ?_)
    have hlt := h.checksum.toNat_lt
    rw [ntohs] at hzero
    rw [UInt16.toNat_zero]
    omega
  rw [← hat.fill (n := n) (by omega) (by omega)]
  exact .of_last hacc (nested_eq_none (.inr rfl)) (fun h => by cases h) hvalue

lemma decodes_tcp (h : TcpHeader) (payload : List UInt8)
    (hmem : mem.Holds a (tcp h payload).encode) (hn : (tcp h payload).encode.length ≤ n)
    (hn32 : n < 2 ^ 32) (hp : p.paysize = (tcp h payload).encode.length)
    (hk : h.options.length + 2 ≤ k) : Decodes mem k ⟨.tcp, a, n⟩ p (h.store a p) := by
  obtain ⟨k, rfl⟩ := Nat.exists_eq_add_of_le' (show 1 ≤ k by omega)
  rw [encode, List.length_append, h.length_bytes] at hn hp
  have hat := TcpHeader.at_of_holds (holds_append.mp hmem).1
  have hroom : sizeofTcphdr ≤ n := by
    rw [TcpHeader.size] at hn
    rw [sizeofTcphdr]
    omega
  have hacc : (⟨.tcp, a, n⟩ : Call).Accepts mem := hroom
  have hnested : (⟨.tcp, a, n⟩ : Call).nested mem = none := nested_eq_none (.inl rfl)
  refine ⟨(finishes_of_last hnested).mpr fun _ _ => hat.stops (by omega), ?_⟩
  rw [result_of_last hnested, Call.value_tcp hacc rfl,
    hat.finish hroom (by omega) (by omega) (by omega)]

lemma decodes_fragment (h : IpHeader) (protocol : UInt8) (payload : List UInt8)
    (hfits : (fragment h protocol payload).Fits version)
    (hmem : mem.Holds a (fragment h protocol payload).encode)
    (hn : (fragment h protocol payload).encode.length ≤ n) (hk : 1 ≤ k) :
    Decodes mem k ⟨.ip, a, n⟩ p (h.store a protocol.toNat payload.length p) := by
  obtain ⟨k, rfl⟩ := Nat.exists_eq_add_of_le' hk
  obtain ⟨hfrag, hlen⟩ := hfits
  rw [encode, List.length_append, h.length_bytes] at hn
  have hat := IpHeader.at_of_holds (holds_append.mp hmem).1 hlen protocol.toNat_lt
  have hacc := hat.accepts hlen hn
  have hfragment : (⟨.ip, a, n⟩ : Call).Fragment mem := hat.fragment_iff.mpr hfrag
  rw [← hat.fill (n := n) hlen]
  refine .of_last hacc (Call.nested_of_fragment hfragment) (fun h => by cases h) ?_
  rw [Call.value, if_neg (not_not.mpr hacc), if_pos hfragment]

/-- **Decoding stores the fields of every header**, by induction on the datagram: the
window behind a header is the one of its body. -/
lemma decodes_store (d : Datagram) (hfits : d.Fits p.version) (hmem : mem.Holds a d.encode)
    (hn : d.encode.length ≤ n) (hn32 : n < 2 ^ 32) (hp : d.Windowed p) (hk : d.rounds ≤ k) :
    Decodes mem k ⟨d.decoder, a, n⟩ p (d.store a p) := by
  induction d generalizing a n k p with
  | udp h payload =>
    exact decodes_udp h payload hfits hmem hn hn32 (by simpa [Windowed, decoder] using hp) hk
  | tcp h payload =>
    exact decodes_tcp h payload hmem hn hn32 (by simpa [Windowed, decoder] using hp) hk
  | fragment h protocol payload => exact decodes_fragment h protocol payload hfits hmem hn hk
  | ip h body ih =>
    obtain ⟨k, rfl⟩ := Nat.exists_eq_add_of_le' ((Nat.le_add_left _ _).trans hk)
    obtain ⟨⟨hmf, hoffset⟩, hlen, hover, hbody⟩ := hfits
    rw [encode, List.length_append, h.length_bytes] at hn
    obtain ⟨hheader, hrest⟩ := holds_append.mp hmem
    rw [h.length_bytes] at hrest
    have hat := IpHeader.at_of_holds hheader hlen body.number_lt
    have hwhole : ¬ (⟨.ip, a, n⟩ : Call).Fragment mem := by
      rw [hat.fragment_iff, hmf, hoffset]
      decide
    have hnested : (⟨.ip, a, n⟩ : Call).nested mem =
        some ⟨body.decoder, a + h.size, n - h.size⟩ := by
      have hfollower : (⟨.ip, a, n⟩ : Call).follower mem = ipSwitch (mem.byte (a + 9)) := rfl
      have hsize : (⟨.ip, a, n⟩ : Call).size mem = h.size := hat.hlen
      rw [Call.nested_of_accepts (hat.accepts hlen hn) hwhole, hfollower, hat.protocol,
        body.ipSwitch_iff.mpr hover, Option.map_some, hsize, usub_of_le (by omega) hn32]
    change Decodes mem (k + 1) ⟨.ip, a, n⟩ p _
    refine .of_nested hnested ?_
    rw [hat.fill hlen]
    exact ih hbody hrest (by omega) (by omega) (.inr (.inr rfl)) (Nat.le_of_succ_le_succ hk)
  | ip6 h body ih =>
    obtain ⟨k, rfl⟩ := Nat.exists_eq_add_of_le' ((Nat.le_add_left _ _).trans hk)
    obtain ⟨hlen, hover, hbody⟩ := hfits
    rw [encode, List.length_append, h.length_bytes] at hn
    obtain ⟨hheader, hrest⟩ := holds_append.mp hmem
    rw [h.length_bytes] at hrest
    have hat := Ip6Header.at_of_holds hheader hlen body.number_lt
    have hacc : (⟨.ip6, a, n⟩ : Call).Accepts mem := (Nat.le_add_right _ _).trans hn
    have hnested : (⟨.ip6, a, n⟩ : Call).nested mem =
        some ⟨body.decoder, a + sizeofIp6Hdr, n - sizeofIp6Hdr⟩ := by
      have hfollower : (⟨.ip6, a, n⟩ : Call).follower mem = ip6Switch (mem.byte (a + 6)) := rfl
      have hsize : (⟨.ip6, a, n⟩ : Call).size mem = sizeofIp6Hdr := rfl
      rw [Call.nested_of_accepts hacc id, hfollower, hat.protocol,
        body.ip6Switch_iff.mpr hover, Option.map_some, hsize, usub_of_le (by omega) hn32]
    change Decodes mem (k + 1) ⟨.ip6, a, n⟩ p _
    refine .of_nested hnested ?_
    rw [hat.fill]
    exact ih hbody hrest (by omega) (by omega) (.inr (.inr rfl)) (Nat.le_of_succ_le_succ hk)
  | rte h body ih =>
    obtain ⟨k, rfl⟩ := Nat.exists_eq_add_of_le' ((Nat.le_add_left _ _).trans hk)
    obtain ⟨hover, hbody⟩ := hfits
    replace hp : p.paysize = (rte h body).encode.length := by simpa [Windowed, decoder] using hp
    rw [encode, List.length_append, h.length_bytes] at hn hp
    obtain ⟨hheader, hrest⟩ := holds_append.mp hmem
    rw [h.length_bytes] at hrest
    have hat := RteHeader.at_of_holds hheader body.number_lt
    have hext : (⟨.ip6Rte, a, n⟩ : Call).extLen mem = h.size := hat.hlen
    have hacc : (⟨.ip6Rte, a, n⟩ : Call).Accepts mem := by
      refine ⟨?_, ?_⟩
      · rw [RteHeader.size] at hn
        rw [sizeofIp6Rte]
        dsimp only
        omega
      · rw [hext]
        exact (Nat.le_add_right _ _).trans hn
    have hnested : (⟨.ip6Rte, a, n⟩ : Call).nested mem =
        some ⟨body.decoder, a + h.size, n - h.size⟩ := by
      have hfollower : (⟨.ip6Rte, a, n⟩ : Call).follower mem = ip6Switch (mem.byte a) := rfl
      have hsize : (⟨.ip6Rte, a, n⟩ : Call).size mem = h.size := hext
      rw [Call.nested_of_accepts hacc id, hfollower, hat.protocol,
        body.ip6Switch_iff.mpr hover, Option.map_some, hsize, usub_of_le (by omega) hn32]
    change Decodes mem (k + 1) ⟨.ip6Rte, a, n⟩ p _
    refine .of_nested hnested ?_
    rw [hat.fill (by omega) (by omega)]
    refine ih hbody hrest (by omega) (by omega) (.inr (.inr ?_)) (Nat.le_of_succ_le_succ hk)
    simp only [RteHeader.store, Packet.layerIns]
    omega

/-! ### What is stored -/

section Stored

variable {protocol len : ℕ}

/-- A TCP header changes what the fields before the options are and adds the options. -/
lemma tcp_store_field {α : Type} (field : Packet → α)
    (hoption : ∀ p option, field (Packet.addOption p option) = field p) (h : TcpHeader) :
    field (h.store a p) = field { ({ p with
      transport := (p.layerIns a h.size .tcp).layerCurrent
      srcport := h.srcport.toNat
      dstport := h.dstport.toNat } : Packet).layerIns a h.size .tcp with
        payload := p.payload + h.size
        paysize := p.paysize - h.size } :=
  foldl_addOption_eq field hoption _ _

/-- A layer on top of a stack, and the rest of the datagram above it. -/
lemma layers_above {q : Packet} {l : Protocol} {above : List Protocol}
    (hq : q.layers = (p.layers ++ [l]).take maxLayers)
    (ih : q.layerCount ≤ maxLayers → (d.store a q).layers = (q.layers ++ above).take maxLayers) :
    (d.store a q).layers = (p.layers ++ l :: above).take maxLayers := by
  have hcount : q.layerCount ≤ maxLayers := by
    rw [← length_layers, hq]
    exact List.length_take_le _ _
  rw [ih hcount, hq, take_take_append, List.append_assoc, List.singleton_append]

/-- The layers of the datagram are on top, as far as there is room. -/
lemma layers_store (d : Datagram) (h : p.layerCount ≤ maxLayers) :
    (d.store a p).layers = (p.layers ++ d.layers a).take maxLayers := by
  induction d generalizing a p with
  | udp hdr payload => exact layers_layerIns h _ _ _
  | tcp hdr payload =>
    exact (tcp_store_field Packet.layers (fun _ _ => rfl) hdr).trans (layers_layerIns h _ _ _)
  | fragment hdr protocol payload => exact layers_layerIns h _ _ _
  | ip hdr body ih =>
    have hheader := layers_layerIns h a hdr.size .ip4
    exact layers_above (q := hdr.store a body.number body.encode.length p) hheader ih
  | ip6 hdr body ih =>
    have hheader := layers_layerIns h a sizeofIp6Hdr .ip6
    exact layers_above (q := hdr.store a body.number body.encode.length p) hheader ih
  | rte hdr body ih =>
    have hheader := layers_layerIns h a hdr.size .ip6Rte
    exact layers_above (q := hdr.store a body.number p) hheader ih

/-- The headers are in front of the payload. -/
lemma encode_eq (d : Datagram) : ∃ headers, d.encode = headers ++ d.payload := by
  induction d with
  | udp h payload => exact ⟨_, rfl⟩
  | tcp h payload => exact ⟨_, rfl⟩
  | fragment h protocol payload => exact ⟨_, rfl⟩
  | ip h body ih | ip6 h body ih | rte h body ih =>
    obtain ⟨headers, heq⟩ := ih
    exact ⟨_ ++ headers, by rw [encode, payload, List.append_assoc, ← heq]⟩

/-- The payload moves behind the headers. -/
lemma payload_store (d : Datagram) :
    (d.store a p).payload + d.payload.length = p.payload + d.encode.length := by
  induction d generalizing a p with
  | udp h payload =>
    change p.payload + (sizeofUdphdr : ℤ) + payload.length = _
    rw [encode, List.length_append, h.length_bytes]
    push_cast
    ring
  | tcp h payload =>
    have hstore := tcp_store_field (p := p) (a := a) Packet.payload (fun _ _ => rfl) h
    change (h.store a p).payload + (payload.length : ℤ) = _
    rw [hstore, encode, List.length_append, h.length_bytes]
    push_cast
    ring
  | fragment h protocol payload =>
    change p.payload + (h.size : ℤ) + payload.length = _
    rw [encode, List.length_append, h.length_bytes]
    push_cast
    ring
  | ip h body ih =>
    refine ih.trans ?_
    change p.payload + (h.size : ℤ) + body.encode.length = _
    rw [encode, List.length_append, h.length_bytes]
    push_cast
    ring
  | ip6 h body ih =>
    refine ih.trans ?_
    change p.payload + (sizeofIp6Hdr : ℤ) + body.encode.length = _
    rw [encode, List.length_append, h.length_bytes]
    push_cast
    ring
  | rte h body ih =>
    refine ih.trans ?_
    change p.payload + (h.size : ℤ) + body.encode.length = _
    rw [encode, List.length_append, h.length_bytes]
    push_cast
    ring

/-- `paysize` is the length of the payload. -/
lemma paysize_store (d : Datagram) (h : d.Windowed p) :
    (d.store a p).paysize = d.payload.length := by
  induction d generalizing a p with
  | udp hdr payload =>
    replace h : p.paysize = (udp hdr payload).encode.length := by simpa [Windowed, decoder] using h
    rw [encode, List.length_append, hdr.length_bytes] at h
    change p.paysize - sizeofUdphdr = payload.length
    omega
  | tcp hdr payload =>
    replace h : p.paysize = (tcp hdr payload).encode.length := by simpa [Windowed, decoder] using h
    rw [encode, List.length_append, hdr.length_bytes] at h
    refine (tcp_store_field Packet.paysize (fun _ _ => rfl) hdr).trans ?_
    change p.paysize - hdr.size = payload.length
    omega
  | fragment hdr protocol payload => rfl
  | ip hdr body ih => exact ih (.inr (.inr rfl))
  | ip6 hdr body ih => exact ih (.inr (.inr rfl))
  | rte hdr body ih =>
    replace h : p.paysize = (rte hdr body).encode.length := by simpa [Windowed, decoder] using h
    rw [encode, List.length_append, hdr.length_bytes] at h
    refine ih (.inr (.inr ?_))
    change p.paysize - hdr.size = body.encode.length
    omega

lemma length_recorded (h : TcpHeader) : h.recorded.length ≤ maxTcpoptlen := by
  rw [TcpHeader.recorded]
  split_ifs with hroom
  · have hle : ∀ items : List KnownOption, items.length ≤ (encodeOptions items).length := by
      intro items
      induction items with
      | nil => exact le_rfl
      | cons o items ih =>
        have hpos := o.size_pos
        rw [length_encodeOptions, List.map_cons, List.sum_cons, ← length_encodeOptions,
          List.length_cons]
        omega
    exact (hle _).trans hroom
  · exact Nat.zero_le _

/-- The options recorded follow those that there were. -/
lemma options_store (d : Datagram) (hmem : mem.Holds a d.encode)
    (hcount : p.tcpoptCount + maxTcpoptlen < 2 ^ 32) :
    (d.store a p).tcpOptions.map (TcpOption.seen mem) =
      p.tcpOptions.map (TcpOption.seen mem) ++ d.options.map KnownOption.seen := by
  induction d generalizing a p with
  | udp h payload => exact (List.append_nil _).symm
  | tcp h payload =>
    have hat := TcpHeader.at_of_holds (holds_append.mp hmem).1
    have hlen := length_recorded h
    have hrecorded : mem.Holds (a + sizeofTcphdr) (encodeOptions h.recorded) := by
      rw [TcpHeader.recorded]
      split_ifs
      · exact hat.options
      · exact holds_nil
    change (h.store a p).tcpOptions.map _ = _
    rw [TcpHeader.store, tcpOptions_addOptions, List.map_append, List.map_map]
    · exact congrArg₂ _ rfl (seen_offsets hrecorded)
    · rw [List.length_map, ← List.length_map (f := Prod.snd), map_snd_offsets]
      change p.tcpoptCount + _ < _
      omega
  | fragment h protocol payload => exact (List.append_nil _).symm
  | ip h body ih =>
    obtain ⟨-, hrest⟩ := holds_append.mp hmem
    rw [h.length_bytes] at hrest
    exact ih hrest hcount
  | ip6 h body ih =>
    obtain ⟨-, hrest⟩ := holds_append.mp hmem
    rw [h.length_bytes] at hrest
    exact ih hrest hcount
  | rte h body ih =>
    obtain ⟨-, hrest⟩ := holds_append.mp hmem
    rw [h.length_bytes] at hrest
    exact ih hrest hcount

end Stored

end Datagram

/-! ### The round trip -/

/-- What decoding a datagram at `a` leaves in a packet. -/
structure Datagram.Decoded (d : Datagram) (mem : Memory) (a : ℤ) (p p' : Packet) : Prop where
  fields : p' = d.store a p
  layers : p'.layers = (p.layers ++ d.layers a).take maxLayers
  options : p'.tcpOptions.map (TcpOption.seen mem) =
    p.tcpOptions.map (TcpOption.seen mem) ++ d.options.map KnownOption.seen
  payload : mem.Holds p'.payload d.payload
  paysize : p'.paysize = d.payload.length

/-- **Decoding inverts encoding**: a datagram that fits (no IPv6 inside IPv6 or behind a
routing header, no routing header inside IPv4, a UDP checksum over IPv6, and lengths of
16 bits) and is in memory, whatever is behind it, is decoded within its rounds, and the
packet has the fields of every header, their layers, the TCP options, and a payload that
is the datagram's. -/
theorem decode_datagram (d : Datagram) (mem : Memory) (a : ℤ) (n : UInt32) (packet : Packet)
    (stats : PacketStats) (k : ℕ) (hfits : d.Fits packet.version) (hmem : mem.Holds a d.encode)
    (hn : d.encode.length ≤ n.toNat) (hpayload : packet.payload = a) (hwindow : d.Windowed packet)
    (hlayers : packet.layerCount ≤ maxLayers)
    (hoptions : packet.tcpoptCount + maxTcpoptlen < 2 ^ 32) (hk : d.rounds ≤ k) :
    (decode mem k ⟨d.decoder, a, n.toNat⟩ (.start packet stats)).1 = some 0 ∧
      d.Decoded mem a packet
        (decode mem k ⟨d.decoder, a, n.toNat⟩ (.start packet stats)).2.packet := by
  obtain ⟨hfin, hresult⟩ := d.decodes_store hfits hmem hn n.toNat_lt hwindow hk
  obtain ⟨hpacket, hvalue⟩ := @decode_result mem k ⟨d.decoder, a, n.toNat⟩ (.start packet stats)
  have hstart : (Decoding.start packet stats).packet = packet := rfl
  rw [hstart, hresult] at hpacket hvalue
  obtain ⟨r, hr⟩ := Option.ne_none_iff_exists'.mp ((decode_finishes_iff k _ _).mpr hfin)
  refine ⟨by rw [hr, hvalue r hr], ?_⟩
  rw [hpacket]
  refine ⟨rfl, d.layers_store hlayers, d.options_store hmem hoptions, ?_, d.paysize_store hwindow⟩
  obtain ⟨headers, hencode⟩ := d.encode_eq
  have hplace := d.payload_store (a := a) (p := packet)
  rw [hencode, List.length_append] at hplace
  rw [hencode] at hmem
  have hstored : (d.store a packet).payload = a + (headers.length : ℤ) := by
    push_cast at hplace
    omega
  rw [hstored]
  exact (holds_append.mp hmem).2

/-- A TCP segment with a window scale, behind a routing header with one segment left. -/
def routedSegment : Datagram :=
  .ip6 ⟨fun _ => 0x60, 64, fun _ => 1, fun _ => 2⟩
    (.rte ⟨0, 1, fun _ => 0, [fun _ => 3], by decide, by decide⟩
      (.tcp ⟨80, 8080, fun _ => 7, fun _ => 0, 2, fun _ => 0, [windowScale, nop], by decide,
        by decide⟩ [1, 2, 3]))

/-- The segment, with two bytes of padding. -/
def routedBytes : Memory := Memory.ofList (routedSegment.encode ++ [0, 0])

/-- The segment and back. -/
theorem decode_routed_segment :
    (decode routedBytes 6 ⟨routedSegment.decoder, 0, (93 : UInt32).toNat⟩
      (.start default default)).1 = some 0 ∧
      routedSegment.Decoded routedBytes 0 default (decode routedBytes 6
        ⟨routedSegment.decoder, 0, (93 : UInt32).toNat⟩ (.start default default)).2.packet :=
  decode_datagram routedSegment routedBytes 0 93 default default 6 (by decide +kernel)
    (by decide +kernel) (by decide +kernel) rfl (.inr (.inl rfl)) (Nat.zero_le _)
    (show 0 + 32 < 2 ^ 32 by norm_num) (by decide)

end CLibrary
