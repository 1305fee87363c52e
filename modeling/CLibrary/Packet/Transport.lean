import CLibrary.Packet.Create

/-!
`transport`, and the accessors that follow it.

* `validateTransportProtocol`, `tcpField`: what the accessors share.  `packetSeq`,
  `packetAck`, `packetWin`, `packetTcpflags`, `packetTcpFin`, ...: the accessors.
* `transport_fill`: where `transport` points to behind a transport header, by the
  number of layers in front of it.
* `TransportDenotes`: it points to that header, and the accessors read it.
* `transport_denotes_iff`: it does for as many headers as there is room for.
* `layers_full`: one header more.
-/

namespace CLibrary

/-! ### Accessors -/

/-- Four bytes after `ntohl`. -/
def Memory.be32 (mem : Memory) (a : ℤ) : ℕ := 2 ^ 16 * mem.be16 a + mem.be16 (a + 2)

/-- `validate_transport_protocol`. -/
def validateTransportProtocol (p : Packet) (protocol : Proto) : Bool :=
  match p.transport with
  | none => false
  | some i => (p.layer i).protocol = protocol

/-- A field of the TCP header at `transport->start`, `default` without one. -/
def tcpField {α : Type} (p : Packet) (default : α) (field : ℤ → α) : α :=
  if ¬ validateTransportProtocol p .tcp then default
  else p.transport.elim default fun i => field (p.layer i).start

section Accessors

variable (mem : Memory) (p : Packet)

/-- `packet_win`. -/
def packetWin : ℕ := tcpField p 0 fun start => mem.be16 (start + 14)

/-- `packet_seq`. -/
def packetSeq : ℕ := tcpField p 0 fun start => mem.be32 (start + 4)

/-- `packet_ack`. -/
def packetAck : ℕ := tcpField p 0 fun start => mem.be32 (start + 8)

/-- `packet_tcpflags`. -/
def packetTcpflags : ℕ := tcpField p 0 fun start => mem.byte (start + 13)

/-- `TH_FIN`, `TH_SYN`, `TH_RST`, `TH_PUSH`, `TH_ACK`, `TH_URG`. -/
inductive TcpFlag
  | fin | syn | rst | push | ack | urg
  deriving DecidableEq, Repr

/-- The bit of a flag in `th_flags`. -/
def TcpFlag.mask : TcpFlag → ℕ
  | .fin => 0x01
  | .syn => 0x02
  | .rst => 0x04
  | .push => 0x08
  | .ack => 0x10
  | .urg => 0x20

/-- One of the flags. -/
def packetTcpFlag (flag : TcpFlag) : Bool :=
  tcpField p false fun start => mem.byte (start + 13) &&& flag.mask ≠ 0

/-- `packet_tcp_fin`. -/
def packetTcpFin : Bool := packetTcpFlag mem p .fin

/-- `packet_tcp_syn`. -/
def packetTcpSyn : Bool := packetTcpFlag mem p .syn

/-- `packet_tcp_rst`. -/
def packetTcpRst : Bool := packetTcpFlag mem p .rst

/-- `packet_tcp_push`. -/
def packetTcpPush : Bool := packetTcpFlag mem p .push

/-- `packet_tcp_ack`. -/
def packetTcpAck : Bool := packetTcpFlag mem p .ack

/-- `packet_tcp_urg`. -/
def packetTcpUrg : Bool := packetTcpFlag mem p .urg

end Accessors

/-! ### The transport header -/

/-- `transport` points to the layer of `t`, a TCP or UDP header whose ports are
stored, and the accessors return the fields of a TCP header. -/
structure TransportDenotes (mem : Memory) (t : Call) (p : Packet) : Prop where
  pointer : ∃ i, p.transport = some i ∧ (p.layer i).protocol = t.decoder.proto ∧
    (p.layer i).start = t.pkt
  ports : p.srcport = mem.be16 t.pkt ∧ p.dstport = mem.be16 (t.pkt + 2)
  numbers : t.decoder = .tcp → packetSeq mem p = mem.be32 (t.pkt + 4) ∧
    packetAck mem p = mem.be32 (t.pkt + 8) ∧ packetWin mem p = mem.be16 (t.pkt + 14) ∧
    packetTcpflags mem p = mem.byte (t.pkt + 13)
  flags : t.decoder = .tcp → ∀ flag,
    packetTcpFlag mem p flag = decide (mem.byte (t.pkt + 13) &&& flag.mask ≠ 0)

section Transport

variable {mem : Memory} {t : Call} {p q : Packet}

/-- The accessors read the header that `transport` points to. -/
lemma tcpField_eq {α : Type} {i : ℕ} (htransport : p.transport = some i)
    (hproto : (p.layer i).protocol = .tcp) (default : α) (field : ℤ → α) :
    tcpField p default field = field (p.layer i).start := by
  have hvalid : validateTransportProtocol p .tcp = true := by
    simp only [validateTransportProtocol, htransport, hproto, decide_true]
  rw [tcpField, if_neg (not_not.mpr hvalid), htransport, Option.elim_some]

/-- The current layer behind an insertion. -/
lemma layerCurrent_layerIns (h : p.layerCount ≤ maxLayers) (start : ℤ) (size : ℕ) (proto : Proto) :
    (p.layerIns start size proto).layerCurrent = some (min p.layerCount (maxLayers - 1)) := by
  have hmax : maxLayers = 32 := rfl
  rcases Nat.lt_or_eq_of_le h with hlt | heq
  · have hcount : uadd 32 p.layerCount 1 = p.layerCount + 1 := uadd_of_lt (by omega)
    have hindex : usub 32 (p.layerCount + 1) 1 = p.layerCount :=
      usub_of_le (Nat.le_add_left 1 _) (by omega)
    simp only [Packet.layerIns, Packet.layerCurrent, if_neg hlt.ne, hcount]
    rw [if_neg (Nat.succ_ne_zero _), hindex, min_eq_left (by omega)]
  · simp only [Packet.layerIns, Packet.layerCurrent, if_pos heq]
    rw [if_neg (by omega), heq]
    rfl

/-- **A transport header** makes the current layer the transport layer. -/
lemma transport_fill (ht : t.decoder = .tcp ∨ t.decoder = .udp) (h : q.layerCount ≤ maxLayers) :
    (t.fill mem q).transport = some (min q.layerCount (maxLayers - 1)) ∧
      (t.fill mem q).srcport = mem.be16 t.pkt ∧ (t.fill mem q).dstport = mem.be16 (t.pkt + 2) := by
  rcases ht with ht | ht
  · simp only [Call.fill, Call.fields, ht, Packet.layerIns, and_true]
    exact layerCurrent_layerIns h _ _ _
  · simp only [Call.fill, Call.fields, ht, Packet.layerIns, and_true]
    exact layerCurrent_layerIns h _ _ _

/-- The layer of a header is where the layers ended, if there is room. -/
lemma layer_fill (h : q.layerCount < maxLayers) :
    (t.fill mem q).layer q.layerCount = t.layer mem := by
  have hget := getElem?_layers (p := t.fill mem q) (i := q.layerCount)
    (by rw [layerCount_fill h]; exact Nat.lt_succ_self _)
  rw [layers_fill h.le, List.getElem?_take_of_lt h, ← length_layers,
    List.getElem?_concat_length] at hget
  rw [← length_layers]
  exact (Option.some.inj hget).symm

/-- A full stack is left alone. -/
lemma layer_fill_of_full (h : q.layerCount = maxLayers) : (t.fill mem q).layer = q.layer := by
  obtain ⟨hcount, hlayer⟩ := layer_fields mem t q
  simp only [Call.fill, Packet.layerIns, hcount, if_pos h, hlayer]

end Transport

/-- **When `transport` denotes the transport header**: of every decoding into a packet
without layers whose headers end with a TCP or UDP header, exactly if there are no more
of them than `MAX_LAYERS`. -/
theorem transport_denotes_iff {mem : Memory} {c : Call} {packet : Packet}
    (hfresh : packet.layerCount = 0) (stats : PacketStats) {n : ℕ} {before : List Call} {t : Call}
    (hheaders : headers mem n c = before ++ [t]) (ht : t.decoder = .tcp ∨ t.decoder = .udp) :
    TransportDenotes mem t (decode mem n c (.start packet stats)).2.packet ↔
      (headers mem n c).length ≤ maxLayers := by
  have hmax : maxLayers = 32 := rfl
  have hlast : t.nested mem = none := nested_eq_none ht
  have hacc : t.Accepts mem := by
    have hmem : t ∈ headers mem n c :=
      hheaders ▸ List.mem_append_right _ (List.mem_singleton_self t)
    exact of_decide_eq_true (List.mem_filter.mp hmem).2
  -- the packet in front of the transport header
  obtain ⟨k, hresult⟩ := result_foldl hheaders hlast packet
  set q := before.foldl (fun p h => h.fill mem p) packet
  have hlayers : q.layers = (before.map (Call.layer mem)).take maxLayers := by
    have hnone : packet.layers = [] := by
      rw [Packet.layers, hfresh, List.range_zero, List.map_nil]
    rw [layers_foldl before (hfresh ▸ Nat.zero_le _), hnone, List.nil_append]
  have hcount : q.layerCount = min maxLayers before.length := by
    rw [← length_layers, hlayers, List.length_take, List.length_map]
  -- the packet behind it
  have hsame := foldl_addOption_eq (fun p => (p.transport, p.layer, p.srcport, p.dstport))
    (fun _ _ => rfl) (t.options mem k) (t.fill mem q)
  simp only [Prod.mk.injEq] at hsame
  obtain ⟨htransport, hlayer, hsrc, hdst⟩ := hsame
  have hpacket : (decode mem n c (.start packet stats)).2.packet =
      (t.options mem k).foldl Packet.addOption (t.fill mem q) := by
    rw [(decode_result n c _).1]
    exact (congrArg Prod.snd hresult).trans (if_pos hacc)
  obtain ⟨hfill, hfillsrc, hfilldst⟩ : (t.fill mem q).transport = _ ∧ _ :=
    transport_fill ht (by omega)
  rw [hpacket, hheaders, List.length_append, List.length_singleton]
  generalize (t.options mem k).foldl Packet.addOption (t.fill mem q) = p at *
  rw [hfill] at htransport
  constructor
  · rintro ⟨⟨i, hi, hproto, -⟩, -⟩
    by_contra hfull
    -- the current layer is that of a header another one follows
    have hq : q.layerCount = maxLayers := by omega
    obtain rfl : i = 31 := by
      rw [htransport, Option.some_inj] at hi
      omega
    have hlt : 31 < before.length := by omega
    have hget := getElem?_layers (p := q) (i := 31) (by omega)
    rw [hlayers, List.getElem?_take_of_lt (by omega), List.getElem?_map,
      List.getElem?_eq_getElem hlt, Option.map_some, Option.some_inj] at hget
    rw [hlayer, layer_fill_of_full hq, ← hget] at hproto
    have hnext : ∃ d, (before[31]).nested mem = some d := by
      have hchain := List.isChain_iff_getElem.mp (@headers_isChain mem n c) 31
        (by rw [hheaders, List.length_append, List.length_singleton]; omega)
      simp only [hheaders, List.getElem_append_left hlt] at hchain
      exact ⟨_, hchain⟩
    obtain ⟨d, hd⟩ := hnext
    refine nested_of_transport ?_ hd
    rcases ht with ht | ht
    · exact Or.inl (hproto.trans (by rw [ht]; rfl))
    · exact Or.inr (hproto.trans (by rw [ht]; rfl))
  · intro hroom
    have hq : q.layerCount < maxLayers := by omega
    have hat : p.layer q.layerCount = t.layer mem := by rw [hlayer, layer_fill hq]
    rw [min_eq_left (by omega)] at htransport
    have hfield : t.decoder = .tcp → ∀ {α : Type} (default : α) (field : ℤ → α),
        tcpField p default field = field t.pkt := by
      intro htcp α default field
      have hproto : (p.layer q.layerCount).protocol = .tcp := by
        rw [hat, Call.layer, htcp]
        rfl
      rw [tcpField_eq htransport hproto, hat, Call.layer]
    refine ⟨⟨q.layerCount, htransport, by rw [hat, Call.layer], by rw [hat, Call.layer]⟩,
      ⟨hsrc.trans hfillsrc, hdst.trans hfilldst⟩, fun htcp => ?_, fun htcp flag => ?_⟩
    · exact ⟨hfield htcp 0 _, hfield htcp 0 _, hfield htcp 0 _, hfield htcp 0 _⟩
    · exact hfield htcp false _

/-- An IPv4 and a TCP header. -/
theorem syn_segment_denotes :
    TransportDenotes synSegment ⟨.tcp, 20, 24⟩
      (decode synSegment 4 ⟨.ip, 0, 44⟩ (.start default default)).2.packet := by
  have hheaders : headers synSegment 4 ⟨.ip, 0, 44⟩ = [⟨.ip, 0, 44⟩] ++ [⟨.tcp, 20, 24⟩] := by
    decide +kernel
  exact (transport_denotes_iff rfl default hheaders (Or.inl rfl)).mpr (by rw [hheaders]; decide)

/-- An IPv6 header, 31 routing headers and a TCP header with `TH_SYN`. -/
def synBehindRouting : Memory :=
  Memory.ofList ([0x60, 0, 0, 0, 1, 12, 43, 64] ++ List.replicate 32 1 ++
    (List.replicate 30 [43, 0, 0, 0, 0, 0, 0, 0]).flatten ++ [6, 0, 0, 0, 0, 0, 0, 0] ++
    [0, 7, 0, 8, 0, 0, 0, 1, 0, 0, 0, 0, 0x50, 2, 32, 0, 0, 0, 0, 0])

/-- **One header too many**: `transport` is the last of the routing headers, and the
accessors return nothing of the TCP header whose ports are stored. -/
theorem layers_full :
    let out := decode synBehindRouting 34 ⟨.ip6, 0, 308⟩ (.start default default)
    out.1 = some 0 ∧ out.2.packet.transport = some 31 ∧
      (out.2.packet.layer 31).protocol = .ip6Rte ∧ out.2.packet.srcport = 7 ∧
      packetSeq synBehindRouting out.2.packet = 0 ∧ synBehindRouting.be32 292 = 1 ∧
      ¬ TransportDenotes synBehindRouting ⟨.tcp, 288, 20⟩ out.2.packet := by
  intro out
  have hout : out.1 = some 0 ∧ out.2.packet.transport = some 31 ∧
      (out.2.packet.layer 31).protocol = .ip6Rte ∧ out.2.packet.srcport = 7 ∧
      packetSeq synBehindRouting out.2.packet = 0 ∧ synBehindRouting.be32 292 = 1 := by
    decide +kernel
  obtain ⟨hret, htransport, hproto, hsrc, hseq, hbytes⟩ := hout
  refine ⟨hret, htransport, hproto, hsrc, hseq, hbytes, fun h => ?_⟩
  obtain ⟨i, hi, htcp, -⟩ := h.pointer
  obtain rfl := Option.some.inj (htransport.symm.trans hi)
  rw [hproto] at htcp
  cases htcp

end CLibrary
