import CLibrary.Packet.Fill
import CLibrary.Packet.Termination

/-!
The layer stack of a packet.

* `headers`: the headers along the chain that are accepted, which is every one
  but the last at most.
* `result_field`: a field of the packet that options leave alone follows the
  headers.
* `Packet.layers`, `Call.layer`: the layers recorded, and the one a header has.
  `result_layers`: a decoding records its headers, as long as there is room.
* `LayerStack`: the layers are the first headers, each where the one before it
  ends, and every call is made behind its header.
* `decoding_stacks_headers`: it holds of every decoding that returns.
-/

namespace CLibrary

open Decode

/-! ### Headers -/

/-- The headers from `c` on that are accepted, of the first `n`. -/
def headers (mem : Memory) (n : ℕ) (c : Call) : List Call :=
  (chain (Call.nested mem) n c).filter fun h => h.Accepts mem

section Headers

variable {mem : Memory} {c d : Call} {s : Decoding} {m n : ℕ}

lemma headers_of_nested (h : c.nested mem = some d) (n : ℕ) :
    headers mem (n + 1) c = c :: headers mem n d := by
  rw [headers, chain_succ_some h, List.filter_cons, if_pos (decide_eq_true (accepts_of_nested h).1),
    headers]

lemma headers_of_last (h : c.nested mem = none) (n : ℕ) :
    headers mem (n + 1) c = if c.Accepts mem then [c] else [] := by
  rw [headers, chain_succ_none h]
  split_ifs with hacc
  · exact List.filter_cons_of_pos (decide_eq_true hacc)
  · exact List.filter_cons_of_neg (by simpa using hacc)

/-- The first header is the one decoding starts at. -/
lemma headers_head (h : d ∈ (headers mem n c).head?) : d = c := by
  cases n with
  | zero => cases h
  | succ n =>
      cases hnext : c.nested mem with
      | none =>
          rw [headers_of_last hnext] at h
          split_ifs at h
          · exact (Option.some.inj h).symm
          · cases h
      | some e =>
          rw [headers_of_nested hnext] at h
          exact (Option.some.inj h).symm

/-- Every header is called by the one before it. -/
lemma headers_isChain (n : ℕ) (c : Call) :
    (headers mem n c).IsChain fun a b => a.nested mem = some b := by
  induction n generalizing c with
  | zero => exact .nil
  | succ n ih =>
      cases hnext : c.nested mem with
      | none =>
          rw [headers_of_last hnext]
          split_ifs
          · exact .singleton c
          · exact .nil
      | some d =>
          rw [headers_of_nested hnext, List.isChain_cons]
          refine ⟨fun e he => ?_, ih d⟩
          rw [headers_head he, hnext]

/-- A decoding that returns looks at the whole chain. -/
lemma chain_of_returns (hret : (decode mem n c s).1 ≠ none) (hnm : n ≤ m) :
    chain (Call.nested mem) m c = chain (Call.nested mem) n c := by
  induction n generalizing c s m with
  | zero => exact absurd rfl hret
  | succ n ih =>
      obtain ⟨k, rfl⟩ : ∃ k, m = k + 1 := ⟨m - 1, by omega⟩
      cases hnext : c.nested mem with
      | none => rw [chain_succ_none hnext, chain_succ_none hnext]
      | some d =>
          obtain ⟨s', -, heq⟩ := decode_fill (s := s) hnext
          rw [heq] at hret
          rw [chain_succ_some hnext, chain_succ_some hnext, ih hret (by omega)]

/-- **Where a call is made**: behind all the headers up to its caller. -/
lemma call_behind_headers (hlen : c.len < 2 ^ 32) {a b : Call}
    (ha : a ∈ chain (Call.nested mem) n c) (hb : a.nested mem = some b) :
    ∃ before after, headers mem n c = before ++ a :: after ∧
      let size := ((before ++ [a]).map (Call.size mem)).sum
      size ≤ c.len ∧ b.pkt = c.pkt + size ∧ b.len = c.len - size := by
  induction n generalizing c with
  | zero => exact absurd ha List.not_mem_nil
  | succ n ih =>
      cases hnext : c.nested mem with
      | none =>
          rw [chain_succ_none hnext, List.mem_singleton] at ha
          rw [ha, hnext] at hb
          cases hb
      | some d =>
          obtain ⟨hacc, hdec⟩ := accepts_of_nested hnext
          have hsize := size_le hacc hdec
          have hdlen := nested_len hnext hlen
          have hdpkt := nested_pkt hnext
          rw [chain_succ_some hnext] at ha
          rw [headers_of_nested hnext]
          rcases List.mem_cons.mp ha with rfl | ha
          · obtain rfl : d = b := Option.some.inj (hnext.symm.trans hb)
            refine ⟨[], headers mem n d, rfl, ?_⟩
            simpa using ⟨hsize, hdpkt, hdlen⟩
          · obtain ⟨before, after, heq, hle, hpkt, hblen⟩ := ih (c := d) (by omega) ha
            refine ⟨c :: before, after, by rw [heq, List.cons_append], ?_⟩
            rw [List.cons_append, List.map_cons, List.sum_cons]
            generalize (List.map (Call.size mem) (before ++ [a])).sum = size at hle hpkt hblen ⊢
            refine ⟨by omega, ?_, by omega⟩
            rw [hpkt, hdpkt]
            push_cast
            ring

end Headers

/-! ### A field of the packet -/

section Field

variable {mem : Memory} {α : Type*}

/-- Options leave a field alone that they are not stored in. -/
lemma foldl_addOption_eq (field : Packet → α)
    (hoption : ∀ p option, field (Packet.addOption p option) = field p) (l : List TcpOption)
    (p : Packet) : field (l.foldl Packet.addOption p) = field p := by
  induction l generalizing p with
  | nil => rfl
  | cons option l ih => exact (ih _).trans (hoption p option)

/-- **A field follows the headers**: what every header makes of it, a decoding
makes of it header by header. -/
lemma result_field (field : Packet → α) (step : Call → α → α)
    (hfill : ∀ (c : Call) p, field (c.fill mem p) = step c (field p))
    (hoption : ∀ p option, field (Packet.addOption p option) = field p) (n : ℕ) (c : Call)
    (p : Packet) (hrefuse : ∀ d ∈ chain (Call.nested mem) n c, ¬ d.Accepts mem →
      ∀ p, field (d.refuse p) = field p) :
    field (result mem n c p).2 = (headers mem n c).foldl (fun x h => step h x) (field p) := by
  induction n generalizing c p with
  | zero => rfl
  | succ n ih =>
      cases hnext : c.nested mem with
      | none =>
          rw [result_of_last hnext, headers_of_last hnext, Call.finish]
          split_ifs with hacc
          · rw [foldl_addOption_eq field hoption, hfill, List.foldl_cons, List.foldl_nil]
          · have hc : c ∈ chain (Call.nested mem) (n + 1) c := by
              rw [chain_succ_none hnext]
              exact List.mem_singleton_self c
            exact hrefuse c hc hacc p
      | some d =>
          rw [chain_succ_some hnext] at hrefuse
          rw [result_of_nested hnext, headers_of_nested hnext, List.foldl_cons,
            ih d _ fun e he => hrefuse e (List.mem_cons_of_mem c he), hfill]

end Field

/-! ### Layers -/

/-- The layers recorded. -/
def Packet.layers (p : Packet) : List Protocol := (List.range p.layerCount).map p.layer

/-- The layer of a header. -/
def Call.layer (mem : Memory) (c : Call) : Protocol := ⟨c.decoder.proto, c.size mem, c.pkt⟩

section Layers

variable {mem : Memory} {c d : Call} {p : Packet}

lemma length_layers (p : Packet) : p.layers.length = p.layerCount := by
  rw [Packet.layers, List.length_map, List.length_range]

lemma getElem?_layers {i : ℕ} (h : i < p.layerCount) : p.layers[i]? = some (p.layer i) := by
  rw [Packet.layers, List.getElem?_map, List.getElem?_range h, Option.map_some]

/-- `packet_layer_ins` adds a layer where there is room. -/
lemma layers_layerIns (h : p.layerCount ≤ maxLayers) (start : ℤ) (size : ℕ) (proto : Proto) :
    (p.layerIns start size proto).layers =
      (p.layers ++ [Protocol.mk proto size start]).take maxLayers := by
  rcases Nat.lt_or_eq_of_le h with hlt | heq
  · have hcount : uadd 32 p.layerCount 1 = p.layerCount + 1 :=
      uadd_of_lt (by rw [maxLayers] at hlt; omega)
    have hindex : usub 32 (p.layerCount + 1) 1 = p.layerCount :=
      usub_of_le (by omega) (by rw [maxLayers] at hlt; omega)
    rw [List.take_of_length_le (by simp [length_layers]; omega)]
    simp only [Packet.layers, Packet.layerIns, if_neg hlt.ne, hcount, hindex, List.range_succ,
      List.map_append, List.map_singleton, Function.update_self]
    rw [List.map_congr_left fun i hi => Function.update_of_ne (List.mem_range.mp hi).ne _ _]
  · rw [List.take_append_of_le_length (by rw [length_layers, heq]),
      List.take_of_length_le (by rw [length_layers, heq])]
    simp only [Packet.layers, Packet.layerIns, if_pos heq]

/-- The fields of a header are none of the layers. -/
lemma layer_fields (mem : Memory) (c : Call) (p : Packet) :
    (c.fields mem p).layerCount = p.layerCount ∧ (c.fields mem p).layer = p.layer := by
  rw [Call.fields]
  split <;> exact ⟨rfl, rfl⟩

/-- A header that is accepted adds its layer. -/
lemma layers_fill (h : p.layerCount ≤ maxLayers) :
    (c.fill mem p).layers = (p.layers ++ [c.layer mem]).take maxLayers := by
  have hfields := layer_fields mem c p
  have hlayers : (c.fields mem p).layers = p.layers := by
    rw [Packet.layers, Packet.layers, hfields.1, hfields.2]
  calc (c.fill mem p).layers
      = ((c.fields mem p).layerIns c.pkt (c.size mem) c.decoder.proto).layers := rfl
    _ = ((c.fields mem p).layers ++ [c.layer mem]).take maxLayers :=
        layers_layerIns (hfields.1 ▸ h) _ _ _
    _ = (p.layers ++ [c.layer mem]).take maxLayers := by rw [hlayers]

/-- A header that is accepted counts, where there is room. -/
lemma layerCount_fill (h : p.layerCount < maxLayers) :
    (c.fill mem p).layerCount = p.layerCount + 1 := by
  rw [← length_layers, layers_fill h.le, List.length_take, List.length_append, length_layers,
    List.length_singleton]
  omega

/-- A stack that is full stays as it is. -/
lemma take_take_append (l l' : List Protocol) (n : ℕ) :
    (l.take n ++ l').take n = (l ++ l').take n := by
  rw [List.take_append, List.take_append, List.take_take, min_self, List.length_take]
  congr 2
  omega

/-- **The layers of a decoding**: those of its headers, as long as there is
room. -/
lemma result_layers (n : ℕ) (c : Call) (h : p.layerCount ≤ maxLayers) :
    (result mem n c p).2.layers =
      (p.layers ++ (headers mem n c).map (Call.layer mem)).take maxLayers := by
  have hfull : p.layers.take maxLayers = p.layers :=
    List.take_of_length_le (by rw [length_layers]; exact h)
  induction n generalizing c p with
  | zero => exact (hfull.symm.trans (by rw [headers, chain]; simp))
  | succ n ih =>
      cases hnext : c.nested mem with
      | none =>
          rw [result_of_last hnext, headers_of_last hnext, Call.finish]
          split_ifs with hacc
          · rw [foldl_addOption_eq Packet.layers fun _ _ => rfl, layers_fill h, List.map_singleton]
          · rw [List.map_nil, List.append_nil, hfull, Call.refuse]
            split_ifs <;> rfl
      | some d =>
          have hroom : (c.fill mem p).layers.length ≤ maxLayers := by
            rw [layers_fill h]
            exact List.length_take_le _ _
          rw [result_of_nested hnext, headers_of_nested hnext,
            ih d (by rwa [length_layers] at hroom) (List.take_of_length_le hroom), layers_fill h,
            take_take_append, List.append_assoc, List.map_cons, List.singleton_append]

/-- The layers of a packet that headers have filled. -/
lemma layers_foldl (l : List Call) (h : p.layerCount ≤ maxLayers) :
    (l.foldl (fun p h => h.fill mem p) p).layers =
      (p.layers ++ l.map (Call.layer mem)).take maxLayers := by
  induction l generalizing p with
  | nil =>
      rw [List.foldl_nil, List.map_nil, List.append_nil,
        List.take_of_length_le (by rw [length_layers]; exact h)]
  | cons d l ih =>
      have hroom : (d.fill mem p).layerCount ≤ maxLayers := by
        rw [← length_layers, layers_fill h]
        exact List.length_take_le _ _
      rw [List.foldl_cons, ih hroom, layers_fill h, take_take_append, List.append_assoc,
        List.map_cons, List.singleton_append]

end Layers

/-! ### The stack -/

/-- The decoder that `bind_ip` or `bind_ip6` selects from the protocol a layer
announces. -/
def Protocol.follower (mem : Memory) (l : Protocol) : Option Decoder :=
  match l.protocol with
  | .ip4 => ipSwitch (mem.byte (l.start + 9))
  | .ip6 => ip6Switch (mem.byte (l.start + 6))
  | .ip6Rte | .ip6Frag | .ip6Ext => ip6Switch (mem.byte l.start)
  | _ => none

/-- The layers of a packet are the first of the headers, and the calls of its
decoding, from `c` on, are made behind them. -/
structure LayerStack (mem : Memory) (c : Call) (headers : List Call) (s : Decoding) : Prop where
  count_le : s.packet.layerCount ≤ maxLayers
  first : 0 < s.packet.layerCount → (s.packet.layer 0).start = c.pkt
  linked : ∀ i, i + 1 < s.packet.layerCount →
    (s.packet.layer (i + 1)).start = (s.packet.layer i).start + (s.packet.layer i).size
  selected : ∀ i, i + 1 < s.packet.layerCount →
    ((s.packet.layer i).follower mem).map Decoder.proto = some (s.packet.layer (i + 1)).protocol
  transport_last : ∀ i < s.packet.layerCount,
    (s.packet.layer i).protocol = .tcp ∨ (s.packet.layer i).protocol = .udp →
      i + 1 = s.packet.layerCount
  layers_eq : s.packet.layers = (headers.take maxLayers).map (Call.layer mem)
  calls_exact : ∀ a b, (a, b) ∈ s.calls → ∃ before after, headers = before ++ a :: after ∧
    let size := ((before ++ [a]).map (Call.size mem)).sum
    size ≤ c.len ∧ b.pkt = c.pkt + size ∧ b.len = c.len - size ∧ a.size mem ≤ a.len

section Stack

variable {mem : Memory} {a b : Call}

/-- The decoder behind a header is the one its layer announces. -/
lemma follower_layer (c : Call) : (c.layer mem).follower mem = c.follower mem := by
  cases hc : c.decoder <;>
    simp only [Call.layer, Protocol.follower, Call.follower, Decoder.proto, hc]

/-- The layers of a header and the one it calls. -/
lemma layer_of_nested (h : a.nested mem = some b) :
    (b.layer mem).start = (a.layer mem).start + (a.layer mem).size ∧
      ((a.layer mem).follower mem).map Decoder.proto = some (b.layer mem).protocol := by
  refine ⟨nested_pkt h, ?_⟩
  rw [Call.nested, Option.ite_none_right_eq_some, Option.map_eq_some_iff] at h
  obtain ⟨-, d, hd, rfl⟩ := h
  rw [follower_layer, hd]
  rfl

/-- Nothing is called behind a transport header. -/
lemma nested_of_transport (h : (a.layer mem).protocol = .tcp ∨ (a.layer mem).protocol = .udp) :
    a.nested mem ≠ some b := by
  have hfollow : a.follower mem = none := by
    rw [← follower_layer, Protocol.follower]
    rcases h with h | h <;> rw [h]
  intro hb
  rw [Call.nested, Option.ite_none_right_eq_some, hfollow] at hb
  cases hb.2

/-- A transport header is the last one. -/
lemma nested_eq_none (hdec : a.decoder = .tcp ∨ a.decoder = .udp) : a.nested mem = none := by
  refine Option.eq_none_iff_forall_ne_some.mpr fun b => nested_of_transport ?_
  exact hdec.imp (fun h => by rw [Call.layer, h]; rfl) fun h => by rw [Call.layer, h]; rfl

end Stack

/-- **The layer stack is the header chain**, for every buffer and slice on which
decoding returns and every packet without layers. -/
theorem decoding_stacks_headers (mem : Memory) (decoder : Decoder) (pkt : ℤ) (len : UInt32)
    (packet : Packet) (hfresh : packet.layerCount = 0) (stats : PacketStats) {n : ℕ}
    (hret : (decode mem n ⟨decoder, pkt, len.toNat⟩ (.start packet stats)).1 ≠ none) {m : ℕ}
    (hnm : n ≤ m) :
    LayerStack mem ⟨decoder, pkt, len.toNat⟩ (headers mem m ⟨decoder, pkt, len.toNat⟩)
      (decode mem n ⟨decoder, pkt, len.toNat⟩ (.start packet stats)).2 := by
  set c : Call := ⟨decoder, pkt, len.toNat⟩
  have hlen : c.len < 2 ^ 32 := len.toNat_lt
  have hcalls := fun e : Call × Call => @mem_calls_iff mem c (.start packet stats) n e
  have hpacket := (@decode_result mem n c (.start packet stats)).1
  set s := (decode mem n c (.start packet stats)).2
  have hheaders : headers mem m c = headers mem n c := by
    rw [headers, chain_of_returns hret hnm, headers]
  rw [hheaders]
  have hstart : packet.layers = [] := by rw [Packet.layers, hfresh, List.range_zero, List.map_nil]
  have hlayers : s.packet.layers = ((headers mem n c).take maxLayers).map (Call.layer mem) := by
    rw [hpacket]
    refine (result_layers n c (hfresh.trans_le (Nat.zero_le _))).trans ?_
    rw [hstart, List.nil_append, List.map_take]
  have hcount : s.packet.layerCount = min maxLayers (headers mem n c).length := by
    rw [← length_layers, hlayers, List.length_map, List.length_take]
  -- the headers behind the layers
  have hlayer : ∀ i, i < s.packet.layerCount → ∃ h : i < (headers mem n c).length,
      s.packet.layer i = (headers mem n c)[i].layer mem := by
    intro i hi
    have hlt : i < (headers mem n c).length := by omega
    have hget := getElem?_layers hi
    rw [hlayers, List.getElem?_map, List.getElem?_take_of_lt (by omega),
      List.getElem?_eq_getElem hlt, Option.map_some] at hget
    exact ⟨hlt, (Option.some.inj hget).symm⟩
  have hnested := List.isChain_iff_getElem.mp (@headers_isChain mem n c)
  refine ⟨by omega, ?_, ?_, ?_, ?_, hlayers, ?_⟩
  · intro hpos
    obtain ⟨hlt, heq⟩ := hlayer 0 hpos
    have hhead : (headers mem n c)[0] = c := by
      refine @headers_head mem c _ n ?_
      rw [List.head?_eq_getElem?, List.getElem?_eq_getElem hlt]
      rfl
    rw [heq, hhead]
    rfl
  · intro i hi
    obtain ⟨hlt, heq⟩ := hlayer i (by omega)
    obtain ⟨hlt', heq'⟩ := hlayer (i + 1) hi
    rw [heq, heq']
    exact (layer_of_nested (hnested i hlt')).1
  · intro i hi
    obtain ⟨hlt, heq⟩ := hlayer i (by omega)
    obtain ⟨hlt', heq'⟩ := hlayer (i + 1) hi
    rw [heq, heq']
    exact (layer_of_nested (hnested i hlt')).2
  · intro i hi htransport
    obtain ⟨hlt, heq⟩ := hlayer i hi
    rw [heq] at htransport
    by_contra hne
    obtain ⟨hlt', -⟩ := hlayer (i + 1) (by omega)
    exact nested_of_transport htransport (hnested i hlt')
  · intro a b hab
    rcases (hcalls (a, b)).mp hab with hab | ⟨ha, hb⟩
    · exact absurd hab List.not_mem_nil
    · obtain ⟨before, after, heq, hle, hpkt, hblen⟩ := call_behind_headers hlen ha hb
      obtain ⟨hacc, hdec⟩ := accepts_of_nested hb
      exact ⟨before, after, heq, hle, hpkt, hblen, size_le hacc hdec⟩

/-- A routing header and UDP in IPv6. -/
def routedDatagram : Memory :=
  Memory.ofList ([0x60, 0, 0, 0, 0, 16, 43, 64] ++ List.replicate 32 1 ++
    [17, 0, 0, 0, 0, 0, 0, 0, 0, 7, 0, 8, 0, 8, 0, 1])

/-- Its three layers. -/
theorem routed_datagram_stacks_headers :
    LayerStack routedDatagram ⟨.ip6, 0, (56 : UInt32).toNat⟩
      (headers routedDatagram 5 ⟨.ip6, 0, (56 : UInt32).toNat⟩)
      (decode routedDatagram 3 ⟨.ip6, 0, (56 : UInt32).toNat⟩ (.start default default)).2 :=
  decoding_stacks_headers routedDatagram .ip6 0 56 default rfl default (by decide +kernel)
    (by omega)

end CLibrary
