import CLibrary.Packet.Transport

/-!
Where the payload starts.

* `payload_result`: `payload` moves by `Call.advance` for every header.
* `advance_eq`: that is the size of the header, but for an options header, which
  moves it twice.
* `pkt_of_headers`: a header starts where the ones in front of it end.
* `PayloadBehindHeaders`: `payload` is behind all headers, and behind the last layer.
* `payload_behind_headers_iff`: it is unless there is an options header.
-/

namespace CLibrary

section Payload

variable {mem : Memory} {c t : Call} {n : ℕ} {before : List Call}

/-- What the headers add to `payload`, one by one and all together. -/
lemma foldl_advance (l : List Call) (v : ℤ) :
    l.foldl (fun v h => v + (h.advance mem : ℤ)) v =
      v + ((l.map (Call.advance mem)).sum : ℕ) := by
  induction l generalizing v with
  | nil => exact (add_zero v).symm
  | cons h l ih =>
      calc (h :: l).foldl (fun v h => v + (h.advance mem : ℤ)) v
          = v + h.advance mem + ((l.map (Call.advance mem)).sum : ℕ) := ih _
        _ = v + (((h :: l).map (Call.advance mem)).sum : ℕ) := by
            rw [List.map_cons, List.sum_cons, Nat.cast_add, add_assoc]

/-- **`payload` moves on** by every header. -/
lemma payload_result (n : ℕ) (c : Call) (p : Packet) :
    (result mem n c p).2.payload =
      p.payload + (((headers mem n c).map (Call.advance mem)).sum : ℕ) := by
  rw [← foldl_advance]
  refine result_field Packet.payload (fun h v => v + (h.advance mem : ℤ)) (fun _ _ => rfl)
    (fun _ _ => rfl) n c p fun d _ _ p => ?_
  rw [Call.refuse]
  split_ifs <;> rfl

/-- Only an options header moves `payload` by more than its size. -/
lemma advance_eq (mem : Memory) (c : Call) : c.advance mem =
    c.size mem + if c.decoder = .ip6Ext then ntohs (c.extLen mem) else 0 := by
  cases hc : c.decoder with
  | ip6Ext => simp only [Call.advance, Call.size, hc, if_true, Nat.add_comm]
  | _ => simp only [Call.advance, hc, reduceCtorEq, if_false, Nat.add_zero]

/-- And it does so. -/
lemma ntohs_extLen_pos (mem : Memory) (c : Call) : 0 < ntohs (c.extLen mem) := by
  have hbyte := mem.byte_lt (c.pkt + 1)
  rw [ntohs, Call.extLen]
  omega

/-- The headers take up what `payload` moves by, exactly if there is no options header. -/
lemma sum_advance_iff (l : List Call) :
    (l.map (Call.advance mem)).sum = (l.map (Call.size mem)).sum ↔
      ∀ h ∈ l, h.decoder ≠ .ip6Ext := by
  have hsum : (l.map (Call.advance mem)).sum = (l.map (Call.size mem)).sum +
      (l.map fun h => if h.decoder = .ip6Ext then ntohs (h.extLen mem) else 0).sum := by
    rw [← List.sum_map_add]
    exact congrArg List.sum (List.map_congr_left fun h _ => advance_eq mem h)
  rw [hsum, Nat.add_eq_left, List.sum_eq_zero_iff, List.forall_mem_map]
  refine forall₂_congr fun h _ => ?_
  rw [ite_eq_right_iff, imp_iff_not (ntohs_extLen_pos mem h).ne']

/-- **A header starts** where the ones in front of it end. -/
lemma pkt_of_headers (hheaders : headers mem n c = before ++ [t]) :
    t.pkt = c.pkt + ((before.map (Call.size mem)).sum : ℕ) := by
  induction before generalizing n c with
  | nil =>
      have hhead : t ∈ (headers mem n c).head? := by rw [hheaders]; rfl
      rw [headers_head hhead, List.map_nil, List.sum_nil, Nat.cast_zero, add_zero]
  | cons h before ih =>
      cases n with
      | zero => cases hheaders
      | succ n =>
          cases hnext : c.nested mem with
          | none =>
              rw [headers_of_last hnext] at hheaders
              split_ifs at hheaders
              · have := congrArg List.length hheaders
                simp at this
              · cases hheaders
          | some d =>
              rw [headers_of_nested hnext, List.cons_append, List.cons_eq_cons] at hheaders
              rw [ih hheaders.2, nested_pkt hnext, ← hheaders.1, List.map_cons, List.sum_cons,
                Nat.cast_add, add_assoc]

end Payload

/-- `payload` is as far behind the start of the first header as the headers are long,
and right behind the last layer, if every header has one. -/
structure PayloadBehindHeaders (mem : Memory) (c : Call) (headers : List Call) (p : Packet) :
    Prop where
  payload : p.payload = c.pkt + ((headers.map (Call.size mem)).sum : ℕ)
  last : headers.length ≤ maxLayers → ∃ i, p.layerCurrent = some i ∧
    p.payload = (p.layer i).start + (p.layer i).size

/-- **When the payload starts where the headers end**: in every decoding that returns 0,
exactly if there is no hop-by-hop or destination options header. -/
theorem payload_behind_headers_iff {mem : Memory} {c : Call} {packet : Packet}
    (hfresh : packet.layerCount = 0) (hpayload : packet.payload = c.pkt) (stats : PacketStats)
    {n : ℕ} (hret : (decode mem n c (.start packet stats)).1 = some 0) :
    PayloadBehindHeaders mem c (headers mem n c) (decode mem n c (.start packet stats)).2.packet ↔
      ∀ h ∈ headers mem n c, h.decoder ≠ .ip6Ext := by
  obtain ⟨-, before, t, hheaders, -, -⟩ := headers_of_zero hret
  have hpacket : (decode mem n c (.start packet stats)).2.packet = (result mem n c packet).2 :=
    (decode_result n c (.start packet stats)).1
  have hmoved := @payload_result mem n c packet
  rw [hpayload] at hmoved
  rw [hpacket, ← @sum_advance_iff mem]
  constructor
  · rintro ⟨hend, -⟩
    rw [hend] at hmoved
    omega
  · intro hsum
    rw [hsum] at hmoved
    refine ⟨hmoved, fun hroom => ?_⟩
    -- the last layer is that of the last header
    have hlayers : (result mem n c packet).2.layers = (headers mem n c).map (Call.layer mem) := by
      have hnone : packet.layers = [] := by
        rw [Packet.layers, hfresh, List.range_zero, List.map_nil]
      rw [result_layers n c (hfresh ▸ Nat.zero_le _), hnone, List.nil_append,
        List.take_of_length_le (by rwa [List.length_map])]
    have hcount : (result mem n c packet).2.layerCount = before.length + 1 := by
      rw [← length_layers, hlayers, List.length_map, hheaders, List.length_append,
        List.length_singleton]
    have hlayer : (result mem n c packet).2.layer before.length = t.layer mem := by
      have hget := getElem?_layers (p := (result mem n c packet).2) (i := before.length)
        (by rw [hcount]; exact Nat.lt_succ_self _)
      rw [hlayers, hheaders, List.map_append, List.map_singleton,
        ← List.length_map (Call.layer mem), List.getElem?_concat_length] at hget
      rw [← List.length_map (Call.layer mem)]
      exact (Option.some.inj hget).symm
    have hmax : maxLayers = 32 := rfl
    rw [hheaders, List.length_append, List.length_singleton] at hroom
    refine ⟨before.length, ?_, ?_⟩
    · rw [Packet.layerCurrent, hcount, if_neg (Nat.succ_ne_zero _),
        usub_of_le (Nat.le_add_left 1 _) (by omega), Nat.add_sub_cancel]
    · rw [hmoved, hlayer, hheaders, List.map_append, List.sum_append, List.map_singleton,
        List.sum_singleton, Nat.cast_add, ← add_assoc, ← pkt_of_headers hheaders]
      rfl

/-- UDP in IPv4: the payload is behind 28 bytes of headers. -/
theorem padded_datagram_payload :
    PayloadBehindHeaders paddedDatagram ⟨.ip, 0, 34⟩ (headers paddedDatagram 2 ⟨.ip, 0, 34⟩)
      (decode paddedDatagram 2 ⟨.ip, 0, 34⟩ (.start default default)).2.packet := by
  have hret : (decode paddedDatagram 2 ⟨.ip, 0, 34⟩ (.start default default)).1 = some 0 := by
    decide +kernel
  refine (payload_behind_headers_iff rfl rfl default hret).mpr ?_
  decide +kernel

/-- **An options header**: the headers are 56 bytes long, and the payload is said to
start at byte 2104. -/
theorem options_header_moves_payload :
    (decode hopByHop 3 ⟨.ip6, 0, 56⟩ (.start default default)).1 = some 0 ∧
      ((headers hopByHop 3 ⟨.ip6, 0, 56⟩).map (Call.size hopByHop)).sum = 56 ∧
      (decode hopByHop 3 ⟨.ip6, 0, 56⟩ (.start default default)).2.packet.payload = 2104 ∧
      ¬ PayloadBehindHeaders hopByHop ⟨.ip6, 0, 56⟩ (headers hopByHop 3 ⟨.ip6, 0, 56⟩)
        (decode hopByHop 3 ⟨.ip6, 0, 56⟩ (.start default default)).2.packet := by
  have hrun : (decode hopByHop 3 ⟨.ip6, 0, 56⟩ (.start default default)).1 = some 0 ∧
      ((headers hopByHop 3 ⟨.ip6, 0, 56⟩).map (Call.size hopByHop)).sum = 56 ∧
      (decode hopByHop 3 ⟨.ip6, 0, 56⟩ (.start default default)).2.packet.payload = 2104 := by
    decide +kernel
  obtain ⟨hret, hsum, hpayload⟩ := hrun
  refine ⟨hret, hsum, hpayload, fun h => ?_⟩
  have hbehind := h.payload
  rw [hpayload, hsum] at hbehind
  exact absurd hbehind (by decide)

end CLibrary
