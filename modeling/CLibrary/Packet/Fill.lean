import CLibrary.Packet.Calls

/-!
The packet and the value of a decoding, as functions of the bytes.

* `Call.fill`: the packet behind a header that is accepted, TCP options apart.
* `recorded`, `Call.options`: the TCP options that are recorded.
* `Call.finish`: what the last header leaves behind.
* `result`: both, for a chain of headers.  `decode_result` is what makes it
  the result of a decoding.
-/

namespace CLibrary

open Decode

/-! ### Options -/

/-- The options recorded from `pos` on in an area of `len` bytes from `start` on. -/
def recorded (mem : Memory) (start : ℤ) (len fuel pos : ℕ) : List TcpOption :=
  (chain (optNext mem start len) fuel pos).filterMap fun q =>
    if q < len then optionAt mem len (start + q) else none

section Options

variable {f : Frame} {s : Decoding} {len : ℕ}

/-- **The loop** records the options at its positions. -/
lemma optionLoop_packet (start : ℤ) (hlen : len ≤ maxTcpoptlen) (fuel pos : ℕ) :
    (optionLoop start len fuel (start + pos) pos f s).2.packet =
      (recorded f.mem start len fuel pos).foldl Packet.addOption s.packet := by
  induction fuel generalizing pos s with
  | zero => rfl
  | succ fuel ih =>
      rw [optionLoop, run_ite]
      by_cases hpos : pos < len
      · rw [if_pos (by omega)]
        obtain ⟨l, s', hstep, hpacket, -, -⟩ := optionStep_spec (f := f) (s := s) start hpos hlen
        rw [bind_of_some hstep]
        have hhead : ∀ l, (List.filterMap (fun q =>
              if q < len then optionAt f.mem len (start + q) else none) (pos :: l)).foldl
            Packet.addOption s.packet = (List.filterMap (fun q =>
              if q < len then optionAt f.mem len (start + q) else none) l).foldl
            Packet.addOption s'.packet := by
          intro l
          rw [hpacket, List.filterMap_cons, if_pos hpos]
          cases optionAt f.mem len (start + pos) <;> rfl
        cases hjump : optJump f.mem len (start + pos) with
        | none =>
            have hnext : optNext f.mem start len pos = none := by
              rw [optNext, if_pos hpos, hjump, Option.map_none]
            rw [recorded, chain_succ_none hnext, hhead]
            rfl
        | some jump =>
            have hnext : optNext f.mem start len pos = some (pos + jump) := by
              rw [optNext, if_pos hpos, hjump, Option.map_some]
            have haddr : start + (pos : ℤ) + (jump : ℤ) = start + ((pos + jump : ℕ) : ℤ) := by
              push_cast
              ring
            rw [recorded, chain_succ_some hnext, hhead]
            dsimp only
            rw [uadd_jump hpos hlen hjump, haddr, ih]
            rfl
      · have hnext : optNext f.mem start len pos = none := by rw [optNext, if_neg hpos]
        rw [if_neg (by omega), recorded, chain_succ_none hnext, List.filterMap_cons, if_neg hpos]
        rfl

end Options

/-! ### Headers -/

/-- The `PROTOCOL` a decoder records. -/
def Decoder.proto : Decoder → Proto
  | .ip => .ip4
  | .ip6 => .ip6
  | .ip6Rte => .ip6Rte
  | .ip6Frag => .ip6Frag
  | .ip6Ext => .ip6Ext
  | .tcp => .tcp
  | .udp => .udp

namespace Call

variable (mem : Memory) (c : Call)

instance : Decidable (c.LoopsOptions mem) := inferInstanceAs (Decidable (_ ∧ _ ∧ _))

/-- The fields stored for a header that is accepted, layer and window apart. -/
def fields (p : Packet) : Packet :=
  match c.decoder with
  | .ip =>
      { p with
        version := 4
        df := mem.be16 (c.pkt + 6) / 2 ^ 14 % 2 = 1
        mf := mem.be16 (c.pkt + 6) / 2 ^ 13 % 2 = 1
        offset := mem.be16 (c.pkt + 6) % 2 ^ 13
        id := mem.raw16 (c.pkt + 4)
        tos := mem.byte (c.pkt + 1)
        ttl := mem.byte (c.pkt + 8)
        srcaddr := fun i => if i.val < 4 then mem (c.pkt + 12 + i) else p.srcaddr i
        dstaddr := fun i => if i.val < 4 then mem (c.pkt + 16 + i) else p.dstaddr i
        protocol := mem.byte (c.pkt + 9) }
  | .ip6 =>
      { p with
        version := 6
        protocol := mem.byte (c.pkt + 6)
        ttl := mem.byte (c.pkt + 7)
        srcaddr := fun i => mem (c.pkt + 8 + i)
        dstaddr := fun i => mem (c.pkt + 24 + i) }
  | .ip6Rte =>
      { p with
        protocol := mem.byte c.pkt
        dstaddr :=
          if mem.byte (c.pkt + 3) > 0 then fun i => mem (c.pkt + c.extLen mem - 16 + i)
          else p.dstaddr }
  | .ip6Frag =>
      { p with
        offset := mem.be16 (c.pkt + 2) &&& ip6fOffMask
        mf := mem.be16 (c.pkt + 2) &&& ip6fMoreFrag ≠ 0
        protocol := mem.byte c.pkt
        id := mem.raw32 (c.pkt + 4) }
  | .ip6Ext => { p with protocol := mem.byte c.pkt }
  | .tcp | .udp =>
      { p with
        transport := (p.layerIns c.pkt (c.size mem) c.decoder.proto).layerCurrent
        srcport := mem.be16 c.pkt
        dstport := mem.be16 (c.pkt + 2) }

/-- The packet behind a header that is accepted, TCP options apart. -/
def fill (p : Packet) : Packet :=
  { (c.fields mem p).layerIns c.pkt (c.size mem) c.decoder.proto with
    payload := p.payload + c.advance mem
    paysize := c.paysize mem p.paysize }

/-- The packet behind a header that is refused. -/
def refuse (p : Packet) : Packet := if c.decoder = .ip then { p with version := 4 } else p

/-- The options recorded for a header that is accepted. -/
def options (fuel : ℕ) : List TcpOption :=
  if c.decoder = .tcp ∧ c.LoopsOptions mem then
    recorded mem (c.optStart mem) (c.tcpOptlen mem) fuel 0
  else []

/-- The packet behind the last header. -/
def finish (fuel : ℕ) (p : Packet) : Packet :=
  if c.Accepts mem then (c.options mem fuel).foldl Packet.addOption (c.fill mem p) else c.refuse p

end Call

section Body

variable {mem : Memory} {c d : Call} {s : Decoding}

/-- A header that is refused leaves the packet alone, but for its version. -/
lemma body_refuse (h : ¬ c.Accepts mem) (fuel : ℕ) :
    (c.body fuel ⟨mem, c⟩ s).2.packet = c.refuse s.packet := by
  cases hc : c.decoder with
  | ip =>
      simp only [Call.Accepts, hc, Call.IpAccepted, not_and_or, not_le, Call.ipHlen,
        Call.ipLen] at h
      simp only [Call.body, Call.refuse, hc, decodeIp, readByte_bind, readNtohs_bind,
        subtract_bind, modifyStats_bind, modifyPacket_bind, run_ite]
      rw [if_pos h]
      rfl
  | ip6 | ip6Frag | udp =>
      simp only [Call.Accepts, hc, not_le] at h
      simp only [Call.body, Call.refuse, hc, decodeIp6, decodeIp6Frag, decodeUdp]
      rw [run_short h]
      rfl
  | ip6Rte | ip6Ext =>
      simp only [Call.Accepts, hc, Call.extLen] at h
      simp only [Call.body, Call.refuse, hc, decodeIp6Rte, decodeIp6Ext, run_ite, readByte_bind,
        reduceCtorEq, if_false]
      split_ifs with hshort hcut
      · rfl
      · rfl
      · exact absurd ⟨Nat.not_lt.mp hshort, Nat.not_lt.mp hcut⟩ h
  | tcp =>
      simp only [Call.Accepts, hc, not_le] at h
      simp only [Call.body, Call.refuse, hc, decodeTcp, modifyStats_bind, run_ite]
      rw [if_pos h]
      rfl

/-- **A header that is accepted**, other than a TCP header: `Call.fill`. -/
lemma body_fill (h : c.Accepts mem) (hdec : c.decoder ≠ .tcp) (fuel : ℕ) :
    (c.body fuel ⟨mem, c⟩ s).2.packet = c.fill mem s.packet := by
  cases hc : c.decoder with
  | ip =>
      simp only [Call.Accepts, hc] at h
      replace h := not_or.mpr ⟨Nat.not_lt.mpr h.1, Nat.not_lt.mpr h.2⟩
      rw [Call.ipHlen, Call.ipLen] at h
      simp only [Call.body, hc, decodeIp, readByte_bind, readNtohs_bind, subtract_bind,
        modifyStats_bind, modifyPacket_bind, run_ite, packetLayerIns_bind, addPayload_bind,
        readBytes_bind, readAddr32_bind, getPacket_bind]
      rw [if_neg h]
      simp only [Call.fill, Call.fields, Call.size, Call.advance, Call.paysize, Decoder.proto, hc]
      split_ifs <;> rfl
  | ip6 =>
      simp only [Call.Accepts, hc] at h
      simp only [Call.body, hc, decodeIp6, run_ite]
      rw [if_neg (Nat.not_lt.mpr h)]
      simp only [Call.fill, Call.fields, Call.size, Call.advance, Call.paysize, Decoder.proto, hc]
      rfl
  | ip6Rte =>
      simp only [Call.Accepts, hc] at h
      obtain ⟨h1, h2⟩ := h
      rw [Call.extLen] at h2
      simp only [Call.body, hc, decodeIp6Rte, run_ite, readByte_bind]
      rw [if_neg (Nat.not_lt.mpr h1), if_neg (Nat.not_lt.mpr h2)]
      simp only [readByte_bind, run_ite, addPayload_bind, subPaysize_bind, packetLayerIns_bind,
        modifyPacket_bind, readAddr_bind]
      simp only [Call.fill, Call.fields, Call.size, Call.advance, Call.paysize, Decoder.proto, hc]
      split_ifs <;> rfl
  | ip6Frag =>
      simp only [Call.Accepts, hc] at h
      simp only [Call.body, hc, decodeIp6Frag, run_ite]
      rw [if_neg (Nat.not_lt.mpr h)]
      simp only [readNtohs_bind, modifyPacket_bind, readByte_bind, readBytes_bind, addPayload_bind,
        subPaysize_bind, packetLayerIns_bind, getPacket_bind, run_ite]
      simp only [Call.fill, Call.fields, Call.size, Call.advance, Call.paysize, Decoder.proto, hc]
      split_ifs <;> rfl
  | ip6Ext =>
      simp only [Call.Accepts, hc] at h
      obtain ⟨h1, h2⟩ := h
      rw [Call.extLen] at h2
      simp only [Call.body, hc, decodeIp6Ext, run_ite, readByte_bind]
      rw [if_neg (Nat.not_lt.mpr h1), if_neg (Nat.not_lt.mpr h2)]
      simp only [Call.fill, Call.fields, Call.size, Call.advance, Call.paysize, Decoder.proto, hc,
        Nat.cast_add, ← add_assoc]
      rfl
  | tcp => exact absurd hc hdec
  | udp =>
      simp only [Call.Accepts, hc] at h
      simp only [Call.body, hc, decodeUdp, run_ite]
      rw [if_neg (Nat.not_lt.mpr h)]
      simp only [packetLayerIns_bind, packetLayerCurrent_bind, modifyPacket_bind, readNtohs_bind,
        addPayload_bind, subPaysize_bind, readBytes_bind, getPacket_bind, run_ite]
      simp only [Call.fill, Call.fields, Call.size, Call.advance, Call.paysize, Decoder.proto, hc]
      split_ifs <;> rfl

/-- A TCP header that is accepted: its options are decoded after it. -/
lemma decodeTcp_fill (h : c.Accepts mem) (hdec : c.decoder = .tcp) (fuel : ℕ) :
    ∃ s', decodeTcp fuel c.pkt c.len ⟨mem, c⟩ s =
        (if c.tcpOptlen mem ≠ 0 then
          let r := decodeTcpOptions fuel (c.pkt + c.tcpHlen mem - c.tcpOptlen mem) (c.tcpOptlen mem)
            ⟨mem, c⟩ s'
          (r.1.map fun _ => .ret 0, r.2)
        else (some (.ret 0), s')) ∧
      s'.packet = c.fill mem s.packet := by
  simp only [Call.Accepts, hdec] at h
  simp only [decodeTcp, modifyStats_bind, run_ite]
  rw [if_neg (Nat.not_lt.mpr h)]
  simp only [readByte_bind, packetLayerIns_bind, packetLayerCurrent_bind, modifyPacket_bind,
    readNtohs_bind, addPayload_bind, subPaysize_bind, run_ite, bind_ret, pure_apply, Call.fill,
    Call.fields, Call.size, Call.advance, Call.paysize, Decoder.proto, Call.tcpOptlen,
    Call.tcpHlen, hdec]
  exact ⟨_, rfl, rfl⟩

/-- **A TCP header that is accepted**: `Call.fill`, and the options. -/
lemma body_fill_tcp (h : c.Accepts mem) (hdec : c.decoder = .tcp) (fuel : ℕ) :
    (c.body fuel ⟨mem, c⟩ s).2.packet =
      (c.options mem fuel).foldl Packet.addOption (c.fill mem s.packet) := by
  obtain ⟨s', htcp, hfill⟩ := decodeTcp_fill (s := s) h hdec fuel
  simp only [Call.body, hdec]
  rw [htcp, ← hfill, Call.options]
  simp only [Call.Accepts, hdec] at h
  by_cases hloop : c.LoopsOptions mem
  · obtain ⟨-, hne, hle⟩ := id hloop
    have hopts := optionLoop_packet (f := ⟨mem, c⟩) (s := s') (c.optStart mem) hle fuel 0
    rw [Nat.cast_zero, add_zero] at hopts
    rw [if_pos hne, if_pos ⟨hdec, hloop⟩, decodeTcpOptions, if_neg (Nat.not_lt.mpr hle), ← hopts]
    rfl
  · rw [if_neg fun hand : _ ∧ _ => hloop hand.2, List.foldl_nil]
    split_ifs with hne
    · have hlong : c.tcpOptlen mem > maxTcpoptlen := by
        by_contra hle
        exact hloop ⟨h, hne, Nat.not_lt.mp hle⟩
      rw [decodeTcpOptions, if_pos hlong]
      rfl
    · rfl

/-- Only a TCP header has options. -/
lemma finish_of_accepts {p : Packet} {fuel : ℕ} (h : c.Accepts mem) (hdec : c.decoder ≠ .tcp) :
    c.finish mem fuel p = c.fill mem p := by
  rw [Call.finish, if_pos h, Call.options, if_neg fun hand : _ ∧ _ => hdec hand.1, List.foldl_nil]

lemma finish_of_refused {p : Packet} {fuel : ℕ} (h : ¬ c.Accepts mem) :
    c.finish mem fuel p = c.refuse p :=
  if_neg h

/-- The packet behind the last header. -/
lemma body_finish (fuel : ℕ) :
    (c.body fuel ⟨mem, c⟩ s).2.packet = c.finish mem fuel s.packet := by
  by_cases hacc : c.Accepts mem
  · by_cases hdec : c.decoder = .tcp
    · rw [body_fill_tcp hacc hdec fuel, Call.finish, if_pos hacc]
    · rw [body_fill hacc hdec fuel, finish_of_accepts hacc hdec]
  · rw [body_refuse hacc fuel, finish_of_refused hacc]

/-- What the last header returns. -/
lemma body_value {fuel : ℕ} {r : ℤ} (h : c.nested mem = none)
    (hret : (c.body fuel ⟨mem, c⟩ s).1 = some (.ret r)) : r = c.value mem s.packet := by
  by_cases hacc : c.Accepts mem
  · by_cases hdec : c.decoder = .tcp
    · obtain ⟨l, hout, -⟩ := body_tcp (s := s) hacc hdec fuel
      rw [hret, or_iff_right (Option.some_ne_none _), Option.some_inj] at hout
      rw [Call.value_tcp hacc hdec]
      exact Outcome.ret.inj hout
    · obtain ⟨s', hbody, -⟩ := body_accepted (s := s) hacc hdec
      rw [hbody, h, Option.some_inj] at hret
      exact (Outcome.ret.inj hret).symm
  · obtain ⟨m, s', hbody, -⟩ := body_refused (s := s) hacc
    rw [hbody, Option.some_inj] at hret
    rw [Call.value, if_pos hacc]
    exact (Outcome.ret.inj hret).symm

end Body

/-! ### Whole decodings -/

/-- What the chain of headers from `c` on returns and leaves behind. -/
def result (mem : Memory) : ℕ → Call → Packet → ℤ × Packet
  | 0, _, p => (0, p)
  | n + 1, c, p =>
      (c.nested mem).elim (c.value mem p, c.finish mem n p) fun d => result mem n d (c.fill mem p)

section Decoding

variable {mem : Memory} {c d : Call} {s : Decoding} {n : ℕ}

lemma result_of_nested (h : c.nested mem = some d) (p : Packet) :
    result mem (n + 1) c p = result mem n d (c.fill mem p) := by
  rw [result, h, Option.elim_some]

lemma result_of_last (h : c.nested mem = none) (p : Packet) :
    result mem (n + 1) c p = (c.value mem p, c.finish mem n p) := by
  rw [result, h, Option.elim_none]

/-- A header another one follows: its decoder fills the packet and makes the
call. -/
lemma decode_fill (h : c.nested mem = some d) :
    ∃ s', s'.packet = c.fill mem s.packet ∧
      ∀ n, decode mem (n + 1) c s = decode mem n d s' := by
  obtain ⟨hacc, hdec⟩ := accepts_of_nested h
  obtain ⟨s', hbody, -⟩ := body_accepted (s := s) hacc hdec
  refine ⟨{ s' with calls := s'.calls ++ [(c, d)] }, ?_, fun n => ?_⟩
  · have hfill := body_fill (s := s) hacc hdec 0
    rwa [hbody] at hfill
  · rw [decode, hbody, h]
    rfl

/-- **The result of a decoding**: it leaves the packet of `result` behind and
returns its value, if it returns. -/
theorem decode_result (n : ℕ) (c : Call) (s : Decoding) :
    (decode mem n c s).2.packet = (result mem n c s.packet).2 ∧
      ∀ r, (decode mem n c s).1 = some r → r = (result mem n c s.packet).1 := by
  induction n generalizing c s with
  | zero => exact ⟨rfl, fun r hr => by cases hr⟩
  | succ n ih =>
      cases hnext : c.nested mem with
      | none =>
          rw [(decode_of_last hnext n).1, result_of_last hnext]
          refine ⟨body_finish n, fun r hr => ?_⟩
          rw [Option.bind_eq_some_iff] at hr
          obtain ⟨o, ho, hval⟩ := hr
          cases o with
          | ret r' =>
              obtain rfl : r' = r := Option.some.inj hval
              exact body_value hnext ho
          | call d => cases hval
      | some d =>
          obtain ⟨s', hpacket, heq⟩ := decode_fill (s := s) hnext
          rw [heq, result_of_nested hnext, ← hpacket]
          exact ih d s'

end Decoding

end CLibrary
