import CLibrary.Library.Chain
import CLibrary.Packet.Decode

/-!
What each decoder makes of its header.

* `Call.Accepts`, `Call.size`, `Call.follower`, `Call.nested`: whether a decoder
  accepts its header, how long it is, what follows, and the call made for it;
  functions of the bytes alone.  The chain of `Call.nested` is the chain of
  headers.
* `Call.reads`, `Call.subs`, `Call.advance`, `Call.paysize`: what a decoder
  reads, and what it does to the window.
* `Effect`: how a decoder moves the window and adds to the record.
* `decodeIp_long`, `decodeIp6_long`, ...: the outcome and the effect of every
  decoder on a header it accepts; `run_short`, `run_cut`, `decodeIp_short`,
  `decodeTcp_short` on one it does not.
-/

namespace CLibrary

open Decode

/-! ### Headers -/

namespace Call

variable (mem : Memory) (c : Call)

/-- `hlen` of an IPv4 header. -/
def ipHlen : ℕ := mem.byte c.pkt % 16 * 4

/-- `ip_len` of an IPv4 header. -/
def ipLen : ℕ := mem.be16 (c.pkt + 2)

/-- The two tests of `decode_ip`. -/
def IpAccepted : Prop := c.ipHlen mem ≤ c.len ∧ usub 32 (c.ipLen mem) (c.ipHlen mem) ≤ c.len

/-- An IPv4 header of a fragment. -/
def IpFragment : Prop :=
  mem.be16 (c.pkt + 6) % 2 ^ 13 ≠ 0 ∨ mem.be16 (c.pkt + 6) / 2 ^ 13 % 2 = 1

/-- `rte_len` of a routing header, `ext_len` of an options header. -/
def extLen : ℕ := mem.byte (c.pkt + 1) * 8 + 8

/-- An IPv6 fragment header that is not handed on from. -/
def Ip6Fragment : Prop :=
  mem.be16 (c.pkt + 2) &&& ip6fOffMask ≠ 0 ∨ mem.be16 (c.pkt + 2) &&& ip6fMoreFrag ≠ 0

/-- `hlen` of a TCP header. -/
def tcpHlen : ℕ := mem.byte (c.pkt + 12) / 16 * 4

/-- `optlen` of a TCP header. -/
def tcpOptlen : ℕ := usub 32 (c.tcpHlen mem) sizeofTcphdr % 2 ^ 16

instance : Decidable (c.IpAccepted mem) := inferInstanceAs (Decidable (_ ∧ _))

instance : Decidable (c.IpFragment mem) := inferInstanceAs (Decidable (_ ∨ _))

instance : Decidable (c.Ip6Fragment mem) := inferInstanceAs (Decidable (_ ∨ _))

/-- The length tests of a decoder are passed. -/
def Accepts : Prop :=
  match c.decoder with
  | .ip => c.IpAccepted mem
  | .ip6 => sizeofIp6Hdr ≤ c.len
  | .ip6Rte => sizeofIp6Rte ≤ c.len ∧ c.extLen mem ≤ c.len
  | .ip6Frag => sizeofIp6Frag ≤ c.len
  | .ip6Ext => sizeofIp6Ext ≤ c.len ∧ c.extLen mem ≤ c.len
  | .tcp => sizeofTcphdr ≤ c.len
  | .udp => sizeofUdphdr ≤ c.len

/-- A header behind which decoding ends with 0, there being a fragment. -/
def Fragment : Prop :=
  match c.decoder with
  | .ip => c.IpFragment mem
  | .ip6Frag => c.Ip6Fragment mem
  | _ => False

instance : Decidable (c.Accepts mem) :=
  match hc : c.decoder with
  | .ip => decidable_of_iff (c.IpAccepted mem) (by simp only [Accepts, hc])
  | .ip6 => decidable_of_iff (sizeofIp6Hdr ≤ c.len) (by simp only [Accepts, hc])
  | .ip6Rte =>
      decidable_of_iff (sizeofIp6Rte ≤ c.len ∧ c.extLen mem ≤ c.len) (by simp only [Accepts, hc])
  | .ip6Frag => decidable_of_iff (sizeofIp6Frag ≤ c.len) (by simp only [Accepts, hc])
  | .ip6Ext =>
      decidable_of_iff (sizeofIp6Ext ≤ c.len ∧ c.extLen mem ≤ c.len) (by simp only [Accepts, hc])
  | .tcp => decidable_of_iff (sizeofTcphdr ≤ c.len) (by simp only [Accepts, hc])
  | .udp => decidable_of_iff (sizeofUdphdr ≤ c.len) (by simp only [Accepts, hc])

instance : Decidable (c.Fragment mem) :=
  match hc : c.decoder with
  | .ip => decidable_of_iff (c.IpFragment mem) (by simp only [Fragment, hc])
  | .ip6Frag => decidable_of_iff (c.Ip6Fragment mem) (by simp only [Fragment, hc])
  | .ip6 | .ip6Rte | .ip6Ext | .tcp | .udp =>
      isFalse (by simp only [Fragment, hc, not_false_eq_true])

/-- The size of a header, as its decoder records it. -/
def size : ℕ :=
  match c.decoder with
  | .ip => c.ipHlen mem
  | .ip6 => sizeofIp6Hdr
  | .ip6Rte | .ip6Ext => c.extLen mem
  | .ip6Frag => sizeofIp6Frag
  | .tcp => c.tcpHlen mem
  | .udp => sizeofUdphdr

/-- The decoder of what follows a header. -/
def follower : Option Decoder :=
  match c.decoder with
  | .ip => ipSwitch (mem.byte (c.pkt + 9))
  | .ip6 => ip6Switch (mem.byte (c.pkt + 6))
  | .ip6Rte | .ip6Frag | .ip6Ext => ip6Switch (mem.byte c.pkt)
  | .tcp | .udp => none

/-- The call a decoder makes. -/
def nested : Option Call :=
  if c.Accepts mem ∧ ¬ c.Fragment mem then
    (c.follower mem).map fun d => ⟨d, c.pkt + c.size mem, usub 32 c.len (c.size mem)⟩
  else none

/-- What is read of a header that is accepted, options apart. -/
def reads : List Access :=
  match c.decoder with
  | .ip =>
      [⟨c, c.pkt, 1⟩, ⟨c, c.pkt + 2, 2⟩, ⟨c, c.pkt + 6, 2⟩, ⟨c, c.pkt + 4, 2⟩, ⟨c, c.pkt + 1, 1⟩,
        ⟨c, c.pkt + 8, 1⟩, ⟨c, c.pkt + 12, 4⟩, ⟨c, c.pkt + 16, 4⟩, ⟨c, c.pkt + 9, 1⟩]
  | .ip6 =>
      [⟨c, c.pkt + 6, 1⟩, ⟨c, c.pkt + 4, 2⟩, ⟨c, c.pkt + 7, 1⟩, ⟨c, c.pkt + 8, 16⟩,
        ⟨c, c.pkt + 24, 16⟩]
  | .ip6Rte =>
      [⟨c, c.pkt + 1, 1⟩, ⟨c, c.pkt, 1⟩, ⟨c, c.pkt + 3, 1⟩] ++
        if mem.byte (c.pkt + 3) > 0 then [⟨c, c.pkt + c.extLen mem - 16, 16⟩] else []
  | .ip6Frag => [⟨c, c.pkt + 2, 2⟩, ⟨c, c.pkt, 1⟩, ⟨c, c.pkt + 4, 4⟩]
  | .ip6Ext => [⟨c, c.pkt + 1, 1⟩, ⟨c, c.pkt, 1⟩]
  | .tcp => [⟨c, c.pkt + 12, 1⟩, ⟨c, c.pkt, 2⟩, ⟨c, c.pkt + 2, 2⟩]
  | .udp => [⟨c, c.pkt, 2⟩, ⟨c, c.pkt + 2, 2⟩, ⟨c, c.pkt + 6, 2⟩]

/-- What is read of a header that is refused. -/
def refusedReads : List Access :=
  match c.decoder with
  | .ip => [⟨c, c.pkt, 1⟩, ⟨c, c.pkt + 2, 2⟩]
  | .ip6Rte => if sizeofIp6Rte ≤ c.len then [⟨c, c.pkt + 1, 1⟩] else []
  | .ip6Ext => if sizeofIp6Ext ≤ c.len then [⟨c, c.pkt + 1, 1⟩] else []
  | .ip6 | .ip6Frag | .tcp | .udp => []

/-- How far `payload` moves past a header that is accepted. -/
def advance : ℕ :=
  match c.decoder with
  | .ip6Ext => ntohs (c.extLen mem) + c.extLen mem
  | _ => c.size mem

/-- The subtractions behind a header that is accepted, from a `paysize` of `n`. -/
def subs (n : ℕ) : List (ℕ × ℕ) :=
  match c.decoder with
  | .ip => [(c.ipLen mem, c.ipHlen mem)]
  | .ip6 => []
  | .ip6Ext => [(n, ntohs (c.extLen mem)), (usub 32 n (ntohs (c.extLen mem)), c.extLen mem)]
  | _ => [(n, c.size mem)]

/-- `paysize` behind a header that is accepted, if it was `n`. -/
def paysize (n : ℕ) : ℕ :=
  match c.decoder with
  | .ip => usub 32 (c.ipLen mem) (c.ipHlen mem)
  | .ip6 => mem.be16 (c.pkt + 4)
  | .ip6Ext => usub 32 (usub 32 n (ntohs (c.extLen mem))) (c.extLen mem)
  | _ => usub 32 n (c.size mem)

variable {mem c}

lemma nested_of_accepts (h : c.Accepts mem) (hfrag : ¬ c.Fragment mem) :
    c.nested mem =
      (c.follower mem).map fun d => ⟨d, c.pkt + c.size mem, usub 32 c.len (c.size mem)⟩ :=
  if_pos ⟨h, hfrag⟩

lemma nested_of_fragment (hfrag : c.Fragment mem) : c.nested mem = none :=
  if_neg fun h => h.2 hfrag

lemma nested_of_refused (h : ¬ c.Accepts mem) : c.nested mem = none := if_neg fun h' => h h'.1

end Call

/-! ### What decoders do -/

/-- From `s` to `s'` the reads `reads` and the subtractions `subs` are made, and
the window moves to `payload`, `paysize`. -/
structure Effect (s s' : Decoding) (reads : List Access) (subs : List (ℕ × ℕ)) (payload : ℤ)
    (paysize : ℕ) : Prop where
  reads : s'.reads = s.reads ++ reads
  subs : s'.subs = s.subs ++ subs
  calls : s'.calls = s.calls
  payload : s'.packet.payload = payload
  paysize : s'.packet.paysize = paysize

section Effects

variable (mem : Memory) {c : Call} {s : Decoding}

omit mem in
lemma Effect.refl : Effect s s [] [] s.packet.payload s.packet.paysize := by
  refine ⟨?_, ?_, rfl, rfl, rfl⟩
  · rw [List.append_nil]
  · rw [List.append_nil]

/-! ### Headers that are too short -/

omit mem in
/-- A header shorter than what its decoder needs at least. -/
lemma run_short {f : Frame} {len size : ℕ} {d : Decode Outcome} (h : len < size) :
    (if len < size then pure (.ret (-1)) else d : Decode Outcome) f s = (some (.ret (-1)), s) := by
  rw [if_pos h, pure_apply]

/-- A routing or options header that is shorter than its length. -/
lemma run_cut {size : ℕ} {d : ℕ → Decode Outcome} (h : size ≤ c.len)
    (h' : c.len < c.extLen mem) :
    ∃ s', (if c.len < size then pure (.ret (-1)) else
        readByte (c.pkt + 1) >>= fun x =>
          if c.len < x * 8 + 8 then pure (.ret (-1)) else d x : Decode Outcome) ⟨mem, c⟩ s =
        (some (.ret (-1)), s') ∧
      Effect s s' [⟨c, c.pkt + 1, 1⟩] [] s.packet.payload s.packet.paysize := by
  rw [Call.extLen] at h'
  rw [if_neg (Nat.not_lt.mpr h), readByte_bind, if_pos h']
  exact ⟨_, rfl, rfl, (List.append_nil _).symm, rfl, rfl, rfl⟩

/-! ### IPv4 -/

/-- An IPv4 header that fails a test. -/
lemma decodeIp_short (h : ¬ c.IpAccepted mem) :
    ∃ s', decodeIp c.pkt c.len ⟨mem, c⟩ s = (some (.ret (-1)), s') ∧
      Effect s s' [⟨c, c.pkt, 1⟩, ⟨c, c.pkt + 2, 2⟩] [(c.ipLen mem, c.ipHlen mem)]
        s.packet.payload s.packet.paysize := by
  rw [Call.IpAccepted, not_and_or, not_le, not_le, Call.ipHlen, Call.ipLen] at h
  simp only [decodeIp, readByte_bind, readNtohs_bind, subtract_bind, modifyStats_bind,
    modifyPacket_bind, run_ite]
  rw [if_pos h]
  exact ⟨_, rfl, by simp, rfl, rfl, rfl, rfl⟩

/-- An IPv4 header that passes them. -/
lemma decodeIp_long (h : c.IpAccepted mem) :
    ∃ s', decodeIp c.pkt c.len ⟨mem, c⟩ s =
        (some (if c.IpFragment mem then .ret 0 else
          .ofSwitch (ipSwitch (mem.byte (c.pkt + 9))) (c.pkt + c.ipHlen mem)
            (usub 32 c.len (c.ipHlen mem))), s') ∧
      Effect s s' [⟨c, c.pkt, 1⟩, ⟨c, c.pkt + 2, 2⟩, ⟨c, c.pkt + 6, 2⟩, ⟨c, c.pkt + 4, 2⟩,
          ⟨c, c.pkt + 1, 1⟩, ⟨c, c.pkt + 8, 1⟩, ⟨c, c.pkt + 12, 4⟩, ⟨c, c.pkt + 16, 4⟩,
          ⟨c, c.pkt + 9, 1⟩]
        [(c.ipLen mem, c.ipHlen mem)] (s.packet.payload + c.ipHlen mem)
        (usub 32 (c.ipLen mem) (c.ipHlen mem)) := by
  replace h := not_or.mpr ⟨Nat.not_lt.mpr h.1, Nat.not_lt.mpr h.2⟩
  rw [Call.ipHlen, Call.ipLen] at h
  simp only [decodeIp, readByte_bind, readNtohs_bind, subtract_bind, modifyStats_bind,
    modifyPacket_bind, run_ite, packetLayerIns_bind, addPayload_bind, readBytes_bind,
    readAddr32_bind, getPacket_bind]
  rw [if_neg h]
  by_cases hfrag : c.IpFragment mem
  · rw [if_pos hfrag]
    rw [Call.IpFragment, ← decide_eq_true_iff (p := _ = 1)] at hfrag
    rw [if_pos hfrag]
    exact ⟨_, rfl, by simp, rfl, rfl, rfl, rfl⟩
  · rw [if_neg hfrag]
    rw [Call.IpFragment, ← decide_eq_true_iff (p := _ = 1)] at hfrag
    rw [if_neg hfrag]
    exact ⟨_, rfl, by simp, rfl, rfl, rfl, rfl⟩

/-! ### IPv6 -/

/-- An IPv6 header that is long enough. -/
lemma decodeIp6_long (h : sizeofIp6Hdr ≤ c.len) :
    ∃ s', decodeIp6 c.pkt c.len ⟨mem, c⟩ s =
        (some (.ofSwitch (ip6Switch (mem.byte (c.pkt + 6))) (c.pkt + sizeofIp6Hdr)
          (usub 32 c.len sizeofIp6Hdr)), s') ∧
      Effect s s' [⟨c, c.pkt + 6, 1⟩, ⟨c, c.pkt + 4, 2⟩, ⟨c, c.pkt + 7, 1⟩, ⟨c, c.pkt + 8, 16⟩,
        ⟨c, c.pkt + 24, 16⟩] [] (s.packet.payload + sizeofIp6Hdr) (mem.be16 (c.pkt + 4)) := by
  rw [decodeIp6, if_neg (Nat.not_lt.mpr h)]
  exact ⟨_, rfl, by simp, by simp, rfl, rfl, rfl⟩

/-- A routing header that is as long as it says. -/
lemma decodeIp6Rte_long (h : sizeofIp6Rte ≤ c.len) (h' : c.extLen mem ≤ c.len) :
    ∃ s', decodeIp6Rte c.pkt c.len ⟨mem, c⟩ s =
        (some (.ofSwitch (ip6Switch (mem.byte c.pkt)) (c.pkt + c.extLen mem)
          (usub 32 c.len (c.extLen mem))), s') ∧
      Effect s s' ([⟨c, c.pkt + 1, 1⟩, ⟨c, c.pkt, 1⟩, ⟨c, c.pkt + 3, 1⟩] ++
          if mem.byte (c.pkt + 3) > 0 then [⟨c, c.pkt + c.extLen mem - 16, 16⟩] else [])
        [(s.packet.paysize, c.extLen mem)] (s.packet.payload + c.extLen mem)
        (usub 32 s.packet.paysize (c.extLen mem)) := by
  replace h' := Nat.not_lt.mpr h'
  rw [Call.extLen] at h'
  rw [decodeIp6Rte, if_neg (Nat.not_lt.mpr h)]
  simp only [readByte_bind, run_ite, addPayload_bind, subPaysize_bind, packetLayerIns_bind,
    modifyPacket_bind, readAddr_bind]
  rw [if_neg h']
  by_cases hseg : mem.byte (c.pkt + 3) > 0
  · rw [if_pos hseg, if_pos hseg]
    exact ⟨_, rfl, by simp [Call.extLen], rfl, rfl, rfl, rfl⟩
  · rw [if_neg hseg, if_neg hseg]
    exact ⟨_, rfl, by simp, rfl, rfl, rfl, rfl⟩

/-- A fragment header that is long enough. -/
lemma decodeIp6Frag_long (h : sizeofIp6Frag ≤ c.len) :
    ∃ s', decodeIp6Frag c.pkt c.len ⟨mem, c⟩ s =
        (some (if c.Ip6Fragment mem then .ret 0 else
          .ofSwitch (ip6Switch (mem.byte c.pkt)) (c.pkt + sizeofIp6Frag)
            (usub 32 c.len sizeofIp6Frag)), s') ∧
      Effect s s' [⟨c, c.pkt + 2, 2⟩, ⟨c, c.pkt, 1⟩, ⟨c, c.pkt + 4, 4⟩]
        [(s.packet.paysize, sizeofIp6Frag)] (s.packet.payload + sizeofIp6Frag)
        (usub 32 s.packet.paysize sizeofIp6Frag) := by
  rw [decodeIp6Frag, if_neg (Nat.not_lt.mpr h)]
  simp only [readNtohs_bind, modifyPacket_bind, readByte_bind, readBytes_bind, addPayload_bind,
    subPaysize_bind, packetLayerIns_bind, getPacket_bind, run_ite]
  by_cases hfrag : c.Ip6Fragment mem
  · rw [if_pos hfrag]
    rw [Call.Ip6Fragment, ← decide_eq_true_iff (p := mem.be16 _ &&& ip6fMoreFrag ≠ 0)] at hfrag
    exact ⟨_, (if_pos hfrag).trans rfl, by simp, rfl, rfl, rfl, rfl⟩
  · rw [if_neg hfrag]
    rw [Call.Ip6Fragment, ← decide_eq_true_iff (p := mem.be16 _ &&& ip6fMoreFrag ≠ 0)] at hfrag
    exact ⟨_, (if_neg hfrag).trans rfl, by simp, rfl, rfl, rfl, rfl⟩

/-- An options header that is as long as it says. -/
lemma decodeIp6Ext_long (h : sizeofIp6Ext ≤ c.len) (h' : c.extLen mem ≤ c.len) :
    ∃ s', decodeIp6Ext c.pkt c.len ⟨mem, c⟩ s =
        (some (.ofSwitch (ip6Switch (mem.byte c.pkt)) (c.pkt + c.extLen mem)
          (usub 32 c.len (c.extLen mem))), s') ∧
      Effect s s' [⟨c, c.pkt + 1, 1⟩, ⟨c, c.pkt, 1⟩]
        [(s.packet.paysize, ntohs (c.extLen mem)),
          (usub 32 s.packet.paysize (ntohs (c.extLen mem)), c.extLen mem)]
        (s.packet.payload + ntohs (c.extLen mem) + c.extLen mem)
        (usub 32 (usub 32 s.packet.paysize (ntohs (c.extLen mem))) (c.extLen mem)) := by
  replace h' := Nat.not_lt.mpr h'
  rw [Call.extLen] at h'
  rw [decodeIp6Ext, if_neg (Nat.not_lt.mpr h)]
  simp only [readByte_bind, run_ite]
  rw [if_neg h']
  exact ⟨_, rfl, by simp, by simp [Call.extLen], rfl, rfl, rfl⟩

/-! ### UDP and TCP -/

/-- A UDP header that is long enough. -/
lemma decodeUdp_long (h : sizeofUdphdr ≤ c.len) :
    ∃ s', decodeUdp c.pkt c.len ⟨mem, c⟩ s =
        (some (.ret (if mem.raw16 (c.pkt + 6) = 0 ∧ s.packet.version = 6 then -1 else 0)), s') ∧
      Effect s s' [⟨c, c.pkt, 2⟩, ⟨c, c.pkt + 2, 2⟩, ⟨c, c.pkt + 6, 2⟩]
        [(s.packet.paysize, sizeofUdphdr)] (s.packet.payload + sizeofUdphdr)
        (usub 32 s.packet.paysize sizeofUdphdr) := by
  rw [decodeUdp, if_neg (Nat.not_lt.mpr h)]
  simp only [packetLayerIns_bind, packetLayerCurrent_bind, modifyPacket_bind, readNtohs_bind,
    addPayload_bind, subPaysize_bind, readBytes_bind, getPacket_bind, run_ite]
  by_cases hsum : mem.raw16 (c.pkt + 6) = 0 ∧ s.packet.version = 6
  · rw [if_pos hsum]
    exact ⟨_, (if_pos hsum).trans rfl, by simp, rfl, rfl, rfl, rfl⟩
  · rw [if_neg hsum]
    exact ⟨_, (if_neg hsum).trans rfl, by simp, rfl, rfl, rfl, rfl⟩

/-- A TCP header that is too short. -/
lemma decodeTcp_short (h : c.len < sizeofTcphdr) :
    ∃ s', (∀ fuel, decodeTcp fuel c.pkt c.len ⟨mem, c⟩ s = (some (.ret (-1)), s')) ∧
      Effect s s' [] [] s.packet.payload s.packet.paysize := by
  simp only [decodeTcp, modifyStats_bind, run_ite]
  exact ⟨_, fun _ => (if_pos h).trans rfl, by simp, by simp, rfl, rfl, rfl⟩

/-- A TCP header that is long enough: its options are decoded after it. -/
lemma decodeTcp_long (fuel : ℕ) (h : sizeofTcphdr ≤ c.len) :
    ∃ s', decodeTcp fuel c.pkt c.len ⟨mem, c⟩ s =
        (if c.tcpOptlen mem ≠ 0 then
          let r := decodeTcpOptions fuel (c.pkt + c.tcpHlen mem - c.tcpOptlen mem) (c.tcpOptlen mem)
            ⟨mem, c⟩ s'
          (r.1.map fun _ => .ret 0, r.2)
        else (some (.ret 0), s')) ∧
      Effect s s' [⟨c, c.pkt + 12, 1⟩, ⟨c, c.pkt, 2⟩, ⟨c, c.pkt + 2, 2⟩]
        [(s.packet.paysize, c.tcpHlen mem)] (s.packet.payload + c.tcpHlen mem)
        (usub 32 s.packet.paysize (c.tcpHlen mem)) := by
  simp only [decodeTcp, modifyStats_bind, run_ite]
  rw [if_neg (Nat.not_lt.mpr h)]
  simp only [readByte_bind, packetLayerIns_bind, packetLayerCurrent_bind, modifyPacket_bind,
    readNtohs_bind, addPayload_bind, subPaysize_bind, run_ite, bind_ret, pure_apply,
    Call.tcpOptlen, Call.tcpHlen]
  exact ⟨_, rfl, by simp, rfl, rfl, rfl, rfl⟩

end Effects

end CLibrary
