import CLibrary.Packet.Calls

/-!
Termination of the decoders.

* `Terminates`: a decoding returns, and every call of a decoder is made on a
  shorter slice than the call that makes it, or further on.
* `Call.StandsStill`, `Call.Stuck`: the headers at which decoding makes no way.
* `decoding_terminates_iff`: a decoding terminates if and only if it gets to
  none of them.
* `decoding_stands_still`: an IPv4 header of length zero that announces an IPv4
  header calls itself for ever.
-/

namespace CLibrary

/-- Decoding returns, and every call is made on a shorter slice or from a later
byte on. -/
def Terminates (mem : Memory) (c : Call) (packet : Packet) (stats : PacketStats) : Prop :=
  (∃ n, (decode mem n c (.start packet stats)).1 ≠ none) ∧
    ∀ n, ∀ e ∈ (decode mem n c (.start packet stats)).2.calls,
      e.2.len < e.1.len ∨ e.1.pkt < e.2.pkt

namespace Call

variable (mem : Memory) (c : Call)

/-- An IPv4 header of length zero that is handed on from: it is accepted, no
fragment, and a decoder for its protocol exists. -/
def StandsStill : Prop :=
  c.decoder = .ip ∧ c.ipHlen mem = 0 ∧ c.ipLen mem ≤ c.len ∧ ¬ c.IpFragment mem ∧
    ipSwitch (mem.byte (c.pkt + 9)) ≠ none

/-- A TCP header whose options lead to one of variable length that says it has
length zero. -/
def Stuck : Prop :=
  c.decoder = .tcp ∧ c.LoopsOptions mem ∧
    ∃ n, ∃ pos ∈ chain (c.optNext mem) n 0, pos < c.tcpOptlen mem ∧
      mem.byte (c.optStart mem + pos) = tcpoptSack ∧ mem.byte (c.optStart mem + pos + 1) = 0

end Call

section Lengths

variable {mem : Memory} {c d : Call}

/-- A header that is accepted lies in its slice, unless it is a TCP header. -/
lemma size_le (h : c.Accepts mem) (hdec : c.decoder ≠ .tcp) : c.size mem ≤ c.len := by
  cases hc : c.decoder with
  | ip =>
      simp only [Call.Accepts, hc] at h
      simp only [Call.size, hc]
      exact h.1
  | ip6 | ip6Frag | udp =>
      simp only [Call.Accepts, hc] at h
      simp only [Call.size, hc]
      exact h
  | ip6Rte | ip6Ext =>
      simp only [Call.Accepts, hc] at h
      simp only [Call.size, hc]
      exact h.2
  | tcp => exact absurd hc hdec

/-- Only an IPv4 header can have length zero. -/
lemma size_eq_zero_iff (hdec : c.decoder ≠ .tcp) :
    c.size mem = 0 ↔ c.decoder = .ip ∧ c.ipHlen mem = 0 := by
  cases hc : c.decoder with
  | ip => simp only [Call.size, hc, true_and]
  | tcp => exact absurd hc hdec
  | _ => simp [Call.size, hc, Call.extLen, sizeofIp6Hdr, sizeofIp6Frag, sizeofUdphdr]

/-- The slice of a nested call. -/
lemma nested_len (h : c.nested mem = some d) (hlen : c.len < 2 ^ 32) :
    d.len = c.len - c.size mem := by
  obtain ⟨hacc, hdec⟩ := accepts_of_nested h
  rw [Call.nested, Option.ite_none_right_eq_some, Option.map_eq_some_iff] at h
  obtain ⟨-, d', -, rfl⟩ := h
  exact usub_of_le (size_le hacc hdec) hlen

/-- The slice of a nested call starts behind the header. -/
lemma nested_pkt (h : c.nested mem = some d) : d.pkt = c.pkt + c.size mem := by
  rw [Call.nested, Option.ite_none_right_eq_some, Option.map_eq_some_iff] at h
  obtain ⟨-, d', -, rfl⟩ := h
  rfl

/-- A nested call makes way in both respects or in none. -/
lemma nested_later_iff (h : c.nested mem = some d) (hlen : c.len < 2 ^ 32) :
    c.pkt < d.pkt ↔ d.len < c.len := by
  obtain ⟨hacc, hdec⟩ := accepts_of_nested h
  have hle := size_le hacc hdec
  rw [nested_pkt h, nested_len h hlen]
  omega

/-- A header that stands still is handed on from. -/
lemma nested_of_standsStill (h : c.StandsStill mem) : ∃ d, c.nested mem = some d := by
  obtain ⟨hc, hzero, hle, hfrag, hswitch⟩ := h
  have hacc : c.Accepts mem := by
    simp only [Call.Accepts, hc]
    have hlt : c.ipLen mem < 2 ^ 32 := mem.be16_lt_unsigned _
    refine ⟨hzero ▸ Nat.zero_le _, ?_⟩
    rwa [hzero, usub_zero hlt]
  have hfrag' : ¬ c.Fragment mem := by simpa only [Call.Fragment, hc] using hfrag
  obtain ⟨d, hd⟩ := Option.ne_none_iff_exists'.mp hswitch
  rw [Call.nested_of_accepts hacc hfrag', Call.follower]
  simp only [hc, hd, Option.map_some]
  exact ⟨_, rfl⟩

/-- **A nested call is on a shorter slice**, unless its caller stands still. -/
lemma nested_shorter_iff (h : c.nested mem = some d) (hlen : c.len < 2 ^ 32) :
    d.len < c.len ↔ ¬ c.StandsStill mem := by
  obtain ⟨hacc, hdec⟩ := accepts_of_nested h
  have hle := size_le hacc hdec
  have hshort : d.len < c.len ↔ c.size mem ≠ 0 := by
    rw [nested_len h hlen]
    omega
  rw [hshort, ne_eq, size_eq_zero_iff hdec]
  refine not_congr ⟨fun ⟨hc, hzero⟩ => ?_, fun hstill => ⟨hstill.1, hstill.2.1⟩⟩
  rw [Call.nested, Option.ite_none_right_eq_some, Option.map_eq_some_iff] at h
  obtain ⟨⟨-, hfrag⟩, d', hd', -⟩ := h
  simp only [Call.Accepts, hc] at hacc
  simp only [Call.Fragment, hc] at hfrag
  simp only [Call.follower, hc] at hd'
  have hlt : c.ipLen mem < 2 ^ 32 := mem.be16_lt_unsigned _
  have hip := hacc.2
  rw [hzero, usub_zero hlt] at hip
  exact ⟨hc, hzero, hip, hfrag, hd' ▸ Option.some_ne_none _⟩

/-- Every slice along the chain of headers has a 32-bit length. -/
lemma chain_len_lt (hlen : c.len < 2 ^ 32) (n : ℕ) :
    ∀ h ∈ chain (Call.nested mem) n c, h.len < 2 ^ 32 := by
  refine forall_chain (p := fun h : Call => h.len < 2 ^ 32) hlen (fun h d hh hd => ?_) n
  have := nested_len hd hh
  omega

end Lengths

/-- **When decoding terminates**: for every buffer, slice and packet, exactly if
the chain of headers leads to none that stands still or is stuck. -/
theorem decoding_terminates_iff (mem : Memory) (decoder : Decoder) (pkt : ℤ) (len : UInt32)
    (packet : Packet) (stats : PacketStats) :
    Terminates mem ⟨decoder, pkt, len.toNat⟩ packet stats ↔
      ∀ n, ∀ h ∈ chain (Call.nested mem) n ⟨decoder, pkt, len.toNat⟩,
        ¬ h.StandsStill mem ∧ ¬ h.Stuck mem := by
  set c : Call := ⟨decoder, pkt, len.toNat⟩
  have hlen : ∀ n, ∀ h ∈ chain (Call.nested mem) n c, h.len < 2 ^ 32 :=
    chain_len_lt len.toNat_lt
  constructor
  · rintro ⟨hret, hcalls⟩ n h hmem
    constructor
    · intro hstill
      obtain ⟨d, hd⟩ := nested_of_standsStill hstill
      have hway := hcalls n (h, d) ((mem_calls_iff n).mpr (Or.inr ⟨hmem, hd⟩))
      rw [nested_later_iff hd (hlen n h hmem), or_self] at hway
      exact (nested_shorter_iff hd (hlen n h hmem)).mp hway hstill
    · rintro ⟨hdec, hloop, m, pos, hpos, hlt, hzero⟩
      have hstop := (returns_iff.mp hret).2 n h hmem hdec hloop
      exact optStops_iff.mp hstop m pos hpos hlt hzero
  · intro hcond
    have hshort : ∀ n, ∀ h ∈ chain (Call.nested mem) n c, ∀ d, h.nested mem = some d →
        d.len < h.len :=
      fun n h hmem d hd => (nested_shorter_iff hd (hlen n h hmem)).mpr (hcond n h hmem).1
    constructor
    · refine returns_iff.mpr ⟨⟨_, stops_of_decreasing hshort⟩, fun n h hmem hdec hloop => ?_⟩
      refine optStops_iff.mpr fun m pos hpos hlt hzero => ?_
      exact (hcond n h hmem).2 ⟨hdec, hloop, m, pos, hpos, hlt, hzero⟩
    · intro n e he
      rcases (mem_calls_iff n).mp he with he | ⟨hmem, hd⟩
      · exact (List.not_mem_nil he).elim
      · exact Or.inl (hshort n e.1 hmem e.2 hd)

/-- 20 bytes, `ip_hl` 0, `ip_len` 20, protocol `IPPROTO_IPIP`. -/
def headerOfNoLength : Memory :=
  Memory.ofList [0x40, 0, 0, 20, 0, 0, 0, 0, 64, 4, 0, 0, 10, 0, 0, 1, 10, 0, 0, 2]

/-- **A header that calls itself for ever**, in the place of the header in it. -/
theorem decoding_stands_still :
    (∀ n, (decode headerOfNoLength n ⟨.ip, 0, 20⟩ (.start default default)).1 = none) ∧
      ¬ Terminates headerOfNoLength ⟨.ip, 0, 20⟩ default default := by
  have hself : (⟨.ip, 0, 20⟩ : Call).nested headerOfNoLength = some ⟨.ip, 0, 20⟩ := by
    decide +kernel
  have hnone : ∀ n,
      (decode headerOfNoLength n ⟨.ip, 0, 20⟩ (.start default default)).1 = none := by
    intro n
    by_contra hn
    obtain ⟨⟨m, hstop⟩, -⟩ := returns_iff.mp ⟨n, hn⟩
    exact hstop.ne_self hself
  exact ⟨hnone, fun h => h.1.elim fun n hn => hn (hnone n)⟩

end CLibrary
