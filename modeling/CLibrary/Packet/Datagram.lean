import CLibrary.Packet.Cutoff

/-!
Datagrams and the padding behind them.

* `Announced`: a datagram that is as long as its first header says.
* `PaddingIgnored`: decoding returns and shows the same in any two buffers that
  start with the datagram.
* `Whole`: every header in the datagram is contained in it and decoding comes to
  an end, a condition on the bytes of the datagram alone.
* `padding_ignored_iff`: the condition is enough, and exact up to `MAX_LAYERS`
  headers.
* `padding_decoded`: padding that completes a TCP header.
-/

namespace CLibrary

open Decode

/-- The datagram `c` is as long as its first header, an IP header, says. -/
def Announced (mem : Memory) (c : Call) : Prop :=
  c.announces mem = some c.len ∧ (c.decoder = .ip → 20 ≤ c.len ∧ c.ipHlen mem ≤ c.len)

/-- A decoding of the first `len` bytes from `c` on returns `r` and shows `v`. -/
def Shows (mem : Memory) (c : Call) (len : UInt32) (packet : Packet) (stats : PacketStats) (r : ℤ)
    (v : View) : Prop :=
  let start : Decoding := .start { packet with paysize := len.toNat } stats
  ∃ n, (decode mem n { c with len := len.toNat } start).1 = some r ∧
    (decode mem n { c with len := len.toNat } start).2.packet.view mem = v

/-- Decodings of two buffers that start with the datagram `c` return and show
the same, whatever bytes and however many follow. -/
def PaddingIgnored (mem : Memory) (c : Call) (packet : Packet) (stats : PacketStats) : Prop :=
  ∀ (mem₁ mem₂ : Memory) (len₁ len₂ : UInt32), SameBytes mem mem₁ c → SameBytes mem mem₂ c →
    c.len ≤ len₁.toNat → c.len ≤ len₂.toNat →
    ∃ r v, Shows mem₁ c len₁ packet stats r v ∧ Shows mem₂ c len₂ packet stats r v

/-- The headers of the datagram `c` are contained in it, none calls itself, and
no options get stuck. -/
def Whole (mem : Memory) (c : Call) : Prop :=
  ∀ n, ∀ h ∈ chain (Call.nested mem) n c,
    h.Contained mem c ∧ h.nested mem ≠ some h ∧ ¬ h.Stuck mem

/-! ### A decoding yields one thing -/

section Unique

variable {mem : Memory} {c : Call} {p : Packet} {r r' : ℤ} {v v' : View}

/-- Fuel that is enough for the options records them all. -/
lemma recorded_of_stops {start : ℤ} {len pos m : ℕ} (hstop : Stops (optNext mem start len) m pos)
    (k : ℕ) : recorded mem start len (m + k) pos = recorded mem start len m pos := by
  induction k with
  | zero => rfl
  | succ k ih =>
      rw [← ih]
      exact (recorded_same (fun _ _ _ _ => ⟨rfl, fun _ _ => rfl, fun _ _ _ _ => rfl⟩)
        (hstop.mono (Nat.le_add_right m k))).2

/-- The options of a header, with fuel enough for them. -/
lemma options_of_stops {m k : ℕ} (hm : c.decoder = .tcp → c.LoopsOptions mem →
      Stops (c.optNext mem) m 0) : c.options mem (m + k) = c.options mem m := by
  rw [Call.options, Call.options]
  split_ifs with hopts
  · exact recorded_of_stops (hm hopts.1 hopts.2) k
  · rfl

/-- **A decoding yields one value and one view**. -/
lemma Yields.unique (h : Yields mem c p r v) (h' : Yields mem c p r' v') : r = r' ∧ v = v' := by
  obtain ⟨n, hfin, rfl, rfl⟩ := h
  induction n generalizing c p with
  | zero => exact hfin.elim
  | succ n ih =>
      cases hnext : c.nested mem with
      | none =>
          obtain ⟨m, hm, hr, hv⟩ := (yields_last_iff hnext).mp h'
          have hn := (finishes_of_last hnext).mp hfin
          have hopts : c.options mem n = c.options mem m := by
            rw [← options_of_stops hn (k := m), Nat.add_comm, options_of_stops hm]
          rw [result_of_last hnext, ← hr, ← hv, Call.finish, Call.finish, hopts]
          exact ⟨rfl, rfl⟩
      | some d =>
          rw [result_of_nested hnext]
          exact ih ((yields_nested_iff hnext).mp h') ((finishes_of_nested hnext).mp hfin)

end Unique

/-! ### The first header -/

section First

variable {mem mem' : Memory} {c : Call} {p : Packet} {r : ℤ} {v : View}

lemma Announced.ip_or_ip6 (hann : Announced mem c) : c.decoder = .ip ∨ c.decoder = .ip6 := by
  have hlen := hann.1
  cases hc : c.decoder <;> simp [Call.announces, hc] at hlen ⊢

/-- A datagram is short beside the longest buffer. -/
lemma Announced.len_lt (hann : Announced mem c) : c.len < 2 ^ 17 := by
  have hlen := hann.1
  rcases hann.ip_or_ip6 with hc | hc
  · simp only [Call.announces, hc, Option.some_inj] at hlen
    have := mem.be16_lt (c.pkt + 2)
    rw [Call.ipLen] at hlen
    omega
  · simp only [Call.announces, hc, Option.some_inj, sizeofIp6Hdr] at hlen
    have := mem.be16_lt (c.pkt + 4)
    omega

/-- The first header is accepted. -/
lemma Announced.accepts (hann : Announced mem c) : c.Accepts mem := by
  have hlen := hann.1
  rcases hann.ip_or_ip6 with hc | hc
  · simp only [Call.announces, hc, Option.some_inj] at hlen
    simp only [Call.Accepts, hc]
    have hle := (hann.2 hc).2
    refine ⟨hle, ?_⟩
    rw [usub_of_le (by omega) (hlen ▸ hann.len_lt.trans (by norm_num))]
    omega
  · simp only [Call.announces, hc, Option.some_inj] at hlen
    simp only [Call.Accepts, hc]
    omega

/-- The datagram is in itself. -/
lemma Announced.within (hann : Announced mem c) : Within c c := by
  refine ⟨le_rfl, rfl, fun hrte => ?_⟩
  rcases hann.ip_or_ip6 with hc | hc
  · cases hc.symm.trans hrte
  · cases hc.symm.trans hrte

/-- The first header is contained. -/
lemma Announced.contained (hann : Announced mem c) : c.Contained mem c := by
  have hacc := hann.accepts
  rcases hann.ip_or_ip6 with hc | hc
  · simp only [Call.Accepts, hc] at hacc
    simp only [Call.Contained, hc, if_pos hacc]
    exact (hann.2 hc).1
  · simp only [Call.Contained, hc]
    exact hacc

/-- An IP header that is accepted sets `paysize`. -/
lemma yields_paysize_iff (hc : c.decoder = .ip ∨ c.decoder = .ip6) (hacc : c.Accepts mem) (n : ℕ) :
    Yields mem c { p with paysize := n } r v ↔ Yields mem c p r v := by
  have hfill : c.fill mem { p with paysize := n } = c.fill mem p := by
    rcases hc with hc | hc
    · simp only [Call.fill, Call.fields, Call.paysize, Packet.layerIns, hc]
    · simp only [Call.fill, Call.fields, Call.paysize, Packet.layerIns, hc]
  have hdec : c.decoder ≠ .tcp := by
    rcases hc with hc | hc <;> rw [hc] <;> decide
  cases hnext : c.nested mem with
  | none =>
      have hvalue : c.value mem { p with paysize := n } = c.value mem p := by
        rcases hc with hc | hc <;> simp only [Call.value, hc]
      simp only [yields_last_iff hnext, finish_of_accepts hacc hdec, hfill, hvalue]
  | some d => rw [yields_nested_iff hnext, yields_nested_iff hnext, hfill]

/-- **What a decoding shows** of a buffer that starts with a datagram. -/
lemma shows_iff (hann : Announced mem c) (hsame : SameBytes mem mem' c) {len : UInt32}
    (hle : c.len ≤ len.toNat) (stats : PacketStats) :
    Shows mem' c len p stats r v ↔ Yields mem' (c.longer (len.toNat - c.len)) p r v := by
  have halike := alike_longer hsame hann.within hann.contained hann.accepts (len.toNat - c.len)
  have hlen : c.len + (len.toNat - c.len) = len.toNat := by omega
  have hlonger : c.longer (len.toNat - c.len) = { c with len := len.toNat } := by
    rw [Call.longer, hlen]
  have hdec : (c.longer (len.toNat - c.len)).decoder = .ip ∨
      (c.longer (len.toNat - c.len)).decoder = .ip6 := hann.ip_or_ip6
  rw [← yields_paysize_iff hdec halike.accepts.2 len.toNat, yields_iff_decode stats, hlonger]
  rfl

end First

/-- **When padding is ignored**: for every datagram and every packet without
layers and options, if the datagram is whole; and only then, if its headers are
no more than a packet has layers. -/
theorem padding_ignored_iff (mem : Memory) (c : Call) (hann : Announced mem c) (packet : Packet)
    (hlayers : packet.layerCount = 0) (hoptions : packet.tcpoptCount = 0) (stats : PacketStats) :
    (Whole mem c → PaddingIgnored mem c packet stats) ∧
      ((∀ n, (chain (Call.nested mem) n c).length ≤ maxLayers) →
        PaddingIgnored mem c packet stats → Whole mem c) := by
  have hclen := hann.len_lt
  have hin := hann.within
  have hextra : ∀ len : UInt32, len.toNat - c.len ≤ c.room := by
    intro len
    have := len.toNat_lt
    rw [Call.room]
    omega
  constructor
  · intro hwhole mem₁ mem₂ len₁ len₂ hsame₁ hsame₂ hle₁ hle₂
    obtain ⟨n, hfin⟩ := (finishes_iff (hclen.trans (by norm_num))).mpr
      fun n h hmem => (hwhole n h hmem).2
    have hyields : Yields mem c packet (result mem n c packet).1
        ((result mem n c packet).2.view mem) := ⟨n, hfin, rfl, rfl⟩
    have hnone : packet.tcpOptions = [] := by
      rw [Packet.tcpOptions, hoptions]
      rfl
    have hseen : ∀ mem', ∀ o ∈ packet.tcpOptions, o.seen mem' = o.seen mem := fun _ o ho =>
      absurd ho (hnone ▸ List.not_mem_nil)
    refine ⟨(result mem n c packet).1, (result mem n c packet).2.view mem,
      (shows_iff hann hsame₁ hle₁ stats).mpr ?_, (shows_iff hann hsame₂ hle₂ stats).mpr ?_⟩
    · exact yields_longer hsame₁ (hextra len₁) (by omega) hin (fun n t ht => (hwhole n t ht).1)
        (hseen mem₁) hyields
    · exact yields_longer hsame₂ (hextra len₂) (by omega) hin (fun n t ht => (hwhole n t ht).1)
        (hseen mem₂) hyields
  · intro hroom hignored
    -- the datagram on its own, and with what follows
    have hself : (UInt32.ofNat c.len).toNat = c.len := by
      rw [UInt32.toNat_ofNat']
      omega
    obtain ⟨r, v, hshows, -⟩ := hignored mem mem _ _ sameBytes_refl sameBytes_refl hself.ge hself.ge
    have hyields := (shows_iff hann sameBytes_refl hself.ge stats).mp hshows
    rw [hself, Nat.sub_self] at hyields
    have hsteady : Steady mem c c fun _ => packet := by
      refine ⟨r, v, fun mem' extra hsame hle => ?_⟩
      have hlen : (UInt32.ofNat (c.len + extra)).toNat = c.len + extra := by
        rw [Call.room] at hle
        rw [UInt32.toNat_ofNat']
        omega
      obtain ⟨r', v', hshows, hshows'⟩ := hignored mem mem' _ _ sameBytes_refl hsame hself.ge
        (hlen.ge.trans' (Nat.le_add_right _ _))
      have hyields₁ := (shows_iff hann sameBytes_refl hself.ge stats).mp hshows
      have hyields₂ := (shows_iff hann hsame (hlen.ge.trans' (Nat.le_add_right _ _)) stats).mp
        hshows'
      rw [hself, Nat.sub_self] at hyields₁
      rw [hlen, Nat.add_sub_cancel_left] at hyields₂
      obtain ⟨rfl, rfl⟩ := hyields.unique hyields₁
      exact hyields₂
    refine steady_chain hsteady hin (by omega) ?_ ?_ ?_
    · rw [Call.room]
      omega
    · intro n
      rw [hlayers, Nat.zero_add]
      exact hroom n
    · rw [hoptions, maxTcpoptlen]
      norm_num

/-- A TCP header with a maximum segment size in IPv4, `ip_len` 44. -/
def segmentSizeDatagram : Memory :=
  Memory.ofList [0x45, 0, 0, 44, 0, 0, 0, 0, 64, 6, 0, 0, 10, 0, 0, 1, 10, 0, 0, 2,
    0, 7, 0, 8, 0, 0, 0, 1, 0, 0, 0, 0, 0x60, 2, 0, 0, 0, 0, 0, 0, 2, 4, 5, 180]

/-- Its options are one, at the start of their area. -/
lemma segmentSize_positions (n : ℕ) : ∀ pos ∈
    chain ((⟨.tcp, 20, 24⟩ : Call).optNext segmentSizeDatagram) n 0, pos = 0 ∨ pos = 4 := by
  refine forall_chain (p := fun pos => pos = 0 ∨ pos = 4) (Or.inl rfl) ?_ n
  rintro pos next (rfl | rfl) hnext
  · have h0 : (⟨.tcp, 20, 24⟩ : Call).optNext segmentSizeDatagram 0 = some 4 := by decide +kernel
    rw [h0] at hnext
    exact Or.inr (Option.some.inj hnext).symm
  · have h4 : (⟨.tcp, 20, 24⟩ : Call).optNext segmentSizeDatagram 4 = none := by decide +kernel
    rw [h4] at hnext
    cases hnext

/-- `segmentSizeDatagram` is whole. -/
lemma segmentSizeDatagram_whole : Whole segmentSizeDatagram ⟨.ip, 0, 44⟩ := by
  have hip : (⟨.ip, 0, 44⟩ : Call).nested segmentSizeDatagram = some ⟨.tcp, 20, 24⟩ := by
    decide +kernel
  have htcp : (⟨.tcp, 20, 24⟩ : Call).nested segmentSizeDatagram = none := by decide +kernel
  intro n h hmem
  have hor : h = ⟨.ip, 0, 44⟩ ∨ h = ⟨.tcp, 20, 24⟩ := by
    refine forall_chain (p := fun h => h = ⟨.ip, 0, 44⟩ ∨ h = ⟨.tcp, 20, 24⟩) (Or.inl rfl) ?_
      n h hmem
    rintro c d (rfl | rfl) hd
    · rw [hip] at hd
      exact Or.inr (Option.some.inj hd).symm
    · rw [htcp] at hd
      cases hd
  rcases hor with rfl | rfl
  · have hacc : (⟨.ip, 0, 44⟩ : Call).IpAccepted segmentSizeDatagram := by decide +kernel
    refine ⟨?_, ?_, fun hstuck => Decoder.noConfusion hstuck.1⟩
    · simp only [Call.Contained, if_pos hacc]
      norm_num
    · rw [hip]
      simp
  · have hlen : (⟨.tcp, 20, 24⟩ : Call).tcpOptlen segmentSizeDatagram = 4 := by decide +kernel
    refine ⟨⟨by decide, fun _ n pos hpos hlt => ?_⟩, ?_, ?_⟩
    · rcases segmentSize_positions n pos hpos with rfl | rfl
      · decide +kernel
      · omega
    · rw [htcp]
      simp
    · rintro ⟨-, -, n, pos, hpos, hlt, hsack, -⟩
      rcases segmentSize_positions n pos hpos with rfl | rfl
      · exact absurd hsack (by decide +kernel)
      · omega

/-- Whatever follows it is ignored. -/
theorem padded_datagram_ignored :
    PaddingIgnored segmentSizeDatagram ⟨.ip, 0, 44⟩ default default :=
  (padding_ignored_iff segmentSizeDatagram ⟨.ip, 0, 44⟩
    ⟨by decide +kernel, fun _ => by decide +kernel⟩ default rfl rfl default).1
    segmentSizeDatagram_whole

/-- Cut off two bytes earlier, it would not be: the value of its option is behind the end. -/
example : ¬ OptionBefore segmentSizeDatagram 42 40 := by decide +kernel

/-- The first eight bytes of a TCP header in IPv4, `ip_len` 28. -/
def cutTcp : Memory :=
  Memory.ofList [0x45, 0, 0, 28, 0, 0, 0, 0, 64, 6, 0, 0, 10, 0, 0, 1, 10, 0, 0, 2,
    0, 7, 0, 8, 0, 0, 0, 1]

/-- **Padding that is decoded**: 18 bytes of it complete the TCP header. -/
theorem padding_decoded : Announced cutTcp ⟨.ip, 0, 28⟩ ∧
    ¬ PaddingIgnored cutTcp ⟨.ip, 0, 28⟩ default default := by
  have hann : Announced cutTcp ⟨.ip, 0, 28⟩ := ⟨by decide +kernel, fun _ => by decide +kernel⟩
  refine ⟨hann, fun hignored => ?_⟩
  obtain ⟨r, v, h28, h46⟩ := hignored cutTcp cutTcp 28 46 sameBytes_refl sameBytes_refl
    (by decide) (by decide)
  have hcut : Yields cutTcp ⟨.ip, 0, 28⟩ default (-1) _ :=
    (yields_iff_decode default).mpr ⟨3, by decide +kernel, rfl⟩
  have hpadded : Yields cutTcp ⟨.ip, 0, 46⟩ default 0 _ :=
    (yields_iff_decode default).mpr ⟨3, by decide +kernel, rfl⟩
  obtain ⟨hr, -⟩ := hcut.unique ((shows_iff hann sameBytes_refl (by decide) default).mp h28)
  obtain ⟨hr', -⟩ := hpadded.unique ((shows_iff hann sameBytes_refl (by decide) default).mp h46)
  rw [← hr] at hr'
  exact absurd hr' (by decide)

end CLibrary
