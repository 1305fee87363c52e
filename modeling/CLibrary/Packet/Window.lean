import CLibrary.Packet.Calls

/-!
The window of a decoding.

* `WindowInside`: the window a decoding ends with lies in the packet, and no
  subtraction behind it has wrapped.
* `Call.announces`, `HeadersFit`, `windowEnd`: the length an IP header announces,
  whether the headers behind it fit in there, and where the last announced
  datagram ends; sums of header fields along the chain of headers.
* `subs_ok_iff`, `paysize_eq`: what one header does to the window.
  `window_of_decode` carries it through a decoding.
* `window_inside_iff`: the exact condition.
* `options_header_wraps`: a hop-by-hop header in a well-formed packet.
-/

namespace CLibrary

open Decode

/-- The window is inside `len` bytes from `pkt` on, and no subtraction wrapped. -/
structure WindowInside (pkt : ℤ) (len : ℕ) (s : Decoding) : Prop where
  start_le : pkt ≤ s.packet.payload
  le_end : s.packet.payload + s.packet.paysize ≤ pkt + len
  exact : ∀ e ∈ s.subs, e.2 ≤ e.1

/-- The length from its first byte on that an IP header announces. -/
def Call.announces (mem : Memory) (c : Call) : Option ℕ :=
  match c.decoder with
  | .ip => some (c.ipLen mem)
  | .ip6 => some (sizeofIp6Hdr + mem.be16 (c.pkt + 4))
  | _ => none

/-- Every header fits in what the IP header before it announces, or in `room` if
there is none. -/
def HeadersFit (mem : Memory) : ℕ → List Call → Prop
  | _, [] => True
  | room, c :: rest =>
      c.advance mem ≤ (c.announces mem).getD room ∧
        HeadersFit mem ((c.announces mem).getD room - c.advance mem) rest

/-- Where what the last IP header announces ends, the headers starting at `off`;
`stop` if there is none. -/
def windowEnd (mem : Memory) : ℕ → ℕ → List Call → ℕ
  | _, stop, [] => stop
  | off, stop, c :: rest =>
      windowEnd mem (off + c.advance mem) ((c.announces mem).elim stop fun n => off + n) rest

section Header

variable {mem : Memory} {c : Call} {s : Decoding} {n : ℕ}

lemma paysize_lt : c.paysize mem n < 2 ^ 32 := by
  cases hc : c.decoder with
  | ip6 =>
      simp only [Call.paysize, hc]
      exact mem.be16_lt_unsigned _
  | _ =>
      simp only [Call.paysize, hc]
      exact usub_lt

/-- **The subtractions of a header** do not wrap exactly if it fits. -/
lemma subs_ok_iff (hn : n < 2 ^ 32) :
    (∀ e ∈ c.subs mem n, e.2 ≤ e.1) ↔ c.advance mem ≤ (c.announces mem).getD n := by
  cases hc : c.decoder with
  | ip => simp [Call.subs, Call.advance, Call.announces, Call.size, hc]
  | ip6 => simp [Call.subs, Call.advance, Call.announces, Call.size, hc]
  | ip6Ext =>
      simp only [Call.subs, Call.advance, Call.announces, hc, List.forall_mem_cons,
        List.not_mem_nil, IsEmpty.forall_iff, implies_true, and_true, Option.getD_none]
      by_cases hle : ntohs (c.extLen mem) ≤ n
      · rw [usub_of_le hle hn]
        omega
      · omega
  | _ => simp [Call.subs, Call.advance, Call.announces, hc]

/-- `paysize` behind a header that fits. -/
lemma paysize_eq (hn : n < 2 ^ 32) (h : c.advance mem ≤ (c.announces mem).getD n) :
    c.paysize mem n = (c.announces mem).getD n - c.advance mem := by
  cases hc : c.decoder with
  | ip =>
      simp only [Call.advance, Call.announces, Call.size, hc, Option.getD_some] at h
      simp only [Call.paysize, Call.advance, Call.announces, Call.size, hc, Option.getD_some]
      exact usub_of_le h (mem.be16_lt_unsigned _)
  | ip6 =>
      simp only [Call.paysize, Call.advance, Call.announces, Call.size, hc, Option.getD_some]
      omega
  | ip6Ext =>
      simp only [Call.advance, Call.announces, hc, Option.getD_none] at h
      simp only [Call.paysize, Call.advance, Call.announces, hc, Option.getD_none]
      rw [usub_of_le (by omega) hn, usub_of_le (by omega) (by omega)]
      omega
  | _ =>
      simp only [Call.advance, Call.announces, hc, Option.getD_none] at h
      simp only [Call.paysize, Call.advance, Call.announces, hc, Option.getD_none]
      exact usub_of_le h hn

/-- The last header of a decoding that returns 0. -/
lemma window_of_last (h : c.nested mem = none) (hret : (decode mem (n + 1) c s).1 = some 0) :
    ∃ l, Effect s (decode mem (n + 1) c s).2 l (c.subs mem s.packet.paysize)
      (s.packet.payload + c.advance mem) (c.paysize mem s.packet.paysize) := by
  rw [(decode_of_last h n).1] at hret ⊢
  by_cases hacc : c.Accepts mem
  · by_cases hdec : c.decoder = .tcp
    · obtain ⟨l, -, -, heff, -⟩ := body_tcp (s := s) hacc hdec n
      exact ⟨_, heff⟩
    · obtain ⟨s', hbody, heff⟩ := body_accepted (s := s) hacc hdec
      rw [hbody]
      exact ⟨_, heff⟩
  · obtain ⟨m, s', hbody, -⟩ := body_refused (s := s) hacc
    rw [hbody] at hret
    exact absurd (Option.some.inj hret) (by decide)

end Header

section Decoding

variable {mem : Memory} {c d : Call} {s s' : Decoding} {n off : ℕ} {pkt : ℤ} {l : List Access}

/-- What the effect of a header says about the subtractions. -/
lemma effect_subs_ok (hpay : s.packet.paysize < 2 ^ 32)
    (heff : Effect s s' l (c.subs mem s.packet.paysize) (s.packet.payload + c.advance mem)
      (c.paysize mem s.packet.paysize)) :
    (∀ e ∈ s'.subs, e.2 ≤ e.1) ↔
      (∀ e ∈ s.subs, e.2 ≤ e.1) ∧ c.advance mem ≤ (c.announces mem).getD s.packet.paysize := by
  rw [heff.subs, List.forall_mem_append, subs_ok_iff hpay]

/-- Where the datagram of a header that fits ends. -/
lemma end_of_fits (off : ℕ) (h : c.advance mem ≤ (c.announces mem).getD n) :
    off + c.advance mem + ((c.announces mem).getD n - c.advance mem) =
      (c.announces mem).elim (off + n) fun m => off + m := by
  cases hann : c.announces mem with
  | none =>
      rw [hann, Option.getD_none] at h
      rw [Option.getD_none, Option.elim_none]
      omega
  | some m =>
      rw [hann, Option.getD_some] at h
      rw [Option.getD_some, Option.elim_some]
      omega

/-- **The window of a decoding** that returns 0: its subtractions do not wrap
exactly if its headers fit, and then it ends where `windowEnd` says. -/
lemma window_of_decode (hret : (decode mem n c s).1 = some 0) (hpay : s.packet.paysize < 2 ^ 32)
    (hoff : s.packet.payload = pkt + off) :
    let s' := (decode mem n c s).2
    pkt ≤ s'.packet.payload ∧
      ((∀ e ∈ s'.subs, e.2 ≤ e.1) ↔ (∀ e ∈ s.subs, e.2 ≤ e.1) ∧
        HeadersFit mem s.packet.paysize (chain (Call.nested mem) n c)) ∧
      (HeadersFit mem s.packet.paysize (chain (Call.nested mem) n c) →
        s'.packet.payload + s'.packet.paysize =
          pkt + windowEnd mem off (off + s.packet.paysize) (chain (Call.nested mem) n c)) := by
  induction n generalizing c s off with
  | zero => cases hret
  | succ n ih =>
      cases hnext : c.nested mem with
      | none =>
          obtain ⟨l, heff⟩ := window_of_last hnext hret
          rw [chain_succ_none hnext, HeadersFit, HeadersFit, and_true, windowEnd, windowEnd]
          refine ⟨?_, effect_subs_ok hpay heff, fun hfits => ?_⟩
          · rw [heff.payload]
            omega
          · have hsize := paysize_eq hpay hfits
            calc (decode mem (n + 1) c s).2.packet.payload
                  + (decode mem (n + 1) c s).2.packet.paysize
                = pkt + (off + c.advance mem +
                    ((c.announces mem).getD s.packet.paysize - c.advance mem) : ℕ) := by
                  rw [heff.payload, heff.paysize, hsize, hoff]
                  push_cast
                  ring
              _ = pkt + ((c.announces mem).elim (off + s.packet.paysize)
                    fun m => off + m : ℕ) := by
                  rw [end_of_fits off hfits]
      | some d =>
          obtain ⟨s', heff, heq⟩ := decode_of_nested (s := s) hnext
          rw [heq] at hret ⊢
          have hoff' : s'.packet.payload = pkt + ((off + c.advance mem : ℕ) : ℤ) := by
            rw [heff.payload, hoff]
            push_cast
            ring
          have hpay' : s'.packet.paysize < 2 ^ 32 := heff.paysize ▸ paysize_lt
          obtain ⟨hle, hsubs, hend⟩ := ih hret hpay' hoff'
          rw [chain_succ_some hnext, HeadersFit, windowEnd]
          refine ⟨hle, ?_, ?_⟩
          · refine hsubs.trans ?_
            rw [effect_subs_ok hpay heff, and_assoc]
            refine and_congr_right fun _ => and_congr_right fun hfits => ?_
            rw [heff.paysize, paysize_eq hpay hfits]
          · rintro ⟨hfits, hrest⟩
            rw [heff.paysize, paysize_eq hpay hfits, end_of_fits _ hfits] at hend
            exact hend hrest

end Decoding

/-- **When the window is in the packet**: a decoding of `len` bytes that returns 0
leaves it there, without a subtraction that wraps, exactly if the headers behind
every IP header fit in what it announces and what the last one announces ends
in the packet. -/
theorem window_inside_iff {mem : Memory} {decoder : Decoder} (hip : decoder = .ip ∨ decoder = .ip6)
    {pkt : ℤ} {len : UInt32} {packet : Packet} (hpayload : packet.payload = pkt)
    (hpaysize : packet.paysize = len.toNat) {stats : PacketStats} {n : ℕ}
    (hret : (decode mem n ⟨decoder, pkt, len.toNat⟩ (.start packet stats)).1 = some 0) :
    WindowInside pkt len.toNat
        (decode mem n ⟨decoder, pkt, len.toNat⟩ (.start packet stats)).2 ↔
      HeadersFit mem 0 (chain (Call.nested mem) n ⟨decoder, pkt, len.toNat⟩) ∧
        windowEnd mem 0 0 (chain (Call.nested mem) n ⟨decoder, pkt, len.toNat⟩) ≤ len.toNat := by
  set c : Call := ⟨decoder, pkt, len.toNat⟩
  have hoff : (Decoding.start packet stats).packet.payload = pkt + (0 : ℕ) := by
    rw [Nat.cast_zero, add_zero]
    exact hpayload
  have hpay : (Decoding.start packet stats).packet.paysize < 2 ^ 32 := hpaysize ▸ len.toNat_lt
  obtain ⟨hle, hsubs, hend⟩ := window_of_decode hret hpay hoff
  -- the first header is an IP header, so that `paysize` before it does not matter
  obtain ⟨m, hann⟩ : ∃ m, c.announces mem = some m := by
    rcases hip with rfl | rfl
    · exact ⟨_, rfl⟩
    · exact ⟨_, rfl⟩
  have hcons : ∃ rest, chain (Call.nested mem) n c = c :: rest := by
    cases n with
    | zero => cases hret
    | succ n => exact ⟨_, rfl⟩
  obtain ⟨rest, hrest⟩ := hcons
  rw [hrest, HeadersFit, hann, Option.getD_some] at hsubs
  rw [hrest, HeadersFit, windowEnd, hann, Option.getD_some, Option.elim_some] at hend
  rw [hrest, HeadersFit, windowEnd, hann, Option.getD_some, Option.elim_some]
  constructor
  · intro h
    have hfits := (hsubs.mp h.exact).2
    have hend' := hend hfits
    have hlast := h.le_end
    exact ⟨hfits, by omega⟩
  · rintro ⟨hfits, hlast⟩
    refine ⟨hle, ?_, hsubs.mpr ⟨fun e he => (List.not_mem_nil he).elim, hfits⟩⟩
    rw [hend hfits]
    omega

/-- UDP in IPv4, and four bytes of padding. -/
def paddedDatagram : Memory :=
  Memory.ofList [0x45, 0, 0, 30, 0, 0, 0, 0, 64, 17, 0, 0, 10, 0, 0, 1, 10, 0, 0, 2,
    0, 7, 0, 8, 0, 10, 0, 1, 65, 66, 0, 0, 0, 0]

/-- The packet `paddedDatagram` is decoded into. -/
def paddedPacket : Packet := { (default : Packet) with paysize := 34 }

/-- The window ends in front of the padding. -/
theorem padded_datagram_window :
    WindowInside 0 34 (decode paddedDatagram 2 ⟨.ip, 0, (34 : UInt32).toNat⟩
      (.start paddedPacket default)).2 := by
  have hpayload : paddedPacket.payload = 0 := rfl
  have hpaysize : paddedPacket.paysize = (34 : UInt32).toNat := rfl
  have hret : (decode paddedDatagram 2 ⟨.ip, 0, (34 : UInt32).toNat⟩
      (.start paddedPacket default)).1 = some 0 := by
    decide +kernel
  refine (window_inside_iff (Or.inl rfl) hpayload hpaysize hret).mpr ?_
  have hchain : chain (Call.nested paddedDatagram) 2 ⟨.ip, 0, (34 : UInt32).toNat⟩ =
      [⟨.ip, 0, 34⟩, ⟨.udp, 20, 14⟩] := by
    decide +kernel
  rw [hchain]
  simp only [HeadersFit, windowEnd, and_true]
  decide +kernel

/-- UDP behind eight bytes of hop-by-hop options in IPv6, every length as it
should be. -/
def hopByHop : Memory :=
  Memory.ofList ([0x60, 0, 0, 0, 0, 16, 0, 64] ++ List.replicate 32 1 ++
    [17, 0, 1, 4, 0, 0, 0, 0, 0, 7, 0, 8, 0, 8, 0, 1])

/-- The packet `hopByHop` is decoded into. -/
def hopByHopPacket : Packet := { (default : Packet) with paysize := 56 }

/-- **A header that wraps**: `decode_ip6` returns 0 with a window far outside. -/
theorem options_header_wraps :
    (decode hopByHop 3 ⟨.ip6, 0, 56⟩ (.start hopByHopPacket default)).1 = some 0 ∧
      ¬ WindowInside 0 56 (decode hopByHop 3 ⟨.ip6, 0, 56⟩ (.start hopByHopPacket default)).2 := by
  refine ⟨by decide +kernel, fun h => ?_⟩
  have hpaysize : (decode hopByHop 3 ⟨.ip6, 0, 56⟩
      (.start hopByHopPacket default)).2.packet.paysize = 2 ^ 32 - 2048 := by
    decide +kernel
  have hstart := h.start_le
  have hend := h.le_end
  rw [hpaysize] at hend
  norm_num at hend
  omega

end CLibrary
