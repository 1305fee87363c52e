import CLibrary.Packet.Reads
import CLibrary.Packet.Window
import CLibrary.Packet.Yields

/-!
Padding behind a datagram.

* `Call.longer`, `SameBytes`: a header in a buffer that goes on behind the
  datagram, with other bytes there.
* `Within`: a header is in the datagram and its slice goes to the end of it.
* `Call.Contained`: decoding a header does not depend on what is behind the
  datagram, a condition on the bytes of the datagram alone.
  `OptionBefore` is that of a TCP option.
* `Alike`, `alike_longer`: in a longer buffer a header that is contained is read
  the same, by `alike_ip`, `alike_ip6`, ... for every decoder; `nested_longer`
  is about the call it makes.
* `yields_longer`: a decoding whose headers are contained yields the same
  whatever follows.
-/

namespace CLibrary

open Decode

/-! ### Longer buffers -/

/-- A header whose slice goes on for `extra` bytes. -/
def Call.longer (c : Call) (extra : ℕ) : Call := { c with len := c.len + extra }

/-- The bytes of the slice of `c` are the same. -/
def SameBytes (mem mem' : Memory) (c : Call) : Prop :=
  ∀ a, c.pkt ≤ a → a < c.pkt + c.len → mem' a = mem a

/-- How many bytes there may be behind the slice of `c`. -/
def Call.room (c : Call) : ℕ := 2 ^ 32 - 1 - c.len

/-- `h` is a header in the datagram `c`, and its slice ends where `c` does. -/
structure Within (c h : Call) : Prop where
  pkt_le : c.pkt ≤ h.pkt
  end_eq : h.pkt + h.len = c.pkt + c.len
  rte : h.decoder = .ip6Rte → c.pkt + 8 ≤ h.pkt

/-- What is looked at of the option at `addr`, and what is recorded of it, lies
before `stop`: the kind, past `NOP` the length byte, and the value of one that does
not end the loop. -/
def OptionBefore (mem : Memory) (stop addr : ℤ) : Prop :=
  addr < stop ∧ (2 ≤ mem.byte addr → mem.byte addr < tcpoptMax → addr + 1 < stop ∧
    (¬ EndsAt mem addr → addr + 2 + usub 8 (mem.byte (addr + 1)) 2 ≤ stop))

instance (mem : Memory) (stop addr : ℤ) : Decidable (OptionBefore mem stop addr) :=
  inferInstanceAs (Decidable (_ ∧ (_ → _ → _ ∧ (_ → _))))

/-- What is looked at of a header in the datagram `c` is in there, or does not
matter. -/
def Call.Contained (mem : Memory) (h c : Call) : Prop :=
  match h.decoder with
  | .ip =>
      if h.IpAccepted mem then 20 ≤ h.len
      else 4 ≤ h.len ∧ h.len + c.room < usub 32 (h.ipLen mem) (h.ipHlen mem)
  | .tcp =>
      sizeofTcphdr ≤ h.len ∧ (h.LoopsOptions mem →
        ∀ n, ∀ pos ∈ chain (h.optNext mem) n 0, pos < h.tcpOptlen mem →
          OptionBefore mem (h.pkt + h.len) (h.pkt + sizeofTcphdr + pos))
  | _ => h.Accepts mem

section Same

variable {mem mem' : Memory} {c d h : Call} {a : ℤ} {p : Packet} {extra : ℕ}

lemma SameBytes.byte (hsame : SameBytes mem mem' c) (h1 : c.pkt ≤ a) (h2 : a < c.pkt + c.len) :
    mem'.byte a = mem.byte a := by
  rw [Memory.byte, Memory.byte, hsame a h1 h2]

lemma SameBytes.be16 (hsame : SameBytes mem mem' c) (h1 : c.pkt ≤ a) (h2 : a + 1 < c.pkt + c.len) :
    mem'.be16 a = mem.be16 a := by
  rw [Memory.be16, Memory.be16, hsame.byte h1 (by omega), hsame.byte (by omega) h2]

lemma SameBytes.raw16 (hsame : SameBytes mem mem' c) (h1 : c.pkt ≤ a)
    (h2 : a + 1 < c.pkt + c.len) : mem'.raw16 a = mem.raw16 a := by
  rw [Memory.raw16, Memory.raw16, hsame.byte h1 (by omega), hsame.byte (by omega) h2]

lemma SameBytes.raw32 (hsame : SameBytes mem mem' c) (h1 : c.pkt ≤ a)
    (h2 : a + 3 < c.pkt + c.len) : mem'.raw32 a = mem.raw32 a := by
  rw [Memory.raw32, Memory.raw32, hsame.raw16 h1 (by omega), hsame.raw16 (by omega) (by omega)]

/-- The 16 bytes of an address. -/
lemma SameBytes.addr (hsame : SameBytes mem mem' c) (h1 : c.pkt ≤ a) (h2 : a + 15 < c.pkt + c.len) :
    (fun i : Fin 16 => mem' (a + i)) = fun i : Fin 16 => mem (a + i) :=
  funext fun i => hsame _ (by omega) (by omega)

/-- The four bytes of an address in another one. -/
lemma SameBytes.addr32 (hsame : SameBytes mem mem' c) (h1 : c.pkt ≤ a) (h2 : a + 3 < c.pkt + c.len)
    (old : IpAddr) : (fun i : Fin 16 => if i.val < 4 then mem' (a + i) else old i) =
      fun i : Fin 16 => if i.val < 4 then mem (a + i) else old i := by
  funext i
  split_ifs with hi
  · have hval : i.val < 4 := hi
    exact hsame _ (by omega) (by omega)
  · rfl

/-- What `bind_ip` calls. -/
lemma nested_of_ip (hip : h.decoder = .ip) (hd : h.nested mem = some d) :
    d.decoder = .tcp ∨ d.decoder = .udp ∨ d.decoder = .ip ∨ d.decoder = .ip6 := by
  rw [Call.nested, Option.ite_none_right_eq_some, Option.map_eq_some_iff] at hd
  obtain ⟨-, decoder, hfollow, rfl⟩ := hd
  simp only [Call.follower, hip, ipSwitch] at hfollow
  split_ifs at hfollow <;> simp_all

/-- A routing header comes behind another one of at least eight bytes. -/
lemma within_nested (hin : Within c h) (hlen : h.len < 2 ^ 32) (hd : h.nested mem = some d) :
    Within c d := by
  obtain ⟨hacc, hdec⟩ := accepts_of_nested hd
  have hle := size_le hacc hdec
  have hpkt := nested_pkt hd
  have hdlen := nested_len hd hlen
  refine ⟨?_, ?_, fun hrte => ?_⟩
  · have := hin.pkt_le
    omega
  · have := hin.end_eq
    omega
  · have hfirst := hin.pkt_le
    have hsize : 8 ≤ h.size mem := by
      cases hc : h.decoder with
      | ip =>
          have hdecoder := nested_of_ip hc hd
          rw [hrte] at hdecoder
          simp at hdecoder
      | tcp => exact absurd hc hdec
      | _ => simp [Call.size, hc, Call.extLen, sizeofIp6Hdr, sizeofIp6Frag, sizeofUdphdr]
    omega

end Same

/-! ### A header in a longer buffer -/

/-- Two headers that are accepted lead on alike. -/
structure LeadAlike (mem mem' : Memory) (h h' : Call) : Prop where
  accepts : h.Accepts mem ∧ h'.Accepts mem'
  fragment : h'.Fragment mem' ↔ h.Fragment mem
  size : h'.size mem' = h.size mem
  follower : h'.follower mem' = h.follower mem

/-- Two headers that are accepted are the same to their decoders. -/
structure Alike (mem mem' : Memory) (h h' : Call) : Prop extends LeadAlike mem mem' h h' where
  decoder : h'.decoder = h.decoder
  pkt : h'.pkt = h.pkt
  advance : h'.advance mem' = h.advance mem
  paysize : ∀ n, h'.paysize mem' n = h.paysize mem n
  fields : ∀ p, h'.fields mem' p = h.fields mem p
  checksum : h.decoder = .udp → mem'.raw16 (h.pkt + 6) = mem.raw16 (h.pkt + 6)

section Longer

variable {mem mem' : Memory} {c d h : Call} {p : Packet} {extra : ℕ}

/-- An IPv4 header, with its 20 bytes in the datagram. -/
lemma alike_ip (hsame : SameBytes mem mem' c) (hin : Within c h) (hc : h.decoder = .ip)
    (hacc : h.Accepts mem) (hlong : 20 ≤ h.len) (extra : ℕ) :
    Alike mem mem' h (h.longer extra) := by
  have hfirst := hin.pkt_le
  have hend := hin.end_eq
  simp only [Call.Accepts, hc] at hacc
  have h0 := hsame.byte (a := h.pkt) (by omega) (by omega)
  have h1 := hsame.byte (a := h.pkt + 1) (by omega) (by omega)
  have h2 := hsame.be16 (a := h.pkt + 2) (by omega) (by omega)
  have h4 := hsame.raw16 (a := h.pkt + 4) (by omega) (by omega)
  have h6 := hsame.be16 (a := h.pkt + 6) (by omega) (by omega)
  have h8 := hsame.byte (a := h.pkt + 8) (by omega) (by omega)
  have h9 := hsame.byte (a := h.pkt + 9) (by omega) (by omega)
  have h12 := hsame.addr32 (a := h.pkt + 12) (by omega) (by omega)
  have h16 := hsame.addr32 (a := h.pkt + 16) (by omega) (by omega)
  have hhlen : (h.longer extra).ipHlen mem' = h.ipHlen mem := by
    simp only [Call.ipHlen, Call.longer, h0]
  have hlen : (h.longer extra).ipLen mem' = h.ipLen mem := by
    simp only [Call.ipLen, Call.longer, h2]
  have hdec : (h.longer extra).decoder = .ip := hc
  refine ⟨⟨⟨?_, ?_⟩, ?_, ?_, ?_⟩, rfl, rfl, ?_, ?_, ?_, ?_⟩
  · simp only [Call.Accepts, hc, hacc]
  · simp only [Call.Accepts, hdec, Call.IpAccepted, hhlen, hlen]
    rw [Call.IpAccepted] at hacc
    simp only [Call.longer]
    omega
  · simp only [Call.Fragment, hdec, hc, Call.IpFragment]
    simp only [Call.longer, h6]
  · simp only [Call.size, hdec, hc, hhlen]
  · simp only [Call.follower, hdec, hc]
    simp only [Call.longer, h9]
  · simp only [Call.advance, Call.size, hdec, hc, hhlen]
  · intro n
    simp only [Call.paysize, hdec, hc, hhlen, hlen]
  · intro p
    simp only [Call.fields, hdec, hc]
    simp only [Call.longer, h1, h4, h6, h8, h9, h12, h16]
  · intro hudp
    cases hc.symm.trans hudp

/-- An IPv6 header. -/
lemma alike_ip6 (hsame : SameBytes mem mem' c) (hin : Within c h) (hc : h.decoder = .ip6)
    (hacc : h.Accepts mem) (extra : ℕ) : Alike mem mem' h (h.longer extra) := by
  have hfirst := hin.pkt_le
  have hend := hin.end_eq
  have hle : sizeofIp6Hdr ≤ h.len := by simpa only [Call.Accepts, hc] using hacc
  have hsize : sizeofIp6Hdr = 40 := rfl
  have h4 := hsame.be16 (a := h.pkt + 4) (by omega) (by omega)
  have h6 := hsame.byte (a := h.pkt + 6) (by omega) (by omega)
  have h7 := hsame.byte (a := h.pkt + 7) (by omega) (by omega)
  have h8 := hsame.addr (a := h.pkt + 8) (by omega) (by omega)
  have h24 := hsame.addr (a := h.pkt + 24) (by omega) (by omega)
  refine ⟨⟨⟨hacc, ?_⟩, ?_, ?_, ?_⟩, rfl, rfl, ?_, ?_, ?_, ?_⟩
  · simp only [Call.longer, Call.Accepts, hc]
    omega
  · simp only [Call.longer, Call.Fragment, hc]
  · simp only [Call.longer, Call.size, hc]
  · simp only [Call.longer, Call.follower, hc, h6]
  · simp only [Call.longer, Call.advance, Call.size, hc]
  · intro n
    simp only [Call.longer, Call.paysize, hc, h4]
  · intro p
    simp only [Call.longer, Call.fields, hc, h6, h7, h8, h24]
  · intro hudp
    cases hc.symm.trans hudp

/-- A routing header, whose address lies behind the IPv6 header. -/
lemma alike_ip6Rte (hsame : SameBytes mem mem' c) (hin : Within c h) (hc : h.decoder = .ip6Rte)
    (hacc : h.Accepts mem) (extra : ℕ) : Alike mem mem' h (h.longer extra) := by
  have hfirst := hin.pkt_le
  have hend := hin.end_eq
  obtain ⟨hle, hext⟩ : sizeofIp6Rte ≤ h.len ∧ h.extLen mem ≤ h.len := by
    simpa only [Call.Accepts, hc] using hacc
  have hsize : sizeofIp6Rte = 8 := rfl
  have hge : 8 ≤ h.extLen mem := by
    rw [Call.extLen]
    omega
  have hrte := hin.rte hc
  have h0 := hsame.byte (a := h.pkt) (by omega) (by omega)
  have h1 := hsame.byte (a := h.pkt + 1) (by omega) (by omega)
  have h3 := hsame.byte (a := h.pkt + 3) (by omega) (by omega)
  have hlen : (h.longer extra).extLen mem' = h.extLen mem := by
    simp only [Call.longer, Call.extLen, h1]
  have haddr := hsame.addr (a := h.pkt + h.extLen mem - 16) (by omega) (by omega)
  have hdec : (h.longer extra).decoder = .ip6Rte := hc
  refine ⟨⟨⟨hacc, ?_⟩, ?_, ?_, ?_⟩, rfl, rfl, ?_, ?_, ?_, ?_⟩
  · simp only [Call.Accepts, hdec, hlen]
    simp only [Call.longer]
    omega
  · simp only [Call.Fragment, hdec, hc]
  · simp only [Call.size, hdec, hc, hlen]
  · simp only [Call.longer, Call.follower, hc, h0]
  · simp only [Call.advance, Call.size, hdec, hc, hlen]
  · intro n
    simp only [Call.paysize, Call.size, hdec, hc, hlen]
  · intro p
    simp only [Call.fields, hdec, hc, hlen]
    simp only [Call.longer, h0, h3, haddr]
  · intro hudp
    cases hc.symm.trans hudp

/-- A fragment header. -/
lemma alike_ip6Frag (hsame : SameBytes mem mem' c) (hin : Within c h) (hc : h.decoder = .ip6Frag)
    (hacc : h.Accepts mem) (extra : ℕ) : Alike mem mem' h (h.longer extra) := by
  have hfirst := hin.pkt_le
  have hend := hin.end_eq
  have hle : sizeofIp6Frag ≤ h.len := by simpa only [Call.Accepts, hc] using hacc
  have hsize : sizeofIp6Frag = 8 := rfl
  have h0 := hsame.byte (a := h.pkt) (by omega) (by omega)
  have h2 := hsame.be16 (a := h.pkt + 2) (by omega) (by omega)
  have h4 := hsame.raw32 (a := h.pkt + 4) (by omega) (by omega)
  refine ⟨⟨⟨hacc, ?_⟩, ?_, ?_, ?_⟩, rfl, rfl, ?_, ?_, ?_, ?_⟩
  · simp only [Call.longer, Call.Accepts, hc]
    omega
  · simp only [Call.longer, Call.Fragment, Call.Ip6Fragment, hc, h2]
  · simp only [Call.longer, Call.size, hc]
  · simp only [Call.longer, Call.follower, hc, h0]
  · simp only [Call.longer, Call.advance, Call.size, hc]
  · intro n
    simp only [Call.longer, Call.paysize, Call.size, hc]
  · intro p
    simp only [Call.longer, Call.fields, hc, h0, h2, h4]
  · intro hudp
    cases hc.symm.trans hudp

/-- Another extension header. -/
lemma alike_ip6Ext (hsame : SameBytes mem mem' c) (hin : Within c h) (hc : h.decoder = .ip6Ext)
    (hacc : h.Accepts mem) (extra : ℕ) : Alike mem mem' h (h.longer extra) := by
  have hfirst := hin.pkt_le
  have hend := hin.end_eq
  obtain ⟨hle, hext⟩ : sizeofIp6Ext ≤ h.len ∧ h.extLen mem ≤ h.len := by
    simpa only [Call.Accepts, hc] using hacc
  have hsize : sizeofIp6Ext = 2 := rfl
  have h0 := hsame.byte (a := h.pkt) (by omega) (by omega)
  have h1 := hsame.byte (a := h.pkt + 1) (by omega) (by omega)
  have hlen : (h.longer extra).extLen mem' = h.extLen mem := by
    simp only [Call.longer, Call.extLen, h1]
  have hdec : (h.longer extra).decoder = .ip6Ext := hc
  refine ⟨⟨⟨hacc, ?_⟩, ?_, ?_, ?_⟩, rfl, rfl, ?_, ?_, ?_, ?_⟩
  · simp only [Call.Accepts, hdec, hlen]
    simp only [Call.longer]
    omega
  · simp only [Call.Fragment, hdec, hc]
  · simp only [Call.size, hdec, hc, hlen]
  · simp only [Call.longer, Call.follower, hc, h0]
  · simp only [Call.advance, hdec, hc, hlen]
  · intro n
    simp only [Call.paysize, hdec, hc, hlen]
  · intro p
    simp only [Call.longer, Call.fields, hc, h0]
  · intro hudp
    cases hc.symm.trans hudp

/-- A TCP header, its options apart. -/
lemma alike_tcp (hsame : SameBytes mem mem' c) (hin : Within c h) (hc : h.decoder = .tcp)
    (hacc : h.Accepts mem) (extra : ℕ) : Alike mem mem' h (h.longer extra) := by
  have hfirst := hin.pkt_le
  have hend := hin.end_eq
  have hle : sizeofTcphdr ≤ h.len := by simpa only [Call.Accepts, hc] using hacc
  have hsize : sizeofTcphdr = 20 := rfl
  have h0 := hsame.be16 (a := h.pkt) (by omega) (by omega)
  have h2 := hsame.be16 (a := h.pkt + 2) (by omega) (by omega)
  have h12 := hsame.byte (a := h.pkt + 12) (by omega) (by omega)
  have hhlen : (h.longer extra).tcpHlen mem' = h.tcpHlen mem := by
    simp only [Call.longer, Call.tcpHlen, h12]
  have hdec : (h.longer extra).decoder = .tcp := hc
  refine ⟨⟨⟨hacc, ?_⟩, ?_, ?_, ?_⟩, rfl, rfl, ?_, ?_, ?_, ?_⟩
  · simp only [Call.longer, Call.Accepts, hc]
    omega
  · simp only [Call.Fragment, hdec, hc]
  · simp only [Call.size, hdec, hc, hhlen]
  · simp only [Call.follower, hdec, hc]
  · simp only [Call.advance, Call.size, hdec, hc, hhlen]
  · intro n
    simp only [Call.paysize, Call.size, hdec, hc, hhlen]
  · intro p
    simp only [Call.fields, Call.size, hdec, hc, hhlen]
    simp only [Call.longer, h0, h2]
  · intro hudp
    cases hc.symm.trans hudp

/-- A UDP header. -/
lemma alike_udp (hsame : SameBytes mem mem' c) (hin : Within c h) (hc : h.decoder = .udp)
    (hacc : h.Accepts mem) (extra : ℕ) : Alike mem mem' h (h.longer extra) := by
  have hfirst := hin.pkt_le
  have hend := hin.end_eq
  have hle : sizeofUdphdr ≤ h.len := by simpa only [Call.Accepts, hc] using hacc
  have hsize : sizeofUdphdr = 8 := rfl
  have h0 := hsame.be16 (a := h.pkt) (by omega) (by omega)
  have h2 := hsame.be16 (a := h.pkt + 2) (by omega) (by omega)
  have h6 := hsame.raw16 (a := h.pkt + 6) (by omega) (by omega)
  refine ⟨⟨⟨hacc, ?_⟩, ?_, ?_, ?_⟩, rfl, rfl, ?_, ?_, ?_, fun _ => h6⟩
  · simp only [Call.longer, Call.Accepts, hc]
    omega
  · simp only [Call.longer, Call.Fragment, hc]
  · simp only [Call.longer, Call.size, hc]
  · simp only [Call.longer, Call.follower, hc]
  · simp only [Call.longer, Call.advance, Call.size, hc]
  · intro n
    simp only [Call.longer, Call.paysize, Call.size, hc]
  · intro p
    simp only [Call.longer, Call.fields, Call.size, hc, h0, h2]

/-- **A contained header** that is accepted is the same in a longer buffer. -/
lemma alike_longer (hsame : SameBytes mem mem' c) (hin : Within c h) (hcont : h.Contained mem c)
    (hacc : h.Accepts mem) (extra : ℕ) : Alike mem mem' h (h.longer extra) := by
  cases hc : h.decoder with
  | ip =>
      have hip : h.IpAccepted mem := by simpa only [Call.Accepts, hc] using hacc
      simp only [Call.Contained, hc, if_pos hip] at hcont
      exact alike_ip hsame hin hc hacc hcont extra
  | ip6 => exact alike_ip6 hsame hin hc hacc extra
  | ip6Rte => exact alike_ip6Rte hsame hin hc hacc extra
  | ip6Frag => exact alike_ip6Frag hsame hin hc hacc extra
  | ip6Ext => exact alike_ip6Ext hsame hin hc hacc extra
  | tcp => exact alike_tcp hsame hin hc hacc extra
  | udp => exact alike_udp hsame hin hc hacc extra

/-- A contained IPv4 header that is refused is refused in a longer buffer. -/
lemma refused_longer (hsame : SameBytes mem mem' c) (hin : Within c h)
    (hcont : h.Contained mem c) (hacc : ¬ h.Accepts mem) (hextra : extra ≤ c.room) :
    h.decoder = .ip ∧ ¬ (h.longer extra).Accepts mem' := by
  have hfirst := hin.pkt_le
  have hend := hin.end_eq
  cases hc : h.decoder with
  | ip =>
      simp only [Call.Accepts, hc] at hacc
      simp only [Call.Contained, hc, if_neg hacc] at hcont
      have h0 := hsame.byte (a := h.pkt) (by omega) (by omega)
      have h2 := hsame.be16 (a := h.pkt + 2) (by omega) (by omega)
      refine ⟨rfl, ?_⟩
      rintro hacc'
      simp only [Call.longer, Call.Accepts, Call.IpAccepted, Call.ipHlen, Call.ipLen, hc, h0,
        h2] at hacc'
      rw [Call.ipHlen, Call.ipLen] at hcont
      omega
  | tcp =>
      simp only [Call.Accepts, hc] at hacc
      simp only [Call.Contained, hc] at hcont
      exact absurd hcont.1 hacc
  | _ =>
      simp only [Call.Contained, hc] at hcont
      exact absurd hcont hacc

namespace Alike

variable {h' : Call}

/-- Headers alike fill a packet alike. -/
lemma fill (halike : Alike mem mem' h h') (p : Packet) : h'.fill mem' p = h.fill mem p := by
  rw [Call.fill, Call.fill, halike.fields, halike.size, halike.decoder, halike.pkt, halike.advance,
    halike.paysize]

/-- Headers alike return the same. -/
lemma value (halike : Alike mem mem' h h') (p : Packet) : h'.value mem' p = h.value mem p := by
  rw [Call.value, Call.value, if_neg (not_not.mpr halike.accepts.1),
    if_neg (not_not.mpr halike.accepts.2), halike.decoder, halike.pkt]
  simp only [halike.fragment]
  cases hc : h.decoder with
  | udp => rw [halike.checksum hc]
  | _ => rfl

end Alike

/-- What follows a header alike is called with a slice that is as much longer. -/
lemma nested_longer (halike : LeadAlike mem mem' h (h.longer extra))
    (hlen : h.len + extra < 2 ^ 32) :
    (h.longer extra).nested mem' = (h.nested mem).map fun d => d.longer extra := by
  by_cases hfrag : h.Fragment mem
  · rw [Call.nested_of_fragment hfrag, Call.nested_of_fragment (halike.fragment.mpr hfrag),
      Option.map_none]
  · rw [Call.nested_of_accepts halike.accepts.1 hfrag,
      Call.nested_of_accepts halike.accepts.2 fun h => hfrag (halike.fragment.mp h),
      halike.follower, halike.size, Option.map_map]
    cases hfollow : h.follower mem with
    | none => rfl
    | some d =>
        have hdec : h.decoder ≠ .tcp := by
          intro hdec
          simp only [Call.follower, hdec, reduceCtorEq] at hfollow
        have hle := size_le halike.accepts.1 hdec
        have husub : usub 32 (h.len + extra) (h.size mem) = usub 32 h.len (h.size mem) + extra := by
          rw [usub_of_le (by omega) hlen, usub_of_le hle (by omega)]
          omega
        simp only [Call.longer, husub, Option.map_some, Function.comp]

end Longer

/-! ### Options -/

section Options

variable {mem mem' : Memory} {start addr : ℤ} {len pos m n : ℕ}

lemma stops_of_ge (h : len ≤ pos) (n : ℕ) : Stops (optNext mem start len) (n + 1) pos := by
  intro b hb
  rw [optNext_of_ge h] at hb
  cases hb

/-- The option at a position, and those behind it. -/
lemma recorded_succ (h : pos < len) (n : ℕ) : recorded mem start len (n + 1) pos =
    (optionAt mem len (start + pos)).toList ++
      (optNext mem start len pos).elim [] (recorded mem start len n) := by
  rw [recorded, chain, List.filterMap_cons, if_pos h]
  cases optNext mem start len pos <;> cases optionAt mem len (start + pos) <;> rfl

lemma recorded_of_ge (h : len ≤ pos) (n : ℕ) : recorded mem start len n pos = [] := by
  cases n with
  | zero => rfl
  | succ n =>
      rw [recorded, chain_succ_none (optNext_of_ge h), List.filterMap_cons,
        if_neg (Nat.not_lt.mpr h), List.filterMap_nil]

/-- No positions are left behind an unknown kind. -/
lemma optNext_unknown {next : ℕ} (h : pos < len) (hkind : tcpoptMax ≤ mem.byte (start + pos))
    (hnext : optNext mem start len pos = some next) : len ≤ next := by
  rw [optNext, if_pos h, optJump, if_pos hkind, Option.map_eq_some_iff] at hnext
  obtain ⟨jump, hjump, rfl⟩ := hnext
  rw [Option.ite_none_right_eq_some] at hjump
  obtain ⟨hlt, hsize⟩ := hjump
  obtain rfl := Option.some.inj hsize
  omega

/-- Nothing is recorded at an unknown kind, and nothing behind it. -/
lemma recorded_unknown (h : pos < len) (hkind : tcpoptMax ≤ mem.byte (start + pos)) (n : ℕ) :
    recorded mem start len n pos = [] ∧ Stops (optNext mem start len) (n + 2) pos := by
  have hnext : ∀ b, optNext mem start len pos = some b → len ≤ b :=
    fun b => optNext_unknown h hkind
  refine ⟨?_, fun b hb => stops_of_ge (hnext b hb) n⟩
  cases n with
  | zero => rfl
  | succ n =>
      rw [recorded_succ h, optionAt, if_neg (Nat.not_lt.mpr hkind)]
      cases hb : optNext mem start len pos with
      | none => rfl
      | some b => exact recorded_of_ge (hnext b hb) n

/-- The bytes looked at of a known kind are the same, and those of its value if it
is recorded. -/
structure SameOption (mem mem' : Memory) (addr : ℤ) : Prop where
  kind : mem'.byte addr = mem.byte addr
  length : 2 ≤ mem.byte addr → mem.byte addr < tcpoptMax →
    mem'.byte (addr + 1) = mem.byte (addr + 1)
  value : 2 ≤ mem.byte addr → ¬ EndsAt mem addr → ∀ i < usub 8 (mem.byte (addr + 1)) 2,
    mem' (addr + 2 + i) = mem (addr + 2 + i)

/-- Where the bytes before `stop` are the same. -/
lemma OptionBefore.same {stop : ℤ} (h : OptionBefore mem stop addr)
    (hsame : ∀ a, addr ≤ a → a < stop → mem' a = mem a) : SameOption mem mem' addr := by
  have hbyte : ∀ a, addr ≤ a → a < stop → mem'.byte a = mem.byte a := fun a h1 h2 => by
    rw [Memory.byte, Memory.byte, hsame a h1 h2]
  refine ⟨hbyte addr le_rfl h.1, fun hk hmax => ?_, fun hk hend i hi => ?_⟩
  · exact hbyte (addr + 1) (by omega) (h.2 hk hmax).1
  · have hmax : mem.byte addr < tcpoptMax := Nat.not_le.mp fun hge => hend (Or.inl hge)
    have hle := (h.2 hk hmax).2 hend
    exact hsame (addr + 2 + i) (by omega) (by omega)

/-- A known kind moves on alike, and is recorded alike. -/
lemma SameOption.known (len : ℕ) (h : SameOption mem mem' addr)
    (hkind : mem.byte addr < tcpoptMax) :
    optJump mem' len addr = optJump mem len addr ∧
      optionAt mem' len addr = optionAt mem len addr := by
  have hjump : optJump mem' len addr = optJump mem len addr := by
    have hkind' : mem'.byte addr < tcpoptMax := h.1.trans_lt hkind
    rcases tcpoptLenTbl_cases _ hkind with ⟨-, htbl⟩ | ⟨hk, htbl⟩ | ⟨hk, -, htbl⟩
    · rw [optJump_single hkind htbl, optJump_single hkind' (by rwa [h.1])]
    · have hsize := h.2 (by rw [hk, tcpoptSack]; omega) hkind
      rw [optJump_variable hkind htbl, optJump_variable hkind' (by rwa [h.1]), hsize]
    · have hsize := h.2 hk hkind
      rw [optJump_fixed hkind htbl, optJump_fixed hkind' (by rwa [h.1]), h.1, hsize]
  refine ⟨hjump, ?_⟩
  rw [optionAt, optionAt, h.1, hjump]

/-- What is recorded of it shows the same. -/
lemma SameOption.seen {o : TcpOption} (h : SameOption mem mem' addr)
    (hoption : optionAt mem len addr = some o) : o.seen mem' = o.seen mem := by
  have hend : ¬ EndsAt mem addr := fun hend => by
    rw [optionAt_eq_none_iff.mpr hend] at hoption
    cases hoption
  rw [TcpOption.seen, TcpOption.seen]
  obtain ⟨-, ⟨-, -, -, hvalue⟩ | ⟨hk, -, hlen, hvalue⟩⟩ := optionAt_cases hoption
  · rw [hvalue]
    rfl
  · rw [hvalue]
    split_ifs with hzero
    · refine congrArg _ (congrArg _ (List.map_congr_left fun i hi => ?_))
      exact h.value hk hend i (hlen ▸ List.mem_range.mp hi)
    · rfl

/-- An option that is recorded is at one of the positions. -/
lemma exists_of_mem_recorded {o : TcpOption} (h : o ∈ recorded mem start len n pos) :
    ∃ q ∈ chain (optNext mem start len) n pos, q < len ∧
      optionAt mem len (start + q) = some o := by
  obtain ⟨q, hq, ho⟩ := List.mem_filterMap.mp h
  rw [Option.ite_none_right_eq_some] at ho
  exact ⟨q, hq, ho⟩

/-- **The loop over options** comes to an end alike and records the same. -/
lemma recorded_same (hpos : ∀ n, ∀ q ∈ chain (optNext mem start len) n pos, q < len →
      SameOption mem mem' (start + q))
    (hstop : Stops (optNext mem start len) m pos) :
    Stops (optNext mem' start len) (m + 1) pos ∧
      recorded mem' start len (m + 1) pos = recorded mem start len m pos := by
  induction m generalizing pos with
  | zero => exact hstop.elim
  | succ m ih =>
      by_cases h : pos < len
      · have hhead := forall_chain_head hpos h
        by_cases hkind : mem.byte (start + pos) < tcpoptMax
        · obtain ⟨hjump, hoption⟩ := hhead.known len hkind
          have hnext : optNext mem' start len pos = optNext mem start len pos := by
            rw [optNext, optNext, hjump]
          rw [recorded_succ h, recorded_succ h, hnext, hoption]
          cases hb : optNext mem start len pos with
          | none =>
              refine ⟨fun b hb' => ?_, rfl⟩
              rw [hnext, hb] at hb'
              cases hb'
          | some b =>
              obtain ⟨hstop', hrecorded⟩ := ih (forall_chain_next hb hpos) (hstop b hb)
              refine ⟨fun b' hb' => ?_, ?_⟩
              · rw [hnext, hb] at hb'
                exact Option.some.inj hb' ▸ hstop'
              · rw [Option.elim_some, Option.elim_some, hrecorded]
        · rw [Nat.not_lt] at hkind
          have hkind' : tcpoptMax ≤ mem'.byte (start + pos) := hhead.1 ▸ hkind
          rw [(recorded_unknown h hkind _).1, (recorded_unknown h hkind' _).1]
          exact ⟨(recorded_unknown h hkind' m).2, rfl⟩
      · rw [Nat.not_lt] at h
        rw [recorded_of_ge h, recorded_of_ge h]
        exact ⟨stops_of_ge h _, rfl⟩

end Options

/-! ### Whole decodings -/

section Decoding

variable {mem mem' : Memory} {c h : Call} {p : Packet} {r : ℤ} {v : View} {extra m : ℕ}

/-- The options of a contained TCP header do not depend on what is behind the
datagram. -/
lemma options_longer (extra : ℕ) (hsame : SameBytes mem mem' c) (hin : Within c h)
    (hcont : h.Contained mem c) (hdec : h.decoder = .tcp)
    (hstop : h.LoopsOptions mem → Stops (h.optNext mem) m 0) :
    ((h.longer extra).LoopsOptions mem' → Stops ((h.longer extra).optNext mem') (m + 1) 0) ∧
      (h.longer extra).options mem' (m + 1) = h.options mem m ∧
      ∀ o ∈ h.options mem m, o.seen mem' = o.seen mem := by
  have hfirst := hin.pkt_le
  have hend := hin.end_eq
  simp only [Call.Contained, hdec] at hcont
  obtain ⟨hle, hopts⟩ := hcont
  have hsize : sizeofTcphdr = 20 := rfl
  have h12 := hsame.byte (a := h.pkt + 12) (by omega) (by omega)
  have hhlen : (h.longer extra).tcpHlen mem' = h.tcpHlen mem := by
    simp only [Call.longer, Call.tcpHlen, h12]
  have hoptlen : (h.longer extra).tcpOptlen mem' = h.tcpOptlen mem := by
    rw [Call.tcpOptlen, hhlen, Call.tcpOptlen]
  have hstart : (h.longer extra).optStart mem' = h.optStart mem := by
    rw [Call.optStart, hhlen, hoptlen, Call.optStart, Call.longer]
  have hnext : (h.longer extra).optNext mem' =
      CLibrary.optNext mem' (h.optStart mem) (h.tcpOptlen mem) := by
    funext pos
    rw [Call.optNext, hstart, hoptlen]
  have hloops : (h.longer extra).LoopsOptions mem' ↔ h.LoopsOptions mem := by
    rw [Call.LoopsOptions, hoptlen, Call.LoopsOptions]
    simp only [Call.longer]
    omega
  have hdec' : (h.longer extra).decoder = .tcp := hdec
  rw [hnext, Call.options, Call.options, hstart, hoptlen]
  simp only [hloops, hdec, hdec', true_and]
  by_cases hloop : h.LoopsOptions mem
  · rw [if_pos hloop, if_pos hloop]
    have hsameOpt : ∀ n, ∀ q ∈ chain (CLibrary.optNext mem (h.optStart mem) (h.tcpOptlen mem)) n 0,
        q < h.tcpOptlen mem → SameOption mem mem' (h.optStart mem + q) := by
      intro n q hq hlt
      rw [optStart_eq hloop]
      refine (hopts hloop n q hq hlt).same fun a h1 h2 => ?_
      exact hsame a (by omega) (by omega)
    obtain ⟨hstop', hrecorded⟩ := recorded_same hsameOpt (hstop hloop)
    refine ⟨fun _ => hstop', hrecorded, fun o ho => ?_⟩
    obtain ⟨q, hq, hlt, hoption⟩ := exists_of_mem_recorded ho
    exact (hsameOpt m q hq hlt).seen hoption
  · rw [if_neg hloop, if_neg hloop]
    exact ⟨fun h => absurd h hloop, rfl, fun o ho => absurd ho List.not_mem_nil⟩

/-- **What follows a datagram is ignored** by a decoding whose headers are
contained in it, into a packet whose options are not behind it. -/
theorem yields_longer (hsame : SameBytes mem mem' c) (hextra : extra ≤ c.room)
    (hclen : c.len < 2 ^ 32) (hin : Within c h)
    (hcont : ∀ n, ∀ t ∈ chain (Call.nested mem) n h, t.Contained mem c)
    (hp : ∀ o ∈ p.tcpOptions, o.seen mem' = o.seen mem)
    (hyields : Yields mem h p r v) : Yields mem' (h.longer extra) p r v := by
  obtain ⟨n, hfin, hr, hv⟩ := hyields
  induction n generalizing h p with
  | zero => exact hfin.elim
  | succ n ih =>
      have hhead := forall_chain_head hcont
      have hfirst := hin.pkt_le
      have hend := hin.end_eq
      have hlen : h.len + extra < 2 ^ 32 := by
        rw [Call.room] at hextra
        omega
      by_cases hacc : h.Accepts mem
      · have halike := alike_longer hsame hin hhead hacc extra
        have hnested := nested_longer halike.toLeadAlike hlen
        cases hnext : h.nested mem with
        | none =>
            rw [hnext, Option.map_none] at hnested
            rw [finishes_of_last hnext] at hfin
            rw [result_of_last hnext] at hr hv
            rw [yields_last_iff hnested, halike.value]
            rw [← tcpOptions_fill mem h p] at hp
            by_cases hdec : h.decoder = .tcp
            · obtain ⟨hstop, hopts, hseen⟩ := options_longer extra hsame hin hhead hdec
                (hfin hdec)
              refine ⟨n + 1, fun _ => hstop, hr, ?_⟩
              rw [← hv, Call.finish, Call.finish, if_pos hacc, if_pos halike.accepts.2, hopts,
                halike.fill]
              exact view_same fun o ho =>
                (mem_tcpOptions_addOptions _ ho).elim (hp o) (hseen o)
            · have hdec' : (h.longer extra).decoder ≠ .tcp := hdec
              refine ⟨n, fun htcp => absurd htcp hdec', hr, ?_⟩
              rw [← hv, finish_of_accepts hacc hdec, finish_of_accepts halike.accepts.2 hdec',
                halike.fill]
              exact view_same hp
        | some d =>
            rw [hnext, Option.map_some] at hnested
            rw [result_of_nested hnext] at hr hv
            rw [yields_nested_iff hnested, halike.fill]
            rw [← tcpOptions_fill mem h p] at hp
            exact ih (within_nested hin (by omega) hnext) (forall_chain_next hnext hcont) hp
              ((finishes_of_nested hnext).mp hfin) hr hv
      · obtain ⟨hip, hacc'⟩ := refused_longer hsame hin hhead hacc hextra
        have hnext := Call.nested_of_refused hacc
        rw [result_of_last hnext] at hr hv
        rw [yields_last_iff (Call.nested_of_refused hacc')]
        refine ⟨n, fun htcp => ?_, ?_, ?_⟩
        · cases hip.symm.trans htcp
        · rw [← hr, Call.value, if_pos hacc', Call.value, if_pos hacc]
        · rw [← hv, finish_of_refused hacc', finish_of_refused hacc]
          rw [← tcpOptions_refuse h p] at hp
          exact view_same hp

end Decoding

end CLibrary
