import CLibrary.Packet.Padding

/-!
Headers the end of a datagram cuts off.

* `Steady`: decoding from a header on yields the same whatever follows the
  datagram.  `steady_nested` hands it on to the next header.
* `filled`: a datagram with one byte behind it over and over.
* `steady_accepts`, `steady_ip`, `steady_options`: a header that is steady is not
  cut off.  A header that is accepted in one buffer and refused in another shows
  in the layers, bytes of an IPv4 header from behind the datagram in the address,
  options from there in the options.
* `steady_chain`: every header behind one that is steady is contained in the
  datagram.
-/

namespace CLibrary

open Decode

/-! ### Steady headers -/

/-- Decoding `h` and what follows into the packet `fill` gives yields the same
whatever follows the datagram `c`. -/
def Steady (mem : Memory) (c h : Call) (fill : Memory → Packet) : Prop :=
  ∃ r v, ∀ mem' extra, SameBytes mem mem' c → extra ≤ c.room →
    Yields mem' (h.longer extra) (fill mem') r v

/-- The bytes up to `stop`, and `b` for all that follow. -/
def filled (mem : Memory) (stop : ℤ) (b : UInt8) : Memory := fun a => if a < stop then mem a else b

section Steady

variable {mem mem₁ mem₂ : Memory} {c d h : Call} {p : Packet} {fill : Memory → Packet} {r : ℤ}
  {v : View} {extra extra₁ extra₂ k : ℕ}

/-- A chain that fits in the layers has room for its first header. -/
lemma lt_of_room (hroom : ∀ n, k + (chain (Call.nested mem) n h).length ≤ maxLayers) :
    k < maxLayers := by
  have := hroom 1
  rw [chain, List.length_cons] at this
  omega

/-- What is left of the room for the headers behind the first one. -/
lemma room_nested (hroom : ∀ n, k + (chain (Call.nested mem) n h).length ≤ maxLayers)
    (hnext : h.nested mem = some d) (n : ℕ) :
    k + 1 + (chain (Call.nested mem) n d).length ≤ maxLayers := by
  have := hroom (n + 1)
  rw [chain_succ_some hnext, List.length_cons] at this
  omega

lemma sameBytes_refl : SameBytes mem mem c := fun _ _ _ => rfl

lemma sameBytes_filled (b : UInt8) : SameBytes mem (filled mem (c.pkt + c.len) b) c :=
  fun _ _ h2 => if_pos h2

lemma filled_of_ge {stop a : ℤ} {b : UInt8} (h : stop ≤ a) : filled mem stop b a = b :=
  if_neg (not_lt.mpr h)

/-- A header that is accepted shows in the layers, if there is room. -/
lemma Yields.length_layers_iff (hyields : Yields mem c p r v) (hroom : p.layerCount < maxLayers) :
    v.layers.length = p.layerCount ↔ ¬ c.Accepts mem := by
  obtain ⟨n, hlayers, hfin⟩ := hyields.layers hroom.le
  rw [hlayers, List.length_take, List.length_append, CLibrary.length_layers, List.length_map]
  cases n with
  | zero => exact hfin.elim
  | succ n =>
      cases hnext : c.nested mem with
      | none =>
          rw [headers_of_last hnext]
          split_ifs with hacc
          · rw [List.length_singleton]
            exact iff_of_false (by omega) (not_not.mpr hacc)
          · rw [List.length_nil]
            exact iff_of_true (by omega) hacc
      | some d =>
          rw [headers_of_nested hnext, List.length_cons]
          exact iff_of_false (by omega) (not_not.mpr (accepts_of_nested hnext).1)

/-- **A steady header** is accepted in all buffers or in none. -/
lemma steady_accepts_iff (hsteady : Steady mem c h fill)
    (hcount : ∀ mem', (fill mem').layerCount = k) (hroom : k < maxLayers)
    (h₁ : SameBytes mem mem₁ c) (h₂ : SameBytes mem mem₂ c) (extra₁ extra₂ : ℕ)
    (he₁ : extra₁ ≤ c.room) (he₂ : extra₂ ≤ c.room) :
    (h.longer extra₁).Accepts mem₁ ↔ (h.longer extra₂).Accepts mem₂ := by
  obtain ⟨r, v, hyields⟩ := hsteady
  have hv₁ := (hyields mem₁ extra₁ h₁ he₁).length_layers_iff (by rwa [hcount])
  have hv₂ := (hyields mem₂ extra₂ h₂ he₂).length_layers_iff (by rwa [hcount])
  rw [hcount] at hv₁ hv₂
  rw [← not_iff_not, ← hv₁, hv₂]

/-- A header no longer than it is. -/
lemma longer_zero (h : Call) : h.longer 0 = h := rfl

/-- **A steady header is accepted**, an IPv4 header apart. -/
lemma steady_accepts (hsteady : Steady mem c h fill) (hcount : ∀ mem', (fill mem').layerCount = k)
    (hroom : k < maxLayers) (hspace : 2 ^ 16 ≤ c.room) (hdec : h.decoder ≠ .ip) :
    h.Accepts mem := by
  have hiff := fun extra (he : extra ≤ c.room) => steady_accepts_iff hsteady hcount hroom
    sameBytes_refl sameBytes_refl 0 extra (Nat.zero_le _) he
  rw [← longer_zero h, hiff (2 ^ 12) (by omega)]
  have hlt := mem.byte_lt (h.pkt + 1)
  cases hc : h.decoder with
  | ip => exact absurd hc hdec
  | ip6Rte | ip6Ext =>
      simp only [Call.longer, Call.Accepts, Call.extLen, sizeofIp6Rte, sizeofIp6Ext, hc]
      omega
  | _ =>
      simp only [Call.longer, Call.Accepts, hc, sizeofIp6Hdr, sizeofIp6Frag, sizeofTcphdr,
        sizeofUdphdr]
      omega

lemma ip_longer_accepts_iff (hdec : h.decoder = .ip) : (h.longer extra).Accepts mem ↔
    h.ipHlen mem ≤ h.len + extra ∧ usub 32 (h.ipLen mem) (h.ipHlen mem) ≤ h.len + extra := by
  simp only [Call.Accepts, Call.longer, hdec]
  rfl

/-- **A steady IPv4 header** has its length in the datagram and is accepted, if
there can be a buffer it is accepted in. -/
lemma steady_ip_length (hsteady : Steady mem c h fill) (hin : Within c h)
    (hcount : ∀ mem', (fill mem').layerCount = k) (hroom : k < maxLayers)
    (hspace : 2 ^ 17 ≤ c.room) (hdec : h.decoder = .ip) :
    4 ≤ h.len ∧ (h.IpAccepted mem ∨ h.len + c.room < usub 32 (h.ipLen mem) (h.ipHlen mem)) := by
  have hfirst := hin.pkt_le
  have hend := hin.end_eq
  constructor
  · by_contra hshort
    -- the low byte of `ip_len` is behind the datagram
    obtain ⟨mem', hsame, hbehind⟩ : ∃ mem', SameBytes mem mem' c ∧ mem' (h.pkt + 3) = 255 :=
      ⟨_, sameBytes_filled 255, filled_of_ge (by omega)⟩
    have hbyte : mem'.byte (h.pkt + 2 + 1) = 255 := by
      rw [add_assoc]
      exact congrArg UInt8.toNat hbehind
    have hhi := mem'.byte_lt (h.pkt + 2)
    have hlen : h.ipLen mem' = 256 * mem'.byte (h.pkt + 2) + 255 := by
      rw [Call.ipLen, Memory.be16, hbyte]
    have hhlen : h.ipHlen mem' ≤ 60 := by
      rw [Call.ipHlen]
      omega
    have hpay : usub 32 (h.ipLen mem') (h.ipHlen mem') = h.ipLen mem' - h.ipHlen mem' :=
      usub_of_le (by omega) (by omega)
    have hiff := steady_accepts_iff hsteady hcount hroom hsame hsame 0 (2 ^ 16)
      (Nat.zero_le _) (by omega)
    rw [ip_longer_accepts_iff hdec, ip_longer_accepts_iff hdec, hpay] at hiff
    omega
  · by_contra hnot
    rw [not_or, not_lt] at hnot
    have hiff := steady_accepts_iff hsteady hcount hroom sameBytes_refl sameBytes_refl 0
      c.room (Nat.zero_le _) le_rfl
    have hhlen : h.ipHlen mem ≤ 60 := by
      rw [Call.ipHlen]
      omega
    rw [ip_longer_accepts_iff hdec, ip_longer_accepts_iff hdec] at hiff
    exact hnot.1 (hiff.mpr ⟨by omega, hnot.2⟩)

/-- A steady header hands on to a steady one. -/
lemma steady_nested (hsteady : Steady mem c h fill) (hin : Within c h) (hclen : c.len < 2 ^ 32)
    (hlead : ∀ mem' extra, SameBytes mem mem' c → extra ≤ c.room →
      LeadAlike mem mem' h (h.longer extra)) (hnext : h.nested mem = some d) :
    Steady mem c d fun mem' => h.fill mem' (fill mem') := by
  obtain ⟨r, v, hyields⟩ := hsteady
  have hfirst := hin.pkt_le
  have hend := hin.end_eq
  refine ⟨r, v, fun mem' extra hsame hextra => ?_⟩
  have hlen : h.len + extra < 2 ^ 32 := by
    rw [Call.room] at hextra
    omega
  have hnested := nested_longer (hlead mem' extra hsame hextra) hlen
  rw [hnext, Option.map_some] at hnested
  exact (yields_nested_iff hnested).mp (hyields mem' extra hsame hextra)

/-- A header that is steady does not call itself. -/
lemma Steady.not_self (hsteady : Steady mem c h fill) : h.nested mem ≠ some h := by
  intro hself
  obtain ⟨r, v, hyields⟩ := hsteady
  obtain ⟨n, hfin, -⟩ := hyields mem 0 sameBytes_refl (Nat.zero_le _)
  exact not_finishes_of_self hself hfin

/-- The last byte of an IPv4 header becomes one of the address. -/
lemma dstaddr_fill_ip (hdec : h.decoder = .ip) (mem : Memory) (p : Packet) :
    (h.fill mem p).dstaddr 3 = mem (h.pkt + 19) := by
  have h3 : ((3 : Fin 16) : ℕ) < 4 := by decide
  have haddr : h.pkt + 16 + ((3 : Fin 16) : ℕ) = h.pkt + 19 := by
    change h.pkt + 16 + 3 = _
    ring
  simp only [Call.fill, Call.fields, Packet.layerIns, hdec, if_pos h3, haddr]

/-- A UDP header and a header that is refused leave the address alone. -/
lemma dstaddr_finish (hkeep : d.decoder = .udp ∨ ¬ d.Accepts mem) (n : ℕ) :
    (d.finish mem n p).dstaddr = p.dstaddr := by
  by_cases hacc : d.Accepts mem
  · have hudp := hkeep.resolve_right (not_not.mpr hacc)
    rw [finish_of_accepts hacc (by simp [hudp])]
    simp only [Call.fill, Call.fields, Packet.layerIns, hudp]
  · rw [finish_of_refused hacc, Call.refuse]
    split_ifs <;> rfl

/-- The byte shows if the IPv4 header is the last one. -/
lemma Yields.dstaddr_of_last (hyields : Yields mem h p r v) (hdec : h.decoder = .ip)
    (hacc : h.Accepts mem) (hnext : h.nested mem = none) : v.dstaddr 3 = mem (h.pkt + 19) := by
  obtain ⟨m, -, -, hv⟩ := (yields_last_iff hnext).mp hyields
  rw [finish_of_accepts hacc (by simp [hdec])] at hv
  rw [← hv]
  exact dstaddr_fill_ip hdec mem p

/-- It shows as well behind one more header that leaves the address alone. -/
lemma Yields.dstaddr_of_nested (hyields : Yields mem h p r v) (hdec : h.decoder = .ip)
    (hnext : h.nested mem = some d) (hnone : d.nested mem = none)
    (hkeep : d.decoder = .udp ∨ ¬ d.Accepts mem) : v.dstaddr 3 = mem (h.pkt + 19) := by
  obtain ⟨m, -, -, hv⟩ := (yields_last_iff hnone).mp ((yields_nested_iff hnext).mp hyields)
  calc v.dstaddr 3 = (d.finish mem m (h.fill mem p)).dstaddr 3 := by rw [← hv]; rfl
    _ = (h.fill mem p).dstaddr 3 := by rw [dstaddr_finish hkeep m]
    _ = mem (h.pkt + 19) := dstaddr_fill_ip hdec mem p

/-- Behind the protocols from 254 on there is no other header. -/
lemma nested_eq_none_of_protocol (hdec : h.decoder = .ip) (h9 : 254 ≤ mem.byte (h.pkt + 9)) :
    h.nested mem = none := by
  have hfollow : h.follower mem = none := by
    have hne : ∀ proto < 254, mem.byte (h.pkt + 9) ≠ proto := fun _ _ => by omega
    simp only [Call.follower, hdec, ipSwitch]
    rw [if_neg (hne ipprotoTcp ?_), if_neg (hne ipprotoUdp ?_), if_neg (hne ipprotoIpip ?_),
      if_neg (hne ipprotoIpv6 ?_)] <;> norm_num [ipprotoTcp, ipprotoUdp, ipprotoIpip, ipprotoIpv6]
  rw [Call.nested, hfollow, Option.map_none, ite_self]

/-- An IPv4 header with ten bytes in the datagram leads on alike. -/
lemma leadAlike_ip {mem' : Memory} (hsame : SameBytes mem mem' c) (hin : Within c h)
    (hdec : h.decoder = .ip) (hlen : 10 ≤ h.len) (hacc : h.Accepts mem)
    (hacc' : (h.longer extra).Accepts mem') : LeadAlike mem mem' h (h.longer extra) := by
  have hfirst := hin.pkt_le
  have hend := hin.end_eq
  have h0 := hsame.byte (a := h.pkt) (by omega) (by omega)
  have h6 := hsame.be16 (a := h.pkt + 6) (by omega) (by omega)
  have h9 := hsame.byte (a := h.pkt + 9) (by omega) (by omega)
  refine ⟨⟨hacc, hacc'⟩, ?_, ?_, ?_⟩
  · simp only [Call.longer, Call.Fragment, hdec, Call.IpFragment, h6]
  · simp only [Call.longer, Call.size, hdec, Call.ipHlen, h0]
  · simp only [Call.longer, Call.follower, hdec, h9]

/-- **A steady IPv4 header** that is accepted has its 20 bytes in the datagram:
otherwise the last of them shows in the address. -/
lemma steady_ip (hsteady : Steady mem c h fill) (hin : Within c h) (hclen : c.len < 2 ^ 32)
    (hcount : ∀ mem', (fill mem').layerCount = k)
    (hroom : ∀ n, k + (chain (Call.nested mem) n h).length ≤ maxLayers)
    (hspace : 2 ^ 17 ≤ c.room) (hdec : h.decoder = .ip) (hacc : h.Accepts mem) : 20 ≤ h.len := by
  induction hn : h.len using Nat.strong_induction_on generalizing h fill k with
  | _ n ih =>
      subst hn
      by_contra hshort
      have hfirst := hin.pkt_le
      have hend := hin.end_eq
      have hlt := lt_of_room hroom
      have hlen := (steady_ip_length hsteady hin hcount hlt hspace hdec).1
      obtain ⟨r, v, hyields⟩ := id hsteady
      -- with `b` behind the datagram, the byte is `b`
      suffices hshow : ∀ b : UInt8, 254 ≤ b.toNat → v.dstaddr 3 = b by
        have h254 := hshow 254 (by decide)
        have h255 := hshow 255 (by decide)
        rw [h254] at h255
        exact absurd h255 (by decide)
      intro b hb
      set mem' := filled mem (c.pkt + c.len) b
      have hsame : SameBytes mem mem' c := sameBytes_filled b
      have hyield := hyields mem' 0 hsame (Nat.zero_le _)
      rw [longer_zero] at hyield
      have hacc' : h.Accepts mem' := (steady_accepts_iff hsteady hcount hlt sameBytes_refl hsame
        0 0 (Nat.zero_le _) (Nat.zero_le _)).mp hacc
      have hlast : mem' (h.pkt + 19) = b := filled_of_ge (by omega)
      rw [← hlast]
      by_cases hten : h.len < 10
      · -- the protocol is behind the datagram, too
        have h9 : mem'.byte (h.pkt + 9) = b.toNat :=
          congrArg UInt8.toNat (filled_of_ge (by omega))
        exact hyield.dstaddr_of_last hdec hacc' (nested_eq_none_of_protocol hdec (by omega))
      · have hlead : ∀ mem'' extra, SameBytes mem mem'' c → extra ≤ c.room →
            LeadAlike mem mem'' h (h.longer extra) := by
          intro mem'' extra hsame'' hextra
          refine leadAlike_ip hsame'' hin hdec (Nat.not_lt.mp hten) hacc ?_
          exact (steady_accepts_iff hsteady hcount hlt sameBytes_refl hsame'' 0 extra
            (Nat.zero_le _) hextra).mp hacc
        have hnested := nested_longer (hlead mem' 0 hsame (Nat.zero_le _)) (by omega)
        rw [longer_zero] at hnested
        cases hnext : h.nested mem with
        | none =>
            rw [hnext, Option.map_none] at hnested
            exact hyield.dstaddr_of_last hdec hacc' hnested
        | some d =>
            rw [hnext, Option.map_some, longer_zero] at hnested
            have hsteady' := steady_nested hsteady hin hclen hlead hnext
            have hin' := within_nested hin (by omega) hnext
            have hcount' : ∀ mem', (h.fill mem' (fill mem')).layerCount = k + 1 := by
              intro mem'
              rw [layerCount_fill (by rwa [hcount]), hcount]
            have hroom' := room_nested hroom hnext
            have hlt' := lt_of_room hroom'
            have hshorter := nested_len hnext (by omega)
            rcases nested_of_ip hdec hnext with hd | hd | hd | hd
            · have hacc'' := steady_accepts hsteady' hcount' hlt' (by omega) (by simp [hd])
              simp only [Call.Accepts, hd, sizeofTcphdr] at hacc''
              omega
            · exact hyield.dstaddr_of_nested hdec hnested (nested_eq_none (Or.inr hd)) (Or.inl hd)
            · by_cases hdacc : d.Accepts mem
              · have hsize : h.size mem ≠ 0 := by
                  intro hzero
                  have hself := nested_eq_self hnext (by omega) hzero (hd.trans hdec.symm)
                  exact hsteady.not_self (hself ▸ hnext)
                have := ih d.len (by omega) hsteady' hin' hcount' hroom' hd hdacc rfl
                omega
              · have hdacc' : ¬ d.Accepts mem' := fun h' => hdacc
                  ((steady_accepts_iff hsteady' hcount' hlt' sameBytes_refl hsame 0 0
                    (Nat.zero_le _) (Nat.zero_le _)).mpr h')
                exact hyield.dstaddr_of_nested hdec hnested (Call.nested_of_refused hdacc')
                  (Or.inr hdacc')
            · have hacc'' := steady_accepts hsteady' hcount' hlt' (by omega) (by simp [hd])
              simp only [Call.Accepts, hd, sizeofIp6Hdr] at hacc''
              omega

end Steady

/-! ### Options behind the datagram -/

section Options

variable {mem mem' : Memory} {c h : Call} {p : Packet} {start stop addr : ℤ} {len pos m : ℕ}
  {b : UInt8}

/-- The options the loop records from `pos` on show the same, whatever byte is from
`stop` on. -/
def SameRecorded (mem : Memory) (start stop : ℤ) (len pos : ℕ) : Prop :=
  ∃ l, ∀ b, ∃ m, Stops (optNext (filled mem stop b) start len) m pos ∧
    (recorded (filled mem stop b) start len m pos).map (TcpOption.seen (filled mem stop b)) = l

lemma byte_filled_of_lt (h : addr < stop) : (filled mem stop b).byte addr = mem.byte addr := by
  rw [Memory.byte, filled, if_pos h, Memory.byte]

lemma byte_filled_of_ge (h : stop ≤ addr) : (filled mem stop b).byte addr = b.toNat := by
  rw [Memory.byte, filled_of_ge h]

/-- What is recorded starts with the option at the position. -/
lemma head_recorded (hpos : pos < len) (hstop : Stops (optNext mem start len) m pos)
    {option : TcpOption} (hoption : optionAt mem len (start + pos) = some option) :
    ((recorded mem start len m pos).map (TcpOption.seen mem)).head? = some (option.seen mem) := by
  cases m with
  | zero => exact hstop.elim
  | succ m =>
      rw [recorded_succ hpos, hoption]
      rfl

/-- Nothing is recorded where the loop returns. -/
lemma recorded_of_return (hpos : pos < len) (hjump : optJump mem len (start + pos) = none) (m : ℕ) :
    recorded mem start len m pos = [] := by
  cases m with
  | zero => rfl
  | succ m =>
      have hnext : optNext mem start len pos = none := by
        rw [optNext, if_pos hpos, hjump, Option.map_none]
      rw [recorded_succ hpos, hnext, optionAt, hjump, Option.map_none, ite_self]
      rfl

/-- A kind from behind the datagram shows. -/
lemma kind_in_datagram (hpos : pos < len) (hsame : SameRecorded mem start stop len pos) :
    start + pos < stop := by
  by_contra hnot
  rw [not_lt] at hnot
  obtain ⟨l, hl⟩ := hsame
  -- an unknown kind is not recorded, the end of the options is
  obtain ⟨m, -, hunknown⟩ := hl 255
  obtain ⟨m', hstop', heol⟩ := hl 0
  have hkind : tcpoptMax ≤ (filled mem stop 255).byte (start + pos) := by
    rw [byte_filled_of_ge hnot]
    decide
  have hoption : optionAt (filled mem stop 0) len (start + pos) = some ⟨0, 0, none⟩ := by
    rw [optionAt, optJump, byte_filled_of_ge hnot]
    rfl
  have hhead := head_recorded hpos hstop' hoption
  rw [heol, ← hunknown, (recorded_unknown hpos hkind m).1] at hhead
  cases hhead

/-- The expected lengths fit in a byte. -/
lemma tcpoptLenTbl_le : ∀ kind < tcpoptMax, tcpoptLenTbl.getD kind 0 ≤ 10 := by decide

/-- The length of a known kind from behind the datagram shows. -/
lemma length_in_datagram (hpos : pos < len) (hsame : SameRecorded mem start stop len pos)
    (h2 : 2 ≤ mem.byte (start + pos)) (hmax : mem.byte (start + pos) < tcpoptMax) :
    start + pos + 1 < stop := by
  have hin := kind_in_datagram hpos hsame
  by_contra hnot
  rw [not_lt] at hnot
  obtain ⟨l, hl⟩ := hsame
  have hkind : ∀ b, (filled mem stop b).byte (start + pos) = mem.byte (start + pos) :=
    fun b => byte_filled_of_lt hin
  have hsize : ∀ b, (filled mem stop b).byte (start + pos + 1) = b.toNat :=
    fun b => byte_filled_of_ge hnot
  have hmax' : ∀ b, (filled mem stop b).byte (start + pos) < tcpoptMax :=
    fun b => (hkind b).trans_lt hmax
  rcases tcpoptLenTbl_cases _ hmax with ⟨hk, -⟩ | ⟨hk, htbl⟩ | ⟨-, -, htbl⟩
  · omega
  · -- a variable length
    have hoption : ∀ b : UInt8, optionAt (filled mem stop b) len (start + pos) =
        some ⟨tcpoptSack, optLen tcpoptSack b.toNat,
          if optLen tcpoptSack b.toNat ≠ 0 then some (start + pos + 2) else none⟩ := by
      intro b
      have hjump : optJump (filled mem stop b) len (start + pos) = _ :=
        optJump_variable (hmax' b) (by rw [hkind, htbl])
      rw [optionAt, if_pos (hmax' b), hjump, Option.map_some, hkind, hsize, hk]
    obtain ⟨m, hstop, hlong⟩ := hl 255
    obtain ⟨m', hstop', hshort⟩ := hl 2
    have hhead := head_recorded hpos hstop (hoption 255)
    rw [hlong, ← hshort, head_recorded hpos hstop' (hoption 2)] at hhead
    have hlens : optLen tcpoptSack 2 ≠ optLen tcpoptSack 255 := by decide
    exact hlens (congrArg (fun e => e.2.1) (Option.some.inj hhead))
  · -- a fixed length
    have hle := tcpoptLenTbl_le _ hmax
    obtain ⟨m, -, hwrong⟩ := hl 255
    obtain ⟨m', hstop', hright⟩ :=
      hl (UInt8.ofNat (tcpoptLenTbl.getD (mem.byte (start + pos)) 0).toNat)
    have hnone : optJump (filled mem stop 255) len (start + pos) = none := by
      rw [optJump_fixed (hmax' 255) (by rwa [hkind]), hkind, hsize, if_neg]
      change ¬ (255 : ℤ) = _
      omega
    obtain ⟨option, hoption⟩ : ∃ option, optionAt (filled mem stop (UInt8.ofNat
        (tcpoptLenTbl.getD (mem.byte (start + pos)) 0).toNat)) len (start + pos) = some option := by
      rw [optionAt, if_pos (hmax' _), optJump_fixed (hmax' _) (by rwa [hkind]), hkind, hsize,
        if_pos, Option.map_some]
      · exact ⟨_, rfl⟩
      · rw [UInt8.toNat_ofNat']
        omega
    have hhead := head_recorded hpos hstop' hoption
    rw [hright, ← hwrong, recorded_of_return hpos hnone] at hhead
    cases hhead

/-- The value of a recorded option from behind the datagram shows: its last byte
does. -/
lemma value_in_datagram (hpos : pos < len) (hsame : SameRecorded mem start stop len pos)
    (h2 : 2 ≤ mem.byte (start + pos)) (hmax : mem.byte (start + pos) < tcpoptMax)
    (hend : ¬ EndsAt mem (start + pos)) :
    start + pos + 2 + usub 8 (mem.byte (start + pos + 1)) 2 ≤ stop := by
  have hkind := kind_in_datagram hpos hsame
  have hlength := length_in_datagram hpos hsame h2 hmax
  by_contra hnot
  rw [not_le] at hnot
  obtain ⟨l, hl⟩ := hsame
  obtain ⟨option, hoption⟩ : ∃ option, optionAt mem len (start + pos) = some option :=
    Option.ne_none_iff_exists'.mp fun hnone => hend (optionAt_eq_none_iff.mp hnone)
  obtain ⟨-, ⟨hlow, -⟩ | ⟨-, -, hlen, hvalue⟩⟩ := optionAt_cases hoption
  · omega
  · rw [if_pos (by omega)] at hvalue
    rw [← hlen] at hnot
    obtain ⟨i, hi⟩ : ∃ i, option.len = i + 1 := Nat.exists_eq_succ_of_ne_zero (by omega)
    -- with `b` behind the datagram, the byte is `b`
    have hlast : ∀ b : UInt8, ((l.head?.map fun e => e.2.2).bind fun bytes => bytes[i]?) =
        some b := by
      intro b
      have hbefore : ∀ a < stop, (filled mem stop b).byte a = mem.byte a :=
        fun a ha => byte_filled_of_lt ha
      obtain ⟨m, hstop, hrecorded⟩ := hl b
      have hoption' : optionAt (filled mem stop b) len (start + pos) = some option := by
        rw [← hoption, optionAt, optionAt, optJump, optJump, hbefore _ hkind, hbefore _ hlength]
      rw [← hrecorded, head_recorded hpos hstop hoption', Option.map_some, Option.bind_some,
        TcpOption.seen, hvalue, Option.elim_some, List.getElem?_map,
        List.getElem?_range (by omega), Option.map_some, filled_of_ge (by omega)]
    have hne : (0 : UInt8) ≠ 255 := by decide
    exact hne (Option.some.inj ((hlast 0).symm.trans (hlast 255)))

/-- What is looked at of an option, and recorded of it, lies in the datagram. -/
lemma option_in_datagram (hpos : pos < len) (hsame : SameRecorded mem start stop len pos) :
    OptionBefore mem stop (start + pos) :=
  ⟨kind_in_datagram hpos hsame, fun h2 hmax => ⟨length_in_datagram hpos hsame h2 hmax,
    value_in_datagram hpos hsame h2 hmax⟩⟩

/-- A known kind in the datagram hands on. -/
lemma sameRecorded_next {next : ℕ} (hpos : pos < len) (hsame : SameRecorded mem start stop len pos)
    (hmax : mem.byte (start + pos) < tcpoptMax) (hnext : optNext mem start len pos = some next) :
    SameRecorded mem start stop len next := by
  have hin := option_in_datagram hpos hsame
  obtain ⟨l, hl⟩ := hsame
  refine ⟨l.drop (optionAt mem len (start + pos)).toList.length, fun b => ?_⟩
  have hoption : SameOption mem (filled mem stop b) (start + pos) :=
    hin.same fun a _ ha => if_pos ha
  obtain ⟨hjump, hat⟩ := hoption.known len hmax
  have hnext' : optNext (filled mem stop b) start len pos = some next := by
    rw [optNext, hjump, ← hnext, optNext]
  obtain ⟨m, hstop, hrecorded⟩ := hl b
  cases m with
  | zero => exact hstop.elim
  | succ m =>
      refine ⟨m, hstop next hnext', ?_⟩
      rw [recorded_succ hpos, hnext', Option.elim_some, hat, List.map_append] at hrecorded
      rw [← hrecorded, List.drop_left' (List.length_map _)]

/-- **Options that are the same whatever follows** are looked at in the
datagram. -/
lemma options_in_datagram (hsame : SameRecorded mem start stop len pos) (n : ℕ) :
    ∀ q ∈ chain (optNext mem start len) n pos, q < len → OptionBefore mem stop (start + q) := by
  induction n generalizing pos with
  | zero => exact fun q hq => absurd hq List.not_mem_nil
  | succ n ih =>
      intro q hq hlt
      cases hnext : optNext mem start len pos with
      | none =>
          rw [chain_succ_none hnext, List.mem_singleton] at hq
          subst hq
          exact option_in_datagram hlt hsame
      | some next =>
          rw [chain_succ_some hnext] at hq
          rcases List.mem_cons.mp hq with rfl | hq
          · exact option_in_datagram hlt hsame
          · have hpos : pos < len := by
              by_contra hge
              rw [optNext_of_ge (Nat.not_lt.mp hge)] at hnext
              cases hnext
            by_cases hmax : mem.byte (start + pos) < tcpoptMax
            · exact ih (sameRecorded_next hpos hsame hmax hnext) q hq hlt
            · -- behind an unknown kind no options are left
              rw [not_lt] at hmax
              have hge := optNext_unknown hpos hmax hnext
              rw [mem_chain_of_ge hge hq] at hlt
              omega

/-- There are no more options than bytes. -/
lemma length_recorded_le (hstop : Stops (optNext mem start len) m pos) :
    (recorded mem start len m pos).length ≤ len - pos := by
  induction m generalizing pos with
  | zero => exact hstop.elim
  | succ m ih =>
      by_cases hpos : pos < len
      · have hoption : (optionAt mem len (start + pos)).toList.length ≤ 1 := by
          cases optionAt mem len (start + pos) <;> simp
        rw [recorded_succ hpos, List.length_append]
        cases hnext : optNext mem start len pos with
        | none =>
            rw [Option.elim_none, List.length_nil]
            omega
        | some next =>
            have hle := ih (hstop next hnext)
            have hne : next ≠ pos := by
              rintro rfl
              exact hstop.ne_self hnext
            rw [optNext, if_pos hpos, Option.map_eq_some_iff] at hnext
            obtain ⟨jump, -, rfl⟩ := hnext
            rw [Option.elim_some]
            omega
      · rw [recorded_of_ge (Nat.not_lt.mp hpos), List.length_nil]
        exact Nat.zero_le _

/-- **A steady TCP header** has the options that are looked at in the
datagram. -/
lemma steady_options (hsteady : Steady mem c h fun _ => p) (hin : Within c h)
    (hdec : h.decoder = .tcp) (hle : sizeofTcphdr ≤ h.len)
    (hcount : p.tcpoptCount + maxTcpoptlen < 2 ^ 32) : h.Contained mem c := by
  have hfirst := hin.pkt_le
  have hend := hin.end_eq
  have hsize : sizeofTcphdr = 20 := rfl
  simp only [Call.Contained, hdec]
  refine ⟨hle, fun hloop => ?_⟩
  obtain ⟨r, v, hyields⟩ := hsteady
  dsimp only at hyields
  have hsame : SameRecorded mem (h.optStart mem) (c.pkt + c.len) (h.tcpOptlen mem) 0 := by
    refine ⟨v.options.drop p.tcpOptions.length, fun b => ?_⟩
    set mem' := filled mem (c.pkt + c.len) b
    have hbytes : SameBytes mem mem' c := sameBytes_filled b
    have hhlen : h.tcpHlen mem' = h.tcpHlen mem := by
      rw [Call.tcpHlen, hbytes.byte (by omega) (by omega), Call.tcpHlen]
    have hoptlen : h.tcpOptlen mem' = h.tcpOptlen mem := by
      rw [Call.tcpOptlen, hhlen, Call.tcpOptlen]
    have hstart : h.optStart mem' = h.optStart mem := by
      rw [Call.optStart, hhlen, hoptlen, Call.optStart]
    have hloop' : h.LoopsOptions mem' := by
      rw [Call.LoopsOptions, hoptlen]
      exact hloop
    have hnext' : h.optNext mem' =
        CLibrary.optNext mem' (h.optStart mem) (h.tcpOptlen mem) := by
      funext pos
      rw [Call.optNext, hstart, hoptlen]
    have hacc' : h.Accepts mem' := by
      simp only [Call.Accepts, hdec]
      exact hle
    obtain ⟨m, hstop, -, hv⟩ := (yields_last_iff (nested_eq_none (Or.inl hdec))).mp
      (hyields mem' 0 hbytes (Nat.zero_le _))
    have hstop' := hstop hdec hloop'
    rw [hnext'] at hstop'
    refine ⟨m, hstop', ?_⟩
    have hlength := length_recorded_le hstop'
    have hlenle := hloop.2.2
    have hoptions : v.options = p.tcpOptions.map (TcpOption.seen mem') ++
        (recorded mem' (h.optStart mem) (h.tcpOptlen mem) m 0).map (TcpOption.seen mem') := by
      have hfill := tcpoptCount_fill mem' h p
      rw [← hv, Call.finish, if_pos hacc', Call.options, if_pos ⟨hdec, hloop'⟩, hstart, hoptlen,
        ← List.map_append, ← tcpOptions_fill mem' h p]
      exact congrArg _ (tcpOptions_addOptions _ (by omega))
    rw [hoptions, List.drop_left' (List.length_map _)]
  intro n q hq hlt
  rw [hend, ← optStart_eq hloop]
  exact options_in_datagram hsame n q hq hlt

end Options

/-! ### Along the chain -/

section Along

variable {mem mem' : Memory} {c d h : Call} {p : Packet} {fill fill' : Memory → Packet} {n m : ℕ}

lemma Steady.congr (hsteady : Steady mem c h fill)
    (heq : ∀ mem', SameBytes mem mem' c → fill mem' = fill' mem') : Steady mem c h fill' := by
  obtain ⟨r, v, hyields⟩ := hsteady
  exact ⟨r, v, fun mem' extra hsame hextra => heq mem' hsame ▸ hyields mem' extra hsame hextra⟩

/-- **A steady header is contained**. -/
lemma steady_contained (hsteady : Steady mem c h fun _ => p) (hin : Within c h)
    (hclen : c.len < 2 ^ 32) (hspace : 2 ^ 17 ≤ c.room)
    (hroom : ∀ n, p.layerCount + (chain (Call.nested mem) n h).length ≤ maxLayers)
    (hcount : p.tcpoptCount + maxTcpoptlen < 2 ^ 32) : h.Contained mem c := by
  have hlt := lt_of_room hroom
  have hacc := steady_accepts hsteady (fun _ => rfl) hlt (by omega)
  cases hc : h.decoder with
  | ip =>
      obtain ⟨hlen, hor⟩ := steady_ip_length hsteady hin (fun _ => rfl) hlt hspace hc
      simp only [Call.Contained, hc]
      split_ifs with hip
      · exact steady_ip hsteady hin hclen (fun _ => rfl) hroom hspace hc
          (by simpa only [Call.Accepts, hc] using hip)
      · exact ⟨hlen, hor.resolve_left hip⟩
  | tcp =>
      have hle := hacc (by simp [hc])
      simp only [Call.Accepts, hc] at hle
      exact steady_options hsteady hin hc hle hcount
  | _ =>
      simp only [Call.Contained, hc]
      exact hacc (by simp [hc])

/-- A header that is steady does not get stuck. -/
lemma Steady.not_stuck (hsteady : Steady mem c h fill) : ¬ h.Stuck mem := by
  rintro ⟨hdec, hloop, k, pos, hpos, hlt, hzero⟩
  obtain ⟨r, v, hyields⟩ := hsteady
  obtain ⟨m, hstop, -⟩ := (yields_last_iff (nested_eq_none (Or.inl hdec))).mp
    (hyields mem 0 sameBytes_refl (Nat.zero_le _))
  exact optStops_iff.mp ⟨m, hstop hdec hloop⟩ k pos hpos hlt hzero

/-- **The chain of a steady header**: all its headers are contained, none calls
itself, and no options get stuck. -/
lemma steady_chain (hsteady : Steady mem c h fun _ => p) (hin : Within c h)
    (hclen : c.len < 2 ^ 32) (hspace : 2 ^ 17 ≤ c.room)
    (hroom : ∀ n, p.layerCount + (chain (Call.nested mem) n h).length ≤ maxLayers)
    (hcount : p.tcpoptCount + maxTcpoptlen < 2 ^ 32) (n : ℕ) :
    ∀ t ∈ chain (Call.nested mem) n h,
      t.Contained mem c ∧ t.nested mem ≠ some t ∧ ¬ t.Stuck mem := by
  have hinv : ∀ t ∈ chain (Call.nested mem) n h, Within c t ∧ ∃ p : Packet,
      (Steady mem c t fun _ => p) ∧ p.tcpoptCount + maxTcpoptlen < 2 ^ 32 ∧
      ∀ n, p.layerCount + (chain (Call.nested mem) n t).length ≤ maxLayers := by
    refine forall_chain ⟨hin, p, hsteady, hcount, hroom⟩ ?_ n
    rintro t d ⟨hin, p, hsteady, hcount, hroom⟩ hnext
    have hcont := steady_contained hsteady hin hclen hspace hroom hcount
    have hacc := (accepts_of_nested hnext).1
    have halike := fun mem' extra (hsame : SameBytes mem mem' c) =>
      alike_longer hsame hin hcont hacc extra
    have hend := hin.end_eq
    have hfirst := hin.pkt_le
    refine ⟨within_nested hin (by omega) hnext, t.fill mem p, ?_, ?_, fun n => ?_⟩
    · refine (steady_nested hsteady hin hclen
        (fun mem' extra hsame _ => (halike mem' extra hsame).toLeadAlike) hnext).congr ?_
      intro mem' hsame
      exact (halike mem' 0 hsame).fill p
    · rwa [tcpoptCount_fill]
    · rw [layerCount_fill (lt_of_room hroom)]
      exact room_nested hroom hnext n
  intro t ht
  obtain ⟨hin, p, hsteady, hcount, hroom⟩ := hinv t ht
  exact ⟨steady_contained hsteady hin hclen hspace hroom hcount, hsteady.not_self,
    hsteady.not_stuck⟩

end Along

end CLibrary
