import CLibrary.Packet.Layers

/-!
Fragments of IPv6 datagrams.

* `Call.fragOffset`, `Call.FragMore`: the fields of a fragment header as they are
  in the packet.  `and_ip6fOffMask`, `and_ip6fMoreFrag`: the bits the decoder
  looks at instead, whose masks are those of a number that is not in host order.
* `result_fragment`: `mf` and `offset` are those of the last IPv4 or fragment
  header.
* `Recognises`: what decoding should say of a fragment header.
* `recognises_iff`: the fields for which it does.
* `middle_of_datagram`: a fragment from the middle of a datagram whose first
  bytes become a UDP header.
-/

namespace CLibrary

open Decode

/-! ### Accessors -/

/-- `packet_is_fragment`. -/
def packetIsFragment (packet : Packet) : Bool := packet.offset ≠ 0 || packet.mf

/-- `packet_frag_mf`. -/
def packetFragMf (packet : Packet) : Bool := packet.mf

/-- `packet_frag_offset`. -/
def packetFragOffset (packet : Packet) : ℕ := packet.offset

/-! ### The masks -/

section Masks

variable {x : ℕ}

/-- A mask further up. -/
lemma and_shiftLeft_eq_zero_iff {b k : ℕ} : x &&& b <<< k = 0 ↔ x / 2 ^ k &&& b = 0 := by
  have hshift : x &&& b <<< k = (x / 2 ^ k &&& b) <<< k := by
    refine Nat.eq_of_testBit_eq fun i => ?_
    rw [← Nat.shiftRight_eq_div_pow, Nat.testBit_and, Nat.testBit_shiftLeft, Nat.testBit_shiftLeft,
      Nat.testBit_and, Nat.testBit_shiftRight]
    by_cases hi : i ≥ k
    · rw [Nat.add_sub_of_le hi]
      simp [hi]
    · simp [hi]
  rw [hshift, Nat.shiftLeft_eq, Nat.mul_eq_zero]
  exact or_iff_left (Nat.two_pow_pos k).ne'

/-- The bits that become `offset`: all but three. -/
lemma and_ip6fOffMask (hx : x < 2 ^ 16) : x &&& ip6fOffMask = 0 ↔ x % 256 = 0 ∧ x < 2048 := by
  have hmask : ip6fOffMask = (2 ^ 8 - 1) ||| (2 ^ 5 - 1) <<< 11 := rfl
  rw [hmask, Nat.and_or_distrib_left, Nat.or_eq_zero_iff, and_shiftLeft_eq_zero_iff,
    Nat.and_two_pow_sub_one_eq_mod, Nat.and_two_pow_sub_one_eq_mod]
  omega

/-- The bit that becomes `mf`: the ninth. -/
lemma and_ip6fMoreFrag : x &&& ip6fMoreFrag ≠ 0 ↔ x / 256 % 2 = 1 := by
  have hmask : ip6fMoreFrag = (2 ^ 1 - 1) <<< 8 := rfl
  rw [ne_eq, hmask, and_shiftLeft_eq_zero_iff, Nat.and_two_pow_sub_one_eq_mod]
  omega

end Masks

/-! ### The fields -/

namespace Call

variable (mem : Memory) (c : Call)

/-- The fragment offset of a fragment header. -/
def fragOffset : ℕ := mem.be16 (c.pkt + 2) / 8

/-- The M bit of a fragment header. -/
def FragMore : Prop := mem.be16 (c.pkt + 2) % 2 = 1

/-- `mf` and `offset` behind a header that is accepted. -/
def fragment (old : Bool × ℕ) : Bool × ℕ :=
  match c.decoder with
  | .ip => (mem.be16 (c.pkt + 6) / 2 ^ 13 % 2 = 1, mem.be16 (c.pkt + 6) % 2 ^ 13)
  | .ip6Frag =>
      (mem.be16 (c.pkt + 2) &&& ip6fMoreFrag ≠ 0, mem.be16 (c.pkt + 2) &&& ip6fOffMask)
  | _ => old

end Call

section Fields

variable {mem : Memory} {c h : Call} {p : Packet}

lemma fragment_fill :
    ((c.fill mem p).mf, (c.fill mem p).offset) = c.fragment mem (p.mf, p.offset) := by
  cases hc : c.decoder <;> simp only [Call.fill, Call.fields, Call.fragment, Packet.layerIns, hc]

/-- **`mf` and `offset`** follow the headers. -/
lemma result_fragment (n : ℕ) (c : Call) (p : Packet) :
    ((result mem n c p).2.mf, (result mem n c p).2.offset) =
      (headers mem n c).foldl (fun old h => h.fragment mem old) (p.mf, p.offset) := by
  refine result_field (fun p => (p.mf, p.offset)) (fun h old => h.fragment mem old)
    (fun _ _ => fragment_fill) (fun _ _ => rfl) n c p fun d _ _ p => ?_
  rw [Call.refuse]
  split_ifs <;> rfl

/-- The last IPv4 header. -/
def lastIp (l : List Call) : Option Call := (l.filter fun h => h.decoder = .ip).getLast?

/-- What an IPv4 header leaves does not depend on what was there. -/
lemma fragment_of_ip (hip : h.decoder = .ip) (a b : Bool × ℕ) :
    h.fragment mem a = h.fragment mem b := by
  simp only [Call.fragment, hip]

/-- Without a fragment header, those of the last IPv4 header. -/
lemma foldl_fragment {l : List Call} (hl : ∀ h ∈ l, h.decoder ≠ .ip6Frag) (old : Bool × ℕ) :
    l.foldl (fun old h => h.fragment mem old) old =
      (lastIp l).elim old fun h => h.fragment mem (false, 0) := by
  induction l generalizing old with
  | nil => rfl
  | cons h l ih =>
      rw [List.forall_mem_cons] at hl
      rw [List.foldl_cons, ih hl.2, lastIp, lastIp, List.filter_cons]
      by_cases hip : h.decoder = .ip
      · rw [if_pos (decide_eq_true hip), List.getLast?_cons, Option.elim_some,
          fragment_of_ip hip old (false, 0)]
        cases (l.filter fun h => h.decoder = .ip).getLast? <;> rfl
      · have hsame : h.fragment mem old = old := by
          cases hc : h.decoder with
          | ip => exact absurd hc hip
          | ip6Frag => exact absurd hc hl.1
          | _ => simp only [Call.fragment, hc]
        rw [if_neg (by simpa using hip), hsame]

lemma lastIp_decoder {l : List Call} (hi : lastIp l = some h) : h ∈ l ∧ h.decoder = .ip := by
  have hmem := List.mem_of_getLast? hi
  rw [List.mem_filter, decide_eq_true_iff] at hmem
  exact hmem

end Fields

/-! ### Recognising fragments -/

/-- After a decoding the packet is a fragment as the fragment header `h` says,
and a decoder is called behind it only if it says there is none. -/
structure Recognises (mem : Memory) (h : Call) (s : Decoding) : Prop where
  mf_iff : packetFragMf s.packet = true ↔ h.FragMore mem
  offset_iff : packetFragOffset s.packet ≠ 0 ↔ h.fragOffset mem ≠ 0
  fragment_iff : packetIsFragment s.packet = true ↔ h.fragOffset mem ≠ 0 ∨ h.FragMore mem
  dispatched : ∀ d, (h, d) ∈ s.calls → h.fragOffset mem = 0 ∧ ¬ h.FragMore mem

/-- The fields `x` of a fragment header survive the masks: M equals bit 8, which
is taken for it; and M is set, or the offset has one of the bits that are looked
at, or its bits 9 and 10, which are not, are zero just if the reserved bits,
which are, are zero. -/
def SurvivesMasks (x : ℕ) : Prop :=
  x / 256 % 2 = x % 2 ∧
    (x % 2 = 1 ∨ x % 256 / 8 ≠ 0 ∨ 2048 ≤ x ∨ (x / 2 % 4 = 0 ↔ x / 512 % 4 = 0))

/-- The bits of the M flag and of a nonzero offset are found where they are
looked for. -/
lemma survivesMasks_iff {x : ℕ} : SurvivesMasks x ↔
    (x / 256 % 2 = 1 ↔ x % 2 = 1) ∧ (¬ (x % 256 = 0 ∧ x < 2048) ↔ x / 8 ≠ 0) := by
  have hlow : x % 256 = 0 ↔ x % 2 = 0 ∧ x / 2 % 4 = 0 ∧ x % 256 / 8 = 0 := by omega
  have hhigh : x / 8 ≠ 0 ↔ x % 256 / 8 ≠ 0 ∨ x / 256 % 2 = 1 ∨ x / 512 % 4 ≠ 0 ∨ 2048 ≤ x := by
    omega
  have hlt : x < 2048 ↔ ¬ 2048 ≤ x := by omega
  rw [hlow, hhigh, hlt, SurvivesMasks]
  rcases Nat.mod_two_eq_zero_or_one (x / 256) with hd | hd
  · rcases Nat.mod_two_eq_zero_or_one x with ha | ha
    · rw [hd, ha]
      by_cases hc : x % 256 / 8 = 0
      · by_cases hf : 2048 ≤ x
        · simp only [hc, hf]
          simp
        · simp only [hc, hf]
          simp [not_iff_not]
      · exact iff_of_true ⟨rfl, Or.inr (Or.inl hc)⟩
          ⟨Iff.rfl, iff_of_true (fun h => hc h.1.2.2) (Or.inl hc)⟩
    · simp [hd, ha]
  · rcases Nat.mod_two_eq_zero_or_one x with ha | ha
    · simp [hd, ha]
    · simp [hd, ha]

section Recognising

variable {mem : Memory} {c h : Call} {s : Decoding} {n : ℕ} {before behind : List Call}

/-- A fragment header hands on if its masked fields are zero. -/
lemma fields_of_nested {d : Call} (hfrag : h.decoder = .ip6Frag) (hd : h.nested mem = some d) :
    mem.be16 (h.pkt + 2) % 256 = 0 ∧ mem.be16 (h.pkt + 2) < 2048 ∧
      mem.be16 (h.pkt + 2) / 256 % 2 = 0 := by
  rw [Call.nested, Option.ite_none_right_eq_some] at hd
  have hno := hd.1.2
  simp only [Call.Fragment, hfrag] at hno
  rw [Call.Ip6Fragment, not_or, not_not, and_ip6fOffMask (mem.be16_lt _), and_ip6fMoreFrag] at hno
  exact ⟨hno.1.1, hno.1.2, by omega⟩

/-- What a decoding says whose last fragment header is `h`. -/
lemma fragment_of_decode (hsplit : headers mem n c = before ++ h :: behind)
    (hfrag : h.decoder = .ip6Frag) (hlast : ∀ d ∈ behind, d.decoder ≠ .ip6Frag) :
    ((decode mem n c s).2.packet.mf, (decode mem n c s).2.packet.offset) =
      (lastIp behind).elim
        (decide (mem.be16 (h.pkt + 2) &&& ip6fMoreFrag ≠ 0), mem.be16 (h.pkt + 2) &&& ip6fOffMask)
        fun i => i.fragment mem (false, 0) := by
  rw [(decode_result n c s).1, result_fragment, hsplit, List.foldl_append, List.foldl_cons,
    foldl_fragment hlast]
  simp only [Call.fragment, hfrag]

/-- Whatever comes behind a header is called by it. -/
lemma nested_of_behind (hsplit : headers mem n c = before ++ h :: behind) {i : Call}
    (hi : i ∈ behind) : ∃ d, h.nested mem = some d := by
  cases behind with
  | nil => exact absurd hi List.not_mem_nil
  | cons d behind =>
      have hchain := @headers_isChain mem n c
      rw [hsplit] at hchain
      exact ⟨d, (List.isChain_append.mp hchain).2.1.rel⟩

/-- The last fragment header is the last header that says anything. -/
lemma recognises_last (hsplit : headers mem n c = before ++ h :: behind)
    (hfrag : h.decoder = .ip6Frag) (hlast : ∀ d ∈ behind, d.decoder ≠ .ip6Frag)
    (hcalls : ∀ d, (h, d) ∈ (decode mem n c s).2.calls → h.nested mem = some d)
    (hip : lastIp behind = none) :
    Recognises mem h (decode mem n c s).2 ↔ SurvivesMasks (mem.be16 (h.pkt + 2)) := by
  have hlt := mem.be16_lt (h.pkt + 2)
  have hfields := fragment_of_decode (s := s) hsplit hfrag hlast
  rw [hip, Option.elim_none, Prod.mk.injEq] at hfields
  obtain ⟨hmf, hoff⟩ := hfields
  have hmf' : packetFragMf (decode mem n c s).2.packet = true ↔
      mem.be16 (h.pkt + 2) / 256 % 2 = 1 := by
    rw [packetFragMf, hmf, decide_eq_true_iff, and_ip6fMoreFrag]
  have hoff' : packetFragOffset (decode mem n c s).2.packet ≠ 0 ↔
      ¬ (mem.be16 (h.pkt + 2) % 256 = 0 ∧ mem.be16 (h.pkt + 2) < 2048) := by
    rw [packetFragOffset, hoff, ne_eq, and_ip6fOffMask hlt]
  have hnested := fun d hd => fields_of_nested hfrag (hcalls d hd)
  generalize decode mem n c s = out at hmf' hoff' hnested
  constructor
  · intro hrec
    have h1 := hmf'.symm.trans hrec.mf_iff
    have h2 := hoff'.symm.trans hrec.offset_iff
    exact survivesMasks_iff.mpr ⟨h1, h2⟩
  · intro hsurvives
    obtain ⟨hbit, hlost⟩ := survivesMasks_iff.mp hsurvives
    have h1 : packetFragMf out.2.packet = true ↔ h.FragMore mem := hmf'.trans hbit
    have h2 : packetFragOffset out.2.packet ≠ 0 ↔ h.fragOffset mem ≠ 0 := hoff'.trans hlost
    refine ⟨h1, h2, ?_, fun d hd => ?_⟩
    · rw [← h1, ← h2, packetIsFragment, Bool.or_eq_true, decide_eq_true_iff]
      rfl
    · have hzero := hnested d hd
      rw [← not_ne_iff, ← h2, ← h1, hoff', hmf']
      omega

/-- An IPv4 header behind the last fragment header has the last word. -/
lemma recognises_ip {i : Call} (hsplit : headers mem n c = before ++ h :: behind)
    (hfrag : h.decoder = .ip6Frag) (hlast : ∀ d ∈ behind, d.decoder ≠ .ip6Frag)
    (hcalls : ∀ d, h.nested mem = some d → (h, d) ∈ (decode mem n c s).2.calls)
    (hip : lastIp behind = some i) :
    Recognises mem h (decode mem n c s).2 ↔
      mem.be16 (h.pkt + 2) = 0 ∧ ¬ i.IpFragment mem := by
  obtain ⟨hi, hdec⟩ := lastIp_decoder hip
  obtain ⟨d, hd⟩ := nested_of_behind hsplit hi
  have hzero := fields_of_nested hfrag hd
  have hcall := hcalls d hd
  have hfields := fragment_of_decode (s := s) hsplit hfrag hlast
  rw [hip, Option.elim_some, Prod.mk.injEq] at hfields
  simp only [Call.fragment, hdec] at hfields
  obtain ⟨hmf, hoff⟩ := hfields
  have hmf' : packetFragMf (decode mem n c s).2.packet = true ↔
      mem.be16 (i.pkt + 6) / 2 ^ 13 % 2 = 1 := by
    rw [packetFragMf, hmf, decide_eq_true_iff]
  have hoff' : packetFragOffset (decode mem n c s).2.packet ≠ 0 ↔
      mem.be16 (i.pkt + 6) % 2 ^ 13 ≠ 0 := by
    rw [packetFragOffset, hoff]
  generalize decode mem n c s = out at hmf' hoff' hcall
  constructor
  · intro hrec
    obtain ⟨hoffset, hmore⟩ := hrec.dispatched d hcall
    have h1 := hmf'.symm.trans hrec.mf_iff
    have h2 := hoff'.symm.trans hrec.offset_iff
    rw [Call.FragMore] at h1 hmore
    rw [Call.fragOffset] at h2 hoffset
    rw [Call.IpFragment]
    exact ⟨by omega, by omega⟩
  · rintro ⟨hx, hno⟩
    rw [Call.IpFragment, not_or] at hno
    have hoffset : h.fragOffset mem = 0 := by rw [Call.fragOffset, hx]
    have hmore : ¬ h.FragMore mem := by
      rw [Call.FragMore, hx]
      decide
    have h1 : packetFragMf out.2.packet = true ↔ h.FragMore mem := by
      rw [hmf']
      exact iff_of_false hno.2 hmore
    have h2 : packetFragOffset out.2.packet ≠ 0 ↔ h.fragOffset mem ≠ 0 := by
      rw [hoff']
      exact iff_of_false hno.1 (not_not.mpr hoffset)
    refine ⟨h1, h2, ?_, fun _ _ => ⟨hoffset, hmore⟩⟩
    rw [← h1, ← h2, packetIsFragment, Bool.or_eq_true, decide_eq_true_iff]
    rfl

end Recognising

/-- **When a fragment is recognised**: for every buffer and slice that
`decode_ip6` is called on, however far it gets, and the last fragment header `h`
in it, exactly if the fields of `h` survive the masks or, where an IPv4 header
is decoded behind `h`, exactly if they are zero and the last such header is no
fragment. -/
theorem recognises_iff (mem : Memory) (pkt : ℤ) (len : UInt32) (packet : Packet)
    (stats : PacketStats) {n : ℕ}
    {before behind : List Call} {h : Call}
    (hsplit : headers mem n ⟨.ip6, pkt, len.toNat⟩ = before ++ h :: behind)
    (hfrag : h.decoder = .ip6Frag) (hlast : ∀ d ∈ behind, d.decoder ≠ .ip6Frag) :
    Recognises mem h (decode mem n ⟨.ip6, pkt, len.toNat⟩ (.start packet stats)).2 ↔
      match lastIp behind with
      | none => SurvivesMasks (mem.be16 (h.pkt + 2))
      | some i => mem.be16 (h.pkt + 2) = 0 ∧ ¬ i.IpFragment mem := by
  set c : Call := ⟨.ip6, pkt, len.toNat⟩
  have hcalls : ∀ d, (h, d) ∈ (decode mem n c (.start packet stats)).2.calls ↔
      h.nested mem = some d := by
    intro d
    rw [mem_calls_iff]
    refine ⟨fun hd => ?_, fun hd => Or.inr ⟨?_, hd⟩⟩
    · rcases hd with hd | hd
      · exact absurd hd List.not_mem_nil
      · exact hd.2
    · have hmem : h ∈ headers mem n c := by
        rw [hsplit]
        exact List.mem_append_right before List.mem_cons_self
      exact (List.mem_filter.mp hmem).1
  cases hip : lastIp behind with
  | none => exact recognises_last hsplit hfrag hlast (fun d => (hcalls d).mp) hip
  | some i => exact recognises_ip hsplit hfrag hlast (fun d => (hcalls d).mpr) hip

/-- A fragment that starts at byte 1536 of a datagram, and is the last one. -/
def middleFragment : Memory :=
  Memory.ofList ([0x60, 0, 0, 0, 0, 16, 44, 64] ++ List.replicate 32 1 ++
    [17, 0, 6, 0, 0, 0, 0, 9, 0, 7, 0, 8, 0, 8, 0, 1])

/-- A fragment that starts at byte 8 of a datagram, and is the last one. -/
def secondFragment : Memory :=
  Memory.ofList ([0x60, 0, 0, 0, 0, 16, 44, 64] ++ List.replicate 32 1 ++
    [17, 0, 0, 8, 0, 0, 0, 9, 0, 7, 0, 8, 0, 8, 0, 1])

/-- It is recognised. -/
theorem second_fragment_recognised :
    Recognises secondFragment ⟨.ip6Frag, 40, 16⟩
      (decode secondFragment 3 ⟨.ip6, 0, (56 : UInt32).toNat⟩ (.start default default)).2 := by
  have hsplit : headers secondFragment 3 ⟨.ip6, 0, (56 : UInt32).toNat⟩ =
      [⟨.ip6, 0, 56⟩] ++ ⟨.ip6Frag, 40, 16⟩ :: [] := by
    decide +kernel
  refine (recognises_iff secondFragment 0 56 default default hsplit rfl
    fun d hd => absurd hd List.not_mem_nil).mpr ?_
  have hfield : secondFragment.be16 (40 + 2) = 8 := by decide +kernel
  simp only [lastIp, List.filter_nil, List.getLast?_nil, hfield, SurvivesMasks]
  norm_num

/-- **Bytes from the middle of a datagram** become a UDP header. -/
theorem middle_of_datagram :
    (decode middleFragment 3 ⟨.ip6, 0, 56⟩ (.start default default)).1 = some 0 ∧
      (decode middleFragment 3 ⟨.ip6, 0, 56⟩ (.start default default)).2.packet.layers =
        [⟨.ip6, 40, 0⟩, ⟨.ip6Frag, 8, 40⟩, ⟨.udp, 8, 48⟩] ∧
      (⟨.ip6Frag, 40, 16⟩ : Call).fragOffset middleFragment = 192 ∧
      ¬ Recognises middleFragment ⟨.ip6Frag, 40, 16⟩
        (decode middleFragment 3 ⟨.ip6, 0, 56⟩ (.start default default)).2 := by
  refine ⟨by decide +kernel, by decide +kernel, by decide +kernel, fun h => ?_⟩
  have hcall : ((⟨.ip6Frag, 40, 16⟩ : Call), (⟨.udp, 48, 8⟩ : Call)) ∈
      (decode middleFragment 3 ⟨.ip6, 0, 56⟩ (.start default default)).2.calls := by
    decide +kernel
  have hoffset := (h.dispatched _ hcall).1
  revert hoffset
  decide +kernel

end CLibrary
