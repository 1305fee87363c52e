import CLibrary.Packet.Create

/-!
`s_stats`: what a decoding counts.

* `KeepsStats`: the pieces of decoders that count nothing; everything is made of them
  but the first lines of `decode_ip` and `decode_tcp`.
* `Call.count`: what a header counts.  `body_stats`, `decode_stats`: a decoding counts
  the headers it comes to, also one that is refused.
* `Tally`: the counters behind a list of calls, as sums.
-/

namespace CLibrary

/-! ### Pieces that count nothing -/

namespace Decode

variable {α β : Type}

/-- It leaves `s_stats` alone. -/
def KeepsStats (d : Decode α) : Prop := ∀ f s, (d f s).2.stats = s.stats

namespace KeepsStats

variable {d e : Decode α} {k : α → Decode β} {a : α} {addr : ℤ} {size : ℕ} {g : Packet → Packet}

lemma run {f : Frame} {s : Decoding} {stats : PacketStats} (h : d.KeepsStats)
    (hs : s.stats = stats) : (d f s).2.stats = stats :=
  (h f s).trans hs

lemma pure : KeepsStats (Pure.pure a : Decode α) := fun _ _ => rfl

lemma outOfFuel : KeepsStats (Decode.outOfFuel : Decode α) := fun _ _ => rfl

lemma bind (hd : d.KeepsStats) (hk : ∀ a, (k a).KeepsStats) : (d >>= k).KeepsStats := by
  intro f s
  have hs := hd f s
  cases hr : d f s with
  | mk r s' =>
      rw [hr] at hs
      cases r with
      | none => rw [bind_of_none hr, ← hs]
      | some a => rw [bind_of_some hr, hk a f s', ← hs]

lemma ite {c : Prop} [Decidable c] (hd : d.KeepsStats) (he : e.KeepsStats) :
    (if c then d else e).KeepsStats := by
  split_ifs
  · exact hd
  · exact he

lemma getPacket : KeepsStats Decode.getPacket := fun _ _ => rfl

lemma modifyPacket : (Decode.modifyPacket g).KeepsStats := fun _ _ => rfl

lemma readByte : (Decode.readByte addr).KeepsStats := fun _ _ => rfl

lemma readNtohs : (Decode.readNtohs addr).KeepsStats := fun _ _ => rfl

lemma subPaysize : (Decode.subPaysize size).KeepsStats := fun _ _ => rfl

end KeepsStats

end Decode

open Decode

lemma keepsStats_optionLens (len : ℕ) (optStart : ℤ) (depth : ℕ) (expected : ℤ) :
    (optionLens len optStart depth expected).KeepsStats := by
  rw [optionLens]
  refine .ite (.ite .pure (.bind .readByte fun _ => .pure)) (.ite .pure (.ite .pure ?_))
  exact .bind .readByte fun _ => .ite .pure .pure

lemma keepsStats_optionStep (len : ℕ) (optStart : ℤ) (depth : ℕ) :
    (optionStep len optStart depth).KeepsStats := by
  rw [optionStep]
  refine .bind .readByte fun kind => .ite ?_ ?_
  · exact .ite .pure (.bind .readByte fun _ => .ite .pure .pure)
  · refine .bind .readByte fun _ => .bind (keepsStats_optionLens _ _ _ _) fun r => ?_
    rcases r with _ | ⟨jmpLen, optLen⟩
    · exact .pure
    · exact .bind .readByte fun _ => .bind .modifyPacket fun _ => .pure

lemma keepsStats_optionLoop (start : ℤ) (len fuel : ℕ) (optStart : ℤ) (depth : ℕ) :
    (optionLoop start len fuel optStart depth).KeepsStats := by
  induction fuel generalizing optStart depth with
  | zero => exact .outOfFuel
  | succ fuel ih =>
    rw [optionLoop]
    refine .ite (.bind (keepsStats_optionStep _ _ _) fun r => ?_) .pure
    rcases r with _ | jmpLen
    · exact .pure
    · exact ih _ _

lemma keepsStats_decodeTcpOptions (fuel : ℕ) (start : ℤ) (len : ℕ) :
    (decodeTcpOptions fuel start len).KeepsStats :=
  .ite .pure (keepsStats_optionLoop _ _ _ _ _)

/-! ### Headers -/

/-- What a header counts, before it is looked at and if it is too short. -/
def Call.count (c : Call) (s : PacketStats) : PacketStats :=
  match c.decoder with
  | .ip => { s with ipsPackets := uadd 32 s.ipsPackets 1, ipsBytes := uadd 32 s.ipsBytes c.len }
  | .tcp =>
      { s with
        tcpsPackets := uadd 32 s.tcpsPackets 1
        tcpsBytes := uadd 32 s.tcpsBytes c.len
        tcpsTooshort :=
          if c.len < sizeofTcphdr then uadd 32 s.tcpsTooshort 1 else s.tcpsTooshort }
  | _ => s

section Headers

variable {mem : Memory} {c d : Call} {s : Decoding}

/-- **What a decoder counts.** -/
lemma body_stats (fuel : ℕ) : (c.body fuel ⟨mem, c⟩ s).2.stats = c.count s.stats := by
  cases hc : c.decoder with
  | ip =>
    simp only [Call.body, Call.count, hc, decodeIp, readByte_bind, readNtohs_bind, subtract_bind,
      modifyStats_bind, modifyPacket_bind, run_ite, packetLayerIns_bind, addPayload_bind,
      readBytes_bind, readAddr32_bind, getPacket_bind]
    split_ifs <;> rfl
  | ip6 =>
    simp only [Call.body, Call.count, hc, decodeIp6, run_ite]
    split_ifs <;> rfl
  | ip6Rte =>
    simp only [Call.body, Call.count, hc, decodeIp6Rte, run_ite, readByte_bind, addPayload_bind,
      subPaysize_bind, packetLayerIns_bind, modifyPacket_bind]
    split_ifs <;> rfl
  | ip6Frag =>
    simp only [Call.body, Call.count, hc, decodeIp6Frag, run_ite, readByte_bind, readNtohs_bind,
      readBytes_bind, addPayload_bind, subPaysize_bind, packetLayerIns_bind, modifyPacket_bind,
      getPacket_bind]
    split_ifs <;> rfl
  | ip6Ext =>
    simp only [Call.body, Call.count, hc, decodeIp6Ext, run_ite, readByte_bind]
    split_ifs <;> rfl
  | tcp =>
    simp only [Call.body, Call.count, hc, decodeTcp, modifyStats_bind, run_ite]
    by_cases hshort : c.len < sizeofTcphdr
    · rw [if_pos hshort, if_pos hshort]
      rfl
    · rw [if_neg hshort, if_neg hshort]
      refine KeepsStats.run (.bind .readByte fun _ => .bind .modifyPacket fun _ => ?_) rfl
      refine .bind (.bind .getPacket fun _ => .pure) fun _ => .bind .modifyPacket fun _ => ?_
      refine .bind .readNtohs fun _ => .bind .readNtohs fun _ => .bind .modifyPacket fun _ => ?_
      refine .bind .modifyPacket fun _ => .bind .subPaysize fun _ => .ite ?_ .pure
      exact .bind (keepsStats_decodeTcpOptions _ _ _) fun _ => .pure
  | udp =>
    simp only [Call.body, Call.count, hc, decodeUdp, run_ite, packetLayerIns_bind,
      packetLayerCurrent_bind, modifyPacket_bind, readNtohs_bind, addPayload_bind, subPaysize_bind,
      readBytes_bind, getPacket_bind]
    split_ifs <;> rfl

/-- **A decoding counts its headers.** -/
theorem decode_stats (n : ℕ) (c : Call) (s : Decoding) : (decode mem n c s).2.stats =
    (chain (Call.nested mem) n c).foldl (fun stats h => h.count stats) s.stats := by
  induction n generalizing c s with
  | zero => rfl
  | succ n ih =>
    have hbody := @body_stats mem c s n
    cases hnext : c.nested mem with
    | none =>
      rw [(decode_of_last hnext n).1, chain_succ_none hnext, hbody]
      rfl
    | some d =>
      obtain ⟨hacc, hdec⟩ := accepts_of_nested hnext
      obtain ⟨s', hcall, -⟩ := body_accepted (s := s) hacc hdec
      rw [hnext, Option.elim_some] at hcall
      rw [hcall n] at hbody
      have hdecode : decode mem (n + 1) c s =
          decode mem n d { s' with calls := s'.calls ++ [(c, d)] } := by
        rw [decode, hcall n]
      rw [hdecode, chain_succ_some hnext, List.foldl_cons, ih, ← hbody]

end Headers

/-! ### Sums -/

namespace Call

/-- A header of a decoder. -/
def packets (decoder : Decoder) (c : Call) : ℕ := if c.decoder = decoder then 1 else 0

/-- The bytes of such a header and of what is behind it. -/
def bytes (decoder : Decoder) (c : Call) : ℕ := if c.decoder = decoder then c.len else 0

/-- A TCP header that is too short. -/
def tooshort (c : Call) : ℕ := if c.decoder = .tcp ∧ c.len < sizeofTcphdr then 1 else 0

end Call

/-- The counters are `uint32_t`. -/
structure PacketStats.Fits (s : PacketStats) : Prop where
  ipsPackets : s.ipsPackets < 2 ^ 32
  ipsBytes : s.ipsBytes < 2 ^ 32
  tcpsPackets : s.tcpsPackets < 2 ^ 32
  tcpsBytes : s.tcpsBytes < 2 ^ 32
  tcpsTooshort : s.tcpsTooshort < 2 ^ 32

/-- The counters behind the calls `l`, as they wrap. -/
structure Tally (l : List Call) (s s' : PacketStats) : Prop where
  ipsPackets : s'.ipsPackets = (s.ipsPackets + (l.map (Call.packets .ip)).sum) % 2 ^ 32
  ipsBytes : s'.ipsBytes = (s.ipsBytes + (l.map (Call.bytes .ip)).sum) % 2 ^ 32
  tcpsPackets : s'.tcpsPackets = (s.tcpsPackets + (l.map (Call.packets .tcp)).sum) % 2 ^ 32
  tcpsBytes : s'.tcpsBytes = (s.tcpsBytes + (l.map (Call.bytes .tcp)).sum) % 2 ^ 32
  tcpsTooshort : s'.tcpsTooshort = (s.tcpsTooshort + (l.map Call.tooshort).sum) % 2 ^ 32

section Sums

variable {s s' s'' : PacketStats} {l l' : List Call}

lemma Tally.fits (h : Tally l s s') : s'.Fits :=
  ⟨h.ipsPackets ▸ Nat.mod_lt _ (by positivity), h.ipsBytes ▸ Nat.mod_lt _ (by positivity),
    h.tcpsPackets ▸ Nat.mod_lt _ (by positivity), h.tcpsBytes ▸ Nat.mod_lt _ (by positivity),
    h.tcpsTooshort ▸ Nat.mod_lt _ (by positivity)⟩

lemma Tally.nil (h : s.Fits) : Tally [] s s :=
  ⟨(Nat.mod_eq_of_lt h.ipsPackets).symm, (Nat.mod_eq_of_lt h.ipsBytes).symm,
    (Nat.mod_eq_of_lt h.tcpsPackets).symm, (Nat.mod_eq_of_lt h.tcpsBytes).symm,
    (Nat.mod_eq_of_lt h.tcpsTooshort).symm⟩

/-- Sums add up. -/
lemma Tally.append (h : Tally l s s') (h' : Tally l' s' s'') : Tally (l ++ l') s s'' := by
  have hsum : ∀ (weight : Call → ℕ) {x y z : ℕ}, y = (x + (l.map weight).sum) % 2 ^ 32 →
      z = (y + (l'.map weight).sum) % 2 ^ 32 →
      z = (x + ((l ++ l').map weight).sum) % 2 ^ 32 := by
    intro weight x y z hy hz
    rw [hz, hy, Nat.mod_add_mod, List.map_append, List.sum_append, Nat.add_assoc]
  exact ⟨hsum _ h.ipsPackets h'.ipsPackets, hsum _ h.ipsBytes h'.ipsBytes,
    hsum _ h.tcpsPackets h'.tcpsPackets, hsum _ h.tcpsBytes h'.tcpsBytes,
    hsum _ h.tcpsTooshort h'.tcpsTooshort⟩

/-- A call is counted by its decoder. -/
lemma tally_single (h : s.Fits) (c : Call) : Tally [c] s (c.count s) := by
  have hnil := Tally.nil h
  cases hc : c.decoder with
  | ip =>
    simp only [Call.count, hc]
    constructor <;> simp only [List.map_singleton, List.sum_singleton, Call.packets, Call.bytes,
      Call.tooshort, hc, reduceCtorEq, false_and, if_false, if_true]
    · rfl
    · rfl
    · exact hnil.tcpsPackets
    · exact hnil.tcpsBytes
    · exact hnil.tcpsTooshort
  | tcp =>
    simp only [Call.count, hc]
    constructor <;> simp only [List.map_singleton, List.sum_singleton, Call.packets, Call.bytes,
      Call.tooshort, hc, reduceCtorEq, true_and, if_false, if_true]
    · exact hnil.ipsPackets
    · exact hnil.ipsBytes
    · rfl
    · rfl
    · split_ifs
      · rfl
      · exact hnil.tcpsTooshort
  | ip6 | ip6Rte | ip6Frag | ip6Ext | udp =>
    simp only [Call.count, hc]
    constructor <;> simp only [List.map_singleton, List.sum_singleton, Call.packets, Call.bytes,
      Call.tooshort, hc, reduceCtorEq, false_and, if_false]
    · exact hnil.ipsPackets
    · exact hnil.ipsBytes
    · exact hnil.tcpsPackets
    · exact hnil.tcpsBytes
    · exact hnil.tcpsTooshort

/-- **Calls are counted**, one after the other. -/
lemma tally_foldl (l : List Call) (h : s.Fits) :
    Tally l s (l.foldl (fun s c => c.count s) s) := by
  induction l generalizing s with
  | nil => exact .nil h
  | cons c l ih =>
    have hc := tally_single h c
    exact hc.append (ih hc.fits)

end Sums

end CLibrary
