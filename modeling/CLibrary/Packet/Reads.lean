import CLibrary.Packet.Calls

/-!
The bytes decoders read.

* `ReadsInside`: whatever is read in a call is in the slice of that call.
* `Call.Reads`: the accesses of a decoder, a function of the bytes.
  `inside_iff_chain` leads from a decoding to those of its headers.
* `Call.ReadsSafely`: what a header needs for its decoder to stay in the slice;
  `reads_inside_iff` is the exact condition.
* `decode_ip_reads_outside`: `decode_ip` reads `ip_len` of a slice of one byte.
-/

namespace CLibrary

open Decode

/-- Every byte read is in the slice of the call that reads it. -/
def ReadsInside (mem : Memory) (c : Call) (packet : Packet) (stats : PacketStats) : Prop :=
  ∀ n, ∀ r ∈ (decode mem n c (.start packet stats)).2.reads, r.Inside

namespace Call

variable (mem : Memory) (c : Call)

/-- The accesses of a decoder that has `fuel` for its options. -/
def Reads (fuel : ℕ) (r : Access) : Prop :=
  if c.Accepts mem then
    r ∈ c.reads mem ∨ c.decoder = .tcp ∧ c.LoopsOptions mem ∧
      ∃ q ∈ chain (c.optNext mem) fuel 0, q < c.tcpOptlen mem ∧
        (r = ⟨c, c.optStart mem + q, 1⟩ ∨
          2 ≤ mem.byte (c.optStart mem + q) ∧ r = ⟨c, c.optStart mem + q + 1, 1⟩)
  else r ∈ c.refusedReads

/-- What `decode_ip` reads before and behind its tests, the address behind a
routing header, and the options at every position are in the slice. -/
def ReadsSafely : Prop :=
  match c.decoder with
  | .ip => 4 ≤ c.len ∧ (c.IpAccepted mem → 20 ≤ c.len)
  | .ip6Rte => c.Accepts mem → 0 < mem.byte (c.pkt + 3) → 1 ≤ mem.byte (c.pkt + 1)
  | .tcp =>
      c.LoopsOptions mem → ∀ n, ∀ pos ∈ chain (c.optNext mem) n 0, pos < c.tcpOptlen mem →
        sizeofTcphdr + pos < c.len ∧
          (2 ≤ mem.byte (c.pkt + sizeofTcphdr + pos) → sizeofTcphdr + pos + 1 < c.len)
  | .ip6 | .ip6Frag | .ip6Ext | .udp => True

end Call

/-! ### From a decoding to its headers -/

section Chain

variable {mem : Memory} {c d : Call} {s : Decoding}

/-- The accesses of the last header. -/
lemma mem_last_reads (h : c.nested mem = none) (n : ℕ) {r : Access} :
    r ∈ (decode mem (n + 1) c s).2.reads ↔ r ∈ s.reads ∨ c.Reads mem n r := by
  rw [(decode_of_last h n).1, Call.Reads]
  by_cases hacc : c.Accepts mem
  · rw [if_pos hacc]
    by_cases hdec : c.decoder = .tcp
    · obtain ⟨l, -, -, heff, hmem⟩ := body_tcp (s := s) hacc hdec n
      rw [heff.reads, List.mem_append, List.mem_append, hmem]
      simp only [hdec, true_and]
    · obtain ⟨s', hbody, heff⟩ := body_accepted (s := s) hacc hdec
      rw [hbody, heff.reads, List.mem_append]
      simp only [hdec, false_and, or_false]
  · rw [if_neg hacc]
    obtain ⟨m, s', hbody, heff⟩ := body_refused (s := s) hacc
    rw [hbody, heff.reads, List.mem_append]

/-- A header another one follows reads as much with any fuel. -/
lemma reads_of_nested (h : c.nested mem = some d) (fuel : ℕ) {r : Access} :
    c.Reads mem fuel r ↔ r ∈ c.reads mem := by
  obtain ⟨hacc, hdec⟩ := accepts_of_nested h
  rw [Call.Reads, if_pos hacc]
  simp only [hdec, false_and, or_false]

/-- **A decoding stays in its slices** if and only if the decoders of all its
headers do. -/
lemma inside_iff_chain : (∀ n, ∀ r ∈ (decode mem n c s).2.reads, r.Inside) ↔
    (∀ r ∈ s.reads, r.Inside) ∧ ∀ n, ∀ h ∈ chain (Call.nested mem) n c, ∀ fuel r,
      h.Reads mem fuel r → r.Inside := by
  constructor
  · intro h
    refine ⟨fun r hr => h 0 r hr, fun n => ?_⟩
    induction n generalizing c s with
    | zero => exact fun t ht => (List.not_mem_nil ht).elim
    | succ n ih =>
        cases hnext : c.nested mem with
        | none =>
            intro t ht fuel r hr
            rw [chain_succ_none hnext, List.mem_singleton] at ht
            subst ht
            exact h (fuel + 1) r ((mem_last_reads hnext fuel).mpr (Or.inr hr))
        | some d =>
            obtain ⟨s', heff, heq⟩ := decode_of_nested (s := s) hnext
            have hlater : ∀ k, ∀ r ∈
                (decode mem k d { s' with calls := s.calls ++ [(c, d)] }).2.reads, r.Inside := by
              intro k r hr
              refine h (k + 1) r ?_
              rwa [heq]
            intro t ht
            rw [chain_succ_some hnext] at ht
            rcases List.mem_cons.mp ht with rfl | ht
            · intro fuel r hr
              refine hlater 0 r ?_
              change r ∈ s'.reads
              rw [heff.reads]
              exact List.mem_append_right _ ((reads_of_nested hnext fuel).mp hr)
            · exact ih hlater t ht
  · rintro ⟨hs, hchain⟩ n
    induction n generalizing c s with
    | zero => exact hs
    | succ n ih =>
        intro r hr
        cases hnext : c.nested mem with
        | none =>
            rcases (mem_last_reads hnext n).mp hr with hr | hr
            · exact hs r hr
            · exact forall_chain_head hchain n r hr
        | some d =>
            obtain ⟨s', heff, heq⟩ := decode_of_nested (s := s) hnext
            rw [heq] at hr
            refine ih (s := { s' with calls := s.calls ++ [(c, d)] }) ?_
              (forall_chain_next hnext hchain) r hr
            intro r' hr'
            change r' ∈ s'.reads at hr'
            rw [heff.reads] at hr'
            rcases List.mem_append.mp hr' with hr' | hr'
            · exact hs r' hr'
            · exact forall_chain_head hchain 0 r' ((reads_of_nested hnext 0).mpr hr')

end Chain

/-! ### The accesses of a header -/

section Header

variable {mem : Memory} {c : Call}

lemma inside_iff {addr : ℤ} {size : ℕ} (h : 0 < size) :
    (⟨c, addr, size⟩ : Access).Inside ↔ c.pkt ≤ addr ∧ addr + size ≤ c.pkt + c.len := by
  constructor
  · intro hin
    have h0 := hin 0 h
    have h1 := hin (size - 1) (Nat.sub_lt h Nat.one_pos)
    dsimp only at h0 h1
    omega
  · rintro hin i hi
    dsimp only at hi ⊢
    omega

/-- The options of a TCP header start behind its 20 bytes. -/
lemma optStart_eq (h : c.LoopsOptions mem) : c.optStart mem = c.pkt + sizeofTcphdr := by
  obtain ⟨-, hne, hle⟩ := h
  have hlt := mem.byte_lt (c.pkt + 12)
  have hhlen : c.tcpHlen mem < 64 := by
    rw [Call.tcpHlen]
    omega
  have hsize : sizeofTcphdr = 20 := rfl
  have hmax : maxTcpoptlen = 32 := rfl
  by_cases hge : sizeofTcphdr ≤ c.tcpHlen mem
  · have hopt : c.tcpOptlen mem = c.tcpHlen mem - sizeofTcphdr := by
      rw [Call.tcpOptlen, usub_of_le hge (by omega)]
      exact Nat.mod_eq_of_lt (by omega)
    rw [Call.optStart, hopt]
    omega
  · -- a length below 20 wraps to more options than fit
    have hopt : c.tcpOptlen mem = (c.tcpHlen mem + 2 ^ 32 - sizeofTcphdr) % 2 ^ 16 := by
      rw [Call.tcpOptlen, usub_of_gt (Nat.not_le.mp hge) (by omega)]
    omega

/-- The options of a TCP header are read in the slice. -/
lemma options_inside_iff (h : c.LoopsOptions mem) {pos : ℕ} :
    (∀ r : Access, (r = ⟨c, c.optStart mem + pos, 1⟩ ∨ 2 ≤ mem.byte (c.optStart mem + pos) ∧
        r = ⟨c, c.optStart mem + pos + 1, 1⟩) → r.Inside) ↔
      sizeofTcphdr + pos < c.len ∧
        (2 ≤ mem.byte (c.pkt + sizeofTcphdr + pos) → sizeofTcphdr + pos + 1 < c.len) := by
  rw [optStart_eq h]
  constructor
  · intro hr
    have h1 := (inside_iff Nat.one_pos).mp (hr _ (Or.inl rfl))
    refine ⟨by omega, fun hk => ?_⟩
    have h2 := (inside_iff Nat.one_pos).mp (hr _ (Or.inr ⟨hk, rfl⟩))
    omega
  · rintro ⟨h1, h2⟩ r (rfl | ⟨hk, rfl⟩)
    · rw [inside_iff Nat.one_pos]
      omega
    · have := h2 hk
      rw [inside_iff Nat.one_pos]
      omega

/-- The accesses of a header that is refused. -/
lemma refused_inside_iff :
    (∀ r ∈ c.refusedReads, r.Inside) ↔ (c.decoder = .ip → 4 ≤ c.len) := by
  have hrte : sizeofIp6Rte = 8 := rfl
  have hext : sizeofIp6Ext = 2 := rfl
  cases hc : c.decoder with
  | ip =>
      simp (disch := decide) only [Call.refusedReads, hc, List.forall_mem_cons, inside_iff]
      simp
      omega
  | ip6Rte =>
      simp only [Call.refusedReads, hc]
      split_ifs with hlen
      · simp (disch := decide) only [List.forall_mem_singleton, inside_iff]
        simp
        omega
      · simp
  | ip6Ext =>
      simp only [Call.refusedReads, hc]
      split_ifs with hlen
      · simp (disch := decide) only [List.forall_mem_singleton, inside_iff]
        simp
        omega
      · simp
  | _ => simp [Call.refusedReads, hc]

/-- The accesses of a header that is accepted, options apart. -/
lemma accepted_inside_iff (h : c.Accepts mem) :
    (∀ r ∈ c.reads mem, r.Inside) ↔ (c.decoder = .ip → 20 ≤ c.len) ∧
      (c.decoder = .ip6Rte → 0 < mem.byte (c.pkt + 3) → 1 ≤ mem.byte (c.pkt + 1)) := by
  have hhdr : sizeofIp6Hdr = 40 := rfl
  have hrte : sizeofIp6Rte = 8 := rfl
  have hfrag : sizeofIp6Frag = 8 := rfl
  have hext : sizeofIp6Ext = 2 := rfl
  have htcp : sizeofTcphdr = 20 := rfl
  have hudp : sizeofUdphdr = 8 := rfl
  cases hc : c.decoder with
  | ip =>
      simp (disch := decide) only [Call.reads, hc, List.forall_mem_cons, inside_iff]
      simp
      omega
  | ip6Rte =>
      simp only [Call.Accepts, Call.extLen, hc] at h
      simp (disch := decide) only [Call.reads, Call.extLen, hc, List.forall_mem_append,
        List.forall_mem_cons, inside_iff]
      split_ifs with hseg
      · simp (disch := decide) only [List.forall_mem_singleton, inside_iff]
        simp
        omega
      · simp
        omega
  | ip6 | ip6Frag | ip6Ext | tcp | udp =>
      simp only [Call.Accepts, hc] at h
      simp (disch := decide) only [Call.reads, hc, List.forall_mem_cons, inside_iff]
      simp
      omega

/-- **The accesses of a header** are in its slice exactly if it `ReadsSafely`. -/
lemma readsSafely_iff : (∀ fuel r, c.Reads mem fuel r → r.Inside) ↔ c.ReadsSafely mem := by
  by_cases hacc : c.Accepts mem
  · have hsplit : (∀ fuel r, c.Reads mem fuel r → r.Inside) ↔ (∀ r ∈ c.reads mem, r.Inside) ∧
        (c.decoder = .tcp → c.LoopsOptions mem → ∀ n, ∀ q ∈ chain (c.optNext mem) n 0,
          q < c.tcpOptlen mem → ∀ r : Access, (r = ⟨c, c.optStart mem + q, 1⟩ ∨
            2 ≤ mem.byte (c.optStart mem + q) ∧ r = ⟨c, c.optStart mem + q + 1, 1⟩) →
            r.Inside) := by
      simp only [Call.Reads, if_pos hacc]
      constructor
      · intro h
        exact ⟨fun r hr => h 0 r (Or.inl hr), fun hdec hloop n q hq hlt r hr =>
          h n r (Or.inr ⟨hdec, hloop, q, hq, hlt, hr⟩)⟩
      · rintro ⟨hhead, hopts⟩ n r (hr | ⟨hdec, hloop, q, hq, hlt, hr⟩)
        · exact hhead r hr
        · exact hopts hdec hloop n q hq hlt r hr
    rw [hsplit, accepted_inside_iff hacc, Call.ReadsSafely]
    cases hc : c.decoder with
    | ip =>
        simp only [Call.Accepts, hc] at hacc
        simp [hacc]
        omega
    | ip6Rte => simp [hacc]
    | tcp =>
        simp only [reduceCtorEq, false_imp_iff, true_imp_iff, true_and, and_self]
        refine forall_congr' fun hloop => forall_congr' fun n => forall₂_congr fun q _ => ?_
        exact forall_congr' fun _ => options_inside_iff hloop
    | _ => simp
  · have hrefused : (∀ fuel r, c.Reads mem fuel r → r.Inside) ↔ ∀ r ∈ c.refusedReads, r.Inside := by
      simp only [Call.Reads, if_neg hacc]
      exact ⟨fun h => h 0, fun h _ => h⟩
    rw [hrefused, refused_inside_iff, Call.ReadsSafely]
    cases hc : c.decoder with
    | ip =>
        simp only [Call.Accepts, hc] at hacc
        simp [hacc]
    | ip6Rte => simp [hacc]
    | tcp =>
        simp only [Call.Accepts, hc] at hacc
        simp only [reduceCtorEq, false_imp_iff, true_iff]
        exact fun hloop => absurd hloop.1 hacc
    | _ => simp

end Header

/-- **When decoders read inside their slices**: for every buffer, slice and
packet, exactly if every header of the chain `ReadsSafely`. -/
theorem reads_inside_iff (mem : Memory) (c : Call) (packet : Packet) (stats : PacketStats) :
    ReadsInside mem c packet stats ↔
      ∀ n, ∀ h ∈ chain (Call.nested mem) n c, h.ReadsSafely mem := by
  rw [ReadsInside, inside_iff_chain]
  constructor
  · rintro ⟨-, h⟩ n t ht
    exact readsSafely_iff.mp (h n t ht)
  · intro h
    exact ⟨fun r hr => (List.not_mem_nil hr).elim, fun n t ht => readsSafely_iff.mpr (h n t ht)⟩

/-- **A read outside**: `decode_ip` on a slice of one byte. -/
theorem decode_ip_reads_outside :
    ¬ ReadsInside (Memory.ofList [0x45]) ⟨.ip, 0, 1⟩ default default := by
  intro h
  have hmem : (⟨⟨.ip, 0, 1⟩, 2, 2⟩ : Access) ∈
      (decode (Memory.ofList [0x45]) 1 ⟨.ip, 0, 1⟩ (.start default default)).2.reads := by
    decide +kernel
  have := h 1 _ hmem 0 (by decide)
  simp at this

end CLibrary
