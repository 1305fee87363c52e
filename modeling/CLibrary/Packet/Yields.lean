import CLibrary.Packet.Layers

/-!
What a decoding yields.

* `Finishes`: decoding returns, a function of the bytes.  `decode_finishes_iff`
  is what makes it that of a decoding.
* `View`: what can be told of a packet from outside.
* `Yields`: decoding returns a value and shows a view.  `yields_nested_iff` and
  `yields_last_iff` take the first header off.
* `finishes_iff`: decoding returns if and only if no header calls itself and no
  options get stuck.
* `result_foldl`: the last header works on what the ones before it have filled.
* `accepts_of_zero`, `headers_of_zero`: where decoding returns 0 every header is
  accepted, and there is a last one.
-/

namespace CLibrary

open Decode

/-! ### Returning -/

/-- Decoding from `c` on returns. -/
def Finishes (mem : Memory) : ℕ → Call → Prop
  | 0, _ => False
  | n + 1, c =>
      match c.nested mem with
      | none => c.decoder = .tcp → c.LoopsOptions mem → Stops (c.optNext mem) n 0
      | some d => Finishes mem n d

section Returning

variable {mem : Memory} {c d : Call} {s : Decoding} {n : ℕ}

lemma finishes_of_nested (h : c.nested mem = some d) :
    Finishes mem (n + 1) c ↔ Finishes mem n d := by
  rw [Finishes, h]

lemma finishes_of_last (h : c.nested mem = none) : Finishes mem (n + 1) c ↔
    (c.decoder = .tcp → c.LoopsOptions mem → Stops (c.optNext mem) n 0) := by
  rw [Finishes, h]

/-- **When a decoding returns**, whatever it works on. -/
lemma decode_finishes_iff (n : ℕ) (c : Call) (s : Decoding) :
    (decode mem n c s).1 ≠ none ↔ Finishes mem n c := by
  induction n generalizing c s with
  | zero => exact iff_of_false (not_not.mpr rfl) id
  | succ n ih =>
      cases hnext : c.nested mem with
      | none => rw [(decode_of_last hnext n).2.2, finishes_of_last hnext]
      | some d =>
          obtain ⟨s', -, heq⟩ := decode_fill (s := s) hnext
          rw [heq, ih, finishes_of_nested hnext]

/-- A header of no length that calls its own decoder calls itself. -/
lemma nested_eq_self (h : c.nested mem = some d) (hlen : c.len < 2 ^ 32) (hzero : c.size mem = 0)
    (hdec : d.decoder = c.decoder) : d = c := by
  have hpkt := nested_pkt h
  have hdlen := nested_len h hlen
  rw [hzero, Nat.cast_zero, add_zero] at hpkt
  rw [hzero, Nat.sub_zero] at hdlen
  rw [Call.mk.injEq]
  exact ⟨hdec, hpkt, hdlen⟩

/-- A header that calls itself is called again and again. -/
lemma not_finishes_of_self (h : c.nested mem = some c) : ¬ Finishes mem n c := by
  induction n with
  | zero => exact id
  | succ n ih => rwa [finishes_of_nested h]

/-- **Decoding returns** if no header calls itself and no options are stuck. -/
lemma finishes_iff (hlen : c.len < 2 ^ 32) : (∃ n, Finishes mem n c) ↔
    ∀ n, ∀ h ∈ chain (Call.nested mem) n c, h.nested mem ≠ some h ∧ ¬ h.Stuck mem := by
  have hreturns := @returns_iff mem c (.start default default)
  simp only [decode_finishes_iff] at hreturns
  rw [hreturns]
  constructor
  · rintro ⟨⟨m, hstop⟩, hopts⟩ n h hmem
    refine ⟨(hstop.of_mem_chain hmem).ne_self, ?_⟩
    rintro ⟨hdec, hloop, k, pos, hpos, hlt, hzero⟩
    exact optStops_iff.mp (hopts n h hmem hdec hloop) k pos hpos hlt hzero
  · intro hcond
    refine ⟨⟨_, stops_of_decreasing (μ := fun h : Call =>
      2 * h.len + if h.decoder = .ip then 1 else 0) fun n h hmem d hd => ?_⟩,
      fun n h hmem hdec hloop => ?_⟩
    · -- a header of no length calls another decoder
      have hdlen := nested_len hd (chain_len_lt hlen n h hmem)
      obtain ⟨hacc, hdec⟩ := accepts_of_nested hd
      have hle := size_le hacc hdec
      by_cases hzero : h.size mem = 0
      · have hip := ((size_eq_zero_iff hdec).mp hzero).1
        have hdip : d.decoder ≠ .ip := by
          intro hdip
          have hself := nested_eq_self hd (chain_len_lt hlen n h hmem) hzero (hdip.trans hip.symm)
          exact (hcond n h hmem).1 (hself ▸ hd)
        simp only [hip, hdip, if_true, if_false]
        omega
      · split_ifs <;> omega
    · refine optStops_iff.mpr fun m pos hpos hlt hzero => ?_
      exact (hcond n h hmem).2 ⟨hdec, hloop, m, pos, hpos, hlt, hzero⟩

/-- **The last header** works on the packet that the ones before it have filled. -/
lemma result_foldl {before : List Call} (hheaders : headers mem n c = before ++ [d])
    (hlast : d.nested mem = none) (p : Packet) :
    ∃ k, result mem n c p = (d.value mem (before.foldl (fun p h => h.fill mem p) p),
      d.finish mem k (before.foldl (fun p h => h.fill mem p) p)) := by
  induction n generalizing c p before with
  | zero =>
      exact absurd hheaders.symm (List.append_ne_nil_of_right_ne_nil _ (List.cons_ne_nil d []))
  | succ n ih =>
      cases hnext : c.nested mem with
      | none =>
          rw [headers_of_last hnext] at hheaders
          split_ifs at hheaders
          · rw [List.singleton_eq_append_iff] at hheaders
            obtain ⟨rfl, heq⟩ | ⟨-, heq⟩ := hheaders
            · obtain rfl := List.singleton_inj.mp heq
              exact ⟨n, result_of_last hnext p⟩
            · cases heq
          · exact absurd hheaders.symm
              (List.append_ne_nil_of_right_ne_nil _ (List.cons_ne_nil d []))
      | some e =>
          rw [headers_of_nested hnext] at hheaders
          rw [result_of_nested hnext]
          cases before with
          | nil =>
              rw [List.nil_append, List.cons_eq_cons] at hheaders
              rw [hheaders.1, hlast] at hnext
              cases hnext
          | cons h before =>
              rw [List.cons_append, List.cons_eq_cons] at hheaders
              rw [List.foldl_cons, ← hheaders.1]
              exact ih hheaders.2 _

/-- **Where decoding returns 0** every header is accepted. -/
lemma accepts_of_zero (hret : (decode mem n c s).1 = some 0) (m : ℕ) :
    ∀ h ∈ chain (Call.nested mem) m c, h.Accepts mem := by
  have hfin := (decode_finishes_iff n c s).mp (hret ▸ Option.some_ne_none 0)
  have hzero := ((decode_result n c s).2 0 hret).symm
  generalize s.packet = p at hzero
  clear hret
  induction n generalizing c p m with
  | zero => exact hfin.elim
  | succ n ih =>
      cases m with
      | zero => exact fun h hh => (List.not_mem_nil hh).elim
      | succ m =>
          intro h hh
          cases hnext : c.nested mem with
          | none =>
              rw [result_of_last hnext] at hzero
              rw [chain_succ_none hnext, List.mem_singleton] at hh
              by_contra hacc
              rw [hh] at hacc
              rw [Call.value, if_pos hacc] at hzero
              exact absurd hzero (by norm_num)
          | some e =>
              rw [finishes_of_nested hnext] at hfin
              rw [result_of_nested hnext] at hzero
              rw [chain_succ_some hnext] at hh
              rcases List.mem_cons.mp hh with rfl | hh
              · exact (accepts_of_nested hnext).1
              · exact ih m hfin _ hzero h hh

/-- There is a last one among them. -/
lemma headers_of_zero (hret : (decode mem n c s).1 = some 0) :
    headers mem n c = chain (Call.nested mem) n c ∧
      ∃ before d, headers mem n c = before ++ [d] ∧ d.nested mem = none ∧ d.Accepts mem := by
  have hacc := accepts_of_zero hret
  have hheaders : ∀ m, headers mem m c = chain (Call.nested mem) m c := fun m =>
    List.filter_eq_self.mpr fun h hh => decide_eq_true (hacc m h hh)
  refine ⟨hheaders n, ?_⟩
  have hfin := (decode_finishes_iff n c s).mp (hret ▸ Option.some_ne_none 0)
  rw [hheaders]
  replace hacc := hacc n
  clear hret hheaders
  induction n generalizing c with
  | zero => exact hfin.elim
  | succ n ih =>
      cases hnext : c.nested mem with
      | none =>
          rw [chain_succ_none hnext] at hacc ⊢
          exact ⟨[], c, rfl, hnext, hacc c (List.mem_singleton_self c)⟩
      | some e =>
          rw [finishes_of_nested hnext] at hfin
          rw [chain_succ_some hnext] at hacc ⊢
          obtain ⟨before, d, heq, hlast⟩ := ih hfin fun h hh => hacc h (List.mem_cons_of_mem c hh)
          exact ⟨c :: before, d, by rw [heq, List.cons_append], hlast⟩

end Returning

/-! ### Views -/

/-- The TCP options recorded. -/
def Packet.tcpOptions (p : Packet) : List TcpOption := (List.range p.tcpoptCount).map p.tcpOption

/-- Options that are recorded are to be seen. -/
lemma tcpOptions_addOptions {p : Packet} (l : List TcpOption)
    (h : p.tcpoptCount + l.length < 2 ^ 32) :
    (l.foldl Packet.addOption p).tcpOptions = p.tcpOptions ++ l := by
  induction l generalizing p with
  | nil => exact (List.append_nil _).symm
  | cons option l ih =>
      rw [List.length_cons] at h
      have hcount : uadd 32 p.tcpoptCount 1 = p.tcpoptCount + 1 := uadd_of_lt (by omega)
      have hadd : (p.addOption option).tcpOptions = p.tcpOptions ++ [option] := by
        simp only [Packet.tcpOptions, Packet.addOption, hcount, List.range_succ, List.map_append,
          List.map_singleton, Function.update_self]
        rw [List.map_congr_left fun i hi => Function.update_of_ne (List.mem_range.mp hi).ne _ _]
      have hcount' : (p.addOption option).tcpoptCount = p.tcpoptCount + 1 := hcount
      rw [List.foldl_cons, ih (by omega), hadd, List.append_assoc, List.singleton_append]

/-- Options come from where they were recorded. -/
lemma mem_tcpOptions_addOptions {p : Packet} {o : TcpOption} (l : List TcpOption)
    (h : o ∈ (l.foldl Packet.addOption p).tcpOptions) : o ∈ p.tcpOptions ∨ o ∈ l := by
  induction l generalizing p with
  | nil => exact Or.inl h
  | cons option l ih =>
      rcases ih h with hadd | hl
      · obtain ⟨i, hi, rfl⟩ := List.mem_map.mp hadd
        have hle : i < p.tcpoptCount + 1 := (List.mem_range.mp hi).trans_le (Nat.mod_le _ _)
        by_cases heq : i = p.tcpoptCount
        · rw [heq]
          exact Or.inr (List.mem_cons.mpr (Or.inl (Function.update_self ..)))
        · refine Or.inl (List.mem_map.mpr ⟨i, List.mem_range.mpr (by omega), ?_⟩)
          exact (Function.update_of_ne heq _ _).symm
      · exact Or.inr (List.mem_cons_of_mem option hl)

/-- Only a TCP header touches the options, and not with its fields. -/
lemma tcpoptCount_fill (mem : Memory) (h : Call) (p : Packet) :
    (h.fill mem p).tcpoptCount = p.tcpoptCount := by
  cases hc : h.decoder <;> simp only [Call.fill, Call.fields, Packet.layerIns, hc]

lemma tcpOptions_fill (mem : Memory) (h : Call) (p : Packet) :
    (h.fill mem p).tcpOptions = p.tcpOptions := by
  cases hc : h.decoder <;>
    simp only [Packet.tcpOptions, Call.fill, Call.fields, Packet.layerIns, hc]

lemma tcpOptions_refuse (h : Call) (p : Packet) : (h.refuse p).tcpOptions = p.tcpOptions := by
  rw [Call.refuse]
  split_ifs <;> rfl

/-- The version, addresses, ports, layers, TCP options and `paysize` of a
packet, the options with the bytes of their values. -/
structure View where
  version : ℕ
  srcaddr : IpAddr
  dstaddr : IpAddr
  srcport : ℕ
  dstport : ℕ
  layers : List Protocol
  options : List (ℕ × ℕ × List UInt8)
  paysize : ℕ

/-- What is to be seen of a packet, whose options point into `mem`. -/
def Packet.view (mem : Memory) (p : Packet) : View where
  version := p.version
  srcaddr := p.srcaddr
  dstaddr := p.dstaddr
  srcport := p.srcport
  dstport := p.dstport
  layers := p.layers
  options := p.tcpOptions.map (TcpOption.seen mem)
  paysize := p.paysize

/-- The same is to be seen of a packet whose options show the same. -/
lemma view_same {mem mem' : Memory} {p : Packet}
    (h : ∀ o ∈ p.tcpOptions, o.seen mem' = o.seen mem) : p.view mem' = p.view mem := by
  rw [Packet.view, Packet.view, List.map_congr_left h]

/-- Decoding from `c` on into `p` returns `r` and shows `v`. -/
def Yields (mem : Memory) (c : Call) (p : Packet) (r : ℤ) (v : View) : Prop :=
  ∃ n, Finishes mem n c ∧ (result mem n c p).1 = r ∧ (result mem n c p).2.view mem = v

section Views

variable {mem : Memory} {c d : Call} {p : Packet} {r : ℤ} {v : View}

/-- What a decoding yields is what it returns and leaves behind. -/
lemma yields_iff_decode (stats : PacketStats) : Yields mem c p r v ↔
    ∃ n, (decode mem n c (.start p stats)).1 = some r ∧
      (decode mem n c (.start p stats)).2.packet.view mem = v := by
  refine exists_congr fun n => ?_
  obtain ⟨hpacket, hvalue⟩ := @decode_result mem n c (.start p stats)
  rw [← decode_finishes_iff n c (.start p stats), hpacket]
  constructor
  · rintro ⟨hfin, hr, hv⟩
    obtain ⟨r', hr'⟩ := Option.ne_none_iff_exists'.mp hfin
    exact ⟨by rw [hr', hvalue r' hr', ← hr]; rfl, hv⟩
  · rintro ⟨hr, hv⟩
    exact ⟨by rw [hr]; exact Option.some_ne_none r, (hvalue r hr).symm, hv⟩

/-- A header another one follows. -/
lemma yields_nested_iff (h : c.nested mem = some d) :
    Yields mem c p r v ↔ Yields mem d (c.fill mem p) r v := by
  constructor
  · rintro ⟨n, hfin, hr, hv⟩
    cases n with
    | zero => exact hfin.elim
    | succ n =>
        rw [result_of_nested h] at hr hv
        exact ⟨n, (finishes_of_nested h).mp hfin, hr, hv⟩
  · rintro ⟨n, hfin, hr, hv⟩
    rw [← result_of_nested h] at hr hv
    exact ⟨n + 1, (finishes_of_nested h).mpr hfin, hr, hv⟩

/-- The last header. -/
lemma yields_last_iff (h : c.nested mem = none) : Yields mem c p r v ↔
    ∃ n, (c.decoder = .tcp → c.LoopsOptions mem → Stops (c.optNext mem) n 0) ∧
      c.value mem p = r ∧ (c.finish mem n p).view mem = v := by
  constructor
  · rintro ⟨n, hfin, hr, hv⟩
    cases n with
    | zero => exact hfin.elim
    | succ n =>
        rw [result_of_last h] at hr hv
        exact ⟨n, (finishes_of_last h).mp hfin, hr, hv⟩
  · rintro ⟨n, hfin, hr, hv⟩
    refine ⟨n + 1, (finishes_of_last h).mpr hfin, ?_, ?_⟩
    · rw [result_of_last h, hr]
    · rw [result_of_last h, hv]

/-- The layers to be seen are those of the headers. -/
lemma Yields.layers (h : Yields mem c p r v) (hp : p.layerCount ≤ maxLayers) :
    ∃ n, v.layers = (p.layers ++ (headers mem n c).map (Call.layer mem)).take maxLayers ∧
      Finishes mem n c := by
  obtain ⟨n, hfin, -, rfl⟩ := h
  exact ⟨n, result_layers n c hp, hfin⟩

end Views

end CLibrary
