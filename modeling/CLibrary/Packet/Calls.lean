import CLibrary.Packet.Options

/-!
The calls of a decoding.

* `Call.value`: what the last header returns.
* `body_refused`, `body_accepted`, `body_tcp`: how a decoder ends, and its effect.
* `decode_of_nested`: a decoder that hands on makes the call `Call.nested` names,
  whatever its fuel.
* `decode_of_last`: one that does not makes none; it returns, unless it is stuck
  in the loop over TCP options.
* `mem_calls_iff`: the calls made are those along the chain of headers.
* `returns_iff`: decoding returns if and only if the chain of headers stops and
  the options of a TCP header at its end do.
-/

namespace CLibrary

open Decode

/-- What the last header returns. -/
def Call.value (mem : Memory) (c : Call) (p : Packet) : ℤ :=
  if ¬ c.Accepts mem then -1
  else if c.Fragment mem then 0
  else match c.decoder with
    | .tcp => 0
    | .udp => if mem.raw16 (c.pkt + 6) = 0 ∧ p.version = 6 then -1 else 0
    | _ => -1

section Body

variable {mem : Memory} {c d : Call} {s : Decoding}

/-- A TCP header that is accepted returns 0. -/
lemma Call.value_tcp {p : Packet} (h : c.Accepts mem) (hdec : c.decoder = .tcp) :
    c.value mem p = 0 := by
  rw [Call.value, if_neg (not_not.mpr h)]
  simp only [hdec, ite_self]

/-- The call a `switch` selects. -/
lemma ofSwitch_eq (decoder : Option Decoder) (pkt : ℤ) (len : ℕ) :
    Outcome.ofSwitch decoder pkt len =
      (decoder.map fun d => (⟨d, pkt, len⟩ : Call)).elim (.ret (-1)) .call := by
  cases decoder <;> rfl

/-- **A header that is refused**: the decoder returns -1. -/
lemma body_refused (h : ¬ c.Accepts mem) :
    ∃ m s', (∀ fuel, c.body fuel ⟨mem, c⟩ s = (some (.ret (-1)), s')) ∧
      Effect s s' c.refusedReads m s.packet.payload s.packet.paysize := by
  cases hc : c.decoder with
  | ip =>
      simp only [Call.Accepts, hc] at h
      simp only [Call.body, Call.refusedReads, hc]
      obtain ⟨s', heq, heff⟩ := decodeIp_short mem (s := s) h
      exact ⟨_, s', fun _ => heq, heff⟩
  | ip6 =>
      simp only [Call.Accepts, hc, not_le] at h
      simp only [Call.body, Call.refusedReads, hc]
      exact ⟨[], s, fun _ => run_short h, .refl⟩
  | ip6Rte =>
      simp only [Call.Accepts, hc, not_and_or, not_le] at h
      simp only [Call.body, Call.refusedReads, hc]
      by_cases hshort : c.len < sizeofIp6Rte
      · rw [if_neg (Nat.not_le.mpr hshort)]
        exact ⟨[], s, fun _ => run_short hshort, .refl⟩
      · obtain ⟨s', heq, heff⟩ := run_cut mem (s := s) (Nat.not_lt.mp hshort)
          (h.resolve_left hshort)
        rw [if_pos (Nat.not_lt.mp hshort)]
        exact ⟨_, s', fun _ => heq, heff⟩
  | ip6Frag =>
      simp only [Call.Accepts, hc, not_le] at h
      simp only [Call.body, Call.refusedReads, hc]
      exact ⟨[], s, fun _ => run_short h, .refl⟩
  | ip6Ext =>
      simp only [Call.Accepts, hc, not_and_or, not_le] at h
      simp only [Call.body, Call.refusedReads, hc]
      by_cases hshort : c.len < sizeofIp6Ext
      · rw [if_neg (Nat.not_le.mpr hshort)]
        exact ⟨[], s, fun _ => run_short hshort, .refl⟩
      · obtain ⟨s', heq, heff⟩ := run_cut mem (s := s) (Nat.not_lt.mp hshort)
          (h.resolve_left hshort)
        rw [if_pos (Nat.not_lt.mp hshort)]
        exact ⟨_, s', fun _ => heq, heff⟩
  | tcp =>
      simp only [Call.Accepts, hc, not_le] at h
      simp only [Call.body, Call.refusedReads, hc]
      obtain ⟨s', heq, heff⟩ := decodeTcp_short mem (s := s) h
      exact ⟨_, s', heq, heff⟩
  | udp =>
      simp only [Call.Accepts, hc, not_le] at h
      simp only [Call.body, Call.refusedReads, hc]
      exact ⟨[], s, fun _ => run_short h, .refl⟩

/-- **A header that is accepted**, other than a TCP header: the decoder makes the
call `Call.nested` names, or returns. -/
lemma body_accepted (h : c.Accepts mem) (hdec : c.decoder ≠ .tcp) :
    ∃ s', (∀ fuel, c.body fuel ⟨mem, c⟩ s =
        (some ((c.nested mem).elim (.ret (c.value mem s.packet)) .call), s')) ∧
      Effect s s' (c.reads mem) (c.subs mem s.packet.paysize)
        (s.packet.payload + c.advance mem) (c.paysize mem s.packet.paysize) := by
  rw [Call.value, if_neg (not_not.mpr h)]
  by_cases hfrag : c.Fragment mem
  · rw [Call.nested_of_fragment hfrag, if_pos hfrag]
    cases hc : c.decoder with
    | ip =>
        simp only [Call.Accepts, Call.Fragment, hc] at h hfrag
        simp only [Call.body, Call.reads, Call.subs, Call.advance, Call.paysize, Call.size, hc]
        obtain ⟨s', heq, heff⟩ := decodeIp_long mem (s := s) h
        exact ⟨s', fun _ => heq.trans (by rw [if_pos hfrag]; rfl), heff⟩
    | ip6Frag =>
        simp only [Call.Accepts, Call.Fragment, hc] at h hfrag
        simp only [Call.body, Call.reads, Call.subs, Call.advance, Call.paysize, Call.size, hc]
        obtain ⟨s', heq, heff⟩ := decodeIp6Frag_long mem (s := s) h
        exact ⟨s', fun _ => heq.trans (by rw [if_pos hfrag]; rfl), heff⟩
    | _ => simp only [Call.Fragment, hc] at hfrag
  · rw [Call.nested_of_accepts h hfrag, if_neg hfrag]
    cases hc : c.decoder with
    | ip =>
        simp only [Call.Accepts, Call.Fragment, hc] at h hfrag
        simp only [Call.body, Call.reads, Call.subs, Call.advance, Call.paysize, Call.size,
          Call.follower, hc]
        obtain ⟨s', heq, heff⟩ := decodeIp_long mem (s := s) h
        exact ⟨s', fun _ => heq.trans (by rw [if_neg hfrag, ofSwitch_eq]), heff⟩
    | ip6 =>
        simp only [Call.Accepts, hc] at h
        simp only [Call.body, Call.reads, Call.subs, Call.advance, Call.paysize, Call.size,
          Call.follower, hc]
        obtain ⟨s', heq, heff⟩ := decodeIp6_long mem (s := s) h
        exact ⟨s', fun _ => heq.trans (by rw [ofSwitch_eq]), heff⟩
    | ip6Rte =>
        simp only [Call.Accepts, hc] at h
        simp only [Call.body, Call.reads, Call.subs, Call.advance, Call.paysize, Call.size,
          Call.follower, hc]
        obtain ⟨s', heq, heff⟩ := decodeIp6Rte_long mem (s := s) h.1 h.2
        exact ⟨s', fun _ => heq.trans (by rw [ofSwitch_eq]), heff⟩
    | ip6Frag =>
        simp only [Call.Accepts, Call.Fragment, hc] at h hfrag
        simp only [Call.body, Call.reads, Call.subs, Call.advance, Call.paysize, Call.size,
          Call.follower, hc]
        obtain ⟨s', heq, heff⟩ := decodeIp6Frag_long mem (s := s) h
        exact ⟨s', fun _ => heq.trans (by rw [if_neg hfrag, ofSwitch_eq]), heff⟩
    | ip6Ext =>
        simp only [Call.Accepts, hc] at h
        simp only [Call.body, Call.reads, Call.subs, Call.advance, Call.paysize, Call.size,
          Call.follower, hc]
        obtain ⟨s', heq, heff⟩ := decodeIp6Ext_long mem (s := s) h.1 h.2
        rw [Nat.cast_add, ← add_assoc]
        exact ⟨s', fun _ => heq.trans (by rw [ofSwitch_eq]), heff⟩
    | tcp => exact absurd hc hdec
    | udp =>
        simp only [Call.Accepts, hc] at h
        simp only [Call.body, Call.reads, Call.subs, Call.advance, Call.paysize, Call.size,
          Call.follower, hc]
        obtain ⟨s', heq, heff⟩ := decodeUdp_long mem (s := s) h
        exact ⟨s', fun _ => heq, heff⟩

/-- **A TCP header that is accepted**: the decoder returns 0 if the loop over the
options ends. -/
lemma body_tcp (h : c.Accepts mem) (hdec : c.decoder = .tcp) (fuel : ℕ) :
    ∃ l, let out := c.body fuel ⟨mem, c⟩ s
      (out.1 = none ∨ out.1 = some (.ret 0)) ∧
      (out.1 ≠ none ↔ (c.LoopsOptions mem → Stops (c.optNext mem) fuel 0)) ∧
      Effect s out.2 (c.reads mem ++ l) (c.subs mem s.packet.paysize)
        (s.packet.payload + c.advance mem) (c.paysize mem s.packet.paysize) ∧
      ∀ r, r ∈ l ↔ c.LoopsOptions mem ∧ ∃ q ∈ chain (c.optNext mem) fuel 0,
        q < c.tcpOptlen mem ∧ (r = ⟨c, c.optStart mem + q, 1⟩ ∨
          2 ≤ mem.byte (c.optStart mem + q) ∧ r = ⟨c, c.optStart mem + q + 1, 1⟩) := by
  simp only [Call.Accepts, hdec] at h
  simp only [Call.body, Call.reads, Call.subs, Call.advance, Call.paysize, Call.size, hdec]
  exact decodeTcp_spec h fuel

/-! ### The last call and the ones before it -/

/-- A header another one follows is accepted, and no TCP header. -/
lemma accepts_of_nested (h : c.nested mem = some d) : c.Accepts mem ∧ c.decoder ≠ .tcp := by
  refine ⟨?_, fun hdec => ?_⟩
  · by_contra hacc
    rw [Call.nested_of_refused hacc] at h
    cases h
  · rw [Call.nested, Option.ite_none_right_eq_some, Call.follower] at h
    simp only [hdec, Option.map_none] at h
    cases h.2

/-- **A header another one follows**: its decoder makes the call. -/
lemma decode_of_nested (h : c.nested mem = some d) :
    ∃ s', Effect s s' (c.reads mem) (c.subs mem s.packet.paysize)
        (s.packet.payload + c.advance mem) (c.paysize mem s.packet.paysize) ∧
      ∀ n, decode mem (n + 1) c s = decode mem n d { s' with calls := s.calls ++ [(c, d)] } := by
  obtain ⟨hacc, hdec⟩ := accepts_of_nested h
  obtain ⟨s', hbody, heff⟩ := body_accepted (s := s) hacc hdec
  refine ⟨s', heff, fun n => ?_⟩
  rw [decode, hbody, h, ← heff.calls]
  rfl

/-- The value of a decoder that makes no call. -/
def Outcome.value : Outcome → Option ℤ
  | .ret r => some r
  | .call _ => none

/-- **The last header**: decoding ends as its decoder does, which returns unless
the loop over TCP options does not end. -/
lemma decode_of_last (h : c.nested mem = none) (n : ℕ) :
    decode mem (n + 1) c s =
        ((c.body n ⟨mem, c⟩ s).1.bind Outcome.value, (c.body n ⟨mem, c⟩ s).2) ∧
      (c.body n ⟨mem, c⟩ s).2.calls = s.calls ∧
      ((decode mem (n + 1) c s).1 ≠ none ↔
        (c.decoder = .tcp → c.LoopsOptions mem → Stops (c.optNext mem) n 0)) := by
  rw [decode]
  by_cases hacc : c.Accepts mem
  · by_cases hdec : c.decoder = .tcp
    · obtain ⟨l, hout, hiff, heff, -⟩ := body_tcp (s := s) hacc hdec n
      generalize c.body n ⟨mem, c⟩ s = out at hout hiff heff
      obtain ⟨o, s'⟩ := out
      refine ⟨?_, heff.calls, ?_⟩
      · rcases hout with rfl | rfl <;> rfl
      · rw [← hiff.trans ⟨fun h _ => h, fun h => h hdec⟩]
        rcases hout with rfl | rfl
        · exact iff_of_false (not_not.mpr rfl) (not_not.mpr rfl)
        · exact iff_of_true (Option.some_ne_none _) (Option.some_ne_none _)
    · obtain ⟨s', hbody, heff⟩ := body_accepted (s := s) hacc hdec
      rw [hbody, h]
      exact ⟨rfl, heff.calls, iff_of_true (Option.some_ne_none _) fun htcp => absurd htcp hdec⟩
  · obtain ⟨m, s', hbody, heff⟩ := body_refused (s := s) hacc
    rw [hbody]
    refine ⟨rfl, heff.calls, iff_of_true (Option.some_ne_none _) fun htcp hloop => ?_⟩
    rw [Call.Accepts] at hacc
    simp only [htcp] at hacc
    exact absurd hloop.1 hacc

/-! ### Whole decodings -/

/-- **The calls made** are those along the chain of headers. -/
lemma mem_calls_iff (n : ℕ) {e : Call × Call} : e ∈ (decode mem n c s).2.calls ↔
    e ∈ s.calls ∨ e.1 ∈ chain (Call.nested mem) n c ∧ e.1.nested mem = some e.2 := by
  induction n generalizing c s with
  | zero => simp [decode, chain]
  | succ n ih =>
      cases hnext : c.nested mem with
      | none =>
          obtain ⟨heq, hcalls, -⟩ := decode_of_last (s := s) hnext n
          rw [heq, hcalls, chain_succ_none hnext, List.mem_singleton]
          refine ⟨Or.inl, fun h => h.resolve_right ?_⟩
          rintro ⟨rfl, he⟩
          rw [hnext] at he
          cases he
      | some d =>
          obtain ⟨s', -, heq⟩ := decode_of_nested (s := s) hnext
          have hself : e = (c, d) ↔ e.1 = c ∧ e.1.nested mem = some e.2 := by
            constructor
            · rintro rfl
              exact ⟨rfl, hnext⟩
            · rintro ⟨h1, h2⟩
              rw [h1, hnext] at h2
              exact Prod.ext h1 (Option.some.inj h2).symm
          rw [heq, ih, chain_succ_some hnext, List.mem_append, List.mem_singleton, List.mem_cons,
            hself]
          tauto

/-- **Decoding returns** if and only if the chain of headers stops, and so does
the loop over the options of a TCP header in it. -/
lemma returns_iff : (∃ n, (decode mem n c s).1 ≠ none) ↔
    (∃ m, Stops (Call.nested mem) m c) ∧
      ∀ n, ∀ t ∈ chain (Call.nested mem) n c, t.decoder = .tcp → t.LoopsOptions mem →
        ∃ m, Stops (t.optNext mem) m 0 := by
  constructor
  · rintro ⟨n, hn⟩
    induction n generalizing c s with
    | zero => exact absurd rfl hn
    | succ n ih =>
        cases hnext : c.nested mem with
        | none =>
            have honly : ∀ k, ∀ t ∈ chain (Call.nested mem) k c, t = c := by
              refine forall_chain rfl fun t u ht hu => ?_
              rw [ht, hnext] at hu
              cases hu
            refine ⟨⟨1, fun d hd => ?_⟩, fun k t ht hdec hloop => ?_⟩
            · rw [hnext] at hd
              cases hd
            · obtain rfl := honly k t ht
              exact ⟨n, (decode_of_last hnext n).2.2.mp hn hdec hloop⟩
        | some d =>
            obtain ⟨s', -, heq⟩ := decode_of_nested (s := s) hnext
            rw [heq] at hn
            obtain ⟨⟨m, hstop⟩, hopts⟩ := ih hn
            refine ⟨⟨m + 1, fun d' hd' => ?_⟩, fun k t ht hdec => ?_⟩
            · rw [hnext, Option.some_inj] at hd'
              exact hd' ▸ hstop
            · cases k with
              | zero => exact (List.not_mem_nil ht).elim
              | succ k =>
                  rw [chain_succ_some hnext] at ht
                  rcases List.mem_cons.mp ht with rfl | ht
                  · exact absurd hdec (accepts_of_nested hnext).2
                  · exact hopts k t ht hdec
  · rintro ⟨⟨m, hstop⟩, hopts⟩
    induction m generalizing c s with
    | zero => exact hstop.elim
    | succ m ih =>
        cases hnext : c.nested mem with
        | none =>
            -- fuel enough for the options, if there are any
            obtain ⟨k, hk⟩ : ∃ k, c.decoder = .tcp → c.LoopsOptions mem →
                Stops (c.optNext mem) k 0 := by
              by_cases htcp : c.decoder = .tcp ∧ c.LoopsOptions mem
              · obtain ⟨k, hk⟩ := forall_chain_head hopts htcp.1 htcp.2
                exact ⟨k, fun _ _ => hk⟩
              · exact ⟨0, fun hdec hloop => absurd ⟨hdec, hloop⟩ htcp⟩
            exact ⟨k + 1, (decode_of_last hnext k).2.2.mpr hk⟩
        | some d =>
            obtain ⟨s', -, heq⟩ := decode_of_nested (s := s) hnext
            obtain ⟨n, hn⟩ := ih (s := { s' with calls := s.calls ++ [(c, d)] })
              (forall_chain_next hnext hopts) (hstop d hnext)
            exact ⟨n + 1, by rw [heq]; exact hn⟩

end Body

end CLibrary
