import Mathlib.Tactic

/-!
The chain of a partial function.

`next : α → Option α` leads from an item to the one after it.

* `chain next n a`: the first `n` items from `a` on; `chain_succ_eq_append` adds
  to them at the end, `forall_chain` is their invariant rule, `chain_isChain` what
  relates one item to the next, `chain_of_append` the chain from one of its items
  on, and `map_chain` the chain seen through a function that `next` respects.
* `Stops next n a`: there are at most `n` items from `a` on.
  `stops_of_decreasing` gives it where a measure decreases at every item, and
  `Stops.ne_self` takes it away where an item leads to itself.
* `offsets size a rs`: the records `rs`, laid end to end from `a` on, with the
  places they start at.  `chain_offsets`, `stops_offsets`: a function that leads
  from the start of a record to its end goes along them.
-/

namespace CLibrary

variable {α : Type*} {next : α → Option α} {a b : α} {m n : ℕ}

/-- The first `n` items from `a` on. -/
def chain (next : α → Option α) : ℕ → α → List α
  | 0, _ => []
  | n + 1, a => a :: (next a).elim [] (chain next n)

lemma chain_succ_some (h : next a = some b) (n : ℕ) :
    chain next (n + 1) a = a :: chain next n b := by
  rw [chain, h, Option.elim_some]

lemma chain_succ_none (h : next a = none) (n : ℕ) : chain next (n + 1) a = [a] := by
  rw [chain, h, Option.elim_none]

/-- With one more unit of `n` there is at most one item more. -/
lemma chain_succ_eq_append (n : ℕ) (a : α) :
    ∃ l : List α, l.length ≤ 1 ∧ chain next (n + 1) a = chain next n a ++ l := by
  induction n generalizing a with
  | zero =>
      refine ⟨[a], le_rfl, ?_⟩
      cases hnext : next a with
      | none => rw [chain_succ_none hnext]; rfl
      | some b => rw [chain_succ_some hnext]; rfl
  | succ n ih =>
      cases hnext : next a with
      | none =>
          rw [chain_succ_none hnext, chain_succ_none hnext]
          exact ⟨[], Nat.zero_le 1, rfl⟩
      | some b =>
          obtain ⟨l, hlen, heq⟩ := ih b
          refine ⟨l, hlen, ?_⟩
          rw [chain_succ_some hnext, chain_succ_some hnext, heq, List.cons_append]

/-- The first `m` of the first `n` items are the first `m`. -/
lemma chain_initial (a : α) (h : m ≤ n) : chain next m a <+: chain next n a := by
  induction n, h using Nat.le_induction with
  | base => exact List.prefix_rfl
  | succ n _ ih =>
      obtain ⟨l, -, heq⟩ := @chain_succ_eq_append α next n a
      exact ih.trans ⟨l, heq.symm⟩

/-- What holds of every item holds of the first. -/
lemma forall_chain_head {p : α → Prop} (h : ∀ n, ∀ c ∈ chain next n a, p c) : p a :=
  h 1 a List.mem_cons_self

/-- What holds of every item holds of every later one. -/
lemma forall_chain_next {p : α → Prop} (hnext : next a = some b)
    (h : ∀ n, ∀ c ∈ chain next n a, p c) : ∀ n, ∀ c ∈ chain next n b, p c := by
  intro n c hc
  refine h (n + 1) c ?_
  rw [chain_succ_some hnext]
  exact List.mem_cons_of_mem a hc

/-- **The invariant rule**: what `next` keeps holds along the chain. -/
lemma forall_chain {p : α → Prop} (ha : p a) (hstep : ∀ c d, p c → next c = some d → p d) (n : ℕ) :
    ∀ c ∈ chain next n a, p c := by
  induction n generalizing a with
  | zero => exact fun c hc => (List.not_mem_nil hc).elim
  | succ n ih =>
      intro c hc
      cases hnext : next a with
      | none =>
          rw [chain_succ_none hnext, List.mem_singleton] at hc
          exact hc ▸ ha
      | some b =>
          rw [chain_succ_some hnext] at hc
          rcases List.mem_cons.mp hc with rfl | hc
          · exact ha
          · exact ih (hstep a b ha hnext) c hc

/-- Every item is led to by the one before it. -/
lemma chain_isChain (n : ℕ) (a : α) : (chain next n a).IsChain fun b c => next b = some c := by
  induction n generalizing a with
  | zero => exact .nil
  | succ n ih =>
      cases hnext : next a with
      | none =>
          rw [chain_succ_none hnext]
          exact .singleton a
      | some b =>
          rw [chain_succ_some hnext, List.isChain_cons]
          refine ⟨fun c hc => ?_, ih b⟩
          cases n with
          | zero => cases hc
          | succ n => rw [hnext, ← Option.some.inj hc]

/-- What is left of a chain from one of its items on is the chain of that item. -/
lemma chain_of_append {before behind : List α}
    (h : chain next (before.length + m) a = before ++ b :: behind) :
    chain next m b = b :: behind := by
  induction before generalizing a with
  | nil =>
      rw [List.length_nil, Nat.zero_add, List.nil_append] at h
      cases m with
      | zero => cases h
      | succ m =>
          obtain rfl : a = b := (List.cons_eq_cons.mp h).1
          exact h
  | cons c before ih =>
      rw [List.length_cons, Nat.add_right_comm, List.cons_append] at h
      cases hnext : next a with
      | none =>
          rw [chain_succ_none hnext, List.cons_eq_cons] at h
          exact absurd h.2.symm (List.append_ne_nil_of_right_ne_nil _ (List.cons_ne_nil b behind))
      | some d =>
          rw [chain_succ_some hnext, List.cons_eq_cons] at h
          exact ih h.2

/-- A function `g` that takes `next` to `next'` takes chains to chains. -/
lemma map_chain {β : Type*} {next' : β → Option β} {g : α → β} {I : α → Prop} (ha : I a)
    (hstep : ∀ b c, I b → next b = some c → I c)
    (hmap : ∀ b, I b → next' (g b) = (next b).map g) (n : ℕ) :
    (chain next n a).map g = chain next' n (g a) := by
  induction n generalizing a with
  | zero => rfl
  | succ n ih =>
      have hg := hmap a ha
      cases hnext : next a with
      | none =>
          rw [hnext, Option.map_none] at hg
          rw [chain_succ_none hnext, chain_succ_none hg, List.map_singleton]
      | some b =>
          rw [hnext, Option.map_some] at hg
          rw [chain_succ_some hnext, chain_succ_some hg, List.map_cons, ih (hstep a b ha hnext)]

/-- There are at most `n` items from `a` on. -/
def Stops (next : α → Option α) : ℕ → α → Prop
  | 0, _ => False
  | n + 1, a => ∀ b, next a = some b → Stops next n b

namespace Stops

lemma mono (h : Stops next m a) (hmn : m ≤ n) : Stops next n a := by
  induction m generalizing a n with
  | zero => exact h.elim
  | succ m ih =>
      obtain ⟨k, rfl⟩ : ∃ k, n = k + 1 := ⟨n - 1, by omega⟩
      exact fun b hb => ih (h b hb) (by omega)

/-- Every item of a chain that stops is before its end. -/
lemma of_mem_chain (h : Stops next m a) {c : α} (hc : c ∈ chain next n a) : Stops next m c := by
  refine forall_chain (p := Stops next m) h (fun c d hstop hd => ?_) n c hc
  cases m with
  | zero => exact hstop.elim
  | succ m => exact (hstop d hd).mono (Nat.le_succ m)

/-- A chain that stops is complete. -/
lemma mem_chain (h : Stops next m a) {c : α} (hc : c ∈ chain next n a) : c ∈ chain next m a := by
  induction m generalizing a n with
  | zero => exact h.elim
  | succ m ih =>
      cases n with
      | zero => exact (List.not_mem_nil hc).elim
      | succ n =>
          cases hnext : next a with
          | none =>
              rw [chain_succ_none hnext] at hc ⊢
              exact hc
          | some b =>
              rw [chain_succ_some hnext] at hc ⊢
              exact (List.mem_cons.mp hc).elim (fun heq => heq ▸ List.mem_cons_self)
                fun hc => List.mem_cons_of_mem a (ih (h b hnext) hc)

/-- No item of a chain that stops leads to itself. -/
lemma ne_self (h : Stops next m a) : next a ≠ some a := by
  intro hself
  induction m with
  | zero => exact h
  | succ m ih => exact ih (h a hself)

end Stops

/-- A function `g` that takes `next` to `next'` takes chains that stop to such. -/
lemma stops_map_iff {β : Type*} {next' : β → Option β} {g : α → β} {I : α → Prop} (ha : I a)
    (hstep : ∀ b c, I b → next b = some c → I c)
    (hmap : ∀ b, I b → next' (g b) = (next b).map g) (n : ℕ) :
    Stops next n a ↔ Stops next' n (g a) := by
  induction n generalizing a with
  | zero => exact Iff.rfl
  | succ n ih =>
      rw [Stops, Stops, hmap a ha]
      cases hnext : next a with
      | none => simp
      | some b => simpa using ih (hstep a b ha hnext)

/-- **A chain stops** where a measure decreases at every item. -/
theorem stops_of_decreasing {μ : α → ℕ}
    (h : ∀ n, ∀ c ∈ chain next n a, ∀ d, next c = some d → μ d < μ c) :
    Stops next (μ a + 1) a := by
  induction hk : μ a using Nat.strong_induction_on generalizing a with
  | _ k ih =>
      intro b hb
      have hlt : μ b < k := hk ▸ forall_chain_head h b hb
      exact (ih (μ b) hlt (forall_chain_next hb h) rfl).mono (by omega)

/-! ### Records laid end to end -/

section Offsets

variable {ρ : Type*} {size : ρ → ℕ} {next : ℕ → Option ℕ} {a n : ℕ} {rs : List ρ}

/-- The records with the places they start at, from `a` on. -/
def offsets (size : ρ → ℕ) : ℕ → List ρ → List (ℕ × ρ)
  | _, [] => []
  | a, r :: rs => (a, r) :: offsets size (a + size r) rs

lemma map_snd_offsets (a : ℕ) (rs : List ρ) : (offsets size a rs).map Prod.snd = rs := by
  induction rs generalizing a with
  | nil => rfl
  | cons r rs ih => rw [offsets, List.map_cons, ih]

/-- No record reaches behind the last. -/
lemma offsets_le {e : ℕ × ρ} (he : e ∈ offsets size a rs) :
    e.1 + size e.2 ≤ a + (rs.map size).sum := by
  induction rs generalizing a with
  | nil => exact (List.not_mem_nil he).elim
  | cons r rs ih =>
      rw [List.map_cons, List.sum_cons]
      rcases List.mem_cons.mp he with rfl | he
      · dsimp only
        omega
      · have := ih he
        omega

/-- **The chain goes along the records.** -/
lemma chain_offsets (h : ∀ e ∈ offsets size a rs, next e.1 = some (e.1 + size e.2)) (n : ℕ) :
    chain next (rs.length + n) a =
      (offsets size a rs).map Prod.fst ++ chain next n (a + (rs.map size).sum) := by
  induction rs generalizing a with
  | nil => rw [List.length_nil, Nat.zero_add, List.map_nil, List.sum_nil, Nat.add_zero]; rfl
  | cons r rs ih =>
      rw [offsets, List.forall_mem_cons] at h
      rw [List.length_cons, Nat.succ_add, chain_succ_some h.1, ih h.2, offsets, List.map_cons,
        List.map_cons, List.sum_cons, Nat.add_assoc, List.cons_append]

/-- It stops where it stops behind them. -/
lemma stops_offsets (h : ∀ e ∈ offsets size a rs, next e.1 = some (e.1 + size e.2))
    (hstop : Stops next n (a + (rs.map size).sum)) : Stops next (rs.length + n) a := by
  induction rs generalizing a with
  | nil => rwa [List.length_nil, Nat.zero_add]
  | cons r rs ih =>
      rw [offsets, List.forall_mem_cons] at h
      rw [List.map_cons, List.sum_cons, ← Nat.add_assoc] at hstop
      rw [List.length_cons, Nat.succ_add]
      intro b hb
      rw [h.1, Option.some_inj] at hb
      exact hb ▸ ih h.2 hstop

end Offsets

end CLibrary
