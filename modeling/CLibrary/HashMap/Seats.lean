import CLibrary.HashMap.Length
import CLibrary.Library.Crowding

/-!
Storing pairs in a new table.

* `fullHash`, `homeIn`: the hash of a key, and the slot it comes to in a table of a
  given size.
* `SeatedIn`, `RoomyIn`, `OverfullIn`: conditions on the hashes of keys, for a table
  of a given size.
* `Untouched`: a table no put has stored in.  `placeAll_untouched` says what pairs
  make of one, whatever their keys.
* `placeAll_eq_nil_iff`: they all find slots exactly if their keys are seated.
* `attempt_succ_of_left`: what a later round of a put has to store, and where.
-/

namespace CLibrary

open Probing

variable {α : Type*}

namespace Hashmap

/-! ### Hashes -/

/-- The hash of a key, before it is reduced to a table. -/
def fullHash (key : CString) : UInt64 :=
  hashMix (crc32 key.bytes (UInt32.ofNat key.bytes.length))

/-- The slot a key comes to in a table of `size` slots. -/
def homeIn (size : ℕ) (key : CString) : ℕ := (fullHash key).toNat % size

/-- Keys that find slots in an empty table of `size` slots, in their order. -/
def SeatedIn (size : ℕ) (l : List CString) : Prop := Seated (homeIn size) size maxChainLength l

/-- Keys that find slots in an empty table of `size` slots, in any order. -/
def RoomyIn (size : ℕ) (ks : Finset CString) : Prop := Roomy (homeIn size) size maxChainLength ks

/-- Keys that do not all find slots in a table of `size` slots, in no order. -/
def OverfullIn (size : ℕ) (ks : Finset CString) : Prop :=
  Overfull (homeIn size) size maxChainLength ks

/-- Keys with one hash find slots if there are no more than eight. -/
lemma roomy_of_hash_eq {size : ℕ} {ks : Finset CString} {c : UInt64}
    (hhash : ∀ k ∈ ks, fullHash k = c) (hcard : ks.card ≤ maxChainLength)
    (hsize : maxChainLength ≤ size) : RoomyIn size ks := by
  intro k hk
  have hother := Finset.card_erase_lt_of_mem hk
  refine ⟨(ks.erase k).card, by omega, fun i _ => ?_⟩
  -- the last of them lies behind the others
  have hturn : ∀ k' ∈ ks.erase k,
      turn size (homeIn size k') ((homeIn size k + (ks.erase k).card) % size) =
        (ks.erase k).card := by
    intro k' hk'
    rw [homeIn, homeIn, hhash k' (Finset.mem_of_mem_erase hk'), hhash k hk, Nat.mod_add_mod]
    exact turn_mod_add (by omega)
  by_cases hi : (ks.erase k).card ≤ i
  · exact (Finset.card_filter_le _ _).trans hi
  · rw [Finset.filter_eq_empty_iff.mpr fun k' hk' => by rw [hturn k' hk']; exact hi]
    exact Nat.zero_le i

/-- They do not if there are more. -/
lemma overfull_of_hash_eq {size : ℕ} {ks : Finset CString} {c : UInt64}
    (hhash : ∀ k ∈ ks, fullHash k = c) (hcard : maxChainLength < ks.card)
    (hsize : maxChainLength ≤ size) : OverfullIn size ks := by
  have hlt : c.toNat % size < size := Nat.mod_lt _ (lt_of_lt_of_le (by decide) hsize)
  refine ⟨c.toNat % size, hlt, maxChainLength, hsize, ?_⟩
  rwa [Finset.filter_true_of_mem fun k hk => by
    rw [homeIn, hhash k hk, turn_self hlt, Nat.zero_add]]

/-- What becomes of the values of all keys when pairs are stored in order. -/
def overwrite (f : CString → Option α) (l : List (CString × α)) : CString → Option α :=
  l.foldl (fun f e => Function.update f e.1 (some e.2)) f

/-- The value of the last pair of a key. -/
def lastValue (l : List (CString × α)) : CString → Option α := overwrite (fun _ => none) l

/-! ### Storing in a new table -/

/-- A table no put has stored in. -/
def Untouched (m : Hashmap α) : Prop := m.WF ∧ m.size = 0 ∧ m.entries = [] ∧ m.Tidy

lemma doubled_untouched {m : Hashmap α} (h : maxChainLength ≤ m.tableSize) : Untouched m.doubled :=
  ⟨empty_WF (h.trans (Nat.le_mul_of_pos_left _ (by decide))), rfl, doubled_entries m, empty_tidy⟩

/-- Storing pairs, whatever their keys, in a table without holes. -/
lemma placeAll_tidy {m : Hashmap α} (l : List (CString × α)) {f : CString → Option α} (h : m.WF)
    (htidy : m.Tidy) (hf : ∀ k v, m.Holds k v ↔ f k = some v) :
    ∃ placed, l = placed ++ (m.placeAll l).2 ∧ (m.placeAll l).1.WF ∧ (m.placeAll l).1.Tidy ∧
      (m.placeAll l).1.size = m.size + placed.length ∧
      (m.placeAll l).1.entries.length ≤ m.entries.length + placed.length ∧
      ∀ k v, (m.placeAll l).1.Holds k v ↔ overwrite f placed k = some v := by
  induction l generalizing m f with
  | nil => exact ⟨[], rfl, h, htidy, by simp [placeAll], by simp [placeAll], hf⟩
  | cons e l ih =>
      cases hindex : m.hashmapHash e.1 with
      | none =>
          rw [placeAll_of_none hindex]
          exact ⟨[], rfl, h, htidy, by simp, by simp, hf⟩
      | some index =>
          rw [placeAll_of_some hindex]
          obtain ⟨-, hlt, -, -⟩ := hashmapHash_spec h.window_le hindex
          have hdone := store_done e.2 h (htidy e.1) (hashmapHash_eq_some hindex).2
          have hf' : ∀ k v, (m.store index e.1 e.2).Holds k v ↔
              Function.update f e.1 (some e.2) k = some v := by
            intro k v
            rw [hdone.holds]
            by_cases hk : k = e.1
            · rw [if_pos hk, hk, Function.update_self, Option.some_inj, eq_comm]
            · rw [if_neg hk, Function.update_of_ne hk, hf]
          obtain ⟨placed, hl, hwf, htidy', hsize, hlen, hholds⟩ :=
            ih hdone.wf (hdone.tidy htidy) hf'
          have hone : (m.store index e.1 e.2).entries.length ≤ m.entries.length + 1 :=
            pairs_length_store_le hlt
          refine ⟨e :: placed, congrArg (e :: ·) hl, hwf, htidy', ?_, ?_, hholds⟩
          · rw [hsize, List.length_cons]
            change m.size + 1 + _ = _
            push_cast
            ring
          · rw [List.length_cons]
            omega

/-- The same for a table no put has stored in. -/
lemma placeAll_untouched {m : Hashmap α} (h : Untouched m) (l : List (CString × α)) :
    ∃ placed, l = placed ++ (m.placeAll l).2 ∧ (m.placeAll l).1.WF ∧ (m.placeAll l).1.Tidy ∧
      (m.placeAll l).1.size = placed.length ∧
      (m.placeAll l).1.entries.length ≤ placed.length ∧
      ∀ k v, (m.placeAll l).1.Holds k v ↔ lastValue placed k = some v := by
  obtain ⟨hwf, hsize, hnil, htidy⟩ := h
  have hf : ∀ k v, m.Holds k v ↔ (fun _ => none : CString → Option α) k = some v := by
    intro k v
    rw [← mem_entries, hnil]
    exact iff_of_false List.not_mem_nil (Option.some_ne_none v).symm
  obtain ⟨placed, hl, hwf', htidy', hsize', hlen, hholds⟩ := placeAll_tidy l hwf htidy hf
  refine ⟨placed, hl, hwf', htidy', ?_, ?_, hholds⟩
  · rw [hsize', hsize, zero_add]
  · rwa [hnil, List.length_nil, Nat.zero_add] at hlen

/-- The keys of the pairs stored are those that have a value. -/
lemma exists_lastValue_iff {l : List (CString × α)} {k : CString} :
    (∃ v, lastValue l k = some v) ↔ k ∈ l.map Prod.fst := by
  induction l using List.reverseRecOn with
  | nil => exact iff_of_false (fun ⟨v, hv⟩ => Option.some_ne_none v hv.symm) List.not_mem_nil
  | append_singleton l e ih =>
      rw [List.map_append, List.mem_append, List.map_singleton, List.mem_singleton, ← ih]
      simp only [lastValue, overwrite, List.foldl_append, List.foldl_cons, List.foldl_nil]
      by_cases hk : k = e.1
      · rw [hk, Function.update_self]
        exact iff_of_true ⟨e.2, rfl⟩ (Or.inr rfl)
      · rw [Function.update_of_ne hk, or_iff_left hk]

/-- A round that leaves pairs leaves the pair of the put at the end. -/
lemma placeAll_last {m : Hashmap α} {l : List (CString × α)} {e : CString × α}
    (hne : (m.placeAll (l ++ [e])).2 ≠ []) :
    m.placeAll (l ++ [e]) = ((m.placeAll l).1, (m.placeAll l).2 ++ [e]) := by
  rw [placeAll_append] at hne ⊢
  split_ifs at hne ⊢ with hnil
  · rw [placeAll_singleton hne, hnil, List.nil_append]
  · rfl

/-- What such a round hands on. -/
lemma round_of_left {m : Hashmap α} {l : List (CString × α)} {e : CString × α}
    (hne : (m.placeAll (l ++ [e])).2 ≠ []) :
    round (m, l ++ [e]) = ((m.placeAll l).1.doubled,
      ((m.placeAll l).1.entries ++ (m.placeAll l).2) ++ [e]) := by
  rw [round]
  dsimp only
  rw [placeAll_last hne, List.append_assoc]

/-- The rounds after such a round. -/
lemma attempt_of_left {m : Hashmap α} {l : List (CString × α)} {e : CString × α}
    (hne : (m.placeAll (l ++ [e])).2 ≠ []) (j : ℕ) :
    m.attempt (l ++ [e]) (j + 1) = (m.placeAll l).1.doubled.attempt
      (((m.placeAll l).1.entries ++ (m.placeAll l).2) ++ [e]) j := by
  rw [attempt, Function.iterate_succ_apply, round_of_left hne, attempt]

/-! ### Seats -/

/-- **Whether all pairs find slots** in a new table of twice their number. -/
lemma placeAll_eq_nil_iff {m : Hashmap α} (h : Untouched m) {l : List (CString × α)}
    (hlen : l.length ≤ m.tableSize / 2) :
    (m.placeAll l).2 = [] ↔ SeatedIn m.tableSize (l.map Prod.fst) := by
  induction l using List.reverseRecOn with
  | nil => exact iff_of_true rfl seated_nil
  | append_singleton l e ih =>
      rw [List.length_append, List.length_singleton] at hlen
      rw [SeatedIn, List.map_append, List.map_singleton, seated_append, ← SeatedIn,
        ← ih (by omega), placeAll_append]
      split_ifs with hnil
      · rw [and_iff_right hnil]
        obtain ⟨placed, hl, hwf, htidy, hsize, hle, hholds⟩ := placeAll_untouched h l
        rw [hnil, List.append_nil] at hl
        subst hl
        have hts := placeAll_tableSize m l
        generalize (m.placeAll l).1 = m₁ at hwf htidy hsize hle hholds hts
        have hfree : ∃ i < m₁.tableSize, m₁.data i = none := by
          refine exists_free ?_
          change m₁.entries.length < _
          omega
        have hks : ∀ k, k ∈ (l.map Prod.fst).toFinset ↔ ∃ v, m₁.Holds k v := by
          intro k
          rw [List.mem_toFinset, ← exists_lastValue_iff]
          exact exists_congr fun v => (hholds k v).symm
        rw [← List.mem_toFinset, ← hts]
        refine Iff.trans ?_ (hwf.probe_vacant_isSome_iff htidy hks hfree e.1)
        have hhash : m₁.hashmapHash e.1 =
            probe m₁.tableSize (vacantAt m₁.data e.1) maxChainLength (m₁.hashInt e.1) :=
          if_neg (by omega)
        rw [← hhash]
        cases hindex : m₁.hashmapHash e.1 with
        | some index =>
            rw [placeAll_of_some hindex]
            exact iff_of_true rfl rfl
        | none =>
            rw [placeAll_of_none hindex]
            exact iff_of_false (List.cons_ne_nil _ _) Bool.false_ne_true
      · exact iff_of_false (List.append_ne_nil_of_right_ne_nil _ (List.cons_ne_nil _ _))
          fun hand => hnil hand.1

/-- Keys that are all stored overfill no row of slots. -/
lemma SlotsOk.not_overfull {m : Hashmap α} (h : SlotsOk m) {ks : Finset CString}
    (hks : ∀ k ∈ ks, k ∈ m.keys) : ¬ OverfullIn m.tableSize ks := by
  refine Probing.not_overfull (t := m.data) (hashInt_lt h.window_le) fun k hk => ?_
  obtain ⟨v, i, hi, hiv⟩ := mem_keys.mp (hks k hk)
  obtain ⟨d, hd, rfl⟩ := h.reach i hi k v hiv
  exact ⟨d, hd, v, hiv⟩

/-! ### Rounds that leave pairs -/

/-- Rounds that leave pairs come to a table no put has stored in, with no more
pairs than at first and no other keys. -/
lemma round_iterate_untouched {m : Hashmap α} {l : List (CString × α)} {e : CString × α} {j : ℕ}
    (h : Untouched m) (hleft : ∀ i < j, (m.attempt (l ++ [e]) i).2 ≠ []) :
    ∃ m' l', round^[j] (m, l ++ [e]) = (m', l' ++ [e]) ∧ Untouched m' ∧ l'.length ≤ l.length ∧
      l'.map Prod.fst ⊆ l.map Prod.fst := by
  induction j generalizing m l with
  | zero => exact ⟨m, l, rfl, h, le_rfl, List.Subset.refl _⟩
  | succ j ih =>
      have hfirst : (m.placeAll (l ++ [e])).2 ≠ [] := hleft 0 (Nat.succ_pos j)
      have hts : maxChainLength ≤ (m.placeAll l).1.tableSize := by
        rw [placeAll_tableSize]
        exact h.1.window_le
      obtain ⟨m', l', heq, hun, hlen, hkeys⟩ := ih
        (l := (m.placeAll l).1.entries ++ (m.placeAll l).2)
        (doubled_untouched hts) fun i hi => by
          rw [← attempt_of_left hfirst]
          exact hleft (i + 1) (by omega)
      obtain ⟨placed, hl, -, -, -, hle, hholds⟩ := placeAll_untouched h l
      refine ⟨m', l', ?_, hun, hlen.trans ?_, fun k hk => ?_⟩
      · rw [Function.iterate_succ_apply, round_of_left hfirst, heq]
      · have := congrArg List.length hl
        rw [List.length_append] at this ⊢
        omega
      · rw [hl, List.map_append, List.mem_append]
        have hmem := hkeys hk
        rw [List.map_append, List.mem_append] at hmem
        refine hmem.imp_left fun hmem => ?_
        obtain ⟨v, hv⟩ := mem_keys.mp hmem
        exact exists_lastValue_iff.mp ⟨v, (hholds k v).mp hv⟩

/-- **A later round** of a put, while rounds leave pairs: it stores pairs of the map,
and the one of the put after them, in a table with room for them.  The first one has
them all, in the order of their slots. -/
lemma attempt_succ_of_left {m : Hashmap α} (h : SlotsOk m) {e : CString × α} {j : ℕ}
    (hleft : ∀ i ≤ j, (m.attempt [e] i).2 ≠ []) :
    ∃ m' l, m.attempt [e] (j + 1) = m'.placeAll (l ++ [e]) ∧ Untouched m' ∧
      m'.tableSize = 2 ^ (j + 1) * m.tableSize ∧ l.length + 1 ≤ m'.tableSize / 2 ∧
      l.length ≤ m.entries.length ∧ l.map Prod.fst ⊆ m.keys ∧ (j = 0 → l = m.entries) := by
  have hfirst : m.placeAll [e] = (m, [e]) := placeAll_singleton (hleft 0 (Nat.zero_le _))
  have hround : ∀ i, m.attempt [e] (i + 1) = m.doubled.attempt (m.entries ++ [e]) i := by
    intro i
    rw [attempt_succ, hfirst]
  obtain ⟨m', l, heq, hun, hlen, hkeys⟩ := round_iterate_untouched (l := m.entries) (j := j)
    (e := e) (doubled_untouched h.window_le)
    fun i hi => by rw [← hround]; exact hleft (i + 1) (by omega)
  have hattempt : m.attempt [e] (j + 1) = m'.placeAll (l ++ [e]) := by
    rw [hround, attempt, heq]
  have hts : m'.tableSize = 2 ^ (j + 1) * m.tableSize := by
    rw [← attempt_tableSize m [e], hattempt, placeAll_tableSize]
  refine ⟨m', l, hattempt, hun, hts, ?_, hlen, hkeys, ?_⟩
  · -- at most half the old table is in use
    have hin := h.inUse_le
    have hhalf := h.size_le
    have hwin : 8 ≤ m.tableSize := h.window_le
    have hpow : 2 * m.tableSize ≤ 2 ^ (j + 1) * m.tableSize :=
      Nat.mul_le_mul_right _ (Nat.le_self_pow (Nat.succ_ne_zero j) 2)
    rw [hts]
    omega
  · rintro rfl
    rw [Function.iterate_zero, id, Prod.mk.injEq] at heq
    exact (List.append_inj_left' heq.2 rfl).symm

end Hashmap

end CLibrary
