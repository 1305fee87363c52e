import CLibrary.HashMap.Slots

/-!
The length of the map, and iterating over it.

* `Accurate`: the map is well formed and `size` is the number of slots in use.
* `Intact.placeAll`, `placeAll_spec`: pairs whose keys are new and distinct are
  stored or left, none of them twice and none lost.
* `attempt_roundOk`: every round of a put has the pairs of the map to store, and
  then its own.
* `CountsKeys`: what `hashmap_length` and `hashmap_iterate` should give.
* `hashmap_counts_twice`: `hashmap_put` counts a key it stores over as a new one.
* `hashmap_counts_keys`: they give it in every state of every run whose puts are
  of keys not stored at the time.
* `Continues`, `iterateLoop_cases`: what becomes of a function that may stop;
  `hashmap_iterate_stops`: in every run.
-/

namespace CLibrary

open Probing

variable {α : Type*}

namespace Hashmap

/-! ### Storing new keys -/

/-- The keys in use, in the order of their slots. -/
def keys (m : Hashmap α) : List CString := m.entries.map Prod.fst

lemma mem_entries {m : Hashmap α} {k : CString} {v : α} : (k, v) ∈ m.entries ↔ m.Holds k v :=
  mem_pairs

lemma mem_keys {m : Hashmap α} {k : CString} : k ∈ m.keys ↔ ∃ v, m.Holds k v := by
  constructor
  · intro h
    obtain ⟨⟨k', v⟩, hkv, rfl⟩ := List.mem_map.mp h
    exact ⟨v, mem_entries.mp hkv⟩
  · rintro ⟨v, hv⟩
    exact List.mem_map.mpr ⟨(k, v), mem_entries.mpr hv, rfl⟩

lemma doubled_entries (m : Hashmap α) : m.doubled.entries = [] := empty_entries

lemma doubled_wf {m : Hashmap α} (h : m.WF) : m.doubled.WF :=
  empty_WF (h.window_le.trans (Nat.le_mul_of_pos_left _ (by decide)))

lemma keys_length (m : Hashmap α) : m.keys.length = m.entries.length := List.length_map _

/-- No key is in use twice. -/
lemma Intact.keys_nodup {m : Hashmap α} (h : m.Intact) : m.keys.Nodup := by
  rw [keys, List.Nodup, List.pairwise_map, entries, pairs, List.pairwise_filterMap]
  refine List.pairwise_lt_range.imp_of_mem fun {i j} hi hj hlt e he e' he' heq => ?_
  obtain ⟨k, v⟩ := e
  obtain ⟨k', v'⟩ := e'
  obtain rfl : k = k' := heq
  have := h.unique i (List.mem_range.mp hi) j (List.mem_range.mp hj) k v v' he he'
  omega

lemma keys_nodup {m : Hashmap α} (h : m.WF) : m.keys.Nodup := h.intact.keys_nodup

/-- A new key is stored in a free slot. -/
lemma Intact.store {m : Hashmap α} {k : CString} {index : ℕ} (h : m.Intact) (hk : k ∉ m.keys)
    (hindex : m.hashmapHash k = some index) (v : α) :
    (m.store index k v).Intact ∧ (m.store index k v).entries.Perm ((k, v) :: m.entries) := by
  have hnew : ∀ v', ¬ m.Holds k v' := fun v' hv' => hk (mem_keys.mpr ⟨v', hv'⟩)
  obtain ⟨hlt, hfree, hreached⟩ := h.store_new hnew (hashmapHash_eq_some hindex).2 v
  exact ⟨hreached, pairs_store hlt hfree⟩

lemma store_spec {m : Hashmap α} {k : CString} {index : ℕ} (h : m.WF) (hk : k ∉ m.keys)
    (hindex : m.hashmapHash k = some index) (v : α) :
    (m.store index k v).WF ∧ (m.store index k v).entries.Perm ((k, v) :: m.entries) := by
  obtain ⟨hintact, hperm⟩ := h.intact.store hk hindex v
  exact ⟨hintact.wf h.window_le, hperm⟩

/-- **Storing new pairs** with distinct keys: some are stored and the others
left. -/
lemma Intact.placeAll {m : Hashmap α} {l : List (CString × α)} (h : m.Intact)
    (hnodup : ((m.entries ++ l).map Prod.fst).Nodup) :
    (m.placeAll l).1.Intact ∧
      ((m.placeAll l).1.entries ++ (m.placeAll l).2).Perm (m.entries ++ l) ∧
      (m.placeAll l).1.size + (m.placeAll l).2.length = m.size + l.length := by
  induction l generalizing m with
  | nil => exact ⟨h, List.Perm.refl _, rfl⟩
  | cons e l ih =>
      cases hindex : m.hashmapHash e.1 with
      | none =>
          rw [placeAll_of_none hindex]
          exact ⟨h, List.Perm.refl _, rfl⟩
      | some index =>
          have hk : e.1 ∉ m.keys := by
            rw [List.map_append, List.map_cons] at hnodup
            exact fun hmem => (List.disjoint_of_nodup_append hnodup) hmem List.mem_cons_self
          obtain ⟨hstored, hperm⟩ := h.store hk hindex e.2
          have hmove : ((m.store index e.1 e.2).entries ++ l).Perm (m.entries ++ e :: l) :=
            (hperm.append_right l).trans List.perm_middle.symm
          obtain ⟨hplaced, hperm', hsize⟩ := ih hstored ((hmove.map _).nodup_iff.mpr hnodup)
          rw [placeAll_of_some hindex]
          refine ⟨hplaced, hperm'.trans hmove, ?_⟩
          rw [hsize, List.length_cons]
          change m.size + 1 + _ = _
          push_cast
          ring

lemma placeAll_spec {m : Hashmap α} {l : List (CString × α)} (h : m.WF)
    (hnodup : ((m.entries ++ l).map Prod.fst).Nodup) :
    (m.placeAll l).1.WF ∧
      ((m.placeAll l).1.entries ++ (m.placeAll l).2).Perm (m.entries ++ l) ∧
      (m.placeAll l).1.size + (m.placeAll l).2.length = m.size + l.length := by
  obtain ⟨hintact, hperm, hsize⟩ := h.intact.placeAll hnodup
  refine ⟨hintact.wf ?_, hperm, hsize⟩
  rw [placeAll_tableSize]
  exact h.window_le

/-- Storing a list and one pair more. -/
lemma placeAll_append {m : Hashmap α} (l : List (CString × α)) (e : CString × α) :
    m.placeAll (l ++ [e]) =
      if (m.placeAll l).2 = [] then (m.placeAll l).1.placeAll [e]
      else ((m.placeAll l).1, (m.placeAll l).2 ++ [e]) := by
  induction l generalizing m with
  | nil => rfl
  | cons e' l ih =>
      rw [List.cons_append]
      cases hindex : m.hashmapHash e'.1 with
      | some index => rw [placeAll_of_some hindex, placeAll_of_some hindex, ih]
      | none => rw [placeAll_of_none hindex, placeAll_of_none hindex, if_neg (List.cons_ne_nil _ _),
          List.cons_append]

/-- The map stores some of the pairs, `rest` are the others, and `size` counts
the ones it stores. -/
structure Holding (pairs : List (CString × α)) (m : Hashmap α) (rest : List (CString × α)) :
    Prop where
  wf : m.WF
  perm : (m.entries ++ rest).Perm pairs
  size_eq : m.size = m.entries.length

/-- What a round makes of `pairs` and then `e`: it leaves some of them and `e`,
or stores them all and then `e`. -/
def RoundOk (pairs : List (CString × α)) (e : CString × α)
    (r : Hashmap α × List (CString × α)) : Prop :=
  (∃ m rest, Holding pairs m rest ∧ r = (m, rest ++ [e])) ∨
    ∃ m index, Holding pairs m [] ∧ m.hashmapHash e.1 = some index ∧
      r = (m.store index e.1 e.2, [])

lemma Holding.trans {pairs pairs' : List (CString × α)} {m : Hashmap α}
    {rest : List (CString × α)} (h : Holding pairs m rest) (hperm : pairs.Perm pairs') :
    Holding pairs' m rest :=
  ⟨h.wf, h.perm.trans hperm, h.size_eq⟩

lemma RoundOk.trans {pairs pairs' : List (CString × α)} {e : CString × α}
    {r : Hashmap α × List (CString × α)} (h : RoundOk pairs e r) (hperm : pairs.Perm pairs') :
    RoundOk pairs' e r := by
  rcases h with ⟨m, rest, hhold, heq⟩ | ⟨m, index, hhold, hindex, heq⟩
  · exact Or.inl ⟨m, rest, hhold.trans hperm, heq⟩
  · exact Or.inr ⟨m, index, hhold.trans hperm, hindex, heq⟩

/-- A single round. -/
lemma placeAll_roundOk {m : Hashmap α} {l : List (CString × α)} (h : m.WF)
    (hsize : m.size = m.entries.length) (hnodup : ((m.entries ++ l).map Prod.fst).Nodup)
    (e : CString × α) : RoundOk (m.entries ++ l) e (m.placeAll (l ++ [e])) := by
  obtain ⟨hwf, hperm, hcount⟩ := placeAll_spec h hnodup
  have hlen := hperm.length_eq
  rw [List.length_append, List.length_append] at hlen
  have hhold : Holding (m.entries ++ l) (m.placeAll l).1 (m.placeAll l).2 :=
    ⟨hwf, hperm, by omega⟩
  rw [placeAll_append]
  split_ifs with hnil
  · rw [hnil] at hhold
    cases hindex : (m.placeAll l).1.hashmapHash e.1 with
    | some index =>
        refine Or.inr ⟨_, index, hhold, hindex, ?_⟩
        rw [placeAll_of_some hindex, placeAll]
    | none =>
        refine Or.inl ⟨_, [], hhold, ?_⟩
        rw [placeAll_of_none hindex, List.nil_append]
  · exact Or.inl ⟨_, _, hhold, rfl⟩

/-- **Every round of a put** has the pairs of the map to store, and then the pair
of the put. -/
lemma attempt_roundOk {m : Hashmap α} {l : List (CString × α)} (h : m.WF)
    (hsize : m.size = m.entries.length) (hnodup : ((m.entries ++ l).map Prod.fst).Nodup)
    (e : CString × α) (j : ℕ) (hleft : ∀ i < j, (m.attempt (l ++ [e]) i).2 ≠ []) :
    RoundOk (m.entries ++ l) e (m.attempt (l ++ [e]) j) := by
  induction j generalizing m l with
  | zero => exact placeAll_roundOk h hsize hnodup e
  | succ j ih =>
      have h0 := hleft 0 (Nat.succ_pos j)
      rw [attempt_zero] at h0
      rcases placeAll_roundOk h hsize hnodup e with ⟨m', rest, hhold, heq⟩ | ⟨m', index, -, -, heq⟩
      · -- the pair of the put stays the last
        have hnext : ∀ i, m.attempt (l ++ [e]) (i + 1) =
            m'.doubled.attempt ((m'.entries ++ rest) ++ [e]) i := by
          intro i
          rw [attempt_succ, heq, List.append_assoc]
        have hnil : m'.doubled.entries ++ (m'.entries ++ rest) = m'.entries ++ rest := by
          rw [doubled_entries, List.nil_append]
        have hrest := ih (m := m'.doubled) (l := m'.entries ++ rest) (doubled_wf hhold.wf)
          (by rw [doubled_entries]; rfl)
          (by rw [hnil]; exact (hhold.perm.map _).nodup_iff.mpr hnodup)
          (fun i hi => by rw [← hnext]; exact hleft (i + 1) (by omega))
        rw [hnil] at hrest
        rw [hnext]
        exact hrest.trans hhold.perm
      · rw [heq] at h0
        exact absurd rfl h0

/-- A single pair that finds no slot is left. -/
lemma placeAll_singleton {m : Hashmap α} {e : CString × α} (h : (m.placeAll [e]).2 ≠ []) :
    m.placeAll [e] = (m, [e]) := by
  cases hindex : m.hashmapHash e.1 with
  | some index =>
      rw [placeAll_of_some hindex] at h
      exact absurd rfl h
  | none => rw [placeAll_of_none hindex]

/-- The rounds of a put after the first. -/
lemma put_roundOk_succ {m : Hashmap α} (h : m.WF) {callocOk : ℕ → Bool} {n : ℕ}
    {e : CString × α} {j : ℕ} (hreach : Reaches callocOk n m [e] (j + 1)) :
    RoundOk m.entries e (m.attempt [e] (j + 1)) := by
  have hfirst : m.placeAll [e] = (m, [e]) := placeAll_singleton (hreach 0 (Nat.succ_pos j)).1
  have hnext : ∀ i, m.attempt [e] (i + 1) = m.doubled.attempt (m.entries ++ [e]) i := by
    intro i
    rw [attempt_succ, hfirst]
  have hnil : m.doubled.entries ++ m.entries = m.entries := by
    rw [doubled_entries, List.nil_append]
  have hround := attempt_roundOk (m := m.doubled) (l := m.entries) (doubled_wf h)
    (by rw [doubled_entries]; rfl) (by rw [hnil]; exact keys_nodup h) e j
    fun i hi => by rw [← hnext]; exact (hreach (i + 1) (by omega)).1
  rw [hnil] at hround
  rw [hnext]
  exact hround

/-- The rounds of a put. -/
lemma put_roundOk {m : Hashmap α} (h : m.WF) (hsize : m.size = m.entries.length)
    {callocOk : ℕ → Bool} {n : ℕ} {e : CString × α} {j : ℕ}
    (hreach : Reaches callocOk n m [e] j) : RoundOk m.entries e (m.attempt [e] j) := by
  cases j with
  | zero =>
      have hnil : m.entries ++ [] = m.entries := List.append_nil _
      have hround := placeAll_roundOk (l := []) h hsize (by rw [hnil]; exact keys_nodup h) e
      rwa [hnil] at hround
  | succ j => exact put_roundOk_succ h hreach

/-! ### Accurate maps -/

/-- The map is well formed, and `size` is the number of slots in use. -/
structure Accurate (m : Hashmap α) : Prop where
  wf : m.WF
  size_eq : m.size = m.entries.length

namespace Accurate

variable {m : Hashmap α} {key : CString}

/-- A put of a new key, also one that runs out of memory. -/
lemma put (h : Accurate m) {callocOk : ℕ → Bool} {fuel : ℕ} {value : α} {r : PutResult α}
    (hk : key ∉ m.keys) (hr : m.hashmapPut callocOk fuel 0 key value = some r) :
    Accurate r.map := by
  obtain ⟨j, hreach, hend⟩ := hashmapPut_returns_iff.mp ⟨fuel, hr⟩
  rw [hend.map_eq]
  rcases put_roundOk h.wf h.size_eq hreach with ⟨m', rest, hhold, heq⟩ |
    ⟨m', index, hhold, hindex, heq⟩
  · rw [heq]
    exact ⟨hhold.wf, hhold.size_eq⟩
  · have hkeys : key ∉ m'.keys := by
      have hperm := hhold.perm
      rw [List.append_nil] at hperm
      exact fun hmem => hk ((hperm.map Prod.fst).mem_iff.mp hmem)
    obtain ⟨hwf, hperm⟩ := store_spec hhold.wf hkeys hindex value
    rw [heq]
    refine ⟨hwf, ?_⟩
    have hlen := hperm.length_eq
    have hsize := hhold.size_eq
    rw [List.length_cons] at hlen
    change m'.size + 1 = ((m'.store index key value).entries.length : ℤ)
    omega

/-- A remove. -/
lemma remove (h : Accurate m) (key : CString) : Accurate (m.hashmapRemove key).2 := by
  refine ⟨(hashmapRemove_spec h.wf key).1, ?_⟩
  rw [hashmapRemove]
  cases hj : probe m.tableSize (keyAt m.data key) maxChainLength (m.hashInt key) with
  | none => exact h.size_eq
  | some curr =>
      obtain ⟨hlt, v, hv⟩ := h.wf.probe_key_spec hj
      have hlen : m.entries.length =
          (pairs (Function.update m.data curr none) m.tableSize).length + 1 :=
        (pairs_free hlt hv).length_eq
      have hsize := h.size_eq
      change m.size - 1 = (pairs (Function.update m.data curr none) m.tableSize).length
      omega

end Accurate

/-! ### Iterating -/

section Iterating

variable {σ : Type*} {f : σ → α → ℤ × σ} {item : σ} {d : α} {values : List α}

/-- What the calls of `f` on the values leave. -/
def called (f : σ → α → ℤ × σ) (item : σ) (values : List α) : σ :=
  values.foldl (fun s d => (f s d).2) item

/-- Every call of `f` on the values returns `MAP_OK`. -/
def Continues (f : σ → α → ℤ × σ) (item : σ) (values : List α) : Prop :=
  ∀ seen d rest, values = seen ++ d :: rest → (f (called f item seen) d).1 = MapStatus.ok.code

lemma continues_nil : Continues f item [] := fun seen d rest heq =>
  absurd heq.symm (List.append_ne_nil_of_right_ne_nil seen (List.cons_ne_nil d rest))

lemma continues_cons : Continues f item (d :: values) ↔
    (f item d).1 = MapStatus.ok.code ∧ Continues f (f item d).2 values := by
  constructor
  · intro h
    exact ⟨h [] d values rfl, fun seen e rest heq => h (d :: seen) e rest (congrArg _ heq)⟩
  · rintro ⟨hd, h⟩ seen e rest heq
    rcases seen with _ | ⟨d', seen⟩
    · obtain ⟨rfl, -⟩ := List.cons.inj heq
      exact hd
    · obtain ⟨rfl, htail⟩ := List.cons.inj heq
      exact h seen e rest htail

/-- **The loop of `hashmap_iterate`** calls its function on the pairs in use, up to the
first call that does not return `MAP_OK`. -/
lemma iterateLoop_cases (f : σ → α → ℤ × σ) (data : ℕ → Option (CString × α)) (is : List ℕ)
    (item : σ) :
    (Continues f item ((is.filterMap data).map Prod.snd) ∧ iterateLoop f data is item =
      (MapStatus.ok.code, called f item ((is.filterMap data).map Prod.snd))) ∨
    ∃ before d after, (is.filterMap data).map Prod.snd = before ++ d :: after ∧
      Continues f item before ∧ (f (called f item before) d).1 ≠ MapStatus.ok.code ∧
        iterateLoop f data is item = f (called f item before) d := by
  induction is generalizing item with
  | nil => exact Or.inl ⟨continues_nil, rfl⟩
  | cons i is ih =>
      rw [iterateLoop]
      cases hi : data i with
      | none =>
          rw [List.filterMap_cons_none hi]
          exact ih item
      | some e =>
          rw [List.filterMap_cons_some hi, List.map_cons]
          dsimp only
          by_cases hok : (f item e.2).1 = MapStatus.ok.code
          · rw [if_neg (not_not.mpr hok)]
            rcases ih (f item e.2).2 with ⟨hall, heq⟩ | ⟨before, d, after, hvalues, hall, hd, heq⟩
            · exact Or.inl ⟨continues_cons.mpr ⟨hok, hall⟩, heq⟩
            · refine Or.inr ⟨e.2 :: before, d, after, congrArg _ hvalues, ?_, hd, heq⟩
              exact continues_cons.mpr ⟨hok, hall⟩
          · rw [if_pos hok]
            exact Or.inr ⟨[], e.2, _, rfl, continues_nil, hok, rfl⟩

/-- A function that always returns `MAP_OK` is called on all of them. -/
lemma iterateLoop_eq (hf : ∀ s d, (f s d).1 = MapStatus.ok.code)
    (data : ℕ → Option (CString × α)) (is : List ℕ) (item : σ) :
    iterateLoop f data is item =
      (MapStatus.ok.code,
        ((is.filterMap data).map Prod.snd).foldl (fun s d => (f s d).2) item) := by
  rcases iterateLoop_cases f data is item with ⟨-, heq⟩ | ⟨before, d, -, -, -, hd, -⟩
  · exact heq
  · exact absurd (hf _ d) hd

end Iterating

/-- `hashmap_length` is the number of keys stored, which is the number of slots
in use.  `hashmap_iterate` calls a function that returns `MAP_OK` once for each
of them, with its value, and returns `MAP_MISSING` exactly when there are
none. -/
structure CountsKeys (m : Hashmap α) : Prop where
  length_eq : m.hashmapLength = m.keys.toFinset.card
  inUse_eq : m.keys.toFinset.card = m.entries.length
  calls_eq : ∀ {σ : Type} (f : σ → α → ℤ × σ) (item : σ), (∀ s d, (f s d).1 = MapStatus.ok.code) →
    (m.hashmapIterate f item).2 = (m.entries.map Prod.snd).foldl (fun s d => (f s d).2) item
  missing_iff : ∀ {σ : Type} (f : σ → α → ℤ × σ) (item : σ),
    (∀ s d, (f s d).1 = MapStatus.ok.code) →
    ((m.hashmapIterate f item).1 = MapStatus.missing.code ↔ ∀ k v, ¬ m.Holds k v)

/-- An accurate map counts its keys. -/
lemma Accurate.countsKeys {m : Hashmap α} (h : Accurate m) : CountsKeys m := by
  have hcard : m.keys.toFinset.card = m.entries.length := by
    rw [List.toFinset_card_of_nodup (keys_nodup h.wf), keys_length]
  have hempty : m.size ≤ 0 ↔ m.entries = [] := by
    rw [h.size_eq, ← List.length_eq_zero_iff]
    omega
  have hnone : m.entries = [] ↔ ∀ k v, ¬ m.Holds k v := by
    rw [List.eq_nil_iff_forall_not_mem, Prod.forall]
    exact forall₂_congr fun k v => not_congr mem_entries
  refine ⟨h.size_eq.trans (by rw [hcard]), hcard, fun f item hf => ?_, fun f item hf => ?_⟩
  · rw [hashmapIterate, hashmapLength]
    split_ifs with hsize
    · rw [hempty.mp hsize]
      rfl
    · rw [iterateLoop_eq hf]
      rfl
  · rw [← hnone, ← hempty, hashmapIterate, hashmapLength]
    split_ifs with hsize
    · exact iff_of_true rfl hsize
    · refine iff_of_false ?_ hsize
      rw [iterateLoop_eq hf]
      exact show MapStatus.ok.code ≠ MapStatus.missing.code by decide

/-- **A put of a key that is stored** counts it as a new one. -/
lemma Accurate.not_countsKeys {m : Hashmap α} (h : Accurate m) {key : CString} {value : α}
    (hk : key ∈ m.keys) {callocOk : ℕ → Bool} {fuel : ℕ} {r : PutResult α}
    (hr : m.hashmapPut callocOk fuel 0 key value = some r) (hok : r.status = .ok) :
    ¬ CountsKeys r.map := by
  obtain ⟨j, hreach, hend⟩ := hashmapPut_returns_iff.mp ⟨fuel, hr⟩
  have hleft : (m.attempt [(key, value)] j).2 = [] := by
    rcases hend with ⟨hnil, -⟩ | ⟨-, -, -, rfl⟩
    · exact hnil
    · cases hok
  rcases put_roundOk h.wf h.size_eq hreach with ⟨m', rest, -, heq⟩ | ⟨m', index, hhold, -, heq⟩
  · rw [heq] at hleft
    exact absurd hleft (List.append_ne_nil_of_right_ne_nil rest (List.cons_ne_nil _ _))
  · have hperm := hhold.perm
    rw [List.append_nil] at hperm
    have hk' : key ∈ m'.keys := (hperm.map Prod.fst).mem_iff.mpr hk
    -- no key is in use that was not before
    have hsub : r.map.keys.toFinset ⊆ m'.keys.toFinset := by
      intro k hmem
      rw [List.mem_toFinset] at hmem ⊢
      rw [hend.map_eq, heq] at hmem
      obtain ⟨v, i, hi, hiv⟩ := mem_keys.mp hmem
      change Function.update m'.data index (some (key, value)) i = some (k, v) at hiv
      by_cases hii : i = index
      · rw [hii, Function.update_self, Option.some_inj, Prod.mk.injEq] at hiv
        rw [← hiv.1]
        exact hk'
      · rw [Function.update_of_ne hii] at hiv
        exact mem_keys.mpr ⟨v, i, hi, hiv⟩
    intro hcount
    have hsize : r.map.hashmapLength = m'.size + 1 := by
      rw [hend.map_eq, heq]
      rfl
    have hcard := Finset.card_le_card hsub
    rw [List.toFinset_card_of_nodup (keys_nodup hhold.wf), keys_length] at hcard
    have heqs := hcount.length_eq
    rw [hsize, hhold.size_eq] at heqs
    omega

end Hashmap

/-! ### Runs -/

/-- A put is of a key that is not stored, or it needs a rehash that gets no memory. -/
def MapCall.Fresh (m : Hashmap α) : MapCall α → Prop
  | .put key _ callocOk _ => key ∉ m.keys ∨ m.size ≥ m.tableSize / 2 ∧ callocOk 0 = false
  | _ => True

/-- A put into a half full table that gets no memory does nothing. -/
lemma hashmapPut_half_full {m : Hashmap α} {key : CString} {value : α} {callocOk : ℕ → Bool}
    {fuel : ℕ} {r : PutResult α} (hhalf : m.size ≥ m.tableSize / 2) (hcalloc : callocOk 0 = false)
    (hr : m.hashmapPut callocOk fuel 0 key value = some r) : r.map = m := by
  cases fuel with
  | zero => cases hr
  | succ fuel =>
      rw [Hashmap.hashmapPut_of_none (by rw [Hashmap.hashmapHash, if_pos hhalf])] at hr
      split_ifs at hr with hsize hok
      · exact absurd (hcalloc.symm.trans hok) Bool.false_ne_true
      · obtain rfl := Option.some.inj hr
        rfl

/-- One call keeps the count. -/
lemma accurate_step {m m' : Hashmap α} {a : MapCall α} (h : m.Accurate) (ha : a.Fresh m)
    (hs : a.step m = some m') : m'.Accurate := by
  cases a with
  | get key =>
      obtain rfl := Option.some.inj hs
      exact h
  | remove key =>
      obtain rfl := Option.some.inj hs
      exact h.remove key
  | put key value callocOk fuel =>
      obtain ⟨r, hr, rfl⟩ := Option.map_eq_some_iff.mp hs
      rcases ha with hk | ⟨hhalf, hcalloc⟩
      · exact h.put hk hr
      · rwa [hashmapPut_half_full hhalf hcalloc hr]

lemma accurate_new : (Hashmap.hashmapNew : Hashmap α).Accurate :=
  ⟨Hashmap.empty_WF (by decide), by
    rw [Hashmap.hashmapNew, Hashmap.empty_entries]
    rfl⟩

lemma keys_new : (Hashmap.hashmapNew : Hashmap α).keys = [] := by
  rw [Hashmap.keys, Hashmap.hashmapNew, Hashmap.empty_entries, List.map_nil]

/-- The first put stores its pair. -/
lemma holds_first_put {callocOk : ℕ → Bool} {fuel : ℕ} {key : CString} {value : α}
    {r : PutResult α} (hr : Hashmap.hashmapNew.hashmapPut callocOk fuel 0 key value = some r)
    (hok : r.status = .ok) : r.map.Holds key value := by
  have hdone := (Hashmap.hashmapPut_spec callocOk fuel 0 _ key value r accurate_new.wf
    (fun _ => Hashmap.empty_tidy key) hr).1 hok
  exact (hdone.holds key value).mpr (by simp)

/-- **A key put twice is counted twice.** -/
theorem hashmap_counts_twice :
    ∃ m : Hashmap ℕ,
      Run MapCall.step (fun _ _ => True) Hashmap.hashmapNew
        [.put keyW 1 (fun _ => true) 1, .put keyW 2 (fun _ => true) 1] m ∧ ¬ m.CountsKeys := by
  have hfirst : ((Hashmap.hashmapNew : Hashmap ℕ).hashmapPut (fun _ => true) 1 0 keyW 1).map
      (fun r => (r.status, (r.map.hashmapPut (fun _ => true) 1 0 keyW 2).map PutResult.status)) =
        some (.ok, some .ok) := by
    decide +kernel
  obtain ⟨r, hr, heq⟩ := Option.map_eq_some_iff.mp hfirst
  rw [Prod.mk.injEq] at heq
  obtain ⟨r', hr', hok'⟩ := Option.map_eq_some_iff.mp heq.2
  have hrun : Run MapCall.step (fun _ _ => True) Hashmap.hashmapNew
      [.put keyW 1 (fun _ => true) 1, .put keyW 2 (fun _ => true) 1] r'.map :=
    (Run.nil.snoc trivial (by rw [MapCall.step, hr]; rfl)).snoc trivial
      (by rw [MapCall.step, hr']; rfl)
  have hnew : keyW ∉ (Hashmap.hashmapNew : Hashmap ℕ).keys := keys_new ▸ List.not_mem_nil
  have hstored : keyW ∈ r.map.keys := Hashmap.mem_keys.mpr ⟨1, holds_first_put hr heq.1⟩
  exact ⟨r'.map, hrun, (accurate_new.put hnew hr).not_countsKeys hstored hr' hok'⟩

/-- **The length of the map**: in every state of every run whose puts are of
keys not stored at the time, or do nothing for want of memory, also after puts that
ran out of memory on the way, `hashmap_length` counts the keys, and `hashmap_iterate`
calls its function once for each of them.  After one more put that returns `MAP_OK`
they still do exactly when its key was not stored either. -/
theorem hashmap_counts_keys {as : List (MapCall α)} {m : Hashmap α}
    (hrun : Run MapCall.step MapCall.Fresh Hashmap.hashmapNew as m) :
    m.CountsKeys ∧
      ∀ (key : CString) (value : α) (callocOk : ℕ → Bool) (fuel : ℕ) (r : PutResult α),
        m.hashmapPut callocOk fuel 0 key value = some r → r.status = .ok →
        (r.map.CountsKeys ↔ key ∉ m.keys) := by
  have h : m.Accurate := hrun.invariant (I := fun _ m => m.Accurate) accurate_new
    fun _ _ _ _ h ha hs => accurate_step h ha hs
  refine ⟨h.countsKeys, fun key value callocOk fuel r hr hok => ?_⟩
  constructor
  · intro hcount hk
    exact h.not_countsKeys hk hr hok hcount
  · intro hk
    exact (h.put hk hr).countsKeys

/-- A key put, removed and put again. -/
theorem hashmap_of_one_counts_keys :
    ∃ (m : Hashmap ℕ) (r : PutResult ℕ),
      Run MapCall.step MapCall.Fresh Hashmap.hashmapNew
        [.put keyW 1 (fun _ => true) 1, .remove keyW] m ∧ m.CountsKeys ∧
      m.hashmapPut (fun _ => true) 1 0 keyW 3 = some r ∧ r.map.CountsKeys := by
  have hputs : ((Hashmap.hashmapNew : Hashmap ℕ).hashmapPut (fun _ => true) 1 0 keyW 1).map
      (fun r => ((r.map.hashmapRemove keyW).2.hashmapPut (fun _ => true) 1 0 keyW 3).map
        PutResult.status) = some (some .ok) := by
    decide +kernel
  obtain ⟨r, hr, heq⟩ := Option.map_eq_some_iff.mp hputs
  obtain ⟨r', hr', hok'⟩ := Option.map_eq_some_iff.mp heq
  have hnew : keyW ∉ (Hashmap.hashmapNew : Hashmap ℕ).keys := keys_new ▸ List.not_mem_nil
  have hput : Run MapCall.step MapCall.Fresh Hashmap.hashmapNew
      [.put keyW 1 (fun _ => true) 1] r.map :=
    Run.nil.snoc (Or.inl hnew) (by rw [MapCall.step, hr]; rfl)
  have hrun : Run MapCall.step MapCall.Fresh Hashmap.hashmapNew
      [.put keyW 1 (fun _ => true) 1, .remove keyW] (r.map.hashmapRemove keyW).2 :=
    hput.snoc trivial rfl
  have hgone : keyW ∉ (r.map.hashmapRemove keyW).2.keys := by
    intro hmem
    obtain ⟨v, hv⟩ := Hashmap.mem_keys.mp hmem
    have hwf := (accurate_new.put hnew hr).wf
    exact (((Hashmap.hashmapRemove_spec hwf keyW).2 keyW v).mp hv).1 rfl
  obtain ⟨hcounts, hnext⟩ := hashmap_counts_keys hrun
  exact ⟨_, r', hrun, hcounts, hr', (hnext keyW 3 _ 1 r' hr' hok').mpr hgone⟩

/-- **Iterating ends where its function does**: in every state of every run, whatever keys
are put and also after puts that ran out of memory, `hashmap_iterate` returns
`MAP_MISSING` without a call only if nothing is stored; otherwise it calls its function
on the values of all pairs in slots and returns `MAP_OK`, or on those up to the first
call that does not return `MAP_OK`, and returns what that call does. -/
theorem hashmap_iterate_stops {as : List (MapCall α)} {m : Hashmap α}
    (hrun : Run MapCall.step (fun _ _ => True) Hashmap.hashmapNew as m) {σ : Type*}
    (f : σ → α → ℤ × σ) (item : σ) :
    (m.hashmapLength ≤ 0 ∧ (∀ k v, ¬ m.Holds k v) ∧
      m.hashmapIterate f item = (MapStatus.missing.code, item)) ∨
    (Hashmap.Continues f item (m.entries.map Prod.snd) ∧
      m.hashmapIterate f item =
        (MapStatus.ok.code, Hashmap.called f item (m.entries.map Prod.snd))) ∨
    ∃ before d after, m.entries.map Prod.snd = before ++ d :: after ∧
      Hashmap.Continues f item before ∧
        (f (Hashmap.called f item before) d).1 ≠ MapStatus.ok.code ∧
          m.hashmapIterate f item = f (Hashmap.called f item before) d := by
  rw [Hashmap.hashmapIterate]
  split_ifs with hsize
  · refine Or.inl ⟨hsize, fun k v hkv => ?_, rfl⟩
    have hpos := List.length_pos_of_mem (Hashmap.mem_entries.mpr hkv)
    have hle := (slotsOk_of_run hrun).inUse_le
    rw [Hashmap.hashmapLength] at hsize
    omega
  · exact Or.inr (Hashmap.iterateLoop_cases f m.data (List.range m.tableSize) item)

/-- A function that stops at its first call. -/
theorem hashmap_of_one_stops : ∃ m : Hashmap ℕ,
    Run MapCall.step (fun _ _ => True) Hashmap.hashmapNew [.put keyW 1 (fun _ => true) 1] m ∧
    m.hashmapIterate (fun calls _ => (7, calls + 1)) 0 = (7, 1) := by
  have hput : ((Hashmap.hashmapNew : Hashmap ℕ).hashmapPut (fun _ => true) 1 0 keyW 1).map
      PutResult.status = some .ok := by
    decide +kernel
  obtain ⟨r, hr, hok⟩ := Option.map_eq_some_iff.mp hput
  have hrun : Run MapCall.step (fun _ _ => True) Hashmap.hashmapNew
      [.put keyW 1 (fun _ => true) 1] r.map :=
    Run.nil.snoc trivial (by rw [MapCall.step, hr]; rfl)
  have hstored : r.map.Holds keyW 1 := holds_first_put hr hok
  have hseven : (7 : ℤ) ≠ MapStatus.ok.code := by decide
  refine ⟨r.map, hrun, ?_⟩
  rcases hashmap_iterate_stops hrun (fun calls _ => (7, calls + 1)) 0 with
    ⟨-, hnone, -⟩ | ⟨hall, -⟩ | ⟨before, d, after, -, hall, -, heq⟩
  · exact absurd hstored (hnone keyW 1)
  · obtain ⟨seen, rest, hentries⟩ := List.append_of_mem (Hashmap.mem_entries.mpr hstored)
    refine absurd (hall (seen.map Prod.snd) 1 (rest.map Prod.snd) ?_) hseven
    rw [hentries, List.map_append, List.map_cons]
  · rcases before with _ | ⟨d', before⟩
    · exact heq
    · exact absurd (hall [] d' before rfl) hseven

end CLibrary
