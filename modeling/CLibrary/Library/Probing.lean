import CLibrary.Library.Circular

/-!
Open addressing with probe windows of bounded length.

A table of `n` slots holds pairs of a key and a value.  A key `k` may lie in
one of the `w` slots from `home k` on, around the end of the table; every
operation walks over that window.

* `probe`: the walk, with `probe_eq_some_iff` and `probe_eq_none_iff` saying
  what it finds.
* `Reached`: every pair lies at most `w` slots from its home and no key occurs
  twice.  `Reached.store_new`: storing a new key keeps this.
* `Placed`: the same where the window fits in the table.
* `Unholed`: no slot of the window in front of the key is free.
* `pairs`: what a table holds, as a list, and what storing and freeing do to it.
* `Placed.insert`, `Placed.erase`: storing a pair in the first slot that is
  free or has the key, and freeing the slot that has it.  Only the first needs
  the window to be unholed.
-/

namespace CLibrary

namespace Probing

variable {K V β : Type*}

/-! ### The walk -/

/-- The first result of `f` in the `w` slots from `curr` on. -/
def probe (n : ℕ) (f : ℕ → Option β) : ℕ → ℕ → Option β
  | 0, _ => none
  | w + 1, curr =>
      match f curr with
      | some b => some b
      | none => probe n f w ((curr + 1) % n)

section Walk

variable {n w curr : ℕ} {f : ℕ → Option β} {b : β}

/-- The slot `d + 1` steps on is the one `d` steps on from the next. -/
lemma succ_add_mod (n curr d : ℕ) : (curr + (d + 1)) % n = ((curr + 1) % n + d) % n := by
  rw [Nat.mod_add_mod]
  congr 1
  omega

/-- The walk finds nothing exactly when no slot of the window has a result. -/
lemma probe_eq_none_iff (hcurr : curr < n) :
    probe n f w curr = none ↔ ∀ d < w, f ((curr + d) % n) = none := by
  induction w generalizing curr with
  | zero => simp [probe]
  | succ w ih =>
      have hhead : f ((curr + 0) % n) = f curr := by rw [Nat.add_zero, Nat.mod_eq_of_lt hcurr]
      rw [probe]
      cases hf : f curr with
      | some b =>
          refine ⟨fun h => by simp at h, fun h => ?_⟩
          have h0 := h 0 (Nat.succ_pos w)
          rw [hhead, hf] at h0
          cases h0
      | none =>
          change probe n f w ((curr + 1) % n) = none ↔ _
          rw [ih (Nat.mod_lt _ (by omega))]
          constructor
          · rintro h (_ | d) hd
            · rw [hhead, hf]
            · rw [succ_add_mod]
              exact h d (by omega)
          · intro h d hd
            rw [← succ_add_mod]
            exact h (d + 1) (by omega)

/-- The walk finds the result of the first slot that has one. -/
lemma probe_eq_some_iff (hcurr : curr < n) :
    probe n f w curr = some b ↔
      ∃ d < w, f ((curr + d) % n) = some b ∧ ∀ e < d, f ((curr + e) % n) = none := by
  induction w generalizing curr with
  | zero => simp [probe]
  | succ w ih =>
      have hhead : f ((curr + 0) % n) = f curr := by rw [Nat.add_zero, Nat.mod_eq_of_lt hcurr]
      rw [probe]
      cases hf : f curr with
      | some b' =>
          constructor
          · rintro h
            exact ⟨0, Nat.succ_pos w, by rw [hhead, hf]; exact h, fun e he => by omega⟩
          · rintro ⟨_ | d, -, hd, hbefore⟩
            · rw [hhead, hf] at hd
              exact hd
            · have h0 := hbefore 0 (Nat.succ_pos d)
              rw [hhead, hf] at h0
              cases h0
      | none =>
          change probe n f w ((curr + 1) % n) = some b ↔ _
          rw [ih (Nat.mod_lt _ (by omega))]
          constructor
          · rintro ⟨d, hd, hb, hbefore⟩
            refine ⟨d + 1, by omega, by rw [succ_add_mod]; exact hb, ?_⟩
            rintro (_ | e) he
            · rw [hhead, hf]
            · rw [succ_add_mod]
              exact hbefore e (by omega)
          · rintro ⟨_ | d, hd, hb, hbefore⟩
            · rw [hhead, hf] at hb
              cases hb
            · refine ⟨d, by omega, by rw [← succ_add_mod]; exact hb, fun e he => ?_⟩
              rw [← succ_add_mod]
              exact hbefore (e + 1) (by omega)

end Walk

/-! ### What a table holds -/

/-- The entries of the slots in use, in order. -/
def pairs (t : ℕ → Option β) (n : ℕ) : List β := (List.range n).filterMap t

section Pairs

variable {n j : ℕ} {t : ℕ → Option β} {b c : β}

lemma mem_pairs : b ∈ pairs t n ↔ ∃ j < n, t j = some b := by
  simp only [pairs, List.mem_filterMap, List.mem_range]

/-- Storing in a free slot of a list of slots. -/
lemma filterMap_update_perm {l : List ℕ} (hnodup : l.Nodup) (hj : j ∈ l) (ht : t j = none) :
    (l.filterMap (Function.update t j (some b))).Perm (b :: l.filterMap t) := by
  induction l with
  | nil => cases hj
  | cons i l ih =>
      obtain ⟨hi, hl⟩ := List.nodup_cons.mp hnodup
      rcases List.mem_cons.mp hj with rfl | hj
      · have hrest : l.filterMap (Function.update t j (some b)) = l.filterMap t :=
          List.filterMap_congr fun x hx => Function.update_of_ne (ne_of_mem_of_not_mem hx hi) _ _
        rw [List.filterMap_cons_some (Function.update_self _ _ _), hrest,
          List.filterMap_cons_none ht]
      · have hij : i ≠ j := (ne_of_mem_of_not_mem hj hi).symm
        have hsame : Function.update t j (some b) i = t i := Function.update_of_ne hij _ _
        cases hti : t i with
        | none =>
            rw [List.filterMap_cons_none (hsame.trans hti), List.filterMap_cons_none hti]
            exact ih hl hj
        | some c =>
            rw [List.filterMap_cons_some (hsame.trans hti), List.filterMap_cons_some hti]
            exact ((ih hl hj).cons c).trans (List.Perm.swap b c _)

/-- **Storing** in a free slot adds the entry. -/
lemma pairs_store (hj : j < n) (ht : t j = none) :
    (pairs (Function.update t j (some b)) n).Perm (b :: pairs t n) :=
  filterMap_update_perm List.nodup_range (List.mem_range.mpr hj) ht

/-- **Freeing** a slot takes its entry out. -/
lemma pairs_free (hj : j < n) (ht : t j = some b) :
    (pairs t n).Perm (b :: pairs (Function.update t j none) n) := by
  have hback : Function.update (Function.update t j none) j (some b) = t := by
    rw [Function.update_idem, ← ht, Function.update_eq_self]
  conv_lhs => rw [← hback]
  exact pairs_store hj (Function.update_self _ _ _)

/-- Storing over an entry leaves their number. -/
lemma pairs_length_replace (hj : j < n) (ht : t j = some c) :
    (pairs (Function.update t j (some b)) n).length = (pairs t n).length := by
  have hstore := pairs_store (t := Function.update t j none) (b := b) hj
    (Function.update_self _ _ _)
  rw [Function.update_idem] at hstore
  rw [hstore.length_eq, (pairs_free hj ht).length_eq, List.length_cons, List.length_cons]

/-- Storing adds at most one entry. -/
lemma pairs_length_store_le (hj : j < n) :
    (pairs (Function.update t j (some b)) n).length ≤ (pairs t n).length + 1 := by
  cases ht : t j with
  | none => rw [(pairs_store hj ht).length_eq, List.length_cons]
  | some c =>
      rw [pairs_length_replace hj ht]
      omega

/-- The entries of a table whose slots in use are known. -/
lemma pairs_eq_filterMap {used : List ℕ} (hsorted : used.Pairwise (· < ·))
    (hlt : ∀ i ∈ used, i < n) (hused : ∀ i, t i ≠ none → i ∈ used) :
    pairs t n = used.filterMap t := by
  have hfilter : (List.range n).filter (· ∈ used) = used := by
    have hperm : ((List.range n).filter (· ∈ used)).Perm used := by
      refine (List.perm_ext_iff_of_nodup (List.nodup_range.filter _) ?_).mpr fun i => ?_
      · exact hsorted.imp fun h => h.ne
      · rw [List.mem_filter, List.mem_range, decide_eq_true_eq]
        exact ⟨And.right, fun hi => ⟨hlt i hi, hi⟩⟩
    exact hperm.eq_of_pairwise' (List.pairwise_lt_range.filter _) hsorted
  have hskip : ∀ l : List ℕ, l.filterMap t = (l.filter (· ∈ used)).filterMap t := by
    intro l
    induction l with
    | nil => rfl
    | cons i l ih =>
        by_cases hi : i ∈ used
        · rw [List.filter_cons_of_pos (by simpa using hi), List.filterMap_cons,
            List.filterMap_cons, ih]
        · rw [List.filter_cons_of_neg (by simpa using hi),
            List.filterMap_cons_none (not_not.mp fun h => hi (hused i h)), ih]
  rw [pairs, hskip, hfilter]

/-- With fewer entries than slots there is a free one. -/
lemma exists_free (h : (pairs t n).length < n) : ∃ i < n, t i = none := by
  by_contra hall
  have hfull : (pairs t n).length = (List.range n).length :=
    List.filterMap_length_eq_length.mpr fun i hi =>
      Option.isSome_iff_ne_none.mpr fun hnone => hall ⟨i, List.mem_range.mp hi, hnone⟩
  rw [List.length_range] at hfull
  omega

end Pairs

/-! ### Tables -/

/-- The value in a slot, if the slot has the key. -/
def valueAt [DecidableEq K] (t : ℕ → Option (K × V)) (k : K) (j : ℕ) : Option V :=
  (t j).bind fun e => if e.1 = k then some e.2 else none

/-- The slot itself, if it has the key. -/
def keyAt [DecidableEq K] (t : ℕ → Option (K × V)) (k : K) (j : ℕ) : Option ℕ :=
  (t j).bind fun e => if e.1 = k then some j else none

/-- The slot itself, if it is free or has the key. -/
def vacantAt [DecidableEq K] (t : ℕ → Option (K × V)) (k : K) (j : ℕ) : Option ℕ :=
  match t j with
  | none => some j
  | some e => if e.1 = k then some j else none

/-- The pair of `k` and `v` is in the table. -/
def Stored (t : ℕ → Option (K × V)) (n : ℕ) (k : K) (v : V) : Prop := ∃ j < n, t j = some (k, v)

/-- Every pair lies in the window of its key, and no key lies in two slots. -/
structure Placed (home : K → ℕ) (n w : ℕ) (t : ℕ → Option (K × V)) : Prop where
  home_lt : ∀ k, home k < n
  window_le : w ≤ n
  reach : ∀ j < n, ∀ k v, t j = some (k, v) → ∃ d < w, j = (home k + d) % n
  unique : ∀ i < n, ∀ j < n, ∀ k v v', t i = some (k, v) → t j = some (k, v') → i = j

/-- Every pair lies at most `w` slots from its home, and no key lies in two slots;
the window may reach around the whole table. -/
structure Reached (home : K → ℕ) (n w : ℕ) (t : ℕ → Option (K × V)) : Prop where
  home_lt : ∀ k, home k < n
  reach : ∀ j < n, ∀ k v, t j = some (k, v) → ∃ d < w, j = (home k + d) % n
  unique : ∀ i < n, ∀ j < n, ∀ k v v', t i = some (k, v) → t j = some (k, v') → i = j

lemma Placed.reached {home : K → ℕ} {n w : ℕ} {t : ℕ → Option (K × V)} (h : Placed home n w t) :
    Reached home n w t :=
  ⟨h.home_lt, h.reach, h.unique⟩

lemma Reached.placed {home : K → ℕ} {n w : ℕ} {t : ℕ → Option (K × V)} (h : Reached home n w t)
    (hw : w ≤ n) : Placed home n w t :=
  ⟨h.home_lt, hw, h.reach, h.unique⟩

/-- No slot of the window of `k` in front of one that has `k` is free. -/
def Unholed (home : K → ℕ) (n w : ℕ) (t : ℕ → Option (K × V)) (k : K) : Prop :=
  ∀ d < w, (∃ v, t ((home k + d) % n) = some (k, v)) → ∀ e < d, t ((home k + e) % n) ≠ none

instance [DecidableEq K] (home : K → ℕ) (n w : ℕ) (t : ℕ → Option (K × V)) (k : K) :
    Decidable (Unholed home n w t k) :=
  decidable_of_iff (∀ d < w, (t ((home k + d) % n)).any (fun e => e.1 = k) = true →
      ∀ e < d, (t ((home k + e) % n)).isSome = true) <| by
    simp only [Unholed, Option.any_eq_true, decide_eq_true_eq, Prod.exists,
      Option.isSome_iff_ne_none]
    refine forall_congr' fun d => forall_congr' fun _ => ?_
    refine imp_congr ⟨?_, ?_⟩ Iff.rfl
    · rintro ⟨k', v, h, rfl⟩
      exact ⟨v, h⟩
    · rintro ⟨v, h⟩
      exact ⟨k, v, h, rfl⟩

section Slots

variable [DecidableEq K] {t : ℕ → Option (K × V)} {k : K} {i j : ℕ} {v : V}

lemma valueAt_eq_some_iff : valueAt t k j = some v ↔ t j = some (k, v) := by
  rw [valueAt]
  cases h : t j with
  | none => simp
  | some e =>
      obtain ⟨k', v'⟩ := e
      by_cases hk : k' = k <;> simp [hk]

lemma keyAt_eq_some_iff : keyAt t k j = some i ↔ i = j ∧ ∃ v, t j = some (k, v) := by
  rw [keyAt]
  cases h : t j with
  | none => simp
  | some e =>
      obtain ⟨k', v'⟩ := e
      by_cases hk : k' = k
      · simp [hk, eq_comm]
      · simp [hk]

lemma vacantAt_eq_some_iff :
    vacantAt t k j = some i ↔ i = j ∧ (t j = none ∨ ∃ v, t j = some (k, v)) := by
  rw [vacantAt]
  cases h : t j with
  | none => simp [eq_comm]
  | some e =>
      obtain ⟨k', v'⟩ := e
      by_cases hk : k' = k
      · simp [hk, eq_comm]
      · simp [hk]

end Slots

/-- The empty table. -/
lemma Reached.empty {home : K → ℕ} {n w : ℕ} (hhome : ∀ k, home k < n) :
    Reached home n w (fun _ => (none : Option (K × V))) :=
  ⟨hhome, fun _ _ _ _ h => (Option.some_ne_none _ h.symm).elim,
    fun _ _ _ _ _ _ _ h => (Option.some_ne_none _ h.symm).elim⟩

lemma Placed.empty {home : K → ℕ} {n w : ℕ} (hhome : ∀ k, home k < n) (hw : w ≤ n) :
    Placed home n w (fun _ => (none : Option (K × V))) := (Reached.empty hhome).placed hw

namespace Reached

variable [DecidableEq K] {home : K → ℕ} {n w j : ℕ} {t : ℕ → Option (K × V)} {k : K} {v : V}

/-- **Lookup**: the walk finds the value stored with the key. -/
theorem probe_value_iff (h : Reached home n w t) :
    probe n (valueAt t k) w (home k) = some v ↔ Stored t n k v := by
  have hhome := h.home_lt k
  rw [probe_eq_some_iff hhome]
  constructor
  · rintro ⟨d, hd, hv, -⟩
    exact ⟨_, Nat.mod_lt _ (by omega), valueAt_eq_some_iff.mp hv⟩
  · rintro ⟨j, hj, hjv⟩
    -- the first step of the walk that comes to the slot of the key
    have hreach := h.reach j hj k v hjv
    obtain ⟨hd, hdj⟩ := Nat.find_spec hreach
    refine ⟨Nat.find hreach, hd, valueAt_eq_some_iff.mpr (hdj ▸ hjv), fun e he => ?_⟩
    rw [Option.eq_none_iff_forall_ne_some]
    intro v' hv'
    have heq := h.unique _ (Nat.mod_lt _ (by omega)) _ hj k v' v (valueAt_eq_some_iff.mp hv') hjv
    exact Nat.find_min hreach he ⟨by omega, heq.symm⟩

/-- **Storing a new key**: the slot found is free, and no pair is lost. -/
theorem store_new (h : Reached home n w t) (hnew : ∀ v, ¬ Stored t n k v)
    (hj : probe n (vacantAt t k) w (home k) = some j) (v : V) :
    j < n ∧ t j = none ∧ Reached home n w (Function.update t j (some (k, v))) := by
  have hhome := h.home_lt k
  obtain ⟨d, hd, hvac, -⟩ := (probe_eq_some_iff hhome).mp hj
  obtain ⟨rfl, hfree⟩ := vacantAt_eq_some_iff.mp hvac
  have hlt : (home k + d) % n < n := Nat.mod_lt _ (by omega)
  have hnone := hfree.resolve_right fun ⟨v', hv'⟩ => hnew v' ⟨_, hlt, hv'⟩
  -- the new slot is the only one with the key
  have hcases : ∀ i < n, ∀ k' v', Function.update t ((home k + d) % n) (some (k, v)) i =
      some (k', v') → (i = (home k + d) % n ∧ k' = k) ∨ (k' ≠ k ∧ t i = some (k', v')) := by
    intro i hi k' v' hiv
    by_cases hij : i = (home k + d) % n
    · rw [hij, Function.update_self, Option.some_inj, Prod.mk.injEq] at hiv
      exact Or.inl ⟨hij, hiv.1.symm⟩
    · rw [Function.update_of_ne hij] at hiv
      refine Or.inr ⟨?_, hiv⟩
      rintro rfl
      exact hnew v' ⟨i, hi, hiv⟩
  refine ⟨hlt, hnone, h.home_lt, fun i hi k' v' hiv => ?_, fun i hi i' hi' k' v₁ v₂ h1 h2 => ?_⟩
  · rcases hcases i hi k' v' hiv with ⟨rfl, rfl⟩ | ⟨-, hold⟩
    · exact ⟨d, hd, rfl⟩
    · exact h.reach i hi k' v' hold
  · rcases hcases i hi k' v₁ h1 with ⟨rfl, hk⟩ | ⟨hk, hold⟩
    · rcases hcases i' hi' k' v₂ h2 with ⟨rfl, -⟩ | ⟨hk', -⟩
      · rfl
      · exact absurd hk hk'
    · rcases hcases i' hi' k' v₂ h2 with ⟨-, hk'⟩ | ⟨-, hold'⟩
      · exact absurd hk' hk
      · exact h.unique i hi i' hi' k' v₁ v₂ hold hold'

end Reached

namespace Placed

variable [DecidableEq K] {home : K → ℕ} {n w j : ℕ} {t : ℕ → Option (K × V)} {k k' : K} {v v' : V}

/-- **Lookup**: the walk finds the value stored with the key. -/
theorem probe_value_iff (h : Placed home n w t) :
    probe n (valueAt t k) w (home k) = some v ↔ Stored t n k v := h.reached.probe_value_iff

/-- The walk for a slot with the key finds one exactly when the key is stored. -/
lemma probe_key_iff (h : Placed home n w t) :
    (∃ j, probe n (keyAt t k) w (home k) = some j) ↔ ∃ v, Stored t n k v := by
  have hhome := h.home_lt k
  constructor
  · rintro ⟨j, hj⟩
    obtain ⟨d, hd, hk, -⟩ := (probe_eq_some_iff hhome).mp hj
    obtain ⟨-, v, hv⟩ := keyAt_eq_some_iff.mp hk
    exact ⟨v, _, Nat.mod_lt _ (by omega), hv⟩
  · rintro ⟨v, j, hj, hjv⟩
    obtain ⟨d, hd, rfl⟩ := h.reach j hj k v hjv
    by_contra hnone
    rw [not_exists] at hnone
    have hall := (probe_eq_none_iff hhome).mp (Option.eq_none_iff_forall_ne_some.mpr hnone) d hd
    rw [keyAt_eq_some_iff.mpr ⟨rfl, v, hjv⟩] at hall
    cases hall

/-- What the walk for a slot with the key finds. -/
lemma probe_key_spec (h : Placed home n w t) (hj : probe n (keyAt t k) w (home k) = some j) :
    j < n ∧ ∃ v, t j = some (k, v) := by
  have hhome := h.home_lt k
  obtain ⟨d, hd, hk, -⟩ := (probe_eq_some_iff hhome).mp hj
  obtain ⟨rfl, v, hv⟩ := keyAt_eq_some_iff.mp hk
  exact ⟨Nat.mod_lt _ (by omega), v, hv⟩

/-- **Erasing**: freeing the slot of a key takes that key out of the table and
nothing else. -/
theorem erase (h : Placed home n w t) (hj : probe n (keyAt t k) w (home k) = some j) :
    Placed home n w (Function.update t j none) ∧
      ∀ k' v', Stored (Function.update t j none) n k' v' ↔ k' ≠ k ∧ Stored t n k' v' := by
  obtain ⟨hjn, v, hv⟩ := h.probe_key_spec hj
  have hold : ∀ i k' v', Function.update t j none i = some (k', v') →
      i ≠ j ∧ t i = some (k', v') := by
    intro i k' v' hi
    by_cases hij : i = j
    · rw [hij, Function.update_self] at hi
      cases hi
    · rw [Function.update_of_ne hij] at hi
      exact ⟨hij, hi⟩
  refine ⟨⟨h.home_lt, h.window_le, fun i hi k' v' hiv => h.reach i hi k' v' (hold i k' v' hiv).2,
    fun i hi i' hi' k' v₁ v₂ h1 h2 =>
      h.unique i hi i' hi' k' v₁ v₂ (hold i k' v₁ h1).2 (hold i' k' v₂ h2).2⟩, fun k' v' => ?_⟩
  constructor
  · rintro ⟨i, hi, hiv⟩
    obtain ⟨hij, hiv⟩ := hold i k' v' hiv
    refine ⟨?_, i, hi, hiv⟩
    rintro rfl
    exact hij (h.unique i hi j hjn k' v' v hiv hv)
  · rintro ⟨hne, i, hi, hiv⟩
    refine ⟨i, hi, ?_⟩
    rw [Function.update_of_ne, hiv]
    rintro rfl
    rw [hiv] at hv
    simp only [Option.some.injEq, Prod.mk.injEq] at hv
    exact hne hv.1

/-- What the walk for a slot to store in finds: a slot of the window, behind
slots of other keys. -/
lemma probe_vacant_spec (h : Placed home n w t)
    (hj : probe n (vacantAt t k) w (home k) = some j) :
    ∃ d < w, j = (home k + d) % n ∧ (t j = none ∨ ∃ v, t j = some (k, v)) ∧
      ∀ e < d, ∃ k' v', k' ≠ k ∧ t ((home k + e) % n) = some (k', v') := by
  obtain ⟨d, hd, hv, hbefore⟩ := (probe_eq_some_iff (h.home_lt k)).mp hj
  obtain ⟨rfl, hfree⟩ := vacantAt_eq_some_iff.mp hv
  refine ⟨d, hd, rfl, hfree, fun e he => ?_⟩
  have hnone := hbefore e he
  rw [vacantAt] at hnone
  cases ht : t ((home k + e) % n) with
  | none => simp [ht] at hnone
  | some p =>
      obtain ⟨k', v'⟩ := p
      refine ⟨k', v', ?_, rfl⟩
      rintro rfl
      simp [ht] at hnone

/-- In an unholed window the slot to store in is the slot of the key, if the
key is stored at all. -/
lemma vacant_unique (h : Placed home n w t) (hun : Unholed home n w t k)
    (hj : probe n (vacantAt t k) w (home k) = some j) {i : ℕ} (hi : i < n)
    (hiv : t i = some (k, v)) : i = j := by
  obtain ⟨e, he, rfl, hv, hbefore⟩ := h.probe_vacant_spec hj
  obtain ⟨d, hd, rfl⟩ := h.reach i hi k v hiv
  have hhome := h.home_lt k
  rcases Nat.lt_trichotomy e d with hlt | rfl | hlt
  · -- the slot found is not free, so it has the key
    rcases hv with hnone | ⟨v', hv'⟩
    · exact absurd hnone (hun d hd ⟨v, hiv⟩ e hlt)
    · exact h.unique _ hi _ (Nat.mod_lt _ (by omega)) k v v' hiv hv'
  · rfl
  · -- the walk would have stopped at the slot of the key
    obtain ⟨k', v', hne, ht⟩ := hbefore d hlt
    rw [hiv] at ht
    simp only [Option.some.injEq, Prod.mk.injEq] at ht
    exact absurd ht.1.symm hne

/-- **Inserting**: in an unholed window, storing in the slot found maps the key
to the value and leaves the other keys. -/
theorem insert (h : Placed home n w t) (hun : Unholed home n w t k)
    (hj : probe n (vacantAt t k) w (home k) = some j) (v : V) :
    Placed home n w (Function.update t j (some (k, v))) ∧
      ∀ k' v', Stored (Function.update t j (some (k, v))) n k' v' ↔
        if k' = k then v' = v else Stored t n k' v' := by
  obtain ⟨d, hd, hjd, hv, hbefore⟩ := h.probe_vacant_spec hj
  have hhome := h.home_lt k
  have hjn : j < n := by rw [hjd]; exact Nat.mod_lt _ (by omega)
  have hcases : ∀ i < n, ∀ k' v', Function.update t j (some (k, v)) i = some (k', v') →
      (i = j ∧ k' = k ∧ v' = v) ∨ (i ≠ j ∧ k' ≠ k ∧ t i = some (k', v')) := by
    intro i hi k' v' hiv
    by_cases hij : i = j
    · rw [hij, Function.update_self] at hiv
      simp only [Option.some.injEq, Prod.mk.injEq] at hiv
      exact Or.inl ⟨hij, hiv.1.symm, hiv.2.symm⟩
    · rw [Function.update_of_ne hij] at hiv
      refine Or.inr ⟨hij, ?_, hiv⟩
      rintro rfl
      exact hij (h.vacant_unique hun hj hi hiv)
  refine ⟨⟨h.home_lt, h.window_le, ?_, ?_⟩, fun k' v' => ?_⟩
  · intro i hi k' v' hiv
    rcases hcases i hi k' v' hiv with ⟨rfl, rfl, -⟩ | ⟨-, -, hold⟩
    · exact ⟨d, hd, hjd⟩
    · exact h.reach i hi k' v' hold
  · intro i hi i' hi' k' v₁ v₂ h1 h2
    rcases hcases i hi k' v₁ h1 with ⟨rfl, hk, -⟩ | ⟨-, hk, hold⟩ <;>
      rcases hcases i' hi' k' v₂ h2 with ⟨rfl, hk', -⟩ | ⟨-, hk', hold'⟩
    · rfl
    · exact absurd hk hk'
    · exact absurd hk' hk
    · exact h.unique i hi i' hi' k' v₁ v₂ hold hold'
  · constructor
    · rintro ⟨i, hi, hiv⟩
      rcases hcases i hi k' v' hiv with ⟨-, hk, hv'⟩ | ⟨-, hk, hold⟩
      · rw [if_pos hk]
        exact hv'
      · rw [if_neg hk]
        exact ⟨i, hi, hold⟩
    · intro hst
      split_ifs at hst with hk
      · rw [hk, hst]
        exact ⟨j, hjn, Function.update_self _ _ _⟩
      · obtain ⟨i, hi, hiv⟩ := hst
        refine ⟨i, hi, ?_⟩
        rw [Function.update_of_ne, hiv]
        rintro rfl
        -- the slot stored in was free or had the key
        rcases hv with hnone | ⟨v₀, hv₀⟩
        · rw [hnone] at hiv
          cases hiv
        · rw [hv₀] at hiv
          simp only [Option.some.injEq, Prod.mk.injEq] at hiv
          exact hk hiv.1.symm

/-- Inserting digs no holes. -/
lemma insert_unholed (h : Placed home n w t) (hun : ∀ k, Unholed home n w t k)
    (hj : probe n (vacantAt t k) w (home k) = some j) (v : V) (k' : K) :
    Unholed home n w (Function.update t j (some (k, v))) k' := by
  obtain ⟨d, hd, hjd, -, hbefore⟩ := h.probe_vacant_spec hj
  have hwin := h.window_le
  have hkeep : ∀ i, t i ≠ none → Function.update t j (some (k, v)) i ≠ none := by
    intro i hi
    by_cases hij : i = j
    · rw [hij, Function.update_self]
      exact Option.some_ne_none _
    · rw [Function.update_of_ne hij]
      exact hi
  rintro d' hd' ⟨v', hv'⟩ e he
  by_cases hij : (home k' + d') % n = j
  · -- the slot stored in: everything in front of it belongs to other keys
    rw [hij, Function.update_self] at hv'
    simp only [Option.some.injEq, Prod.mk.injEq] at hv'
    obtain ⟨rfl, -⟩ := hv'
    rw [hjd] at hij
    have := mod_inj_window (home k) (n := n) (by omega) (by omega) (by omega) (by omega) hij
    obtain ⟨k'', v'', -, ht⟩ := hbefore e (by omega)
    exact hkeep _ (by rw [ht]; exact Option.some_ne_none _)
  · rw [Function.update_of_ne hij] at hv'
    exact hkeep _ (hun k' d' hd' ⟨v', hv'⟩ e he)

end Placed

end Probing

end CLibrary
