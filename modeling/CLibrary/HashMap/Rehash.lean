import CLibrary.HashMap.Length

/-!
A successful rehash preserves the map.

* `Intact.attempt`: a round that starts from new keys stores some pairs and leaves
  the others, and its table counts its slots in use.
* `rehash_eq_attempt`: a rehash that returns `MAP_OK`, whatever rehashes it starts
  on the way, leaves the table of the first round that leaves nothing.
* `Preserves`, `hashmap_rehash_preserves`: so that table has the pairs of the old
  one, and `hashmap_get` returns the same for every key.
* `intact_of_puts`: maps built by puts and gets are such that it applies to them.
-/

namespace CLibrary

open Probing

variable {α : Type*}

namespace Hashmap

/-! ### Rounds on an intact map -/

lemma doubled_intact {m : Hashmap α} (h : m.Intact) : m.doubled.Intact := by
  refine Reached.empty fun k => Nat.mod_lt _ ?_
  have hhome := h.home_lt k
  rw [doubled_tableSize]
  omega

/-- **Every round** of storing new pairs with distinct keys: some are stored and
the others left. -/
lemma Intact.attempt {m : Hashmap α} {l : List (CString × α)} (h : m.Intact)
    (hsize : m.size = m.entries.length) (hnodup : ((m.entries ++ l).map Prod.fst).Nodup) (j : ℕ) :
    (m.attempt l j).1.Intact ∧
      ((m.attempt l j).1.entries ++ (m.attempt l j).2).Perm (m.entries ++ l) ∧
      (m.attempt l j).1.size = (m.attempt l j).1.entries.length := by
  induction j generalizing m l with
  | zero =>
      obtain ⟨hplaced, hperm, hcount⟩ := h.placeAll hnodup
      have hlen := hperm.length_eq
      rw [List.length_append, List.length_append] at hlen
      rw [attempt_zero]
      exact ⟨hplaced, hperm, by omega⟩
  | succ j ih =>
      obtain ⟨hplaced, hperm, -⟩ := h.placeAll hnodup
      have hnil : (m.placeAll l).1.doubled.entries = [] := doubled_entries _
      have hmove : ((m.placeAll l).1.doubled.entries ++
          ((m.placeAll l).1.entries ++ (m.placeAll l).2)).Perm (m.entries ++ l) := by
        rw [hnil, List.nil_append]
        exact hperm
      obtain ⟨hintact, hperm', hexact⟩ := ih (doubled_intact hplaced) (by rw [hnil]; rfl)
        ((hmove.map _).nodup_iff.mpr hnodup)
      rw [attempt_succ]
      exact ⟨hintact, hperm'.trans hmove, hexact⟩

/-! ### What a rehash leaves -/

section Rehash

variable {callocOk : ℕ → Bool} {fuel n : ℕ} {m : Hashmap α} {r : PutResult α}

/-- **A rehash is a number of rounds**: however often the puts of the old pairs
rehash again, the table it leaves is that of the first round to store them all. -/
lemma rehash_eq_attempt (hr : hashmapRehash callocOk fuel n m = some r) (hok : r.status = .ok) :
    ∃ j, (m.doubled.attempt m.entries j).2 = [] ∧ r.map = (m.doubled.attempt m.entries j).1 := by
  rw [hashmapRehash, rehashWith_eq] at hr
  split_ifs at hr with hsize hcalloc
  · -- the puts of the old pairs, as rounds that begin with the doubled table
    obtain ⟨-, hsettle⟩ := (putAll_settles (settle_of_put fuel) hr []).resolve_right fun homem => by
      rw [hok] at homem
      cases homem.1
    obtain ⟨st, allocs, map⟩ := r
    obtain rfl : st = .ok := hok
    obtain ⟨h', hs⟩ := hsettle 1 _ settle_nil
    rw [List.append_nil] at hs
    obtain ⟨j, -, -, hend⟩ := settle_eq_some_iff.mp hs
    rcases hend with ⟨hnil, heq⟩ | ⟨-, -, -, heq⟩
    · exact ⟨j, hnil, congrArg PutResult.map heq⟩
    · cases heq
  · obtain rfl := Option.some.inj hr
    cases hok

end Rehash

/-- What `hashmap_get` returns depends on the pairs only. -/
lemma Intact.hashmapGet_congr {m m' : Hashmap α} (h : m.Intact) (h' : m'.Intact)
    (hsame : ∀ k v, m'.Holds k v ↔ m.Holds k v) (null : α) (key : CString) :
    m'.hashmapGet null key = m.hashmapGet null key := by
  have hprobe : probe m'.tableSize (valueAt m'.data key) maxChainLength (m'.hashInt key) =
      probe m.tableSize (valueAt m.data key) maxChainLength (m.hashInt key) :=
    Option.ext fun v =>
      h'.probe_value_iff.trans ((hsame key v).trans h.probe_value_iff.symm)
  rw [hashmapGet, hashmapGet, hprobe]

/-- `m'` is `m` in a larger table: `hashmap_get` returns the same for every key, no
key is in two slots and each within `MAX_CHAIN_LENGTH` slots of its hash, `size`
counts the slots in use, and `table_size` was doubled at least once. -/
structure Preserves (m m' : Hashmap α) : Prop where
  get_eq : ∀ null key, m'.hashmapGet null key = m.hashmapGet null key
  intact : m'.Intact
  size_eq : m'.size = m'.entries.length
  doubled : ∃ k ≥ 1, m'.tableSize = 2 ^ k * m.tableSize

/-- **A successful rehash preserves the map**: also when the puts of the old pairs
rehash the half-filled table again, to any depth. -/
theorem hashmap_rehash_preserves {m : Hashmap α} (h : m.Intact) {callocOk : ℕ → Bool}
    {fuel n : ℕ} {r : PutResult α} (hr : hashmapRehash callocOk fuel n m = some r)
    (hok : r.status = .ok) : Preserves m r.map := by
  obtain ⟨j, hnil, heq⟩ := rehash_eq_attempt hr hok
  have hempty : m.doubled.entries = [] := doubled_entries m
  have hnodup : ((m.doubled.entries ++ m.entries).map Prod.fst).Nodup := by
    rw [hempty, List.nil_append]
    exact h.keys_nodup
  obtain ⟨hintact, hperm, hsize⟩ :=
    (doubled_intact h).attempt (by rw [hempty]; rfl) hnodup j
  rw [← heq] at hintact hperm hsize
  rw [hnil, List.append_nil, hempty, List.nil_append] at hperm
  have hsame : ∀ k v, r.map.Holds k v ↔ m.Holds k v := by
    intro k v
    rw [← mem_entries, ← mem_entries, hperm.mem_iff]
  refine ⟨h.hashmapGet_congr hintact hsame, hintact, hsize, j + 1, by omega, ?_⟩
  rw [heq, attempt_tableSize, doubled_tableSize, pow_succ, mul_assoc]

/-! ### A rehash that rehashes -/

/-- Eight keys that fall on slot 24 of 64, and one that falls on slot 31. -/
def nineKeys : List (CString × ℕ) :=
  [(⟨[101, 121], by simp⟩, 0), (⟨[102, 119], by simp⟩, 1), (⟨[105, 97], by simp⟩, 2),
    (⟨[107, 107], by simp⟩, 3), (⟨[117, 99], by simp⟩, 4), (⟨[117, 122], by simp⟩, 5),
    (⟨[122, 112], by simp⟩, 6), (⟨[101], by simp⟩, 7), (⟨[98, 112], by simp⟩, 8)]

/-- They fill the last eight slots of 32, and the ninth lies in the first. -/
def nineStored : Hashmap ℕ := (placeAll ⟨32, 0, fun _ => none⟩ nineKeys).1

/-- The ninth key comes first and takes the last slot of the window of the others,
so the eighth of those starts a second rehash. -/
theorem hashmap_of_nine_rehash_preserves :
    ∃ r : PutResult ℕ, hashmapRehash (fun _ => true) 3 0 nineStored = some r ∧
      r.map.tableSize = 4 * nineStored.tableSize ∧ Preserves nineStored r.map := by
  have hrun : (hashmapRehash (fun _ => true) 3 0 nineStored).map
      (fun r => (r.status, r.map.tableSize)) = some (.ok, 4 * nineStored.tableSize) := by
    decide +kernel
  obtain ⟨r, hr, heq⟩ := Option.map_eq_some_iff.mp hrun
  rw [Prod.mk.injEq] at heq
  have hempty : (⟨32, 0, fun _ => none⟩ : Hashmap ℕ).Intact :=
    Reached.empty fun _ => Nat.mod_lt _ (by decide)
  have hkeys : (((⟨32, 0, fun _ => none⟩ : Hashmap ℕ).entries ++ nineKeys).map Prod.fst).Nodup := by
    rw [empty_entries, List.nil_append]
    decide
  exact ⟨r, hr, heq.2, hashmap_rehash_preserves (hempty.placeAll hkeys).1 hr heq.1⟩

/-! ### Maps built by puts -/

/-- Storing pairs in a map without holes leaves none. -/
lemma placeAll_unholed {m : Hashmap α} (l : List (CString × α)) (h : m.WF) (htidy : m.Tidy) :
    (m.placeAll l).1.WF ∧ (m.placeAll l).1.Tidy := by
  induction l generalizing m with
  | nil => exact ⟨h, htidy⟩
  | cons e l ih =>
      cases hindex : m.hashmapHash e.1 with
      | none =>
          rw [placeAll_of_none hindex]
          exact ⟨h, htidy⟩
      | some index =>
          have hdone := store_done e.2 h (htidy e.1) (hashmapHash_eq_some hindex).2
          rw [placeAll_of_some hindex]
          exact ih hdone.wf (hdone.tidy htidy)

/-- And so does every round. -/
lemma attempt_unholed {m : Hashmap α} (l : List (CString × α)) (h : m.WF) (htidy : m.Tidy)
    (j : ℕ) : (m.attempt l j).1.WF ∧ (m.attempt l j).1.Tidy := by
  induction j generalizing m l with
  | zero => exact placeAll_unholed l h htidy
  | succ j ih =>
      rw [attempt_succ]
      exact ih _ (doubled_wf (placeAll_unholed l h htidy).1) empty_tidy

end Hashmap

/-- The call is no remove. -/
def MapCall.Keeps : MapCall α → Prop
  | .remove _ => False
  | _ => True

/-- **A map built by puts and gets**, whatever allocations failed, has its keys
pairwise distinct and each within `MAX_CHAIN_LENGTH` slots of its hash. -/
theorem intact_of_puts {as : List (MapCall α)} {m : Hashmap α}
    (hrun : Run MapCall.step (fun _ a => a.Keeps) Hashmap.hashmapNew as m) : m.Intact := by
  have h : m.WF ∧ m.Tidy := by
    refine hrun.invariant (I := fun _ m => m.WF ∧ m.Tidy)
      ⟨Hashmap.empty_WF (by decide), Hashmap.empty_tidy⟩ fun as s a s' h ha hs => ?_
    cases a with
    | get key =>
        obtain rfl := Option.some.inj hs
        exact h
    | remove key => cases ha
    | put key value callocOk fuel =>
        obtain ⟨r, hr, rfl⟩ := Option.map_eq_some_iff.mp hs
        obtain ⟨j, -, hend⟩ := Hashmap.hashmapPut_returns_iff.mp ⟨fuel, hr⟩
        rw [hend.map_eq]
        exact Hashmap.attempt_unholed _ h.1 h.2 j
  exact h.1.intact

end CLibrary
