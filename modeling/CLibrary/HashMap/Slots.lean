import CLibrary.HashMap.Doubling
import CLibrary.HashMap.Refinement

/-!
No stored key becomes unreachable.

* `MapCall`: the calls on a map, every allocation succeeding or failing.
* `SlotsOk`: every slot in use lies in the window of its key, no more slots are
  in use than `size` says, and `size` is at most half the table.
* `SlotsOk.placeAll`, `SlotsOk.attempt`: storing pairs keeps this, and so does
  every round of a put, whatever pairs it leaves.
* `hashmap_keeps_slots`: it holds in every state of every run, so a key in a
  slot is found by `hashmap_get`.
-/

namespace CLibrary

open Probing

variable {α : Type*}

/-! ### Calls with failing allocations -/

/-- The calls on a map.  `callocOk` says which allocations of a put succeed, and
`fuel` is a depth of recursion at which it returns. -/
inductive MapCall (α : Type*) where
  | put (key : CString) (value : α) (callocOk : ℕ → Bool) (fuel : ℕ)
  | get (key : CString)
  | remove (key : CString)

/-- One call; a put that runs out of memory leaves the map it has come to. -/
def MapCall.step (m : Hashmap α) : MapCall α → Option (Hashmap α)
  | .put key value callocOk fuel =>
      (m.hashmapPut callocOk fuel 0 key value).map PutResult.map
  | .get _ => some m
  | .remove key => some (m.hashmapRemove key).2

namespace Hashmap

/-! ### Windows and sizes -/

/-- Every slot in use lies in the window of its key, no more slots are in use
than `size` says, and `size` is at most half the table. -/
structure SlotsOk (m : Hashmap α) : Prop where
  window_le : maxChainLength ≤ m.tableSize
  reach : ∀ j < m.tableSize, ∀ k v, m.data j = some (k, v) →
    ∃ d < maxChainLength, j = (m.hashInt k + d) % m.tableSize
  inUse_le : (m.entries.length : ℤ) ≤ m.size
  size_le : m.size ≤ m.tableSize / 2

lemma hashInt_lt {m : Hashmap α} (h : maxChainLength ≤ m.tableSize) (key : CString) :
    m.hashInt key < m.tableSize :=
  Nat.mod_lt _ (lt_of_lt_of_le (by decide) h)

/-- The slot to store in lies in the window of the key, and is free or has the
key already. -/
lemma hashmapHash_spec {m : Hashmap α} {key : CString} {index : ℕ}
    (hts : maxChainLength ≤ m.tableSize) (h : m.hashmapHash key = some index) :
    m.size < m.tableSize / 2 ∧ index < m.tableSize ∧
      (∃ d < maxChainLength, index = (m.hashInt key + d) % m.tableSize) ∧
      (m.data index = none ∨ ∃ v, m.data index = some (key, v)) := by
  have hhome := hashInt_lt hts key
  obtain ⟨hsize, hprobe⟩ := hashmapHash_eq_some h
  obtain ⟨d, hd, hv, -⟩ := (probe_eq_some_iff hhome).mp hprobe
  obtain ⟨rfl, hfree⟩ := vacantAt_eq_some_iff.mp hv
  exact ⟨hsize, Nat.mod_lt _ (by omega), ⟨d, hd, rfl⟩, hfree⟩

lemma empty_entries {ts : ℕ} : (⟨ts, 0, fun _ => none⟩ : Hashmap α).entries = [] := by
  refine List.eq_nil_iff_forall_not_mem.mpr fun e he => ?_
  obtain ⟨j, -, hj⟩ := mem_pairs.mp he
  cases hj

namespace SlotsOk

variable {m : Hashmap α} {key : CString} {index : ℕ}

/-- An empty table. -/
lemma empty {ts : ℕ} (hts : maxChainLength ≤ ts) :
    SlotsOk (⟨ts, 0, fun _ => none⟩ : Hashmap α) := by
  refine ⟨hts, fun j _ k v hj => (Option.some_ne_none _ hj.symm).elim, ?_, ?_⟩
  · rw [empty_entries]
    exact le_rfl
  · change (0 : ℤ) ≤ (ts : ℤ) / 2
    omega

/-- Storing a pair in the slot `hashmap_hash` returns. -/
lemma store (h : SlotsOk m) (hindex : m.hashmapHash key = some index) (value : α) :
    SlotsOk (m.store index key value) := by
  obtain ⟨hsize, hlt, hwin, -⟩ := hashmapHash_spec h.window_le hindex
  refine ⟨h.window_le, fun j hj k v hjv => ?_, ?_, ?_⟩
  · change Function.update m.data index (some (key, value)) j = some (k, v) at hjv
    by_cases hji : j = index
    · rw [hji, Function.update_self, Option.some_inj, Prod.mk.injEq] at hjv
      rw [hji, ← hjv.1]
      exact hwin
    · rw [Function.update_of_ne hji] at hjv
      exact h.reach j hj k v hjv
  · have hlen : (m.store index key value).entries.length ≤ m.entries.length + 1 :=
      pairs_length_store_le hlt
    have hle := h.inUse_le
    change _ ≤ m.size + 1
    omega
  · change m.size + 1 ≤ (m.tableSize : ℤ) / 2
    omega

/-- Storing pairs, as far as it goes. -/
lemma placeAll (h : SlotsOk m) (l : List (CString × α)) : SlotsOk (m.placeAll l).1 := by
  induction l generalizing m with
  | nil => exact h
  | cons e l ih =>
      cases hindex : m.hashmapHash e.1 with
      | some index =>
          rw [placeAll_of_some hindex]
          exact ih (h.store hindex e.2)
      | none =>
          rw [placeAll_of_none hindex]
          exact h

/-- **Every round of a put** keeps it, whatever pairs the round leaves. -/
lemma attempt (h : SlotsOk m) (l : List (CString × α)) (j : ℕ) : SlotsOk (m.attempt l j).1 := by
  induction j generalizing m l with
  | zero => exact h.placeAll l
  | succ j ih =>
      rw [attempt_succ]
      refine ih (empty ?_) _
      have hts := h.window_le
      rw [placeAll_tableSize]
      omega

/-- A put keeps it, also one that runs out of memory. -/
lemma put (h : SlotsOk m) {callocOk : ℕ → Bool} {fuel : ℕ} {value : α} {r : PutResult α}
    (hr : m.hashmapPut callocOk fuel 0 key value = some r) : SlotsOk r.map := by
  obtain ⟨j, -, hend⟩ := hashmapPut_returns_iff.mp ⟨fuel, hr⟩
  rw [hend.map_eq]
  exact h.attempt _ j

/-- A remove frees a slot and counts down. -/
lemma remove (h : SlotsOk m) (key : CString) : SlotsOk (m.hashmapRemove key).2 := by
  have hhome := hashInt_lt h.window_le key
  rw [hashmapRemove]
  cases hj : probe m.tableSize (keyAt m.data key) maxChainLength (m.hashInt key) with
  | none => exact h
  | some curr =>
      obtain ⟨d, hd, hk, -⟩ := (probe_eq_some_iff hhome).mp hj
      obtain ⟨rfl, v, hv⟩ := keyAt_eq_some_iff.mp hk
      have hlt : (m.hashInt key + d) % m.tableSize < m.tableSize := Nat.mod_lt _ (by omega)
      refine ⟨h.window_le, fun j hj k v' hjv => ?_, ?_, ?_⟩
      · change Function.update m.data ((m.hashInt key + d) % m.tableSize) none j = _ at hjv
        by_cases hji : j = (m.hashInt key + d) % m.tableSize
        · rw [hji, Function.update_self] at hjv
          cases hjv
        · rw [Function.update_of_ne hji] at hjv
          exact h.reach j hj k v' hjv
      · have hlen : m.entries.length = (pairs (Function.update m.data
            ((m.hashInt key + d) % m.tableSize) none) m.tableSize).length + 1 :=
          (pairs_free hlt hv).length_eq
        have hle := h.inUse_le
        change ((pairs (Function.update m.data ((m.hashInt key + d) % m.tableSize) none)
          m.tableSize).length : ℤ) ≤ m.size - 1
        omega
      · have hle := h.size_le
        change m.size - 1 ≤ (m.tableSize : ℤ) / 2
        omega

/-- A key in a slot is found, with a value stored under it. -/
lemma get (h : SlotsOk m) (null : α) {v : α} (hv : m.Holds key v) :
    ∃ v', m.hashmapGet null key = (.ok, v') ∧ m.Holds key v' := by
  have hhome := hashInt_lt h.window_le key
  obtain ⟨j, hj, hjv⟩ := hv
  obtain ⟨d, hd, rfl⟩ := h.reach j hj key v hjv
  rw [hashmapGet]
  cases hprobe : probe m.tableSize (valueAt m.data key) maxChainLength (m.hashInt key) with
  | none =>
      -- the walk passes the slot of the key
      have hnone := (probe_eq_none_iff hhome).mp hprobe d hd
      rw [valueAt_eq_some_iff.mpr hjv] at hnone
      cases hnone
  | some v' =>
      obtain ⟨d', -, hv', -⟩ := (probe_eq_some_iff hhome).mp hprobe
      exact ⟨v', rfl, _, Nat.mod_lt _ (by omega), valueAt_eq_some_iff.mp hv'⟩

end SlotsOk

end Hashmap

/-- One call keeps it. -/
lemma slotsOk_step {m m' : Hashmap α} {a : MapCall α} (h : m.SlotsOk) (hs : a.step m = some m') :
    m'.SlotsOk := by
  cases a with
  | get key =>
      obtain rfl := Option.some.inj hs
      exact h
  | remove key =>
      obtain rfl := Option.some.inj hs
      exact h.remove key
  | put key value callocOk fuel =>
      obtain ⟨r, hr, rfl⟩ := Option.map_eq_some_iff.mp hs
      exact h.put hr

/-- Every state of every run. -/
lemma slotsOk_of_run {as : List (MapCall α)} {m : Hashmap α}
    (hrun : Run MapCall.step (fun _ _ => True) Hashmap.hashmapNew as m) : m.SlotsOk :=
  hrun.invariant (I := fun _ m => m.SlotsOk) (Hashmap.SlotsOk.empty (by decide))
    fun _ _ _ _ h _ hs => slotsOk_step h hs

/-- **No stored key becomes unreachable**: in every state of every run, also
after puts that ran out of memory at any depth, every slot in use lies in the
window of its key, no more slots are in use than `size` says, `size` is at most
half the table, and `hashmap_get` finds every key in a slot with a value stored
under it. -/
theorem hashmap_keeps_slots (null : α) {as : List (MapCall α)} {m : Hashmap α}
    (hrun : Run MapCall.step (fun _ _ => True) Hashmap.hashmapNew as m) :
    (∀ j < m.tableSize, ∀ k v, m.data j = some (k, v) →
        ∃ d < maxChainLength, j = (m.hashInt k + d) % m.tableSize) ∧
      (m.entries.length : ℤ) ≤ m.size ∧ m.size ≤ m.tableSize / 2 ∧
      ∀ k v, m.Holds k v → ∃ v', m.hashmapGet null k = (.ok, v') ∧ m.Holds k v' := by
  have h := slotsOk_of_run hrun
  exact ⟨h.reach, h.inUse_le, h.size_le, fun k v hv => h.get null hv⟩

/-- Two keys on one slot, the first one removed and the second put again with
no memory left. -/
theorem hashmap_of_two_keeps_slots :
    ∃ m : Hashmap ℕ,
      Run MapCall.step (fun _ _ => True) Hashmap.hashmapNew
        [.put keyW 1 (fun _ => true) 1, .put keyHt 2 (fun _ => true) 1, .remove keyW,
          .put keyHt 3 (fun _ => false) 1] m ∧
      (m.entries.length : ℤ) ≤ m.size := by
  have hrun : (exec MapCall.step (Hashmap.hashmapNew : Hashmap ℕ)
      [.put keyW 1 (fun _ => true) 1, .put keyHt 2 (fun _ => true) 1, .remove keyW,
        .put keyHt 3 (fun _ => false) 1]).isSome = true := by
    decide +kernel
  obtain ⟨m, hm⟩ := Option.isSome_iff_exists.mp hrun
  exact ⟨m, run_of_exec hm, (hashmap_keeps_slots 0 (run_of_exec hm)).2.1⟩

end CLibrary
