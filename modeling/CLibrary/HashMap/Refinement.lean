import CLibrary.HashMap.Basic
import CLibrary.Library.Runs

/-!
The hash map against a finite map from keys to values.

* `WF`, `Holds`, `Tidy`: every slot in use lies in the window of its key and no
  key is stored twice; a pair is stored; no window has a hole in front of its
  key.  `Intact` is `WF` for tables that may be smaller than a window.
* `PutSpec`: what `hashmap_put` does to a well-formed map when the window of
  its key has no hole.  `rehashLoop_spec` and `rehashWith_spec` get it for the
  re-insertions of a rehash, `hashmapPut_spec` closes the recursion.
* `hashmap_resurrects`: `hashmap_hash` stops at the first free slot, so a put
  of a key that lies behind a hole stores it a second time; removing the new
  copy uncovers the old value.
* `InPlace`, `hashmap_refines_map`: runs without such puts refine the finite
  map `stored`.
-/

namespace CLibrary

open Probing

variable {α : Type*}

namespace Hashmap

/-! ### Well-formed maps -/

/-- Every slot in use lies in the window of its key, and no key in two. -/
def WF (m : Hashmap α) : Prop := Placed m.hashInt m.tableSize maxChainLength m.data

/-- Every slot in use lies at most `MAX_CHAIN_LENGTH` slots from the hash of its
key, and no key in two. -/
def Intact (m : Hashmap α) : Prop := Reached m.hashInt m.tableSize maxChainLength m.data

lemma WF.intact {m : Hashmap α} (h : m.WF) : m.Intact := Placed.reached h

lemma Intact.wf {m : Hashmap α} (h : m.Intact) (hts : maxChainLength ≤ m.tableSize) : m.WF :=
  Reached.placed h hts

/-- The key is stored with this value. -/
def Holds (m : Hashmap α) (key : CString) (value : α) : Prop :=
  Stored m.data m.tableSize key value

/-- No slot in front of the key in its window is free. -/
def NoHole (m : Hashmap α) (key : CString) : Prop :=
  Unholed m.hashInt m.tableSize maxChainLength m.data key

instance (m : Hashmap α) (key : CString) : Decidable (m.NoHole key) :=
  inferInstanceAs (Decidable (Unholed _ _ _ _ _))

/-- No window has a hole in front of its key. -/
def Tidy (m : Hashmap α) : Prop := ∀ key, m.NoHole key

/-- An empty table that a window fits in. -/
lemma empty_WF {ts : ℕ} (hts : maxChainLength ≤ ts) : (⟨ts, 0, fun _ => none⟩ : Hashmap α).WF :=
  Placed.empty (fun _ => Nat.mod_lt _ (lt_of_lt_of_le (by decide) hts)) hts

lemma empty_not_holds {ts : ℕ} {key : CString} {value : α} :
    ¬ (⟨ts, 0, fun _ => none⟩ : Hashmap α).Holds key value := by
  rintro ⟨j, -, hj⟩
  cases hj

lemma empty_tidy {ts : ℕ} : (⟨ts, 0, fun _ => none⟩ : Hashmap α).Tidy := by
  rintro key d - ⟨v, hv⟩
  cases hv

/-! ### Get and remove -/

/-- What `hashmap_get` returns for a key with this value, or with none. -/
def getResult (null : α) : Option α → MapStatus × α
  | some v => (.ok, v)
  | none => (.missing, null)

/-- `hashmap_get` returns the value stored with the key, or `MAP_MISSING`. -/
lemma Intact.hashmapGet_eq (null : α) {m : Hashmap α} (h : m.Intact) {key : CString}
    {stored : Option α} (hst : ∀ v, m.Holds key v ↔ stored = some v) :
    m.hashmapGet null key = getResult null stored := by
  have hprobe : probe m.tableSize (valueAt m.data key) maxChainLength (m.hashInt key) = stored := by
    refine Option.ext fun v => ?_
    rw [← hst v]
    exact h.probe_value_iff
  rw [hashmapGet, hprobe]
  rfl

lemma hashmapGet_eq (null : α) {m : Hashmap α} (h : m.WF) {key : CString} {stored : Option α}
    (hst : ∀ v, m.Holds key v ↔ stored = some v) :
    m.hashmapGet null key = getResult null stored := h.intact.hashmapGet_eq null hst

/-- `hashmap_remove` returns `MAP_OK` exactly when the key is stored. -/
lemma hashmapRemove_ok_iff {m : Hashmap α} (h : m.WF) (key : CString) :
    (m.hashmapRemove key).1 = .ok ↔ ∃ v, m.Holds key v := by
  refine Iff.trans ?_ h.probe_key_iff
  rw [hashmapRemove]
  cases probe m.tableSize (keyAt m.data key) maxChainLength (m.hashInt key) with
  | none => simp
  | some j => simp

/-- `hashmap_remove` takes the key out and nothing else. -/
lemma hashmapRemove_spec {m : Hashmap α} (h : m.WF) (key : CString) :
    (m.hashmapRemove key).2.WF ∧
      ∀ k v, (m.hashmapRemove key).2.Holds k v ↔ k ≠ key ∧ m.Holds k v := by
  rw [hashmapRemove]
  cases hj : probe m.tableSize (keyAt m.data key) maxChainLength (m.hashInt key) with
  | some j => exact h.erase hj
  | none =>
      refine ⟨h, fun k v => ⟨fun hk => ⟨?_, hk⟩, And.right⟩⟩
      rintro rfl
      obtain ⟨j, hj'⟩ := h.probe_key_iff.mpr ⟨v, hk⟩
      rw [hj] at hj'
      cases hj'

/-! ### Put and rehash -/

/-- What a put of `key` that returns has done to `m`. -/
structure PutDone (m : Hashmap α) (key : CString) (value : α) (m' : Hashmap α) : Prop where
  wf : m'.WF
  holds : ∀ k v, m'.Holds k v ↔ if k = key then v = value else m.Holds k v
  tidy : m.Tidy → m'.Tidy

/-- A put into a well-formed map, with no hole in front of its key unless it
begins with a rehash, does what it should when it returns `MAP_OK`, and it
returns nothing else while the allocations succeed. -/
def PutSpec (callocOk : ℕ → Bool)
    (put : ℕ → Hashmap α → CString → α → Option (PutResult α)) : Prop :=
  ∀ (n : ℕ) (m : Hashmap α) (key : CString) (value : α) (r : PutResult α), m.WF →
    (m.size < m.tableSize / 2 → m.NoHole key) → put n m key value = some r →
    (r.status = .ok → PutDone m key value r.map) ∧ (r.status = .ok ∨ r.status = .omem) ∧
      ((∀ i, callocOk i = true) → r.status = .ok)

/-- The slot `hashmap_hash` returns. -/
lemma hashmapHash_eq_some {m : Hashmap α} {key : CString} {index : ℕ}
    (h : m.hashmapHash key = some index) :
    m.size < m.tableSize / 2 ∧
      probe m.tableSize (vacantAt m.data key) maxChainLength (m.hashInt key) = some index := by
  rw [hashmapHash] at h
  split_ifs at h with hsize
  exact ⟨by omega, h⟩

/-- Storing in the slot `hashmap_hash` returns. -/
lemma store_done {m : Hashmap α} {key : CString} {index : ℕ} (value : α) (h : m.WF)
    (hhole : m.NoHole key)
    (hindex : probe m.tableSize (vacantAt m.data key) maxChainLength (m.hashInt key) = some index) :
    PutDone m key value (m.store index key value) := by
  obtain ⟨hwf, hholds⟩ := h.insert hhole hindex value
  exact ⟨hwf, hholds, fun htidy k => h.insert_unholed htidy hindex value k⟩

section Rehash

variable {callocOk : ℕ → Bool} {put : ℕ → Hashmap α → CString → α → Option (PutResult α)}
  {curr : ℕ → Option (CString × α)}

/-- Re-inserting the slots `is`, whose keys are new and pairwise distinct, adds
exactly their pairs. -/
lemma rehashLoop_spec (hput : PutSpec callocOk put) {is : List ℕ} (hnodup : is.Nodup)
    (huniq : ∀ i ∈ is, ∀ j ∈ is, ∀ k v v', curr i = some (k, v) → curr j = some (k, v') → i = j)
    {n : ℕ} {m : Hashmap α} {r : PutResult α} (h : m.WF) (htidy : m.Tidy)
    (hfresh : ∀ i ∈ is, ∀ k v v', curr i = some (k, v) → ¬ m.Holds k v')
    (hr : rehashLoop put curr is n m = some r) :
    (r.status = .ok → r.map.WF ∧ r.map.Tidy ∧
        ∀ k v, r.map.Holds k v ↔ (∃ i ∈ is, curr i = some (k, v)) ∨ m.Holds k v) ∧
      (r.status = .ok ∨ r.status = .omem) ∧ ((∀ i, callocOk i = true) → r.status = .ok) := by
  induction is generalizing n m with
  | nil =>
      obtain rfl := Option.some.inj hr
      exact ⟨fun _ => ⟨h, htidy, fun k v => by simp⟩, Or.inl rfl, fun _ => rfl⟩
  | cons i is ih =>
      rw [List.nodup_cons] at hnodup
      have huniq' : ∀ j ∈ is, ∀ j' ∈ is, ∀ k v v',
          curr j = some (k, v) → curr j' = some (k, v') → j = j' := fun j hj j' hj' =>
        huniq j (List.mem_cons_of_mem i hj) j' (List.mem_cons_of_mem i hj')
      rw [rehashLoop] at hr
      cases hi : curr i with
      | none =>
          rw [hi] at hr
          obtain ⟨hok, hst⟩ := ih hnodup.2 huniq' h htidy
            (fun j hj => hfresh j (List.mem_cons_of_mem i hj)) hr
          refine ⟨fun hs => ?_, hst⟩
          obtain ⟨hwf, ht, hholds⟩ := hok hs
          refine ⟨hwf, ht, fun k v => (hholds k v).trans ?_⟩
          simp [hi]
      | some e =>
          obtain ⟨key, value⟩ := e
          simp only [hi] at hr
          cases hp : put n m key value with
          | none => simp [hp] at hr
          | some r' =>
              rw [hp] at hr
              dsimp only at hr
              obtain ⟨hdone, hst, hall⟩ := hput n m key value r' h (fun _ => htidy key) hp
              split_ifs at hr with hs
              · obtain rfl := Option.some.inj hr
                exact ⟨fun hok => absurd hok hs, hst, hall⟩
              · obtain ⟨hwf', hholds', htidy'⟩ := hdone (not_not.mp hs)
                -- the keys still to come are not the one just stored
                have hne : ∀ j ∈ is, ∀ k v, curr j = some (k, v) → k ≠ key := by
                  rintro j hj k v hjk rfl
                  have := huniq i List.mem_cons_self j (List.mem_cons_of_mem i hj) k value v hi hjk
                  exact hnodup.1 (this ▸ hj)
                obtain ⟨hok, hst'⟩ := ih hnodup.2 huniq' hwf' (htidy' htidy)
                  (fun j hj k v v' hjk hk => by
                    rw [hholds', if_neg (hne j hj k v hjk)] at hk
                    exact hfresh j (List.mem_cons_of_mem i hj) k v v' hjk hk) hr
                refine ⟨fun hs' => ?_, hst'⟩
                obtain ⟨hwf, ht, hholds⟩ := hok hs'
                refine ⟨hwf, ht, fun k v => (hholds k v).trans ?_⟩
                rw [hholds', List.exists_mem_cons_iff, hi]
                have hnew := hfresh i List.mem_cons_self key value v hi
                by_cases hk : k = key
                · subst hk
                  simp only [if_true, Option.some.injEq, Prod.mk.injEq, true_and, hnew, or_false]
                  rw [eq_comm (a := v), or_comm]
                · simp only [if_neg hk, Option.some.injEq, Prod.mk.injEq, Ne.symm hk, false_and,
                    false_or]

/-- **Rehashing** a well-formed map keeps its pairs and leaves no holes. -/
lemma rehashWith_spec (hput : PutSpec callocOk put) {n : ℕ} {m : Hashmap α} {r : PutResult α}
    (h : m.WF) (hr : rehashWith put callocOk n m = some r) :
    (r.status = .ok → r.map.WF ∧ r.map.Tidy ∧ ∀ k v, r.map.Holds k v ↔ m.Holds k v) ∧
      (r.status = .ok ∨ r.status = .omem) ∧ ((∀ i, callocOk i = true) → r.status = .ok) := by
  rw [rehashWith] at hr
  split_ifs at hr with hint hok
  rotate_left
  · obtain rfl := Option.some.inj hr
    refine ⟨fun hs => MapStatus.noConfusion hs, Or.inr rfl, fun hall => ?_⟩
    exact absurd (hall n) hok
  · have hwin := h.window_le
    obtain ⟨hdone, hst⟩ := rehashLoop_spec hput List.nodup_range
      (fun i hi j hj k v v' => h.unique i (List.mem_range.mp hi) j (List.mem_range.mp hj) k v v')
      (empty_WF (by omega)) empty_tidy (fun _ _ _ _ _ _ => empty_not_holds) hr
    refine ⟨fun hs => ?_, hst⟩
    obtain ⟨hwf, ht, hholds⟩ := hdone hs
    refine ⟨hwf, ht, fun k v => (hholds k v).trans ?_⟩
    simp only [List.mem_range, empty_not_holds, or_false]
    rfl

end Rehash

/-- `hashmap_put` does what it should at every depth of recursion. -/
lemma hashmapPut_spec (callocOk : ℕ → Bool) (fuel : ℕ) :
    PutSpec (α := α) callocOk (hashmapPut callocOk fuel) := by
  induction fuel with
  | zero =>
      intro n m key value r _ _ hr
      cases hr
  | succ fuel ih =>
      intro n m key value r h hhole hr
      rw [hashmapPut] at hr
      cases hindex : m.hashmapHash key with
      | some index =>
          rw [hindex] at hr
          obtain rfl := Option.some.inj hr
          obtain ⟨hsize, hprobe⟩ := hashmapHash_eq_some hindex
          exact ⟨fun _ => store_done value h (hhole hsize) hprobe, Or.inl rfl, fun _ => rfl⟩
      | none =>
          rw [hindex] at hr
          dsimp only at hr
          cases hrehash : rehashWith (hashmapPut callocOk fuel) callocOk n m with
          | none => simp [hrehash] at hr
          | some r' =>
              rw [hrehash] at hr
              dsimp only at hr
              obtain ⟨hdone, hst, hall⟩ := rehashWith_spec ih h hrehash
              split_ifs at hr with homem
              · obtain rfl := Option.some.inj hr
                exact ⟨fun hok => absurd (homem.symm.trans hok) (by decide), Or.inr homem, hall⟩
              · obtain ⟨hwf, htidy, hholds⟩ := hdone (hst.resolve_right homem)
                obtain ⟨hdone', hst', hall'⟩ :=
                  ih r'.allocs r'.map key value r hwf (fun _ => htidy key) hr
                refine ⟨fun hok => ?_, hst', hall'⟩
                obtain ⟨hwf', hholds', htidy'⟩ := hdone' hok
                refine ⟨hwf', fun k v => ?_, fun _ => htidy' htidy⟩
                rw [hholds', hholds]

end Hashmap

/-! ### Runs of the map -/

/-- The calls; `fuel` is a depth of recursion at which the put returns. -/
inductive MapOp (α : Type*) where
  | put (key : CString) (value : α) (fuel : ℕ)
  | get (key : CString)
  | remove (key : CString)

namespace MapOp

/-- The key a call is about. -/
def key : MapOp α → CString
  | .put key _ _ | .get key | .remove key => key

/-- One call, every allocation succeeding. -/
def step (m : Hashmap α) : MapOp α → Option (Hashmap α)
  | .put key value fuel => (m.hashmapPut (fun _ => true) fuel 0 key value).map PutResult.map
  | .get _ => some m
  | .remove key => some (m.hashmapRemove key).2

/-- What a call does to a finite map. -/
def apply (f : CString → Option α) : MapOp α → CString → Option α
  | .put key value _ => Function.update f key (some value)
  | .get _ => f
  | .remove key => Function.update f key none

/-- A put does not store its key behind a hole of its window; one that begins
with a rehash finds no holes. -/
def InPlace (m : Hashmap α) : MapOp α → Prop
  | .put key _ _ => m.size < m.tableSize / 2 → m.NoHole key
  | _ => True

instance (m : Hashmap α) : ∀ a, Decidable (InPlace m a)
  | .put _ _ _ => inferInstanceAs (Decidable (_ → _))
  | .get _ => isTrue trivial
  | .remove _ => isTrue trivial

end MapOp

/-- The finite map after some calls: the value of the last put of a key, unless
the key was removed since. -/
def stored (ops : List (MapOp α)) : CString → Option α := ops.foldl MapOp.apply fun _ => none

lemma stored_snoc (ops : List (MapOp α)) (a : MapOp α) :
    stored (ops ++ [a]) = a.apply (stored ops) := by
  simp [stored]

/-! ### A value comes back -/

section Resurrection

/-- The key "w". -/
def keyW : CString := ⟨[119], by simp⟩

/-- The key "ht", which falls on the slot of "w" in a table of 25600 slots. -/
def keyHt : CString := ⟨[104, 116], by simp⟩

/-- "ht" is stored behind "w", "w" is removed, and "ht" is put again, into the
hole. -/
def resurrection : List (MapOp ℕ) :=
  [.put keyW 1 1, .put keyHt 2 1, .remove keyW, .put keyHt 3 1, .remove keyHt]

/-- **A removed key is found with an old value.** -/
theorem hashmap_resurrects :
    ∃ m, exec MapOp.step Hashmap.hashmapNew resurrection = some m ∧
      stored resurrection keyHt = none ∧ m.hashmapGet 0 keyHt = (.ok, 2) := by
  have hrun : (exec MapOp.step Hashmap.hashmapNew resurrection).map
      (fun m => m.hashmapGet 0 keyHt) = some (.ok, 2) := by
    decide +kernel
  obtain ⟨m, hm, hget⟩ := Option.map_eq_some_iff.mp hrun
  exact ⟨m, hm, by decide +kernel, hget⟩

end Resurrection

/-! ### The refinement -/

/-- The map is well formed and its pairs are those of the finite map. -/
structure MapRefines (m : Hashmap α) (f : CString → Option α) : Prop where
  wf : m.WF
  holds : ∀ k v, m.Holds k v ↔ f k = some v

namespace MapRefines

variable {m m' : Hashmap α} {f : CString → Option α} {a : MapOp α}

/-- The empty map. -/
lemma new : MapRefines (Hashmap.hashmapNew : Hashmap α) (stored []) :=
  ⟨Hashmap.empty_WF (by decide), fun k v => by
    constructor
    · intro h
      exact absurd h Hashmap.empty_not_holds
    · intro h
      cases h⟩

/-- **Every call in place refines what it does to the finite map.** -/
lemma step (h : MapRefines m f) (hok : a.InPlace m) (hs : a.step m = some m') :
    MapRefines m' (a.apply f) := by
  cases a with
  | get key =>
      obtain rfl := Option.some.inj hs
      exact h
  | remove key =>
      obtain rfl := Option.some.inj hs
      obtain ⟨hwf, hholds⟩ := Hashmap.hashmapRemove_spec h.wf key
      refine ⟨hwf, fun k v => ?_⟩
      rw [hholds, h.holds, MapOp.apply]
      by_cases hk : k = key
      · rw [hk, Function.update_self]
        simp
      · rw [Function.update_of_ne hk]
        simp [hk]
  | put key value fuel =>
      obtain ⟨r, hr, rfl⟩ := Option.map_eq_some_iff.mp hs
      obtain ⟨hdone, -, hall⟩ :=
        Hashmap.hashmapPut_spec (fun _ => true) fuel 0 m key value r h.wf hok hr
      obtain ⟨hwf, hholds, -⟩ := hdone (hall fun _ => rfl)
      refine ⟨hwf, fun k v => ?_⟩
      rw [hholds, h.holds, MapOp.apply]
      by_cases hk : k = key
      · rw [if_pos hk, hk, Function.update_self, Option.some_inj, eq_comm]
      · rw [if_neg hk, Function.update_of_ne hk]

/-- What a get returns. -/
lemma get_eq (h : MapRefines m f) (null : α) (k : CString) :
    m.hashmapGet null k = Hashmap.getResult null (f k) :=
  Hashmap.hashmapGet_eq null h.wf (h.holds k)

/-- A call changes the finite map at its own key only. -/
lemma apply_of_ne (f : CString → Option α) {k : CString} (hk : k ≠ a.key) : a.apply f k = f k := by
  cases a with
  | get key => rfl
  | put key value fuel => exact Function.update_of_ne hk _ _
  | remove key => exact Function.update_of_ne hk _ _

end MapRefines

/-- **The hash map refines a finite map** on runs whose puts are in place: a get
returns the value of the last put of its key unless the key was removed since,
a remove returns `MAP_OK` exactly when its key is present, and a further call
changes what is found for no key but its own. -/
theorem hashmap_refines_map (null : α) {ops : List (MapOp α)} {m : Hashmap α}
    (hrun : Run MapOp.step MapOp.InPlace Hashmap.hashmapNew ops m) :
    (∀ k, m.hashmapGet null k = Hashmap.getResult null (stored ops k)) ∧
      (∀ k, (m.hashmapRemove k).1 = .ok ↔ (stored ops k).isSome) ∧
      ∀ (a : MapOp α) (m' : Hashmap α), a.InPlace m → a.step m = some m' → ∀ k ≠ a.key,
        m'.hashmapGet null k = m.hashmapGet null k := by
  have h : MapRefines m (stored ops) := by
    refine hrun.invariant (I := fun ops m => MapRefines m (stored ops)) .new ?_
    intro ops m a m' h hok hs
    rw [stored_snoc]
    exact h.step hok hs
  refine ⟨h.get_eq null, fun k => ?_, fun a m' hok hs k hk => ?_⟩
  · rw [Hashmap.hashmapRemove_ok_iff h.wf, Option.isSome_iff_exists]
    exact exists_congr fun v => h.holds k v
  · rw [(h.step hok hs).get_eq, h.get_eq, MapRefines.apply_of_ne _ hk]

/-- Two keys on one slot, the first one removed again. -/
theorem hashmap_of_two_refines_map :
    ∃ m : Hashmap ℕ, m.hashmapGet 0 keyHt = (.ok, 2) ∧ m.hashmapGet 0 keyW = (.missing, 0) := by
  have hrun : (exec (fun m a => if MapOp.InPlace m a then MapOp.step m a else none)
      Hashmap.hashmapNew [.put keyW 1 1, .put keyHt 2 1, .remove keyW]).isSome = true := by
    decide +kernel
  obtain ⟨m, hm⟩ := Option.isSome_iff_exists.mp hrun
  obtain ⟨hget, -⟩ := hashmap_refines_map 0 (run_of_exec_guarded hm)
  refine ⟨m, (hget keyHt).trans ?_, (hget keyW).trans ?_⟩ <;> decide

end CLibrary
