import CLibrary.HashMap.OutOfMemory

/-!
When a put returns, if memory does not run out.

* `Returns`: a put stores its pair, in a table whose size fits in an `int`.
* `HasRoom`: the pair finds a slot now, or the hashes of the keys let all find slots
  in a larger table in the range of `int`.  `MayHaveRoom`: they do not rule it out.
* `Settles`: some round of the put leaves nothing; `returns_iff_settles`: a put
  returns exactly then.
* `HasRoom.settles`, `Settles.mayHaveRoom`: what is enough for that, and what has to
  be so.
* `put_never_returns`: nine keys with one hash, and a put that doubles its table for
  ever.
-/

namespace CLibrary

open Probing

variable {α : Type*}

namespace Hashmap

/-- With every allocation succeeding, the put stores its pair, and `table_size`
stays in the range of `int`. -/
def Returns (m : Hashmap α) (key : CString) (value : α) : Prop :=
  ∃ fuel r, m.hashmapPut (fun _ => true) fuel 0 key value = some r ∧ r.status = .ok ∧
    r.map.Holds key value ∧ r.map.tableSize < 2 ^ 31

/-- The key finds a slot now, or with all keys of the map in a larger table in the
range of `int`: in one of twice the size, if they are stored in the order of their
slots and then the key, or in some table in whatever order. -/
def HasRoom (m : Hashmap α) (key : CString) : Prop :=
  m.hashmapHash key ≠ none ∨
    2 * m.tableSize < 2 ^ 31 ∧ SeatedIn (2 * m.tableSize) (m.keys ++ [key]) ∨
    ∃ j > 0, 2 ^ j * m.tableSize < 2 ^ 31 ∧
      RoomyIn (2 ^ j * m.tableSize) (insert key m.keys.toFinset)

/-- The key finds a slot now, or in some larger table in the range of `int` no row of
slots is overfull. -/
def MayHaveRoom (m : Hashmap α) (key : CString) : Prop :=
  m.hashmapHash key ≠ none ∨ ∃ j > 0, 2 ^ j * m.tableSize < 2 ^ 31 ∧
    ¬ OverfullIn (2 ^ j * m.tableSize) (insert key m.keys.toFinset)

/-- After some doublings in the range of `int` every pair finds a slot. -/
def Settles (m : Hashmap α) (e : CString × α) : Prop :=
  ∃ j, 2 ^ j * m.tableSize < 2 ^ 31 ∧ (m.attempt [e] j).2 = []

/-! ### Puts that return -/

/-- While rounds leave pairs, the pair of the put stays the last. -/
lemma round_iterate_last {m : Hashmap α} {l : List (CString × α)} {e : CString × α} {j : ℕ}
    (hleft : ∀ i < j, (m.attempt (l ++ [e]) i).2 ≠ []) :
    ∃ l', (round^[j] (m, l ++ [e])).2 = l' ++ [e] := by
  induction j generalizing m l with
  | zero => exact ⟨l, rfl⟩
  | succ j ih =>
      have hfirst : (m.placeAll (l ++ [e])).2 ≠ [] := hleft 0 (Nat.succ_pos j)
      rw [Function.iterate_succ_apply, round_of_left hfirst]
      refine ih fun i hi => ?_
      rw [← attempt_of_left hfirst]
      exact hleft (i + 1) (by omega)

/-- The last pair of a round that leaves none is stored. -/
lemma placeAll_holds {m : Hashmap α} {l : List (CString × α)} {e : CString × α}
    (h : maxChainLength ≤ m.tableSize) (hnil : (m.placeAll (l ++ [e])).2 = []) :
    (m.placeAll (l ++ [e])).1.Holds e.1 e.2 := by
  rw [placeAll_append] at hnil ⊢
  split_ifs at hnil ⊢ with hl
  · cases hindex : (m.placeAll l).1.hashmapHash e.1 with
    | none =>
        rw [placeAll_of_none hindex] at hnil
        exact absurd hnil (List.cons_ne_nil _ _)
    | some index =>
        obtain ⟨-, hlt, -, -⟩ := hashmapHash_spec (by rwa [placeAll_tableSize]) hindex
        rw [placeAll_of_some hindex]
        exact ⟨index, hlt, Function.update_self _ _ _⟩
  · exact absurd hnil (List.append_ne_nil_of_right_ne_nil _ (List.cons_ne_nil _ _))

/-- **A put returns exactly when its pairs settle.** -/
lemma returns_iff_settles {m : Hashmap α} (h : maxChainLength ≤ m.tableSize) (key : CString)
    (value : α) : Returns m key value ↔ Settles m (key, value) := by
  constructor
  · rintro ⟨fuel, r, hr, hok, -, hsize⟩
    obtain ⟨j, -, hend⟩ := hashmapPut_returns_iff.mp ⟨fuel, hr⟩
    rcases hend with ⟨hnil, rfl⟩ | ⟨-, -, -, rfl⟩
    · refine ⟨j, ?_, hnil⟩
      rw [← attempt_tableSize m [(key, value)]]
      exact hsize
    · cases hok
  · intro hsettles
    classical
    -- the first round that leaves nothing
    obtain ⟨hsize, hnil⟩ := Nat.find_spec hsettles
    set j := Nat.find hsettles with hj
    have hleft : ∀ i < j, (m.attempt [(key, value)] i).2 ≠ [] := by
      intro i hi hnili
      refine Nat.find_min hsettles hi ⟨lt_of_le_of_lt ?_ hsize, hnili⟩
      exact Nat.mul_le_mul_right _ (Nat.pow_le_pow_right (by decide) hi.le)
    have hreach : Reaches (fun _ => true) 0 m [(key, value)] j := by
      intro i hi
      refine ⟨hleft i hi, lt_of_le_of_lt ?_ hsize, rfl⟩
      exact Nat.mul_le_mul_right _ (Nat.pow_le_pow_right (by decide) hi)
    obtain ⟨fuel, hr⟩ := hashmapPut_returns_iff.mpr ⟨j, hreach, Or.inl ⟨hnil, rfl⟩⟩
    refine ⟨fuel, _, hr, rfl, ?_, ?_⟩
    · obtain ⟨l, hl⟩ := round_iterate_last (l := []) hleft
      rw [List.nil_append] at hl
      have hts := attempt_tableSize m [(key, value)] j
      rw [attempt, placeAll_tableSize] at hts
      rw [attempt, hl] at hnil ⊢
      refine placeAll_holds ?_ hnil
      rw [hts]
      exact h.trans (Nat.le_mul_of_pos_left _ (by positivity))
    · rw [attempt_tableSize]
      exact hsize

/-! ### Keys that settle -/

/-- **Keys that have room settle**. -/
lemma HasRoom.settles {m : Hashmap α} (h : SlotsOk m) (hts : m.tableSize < 2 ^ 31)
    {e : CString × α} (hroom : HasRoom m e.1) : Settles m e := by
  by_contra hnot
  have hleft : ∀ i, 2 ^ i * m.tableSize < 2 ^ 31 → (m.attempt [e] i).2 ≠ [] :=
    fun i hi hnil => hnot ⟨i, hi, hnil⟩
  -- up to a table that is in range all rounds leave pairs
  have hrounds : ∀ j, 2 ^ (j + 1) * m.tableSize < 2 ^ 31 →
      ∃ m' l, (m'.placeAll (l ++ [e])).2 ≠ [] ∧ Untouched m' ∧
        m'.tableSize = 2 ^ (j + 1) * m.tableSize ∧ (l ++ [e]).length ≤ m'.tableSize / 2 ∧
        l.map Prod.fst ⊆ m.keys ∧ (j = 0 → l = m.entries) := by
    intro j hj
    obtain ⟨m', l, heq, hun, hts', hlen, -, hkeys, hfirst⟩ := attempt_succ_of_left h
      (e := e) (j := j) fun i hi => hleft i (lt_of_le_of_lt
        (Nat.mul_le_mul_right _ (Nat.pow_le_pow_right Nat.two_pos (by omega))) hj)
    refine ⟨m', l, ?_, hun, hts', ?_, hkeys, hfirst⟩
    · rw [← heq]
      exact hleft (j + 1) hj
    · rwa [List.length_append, List.length_singleton]
  rcases hroom with hslot | ⟨hrange, hseated⟩ | ⟨j, hj, hrange, hroomy⟩
  · refine hleft 0 (by rwa [pow_zero, one_mul]) ?_
    obtain ⟨index, hindex⟩ := Option.ne_none_iff_exists'.mp hslot
    rw [attempt_zero, placeAll_of_some hindex, placeAll]
  · obtain ⟨m', l, hne, hun, hts', hlen, -, hfirst⟩ :=
      hrounds 0 (by rwa [Nat.zero_add, pow_one])
    refine hne ((placeAll_eq_nil_iff hun hlen).mpr ?_)
    rw [hts', hfirst rfl, Nat.zero_add, pow_one, List.map_append]
    exact hseated
  · obtain ⟨j, rfl⟩ := Nat.exists_eq_succ_of_ne_zero hj.ne'
    obtain ⟨m', l, hne, hun, hts', hlen, hkeys, -⟩ := hrounds j hrange
    refine hne ((placeAll_eq_nil_iff hun hlen).mpr ?_)
    rw [hts']
    refine hroomy.seated fun k hk => ?_
    rw [List.map_append, List.map_singleton, List.mem_append, List.mem_singleton] at hk
    rw [Finset.mem_insert, List.mem_toFinset]
    exact (hk.imp_left fun hk => hkeys hk).symm

/-! ### Keys that never settle -/

/-- Storing pairs loses no key. -/
lemma mem_keys_placeAll {m : Hashmap α} {l : List (CString × α)} {k : CString} (h : SlotsOk m)
    (hk : k ∈ m.keys ∨ k ∈ l.map Prod.fst) :
    k ∈ (m.placeAll l).1.keys ∨ k ∈ (m.placeAll l).2.map Prod.fst := by
  induction l generalizing m with
  | nil => exact hk
  | cons e l ih =>
      cases hindex : m.hashmapHash e.1 with
      | none =>
          rw [placeAll_of_none hindex]
          exact hk
      | some index =>
          obtain ⟨-, hlt, -, hfree⟩ := hashmapHash_spec h.window_le hindex
          have hnew : e.1 ∈ (m.store index e.1 e.2).keys :=
            mem_keys.mpr ⟨e.2, index, hlt, Function.update_self _ _ _⟩
          rw [placeAll_of_some hindex]
          refine ih (h.store hindex e.2) ?_
          rcases hk with hk | hk
          · -- the slot stored in was free or had the same key
            obtain ⟨v, i, hi, hiv⟩ := mem_keys.mp hk
            by_cases hii : i = index
            · rw [hii] at hiv
              rcases hfree with hfree | ⟨v', hv'⟩
              · rw [hfree] at hiv
                cases hiv
              · rw [hv', Option.some_inj, Prod.mk.injEq] at hiv
                exact Or.inl (hiv.1 ▸ hnew)
            · refine Or.inl (mem_keys.mpr ⟨v, i, hi, ?_⟩)
              change Function.update m.data index _ i = some (k, v)
              rw [Function.update_of_ne hii, hiv]
          · rcases List.mem_cons.mp hk with rfl | hk
            · exact Or.inl hnew
            · exact Or.inr hk

/-- No round loses a key. -/
lemma mem_keys_attempt {m : Hashmap α} {l : List (CString × α)} {k : CString} (h : SlotsOk m)
    (hk : k ∈ m.keys ∨ k ∈ l.map Prod.fst) (j : ℕ) :
    k ∈ (m.attempt l j).1.keys ∨ k ∈ (m.attempt l j).2.map Prod.fst := by
  induction j generalizing m l with
  | zero => exact mem_keys_placeAll h hk
  | succ j ih =>
      have hts := h.window_le
      rw [attempt_succ]
      refine ih (SlotsOk.empty (by rw [placeAll_tableSize]; omega)) (Or.inr ?_)
      rw [List.map_append, List.mem_append]
      exact mem_keys_placeAll h hk

/-- **Keys that settle may have room**: they are all stored in the end. -/
lemma Settles.mayHaveRoom {m : Hashmap α} (h : SlotsOk m) {e : CString × α}
    (hsettles : Settles m e) : MayHaveRoom m e.1 := by
  obtain ⟨j, hrange, hnil⟩ := hsettles
  cases j with
  | zero =>
      refine Or.inl fun hnone => ?_
      rw [attempt_zero, placeAll_of_none hnone] at hnil
      exact List.cons_ne_nil _ _ hnil
  | succ j =>
      refine Or.inr ⟨j + 1, Nat.succ_pos j, hrange, ?_⟩
      rw [← attempt_tableSize m [e]]
      refine (h.attempt [e] (j + 1)).not_overfull fun k hk => ?_
      rw [Finset.mem_insert, List.mem_toFinset] at hk
      have hkeys := mem_keys_attempt (l := [e]) h (hk.symm.imp_right fun heq => by simp [heq])
        (j + 1)
      rw [hnil, List.map_nil] at hkeys
      exact hkeys.resolve_right List.not_mem_nil

/-- What does not settle has no result. -/
lemma hashmapPut_eq_none {m : Hashmap α} {e : CString × α} (hts : m.tableSize < 2 ^ 31)
    (h : ¬ Settles m e) (fuel : ℕ) :
    m.hashmapPut (fun _ => true) fuel 0 e.1 e.2 = none := by
  cases hr : m.hashmapPut (fun _ => true) fuel 0 e.1 e.2 with
  | none => rfl
  | some r =>
      obtain ⟨j, hreach, hend⟩ := hashmapPut_returns_iff.mp ⟨fuel, hr⟩
      rcases hend with ⟨hnil, -⟩ | ⟨-, -, hfail, -⟩
      · cases j with
        | zero => exact absurd ⟨0, by rwa [pow_zero, one_mul], hnil⟩ h
        | succ j => exact absurd ⟨j + 1, (hreach j (by omega)).2.1, hnil⟩ h
      · cases hfail

end Hashmap

open Hashmap

/-- **A put that never returns**: eight keys with one hash fill the window of a
ninth in every table. -/
theorem put_never_returns :
    Run MapCall.step (fun _ _ => True) Hashmap.hashmapNew (puts octet) eightStored ∧
      (∀ fuel, eightStored.hashmapPut (fun _ => true) fuel 0 ninth.1 ninth.2 = none) ∧
      ¬ Returns eightStored ninth.1 ninth.2 := by
  have hrun : Run MapCall.step (fun _ _ => True) Hashmap.hashmapNew (puts octet) eightStored :=
    run_of_exec (exec_puts octet_fits)
  have hts := eightStored_tableSize
  have hnot : ¬ Settles eightStored ninth := by
    intro hsettles
    rcases hsettles.mayHaveRoom (slotsOk_of_run hrun) with hslot | ⟨j, -, -, hroom⟩
    · obtain ⟨index, hindex⟩ := Option.ne_none_iff_exists'.mp hslot
      refine eightStored_rounds.1 ?_
      rw [attempt_zero, placeAll_of_some hindex, placeAll]
    · refine hroom (overfull_of_hash_eq (c := fullHash ninth.1) ?_ ?_ ?_)
      · rw [keys, eightStored_entries]
        decide +kernel
      · rw [keys, eightStored_entries]
        decide
      · rw [hts]
        exact (by decide : maxChainLength ≤ 25600).trans
          (Nat.le_mul_of_pos_left _ (Nat.two_pow_pos j))
  have hnone := hashmapPut_eq_none (m := eightStored) (e := ninth) (by rw [hts]; decide) hnot
  refine ⟨hrun, hnone, ?_⟩
  rintro ⟨fuel, r, hr, -⟩
  rw [hnone fuel] at hr
  cases hr

/-- The table stays in the range of `int`. -/
lemma tableSize_of_run {as : List (MapCall α)} {m : Hashmap α}
    (hrun : Run MapCall.step (fun _ _ => True) Hashmap.hashmapNew as m) : m.tableSize < 2 ^ 31 := by
  refine hrun.invariant (I := fun _ m => m.tableSize < 2 ^ 31)
    (by decide : initialSize < 2 ^ 31) fun as s a s' h _ hs => ?_
  cases a with
  | get key =>
      obtain rfl := Option.some.inj hs
      exact h
  | remove key =>
      obtain rfl := Option.some.inj hs
      rw [hashmapRemove]
      split <;> exact h
  | put key value callocOk fuel =>
      obtain ⟨r, hr, rfl⟩ := Option.map_eq_some_iff.mp hs
      obtain ⟨j, hreach, hend⟩ := hashmapPut_returns_iff.mp ⟨fuel, hr⟩
      rw [hend.map_eq, attempt_tableSize]
      cases j with
      | zero => rwa [pow_zero, one_mul]
      | succ j => exact (hreach j (Nat.lt_succ_self j)).2.1

/-- **Termination of a put**: in every state of every run, a put whose allocations all
succeed stores its pair, in a table whose size is in the range of `int`, if its key has
room, and only if it may have. -/
theorem hashmapPut_terminates {as : List (MapCall α)} {m : Hashmap α}
    (hrun : Run MapCall.step (fun _ _ => True) Hashmap.hashmapNew as m) (key : CString)
    (value : α) :
    (HasRoom m key → Returns m key value) ∧ (Returns m key value → MayHaveRoom m key) := by
  have h := slotsOk_of_run hrun
  have hiff := returns_iff_settles h.window_le key value
  exact ⟨fun hroom => hiff.mpr (HasRoom.settles h (tableSize_of_run hrun) hroom),
    fun hret => (hiff.mp hret).mayHaveRoom h⟩

/-- The latecomer and the crowd have room in a table four times as large. -/
lemma latecomer_hasRoom : HasRoom crowded latecomer.1 := by
  refine Or.inr (Or.inr ⟨2, by decide, by rw [crowded_tableSize]; decide, ?_⟩)
  have hkeys : insert latecomer.1 crowded.keys.toFinset =
      ((latecomer :: seated).map Prod.fst).toFinset := by
    rw [keys, crowded_entries, List.map_cons, List.toFinset_cons]
  rw [crowded_tableSize, hkeys]
  refine roomy_toFinset (by decide) (by decide) ?_
  have hhomes : ((latecomer :: seated).map Prod.fst).map (homeIn (2 ^ 2 * 25600)) =
      [102393, 76793, 76799, 25593, 25593, 25593, 76793, 25593, 76793, 76793] := by
    decide +kernel
  rw [hhomes]
  decide +kernel

/-- The latecomer has its table doubled twice. -/
theorem hashmapPut_terminates_crowded : Returns crowded latecomer.1 latecomer.2 :=
  (hashmapPut_terminates (run_of_exec (exec_puts crowd_fits)) latecomer.1 latecomer.2).1
    latecomer_hasRoom

end CLibrary
