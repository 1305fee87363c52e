import CLibrary.HashMap.Basic

/-!
`hashmap_put` as one loop over the sizes of the table.

`hashmap_put` and `hashmap_rehash` call each other: a re-insertion that finds
its window full rehashes the half-filled table again.  What they come to is an
iteration.  A round stores pairs one after the other until one finds no slot,
and the next round has the pairs of that table and the ones left to store in an
empty table of twice the size.

* `entries`, `placeAll`, `doubled`, `round`: a round, and what it hands to the
  next one.
* `settle`: the iteration, with the outcomes of the allocations.
* `settle_of_put`, `puts_of_settle`: every put that returns is an iteration that
  ends, with the same result, and the other way round.
* `hashmapPut_returns_iff`: what a put returns, from the rounds alone.
-/

namespace CLibrary

variable {α : Type*}

namespace Hashmap

/-! ### Rounds -/

/-- The pairs in use, in the order of their slots. -/
def entries (m : Hashmap α) : List (CString × α) := Probing.pairs m.data m.tableSize

/-- Storing pairs in their order, up to the first that finds no slot: the map,
and the pairs left. -/
def placeAll : Hashmap α → List (CString × α) → Hashmap α × List (CString × α)
  | m, [] => (m, [])
  | m, e :: l =>
      match m.hashmapHash e.1 with
      | some index => placeAll (m.store index e.1 e.2) l
      | none => (m, e :: l)

/-- The table `hashmap_rehash` stores the old pairs in. -/
def doubled (m : Hashmap α) : Hashmap α := ⟨2 * m.tableSize, 0, fun _ => none⟩

/-- From the pairs to store in a table to the pairs to store in the next. -/
def round (p : Hashmap α × List (CString × α)) : Hashmap α × List (CString × α) :=
  let r := p.1.placeAll p.2
  (r.1.doubled, r.1.entries ++ r.2)

/-- What the `j`-th round stores and leaves, when `l` is to be stored in `m`. -/
def attempt (m : Hashmap α) (l : List (CString × α)) (j : ℕ) :
    Hashmap α × List (CString × α) :=
  let p := round^[j] (m, l)
  p.1.placeAll p.2

@[simp] lemma store_tableSize (m : Hashmap α) (index : ℕ) (key : CString) (value : α) :
    (m.store index key value).tableSize = m.tableSize := rfl

@[simp] lemma doubled_tableSize (m : Hashmap α) : m.doubled.tableSize = 2 * m.tableSize := rfl

lemma placeAll_of_some {m : Hashmap α} {e : CString × α} {index : ℕ}
    (h : m.hashmapHash e.1 = some index) (l : List (CString × α)) :
    m.placeAll (e :: l) = (m.store index e.1 e.2).placeAll l := by
  rw [placeAll, h]

lemma placeAll_of_none {m : Hashmap α} {e : CString × α} (h : m.hashmapHash e.1 = none)
    (l : List (CString × α)) : m.placeAll (e :: l) = (m, e :: l) := by
  rw [placeAll, h]

@[simp] lemma placeAll_tableSize (m : Hashmap α) (l : List (CString × α)) :
    (m.placeAll l).1.tableSize = m.tableSize := by
  induction l generalizing m with
  | nil => rfl
  | cons e l ih =>
      cases h : m.hashmapHash e.1 with
      | some index => rw [placeAll_of_some h, ih, store_tableSize]
      | none => rw [placeAll_of_none h]

lemma attempt_zero (m : Hashmap α) (l : List (CString × α)) : m.attempt l 0 = m.placeAll l := rfl

lemma attempt_succ (m : Hashmap α) (l : List (CString × α)) (j : ℕ) :
    m.attempt l (j + 1) = (m.placeAll l).1.doubled.attempt
      ((m.placeAll l).1.entries ++ (m.placeAll l).2) j := by
  rw [attempt, Function.iterate_succ_apply]
  rfl

/-- The table doubles with every round. -/
lemma attempt_tableSize (m : Hashmap α) (l : List (CString × α)) (j : ℕ) :
    (m.attempt l j).1.tableSize = 2 ^ j * m.tableSize := by
  induction j generalizing m l with
  | zero => rw [attempt_zero, placeAll_tableSize, pow_zero, one_mul]
  | succ j ih =>
      rw [attempt_succ, ih, doubled_tableSize, placeAll_tableSize, pow_succ, mul_assoc]

/-- The rounds, until one stores everything, an allocation fails, or the size
leaves the range of `int`. -/
def settle (callocOk : ℕ → Bool) : ℕ → ℕ → Hashmap α → List (CString × α) → Option (PutResult α)
  | 0, _, _, _ => none
  | h + 1, n, m, l =>
      let r := m.placeAll l
      match r.2 with
      | [] => some ⟨.ok, n, r.1⟩
      | _ :: _ =>
          if 2 * m.tableSize ≥ 2 ^ 31 then none
          else if ¬ callocOk n then some ⟨.omem, n + 1, r.1⟩
          else settle callocOk h (n + 1) r.1.doubled (r.1.entries ++ r.2)

section Settle

variable {callocOk : ℕ → Bool} {h n : ℕ} {m : Hashmap α} {e : CString × α}
  {l : List (CString × α)} {r : PutResult α}

lemma settle_nil : settle callocOk (h + 1) n m [] = some ⟨.ok, n, m⟩ := rfl

/-- A pair that finds its slot. -/
lemma settle_of_some {index : ℕ} (hindex : m.hashmapHash e.1 = some index) :
    settle callocOk h n m (e :: l) = settle callocOk h n (m.store index e.1 e.2) l := by
  cases h with
  | zero => rfl
  | succ h => rw [settle, settle, placeAll_of_some hindex, store_tableSize]

/-- A pair that finds no slot. -/
lemma settle_of_none (hindex : m.hashmapHash e.1 = none) :
    settle callocOk (h + 1) n m (e :: l) =
      if 2 * m.tableSize ≥ 2 ^ 31 then none
      else if ¬ callocOk n then some ⟨.omem, n + 1, m⟩
      else settle callocOk h (n + 1) m.doubled (m.entries ++ e :: l) := by
  rw [settle, placeAll_of_none hindex]

end Settle

/-! ### Puts that return -/

/-- A put, at some depth of recursion. -/
def PutReturns (callocOk : ℕ → Bool) (n : ℕ) (m : Hashmap α) (e : CString × α)
    (r : PutResult α) : Prop :=
  ∃ fuel, hashmapPut callocOk fuel n m e.1 e.2 = some r

/-- The puts of a list of pairs, up to the first that fails. -/
def putAll (put : ℕ → Hashmap α → CString → α → Option (PutResult α)) :
    List (CString × α) → ℕ → Hashmap α → Option (PutResult α)
  | [], n, m => some ⟨.ok, n, m⟩
  | e :: l, n, m =>
      match put n m e.1 e.2 with
      | none => none
      | some r => if r.status ≠ .ok then some r else putAll put l r.allocs r.map

/-- The loop of `hashmap_rehash` puts the pairs of the old table. -/
lemma rehashLoop_eq (put : ℕ → Hashmap α → CString → α → Option (PutResult α))
    (curr : ℕ → Option (CString × α)) (is : List ℕ) (n : ℕ) (m : Hashmap α) :
    rehashLoop put curr is n m = putAll put (is.filterMap curr) n m := by
  induction is generalizing n m with
  | nil => rfl
  | cons i is ih =>
      rw [rehashLoop]
      cases hi : curr i with
      | none => rw [List.filterMap_cons_none hi, ih]
      | some e =>
          rw [List.filterMap_cons_some hi, putAll]
          dsimp only
          cases put n m e.1 e.2 with
          | none => rfl
          | some r =>
              dsimp only
              rw [ih]

/-- `hashmap_rehash`, in terms of the pairs of the table. -/
lemma rehashWith_eq (put : ℕ → Hashmap α → CString → α → Option (PutResult α))
    (callocOk : ℕ → Bool) (n : ℕ) (m : Hashmap α) :
    rehashWith put callocOk n m =
      if 2 * m.tableSize ≥ 2 ^ 31 then none
      else if ¬ callocOk n then some ⟨.omem, n + 1, m⟩
      else putAll put m.entries (n + 1) m.doubled := by
  rw [rehashWith, rehashLoop_eq]
  rfl

/-- More puts return with more fuel, and the others return the same. -/
lemma putAll_mono {put put' : ℕ → Hashmap α → CString → α → Option (PutResult α)}
    (hput : ∀ n m k v r, put n m k v = some r → put' n m k v = some r) {l : List (CString × α)}
    {n : ℕ} {m : Hashmap α} {r : PutResult α} (hr : putAll put l n m = some r) :
    putAll put' l n m = some r := by
  induction l generalizing n m with
  | nil => exact hr
  | cons e l ih =>
      rw [putAll] at hr ⊢
      cases he : put n m e.1 e.2 with
      | none => rw [he] at hr; cases hr
      | some r' =>
          rw [he] at hr
          rw [hput _ _ _ _ _ he]
          dsimp only at hr ⊢
          split_ifs at hr ⊢ with hst
          · exact hr
          · exact ih hr

/-- A put whose window is full returns what the puts of the pairs of the table
return if they run out of memory, and puts its own pair after them if not. -/
lemma hashmapPut_of_none {callocOk : ℕ → Bool} {fuel n : ℕ} {m : Hashmap α} {k : CString} {v : α}
    (hindex : m.hashmapHash k = none) :
    hashmapPut callocOk (fuel + 1) n m k v =
      if 2 * m.tableSize ≥ 2 ^ 31 then none
      else if ¬ callocOk n then some ⟨.omem, n + 1, m⟩
      else
        match putAll (hashmapPut callocOk fuel) m.entries (n + 1) m.doubled with
        | none => none
        | some r =>
            if r.status = .omem then some r
            else hashmapPut callocOk fuel r.allocs r.map k v := by
  rw [hashmapPut, hindex]
  dsimp only
  rw [rehashWith_eq]
  split_ifs <;> rfl

lemma hashmapPut_succ {callocOk : ℕ → Bool} {fuel n : ℕ} {m : Hashmap α} {k : CString} {v : α}
    {r : PutResult α} (hr : hashmapPut callocOk fuel n m k v = some r) :
    hashmapPut callocOk (fuel + 1) n m k v = some r := by
  induction fuel generalizing n m k v r with
  | zero => cases hr
  | succ fuel ih =>
      cases hindex : m.hashmapHash k with
      | some index =>
          rw [hashmapPut, hindex] at hr ⊢
          exact hr
      | none =>
          rw [hashmapPut_of_none hindex] at hr ⊢
          by_cases hsize : 2 * m.tableSize ≥ 2 ^ 31
          · rw [if_pos hsize] at hr
            cases hr
          rw [if_neg hsize] at hr ⊢
          by_cases hcalloc : ¬ callocOk n
          · rw [if_pos hcalloc] at hr ⊢
            exact hr
          rw [if_neg hcalloc] at hr ⊢
          cases hall : putAll (hashmapPut callocOk fuel) m.entries (n + 1) m.doubled with
          | none => rw [hall] at hr; cases hr
          | some r' =>
              rw [hall] at hr
              rw [putAll_mono (fun _ _ _ _ _ => ih) hall]
              dsimp only at hr ⊢
              split_ifs at hr ⊢ with homem
              · exact hr
              · exact ih hr

/-- Fuel beyond what a put needs makes no difference. -/
lemma hashmapPut_mono {callocOk : ℕ → Bool} {fuel fuel' n : ℕ} (hle : fuel ≤ fuel')
    {m : Hashmap α} {k : CString} {v : α} {r : PutResult α}
    (hr : hashmapPut callocOk fuel n m k v = some r) :
    hashmapPut callocOk fuel' n m k v = some r := by
  induction fuel', hle using Nat.le_induction with
  | base => exact hr
  | succ fuel' _ ih => exact hashmapPut_succ ih

lemma putAll_mono_fuel {callocOk : ℕ → Bool} {fuel fuel' n : ℕ} (hle : fuel ≤ fuel')
    {m : Hashmap α} {l : List (CString × α)} {r : PutResult α}
    (hr : putAll (hashmapPut callocOk fuel) l n m = some r) :
    putAll (hashmapPut callocOk fuel') l n m = some r :=
  putAll_mono (fun _ _ _ _ _ => hashmapPut_mono hle) hr

/-- The puts of a list, at some depth of recursion. -/
def PutsReturn (callocOk : ℕ → Bool) (n : ℕ) (m : Hashmap α) (l : List (CString × α))
    (r : PutResult α) : Prop :=
  ∃ fuel, putAll (hashmapPut callocOk fuel) l n m = some r

section Returns

variable {callocOk : ℕ → Bool} {n : ℕ} {m : Hashmap α} {e : CString × α} {l : List (CString × α)}
  {r r' : PutResult α}

lemma putReturns_of_some {index : ℕ} (hindex : m.hashmapHash e.1 = some index) :
    PutReturns callocOk n m e ⟨.ok, n, m.store index e.1 e.2⟩ :=
  ⟨1, by rw [hashmapPut, hindex]⟩

lemma putReturns_of_omem (hindex : m.hashmapHash e.1 = none) (hsize : 2 * m.tableSize < 2 ^ 31)
    (hcalloc : callocOk n = false) : PutReturns callocOk n m e ⟨.omem, n + 1, m⟩ :=
  ⟨1, by rw [hashmapPut_of_none hindex, if_neg (not_le.mpr hsize), if_pos (by simp [hcalloc])]⟩

/-- A rehash that runs out of memory. -/
lemma putReturns_of_rehash_omem (hindex : m.hashmapHash e.1 = none)
    (hsize : 2 * m.tableSize < 2 ^ 31) (hcalloc : callocOk n = true)
    (hr : PutsReturn callocOk (n + 1) m.doubled m.entries r) (hst : r.status = .omem) :
    PutReturns callocOk n m e r := by
  obtain ⟨fuel, hr⟩ := hr
  refine ⟨fuel + 1, ?_⟩
  rw [hashmapPut_of_none hindex, if_neg (not_le.mpr hsize), if_neg (by simp [hcalloc]), hr]
  exact if_pos hst

/-- A rehash, and the put into the table it leaves. -/
lemma putReturns_of_rehash (hindex : m.hashmapHash e.1 = none) (hsize : 2 * m.tableSize < 2 ^ 31)
    (hcalloc : callocOk n = true) (hr : PutsReturn callocOk (n + 1) m.doubled m.entries r)
    (hst : r.status ≠ .omem) (hr' : PutReturns callocOk r.allocs r.map e r') :
    PutReturns callocOk n m e r' := by
  obtain ⟨fuel, hr⟩ := hr
  obtain ⟨fuel', hr'⟩ := hr'
  refine ⟨max fuel fuel' + 1, ?_⟩
  rw [hashmapPut_of_none hindex, if_neg (not_le.mpr hsize), if_neg (by simp [hcalloc]),
    putAll_mono_fuel (le_max_left fuel fuel') hr]
  dsimp only
  rw [if_neg hst]
  exact hashmapPut_mono (le_max_right fuel fuel') hr'

lemma putsReturn_nil : PutsReturn callocOk n m [] ⟨.ok, n, m⟩ := ⟨0, rfl⟩

/-- A put that runs out of memory ends the puts. -/
lemma putsReturn_of_omem (he : PutReturns callocOk n m e r) (hst : r.status ≠ .ok) :
    PutsReturn callocOk n m (e :: l) r := by
  obtain ⟨fuel, he⟩ := he
  refine ⟨fuel, ?_⟩
  rw [putAll, he]
  exact if_pos hst

lemma putsReturn_cons (he : PutReturns callocOk n m e r) (hst : r.status = .ok)
    (hl : PutsReturn callocOk r.allocs r.map l r') : PutsReturn callocOk n m (e :: l) r' := by
  obtain ⟨fuel, he⟩ := he
  obtain ⟨fuel', hl⟩ := hl
  refine ⟨max fuel fuel', ?_⟩
  rw [putAll, hashmapPut_mono (le_max_left fuel fuel') he]
  dsimp only
  rw [if_neg (not_not.mpr hst)]
  exact putAll_mono_fuel (le_max_right fuel fuel') hl

/-- A single put. -/
lemma putReturns_of_putsReturn (h : PutsReturn callocOk n m [e] r) :
    PutReturns callocOk n m e r := by
  obtain ⟨fuel, h⟩ := h
  refine ⟨fuel, ?_⟩
  rw [putAll] at h
  cases he : hashmapPut callocOk fuel n m e.1 e.2 with
  | none => rw [he] at h; cases h
  | some r' =>
      rw [he] at h
      dsimp only at h
      split_ifs at h with hst
      · exact h
      · obtain ⟨st, allocs, map⟩ := r'
        rw [not_not] at hst
        subst hst
        exact h

end Returns

/-! ### Puts are iterations -/

section Iteration

variable {callocOk : ℕ → Bool}

/-- What the rounds make of `e` and `l` is what they make of `l` after a put of
`e`; if the put runs out of memory, the rounds end with it. -/
def PutSettles (callocOk : ℕ → Bool) (n : ℕ) (m : Hashmap α) (es : List (CString × α))
    (r : PutResult α) : Prop :=
  ∀ l, (r.status = .ok ∧ ∀ h r', settle callocOk h r.allocs r.map l = some r' →
      ∃ h', settle callocOk h' n m (es ++ l) = some r') ∨
    (r.status = .omem ∧ ∃ h', settle callocOk h' n m (es ++ l) = some r)

/-- The puts of a list, if every single put that returns settles. -/
lemma putAll_settles {put : ℕ → Hashmap α → CString → α → Option (PutResult α)}
    (hput : ∀ n m e r, put n m e.1 e.2 = some r → PutSettles callocOk n m [e] r)
    {es : List (CString × α)} {n : ℕ} {m : Hashmap α} {r : PutResult α}
    (hr : putAll put es n m = some r) : PutSettles callocOk n m es r := by
  induction es generalizing n m with
  | nil =>
      obtain rfl := Option.some.inj hr
      exact fun l => Or.inl ⟨rfl, fun h r' hl => ⟨h, hl⟩⟩
  | cons e es ih =>
      rw [putAll] at hr
      cases he : put n m e.1 e.2 with
      | none => rw [he] at hr; cases hr
      | some r₁ =>
          rw [he] at hr
          dsimp only at hr
          intro l
          split_ifs at hr with hst
          · obtain rfl := Option.some.inj hr
            rcases hput n m e r₁ he (es ++ l) with ⟨hok, -⟩ | homem
            · exact absurd hok hst
            · exact Or.inr homem
          · rcases hput n m e r₁ he (es ++ l) with ⟨-, hfirst⟩ | ⟨homem, -⟩
            · rcases ih hr l with ⟨hok, hrest⟩ | ⟨homem, h, hrest⟩
              · refine Or.inl ⟨hok, fun h r' hl => ?_⟩
                obtain ⟨h', hl'⟩ := hrest h r' hl
                exact hfirst h' r' hl'
              · exact Or.inr ⟨homem, hfirst h r hrest⟩
            · rw [homem] at hst
              exact absurd hst (by decide)

/-- **A put that returns settles.** -/
lemma settle_of_put (fuel n : ℕ) (m : Hashmap α) (e : CString × α) (r : PutResult α)
    (hr : hashmapPut callocOk fuel n m e.1 e.2 = some r) : PutSettles callocOk n m [e] r := by
  induction fuel generalizing n m e r with
  | zero => cases hr
  | succ fuel ih =>
      intro l
      cases hindex : m.hashmapHash e.1 with
      | some index =>
          rw [hashmapPut, hindex] at hr
          obtain rfl := Option.some.inj hr
          refine Or.inl ⟨rfl, fun h r' hl => ⟨h, ?_⟩⟩
          rw [List.singleton_append, settle_of_some hindex]
          exact hl
      | none =>
          rw [hashmapPut_of_none hindex] at hr
          split_ifs at hr with hsize hcalloc
          · -- the pairs of the table go first, then the pair of the put
            have hgrow : ∀ h, settle callocOk (h + 1) n m (e :: l) =
                settle callocOk h (n + 1) m.doubled (m.entries ++ e :: l) := by
              intro h
              rw [settle_of_none hindex, if_neg hsize, if_neg (not_not.mpr hcalloc)]
            cases hall : putAll (hashmapPut callocOk fuel) m.entries (n + 1) m.doubled with
            | none => rw [hall] at hr; cases hr
            | some r₁ =>
                rw [hall] at hr
                dsimp only at hr
                have hrehash := putAll_settles ih hall (e :: l)
                split_ifs at hr with homem
                · obtain rfl := Option.some.inj hr
                  obtain ⟨-, h, hl⟩ := hrehash.resolve_left fun hok =>
                    absurd (homem.symm.trans hok.1) (by decide)
                  exact Or.inr ⟨homem, h + 1, (hgrow h).trans hl⟩
                · obtain ⟨-, hrest⟩ := hrehash.resolve_right fun hom => homem hom.1
                  rcases ih _ _ _ _ hr l with ⟨hok, hlast⟩ | ⟨hom, h, hl⟩
                  · refine Or.inl ⟨hok, fun h r' hl => ?_⟩
                    obtain ⟨h', hl'⟩ := hlast h r' hl
                    obtain ⟨h'', hl''⟩ := hrest h' r' hl'
                    exact ⟨h'' + 1, (hgrow h'').trans hl''⟩
                  · obtain ⟨h', hl'⟩ := hrest h r hl
                    exact Or.inr ⟨hom, h' + 1, (hgrow h').trans hl'⟩
          · obtain rfl := Option.some.inj hr
            refine Or.inr ⟨rfl, 1, ?_⟩
            rw [List.singleton_append, settle_of_none hindex, if_neg hsize, if_pos hcalloc]

/-- **The rounds are puts.**  Rounds that end begin with the puts of the first
pairs, and go on with the others if those do not run out of memory.  The
induction is on the rounds, and among equal rounds on the pairs. -/
lemma puts_of_settle (h : ℕ) (es : List (CString × α)) (n : ℕ) (m : Hashmap α)
    (l : List (CString × α)) (r' : PutResult α) (hs : settle callocOk h n m (es ++ l) = some r') :
    ∃ r, PutsReturn callocOk n m es r ∧
      ((r.status = .ok ∧ ∃ h' ≤ h, settle callocOk h' r.allocs r.map l = some r') ∨
        (r.status = .omem ∧ r = r')) := by
  induction h using Nat.strong_induction_on generalizing es n m l r' with
  | _ h ihh =>
      induction es generalizing n m with
      | nil => exact ⟨_, putsReturn_nil, Or.inl ⟨rfl, h, le_rfl, hs⟩⟩
      | cons e es ihe =>
          cases hindex : m.hashmapHash e.1 with
          | some index =>
              rw [List.cons_append, settle_of_some hindex] at hs
              obtain ⟨r, hr, hrest⟩ := ihe _ _ hs
              exact ⟨r, putsReturn_cons (putReturns_of_some hindex) rfl hr, hrest⟩
          | none =>
              cases h with
              | zero => cases hs
              | succ h =>
                  rw [List.cons_append, settle_of_none hindex] at hs
                  split_ifs at hs with hsize hcalloc
                  · rw [not_le] at hsize
                    -- the pairs of the table
                    obtain ⟨r₁, hr₁, hrest₁⟩ := ihh h (by omega) m.entries _ _ (e :: (es ++ l)) _ hs
                    rcases hrest₁ with ⟨hok₁, h₁, hle₁, hs₁⟩ | ⟨homem, rfl⟩
                    · -- the pair that found no slot
                      have hst₁ : r₁.status ≠ .omem := by rw [hok₁]; decide
                      obtain ⟨r₂, hr₂, hrest₂⟩ := ihh h₁ (by omega) [e] _ _ (es ++ l) _ hs₁
                      have hput := putReturns_of_rehash hindex hsize hcalloc hr₁ hst₁
                        (putReturns_of_putsReturn hr₂)
                      rcases hrest₂ with ⟨hok₂, h₂, hle₂, hs₂⟩ | ⟨homem, rfl⟩
                      · -- the pairs behind it
                        obtain ⟨r₃, hr₃, hrest₃⟩ := ihh h₂ (by omega) es _ _ l _ hs₂
                        refine ⟨r₃, putsReturn_cons hput hok₂ hr₃, ?_⟩
                        rcases hrest₃ with ⟨hok₃, h₃, hle₃, hs₃⟩ | homem
                        · exact Or.inl ⟨hok₃, h₃, by omega, hs₃⟩
                        · exact Or.inr homem
                      · exact ⟨_, putsReturn_of_omem hput (by rw [homem]; decide),
                          Or.inr ⟨homem, rfl⟩⟩
                    · exact ⟨_, putsReturn_of_omem
                        (putReturns_of_rehash_omem hindex hsize hcalloc hr₁ homem)
                        (by rw [homem]; decide), Or.inr ⟨homem, rfl⟩⟩
                  · obtain rfl := Option.some.inj hs
                    rw [not_le] at hsize
                    rw [Bool.not_eq_true] at hcalloc
                    exact ⟨_, putsReturn_of_omem (putReturns_of_omem hindex hsize hcalloc)
                      (fun hok => MapStatus.noConfusion hok), Or.inr ⟨rfl, rfl⟩⟩

/-- **A put returns what its rounds end with.** -/
theorem putReturns_iff_settle {n : ℕ} {m : Hashmap α} {e : CString × α} {r : PutResult α} :
    PutReturns callocOk n m e r ↔ ∃ h, settle callocOk h n m [e] = some r := by
  constructor
  · rintro ⟨fuel, hr⟩
    rcases settle_of_put fuel n m e r hr [] with ⟨hok, hrest⟩ | ⟨-, h, hs⟩
    · refine hrest 1 r ?_
      obtain ⟨st, allocs, map⟩ := r
      dsimp only at hok
      rw [hok]
      exact settle_nil
    · exact ⟨h, hs⟩
  · rintro ⟨h, hs⟩
    obtain ⟨r', hr, hrest⟩ := puts_of_settle h [e] n m [] r hs
    have heq : r' = r := by
      rcases hrest with ⟨hok, h', -, hs'⟩ | ⟨-, rfl⟩
      · cases h' with
        | zero => cases hs'
        | succ h' =>
            obtain rfl := Option.some.inj hs'
            obtain ⟨st, allocs, map⟩ := r'
            dsimp only at hok
            rw [hok]
            rfl
      · rfl
    exact heq ▸ putReturns_of_putsReturn hr

end Iteration

/-! ### What a put returns -/

section Attempts

variable {callocOk : ℕ → Bool} {m : Hashmap α} {l : List (CString × α)} {n : ℕ} {r : PutResult α}

/-- Rounds `0` to `j - 1` leave pairs, and the table for the next one is there:
its size fits in an `int` and its allocation succeeds. -/
def Reaches (callocOk : ℕ → Bool) (n : ℕ) (m : Hashmap α) (l : List (CString × α)) (j : ℕ) :
    Prop :=
  ∀ i < j, (m.attempt l i).2 ≠ [] ∧ 2 ^ (i + 1) * m.tableSize < 2 ^ 31 ∧ callocOk (n + i) = true

/-- The rounds end with the first that stores everything, or with the first
whose successor has no table. -/
def Ends (callocOk : ℕ → Bool) (n : ℕ) (m : Hashmap α) (l : List (CString × α)) (j : ℕ)
    (r : PutResult α) : Prop :=
  ((m.attempt l j).2 = [] ∧ r = ⟨.ok, n + j, (m.attempt l j).1⟩) ∨
    ((m.attempt l j).2 ≠ [] ∧ 2 ^ (j + 1) * m.tableSize < 2 ^ 31 ∧ callocOk (n + j) = false ∧
      r = ⟨.omem, n + j + 1, (m.attempt l j).1⟩)

lemma Ends.map_eq {j : ℕ} (h : Ends callocOk n m l j r) : r.map = (m.attempt l j).1 := by
  rcases h with ⟨-, rfl⟩ | ⟨-, -, -, rfl⟩
  · rfl
  · rfl

/-- A round more in front. -/
lemma reaches_succ {j : ℕ} :
    Reaches callocOk n m l (j + 1) ↔
      ((m.placeAll l).2 ≠ [] ∧ 2 * m.tableSize < 2 ^ 31 ∧ callocOk n = true) ∧
        Reaches callocOk (n + 1) (m.placeAll l).1.doubled
          ((m.placeAll l).1.entries ++ (m.placeAll l).2) j := by
  have hsize : ∀ i, 2 ^ (i + 1) * (2 * m.tableSize) = 2 ^ (i + 1 + 1) * m.tableSize := by
    intro i
    rw [pow_succ 2 (i + 1), mul_assoc]
  have halloc : ∀ i, n + 1 + i = n + (i + 1) := fun i => by omega
  constructor
  · intro h
    have h0 := h 0 (Nat.succ_pos j)
    rw [attempt_zero, pow_succ, pow_zero, one_mul, Nat.add_zero] at h0
    refine ⟨h0, fun i hi => ?_⟩
    have hi' := h (i + 1) (by omega)
    rw [attempt_succ] at hi'
    rw [doubled_tableSize, placeAll_tableSize, hsize, halloc]
    exact hi'
  · rintro ⟨h0, h⟩ i hi
    cases i with
    | zero =>
        rw [attempt_zero, pow_succ, pow_zero, one_mul, Nat.add_zero]
        exact h0
    | succ i =>
        have hi' := h i (by omega)
        rw [doubled_tableSize, placeAll_tableSize, hsize, halloc] at hi'
        rw [attempt_succ]
        exact hi'

lemma ends_succ {j : ℕ} :
    Ends callocOk n m l (j + 1) r ↔
      Ends callocOk (n + 1) (m.placeAll l).1.doubled
        ((m.placeAll l).1.entries ++ (m.placeAll l).2) j r := by
  have hsize : 2 ^ (j + 1) * (2 * m.tableSize) = 2 ^ (j + 1 + 1) * m.tableSize := by
    rw [pow_succ 2 (j + 1), mul_assoc]
  have halloc : n + 1 + j = n + (j + 1) := by omega
  rw [Ends, Ends, attempt_succ, doubled_tableSize, placeAll_tableSize, hsize, halloc]

/-- The rounds, one by one. -/
lemma settle_eq_some_iff {h : ℕ} :
    settle callocOk h n m l = some r ↔
      ∃ j < h, Reaches callocOk n m l j ∧ Ends callocOk n m l j r := by
  induction h generalizing n m l with
  | zero =>
      refine ⟨(fun hs => by cases hs), ?_⟩
      rintro ⟨j, hj, -⟩
      exact absurd hj (Nat.not_lt_zero j)
  | succ h ih =>
      have hreach : Reaches callocOk n m l 0 := fun i hi => absurd hi (Nat.not_lt_zero i)
      rw [settle]
      cases hleft : (m.placeAll l).2 with
      | nil =>
          constructor
          · intro hs
            obtain rfl := Option.some.inj hs
            exact ⟨0, by omega, hreach, Or.inl ⟨hleft, rfl⟩⟩
          · rintro ⟨j, -, hr, hend⟩
            cases j with
            | zero =>
                rcases hend with ⟨-, rfl⟩ | ⟨hne, -⟩
                · rfl
                · exact absurd hleft hne
            | succ j => exact absurd hleft (reaches_succ.mp hr).1.1
      | cons e rest =>
          have hne : (m.placeAll l).2 ≠ [] := by
            rw [hleft]
            exact List.cons_ne_nil e rest
          dsimp only
          rw [← hleft]
          split_ifs with hsize hcalloc
          · refine ⟨(fun hs => by cases hs), ?_⟩
            rintro ⟨j, -, hr, hend⟩
            cases j with
            | zero =>
                rcases hend with ⟨hnil, -⟩ | ⟨-, hlt, -⟩
                · exact absurd hnil hne
                · rw [pow_succ, pow_zero, one_mul] at hlt
                  omega
            | succ j =>
                have hlt := (reaches_succ.mp hr).1.2.1
                omega
          · rw [ih]
            constructor
            · rintro ⟨j, hj, hr, hend⟩
              exact ⟨j + 1, by omega,
                reaches_succ.mpr ⟨⟨hne, by omega, hcalloc⟩, hr⟩, ends_succ.mpr hend⟩
            · rintro ⟨j, hj, hr, hend⟩
              cases j with
              | zero =>
                  rcases hend with ⟨hnil, -⟩ | ⟨-, -, hfail, -⟩
                  · exact absurd hnil hne
                  · rw [Nat.add_zero, hcalloc] at hfail
                    cases hfail
              | succ j => exact ⟨j, by omega, (reaches_succ.mp hr).2, ends_succ.mp hend⟩
          · rw [Bool.not_eq_true] at hcalloc
            constructor
            · intro hs
              obtain rfl := Option.some.inj hs
              refine ⟨0, by omega, hreach, Or.inr ⟨hne, ?_, hcalloc, rfl⟩⟩
              rw [pow_succ, pow_zero, one_mul]
              omega
            · rintro ⟨j, -, hr, hend⟩
              cases j with
              | zero =>
                  rcases hend with ⟨hnil, -⟩ | ⟨-, -, -, rfl⟩
                  · exact absurd hnil hne
                  · rfl
              | succ j =>
                  have hok := (reaches_succ.mp hr).1.2.2
                  rw [hcalloc] at hok
                  cases hok

/-- **What a put returns**: it makes rounds while one leaves pairs and the next
table is there, and returns the table of the last round. -/
theorem hashmapPut_returns_iff {key : CString} {value : α} :
    (∃ fuel, hashmapPut callocOk fuel n m key value = some r) ↔
      ∃ j, Reaches callocOk n m [(key, value)] j ∧ Ends callocOk n m [(key, value)] j r := by
  refine Iff.trans (putReturns_iff_settle (e := (key, value))) ?_
  constructor
  · rintro ⟨h, hs⟩
    obtain ⟨j, -, hj⟩ := settle_eq_some_iff.mp hs
    exact ⟨j, hj⟩
  · rintro ⟨j, hj⟩
    exact ⟨j + 1, settle_eq_some_iff.mpr ⟨j, by omega, hj⟩⟩

end Attempts

end Hashmap

end CLibrary
