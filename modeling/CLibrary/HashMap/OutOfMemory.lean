import CLibrary.HashMap.Seats

/-!
Puts that run out of memory.

* `Unharmed`: every get and the length are as before.
* `SafeFailure`: the allocation that fails is the first, or the map has no key in
  two slots and the right `size`, and the hashes of its keys let all find slots in
  the table of that round.
* `omem_attempt`: a put that runs out of memory leaves the map of the round the
  first failing allocation ends.
* `SafeFailure.unharmed`: that is enough for the map to be as good as the one
  before.  `SafeFailure.of_unharmed`: it has to be so when one of the first two
  allocations fails; `unharmed_succ` is what has to be so later.
* `omem_loses_key`: a re-insertion that needs a larger table still and does not
  get it loses its key.
* `omem_loses_nothing`: all of this over all runs.
-/

namespace CLibrary

open Probing

variable {α : Type*}

namespace Hashmap

/-- Every `hashmap_get` and `hashmap_length` return what they did before. -/
def Unharmed (m m' : Hashmap α) : Prop :=
  (∀ (null : α) (key : CString), m'.hashmapGet null key = m.hashmapGet null key) ∧
    m'.hashmapLength = m.hashmapLength

/-- The first allocation that fails is the `f`-th. -/
def FirstFailure (callocOk : ℕ → Bool) (f : ℕ) : Prop :=
  callocOk f = false ∧ ∀ i < f, callocOk i = true

/-- When allocation `f` of a put fails, it is the first, or no key of the map is in
two slots, `size` is the number of slots in use, and all keys find slots in the table
of that round: in the order of their slots if it is the first new table, in any order
if it is a later one. -/
def SafeFailure (m : Hashmap α) (f : ℕ) : Prop :=
  f = 0 ∨ m.keys.Nodup ∧ m.size = m.entries.length ∧
    (f = 1 ∧ SeatedIn (2 * m.tableSize) m.keys ∨ RoomyIn (2 ^ f * m.tableSize) m.keys.toFinset)

/-- A get depends on what is stored only. -/
lemma hashmapGet_congr {m m' : Hashmap α} (h : m.WF) (h' : m'.WF) {key : CString}
    (hholds : ∀ v, m'.Holds key v ↔ m.Holds key v) (null : α) :
    m'.hashmapGet null key = m.hashmapGet null key := by
  have hst : ∀ v, m.Holds key v ↔
      probe m.tableSize (valueAt m.data key) maxChainLength (m.hashInt key) = some v :=
    fun v => h.probe_value_iff.symm
  rw [hashmapGet_eq null h hst, hashmapGet_eq null h' fun v => (hholds v).trans (hst v)]

/-- **What a put has lost** when it has run out of memory: the pairs it has left
but its own. -/
lemma unharmed_iff {m m' : Hashmap α} {rest : List (CString × α)} (h : m.WF)
    (hhold : Holding m.entries m' rest) :
    Unharmed m m' ↔ rest = [] ∧ m.size = m.entries.length := by
  constructor
  · rintro ⟨hget, hlength⟩
    have hnil : rest = [] := by
      refine List.eq_nil_iff_forall_not_mem.mpr fun p hp => ?_
      obtain ⟨k, v⟩ := p
      have hbefore : m.Holds k v :=
        mem_entries.mp (hhold.perm.mem_iff.mp (List.mem_append_right _ hp))
      have hafter : ∀ v', ¬ m'.Holds k v' := by
        intro v' hv'
        have hnodup := (hhold.perm.map Prod.fst).nodup_iff.mpr (keys_nodup h)
        rw [List.map_append] at hnodup
        exact List.disjoint_of_nodup_append hnodup (mem_keys.mpr ⟨v', hv'⟩)
          (List.mem_map.mpr ⟨(k, v), hp, rfl⟩)
      have hsome : m.hashmapGet v k = getResult v (some v) := by
        refine hashmapGet_eq v h fun v' => ⟨fun hv' => ?_, fun heq => ?_⟩
        · obtain ⟨i, hi, hiv⟩ := hbefore
          obtain ⟨j, hj, hjv⟩ := hv'
          obtain rfl := h.unique i hi j hj k v v' hiv hjv
          rw [hiv, Option.some_inj, Prod.mk.injEq] at hjv
          rw [hjv.2]
        · exact Option.some.inj heq ▸ hbefore
      have hnone : m'.hashmapGet v k = getResult v none :=
        hashmapGet_eq v hhold.wf fun v' =>
          ⟨fun hv' => absurd hv' (hafter v'), fun heq => absurd heq.symm (Option.some_ne_none v')⟩
      have hsame := hget v k
      rw [hsome, hnone] at hsame
      cases hsame
    refine ⟨hnil, ?_⟩
    have hlen := hhold.perm.length_eq
    rw [hnil, List.append_nil] at hlen
    change m'.size = m.size at hlength
    rw [← hlength, hhold.size_eq, hlen]
  · rintro ⟨rfl, hsize⟩
    have hperm := hhold.perm
    rw [List.append_nil] at hperm
    refine ⟨fun null key => hashmapGet_congr h hhold.wf (fun v => ?_) null, ?_⟩
    · rw [← mem_entries, ← mem_entries]
      exact hperm.mem_iff
    · change m'.size = m.size
      rw [hhold.size_eq, hsize, hperm.length_eq]

/-- **A put that runs out of memory** has made rounds up to the first allocation
that fails, and its map is the one of the last round. -/
lemma omem_attempt {m : Hashmap α} {callocOk : ℕ → Bool} {fuel : ℕ} {key : CString} {value : α}
    {r : PutResult α} (hr : m.hashmapPut callocOk fuel 0 key value = some r)
    (homem : r.status = .omem) :
    ∃ f, FirstFailure callocOk f ∧ Reaches callocOk 0 m [(key, value)] f ∧
      (m.attempt [(key, value)] f).2 ≠ [] ∧ r.map = (m.attempt [(key, value)] f).1 := by
  obtain ⟨j, hreach, hend⟩ := hashmapPut_returns_iff.mp ⟨fuel, hr⟩
  rcases hend with ⟨-, rfl⟩ | ⟨hne, -, hfail, rfl⟩
  · cases homem
  · rw [Nat.zero_add] at hfail
    refine ⟨j, ⟨hfail, fun i hi => ?_⟩, hreach, hne, rfl⟩
    have := (hreach i hi).2.2
    rwa [Nat.zero_add] at this

/-- In an accurate map all that matters is that no pair of the map is left. -/
lemma Accurate.unharmed_put_iff {m : Hashmap α} (h : Accurate m) {callocOk : ℕ → Bool} {f : ℕ}
    {e : CString × α} (hreach : Reaches callocOk 0 m [e] f) (hne : (m.attempt [e] f).2 ≠ []) :
    Unharmed m (m.attempt [e] f).1 ↔ (m.attempt [e] f).2.length = 1 := by
  rcases put_roundOk h.wf h.size_eq hreach with ⟨m', rest, hhold, heq⟩ | ⟨m', index, -, -, heq⟩
  · rw [heq, unharmed_iff h.wf hhold, and_iff_left h.size_eq, List.length_append,
      List.length_singleton, ← List.length_eq_zero_iff]
    omega
  · rw [heq] at hne
    exact absurd rfl hne

/-- A map whose windows are in order and whose keys are distinct. -/
lemma SlotsOk.accurate {m : Hashmap α} (h : SlotsOk m) (hnodup : m.keys.Nodup)
    (hsize : m.size = m.entries.length) : Accurate m := by
  refine ⟨⟨hashInt_lt h.window_le, h.window_le, h.reach, fun i hi j hj k v v' hv hv' => ?_⟩, hsize⟩
  rw [keys, List.Nodup, List.pairwise_map, entries, pairs, List.pairwise_filterMap] at hnodup
  have hne : ∀ a b, a < b → b < m.tableSize →
      ∀ e, m.data a = some e → ∀ e', m.data b = some e' → e.1 ≠ e'.1 := by
    intro a b hab hb
    have hpair := List.pairwise_iff_getElem.mp hnodup a b (by simp; omega) (by simpa) hab
    rwa [List.getElem_range, List.getElem_range] at hpair
  rcases Nat.lt_trichotomy i j with hlt | heq | hlt
  · exact absurd rfl (hne i j hlt hj (k, v) hv (k, v') hv')
  · exact heq
  · exact absurd rfl (hne j i hlt hi (k, v') hv' (k, v) hv)

/-- **What a round after the first leaves**: only the pair of the put exactly if the
keys of the pairs in front of it are seated. -/
lemma length_left_iff {m : Hashmap α} (h : SlotsOk m) {e : CString × α} {f : ℕ}
    (hleft : ∀ i ≤ f + 1, (m.attempt [e] i).2 ≠ []) :
    ∃ l : List (CString × α), l.map Prod.fst ⊆ m.keys ∧ (f = 0 → l = m.entries) ∧
      ((m.attempt [e] (f + 1)).2.length = 1 ↔
        SeatedIn (2 ^ (f + 1) * m.tableSize) (l.map Prod.fst)) := by
  obtain ⟨m', l, heq, hun, hts, hlen, -, hkeys, hfirst⟩ :=
    attempt_succ_of_left h (e := e) (j := f) fun i hi => hleft i (by omega)
  have hne := hleft (f + 1) le_rfl
  refine ⟨l, hkeys, hfirst, ?_⟩
  rw [heq] at hne ⊢
  rw [placeAll_last hne, List.length_append, List.length_singleton, ← hts,
    ← placeAll_eq_nil_iff hun (by omega), ← List.length_eq_zero_iff]
  omega

/-- **A safe failure** does no harm. -/
lemma SafeFailure.unharmed {m : Hashmap α} (h : SlotsOk m) {callocOk : ℕ → Bool} {f : ℕ}
    {e : CString × α} (hreach : Reaches callocOk 0 m [e] f) (hne : (m.attempt [e] f).2 ≠ [])
    (hsafe : SafeFailure m f) : Unharmed m (m.attempt [e] f).1 := by
  cases f with
  | zero =>
      have hfirst : m.attempt [e] 0 = (m, [e]) := placeAll_singleton hne
      rw [hfirst]
      exact ⟨fun _ _ => rfl, rfl⟩
  | succ f =>
      obtain ⟨hnodup, hsize, hroom⟩ := hsafe.resolve_left (Nat.succ_ne_zero f)
      obtain ⟨l, hkeys, hfirst, hiff⟩ := length_left_iff h (e := e) (f := f) fun i hi =>
        (Nat.lt_or_eq_of_le hi).elim (fun hlt => (hreach i hlt).1) (fun heq => heq ▸ hne)
      rw [(h.accurate hnodup hsize).unharmed_put_iff hreach hne, hiff]
      rcases hroom with ⟨hf, hseated⟩ | hroomy
      · obtain rfl : f = 0 := by omega
        rw [hfirst rfl]
        rwa [Nat.zero_add, pow_one]
      · exact hroomy.seated fun k hk => List.mem_toFinset.mpr (hkeys hk)

/-- A key that is found is stored. -/
lemma mem_keys_of_get {m : Hashmap α} {key : CString} {null v : α}
    (hts : maxChainLength ≤ m.tableSize) (hget : m.hashmapGet null key = (.ok, v)) :
    key ∈ m.keys := by
  have hhome := hashInt_lt hts key
  rw [hashmapGet] at hget
  cases hprobe : probe m.tableSize (valueAt m.data key) maxChainLength (m.hashInt key) with
  | none =>
      rw [hprobe] at hget
      cases hget
  | some v' =>
      obtain ⟨d, -, hv, -⟩ := (probe_eq_some_iff hhome).mp hprobe
      exact mem_keys.mpr ⟨v', _, Nat.mod_lt _ (by omega), valueAt_eq_some_iff.mp hv⟩

/-- **What a put that did no harm** says of the map, if its first allocation was made:
`size` is right, and the keys overfill no row of slots of the last table. -/
lemma unharmed_succ {m : Hashmap α} (h : SlotsOk m) {callocOk : ℕ → Bool} {f : ℕ}
    {e : CString × α} (hreach : Reaches callocOk 0 m [e] (f + 1))
    (hne : (m.attempt [e] (f + 1)).2 ≠ []) (hun : Unharmed m (m.attempt [e] (f + 1)).1) :
    m.size = m.entries.length ∧
      ¬ OverfullIn (2 ^ (f + 1) * m.tableSize) m.keys.toFinset := by
  obtain ⟨hget, hlength⟩ := hun
  have hslots := h.attempt [e] (f + 1)
  constructor
  · -- no more pairs are counted than stored, and no more stored than there were
    obtain ⟨m', l, heq, hnew, -, -, hlen, -, -⟩ := attempt_succ_of_left h (e := e) (j := f)
      fun i hi => (hreach i (by omega)).1
    rw [heq] at hne hlength
    rw [placeAll_last hne] at hlength
    change (m'.placeAll l).1.size = m.size at hlength
    obtain ⟨placed, hl, -, -, hsize, -, -⟩ := placeAll_untouched hnew l
    have hcount := congrArg List.length hl
    have hin := h.inUse_le
    rw [List.length_append] at hcount
    omega
  · rw [← attempt_tableSize m [e]]
    refine hslots.not_overfull fun k hk => ?_
    rw [List.mem_toFinset] at hk
    obtain ⟨v, hv⟩ := mem_keys.mp hk
    obtain ⟨v', hv', -⟩ := h.get v hv
    exact mem_keys_of_get hslots.window_le ((hget v k).trans hv')

/-- **The failure was safe** if it did no harm, no key is in two slots, and one of the
first two allocations failed. -/
lemma SafeFailure.of_unharmed {m : Hashmap α} (h : SlotsOk m) {callocOk : ℕ → Bool} {f : ℕ}
    {e : CString × α} (hreach : Reaches callocOk 0 m [e] f) (hne : (m.attempt [e] f).2 ≠ [])
    (hnodup : m.keys.Nodup) (hf : f ≤ 1) (hun : Unharmed m (m.attempt [e] f).1) :
    SafeFailure m f := by
  cases f with
  | zero => exact Or.inl rfl
  | succ f =>
      obtain rfl : f = 0 := by omega
      have hsize := (unharmed_succ h hreach hne hun).1
      obtain ⟨l, -, hfirst, hiff⟩ := length_left_iff h (e := e) (f := 0) fun i hi =>
        (Nat.lt_or_eq_of_le hi).elim (fun hlt => (hreach i hlt).1) (fun heq => heq ▸ hne)
      have hone := ((h.accurate hnodup hsize).unharmed_put_iff hreach hne).mp hun
      refine Or.inr ⟨hnodup, hsize, Or.inl ⟨rfl, ?_⟩⟩
      rw [hiff, hfirst rfl] at hone
      rwa [Nat.zero_add, pow_one] at hone

/-! ### A key is lost -/

/-- The puts of a list of pairs, every allocation succeeding. -/
def puts (l : List (CString × α)) : List (MapCall α) :=
  l.map fun e => .put e.1 e.2 (fun _ => true) 1

/-- Pairs that all find a slot are put one after the other. -/
lemma exec_puts {m : Hashmap α} {l : List (CString × α)} (h : (m.placeAll l).2 = []) :
    exec MapCall.step m (puts l) = some (m.placeAll l).1 := by
  induction l generalizing m with
  | nil => rfl
  | cons e l ih =>
      cases hindex : m.hashmapHash e.1 with
      | none =>
          rw [placeAll_of_none hindex] at h
          exact absurd h (List.cons_ne_nil _ _)
      | some index =>
          have hstep : MapCall.step m (.put e.1 e.2 (fun _ => true) 1) =
              some (m.store index e.1 e.2) := by
            rw [MapCall.step, hashmapPut, hindex]
            rfl
          rw [placeAll_of_some hindex] at h ⊢
          rw [puts, List.map_cons, exec, hstep]
          exact ih h

/-- The slots that pairs are stored in. -/
def placedIn : Hashmap α → List (CString × α) → List ℕ
  | _, [] => []
  | m, e :: l =>
      match m.hashmapHash e.1 with
      | some index => index :: placedIn (m.store index e.1 e.2) l
      | none => []

lemma mem_placedIn {m : Hashmap α} {l : List (CString × α)} {i : ℕ}
    (h : (m.placeAll l).1.data i ≠ none) : m.data i ≠ none ∨ i ∈ placedIn m l := by
  induction l generalizing m with
  | nil => exact Or.inl h
  | cons e l ih =>
      rw [placedIn]
      cases hindex : m.hashmapHash e.1 with
      | none =>
          rw [placeAll_of_none hindex] at h
          exact Or.inl h
      | some index =>
          rw [placeAll_of_some hindex] at h
          by_cases hi : i = index
          · exact Or.inr (hi ▸ List.mem_cons_self)
          · refine (ih h).imp (fun hne => ?_) (List.mem_cons_of_mem _)
            change Function.update m.data index _ i ≠ none at hne
            rwa [Function.update_of_ne hi] at hne

/-- The pairs of a new map after some puts, from the slots they are in. -/
lemma entries_placeAll_new {l : List (CString × α)} {used : List ℕ}
    (hsorted : used.Pairwise (· < ·)) (hlt : ∀ i ∈ used, i < initialSize)
    (hused : ∀ i ∈ placedIn hashmapNew l, i ∈ used) :
    (hashmapNew.placeAll l).1.entries = used.filterMap (hashmapNew.placeAll l).1.data := by
  have hts : (hashmapNew.placeAll l).1.tableSize = initialSize := placeAll_tableSize _ l
  rw [entries, hts]
  refine pairs_eq_filterMap hsorted hlt fun i hi => ?_
  rcases mem_placedIn hi with hnew | hmem
  · exact absurd rfl hnew
  · exact hused i hmem

/-- "p8h", "q74", "a1og", "bslf", "cael", "ioly", "phqb" and "pxyt", whose slot is
25593 of 25600 and of 51200, and "kc", whose slot is 25599. -/
def crowd : List (CString × ℕ) :=
  [(⟨[112, 56, 104], by simp⟩, 1),
    (⟨[113, 55, 52], by simp⟩, 2),
    (⟨[97, 49, 111, 103], by simp⟩, 3),
    (⟨[98, 115, 108, 102], by simp⟩, 4),
    (⟨[99, 97, 101, 108], by simp⟩, 5),
    (⟨[105, 111, 108, 121], by simp⟩, 6),
    (⟨[112, 104, 113, 98], by simp⟩, 7),
    (⟨[112, 120, 121, 116], by simp⟩, 8),
    (⟨[107, 99], by simp⟩, 9)]

/-- "bxzx", whose slot is 25593 of 25600. -/
def latecomer : CString × ℕ := (⟨[98, 120, 122, 120], by simp⟩, 10)

/-- The crowd in the order of its slots: the last key of the window and "kc" have
gone around the end of the table. -/
def seated : List (CString × ℕ) :=
  (crowd.drop 7) ++ crowd.take 7

/-- The map of the crowd. -/
def crowded : Hashmap ℕ := (hashmapNew.placeAll crowd).1

lemma crowd_fits : (hashmapNew.placeAll crowd).2 = [] := by decide +kernel

lemma crowded_tableSize : crowded.tableSize = 25600 := by
  rw [crowded, placeAll_tableSize]
  rfl

lemma crowded_entries : crowded.entries = seated := by
  have hused : placedIn hashmapNew crowd =
      [25593, 25594, 25595, 25596, 25597, 25598, 25599, 0, 1] := by
    decide +kernel
  have hsorted : [0, 1, 25593, 25594, 25595, 25596, 25597, 25598, 25599].Pairwise (· < ·) := by
    decide
  rw [crowded, entries_placeAll_new hsorted (by decide +kernel) (by rw [hused]; decide +kernel)]
  decide +kernel

/-- The rounds of the put of the latecomer: its window is full, and so is the one
of "phqb" when it is stored again. -/
lemma crowded_rounds :
    (crowded.attempt [latecomer] 0).2 = [latecomer] ∧
      (crowded.attempt [latecomer] 1).2.length = 2 := by
  have hfull : crowded.placeAll [latecomer] = (crowded, [latecomer]) := by
    refine placeAll_singleton ?_
    decide +kernel
  constructor
  · rw [attempt_zero, hfull]
  · rw [attempt_succ, attempt_zero, hfull, doubled, crowded_tableSize, crowded_entries]
    decide +kernel

/-- A new map some new pairs were put in. -/
lemma accurate_placeAll_new {l : List (CString × α)} (hnodup : (l.map Prod.fst).Nodup)
    (hfits : (hashmapNew.placeAll l).2 = []) : Accurate (hashmapNew.placeAll l).1 := by
  have hnil : (hashmapNew : Hashmap α).entries = [] := empty_entries
  have hnew : (hashmapNew : Hashmap α).WF := empty_WF (by decide)
  obtain ⟨hwf, hperm, hsize⟩ := placeAll_spec hnew (l := l) (by rwa [hnil, List.nil_append])
  have hlen := hperm.length_eq
  rw [hfits, List.append_nil, hnil, List.nil_append] at hlen
  rw [hfits, List.length_nil, Nat.cast_zero, add_zero] at hsize
  refine ⟨hwf, ?_⟩
  rw [hsize, hlen]
  exact zero_add _

lemma crowded_accurate : Accurate crowded := accurate_placeAll_new (by decide) crowd_fits

/-- A put whose pair finds no slot in its table and not all find one in the next,
when the second allocation fails. -/
lemma second_omem {m : Hashmap α} {e : CString × α} (hts : 4 * m.tableSize < 2 ^ 31)
    (h0 : (m.attempt [e] 0).2 ≠ []) (h1 : (m.attempt [e] 1).2 ≠ []) :
    ∃ fuel, m.hashmapPut (fun i => i = 0) fuel 0 e.1 e.2 =
      some ⟨.omem, 2, (m.attempt [e] 1).1⟩ := by
  refine hashmapPut_returns_iff.mpr ⟨1, fun i hi => ?_, Or.inr ⟨h1, ?_, rfl, rfl⟩⟩
  · obtain rfl : i = 0 := by omega
    exact ⟨h0, by omega, rfl⟩
  · omega

/-- The second allocation is the first to fail. -/
lemma eq_one_of_firstFailure {f : ℕ} (h : FirstFailure (fun i => decide (i = 0)) f) : f = 1 := by
  obtain ⟨hfail, hfirst⟩ := h
  have hf0 : f ≠ 0 := by simpa using hfail
  have hf1 : ∀ i < f, i = 0 := by simpa using hfirst
  have := hf1 (f - 1) (by omega)
  omega

/-- The put of the latecomer, when its second allocation fails. -/
lemma latecomer_omem : ∃ fuel, crowded.hashmapPut (fun i => i = 0) fuel 0 latecomer.1 latecomer.2 =
    some ⟨.omem, 2, (crowded.attempt [latecomer] 1).1⟩ := by
  obtain ⟨h0, h1⟩ := crowded_rounds
  refine second_omem ?_ ?_ ?_
  · rw [crowded_tableSize]
    decide
  · rw [h0]
    exact List.cons_ne_nil _ _
  · intro hnil
    rw [hnil] at h1
    cases h1

/-! ### Eight keys and a ninth -/

/-- "frfedosq", "ysbpuczq", "lplnljwp", "mwvfeirs", "akpjdgts", "qxecbsds",
"begzrqks" and "kizalbpr", which have one `crc32`. -/
def octet : List (CString × ℕ) :=
  [(⟨[102, 114, 102, 101, 100, 111, 115, 113], by simp⟩, 1),
    (⟨[121, 115, 98, 112, 117, 99, 122, 113], by simp⟩, 2),
    (⟨[108, 112, 108, 110, 108, 106, 119, 112], by simp⟩, 3),
    (⟨[109, 119, 118, 102, 101, 105, 114, 115], by simp⟩, 4),
    (⟨[97, 107, 112, 106, 100, 103, 116, 115], by simp⟩, 5),
    (⟨[113, 120, 101, 99, 98, 115, 100, 115], by simp⟩, 6),
    (⟨[98, 101, 103, 122, 114, 113, 107, 115], by simp⟩, 7),
    (⟨[107, 105, 122, 97, 108, 98, 112, 114], by simp⟩, 8)]

/-- "wfidkxfr", which has the same. -/
def ninth : CString × ℕ := (⟨[119, 102, 105, 100, 107, 120, 102, 114], by simp⟩, 9)

lemma octet_fits : (hashmapNew.placeAll octet).2 = [] := by decide +kernel

/-- The map of the eight. -/
def eightStored : Hashmap ℕ := (hashmapNew.placeAll octet).1

lemma eightStored_tableSize : eightStored.tableSize = 25600 := by
  rw [eightStored, placeAll_tableSize]
  rfl

lemma eightStored_entries : eightStored.entries = octet := by
  have hused : placedIn hashmapNew octet =
      [4119, 4120, 4121, 4122, 4123, 4124, 4125, 4126] := by
    decide +kernel
  have hsorted : [4119, 4120, 4121, 4122, 4123, 4124, 4125, 4126].Pairwise (· < ·) := by decide
  rw [eightStored, entries_placeAll_new hsorted (by decide +kernel) (by rw [hused]; decide)]
  decide +kernel

/-- The rounds of the put of the ninth: its window is full in both tables. -/
lemma eightStored_rounds :
    (eightStored.attempt [ninth] 0).2 ≠ [] ∧ (eightStored.attempt [ninth] 1).2 ≠ [] := by
  have hfull : eightStored.placeAll [ninth] = (eightStored, [ninth]) := by
    refine placeAll_singleton ?_
    decide +kernel
  constructor
  · rw [attempt_zero, hfull]
    exact List.cons_ne_nil _ _
  · rw [attempt_succ, attempt_zero, hfull, doubled, eightStored_tableSize, eightStored_entries]
    decide +kernel

end Hashmap

open Hashmap

/-- **A key is lost**: the table is doubled, a re-insertion has to double it again
and finds no memory, and the key it was about is gone. -/
theorem omem_loses_key :
    ∃ (fuel : ℕ) (r : PutResult ℕ),
      Run MapCall.step (fun _ _ => True) Hashmap.hashmapNew (puts crowd) crowded ∧
      crowded.hashmapPut (fun i => i = 0) fuel 0 latecomer.1 latecomer.2 = some r ∧
      r.status = .omem ∧ ¬ Unharmed crowded r.map := by
  obtain ⟨fuel, hr⟩ := latecomer_omem
  refine ⟨fuel, _, run_of_exec (exec_puts crowd_fits), hr, rfl, ?_⟩
  obtain ⟨f, hfail, hreach, hne, hmap⟩ := omem_attempt hr rfl
  obtain rfl := eq_one_of_firstFailure hfail
  rw [hmap, crowded_accurate.unharmed_put_iff hreach hne, crowded_rounds.2]
  decide

/-- **Running out of memory**: in every state of every run, a put that returns
`MAP_OMEM` has met a first allocation that fails.  If that failure is safe, every get
and the length are as before.  If they are, it was the first allocation, or `size` is
the number of slots in use and the keys do not overfill a row of slots of the table the
allocation before it made; and the failure was safe if it was one of the first two and
no key is in two slots. -/
theorem omem_loses_nothing {as : List (MapCall α)} {m : Hashmap α}
    (hrun : Run MapCall.step (fun _ _ => True) Hashmap.hashmapNew as m) {callocOk : ℕ → Bool}
    {fuel : ℕ} {key : CString} {value : α} {r : PutResult α}
    (hr : m.hashmapPut callocOk fuel 0 key value = some r) (homem : r.status = .omem) :
    ∃ f, FirstFailure callocOk f ∧ (SafeFailure m f → Unharmed m r.map) ∧
      (Unharmed m r.map → f = 0 ∨ m.size = m.entries.length ∧
        ¬ OverfullIn (2 ^ f * m.tableSize) m.keys.toFinset) ∧
      (m.keys.Nodup → f ≤ 1 → (Unharmed m r.map ↔ SafeFailure m f)) := by
  have h := slotsOk_of_run hrun
  obtain ⟨f, hfail, hreach, hne, hmap⟩ := omem_attempt hr homem
  rw [hmap]
  refine ⟨f, hfail, fun hsafe => hsafe.unharmed h hreach hne, fun hun => ?_, fun hnodup hf =>
    ⟨fun hun => .of_unharmed h hreach hne hnodup hf hun, fun hsafe => hsafe.unharmed h hreach hne⟩⟩
  cases f with
  | zero => exact Or.inl rfl
  | succ f => exact Or.inr (unharmed_succ h hreach hne hun)

/-- The ninth finds no memory for a second table: the eight are in the first. -/
theorem omem_loses_nothing_of_nine :
    ∃ (fuel : ℕ) (r : PutResult ℕ),
      Run MapCall.step (fun _ _ => True) Hashmap.hashmapNew (puts octet) eightStored ∧
      eightStored.hashmapPut (fun i => i = 0) fuel 0 ninth.1 ninth.2 = some r ∧
      r.status = .omem ∧ r.map.tableSize = 2 * eightStored.tableSize ∧
      Unharmed eightStored r.map := by
  have hrun : Run MapCall.step (fun _ _ => True) Hashmap.hashmapNew (puts octet) eightStored :=
    run_of_exec (exec_puts octet_fits)
  obtain ⟨fuel, hr⟩ := second_omem (by rw [eightStored_tableSize]; decide)
    eightStored_rounds.1 eightStored_rounds.2
  obtain ⟨f, hfail, hsafe, -⟩ := omem_loses_nothing hrun hr rfl
  obtain rfl := eq_one_of_firstFailure hfail
  refine ⟨fuel, _, hrun, hr, rfl, ?_, hsafe (Or.inr ?_)⟩
  · rw [attempt_tableSize, pow_one]
  · have haccurate : Accurate eightStored := accurate_placeAll_new (by decide) octet_fits
    refine ⟨keys_nodup haccurate.wf, haccurate.size_eq, Or.inr ?_⟩
    rw [keys, eightStored_entries, eightStored_tableSize]
    exact roomy_of_hash_eq (c := fullHash ninth.1) (by decide +kernel) (by decide) (by decide)

end CLibrary
