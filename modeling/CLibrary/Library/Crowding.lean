import CLibrary.Library.Probing

/-!
Which slots a table with probe windows leaves free.

A key that is stored takes the first free slot of its window.  The slot it gets
depends on the keys before it, but the slots that are taken in the end do not
depend on the order: a slot is taken exactly if, for some slot in front of it, more
keys have their home from there on than there are slots in between.

* `LeavesFree`: the slot has no such crowd in front of it.  `free_iff` says that
  these are the free slots, and `probe_vacant_isSome_iff` whether a further key finds
  one.
* `Seated`: storing keys in a given order, every one finds a slot.
* `Roomy`: every key has a slot in its window that the others leave free, so that
  the keys find slots in any order (`Roomy.seated`).
* `Overfull`: more keys have their whole window in a row of slots than the row has,
  so that they never find slots, in no order (`not_overfull`).
-/

namespace CLibrary

namespace Probing

variable {K V : Type*}

/-- From no slot on to `s` do more keys have their home than there are slots in front
of `s`. -/
def LeavesFree (home : K → ℕ) (n : ℕ) (ks : Finset K) (s : ℕ) : Prop :=
  ∀ i < n, (ks.filter fun k => turn n (home k) s ≤ i).card ≤ i

/-- Every key has a slot in its window that the others leave free. -/
def Roomy [DecidableEq K] (home : K → ℕ) (n w : ℕ) (ks : Finset K) : Prop :=
  ∀ k ∈ ks, ∃ d < w, LeavesFree home n (ks.erase k) ((home k + d) % n)

/-- Every key of the list that is not in front of itself already has a slot in its
window that those in front of it leave free. -/
def Seated [DecidableEq K] (home : K → ℕ) (n w : ℕ) (l : List K) : Prop :=
  ∀ before k after, l = before ++ k :: after →
    k ∈ before ∨ ∃ d < w, LeavesFree home n before.toFinset ((home k + d) % n)

/-- Some row of slots has the whole windows of more keys than slots. -/
def Overfull (home : K → ℕ) (n w : ℕ) (ks : Finset K) : Prop :=
  ∃ a < n, ∃ len ≤ n, len < (ks.filter fun k => turn n a (home k) + w ≤ len).card

section Crowds

variable {home : K → ℕ} {n w s : ℕ} {ks ks' : Finset K}

/-- Fewer keys leave more slots free. -/
lemma LeavesFree.mono (h : LeavesFree home n ks' s) (hsub : ks ⊆ ks') : LeavesFree home n ks s :=
  fun i hi => (Finset.card_le_card (Finset.filter_subset_filter _ hsub)).trans (h i hi)

/-- Only crowds smaller than the number of keys matter. -/
lemma leavesFree_iff (hcard : ks.card ≤ n) : LeavesFree home n ks s ↔
    ∀ i < ks.card, (ks.filter fun k => turn n (home k) s ≤ i).card ≤ i := by
  refine ⟨fun h i hi => h i (hi.trans_le hcard), fun h i _ => ?_⟩
  by_cases hi : i < ks.card
  · exact h i hi
  · exact (Finset.card_filter_le _ _).trans (Nat.not_lt.mp hi)

variable [DecidableEq K] {l : List K} {k : K}

/-- **In any order** the keys of a roomy set find slots. -/
lemma Roomy.seated (h : Roomy home n w ks) (hl : ∀ k ∈ l, k ∈ ks) : Seated home n w l := by
  rintro before k after rfl
  refine or_iff_not_imp_left.mpr fun hk => ?_
  obtain ⟨d, hd, hfree⟩ := h k (hl k (by simp))
  refine ⟨d, hd, hfree.mono fun k' hk' => ?_⟩
  rw [List.mem_toFinset] at hk'
  exact Finset.mem_erase.mpr ⟨fun heq => hk (heq ▸ hk'), hl k' (by simp [hk'])⟩

/-- A list of keys is seen to be roomy from the list of their homes. -/
lemma roomy_toFinset (hnodup : l.Nodup) (hlen : l.length ≤ n)
    (h : ∀ x ∈ l.map home, ∃ d < w, ∀ i < l.length,
      (((l.map home).erase x).filter fun y => turn n y ((x + d) % n) ≤ i).length ≤ i) :
    Roomy home n w l.toFinset := by
  intro k hk
  rw [List.mem_toFinset] at hk
  obtain ⟨d, hd, hsmall⟩ := h (home k) (List.mem_map_of_mem hk)
  have herase : l.toFinset.erase k = (l.erase k).toFinset := by
    ext k'
    rw [Finset.mem_erase, List.mem_toFinset, List.mem_toFinset, hnodup.mem_erase_iff]
  have hperm : ((l.erase k).map home).Perm ((l.map home).erase (home k)) := by
    refine (List.perm_cons (home k)).mp ?_
    exact ((List.perm_cons_erase hk).map home).symm.trans
      (List.perm_cons_erase (List.mem_map_of_mem hk))
  have hcard : (l.erase k).toFinset.card = (l.erase k).length :=
    List.toFinset_card_of_nodup (hnodup.erase k)
  have hle := List.length_erase_le (a := k) (l := l)
  rw [herase]
  refine ⟨d, hd, (leavesFree_iff (by omega)).mpr fun i hi => ?_⟩
  have hfilter : ((l.erase k).toFinset.filter fun k' => turn n (home k') ((home k + d) % n) ≤ i) =
      ((l.erase k).filter fun k' => turn n (home k') ((home k + d) % n) ≤ i).toFinset := by
    ext k'
    simp only [Finset.mem_filter, List.mem_toFinset, List.mem_filter, decide_eq_true_eq]
  have hcount := (hperm.filter fun y => decide (turn n y ((home k + d) % n) ≤ i)).length_eq
  rw [List.filter_map, List.length_map] at hcount
  rw [hfilter, List.toFinset_card_of_nodup ((hnodup.erase k).filter _)]
  exact hcount.trans_le (hsmall i (by omega))

/-- One key more at the end. -/
lemma seated_append : Seated home n w (l ++ [k]) ↔ Seated home n w l ∧
    (k ∈ l ∨ ∃ d < w, LeavesFree home n l.toFinset ((home k + d) % n)) := by
  constructor
  · intro h
    refine ⟨fun before k' after heq => ?_, h l k [] rfl⟩
    exact h before k' (after ++ [k]) (by rw [heq, List.append_assoc, List.cons_append])
  · rintro ⟨h, hlast⟩ before k' after heq
    rcases List.eq_nil_or_concat after with rfl | ⟨after, k'', rfl⟩
    · obtain ⟨rfl, hk⟩ := List.append_inj' heq rfl
      obtain rfl := List.singleton_inj.mp hk
      exact hlast
    · rw [List.concat_eq_append, ← List.cons_append, ← List.append_assoc] at heq
      exact h before k' after (List.append_inj' heq rfl).1

lemma seated_nil : Seated home n w ([] : List K) := fun _ _ _ heq =>
  absurd heq.symm (List.append_ne_nil_of_right_ne_nil _ (List.cons_ne_nil _ _))

end Crowds

/-! ### Free slots -/

section Free

variable {home : K → ℕ} {n w s : ℕ} {t : ℕ → Option (K × V)} {ks : Finset K}

/-- A key whose home is in front of a free slot is stored in front of it. -/
lemma Placed.turn_slot (h : Placed home n w t) {k : K} (hun : Unholed home n w t k)
    (hs : s < n) (hnone : t s = none) {d : ℕ} (hd : d < w) {v : V}
    (hslot : t ((home k + d) % n) = some (k, v)) :
    0 < turn n ((home k + d) % n) s ∧ turn n ((home k + d) % n) s ≤ turn n (home k) s := by
  have hhome := h.home_lt k
  have hback := add_turn_mod hhome hs
  have hdlt : d < turn n (home k) s := by
    by_contra hge
    rcases (Nat.not_lt.mp hge).eq_or_lt with heq | hlt
    · rw [← heq, hback, hnone] at hslot
      cases hslot
    · exact hun d hd ⟨v, hslot⟩ _ hlt (by rw [hback, hnone])
  have := turn_add hhome hs hdlt.le
  omega

/-- **A free slot** has no crowd in front of it: every key with its home there is in
a slot of its own. -/
lemma Placed.leavesFree (h : Placed home n w t) (hun : ∀ k, Unholed home n w t k)
    (hks : ∀ k ∈ ks, ∃ v, Stored t n k v) (hs : s < n) (hnone : t s = none) :
    LeavesFree home n ks s := by
  intro i hi
  have hslot : ∀ k ∈ ks, ∃ j < n, (∃ v, t j = some (k, v)) ∧ 0 < turn n j s ∧
      turn n j s ≤ turn n (home k) s := by
    intro k hk
    obtain ⟨v, j, hj, hjv⟩ := hks k hk
    obtain ⟨d, hd, rfl⟩ := h.reach j hj k v hjv
    exact ⟨_, hj, ⟨v, hjv⟩, h.turn_slot (hun k) hs hnone hd hjv⟩
  choose! slot hlt hval hpos hle using hslot
  have hmaps : ∀ k ∈ ks.filter fun k => turn n (home k) s ≤ i, turn n (slot k) s ∈
      Finset.Icc 1 i := by
    intro k hk
    obtain ⟨hk, hki⟩ := Finset.mem_filter.mp hk
    exact Finset.mem_Icc.mpr ⟨hpos k hk, (hle k hk).trans hki⟩
  have hinj : Set.InjOn (fun k => turn n (slot k) s)
      (ks.filter fun k => turn n (home k) s ≤ i : Finset K) := by
    intro k hk k' hk' heq
    have hk := (Finset.mem_filter.mp hk).1
    have hk' := (Finset.mem_filter.mp hk').1
    obtain ⟨v, hv⟩ := hval k hk
    obtain ⟨v', hv'⟩ := hval k' hk'
    rw [turn_right_inj (hlt k hk) (hlt k' hk') hs heq, hv', Option.some_inj, Prod.mk.injEq] at hv
    exact hv.1.symm
  have hcard := Finset.card_le_card_of_injOn _ hmaps hinj
  rwa [Nat.card_Icc, Nat.add_sub_cancel] at hcard

/-- **A slot that is taken** has a crowd in front of it: the keys in the slots from the
last free one on. -/
lemma Placed.not_leavesFree (h : Placed home n w t) (hun : ∀ k, Unholed home n w t k)
    (hks : ∀ k v, Stored t n k v → k ∈ ks) (hfree : ∃ i < n, t i = none) (hs : s < n)
    (htaken : t s ≠ none) : ¬ LeavesFree home n ks s := by
  obtain ⟨i, hi, hnone⟩ := hfree
  have hex : ∃ e, e < n ∧ t ((s + (n - e)) % n) = none := by
    refine ⟨turn n i s, Nat.mod_lt _ (by omega), ?_⟩
    rw [sub_turn_mod hi hs, hnone]
  classical
  -- `e` steps back is the last free slot in front of `s`
  obtain ⟨he, hlast⟩ := Nat.find_spec hex
  set e := Nat.find hex with hdef
  have htakens : ∀ j < e, t ((s + (n - j)) % n) ≠ none := fun j hj hjnone =>
    Nat.find_min hex hj ⟨by omega, hjnone⟩
  have hpos : 0 < e := by
    rw [Nat.pos_iff_ne_zero]
    intro hzero
    rw [hzero, Nat.sub_zero, Nat.add_mod_right, Nat.mod_eq_of_lt hs] at hlast
    exact htaken hlast
  have hkey : ∀ j < e, ∃ k v, t ((s + (n - j)) % n) = some (k, v) := by
    intro j hj
    obtain ⟨⟨k, v⟩, hkv⟩ := Option.ne_none_iff_exists'.mp (htakens j hj)
    exact ⟨k, v, hkv⟩
  obtain ⟨k₀, v₀, -⟩ := hkey 0 hpos
  have : Nonempty K := ⟨k₀⟩
  have : Nonempty V := ⟨v₀⟩
  choose! key val hkv using hkey
  have hmaps : ∀ j ∈ Finset.range e, key j ∈ ks.filter fun k => turn n (home k) s ≤ e - 1 := by
    intro j hj
    rw [Finset.mem_range] at hj
    have hslot : (s + (n - j)) % n < n := Nat.mod_lt _ (by omega)
    refine Finset.mem_filter.mpr ⟨hks _ _ ⟨_, hslot, hkv j hj⟩, ?_⟩
    obtain ⟨d, hd, hreach⟩ := h.reach _ hslot _ _ (hkv j hj)
    have hhome := h.home_lt (key j)
    have hj' : turn n ((home (key j) + d) % n) s = j := by
      rw [← hreach]
      exact turn_sub_mod hs (by omega)
    by_contra hgt
    by_cases hd' : d ≤ turn n (home (key j)) s - e
    · -- it lies in front of the free slot
      have := turn_add hhome hs (hd'.trans (Nat.sub_le _ _))
      omega
    · -- it was stored past the free slot
      have heq : (home (key j) + (turn n (home (key j)) s - e)) % n = (s + (n - e)) % n :=
        calc (home (key j) + (turn n (home (key j)) s - e)) % n
            = (home (key j) + (turn n (home (key j)) s - e) + n) % n := (Nat.add_mod_right _ _).symm
          _ = (home (key j) + turn n (home (key j)) s + (n - e)) % n := by congr 1; omega
          _ = (s + (n - e)) % n := by rw [← Nat.mod_add_mod, add_turn_mod hhome hs]
      refine hun (key j) d hd ⟨val j, ?_⟩ _ (Nat.not_le.mp hd') (heq ▸ hlast)
      rw [← hreach]
      exact hkv j hj
  have hinj : Set.InjOn key (Finset.range e : Set ℕ) := by
    intro j hj j' hj' heq
    rw [Finset.coe_range, Set.mem_Iio] at hj hj'
    have hsame := h.unique _ (Nat.mod_lt _ (by omega)) _ (Nat.mod_lt _ (by omega)) _ _ _
      (hkv j hj) (heq ▸ hkv j' hj')
    have hj₁ := turn_sub_mod hs (j := j) (by omega)
    rw [hsame, turn_sub_mod hs (by omega)] at hj₁
    exact hj₁.symm
  have hcard := Finset.card_le_card_of_injOn key hmaps hinj
  rw [Finset.card_range] at hcard
  intro hleaves
  have := hleaves (e - 1) (by omega)
  omega

/-- **The free slots** are those the keys leave free. -/
theorem Placed.free_iff (h : Placed home n w t) (hun : ∀ k, Unholed home n w t k)
    (hks : ∀ k, k ∈ ks ↔ ∃ v, Stored t n k v) (hfree : ∃ i < n, t i = none) (hs : s < n) :
    t s = none ↔ LeavesFree home n ks s := by
  refine ⟨h.leavesFree hun (fun k hk => (hks k).mp hk) hs, fun hleaves => ?_⟩
  by_contra htaken
  exact h.not_leavesFree hun (fun k v hv => (hks k).mpr ⟨v, hv⟩) hfree hs htaken hleaves

/-- **Whether a key finds a slot**: it is stored already, or some slot of its window is
left free. -/
theorem Placed.probe_vacant_isSome_iff [DecidableEq K] (h : Placed home n w t)
    (hun : ∀ k, Unholed home n w t k) (hks : ∀ k, k ∈ ks ↔ ∃ v, Stored t n k v)
    (hfree : ∃ i < n, t i = none) (k : K) :
    (probe n (vacantAt t k) w (home k)).isSome ↔
      k ∈ ks ∨ ∃ d < w, LeavesFree home n ks ((home k + d) % n) := by
  have hhome := h.home_lt k
  have hlt : ∀ d, (home k + d) % n < n := fun d => Nat.mod_lt _ (by omega)
  constructor
  · intro hsome
    obtain ⟨j, hj⟩ := Option.isSome_iff_exists.mp hsome
    obtain ⟨d, hd, rfl, hvacant, -⟩ := h.probe_vacant_spec hj
    rcases hvacant with hnone | hv
    · exact Or.inr ⟨d, hd, (h.free_iff hun hks hfree (hlt d)).mp hnone⟩
    · obtain ⟨v, hv⟩ := hv
      exact Or.inl ((hks k).mpr ⟨v, _, hlt d, hv⟩)
  · intro hor
    rw [Option.isSome_iff_ne_none, Ne, probe_eq_none_iff hhome]
    intro hall
    rcases hor with hk | ⟨d, hd, hleaves⟩
    · obtain ⟨v, j, hj, hjv⟩ := (hks k).mp hk
      obtain ⟨d, hd, rfl⟩ := h.reach j hj k v hjv
      have hnone := hall d hd
      rw [vacantAt_eq_some_iff.mpr ⟨rfl, Or.inr ⟨v, hjv⟩⟩] at hnone
      cases hnone
    · have hnone := hall d hd
      rw [vacantAt_eq_some_iff.mpr ⟨rfl, Or.inl ((h.free_iff hun hks hfree (hlt d)).mpr hleaves)⟩]
        at hnone
      cases hnone

/-- **Keys that are all stored** in their windows overfill no row of slots. -/
lemma not_overfull (hhome : ∀ k, home k < n)
    (hks : ∀ k ∈ ks, ∃ d < w, ∃ v, t ((home k + d) % n) = some (k, v)) :
    ¬ Overfull home n w ks := by
  rintro ⟨a, ha, len, hlen, hcard⟩
  choose! d hd v hv using hks
  have hin : ∀ k ∈ ks.filter fun k => turn n a (home k) + w ≤ len, k ∈ ks ∧
      turn n a (home k) + d k < len ∧
        (a + (turn n a (home k) + d k)) % n = (home k + d k) % n := by
    intro k hk
    obtain ⟨hk, hle⟩ := Finset.mem_filter.mp hk
    have := hd k hk
    refine ⟨hk, by omega, ?_⟩
    rw [← Nat.add_assoc, ← Nat.mod_add_mod, add_turn_mod ha (hhome k)]
  have hmaps : ∀ k ∈ ks.filter fun k => turn n a (home k) + w ≤ len,
      turn n a (home k) + d k ∈ Finset.range len := fun k hk => Finset.mem_range.mpr (hin k hk).2.1
  have hinj : Set.InjOn (fun k => turn n a (home k) + d k)
      (ks.filter fun k => turn n a (home k) + w ≤ len : Finset K) := by
    intro k hk k' hk' heq
    obtain ⟨hk, -, hslot⟩ := hin k hk
    obtain ⟨hk', -, hslot'⟩ := hin k' hk'
    have heq : turn n a (home k) + d k = turn n a (home k') + d k' := heq
    have hkv := hv k hk
    rw [← hslot, heq, hslot', hv k' hk', Option.some_inj, Prod.mk.injEq] at hkv
    exact hkv.1.symm
  have := Finset.card_le_card_of_injOn _ hmaps hinj
  rw [Finset.card_range] at this
  omega

end Free

end Probing

end CLibrary
