import CLibrary.Packet.Addresses

/-!
The order of `ip_compare`.

* `ipWords`: the words it reads.  `ipCompare_lesser_iff`: it compares them as
  lists.
* `TotalOrder`, `ipCompare_totalOrder`: for each word size this is a total order.
* `HalvesOrdered`, `SameOrder`: when the order of the 64-bit words is that of the
  32-bit words.
* `ipCompare_disagrees`: a pair that the two word sizes order differently.
* `ipCompare_agree_iff`: which pairs they do not.
-/

namespace CLibrary

/-! ### The words in their order -/

/-- The words of an address that `ip_compare` reads, in its order. -/
def ipWords (x86_64 : Bool) (a : IpAddr) : List ℕ :=
  if x86_64 then List.ofFn (addr64 a) else List.ofFn (addr32 a)

lemma ipCompare_eq_compareWords (x86_64 : Bool) (a b : IpAddr) :
    ipCompare x86_64 a b = compareWords ((ipWords x86_64 a).zip (ipWords x86_64 b)) := by
  cases x86_64 <;> rfl

lemma ipWords_length (x86_64 : Bool) (a b : IpAddr) :
    (ipWords x86_64 a).length = (ipWords x86_64 b).length := by
  cases x86_64 <;> rfl

/-- `IP_LESSER`, for words of the same number. -/
lemma compareWords_lesser_iff {u v : List ℕ} (hlen : u.length = v.length) :
    compareWords (u.zip v) = .lesser ↔ u < v := by
  induction u generalizing v with
  | nil =>
      obtain rfl := List.length_eq_zero_iff.mp hlen.symm
      simp [compareWords]
  | cons x u ih =>
      cases v with
      | nil => cases hlen
      | cons y v =>
          rw [List.zip_cons_cons, compareWords, List.cons_lt_cons_iff, ← ih (Nat.succ.inj hlen)]
          split_ifs with hlt hgt
          · exact iff_of_true rfl (Or.inl hlt)
          · refine iff_of_false (fun h => by cases h) ?_
            rintro (h | ⟨rfl, -⟩)
            · exact absurd h (by omega)
            · exact lt_irrefl _ hgt
          · constructor
            · exact fun h => Or.inr ⟨by omega, h⟩
            · rintro (h | ⟨-, h⟩)
              · exact absurd h hlt
              · exact h

/-- The comparison the other way around. -/
lemma compareWords_swap (u v : List ℕ) :
    compareWords (u.zip v) = .greater ↔ compareWords (v.zip u) = .lesser := by
  induction u generalizing v with
  | nil => simp [compareWords]
  | cons x u ih =>
      cases v with
      | nil => simp [compareWords]
      | cons y v =>
          rw [List.zip_cons_cons, List.zip_cons_cons, compareWords, compareWords]
          rcases lt_trichotomy x y with h | rfl | h
          · rw [if_pos h, if_neg h.le.not_gt, if_pos h]
            exact iff_of_false (fun h => by cases h) (fun h => by cases h)
          · rw [if_neg (lt_irrefl x), if_neg (lt_irrefl x), if_neg (lt_irrefl x),
              if_neg (lt_irrefl x), ih]
          · rw [if_neg h.le.not_gt, if_pos h, if_pos h]
            exact iff_of_true rfl rfl

/-! ### A total order -/

/-- A comparison that is a total order: exactly equal values compare equal,
exchanging them exchanges the two other results, and `IP_LESSER` is transitive. -/
structure TotalOrder {α : Type*} (compare : α → α → IpCode) : Prop where
  equal_iff : ∀ a b, compare a b = .equal ↔ a = b
  swap : ∀ a b, compare a b = .greater ↔ compare b a = .lesser
  trans : ∀ a b c, compare a b = .lesser → compare b c = .lesser → compare a c = .lesser

/-- `IP_LESSER` is the order of the lists of words. -/
lemma ipCompare_lesser_iff (x86_64 : Bool) (a b : IpAddr) :
    ipCompare x86_64 a b = .lesser ↔ ipWords x86_64 a < ipWords x86_64 b := by
  rw [ipCompare_eq_compareWords]
  exact compareWords_lesser_iff (ipWords_length x86_64 a b)

/-- **A total order**, for both word sizes. -/
lemma ipCompare_totalOrder (x86_64 : Bool) : TotalOrder (ipCompare x86_64) := by
  refine ⟨fun a b => ipCompare_eq_iff x86_64, fun a b => ?_, fun a b c hab hbc => ?_⟩
  · rw [ipCompare_eq_compareWords, ipCompare_eq_compareWords]
    exact compareWords_swap _ _
  · rw [ipCompare_lesser_iff] at hab hbc ⊢
    exact hab.trans hbc

/-! ### The two word sizes -/

/-- The halves of the `k`-th 64-bit word are not ordered in opposite ways. -/
def HalvesOrdered (a b : IpAddr) (k : Fin 2) : Prop :=
  ¬ (addr64 a k % 2 ^ 32 < addr64 b k % 2 ^ 32 ∧ addr64 b k / 2 ^ 32 < addr64 a k / 2 ^ 32) ∧
    ¬ (addr64 b k % 2 ^ 32 < addr64 a k % 2 ^ 32 ∧ addr64 a k / 2 ^ 32 < addr64 b k / 2 ^ 32)

/-- The halves of the first 64-bit word that differs are not ordered in opposite
ways. -/
def SameOrder (a b : IpAddr) : Prop :=
  ∀ k, (∀ j < k, addr64 a j = addr64 b j) → HalvesOrdered a b k

/-- The words behind others decide if those are equal. -/
lemma compareWords_append (u v : List (ℕ × ℕ)) :
    compareWords (u ++ v) = if compareWords u = .equal then compareWords v else compareWords u := by
  induction u with
  | nil => rfl
  | cons w u ih =>
      rw [List.cons_append, compareWords, compareWords]
      by_cases hlt : w.1 < w.2
      · simp only [if_pos hlt, reduceCtorEq, if_false]
      · by_cases hgt : w.1 > w.2
        · simp only [if_neg hlt, if_pos hgt, reduceCtorEq, if_false]
        · simp only [if_neg hlt, if_neg hgt, ih]

/-- The halves of a word, the low one first, compared with the word. -/
lemma compareWords_halves_iff (w w' : ℕ) :
    compareWords [(w, w')] =
        compareWords [(w % 2 ^ 32, w' % 2 ^ 32), (w / 2 ^ 32, w' / 2 ^ 32)] ↔
      ¬ (w % 2 ^ 32 < w' % 2 ^ 32 ∧ w' / 2 ^ 32 < w / 2 ^ 32) ∧
        ¬ (w' % 2 ^ 32 < w % 2 ^ 32 ∧ w / 2 ^ 32 < w' / 2 ^ 32) := by
  simp only [compareWords]
  split_ifs <;> simp <;> omega

/-- A 64-bit word and its halves are equal together. -/
lemma compareWords_halves_equal_iff (w w' : ℕ) :
    compareWords [(w % 2 ^ 32, w' % 2 ^ 32), (w / 2 ^ 32, w' / 2 ^ 32)] = .equal ↔ w = w' := by
  rw [compareWords_eq_iff, List.forall_mem_cons, List.forall_mem_singleton]
  dsimp only
  omega

/-- Two addresses, 32-bit words of which differ in a way that the 64-bit words of
a little-endian target weigh differently. -/
theorem ipCompare_disagrees :
    ¬ ((∀ a b, ipCompare true a b = ipCompare false a b) ∧
      ∀ x86_64, TotalOrder (ipCompare x86_64)) := by
  intro h
  exact absurd (h.1 (fun i => if i = 0 then 1 else 0) (fun i => if i = 4 then 1 else 0)) (by decide)

/-- **When the two comparisons agree**: on exactly the pairs whose first 64-bit
word that differs does not have its halves in opposite orders.  Each comparison
is a total order. -/
theorem ipCompare_agree_iff (a b : IpAddr) :
    (ipCompare true a b = ipCompare false a b ↔ SameOrder a b) ∧
      ∀ x86_64, TotalOrder (ipCompare x86_64) := by
  refine ⟨?_, ipCompare_totalOrder⟩
  -- the 32-bit words are the halves of the 64-bit words
  have hwords : ∀ (k : Fin 2) (x : IpAddr),
      addr32 x ⟨2 * k.val, by omega⟩ = addr64 x k % 2 ^ 32 ∧
        addr32 x ⟨2 * k.val + 1, by omega⟩ = addr64 x k / 2 ^ 32 := by
    intro k x
    have hlow := addr32_lt x ⟨2 * k.val, by omega⟩
    rw [addr64]
    omega
  have h64 : ipCompare true a b =
      compareWords ([(addr64 a 0, addr64 b 0)] ++ [(addr64 a 1, addr64 b 1)]) := rfl
  have h32 : ipCompare false a b = compareWords
      ([(addr64 a 0 % 2 ^ 32, addr64 b 0 % 2 ^ 32), (addr64 a 0 / 2 ^ 32, addr64 b 0 / 2 ^ 32)] ++
        [(addr64 a 1 % 2 ^ 32, addr64 b 1 % 2 ^ 32),
          (addr64 a 1 / 2 ^ 32, addr64 b 1 / 2 ^ 32)]) := by
    rw [← (hwords 0 a).1, ← (hwords 0 a).2, ← (hwords 0 b).1, ← (hwords 0 b).2,
      ← (hwords 1 a).1, ← (hwords 1 a).2, ← (hwords 1 b).1, ← (hwords 1 b).2]
    rfl
  have hfirst : compareWords [(addr64 a 0, addr64 b 0)] = .equal ↔ addr64 a 0 = addr64 b 0 := by
    rw [compareWords_eq_iff, List.forall_mem_singleton]
  have hsame : SameOrder a b ↔
      HalvesOrdered a b 0 ∧ (addr64 a 0 = addr64 b 0 → HalvesOrdered a b 1) := by
    rw [SameOrder, Fin.forall_fin_two]
    simp
  rw [h64, h32, compareWords_append, compareWords_append, hsame]
  by_cases heq : addr64 a 0 = addr64 b 0
  · have hhalves : HalvesOrdered a b 0 := by
      rw [HalvesOrdered, heq]
      exact ⟨fun h => lt_irrefl _ h.1, fun h => lt_irrefl _ h.1⟩
    rw [if_pos (hfirst.mpr heq), if_pos ((compareWords_halves_equal_iff _ _).mpr heq),
      compareWords_halves_iff, and_iff_right hhalves]
    exact ⟨fun h _ => h, fun h => h heq⟩
  · rw [if_neg (mt hfirst.mp heq), if_neg (mt (compareWords_halves_equal_iff _ _).mp heq),
      compareWords_halves_iff]
    exact ⟨fun h => ⟨h, fun h' => absurd h' heq⟩, And.left⟩

end CLibrary
