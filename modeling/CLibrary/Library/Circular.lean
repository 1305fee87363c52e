import Mathlib.Tactic

/-!
Counters read modulo the size of a circular array.

Two unbounded counters `lo ≤ hi ≤ lo + n` are seen through their residues
modulo `n`: the slots of a circular array of size `n`.

* `mod_sub_cases`: the distance of the counters is the distance of the
  residues, with one turn added exactly when the residues are out of order.
* `mod_inj_window`: residues are injective on a window of `n` counters.
* `turn`: the steps from one residue on to another, and what a step of the first
  one makes of them.
* `window`: the values in `len` consecutive slots from `start`; storing in the
  slot behind it appends (`window_push`), dropping its first slot takes the
  head (`window_pop`).
* `Holds`: the slots of the counters in `[lo, hi)` hold the entries of a log,
  the form the windows of two concurrent parties are described in.
-/

namespace CLibrary

/-! ### Residues of nearby counters -/

/-- Counters less than a full turn apart: their distance is the distance of
their residues, a turn added when the larger counter has the smaller residue. -/
lemma mod_sub_cases {n lo hi : ℕ} (h1 : lo ≤ hi) (h2 : hi < lo + n) :
    (lo % n ≤ hi % n ∧ hi - lo = hi % n - lo % n) ∨
      (hi % n < lo % n ∧ hi - lo = hi % n + n - lo % n) := by
  have hlo : lo % n < n := Nat.mod_lt _ (by omega)
  have hd : (hi - lo) % n = hi - lo := Nat.mod_eq_of_lt (by omega)
  have hsum : hi % n = (lo + (hi - lo)) % n := by congr 1; omega
  rw [Nat.add_mod_eq_ite, hd] at hsum
  split_ifs at hsum with h
  · exact Or.inr ⟨by omega, by omega⟩
  · exact Or.inl ⟨by omega, by omega⟩

/-- Within one turn a counter is determined by its residue. -/
lemma mod_inj_window (lo : ℕ) {n a b : ℕ} (ha : lo ≤ a) (ha' : a < lo + n) (hb : lo ≤ b)
    (hb' : b < lo + n) (h : a % n = b % n) : a = b :=
  Nat.mod_injOn_Ico lo n (by simp [ha, ha']) (by simp [hb, hb']) h

/-! ### Steps between residues -/

/-- The steps from the residue `a` on to the residue `b`. -/
def turn (n a b : ℕ) : ℕ := (b + (n - a)) % n

section Turn

variable {n a b : ℕ}

lemma turn_eq_ite (ha : a < n) (hb : b < n) : turn n a b = if a ≤ b then b - a else b + n - a := by
  rw [turn]
  split_ifs with h
  · calc (b + (n - a)) % n = (b - a + n) % n := by congr 1; omega
      _ = (b - a) % n := Nat.add_mod_right _ _
      _ = b - a := Nat.mod_eq_of_lt (by omega)
  · rw [Nat.mod_eq_of_lt (by omega)]
    omega

lemma turn_self (ha : a < n) : turn n a a = 0 := by
  rw [turn_eq_ite ha ha, if_pos le_rfl, Nat.sub_self]

/-- A step brings every other residue one nearer. -/
lemma turn_succ_of_ne (ha : a < n) (hb : b < n) (h : b ≠ a) :
    turn n ((a + 1) % n) b + 1 = turn n a b := by
  by_cases hlt : a + 1 < n
  · rw [Nat.mod_eq_of_lt hlt, turn_eq_ite hlt hb, turn_eq_ite ha hb]
    split_ifs <;> omega
  · rw [show a + 1 = n by omega, Nat.mod_self, turn_eq_ite (by omega) hb, turn_eq_ite ha hb]
    split_ifs <;> omega

/-- A step past a residue leaves it almost a full turn away. -/
lemma turn_succ_self (ha : a < n) : turn n ((a + 1) % n) a + 1 = n := by
  by_cases hlt : a + 1 < n
  · rw [Nat.mod_eq_of_lt hlt, turn_eq_ite hlt ha, if_neg (by omega)]
    omega
  · rw [show a + 1 = n by omega, Nat.mod_self, turn_eq_ite (by omega) ha, if_pos (Nat.zero_le a)]
    omega

/-- From the residue of `k` it is `d` steps to the residue of `k + d`, for `d`
less than a turn. -/
lemma turn_mod_add {k d : ℕ} (hd : d < n) : turn n (k % n) ((k + d) % n) = d := by
  have hk : k % n < n := Nat.mod_lt _ (by omega)
  rw [turn_eq_ite hk (Nat.mod_lt _ (by omega))]
  have := mod_sub_cases (n := n) (Nat.le_add_right k d) (by omega)
  split_ifs <;> omega

/-- The steps lead to the other residue. -/
lemma add_turn_mod (ha : a < n) (hb : b < n) : (a + turn n a b) % n = b := by
  rw [turn_eq_ite ha hb]
  split_ifs with h
  · rw [Nat.add_sub_cancel' h, Nat.mod_eq_of_lt hb]
  · rw [show a + (b + n - a) = b + n by omega, Nat.add_mod_right, Nat.mod_eq_of_lt hb]

/-- And the same number back. -/
lemma sub_turn_mod (ha : a < n) (hb : b < n) : (b + (n - turn n a b)) % n = a := by
  rw [turn_eq_ite ha hb]
  split_ifs with h
  · rw [show b + (n - (b - a)) = a + n by omega, Nat.add_mod_right, Nat.mod_eq_of_lt ha]
  · rw [show b + (n - (b + n - a)) = a by omega, Nat.mod_eq_of_lt ha]

/-- From `j` steps back it is `j` steps. -/
lemma turn_sub_mod {j : ℕ} (hb : b < n) (hj : j < n) : turn n ((b + (n - j)) % n) b = j := by
  have hmod : (b + (n - j) + j) % n = b := by
    rw [Nat.add_assoc, Nat.sub_add_cancel hj.le, Nat.add_mod_right, Nat.mod_eq_of_lt hb]
  have hturn := turn_mod_add (k := b + (n - j)) hj
  rwa [hmod] at hturn

/-- Some of the steps, and the rest. -/
lemma turn_add {d : ℕ} (ha : a < n) (hb : b < n) (hd : d ≤ turn n a b) :
    turn n ((a + d) % n) b + d = turn n a b := by
  have hlt : turn n a b < n := Nat.mod_lt _ (by omega)
  have hrest := turn_mod_add (k := a + d) (d := turn n a b - d) (n := n) (by omega)
  rw [Nat.add_assoc, Nat.add_sub_cancel' hd, add_turn_mod ha hb] at hrest
  omega

/-- The steps to a residue tell where they start. -/
lemma turn_right_inj {a' : ℕ} (ha : a < n) (ha' : a' < n) (hb : b < n)
    (h : turn n a b = turn n a' b) : a = a' := by
  rw [← sub_turn_mod ha hb, h, sub_turn_mod ha' hb]

end Turn

/-! ### The values in consecutive slots -/

section Window

variable {α : Type*}

/-- The values in the `len` slots from `start` on, in order. -/
def window (e : ℕ → α) (n start len : ℕ) : List α :=
  (List.range len).map fun i => e ((start + i) % n)

@[simp] lemma window_zero (e : ℕ → α) (n start : ℕ) : window e n start 0 = [] := rfl

@[simp] lemma window_length (e : ℕ → α) (n start len : ℕ) :
    (window e n start len).length = len := by
  simp [window]

/-- One more slot at the far end. -/
lemma window_succ (e : ℕ → α) (n start len : ℕ) :
    window e n start (len + 1) = window e n start len ++ [e ((start + len) % n)] := by
  simp [window, List.range_succ]

/-- Taking the head moves the start one slot on. -/
lemma window_pop (e : ℕ → α) (n start len : ℕ) :
    window e n start (len + 1) = e (start % n) :: window e n ((start + 1) % n) len := by
  simp only [window, List.range_succ_eq_map, List.map_cons, List.map_map, Nat.add_zero]
  congr 1
  refine List.map_congr_left fun i _ => ?_
  simp only [Function.comp_apply, Nat.mod_add_mod]
  congr 2
  omega

/-- Storing outside the window leaves its values. -/
lemma window_update (e : ℕ → α) {n start len k : ℕ} (v : α)
    (hk : ∀ i < len, (start + i) % n ≠ k) :
    window (Function.update e k v) n start len = window e n start len := by
  refine List.map_congr_left fun i hi => ?_
  rw [Function.update_of_ne (hk i (List.mem_range.mp hi))]

/-- **Appending**: a value stored in the slot behind a window that does not
fill the array extends the window by it. -/
lemma window_push (e : ℕ → α) {n start len : ℕ} (v : α) (hlen : len < n) :
    window (Function.update e ((start + len) % n) v) n start (len + 1)
      = window e n start len ++ [v] := by
  rw [window_succ, Function.update_self, window_update]
  intro i hi heq
  have := mod_inj_window start (n := n) (by omega) (by omega) (by omega) (by omega) heq
  omega

end Window

/-! ### A log seen through its slots -/

section Holds

variable {α : Type*}

/-- The slots of the counters in `[lo, hi)` hold the entries of the log. -/
def Holds (e : ℕ → α) (n : ℕ) (log : List α) (lo hi : ℕ) : Prop :=
  ∀ k, lo ≤ k → k < hi → log[k]? = some (e (k % n))

variable {e : ℕ → α} {n : ℕ} {log : List α} {lo hi : ℕ}

/-- A smaller range of counters is held too. -/
lemma Holds.mono {lo' hi' : ℕ} (h : Holds e n log lo hi) (hlo : lo ≤ lo') (hhi : hi' ≤ hi) :
    Holds e n log lo' hi' :=
  fun k hk hk' => h k (by omega) (by omega)

/-- Logging the value stored in the next slot keeps the window, as long as the
slot is not one the window still needs. -/
lemma Holds.push (h : Holds e n log lo log.length) (v : α) (hroom : log.length < lo + n) :
    Holds (Function.update e (log.length % n) v) n (log ++ [v]) lo (log ++ [v]).length := by
  intro k hk hk'
  rw [List.length_append, List.length_singleton] at hk'
  rcases Nat.lt_or_ge k log.length with hlt | hge
  · rw [List.getElem?_append_left hlt, h k hk hlt, Function.update_of_ne]
    intro heq
    have := mod_inj_window lo (n := n) hk (by omega) (by omega) hroom heq
    omega
  · obtain rfl : k = log.length := by omega
    simp

/-- Reading the first slot of the window extends a prefix of the log. -/
lemma Holds.take (h : Holds e n log lo hi) {out : List α} (hout : out <+: log)
    (hlo : out.length = lo) (hlt : lo < hi) : out ++ [e (lo % n)] <+: log := by
  have hget := h lo le_rfl hlt
  obtain ⟨rest, rfl⟩ := hout
  rw [List.getElem?_append_right (by omega), hlo, Nat.sub_self] at hget
  cases rest with
  | nil => simp at hget
  | cons v rest =>
      obtain rfl : v = e (lo % n) := by simpa using hget
      exact ⟨rest, by simp⟩

end Holds

end CLibrary
