import Mathlib.Tactic

/-!
The Gregorian calendar.

* `daysIn`: the days of a month.  `Date`: a day of a month of a year, `Date.next` the
  day after it.
* `Date.number`: dates in their order.  `Date.lt_next`: days go on and on.
* `Date.day_iterate_next_ne`: within four weeks no day of the month comes again.
* `Date.Within`: at most so many days later.
-/

namespace CLibrary

/-- A leap year. -/
def IsLeap (year : ℕ) : Prop := year % 4 = 0 ∧ (year % 100 ≠ 0 ∨ year % 400 = 0)

instance (year : ℕ) : Decidable (IsLeap year) := inferInstanceAs (Decidable (_ ∧ _))

/-- The days of a month. -/
def daysIn (year month : ℕ) : ℕ :=
  if month = 2 then if IsLeap year then 29 else 28
  else if month = 4 ∨ month = 6 ∨ month = 9 ∨ month = 11 then 30
  else 31

lemma le_daysIn (year month : ℕ) : 28 ≤ daysIn year month := by
  rw [daysIn]
  split_ifs <;> omega

lemma daysIn_le (year month : ℕ) : daysIn year month ≤ 31 := by
  rw [daysIn]
  split_ifs <;> omega

/-- A date. -/
@[ext] structure Date where
  year : ℕ
  month : ℕ
  day : ℕ
  month_pos : 1 ≤ month
  month_le : month ≤ 12
  day_pos : 1 ≤ day
  day_le : day ≤ daysIn year month
  deriving DecidableEq, Repr

namespace Date

variable {d e : Date} {n k : ℕ}

/-- A date by its numbers. -/
def of (year month day : ℕ)
    (h : (1 ≤ month ∧ month ≤ 12) ∧ 1 ≤ day ∧ day ≤ daysIn year month) : Date :=
  ⟨year, month, day, h.1.1, h.1.2, h.2.1, h.2.2⟩

/-- The place of a date, if all months had 31 days. -/
def number (d : Date) : ℕ := (d.year * 12 + (d.month - 1)) * 31 + (d.day - 1)

lemma number_injective : Function.Injective number := by
  intro d e h
  have hd := d.month_pos
  have hd' := d.month_le
  have hday := d.day_pos
  have hday' := d.day_le.trans (daysIn_le _ _)
  have he := e.month_pos
  have he' := e.month_le
  have heday := e.day_pos
  have heday' := e.day_le.trans (daysIn_le _ _)
  rw [number, number] at h
  ext <;> omega

instance : LinearOrder Date := LinearOrder.lift' number number_injective

lemma lt_iff : d < e ↔ d.number < e.number := Iff.rfl

/-- The day after. -/
def next (d : Date) : Date :=
  if h : d.day < daysIn d.year d.month then
    { d with day := d.day + 1, day_pos := Nat.le_add_left 1 _, day_le := h }
  else if h : d.month < 12 then
    { year := d.year, month := d.month + 1, day := 1
      month_pos := Nat.le_add_left 1 _, month_le := h, day_pos := le_rfl
      day_le := (by decide : 1 ≤ 28).trans (le_daysIn _ _) }
  else
    { year := d.year + 1, month := 1, day := 1
      month_pos := le_rfl, month_le := by decide, day_pos := le_rfl
      day_le := (by decide : 1 ≤ 28).trans (le_daysIn _ _) }

/-- A day more in the month, or the first of a month. -/
lemma next_cases (d : Date) :
    (d.next.day = d.day + 1 ∧ d.next.year = d.year ∧ d.next.month = d.month ∧
      d.day < daysIn d.year d.month) ∨
    (d.next.day = 1 ∧ d.day = daysIn d.year d.month ∧
      d.next.year * 12 + d.next.month = d.year * 12 + d.month + 1) := by
  have hle := d.month_le
  have hday := d.day_le
  rw [next]
  split_ifs with hin hmonth
  · exact .inl ⟨rfl, rfl, rfl, hin⟩
  · refine .inr ⟨rfl, by omega, ?_⟩
    dsimp only
    omega
  · refine .inr ⟨rfl, by omega, ?_⟩
    dsimp only
    omega

lemma lt_next (d : Date) : d < d.next := by
  have hd := d.month_pos
  have hn := d.next.month_pos
  have hday := d.day_pos
  have hle := d.day_le.trans (daysIn_le _ _)
  rw [lt_iff, number, number]
  rcases next_cases d with ⟨h1, h2, h3, -⟩ | ⟨h1, -, h3⟩
  · rw [h1, h2, h3]
    omega
  · rw [h1]
    omega

lemma le_iterate_next (d : Date) (k : ℕ) : d ≤ next^[k] d := by
  induction k with
  | zero => exact le_rfl
  | succ k ih =>
    rw [Function.iterate_succ_apply']
    exact ih.trans (lt_next _).le

/-- **A month has four weeks**: within them there are days of this month, or of the
next one before the day of the month comes again. -/
lemma day_iterate_next (d : Date) (hk : k < 28) :
    ((next^[k] d).day = d.day + k ∧ (next^[k] d).year = d.year ∧
      (next^[k] d).month = d.month) ∨
    ((next^[k] d).day + daysIn d.year d.month = d.day + k ∧ 0 < k) := by
  induction k with
  | zero => exact .inl ⟨rfl, rfl, rfl⟩
  | succ k ih =>
    rw [Function.iterate_succ_apply']
    rcases ih (by omega) with ⟨hday, hyear, hmonth⟩ | ⟨hday, -⟩
    · rcases next_cases (next^[k] d) with ⟨h1, h2, h3, -⟩ | ⟨h1, h2, -⟩
      · exact .inl ⟨by omega, h2.trans hyear, h3.trans hmonth⟩
      · refine .inr ⟨?_, Nat.succ_pos k⟩
        rw [hyear, hmonth] at h2
        omega
    · -- the next month has at least 28 days, too
      have hd := d.day_le
      have hlong := le_daysIn (next^[k] d).year (next^[k] d).month
      rcases next_cases (next^[k] d) with ⟨h1, -⟩ | ⟨-, h2, -⟩
      · exact .inr ⟨by omega, Nat.succ_pos k⟩
      · omega

/-- **Within four weeks no day of the month comes again.** -/
lemma day_iterate_next_ne (d : Date) (hpos : 0 < k) (hk : k < 28) :
    (next^[k] d).day ≠ d.day := by
  have hlong := le_daysIn d.year d.month
  rcases day_iterate_next d hk with ⟨hday, -⟩ | ⟨hday, -⟩ <;> omega

/-- At most `n` days later. -/
def Within (n : ℕ) (d e : Date) : Prop := ∃ k ≤ n, next^[k] d = e

lemma Within.le (h : Within n d e) : d ≤ e := by
  obtain ⟨k, -, rfl⟩ := h
  exact le_iterate_next d k

/-- Other dates within four weeks are other days of a month. -/
lemma Within.day_ne (h : Within n d e) (hn : n < 28) : d = e ∨ d.day ≠ e.day := by
  obtain ⟨k, hk, rfl⟩ := h
  rcases Nat.eq_zero_or_pos k with rfl | hpos
  · exact .inl rfl
  · exact .inr (day_iterate_next_ne d hpos (by omega)).symm

end Date

end CLibrary
