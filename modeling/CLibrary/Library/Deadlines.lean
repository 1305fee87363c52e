import Mathlib.Tactic

/-!
Timers from the outside: armings, checks, and which checks run which timer.

* `buckets`: a list taken apart by the value of a key, bucket by bucket, in
  increasing order of the key; it is a sorted permutation (`buckets_perm`,
  `buckets_pairwise`).
* `flatMap_update_perm`: entries kept in an array of lists, one of which changes.
* `takeWhile_eq_filter`, `eq_filter_of_perm`: what is due, taken off a sorted
  list from its front or found in any other way.
* `History`: what a user of a timer sees: the last arming of every timer, and
  the checks with the timers they ran.
* `History.Exact`: every timer runs in the first check after its deadline and
  in no other, and the timers of one check run by deadline, then by arming.  A
  timer that has not been run is waiting (`Exact.waiting`).
* `History.Agrees`: the history against the list of pending timers in the order
  of their armings.  Arming, disarming, and a check that runs the pending
  timers past their deadline in order keep it (`Agrees.arm`, `Agrees.disarm`,
  `Agrees.check`), and it implies `Exact`.
-/

namespace CLibrary

/-! ### Sorting by buckets -/

section Buckets

variable {β : Type*}

/-- The entries whose key lies in `[lo, lo + n)`, bucket by bucket. -/
def buckets (key : β → ℕ) (l : List β) (lo n : ℕ) : List β :=
  (List.range' lo n).flatMap fun r => l.filter fun x => key x = r

variable {key : β → ℕ} {l : List β} {lo n : ℕ}

@[simp] lemma buckets_zero (key : β → ℕ) (l : List β) (lo : ℕ) : buckets key l lo 0 = [] := rfl

lemma buckets_succ (key : β → ℕ) (l : List β) (lo n : ℕ) :
    buckets key l lo (n + 1) = (l.filter fun x => key x = lo) ++ buckets key l (lo + 1) n := by
  rw [buckets, List.range'_succ, List.flatMap_cons]
  rfl

lemma mem_buckets {x : β} : x ∈ buckets key l lo n ↔ x ∈ l ∧ lo ≤ key x ∧ key x < lo + n := by
  simp only [buckets, List.mem_flatMap, List.mem_range'_1, List.mem_filter, decide_eq_true_eq]
  constructor
  · rintro ⟨r, hr, hx, rfl⟩
    exact ⟨hx, hr⟩
  · rintro ⟨hx, hr⟩
    exact ⟨key x, hr, hx, rfl⟩

/-- Entries outside a bucket's range do not matter to it. -/
lemma buckets_congr {l' : List β} (h : ∀ r, lo ≤ r → r < lo + n →
      (l.filter fun x => key x = r) = l'.filter fun x => key x = r) :
    buckets key l lo n = buckets key l' lo n := by
  rw [buckets, buckets]
  refine List.flatMap_congr fun r hr => ?_
  rw [List.mem_range'_1] at hr
  exact h r hr.1 hr.2

/-- Taking a list apart by its keys keeps its entries. -/
lemma buckets_perm (key : β → ℕ) (l : List β) (lo n : ℕ) :
    (buckets key l lo n).Perm (l.filter fun x => lo ≤ key x ∧ key x < lo + n) := by
  induction n generalizing lo with
  | zero =>
      rw [buckets_zero, List.filter_eq_nil_iff.mpr]
      intro x _
      simp
  | succ n ih =>
      rw [buckets_succ]
      refine ((ih (lo + 1)).append_left _).trans ?_
      -- the first bucket and the rest are the two halves of the whole range
      have hsplit := List.filter_append_perm (fun x => decide (key x = lo))
        (l.filter fun x => lo ≤ key x ∧ key x < lo + (n + 1))
      rw [List.filter_filter, List.filter_filter] at hsplit
      refine (List.Perm.of_eq ?_).trans hsplit
      congr 1 <;>
      · refine List.filter_congr fun x _ => ?_
        rw [Bool.eq_iff_iff]
        simp only [decide_eq_true_eq, Bool.and_eq_true, Bool.not_eq_true', decide_eq_false_iff_not]
        omega

/-- The buckets come out by key, then in the order of the list. -/
lemma buckets_pairwise (key : β → ℕ) {R : β → β → Prop} (hl : l.Pairwise R) (lo n : ℕ) :
    (buckets key l lo n).Pairwise fun x y => key x < key y ∨ key x = key y ∧ R x y := by
  rw [buckets, List.pairwise_flatMap]
  constructor
  · intro r _
    refine ((hl.sublist List.filter_sublist).imp_of_mem ?_)
    intro x y hx hy hR
    rw [List.mem_filter, decide_eq_true_eq] at hx hy
    exact Or.inr ⟨hx.2.trans hy.2.symm, hR⟩
  · refine (List.pairwise_lt_range' 1).imp ?_
    intro r r' hlt x hx y hy
    rw [List.mem_filter, decide_eq_true_eq] at hx hy
    exact Or.inl (by omega)

end Buckets

/-! ### A list in cells -/

open scoped List in
/-- One of `n` cells is given another list: the old one goes, the new one comes. -/
lemma flatMap_update_perm {β : Type*} (f : ℕ → List β) {c n : ℕ} (hc : c < n) (l : List β) :
    ((List.range n).flatMap (Function.update f c l) ++ f c).Perm
      ((List.range n).flatMap f ++ l) := by
  induction n with
  | zero => exact absurd hc (Nat.not_lt_zero c)
  | succ n ih =>
      rw [List.range_succ, List.flatMap_append, List.flatMap_append, List.flatMap_singleton,
        List.flatMap_singleton]
      rcases Nat.lt_succ_iff_lt_or_eq.mp hc with hlt | rfl
      · -- the cell is an earlier one, and the last stays as it is
        rw [Function.update_of_ne (by omega : n ≠ c)]
        calc (List.range n).flatMap (Function.update f c l) ++ f n ++ f c
            ~ (List.range n).flatMap (Function.update f c l) ++ f c ++ f n := by
              rw [List.append_assoc, List.append_assoc]
              exact List.perm_append_comm.append_left _
          _ ~ (List.range n).flatMap f ++ l ++ f n := (ih hlt).append_right _
          _ ~ (List.range n).flatMap f ++ f n ++ l := by
              rw [List.append_assoc, List.append_assoc]
              exact List.perm_append_comm.append_left _
      · have hsame : (List.range c).flatMap (Function.update f c l) = (List.range c).flatMap f := by
          refine List.flatMap_congr fun i hi => ?_
          rw [Function.update_of_ne (List.mem_range.mp hi).ne]
        rw [hsame, Function.update_self, List.append_assoc, List.append_assoc]
        exact List.perm_append_comm.append_left _

/-! ### Taking what is due off a sorted list -/

section Due

variable {β : Type*} {p : β → Bool} {l : List β}

/-- Where what is due comes first, the front of a list is all that is due. -/
lemma takeWhile_eq_filter (h : l.Pairwise fun x y => p y = true → p x = true) :
    l.takeWhile p = l.filter p := by
  induction l with
  | nil => rfl
  | cons x rest ih =>
      obtain ⟨hx, hrest⟩ := List.pairwise_cons.mp h
      cases hp : p x with
      | true => rw [List.takeWhile_cons_of_pos hp, List.filter_cons_of_pos hp, ih hrest]
      | false =>
          have hnone : ∀ y ∈ rest, ¬ p y = true := fun y hy hpy => by
            rw [hx y hy hpy] at hp
            cases hp
          rw [List.takeWhile_cons_of_neg (by simp [hp]), List.filter_cons_of_neg (by simp [hp]),
            List.filter_eq_nil_iff.mpr hnone]

/-- And the rest of the list is what is not due. -/
lemma dropWhile_eq_filter (h : l.Pairwise fun x y => p y = true → p x = true) :
    l.dropWhile p = l.filter fun x => !p x := by
  induction l with
  | nil => rfl
  | cons x rest ih =>
      obtain ⟨hx, hrest⟩ := List.pairwise_cons.mp h
      cases hp : p x with
      | true =>
          rw [List.dropWhile_cons_of_pos hp, List.filter_cons_of_neg (by simp [hp]), ih hrest]
      | false =>
          have hall : ∀ y ∈ rest, (!p y) = true := fun y hy => by
            cases hpy : p y with
            | false => rfl
            | true =>
                rw [hx y hy hpy] at hp
                cases hp
          rw [List.dropWhile_cons_of_neg (by simp [hp]), List.filter_cons_of_pos (by simp [hp]),
            List.filter_eq_self.mpr hall]

open scoped List in
/-- A list in strict order is taken apart into what is due, in the same order,
and the rest: both parts are the ones of the list. -/
lemma eq_filter_of_perm {R : β → β → Prop} {ran left : List β}
    (hR : ∀ x ∈ l, ∀ y ∈ l, R x y → ¬ R y x) (hl : l.Pairwise R) (hran : ran.Pairwise R)
    (hperm : ran ++ left ~ l) (hdue : ∀ x ∈ ran, p x = true) (hnot : ∀ x ∈ left, ¬ p x = true) :
    ran = l.filter p ∧ left ~ l.filter fun x => !p x := by
  have hmem : ∀ x ∈ ran, x ∈ l := fun x hx => hperm.subset (List.mem_append_left _ hx)
  have hp := hperm.filter p
  rw [List.filter_append, List.filter_eq_self.mpr hdue, List.filter_eq_nil_iff.mpr hnot,
    List.append_nil] at hp
  have hn := hperm.filter fun x => !p x
  rw [List.filter_append, List.filter_eq_nil_iff.mpr fun x hx => by simp [hdue x hx],
    List.filter_eq_self.mpr fun x hx => by simpa using hnot x hx, List.nil_append] at hn
  refine ⟨hp.eq_of_pairwise ?_ hran (hl.sublist List.filter_sublist), hn⟩
  intro x y hx hy hxy hyx
  exact absurd hyx (hR x (hmem x hx) y (List.mem_of_mem_filter hy) hxy)

end Due

/-! ### Histories -/

/-- The last arming of a timer: its deadline, its number among the armings, and
the number of checks made before it. -/
structure Arming where
  deadline : ℕ
  stamp : ℕ
  since : ℕ

/-- The last arming of every timer that was not disarmed since, the number of
armings, and every check with its time and the timers it ran, in order. -/
structure History (ι : Type*) where
  armed : ι → Option Arming
  armings : ℕ
  checks : List (ℕ × List ι)

namespace History

variable {ι : Type*}

/-- Nothing has happened. -/
def start : History ι := ⟨fun _ => none, 0, []⟩

/-- Timer `i` is set, or set again. -/
def arm [DecidableEq ι] (h : History ι) (i : ι) (deadline : ℕ) : History ι :=
  { h with
    armed := Function.update h.armed i (some ⟨deadline, h.armings, h.checks.length⟩)
    armings := h.armings + 1 }

/-- Timer `i` is taken back. -/
def disarm [DecidableEq ι] (h : History ι) (i : ι) : History ι :=
  { h with armed := Function.update h.armed i none }

/-- A check runs the timers `ran`. -/
def check (h : History ι) (now : ℕ) (ran : List ι) : History ι :=
  { h with checks := h.checks ++ [(now, ran)] }

/-- Of the first `n` checks none after the arming was past its deadline. -/
def Waiting (h : History ι) (a : Arming) (n : ℕ) : Prop :=
  ∀ j < n, a.since ≤ j → ∀ c, h.checks[j]? = some c → c.1 ≤ a.deadline

/-- By deadline, then by arming. -/
def Before (h : History ι) (i j : ι) : Prop :=
  ∀ a b, h.armed i = some a → h.armed j = some b →
    a.deadline < b.deadline ∨ a.deadline = b.deadline ∧ a.stamp < b.stamp

/-- Some check has run timer `i`. -/
def Ran (h : History ι) (i : ι) : Prop := ∃ c ∈ h.checks, i ∈ c.2

/-- **Exact deadlines**: a timer runs in a check exactly when the check is the
first since its arming to be past its deadline; a check runs no timer twice,
runs them by deadline and then by arming, and runs none that was not armed. -/
structure Exact (h : History ι) : Prop where
  runs : ∀ i a, h.armed i = some a → ∀ k c, h.checks[k]? = some c →
    (i ∈ c.2 ↔ a.since ≤ k ∧ a.deadline < c.1 ∧ h.Waiting a k)
  once : ∀ c ∈ h.checks, c.2.Nodup
  ordered : ∀ c ∈ h.checks, c.2.Pairwise h.Before
  known : ∀ c ∈ h.checks, ∀ i ∈ c.2, ∃ a, h.armed i = some a

/-- A timer that has not been run is still waiting. -/
lemma Exact.waiting {h : History ι} (hexact : h.Exact) {i : ι} {a : Arming}
    (ha : h.armed i = some a) (hran : ¬ h.Ran i) : h.Waiting a h.checks.length := by
  have hall : ∀ n, h.Waiting a n := by
    intro n
    induction n with
    | zero => exact fun j hj => absurd hj (Nat.not_lt_zero j)
    | succ n ih =>
        intro j hj hsince c hc
        rcases Nat.lt_succ_iff_lt_or_eq.mp hj with hlt | rfl
        · exact ih j hlt hsince c hc
        · -- the first check past the deadline would have run it
          by_contra hle
          have hi := (hexact.runs i a ha j c hc).mpr ⟨hsince, Nat.lt_of_not_le hle, ih⟩
          exact hran ⟨c, List.mem_of_getElem? hc, hi⟩
  exact hall h.checks.length

/-- The pending timers with their deadlines, in the order of their armings. -/
structure Agrees (h : History ι) (pending : List (ι × ℕ)) : Prop where
  nodup : (pending.map Prod.fst).Nodup
  mem_iff : ∀ i d, (i, d) ∈ pending ↔
    ∃ a, h.armed i = some a ∧ a.deadline = d ∧ h.Waiting a h.checks.length
  sorted : pending.Pairwise fun p q =>
    ∀ a b, h.armed p.1 = some a → h.armed q.1 = some b → a.stamp < b.stamp
  since_le : ∀ i a, h.armed i = some a → a.since ≤ h.checks.length ∧ a.stamp < h.armings
  exact : h.Exact

lemma start_agrees : (start : History ι).Agrees [] where
  nodup := List.nodup_nil
  mem_iff := fun i d => by simp [start]
  sorted := List.Pairwise.nil
  since_le := fun i a h => (Option.some_ne_none a h.symm).elim
  exact :=
    ⟨fun i a h => (Option.some_ne_none a h.symm).elim, fun c hc => (List.not_mem_nil hc).elim,
      fun c hc => (List.not_mem_nil hc).elim, fun c hc => (List.not_mem_nil hc).elim⟩

namespace Agrees

variable {h : History ι} {pending : List (ι × ℕ)} {i : ι}

/-- A pending timer has not been run. -/
lemma not_ran (hag : h.Agrees pending) {d : ℕ} (hi : (i, d) ∈ pending) : ¬ h.Ran i := by
  rintro ⟨c, hc, hic⟩
  obtain ⟨a, ha, rfl, hwait⟩ := (hag.mem_iff i d).mp hi
  obtain ⟨k, hk, hck⟩ := List.getElem_of_mem hc
  have hget : h.checks[k]? = some c := by rw [List.getElem?_eq_getElem hk, hck]
  obtain ⟨hsince, hlt, -⟩ := (hag.exact.runs i a ha k c hget).mp hic
  exact absurd hlt (Nat.not_lt.mpr (hwait k hk hsince c hget))

/-- Timers other than `i` are pending as before. -/
lemma mem_filter_ne [DecidableEq ι] {p : ι × ℕ} :
    p ∈ pending.filter (fun p => p.1 ≠ i) ↔ p ∈ pending ∧ p.1 ≠ i := by
  rw [List.mem_filter, decide_eq_true_eq]

/-- **Arming** a timer that has not been run puts it last. -/
theorem arm [DecidableEq ι] (hag : h.Agrees pending) (hran : ¬ h.Ran i) (d : ℕ) :
    (h.arm i d).Agrees (pending.filter (fun p => p.1 ≠ i) ++ [(i, d)]) := by
  have hself : (h.arm i d).armed i = some ⟨d, h.armings, h.checks.length⟩ :=
    Function.update_self _ _ _
  have hother : ∀ j, j ≠ i → (h.arm i d).armed j = h.armed j :=
    fun j hj => Function.update_of_ne hj _ _
  have hne : ∀ c ∈ h.checks, ∀ j ∈ c.2, j ≠ i := by
    rintro c hc j hj rfl
    exact hran ⟨c, hc, hj⟩
  refine ⟨?_, fun j e => ?_, ?_, fun j a ha => ?_, ⟨fun j a ha k c hc => ?_, hag.exact.once,
    fun c hc => ?_, fun c hc j hj => ?_⟩⟩
  · rw [List.map_append, List.nodup_append]
    refine ⟨hag.nodup.sublist (List.filter_sublist.map _), List.nodup_singleton _, ?_⟩
    rintro j hj j' hj' rfl
    obtain ⟨p, hp, rfl⟩ := List.mem_map.mp hj
    exact (mem_filter_ne.mp hp).2 (List.mem_singleton.mp hj')
  · rw [List.mem_append, mem_filter_ne, List.mem_singleton]
    by_cases hj : j = i
    · subst hj
      rw [hself]
      constructor
      · rintro (⟨-, hne⟩ | heq)
        · exact absurd rfl hne
        · refine ⟨_, rfl, ?_, fun k hk hsince => absurd hk (Nat.not_lt.mpr hsince)⟩
          rw [(Prod.mk.inj heq).2]
      · rintro ⟨a, ha, rfl, -⟩
        obtain rfl := Option.some.inj ha
        exact Or.inr rfl
    · rw [hother j hj]
      constructor
      · rintro (⟨hmem, -⟩ | heq)
        · exact (hag.mem_iff j e).mp hmem
        · exact absurd (Prod.mk.inj heq).1 hj
      · intro hex
        exact Or.inl ⟨(hag.mem_iff j e).mpr hex, hj⟩
  · rw [List.pairwise_append]
    refine ⟨(hag.sorted.sublist List.filter_sublist).imp_of_mem ?_, List.pairwise_singleton _ _, ?_⟩
    · intro p q hp hq hlt a b ha hb
      rw [hother _ (mem_filter_ne.mp hp).2] at ha
      rw [hother _ (mem_filter_ne.mp hq).2] at hb
      exact hlt a b ha hb
    · intro p hp q hq a b ha hb
      rw [hother _ (mem_filter_ne.mp hp).2] at ha
      rw [List.mem_singleton.mp hq, hself] at hb
      obtain rfl := Option.some.inj hb
      exact (hag.since_le _ a ha).2
  · by_cases hj : j = i
    · rw [hj, hself] at ha
      obtain rfl := Option.some.inj ha
      exact ⟨le_rfl, Nat.lt_succ_self _⟩
    · rw [hother j hj] at ha
      exact ⟨(hag.since_le j a ha).1, (hag.since_le j a ha).2.trans (Nat.lt_succ_self _)⟩
  · by_cases hj : j = i
    · -- the checks made so far are before the arming
      rw [hj, hself] at ha
      obtain rfl := Option.some.inj ha
      have hk := (List.getElem?_eq_some_iff.mp hc).1
      constructor
      · intro hjc
        exact absurd hj (hne c (List.mem_of_getElem? hc) j hjc)
      · rintro ⟨hsince, -⟩
        exact absurd hk (Nat.not_lt.mpr hsince)
    · rw [hother j hj] at ha
      exact hag.exact.runs j a ha k c hc
  · refine (hag.exact.ordered c hc).imp_of_mem ?_
    intro x y hx hy hxy a b ha hb
    rw [hother x (hne c hc x hx)] at ha
    rw [hother y (hne c hc y hy)] at hb
    exact hxy a b ha hb
  · rw [hother j (hne c hc j hj)]
    exact hag.exact.known c hc j hj

/-- **Disarming** a timer that has not been run takes it out. -/
theorem disarm [DecidableEq ι] (hag : h.Agrees pending) (hran : ¬ h.Ran i) :
    (h.disarm i).Agrees (pending.filter fun p => p.1 ≠ i) := by
  have hself : (h.disarm i).armed i = none := Function.update_self _ _ _
  have hother : ∀ j, j ≠ i → (h.disarm i).armed j = h.armed j :=
    fun j hj => Function.update_of_ne hj _ _
  have hback : ∀ j a, (h.disarm i).armed j = some a → h.armed j = some a := by
    intro j a ha
    rw [← hother j, ha]
    rintro rfl
    rw [hself] at ha
    cases ha
  have hne : ∀ c ∈ h.checks, ∀ j ∈ c.2, j ≠ i := by
    rintro c hc j hj rfl
    exact hran ⟨c, hc, hj⟩
  refine ⟨hag.nodup.sublist (List.filter_sublist.map _), fun j e => ?_,
    (hag.sorted.sublist List.filter_sublist).imp ?_,
    fun j a ha => hag.since_le j a (hback j a ha),
    ⟨fun j a ha => hag.exact.runs j a (hback j a ha), hag.exact.once,
      fun c hc => (hag.exact.ordered c hc).imp ?_, fun c hc j hj => ?_⟩⟩
  · rw [mem_filter_ne]
    by_cases hj : j = i
    · rw [hj, hself]
      simp
    · rw [hother j hj]
      exact ⟨fun hmem => (hag.mem_iff j e).mp hmem.1, fun hex => ⟨(hag.mem_iff j e).mpr hex, hj⟩⟩
  · intro p q hlt a b ha hb
    exact hlt a b (hback _ a ha) (hback _ b hb)
  · intro x y hxy a b ha hb
    exact hxy a b (hback _ a ha) (hback _ b hb)
  · rw [hother j (hne c hc j hj)]
    exact hag.exact.known c hc j hj

/-- What waiting means after one more check. -/
lemma waiting_check_of_le (h : History ι) (now : ℕ) (ran : List ι) (a : Arming) {n : ℕ}
    (hn : n ≤ h.checks.length) : (h.check now ran).Waiting a n ↔ h.Waiting a n := by
  refine forall_congr' fun j => forall_congr' fun hj => forall_congr' fun _ => ?_
  rw [check, List.getElem?_append_left (by omega)]

lemma waiting_check_succ (h : History ι) (now : ℕ) (ran : List ι) {a : Arming}
    (hsince : a.since ≤ h.checks.length) :
    (h.check now ran).Waiting a (h.checks.length + 1) ↔
      h.Waiting a h.checks.length ∧ now ≤ a.deadline := by
  have hlast : (h.check now ran).checks[h.checks.length]? = some (now, ran) := by
    rw [check, List.getElem?_append_right le_rfl, Nat.sub_self]
    rfl
  constructor
  · intro hwait
    refine ⟨?_, hwait _ (Nat.lt_succ_self _) hsince _ hlast⟩
    rw [← waiting_check_of_le h now ran a le_rfl]
    exact fun j hj => hwait j (by omega)
  · rintro ⟨hwait, hnow⟩ j hj hsince' c hc
    rcases Nat.lt_succ_iff_lt_or_eq.mp hj with hlt | rfl
    · exact (waiting_check_of_le h now ran a le_rfl).mpr hwait j hlt hsince' c hc
    · rw [hlast] at hc
      obtain rfl := Option.some.inj hc
      exact hnow

/-- **A check** at `lo + n` that runs the pending timers with deadlines from `lo`
on, by deadline and then by arming, leaves the others pending. -/
theorem check (hag : h.Agrees pending) {lo : ℕ} (hlo : ∀ p ∈ pending, lo ≤ p.2) (n : ℕ) :
    (h.check (lo + n) ((buckets Prod.snd pending lo n).map Prod.fst)).Agrees
      (pending.filter fun p => lo + n ≤ p.2) := by
  set ran := (buckets Prod.snd pending lo n).map Prod.fst with hran
  have hmem : ∀ i, i ∈ ran ↔ ∃ d, (i, d) ∈ pending ∧ d < lo + n := by
    intro i
    simp only [hran, List.mem_map, mem_buckets, Prod.exists, exists_and_right, exists_eq_right]
    exact exists_congr fun d => ⟨fun hd => ⟨hd.1, hd.2.2⟩, fun hd => ⟨hd.1, hlo _ hd.1, hd.2⟩⟩
  have hdead : ∀ p ∈ pending, ∀ a, h.armed p.1 = some a → a.deadline = p.2 := by
    intro p hp a ha
    obtain ⟨b, hb, hd, -⟩ := (hag.mem_iff p.1 p.2).mp hp
    rw [ha] at hb
    rw [Option.some.inj hb, hd]
  have hchecks : (h.check (lo + n) ran).checks = h.checks ++ [(lo + n, ran)] := rfl
  refine ⟨hag.nodup.sublist (List.filter_sublist.map _), fun i d => ?_,
    hag.sorted.sublist List.filter_sublist, fun i a ha => ?_,
    ⟨fun i a ha k c hc => ?_, fun c hc => ?_, fun c hc => ?_, fun c hc i hi => ?_⟩⟩
  · rw [List.mem_filter, decide_eq_true_eq, hag.mem_iff, hchecks, List.length_append,
      List.length_singleton]
    constructor
    · rintro ⟨⟨a, ha, rfl, hwait⟩, hle⟩
      exact ⟨a, ha, rfl, (waiting_check_succ h _ _ (hag.since_le i a ha).1).mpr ⟨hwait, hle⟩⟩
    · rintro ⟨a, ha, rfl, hwait⟩
      obtain ⟨hwait, hle⟩ := (waiting_check_succ h _ _ (hag.since_le i a ha).1).mp hwait
      exact ⟨⟨a, ha, rfl, hwait⟩, hle⟩
  · have := hag.since_le i a ha
    rw [hchecks, List.length_append, List.length_singleton]
    exact ⟨by omega, this.2⟩
  · replace ha : h.armed i = some a := ha
    have hk := (List.getElem?_eq_some_iff.mp hc).1
    rw [hchecks, List.length_append, List.length_singleton] at hk
    rw [waiting_check_of_le h _ _ a (by omega)]
    rcases Nat.lt_succ_iff_lt_or_eq.mp hk with hlt | rfl
    · rw [hchecks, List.getElem?_append_left hlt] at hc
      exact hag.exact.runs i a ha k c hc
    · rw [hchecks, List.getElem?_append_right le_rfl, Nat.sub_self] at hc
      obtain rfl := Option.some.inj hc
      rw [hmem]
      constructor
      · rintro ⟨d, hd, hlt⟩
        obtain ⟨b, hb, rfl, hwait⟩ := (hag.mem_iff i d).mp hd
        rw [ha] at hb
        obtain rfl := Option.some.inj hb
        exact ⟨(hag.since_le i a ha).1, hlt, hwait⟩
      · rintro ⟨-, hlt, hwait⟩
        exact ⟨a.deadline, (hag.mem_iff i _).mpr ⟨a, ha, rfl, hwait⟩, hlt⟩
  · rcases List.mem_append.mp hc with hc | hc
    · exact hag.exact.once c hc
    · rw [List.mem_singleton.mp hc]
      refine ((buckets_perm Prod.snd pending lo n).map Prod.fst).nodup_iff.mpr ?_
      exact hag.nodup.sublist (List.filter_sublist.map _)
  · rcases List.mem_append.mp hc with hc | hc
    · exact hag.exact.ordered c hc
    · rw [List.mem_singleton.mp hc]
      rw [List.pairwise_map]
      refine (buckets_pairwise Prod.snd hag.sorted lo n).imp_of_mem ?_
      intro p q hp hq hpq a b ha hb
      rw [hdead p (mem_buckets.mp hp).1 a ha, hdead q (mem_buckets.mp hq).1 b hb]
      exact hpq.imp id (And.imp id fun hlt => hlt a b ha hb)
  · rcases List.mem_append.mp hc with hc | hc
    · exact hag.exact.known c hc i hi
    · rw [List.mem_singleton.mp hc] at hi
      obtain ⟨d, hd, -⟩ := (hmem i).mp hi
      obtain ⟨a, ha, -⟩ := (hag.mem_iff i d).mp hd
      exact ⟨a, ha⟩

end Agrees

end History

end CLibrary
