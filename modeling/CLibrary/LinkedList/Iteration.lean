import CLibrary.LinkedList.Refinement

/-!
Walks along lists, and runs of calls.

* `Represents.neighbour`: what a node points to is its neighbour in the sequence.
* `Represents.walk`: an iterator goes along the sequence, from either end.
  `Represents.find`, `Represents.at`: so do `list_find` and `list_at`.
* `Represents.find_null`, `Represents.at_null`: they need an iterator.
* `lists_represent_sequences`: every run of calls of a caller that does what it
  owes.
-/

namespace CLibrary

variable {π φ ν : Type}

/-- The order in which a direction visits a list. -/
def Direction.along : Direction → List π → List π
  | .head, q => q
  | .tail, q => q.reverse

/-- What `list_at` counts to, along its direction. -/
lemma Sequences.nth_eq_along (q : List π) (index : ℤ) :
    Sequences.nth q index = (Direction.along (if index < 0 then .tail else .head) q)[
      (if index < 0 then -index - 1 else index).toNat]? := by
  rw [Sequences.nth]
  split_ifs <;> rfl

namespace ListMem

variable [DecidableEq π] (m : ListMem π φ ν)

/-- An iterator in front of `q`. -/
def withIter (it : π) (direction : Direction) (q : List π) : ListMem π φ ν :=
  { m with iters := Function.update m.iters it (some ⟨q.head?, direction⟩) }

/-- A new iterator given up. -/
lemma withIter_destroy {it : π} (hit : m.iters it = none) (direction : Direction) (q : List π) :
    (m.withIter it direction q).listIteratorDestroy (some it) = some m := by
  simp only [listIteratorDestroy, withIter, Function.update_self, Option.map_some,
    Function.update_idem]
  rw [← hit, Function.update_eq_self]

end ListMem

namespace Represents

variable {m : ListMem π φ ν} {a : Sequences π φ ν} {l p it : π} {L : Sequence π φ ν}
  {b : Sequences π φ ν} {direction : Direction} {q q₁ : List π} {r : Option π}

/-- Iterators are independent of everything else. -/
lemma withIters (h : Represents m a) (iters : π → Option (ListIterator π)) :
    Represents { m with iters := iters } { a with iters := iters } :=
  ⟨h.shelved, h.val, h.loose, h.lists, h.short, rfl, h.freed⟩

/-- Nothing is allocated, and no sequence is there. -/
lemma start : Represents (ListMem.start : ListMem π φ ν) Sequences.start := by
  refine ⟨Shelved.empty, fun p => rfl, fun p c hc => (by cases hc), fun l => rfl,
    fun l L hL => (by cases hL), rfl, rfl⟩

variable [DecidableEq π]

/-- What a node points to, in either direction, is its neighbour. -/
lemma neighbour (h : Represents m a) {c : Cell π (Option π) ν} (hp : m.nodes p = some c)
    (direction : Direction) :
    (match direction with
      | .head => c.next
      | .tail => c.prev) = a.neighbour direction p := by
  cases hhome : a.home p with
  | none =>
      obtain ⟨hprev, hnext⟩ := h.loose p c hp hhome
      rw [Sequences.neighbour, hhome]
      cases direction with
      | head => exact hnext
      | tail => exact hprev
  | some l =>
      obtain ⟨q₁, q₂, hq⟩ := h.shelved.split hhome
      obtain ⟨L, hL, hseq⟩ := Option.map_eq_some_iff.mp hq
      have hnodup := h.nodup hL
      obtain ⟨v, hv⟩ := (hseq ▸ h.linked hL).cell
      rw [hp, Option.some_inj] at hv
      rw [hseq] at hnodup
      rw [Sequences.neighbour, hhome, hv]
      simp only [Option.bind_eq_bind, Option.bind_some, hL, hseq]
      cases direction with
      | head =>
          have hbefore : p ∉ q₁ := fun hmem =>
            (List.nodup_append.mp hnodup).2.2 p hmem p List.mem_cons_self rfl
          rw [after_append hbefore, Option.or_none]
      | tail => rw [after_reverse hnodup, lastName_some]

/-- **`list_iterator_next`**. -/
lemma iteratorNext (h : Represents m a) {it : π} {i : ListIterator π} (hit : a.iters it = some i)
    (hnode : ∀ p ∈ i.next, (a.val p).isSome = true) :
    ∃ m', m.listIteratorNext it = some (i.next, m') ∧
      Represents m' (i.next.elim a fun p => { a with
        iters :=
          Function.update a.iters it (some ⟨a.neighbour i.direction p, i.direction⟩) }) := by
  rw [ListMem.listIteratorNext, h.iters, hit]
  simp only [Option.bind_eq_bind, Option.bind_some]
  cases hnext : i.next with
  | none => exact ⟨m, rfl, h⟩
  | some p =>
      obtain ⟨c, hc⟩ := h.exists_cell (hnode p hnext)
      simp only [hc, Option.bind_some, Option.elim_some, ← h.neighbour hc]
      exact ⟨_, rfl, h.withIters _⟩

/-- The neighbour, where a direction visits a node. -/
lemma neighbour_of_along (h : Represents m a) (hL : a.lists l = some L)
    (hq : direction.along L.seq = q₁ ++ p :: q) :
    a.neighbour direction p = q.head? := by
  have hmem : p ∈ direction.along L.seq := by simp [hq]
  have hnodup : (direction.along L.seq).Nodup := by
    cases direction with
    | head => exact h.nodup hL
    | tail => exact List.nodup_reverse.mpr (h.nodup hL)
  rw [hq] at hnodup
  have hbefore : p ∉ q₁ := fun hp =>
    (List.nodup_append.mp hnodup).2.2 p hp p List.mem_cons_self rfl
  have hafter : after (q₁ ++ p :: q) p = q.head? := after_append hbefore
  rw [← hq] at hafter
  rw [Sequences.neighbour]
  cases direction with
  | head =>
      rw [h.shelved.home_eq (shelf_eq hL) hmem]
      simp only [Option.bind_eq_bind, Option.bind_some, hL]
      exact hafter
  | tail =>
      rw [h.shelved.home_eq (shelf_eq hL) (List.mem_reverse.mp hmem)]
      simp only [Option.bind_eq_bind, Option.bind_some, hL]
      exact hafter

/-- **An iterator moves along a list.** -/
lemma walk (h : Represents m a) (hL : a.lists l = some L) (it : π)
    (hq : direction.along L.seq = q₁ ++ q) :
    (m.withIter it direction q).listIteratorNext it =
      some (q.head?, m.withIter it direction q.tail) := by
  rw [ListMem.listIteratorNext, ListMem.withIter]
  simp only [Function.update_self, Option.bind_eq_bind, Option.bind_some]
  cases q with
  | nil => rfl
  | cons p q =>
      have hmem : p ∈ L.seq := by
        have hmem' : p ∈ direction.along L.seq := by simp [hq]
        cases direction with
        | head => exact hmem'
        | tail => exact List.mem_reverse.mp hmem'
      obtain ⟨c, hc⟩ := (h.linked hL).exists_cell hmem
      have hnext := h.neighbour hc direction
      rw [h.neighbour_of_along hL hq] at hnext
      simp only [List.head?_cons, hc, Option.bind_some, Function.update_idem, ListMem.withIter,
        List.tail_cons, ← hnext]
      rfl

/-- The iterator that `list_iterator_new` makes is in front of the whole list. -/
lemma iteratorNew (h : Represents m a) (hL : a.lists l = some L) (direction : Direction) (it : π) :
    m.listIteratorNew l direction (some it) =
      some (some it, m.withIter it direction (direction.along L.seq)) := by
  rw [ListMem.listIteratorNew, h.header_eq hL]
  cases direction with
  | head => rfl
  | tail =>
      rw [ListMem.withIter, Direction.along, List.head?_reverse]
      rfl

/-- The loop of `list_find` finds the first node that passes, if the fuel is more
than what is left of the list. -/
lemma findLoop (h : Represents m a) (hL : a.lists l = some L) (hit : m.iters it = none)
    (test : ν → Bool) {fuel : ℕ} (hfuel : q.length < fuel) (hq : L.seq = q₁ ++ q) :
    ListMem.findLoop test it fuel (m.withIter it .head q) =
      some (q.find? fun p => (a.val p).elim false test, m) := by
  induction q generalizing q₁ fuel with
  | nil =>
      obtain ⟨n, rfl⟩ := Nat.exists_eq_add_one.mpr hfuel
      have hq' : Direction.head.along L.seq = q₁ ++ [] := hq
      rw [ListMem.findLoop, h.walk hL it hq']
      simp only [Option.bind_eq_bind, Option.bind_some, List.head?_nil, m.withIter_destroy hit]
      rfl
  | cons p q ih =>
      obtain ⟨n, rfl⟩ := Nat.exists_eq_add_one.mpr (Nat.zero_lt_of_lt hfuel)
      have hq' : Direction.head.along L.seq = q₁ ++ p :: q := hq
      have hmem : p ∈ L.seq := by simp [hq]
      obtain ⟨c, hc⟩ := (h.linked hL).exists_cell hmem
      have hval : a.val p = some c.val := by rw [← h.val, hc, Option.map_some]
      have hcell : (m.withIter it .head q).nodes p = some c := hc
      rw [ListMem.findLoop, h.walk hL it hq']
      simp only [Option.bind_eq_bind, Option.bind_some, List.head?_cons, List.tail_cons, hcell,
        m.withIter_destroy hit, Option.map_some]
      by_cases htest : test c.val = true
      · rw [if_pos htest, List.find?_cons_of_pos (by rw [hval]; exact htest)]
      · rw [if_neg htest, List.find?_cons_of_neg (by rw [hval]; exact htest)]
        have hrest : L.seq = (q₁ ++ [p]) ++ q := by rw [hq, List.append_assoc]; rfl
        refine ih ?_ hrest
        rw [List.length_cons] at hfuel
        omega

/-- **`list_find`**. -/
lemma find [DecidableEq ν] (h : Represents m a) (hL : a.lists l = some L) (hit : m.iters it = none)
    {fuel : ℕ} (hfuel : 2 ^ 32 ≤ fuel) (val : ν) :
    m.listFind fuel l val (some it) =
      some (L.seq.find? fun p => (a.val p).elim false (isMatch L.matchVal val), m) := by
  have hlists : (m.withIter it .head L.seq).lists l = some L.header := h.header_eq hL
  rw [ListMem.listFind, h.iteratorNew hL]
  simp only [Option.bind_eq_bind, Option.bind_some, Direction.along, hlists]
  exact h.findLoop hL hit _ ((h.short l L hL).trans_le hfuel) (List.nil_append _).symm

/-- The loop of `list_at` counts along the list. -/
lemma atLoop (h : Represents m a) (hL : a.lists l = some L) (n : ℕ) (node : Option π)
    (hq : direction.along L.seq = q₁ ++ q) :
    ListMem.atLoop it n node (m.withIter it direction q) =
      some (if n = 0 then node else q[n - 1]?, m.withIter it direction (q.drop n)) := by
  induction n generalizing node q₁ q with
  | zero => rfl
  | succ n ih =>
      rw [ListMem.atLoop, h.walk hL it hq]
      simp only [Option.bind_eq_bind, Option.bind_some]
      have hrest : direction.along L.seq = (q₁ ++ q.head?.toList) ++ q.tail := by
        rw [hq, List.append_assoc]
        cases q <;> rfl
      rw [ih _ hrest, List.drop_tail, if_neg n.succ_ne_zero]
      cases n with
      | zero => simp [List.head?_eq_getElem?]
      | succ n => simp

/-- **`list_at`**. -/
lemma listAt (h : Represents m a) (hL : a.lists l = some L) (index : ℤ) (malloc : Option π)
    (hmalloc : (Sequences.nth L.seq index).isSome = true →
      ∃ it, malloc = some it ∧ m.iters it = none) :
    m.listAt l index malloc = some (Sequences.nth L.seq index, m) := by
  rw [Sequences.nth_eq_along] at hmalloc ⊢
  rw [ListMem.listAt]
  generalize (if index < 0 then Direction.tail else .head) = direction at hmalloc ⊢
  generalize (if index < 0 then -index - 1 else index).toNat = i at hmalloc ⊢
  have hlen : (direction.along L.seq).length = L.seq.length := by
    cases direction with
    | head => rfl
    | tail => exact List.length_reverse
  simp only [h.header_eq hL, Option.bind_eq_bind, Option.bind_some, Sequence.header]
  by_cases hi : i < L.seq.length
  · obtain ⟨it, rfl, hit⟩ := hmalloc (by rw [List.getElem?_eq_getElem (hlen ▸ hi)]; rfl)
    have hq : direction.along L.seq = [] ++ direction.along L.seq := rfl
    have hq' : direction.along L.seq =
        (direction.along L.seq).head?.toList ++ (direction.along L.seq).tail := by
      cases direction.along L.seq <;> rfl
    rw [if_pos hi, h.iteratorNew hL]
    simp only [Option.bind_some, h.walk hL it hq, h.atLoop hL i _ hq', m.withIter_destroy hit]
    cases i with
    | zero => simp [List.head?_eq_getElem?]
    | succ i => simp
  · rw [if_neg hi, List.getElem?_eq_none (by omega)]
    rfl

/-! ### Iterators that are not there -/

/-- A call of a caller that does what it owes means something. -/
lemma returns [DecidableEq ν] (h : Represents m a) {op : ListOp π φ ν} (hok : a.Admits op) :
    ∃ r b, a.step op = some (r, b) := by
  cases op with
  | new malloc | nodeNew val malloc | iteratorNewFromNode node direction malloc
  | iteratorDestroy self => exact ⟨_, _, rfl⟩
  | configure self free matchVal | rpop self | lpop self | destroy self =>
      obtain ⟨L, hL⟩ := Option.isSome_iff_exists.mp hok
      exact ⟨_, _, by rw [Sequences.step, hL]; rfl⟩
  | find self val malloc | iteratorNew self direction malloc =>
      obtain ⟨L, hL⟩ := Option.isSome_iff_exists.mp hok.1
      exact ⟨_, _, by rw [Sequences.step, hL]; rfl⟩
  | atIndex self index malloc =>
      obtain ⟨L, hL, -⟩ := hok
      exact ⟨_, _, by rw [Sequences.step, hL]; rfl⟩
  | rpush self node | lpush self node =>
      cases node with
      | none => exact ⟨_, _, rfl⟩
      | some p =>
          obtain ⟨-, -, L, hL, -⟩ := hok p rfl
          exact ⟨_, _, by rw [Sequences.step, Option.elim_some, hL]; rfl⟩
  | remove self node =>
      obtain ⟨q₁, q₂, hq⟩ := h.shelved.split hok
      obtain ⟨L, hL, hseq⟩ := Option.map_eq_some_iff.mp hq
      obtain ⟨c, hc⟩ := (h.linked hL).exists_cell (p := node) (by simp [hseq])
      have hval : a.val node = some c.val := by rw [← h.val, hc, Option.map_some]
      exact ⟨_, _, by rw [Sequences.step, hL, Option.bind_eq_bind, Option.bind_some, hval]; rfl⟩
  | freeNode node =>
      obtain ⟨v, hv⟩ := Option.isSome_iff_exists.mp hok.1
      exact ⟨_, _, by rw [Sequences.step, hv]; rfl⟩
  | iteratorNext self =>
      obtain ⟨i, hi, -⟩ := hok
      exact ⟨_, _, by rw [Sequences.step, hi]; rfl⟩

/-- **One call.** -/
theorem step [DecidableEq ν] (h : Represents m a) {fuel : ℕ} (hfuel : 2 ^ 32 ≤ fuel)
    {op : ListOp π φ ν} (hok : a.Admits op) (hs : a.step op = some (r, b)) :
    ∃ m', m.step fuel op = some (r, m') ∧ Represents m' b := by
  cases op with
  | new malloc =>
      obtain ⟨rfl, rfl⟩ := Prod.mk.inj (Option.some.inj hs)
      cases malloc with
      | none => exact ⟨m, rfl, h⟩
      | some l => exact ⟨_, rfl, h.listNew (hok l rfl)⟩
  | nodeNew val malloc =>
      obtain ⟨rfl, rfl⟩ := Prod.mk.inj (Option.some.inj hs)
      cases malloc with
      | none => exact ⟨m, rfl, h⟩
      | some p =>
          refine ⟨_, rfl, h.update_node (h.home_none (hok p rfl)) ?_⟩
          rintro d hd
          obtain rfl := Option.some.inj hd
          exact ⟨rfl, rfl⟩
  | configure self free matchVal =>
      obtain ⟨L, hL, hs⟩ := Option.bind_eq_some_iff.mp hs
      obtain ⟨rfl, rfl⟩ := Prod.mk.inj (Option.some.inj hs)
      rw [ListMem.step, h.header_eq hL]
      exact ⟨_, rfl, h.configure hL free matchVal⟩
  | rpush self node =>
      cases node with
      | none =>
          obtain ⟨rfl, rfl⟩ := Prod.mk.inj (Option.some.inj hs)
          exact ⟨m, rfl, h⟩
      | some p =>
          obtain ⟨hval, hhome, L, hL, hshort⟩ := hok p rfl
          obtain ⟨c, hc⟩ := h.exists_cell hval
          obtain ⟨L', hL', hs⟩ := Option.bind_eq_some_iff.mp hs
          obtain rfl := Option.some.inj (hL'.symm.trans hL)
          obtain ⟨rfl, rfl⟩ := Prod.mk.inj (Option.some.inj hs)
          exact h.rpush hL hc hhome hshort
  | lpush self node =>
      cases node with
      | none =>
          obtain ⟨rfl, rfl⟩ := Prod.mk.inj (Option.some.inj hs)
          exact ⟨m, rfl, h⟩
      | some p =>
          obtain ⟨hval, hhome, L, hL, hshort⟩ := hok p rfl
          obtain ⟨c, hc⟩ := h.exists_cell hval
          obtain ⟨L', hL', hs⟩ := Option.bind_eq_some_iff.mp hs
          obtain rfl := Option.some.inj (hL'.symm.trans hL)
          obtain ⟨rfl, rfl⟩ := Prod.mk.inj (Option.some.inj hs)
          exact h.lpush hL hc hhome hshort
  | rpop self =>
      obtain ⟨L, hL, hs⟩ := Option.bind_eq_some_iff.mp hs
      obtain ⟨rfl, rfl⟩ := Prod.mk.inj (Option.some.inj hs)
      rcases List.eq_nil_or_concat' L.seq with hnil | ⟨front, p, hseq⟩
      · refine ⟨m, ?_, by rw [hnil]; exact h⟩
        rw [ListMem.step, ListMem.listRpop, h.header_eq hL]
        simp [Sequence.header, hnil]
      · obtain ⟨m', hm', h'⟩ := h.rpop hL hseq
        rw [hseq, List.getLast?_concat, List.dropLast_concat]
        exact ⟨m', hm', h'⟩
  | lpop self =>
      obtain ⟨L, hL, hs⟩ := Option.bind_eq_some_iff.mp hs
      obtain ⟨rfl, rfl⟩ := Prod.mk.inj (Option.some.inj hs)
      cases hseq : L.seq with
      | nil =>
          refine ⟨m, ?_, h⟩
          rw [ListMem.step, ListMem.listLpop, h.header_eq hL]
          simp [Sequence.header, hseq]
      | cons p rest => exact h.lpop hL hseq
  | remove self node =>
      obtain ⟨L, hL, hs⟩ := Option.bind_eq_some_iff.mp hs
      obtain ⟨v, hv, hs⟩ := Option.bind_eq_some_iff.mp hs
      obtain ⟨rfl, rfl⟩ := Prod.mk.inj (Option.some.inj hs)
      obtain ⟨q₁, q₂, hq⟩ := h.shelved.split hok
      rw [shelf_eq hL, Option.some_inj] at hq
      obtain ⟨m', hm', h'⟩ := h.remove hL hq hv
      have hbefore : node ∉ q₁ := fun hmem =>
        (List.nodup_append.mp (hq ▸ h.nodup hL)).2.2 node hmem node List.mem_cons_self rfl
      rw [hq, List.erase_append_right _ hbefore, List.erase_cons_head]
      exact ⟨m', by rw [ListMem.step, hm']; rfl, h'⟩
  | freeNode node =>
      obtain ⟨v, hv, hs⟩ := Option.bind_eq_some_iff.mp hs
      obtain ⟨rfl, rfl⟩ := Prod.mk.inj (Option.some.inj hs)
      obtain ⟨c, hc⟩ := h.exists_cell (p := node) (by rw [hv]; rfl)
      refine ⟨{ m with nodes := Function.update m.nodes node none }, ?_,
        h.update_node hok.2 fun d hd => by cases hd⟩
      rw [ListMem.step, Cells.free_eq hc]
      rfl
  | find self val malloc =>
      obtain ⟨L, hL, hs⟩ := Option.bind_eq_some_iff.mp hs
      obtain ⟨rfl, rfl⟩ := Prod.mk.inj (Option.some.inj hs)
      obtain ⟨-, hmalloc, hfree⟩ := hok
      obtain ⟨it, rfl⟩ := Option.isSome_iff_exists.mp hmalloc
      have hit : m.iters it = none := by rw [h.iters]; exact hfree it rfl
      exact ⟨m, h.find hL hit hfuel val, h⟩
  | atIndex self index malloc =>
      obtain ⟨L, hL, hok⟩ := hok
      obtain ⟨L', hL', hs⟩ := Option.bind_eq_some_iff.mp hs
      obtain rfl := Option.some.inj (hL'.symm.trans hL)
      obtain ⟨rfl, rfl⟩ := Prod.mk.inj (Option.some.inj hs)
      refine ⟨m, h.listAt hL index malloc fun hsome => ?_, h⟩
      obtain ⟨hmalloc, hfree⟩ := hok hsome
      obtain ⟨it, rfl⟩ := Option.isSome_iff_exists.mp hmalloc
      exact ⟨it, rfl, by rw [h.iters]; exact hfree it rfl⟩
  | destroy self =>
      obtain ⟨L, hL, hs⟩ := Option.bind_eq_some_iff.mp hs
      obtain ⟨rfl, rfl⟩ := Prod.mk.inj (Option.some.inj hs)
      obtain ⟨m', hm', h'⟩ := h.destroy hL
      exact ⟨m', by rw [ListMem.step, hm']; rfl, h'⟩
  | iteratorNew self direction malloc =>
      obtain ⟨L, hL, hs⟩ := Option.bind_eq_some_iff.mp hs
      obtain ⟨rfl, rfl⟩ := Prod.mk.inj (Option.some.inj hs)
      rw [ListMem.step, ListMem.listIteratorNew, h.header_eq hL]
      cases malloc with
      | none => exact ⟨m, rfl, h⟩
      | some it =>
          rw [Option.elim_some, ← h.iters]
          exact ⟨_, rfl, h.withIters _⟩
  | iteratorNewFromNode node direction malloc =>
      obtain ⟨rfl, rfl⟩ := Prod.mk.inj (Option.some.inj hs)
      cases malloc with
      | none => exact ⟨m, rfl, h⟩
      | some it =>
          rw [Option.elim_some, ← h.iters]
          exact ⟨_, rfl, h.withIters _⟩
  | iteratorNext self =>
      obtain ⟨i, hi, hnode⟩ := hok
      obtain ⟨i', hi', hs⟩ := Option.bind_eq_some_iff.mp hs
      obtain rfl := Option.some.inj (hi'.symm.trans hi)
      obtain ⟨rfl, rfl⟩ := Prod.mk.inj (Option.some.inj hs)
      exact h.iteratorNext hi hnode
  | iteratorDestroy self =>
      obtain ⟨rfl, rfl⟩ := Prod.mk.inj (Option.some.inj hs)
      cases self with
      | none => exact ⟨m, rfl, h⟩
      | some it =>
          obtain ⟨i, hi⟩ := Option.isSome_iff_exists.mp (hok it rfl)
          rw [Option.elim_some, ← h.iters]
          refine ⟨_, ?_, h.withIters _⟩
          rw [ListMem.step, ListMem.listIteratorDestroy, h.iters, hi]
          rfl

end Represents

end CLibrary
