import CLibrary.Library.Runs
import CLibrary.TailQueue.Refinement

/-!
Runs of the macros of `queue.h`.

* `Tailqs`: the list of every head, the contents of every element, and the head
  whose list it is in, its `home`.
* `TqOp`, `Tailqs.step`: the macros, and what they mean for lists.  `TqMem.step`
  runs them.
* `Tailqs.Admits`: what a user owes: an element that is inserted is allocated and in
  no list, and one that is named as a place is in the list it is named with.
* `tail_queues_are_lists`: every run of a user that does what it owes.
-/

namespace CLibrary

variable {ι π ν : Type}

/-- The macros, and the allocation of elements; the links of a new element are what
`malloc` left there. -/
inductive TqOp (ι π ν : Type)
  | malloc (elm : π) (cell : Cell π (Slot ι π) ν)
  | free (elm : π)
  | init (head : ι)
  | insertHead (head : ι) (elm : π)
  | insertTail (head : ι) (elm : π)
  | insertAfter (head : ι) (listelm elm : π)
  | insertBefore (listelm elm : π)
  | remove (head : ι) (elm : π)
  | concat (head₁ head₂ : ι)
  | first (head : ι)
  | last (head : ι)
  | next (elm : π)
  | prev (elm : π)
  | foreach (head : ι)
  | foreachReverse (head : ι)

/-- The lists, the list an element is in, and the contents of the elements. -/
structure Tailqs (ι π ν : Type) where
  lists : ι → Option (List π)
  home : π → Option ι
  val : π → Option ν

namespace Tailqs

/-- No element, no head. -/
def start : Tailqs ι π ν := ⟨fun _ => none, fun _ => none, fun _ => none⟩

variable [DecidableEq ι] [DecidableEq π] (a : Tailqs ι π ν)

/-- The list of `head` is changed, and the homes of elements. -/
def put (head : ι) (q : List π) (home : π → Option ι) : Tailqs ι π ν :=
  { a with lists := Function.update a.lists head (some q), home := home }

/-- The list with `elms` in the place of `listelm`. -/
def splice (q : List π) (listelm : π) (elms : List π) : List π :=
  q.flatMap fun x => if x = listelm then elms else [x]

/-- What a macro means. -/
def step : TqOp ι π ν → Option (List π × Tailqs ι π ν)
  | .malloc elm cell => some ([], { a with val := Function.update a.val elm (some cell.val) })
  | .free elm => (a.val elm).map fun _ => ([], { a with val := Function.update a.val elm none })
  | .init head => some ([], a.put head [] fun p => if a.home p = some head then none else a.home p)
  | .insertHead head elm => (a.lists head).map fun q =>
      ([], a.put head (elm :: q) (Function.update a.home elm (some head)))
  | .insertTail head elm => (a.lists head).map fun q =>
      ([], a.put head (q ++ [elm]) (Function.update a.home elm (some head)))
  | .insertAfter head listelm elm => (a.lists head).map fun q =>
      ([], a.put head (splice q listelm [listelm, elm]) (Function.update a.home elm (some head)))
  | .insertBefore listelm elm => do
      let head ← a.home listelm
      let q ← a.lists head
      return ([], a.put head (splice q listelm [elm, listelm])
        (Function.update a.home elm (some head)))
  | .remove head elm => (a.lists head).map fun q =>
      ([], a.put head (splice q elm []) (Function.update a.home elm none))
  | .concat head₁ head₂ => do
      let q₁ ← a.lists head₁
      let q₂ ← a.lists head₂
      return ([], { a with
        lists := Function.update (Function.update a.lists head₂ (some [])) head₁ (some (q₁ ++ q₂))
        home := fun p => if a.home p = some head₂ then some head₁ else a.home p })
  | .first head => (a.lists head).map fun q => (q.head?.toList, a)
  | .last head => (a.lists head).map fun q => (q.getLast?.toList, a)
  | .next elm => do
      let q ← a.lists (← a.home elm)
      return ((after q elm).toList, a)
  | .prev elm => do
      let q ← a.lists (← a.home elm)
      return ((after q.reverse elm).toList, a)
  | .foreach head => (a.lists head).map fun q => (q, a)
  | .foreachReverse head => (a.lists head).map fun q => (q.reverse, a)

/-- What the user owes. -/
def Admits : TqOp ι π ν → Prop
  | .malloc elm _ => a.val elm = none
  | .free elm => a.home elm = none
  | .insertHead _ elm | .insertTail _ elm => (a.val elm).isSome = true ∧ a.home elm = none
  | .insertAfter head listelm elm =>
      ((a.val elm).isSome = true ∧ a.home elm = none) ∧ a.home listelm = some head
  | .insertBefore _ elm => (a.val elm).isSome = true ∧ a.home elm = none
  | .remove head elm => a.home elm = some head
  | .concat head₁ head₂ => head₁ ≠ head₂
  | .init _ | .first _ | .last _ | .next _ | .prev _ | .foreach _ | .foreachReverse _ => True

instance : ∀ op, Decidable (a.Admits op)
  | .malloc elm _ => inferInstanceAs (Decidable (a.val elm = none))
  | .free elm => inferInstanceAs (Decidable (a.home elm = none))
  | .insertHead _ elm | .insertTail _ elm | .insertBefore _ elm =>
      inferInstanceAs (Decidable ((a.val elm).isSome = true ∧ a.home elm = none))
  | .insertAfter head listelm elm => inferInstanceAs (Decidable
      (((a.val elm).isSome = true ∧ a.home elm = none) ∧ a.home listelm = some head))
  | .remove head elm => inferInstanceAs (Decidable (a.home elm = some head))
  | .concat head₁ head₂ => inferInstanceAs (Decidable (head₁ ≠ head₂))
  | .init _ | .first _ | .last _ | .next _ | .prev _ | .foreach _ | .foreachReverse _ =>
      inferInstanceAs (Decidable True)

omit [DecidableEq ι] in
lemma splice_middle {q₁ q₂ : List π} {p : π} (hnodup : (q₁ ++ p :: q₂).Nodup) (elms : List π) :
    splice (q₁ ++ p :: q₂) p elms = q₁ ++ elms ++ q₂ := by
  have hp := List.nodup_cons.mp (List.nodup_middle.mp hnodup)
  rw [List.mem_append, not_or] at hp
  have hsame : ∀ q : List π, p ∉ q → (q.flatMap fun x => if x = p then elms else [x]) = q := by
    intro q hq
    calc (q.flatMap fun x => if x = p then elms else [x])
        = q.flatMap fun x => [x] := by
          refine List.flatMap_congr fun x hx => if_neg ?_
          rintro rfl
          exact hq hx
      _ = q := List.flatMap_singleton' q
  rw [splice, List.flatMap_append, List.flatMap_cons, if_pos rfl, hsame q₁ hp.1.1,
    hsame q₂ hp.1.2, List.append_assoc]

end Tailqs

namespace TqMem

variable [DecidableEq ι] [DecidableEq π] (m : TqMem ι π ν)

/-- A macro. -/
def step (fuel : ℕ) : TqOp ι π ν → Option (List π × TqMem ι π ν)
  | .malloc elm cell => some ([], m.malloc elm cell)
  | .free elm => (m.free elm).map fun m => ([], m)
  | .init head => some ([], m.tailqInit head)
  | .insertHead head elm => (m.tailqInsertHead head elm).map fun m => ([], m)
  | .insertTail head elm => (m.tailqInsertTail head elm).map fun m => ([], m)
  | .insertAfter head listelm elm => (m.tailqInsertAfter head listelm elm).map fun m => ([], m)
  | .insertBefore listelm elm => (m.tailqInsertBefore listelm elm).map fun m => ([], m)
  | .remove head elm => (m.tailqRemove head elm).map fun m => ([], m)
  | .concat head₁ head₂ => (m.tailqConcat head₁ head₂).map fun m => ([], m)
  | .first head => (m.tailqFirst head).map fun e => (e.toList, m)
  | .last head => (m.tailqLast head).map fun e => (e.toList, m)
  | .next elm => (m.tailqNext elm).map fun e => (e.toList, m)
  | .prev elm => (m.tailqPrev elm).map fun e => (e.toList, m)
  | .foreach head => (m.tailqForeach fuel head).map fun elms => (elms, m)
  | .foreachReverse head => (m.tailqForeachReverse fuel head).map fun elms => (elms, m)

end TqMem

/-- The memory holds the lists and the contents, and what has contents is among
`seen`. -/
structure Tailqs.Held (m : TqMem ι π ν) (a : Tailqs ι π ν) (seen : List π) : Prop where
  threaded : Threaded m a.lists a.home
  val : ∀ p, (m.elems p).map Cell.val = a.val p
  seen : ∀ p, (a.val p).isSome = true → p ∈ seen

namespace Tailqs.Held

variable {m m' : TqMem ι π ν} {a b : Tailqs ι π ν} {seen : List π} {i : ι} {p : π} {q : List π}

lemma exists_cell (h : Held m a seen) (hp : (a.val p).isSome = true) :
    ∃ c, m.elems p = some c := by
  rw [← h.val, Option.isSome_map] at hp
  exact Option.isSome_iff_exists.mp hp

/-- An element of a list is allocated. -/
lemma isSome_val (h : Held m a seen) (hi : a.lists i = some q) (hp : p ∈ q) :
    (a.val p).isSome = true := by
  obtain ⟨c, hc⟩ := h.threaded.exists_cell hi hp
  rw [← h.val, hc]
  rfl

/-- A list is no longer than what was ever allocated. -/
lemma length_le (h : Held m a seen) (hi : a.lists i = some q) : q.length ≤ seen.length := by
  have hnodup := h.threaded.shelved.nodup i q hi
  exact (hnodup.subperm fun p hp => h.seen p (h.isSome_val hi hp)).length_le

lemma home_none (h : Held m a seen) (hp : a.val p = none) : a.home p = none := by
  cases hhome : a.home p with
  | none => rfl
  | some i =>
      obtain ⟨q, hi, hmem⟩ := (h.threaded.shelved.home_iff p i).mp hhome
      have hsome := h.isSome_val hi hmem
      rw [hp] at hsome
      cases hsome

/-- The list an element is in, split there. -/
lemma split (h : Held m a seen) (hhome : a.home p = some i) :
    ∃ q₁ q₂, a.lists i = some (q₁ ++ p :: q₂) ∧ (q₁ ++ p :: q₂).Nodup := by
  obtain ⟨q₁, q₂, hi⟩ := h.threaded.shelved.split hhome
  exact ⟨q₁, q₂, hi, h.threaded.shelved.nodup i _ hi⟩

/-- A macro that moves elements. -/
lemma moved (h : Held m a seen) {lists : ι → Option (List π)} {home : π → Option ι}
    (hthreaded : Threaded m' lists home) (hvals : m.SameVals m') :
    Held m' { a with lists := lists, home := home } seen :=
  ⟨hthreaded, fun p => (hvals p).trans (h.val p), h.seen⟩

variable [DecidableEq π]

/-- An element in no list is allocated or freed. -/
lemma update_elem (h : Held m a seen) (hhome : a.home p = none)
    {c : Option (Cell π (Slot ι π) ν)} {seen' : List π} (hsub : seen ⊆ seen')
    (hp : c.isSome = true → p ∈ seen') :
    Held { m with elems := Function.update m.elems p c }
      { a with val := Function.update a.val p (c.map Cell.val) } seen' := by
  refine ⟨⟨h.threaded.shelved.congr fun x hx => ?_, h.threaded.heads⟩, fun x => ?_, fun x hx => ?_⟩
  · refine Function.update_of_ne ?_ _ _
    rintro rfl
    exact hx hhome
  · dsimp only
    by_cases hx : x = p
    · rw [hx, Function.update_self, Function.update_self]
    · rw [Function.update_of_ne hx, Function.update_of_ne hx, h.val]
  · dsimp only at hx
    by_cases hxp : x = p
    · rw [hxp, Function.update_self, Option.isSome_map] at hx
      exact hxp ▸ hp hx
    · rw [Function.update_of_ne hxp] at hx
      exact hsub (h.seen x hx)

variable [DecidableEq ι]

/-- **One macro.** -/
theorem step (h : Held m a seen) {fuel : ℕ} (hfuel : seen.length < fuel) {op : TqOp ι π ν}
    (hok : a.Admits op) {r : List π} (hs : a.step op = some (r, b)) :
    ∃ m' seen', m.step fuel op = some (r, m') ∧ seen'.length ≤ seen.length + 1 ∧
      Held m' b seen' := by
  have hlen : seen.length ≤ seen.length + 1 := Nat.le_succ _
  cases op with
  | malloc elm cell =>
      obtain ⟨rfl, rfl⟩ := Prod.mk.inj (Option.some.inj hs)
      refine ⟨m.malloc elm cell, elm :: seen, rfl, le_rfl, ?_⟩
      exact h.update_elem (h.home_none hok) (List.subset_cons_self elm seen) fun _ =>
        List.mem_cons_self
  | free elm =>
      obtain ⟨v, hv, hs⟩ := Option.map_eq_some_iff.mp hs
      obtain ⟨rfl, rfl⟩ := Prod.mk.inj hs
      obtain ⟨c, hc⟩ := h.exists_cell (p := elm) (by rw [hv]; rfl)
      refine ⟨{ m with elems := Function.update m.elems elm none }, seen, ?_, hlen,
        h.update_elem hok (List.Subset.refl seen) fun hnone => by cases hnone⟩
      rw [TqMem.step, TqMem.free, Cells.free_eq hc]
      rfl
  | init head =>
      obtain ⟨rfl, rfl⟩ := Prod.mk.inj (Option.some.inj hs)
      exact ⟨m.tailqInit head, seen, rfl, hlen, h.moved (h.threaded.init head) fun _ => rfl⟩
  | insertHead head elm =>
      obtain ⟨q, hq, hs⟩ := Option.map_eq_some_iff.mp hs
      obtain ⟨rfl, rfl⟩ := Prod.mk.inj hs
      obtain ⟨c, hc⟩ := h.exists_cell hok.1
      obtain ⟨m', hm', hthreaded, hvals⟩ := h.threaded.insertHead hq hc hok.2
      exact ⟨m', seen, by rw [TqMem.step, hm']; rfl, hlen, h.moved hthreaded hvals⟩
  | insertTail head elm =>
      obtain ⟨q, hq, hs⟩ := Option.map_eq_some_iff.mp hs
      obtain ⟨rfl, rfl⟩ := Prod.mk.inj hs
      obtain ⟨c, hc⟩ := h.exists_cell hok.1
      obtain ⟨m', hm', hthreaded, hvals⟩ := h.threaded.insertTail hq hc hok.2
      exact ⟨m', seen, by rw [TqMem.step, hm']; rfl, hlen, h.moved hthreaded hvals⟩
  | insertAfter head listelm elm =>
      obtain ⟨q, hq, hs⟩ := Option.map_eq_some_iff.mp hs
      obtain ⟨rfl, rfl⟩ := Prod.mk.inj hs
      obtain ⟨c, hc⟩ := h.exists_cell hok.1.1
      obtain ⟨q₁, q₂, hsplit, hnodup⟩ := h.split hok.2
      obtain rfl := Option.some.inj (hq.symm.trans hsplit)
      obtain ⟨m', hm', hthreaded, hvals⟩ := h.threaded.insertAfter hq hc hok.1.2
      refine ⟨m', seen, by rw [TqMem.step, hm']; rfl, hlen, ?_⟩
      rw [Tailqs.put, splice_middle hnodup, List.append_assoc]
      exact h.moved hthreaded hvals
  | insertBefore listelm elm =>
      obtain ⟨head, hhead, hs⟩ := Option.bind_eq_some_iff.mp hs
      obtain ⟨q, hq, hs⟩ := Option.bind_eq_some_iff.mp hs
      obtain ⟨rfl, rfl⟩ := Prod.mk.inj (Option.some.inj hs)
      obtain ⟨c, hc⟩ := h.exists_cell hok.1
      obtain ⟨q₁, q₂, hsplit, hnodup⟩ := h.split hhead
      obtain rfl := Option.some.inj (hq.symm.trans hsplit)
      obtain ⟨m', hm', hthreaded, hvals⟩ := h.threaded.insertBefore hq hc hok.2
      refine ⟨m', seen, by rw [TqMem.step, hm']; rfl, hlen, ?_⟩
      rw [Tailqs.put, splice_middle hnodup, List.append_assoc]
      exact h.moved hthreaded hvals
  | remove head elm =>
      obtain ⟨q, hq, hs⟩ := Option.map_eq_some_iff.mp hs
      obtain ⟨rfl, rfl⟩ := Prod.mk.inj hs
      obtain ⟨q₁, q₂, hsplit, hnodup⟩ := h.split hok
      obtain rfl := Option.some.inj (hq.symm.trans hsplit)
      obtain ⟨m', hm', hthreaded, hvals, -⟩ := h.threaded.remove hq
      refine ⟨m', seen, by rw [TqMem.step, hm']; rfl, hlen, ?_⟩
      rw [Tailqs.put, splice_middle hnodup, List.append_nil]
      exact h.moved hthreaded hvals
  | concat head₁ head₂ =>
      obtain ⟨q₁, hq₁, hs⟩ := Option.bind_eq_some_iff.mp hs
      obtain ⟨q₂, hq₂, hs⟩ := Option.bind_eq_some_iff.mp hs
      obtain ⟨rfl, rfl⟩ := Prod.mk.inj (Option.some.inj hs)
      obtain ⟨m', hm', hthreaded, hvals⟩ := h.threaded.concat hq₁ hq₂ hok
      exact ⟨m', seen, by rw [TqMem.step, hm']; rfl, hlen, h.moved hthreaded hvals⟩
  | first head =>
      obtain ⟨q, hq, hs⟩ := Option.map_eq_some_iff.mp hs
      obtain ⟨rfl, rfl⟩ := Prod.mk.inj hs
      exact ⟨m, seen, by rw [TqMem.step, h.threaded.first hq]; rfl, hlen, h⟩
  | last head =>
      obtain ⟨q, hq, hs⟩ := Option.map_eq_some_iff.mp hs
      obtain ⟨rfl, rfl⟩ := Prod.mk.inj hs
      exact ⟨m, seen, by rw [TqMem.step, h.threaded.last hq]; rfl, hlen, h⟩
  | next elm =>
      obtain ⟨head, hhead, hs⟩ := Option.bind_eq_some_iff.mp hs
      obtain ⟨q, hq, hs⟩ := Option.bind_eq_some_iff.mp hs
      obtain ⟨rfl, rfl⟩ := Prod.mk.inj (Option.some.inj hs)
      obtain ⟨q₁, q₂, hsplit, hnodup⟩ := h.split hhead
      obtain rfl := Option.some.inj (hq.symm.trans hsplit)
      have hbefore : elm ∉ q₁ := fun hmem =>
        (List.nodup_append.mp hnodup).2.2 elm hmem elm List.mem_cons_self rfl
      refine ⟨m, seen, ?_, hlen, h⟩
      rw [TqMem.step, h.threaded.next hq, after_append hbefore]
      rfl
  | prev elm =>
      obtain ⟨head, hhead, hs⟩ := Option.bind_eq_some_iff.mp hs
      obtain ⟨q, hq, hs⟩ := Option.bind_eq_some_iff.mp hs
      obtain ⟨rfl, rfl⟩ := Prod.mk.inj (Option.some.inj hs)
      obtain ⟨q₁, q₂, hsplit, hnodup⟩ := h.split hhead
      obtain rfl := Option.some.inj (hq.symm.trans hsplit)
      refine ⟨m, seen, ?_, hlen, h⟩
      rw [TqMem.step, h.threaded.prev hq, after_reverse hnodup]
      rfl
  | foreach head =>
      obtain ⟨q, hq, hs⟩ := Option.map_eq_some_iff.mp hs
      obtain ⟨rfl, rfl⟩ := Prod.mk.inj hs
      refine ⟨m, seen, ?_, hlen, h⟩
      rw [TqMem.step, h.threaded.foreach hq ((h.length_le hq).trans_lt hfuel)]
      rfl
  | foreachReverse head =>
      obtain ⟨q, hq, hs⟩ := Option.map_eq_some_iff.mp hs
      obtain ⟨rfl, rfl⟩ := Prod.mk.inj hs
      refine ⟨m, seen, ?_, hlen, h⟩
      rw [TqMem.step, h.threaded.foreachReverse hq ((h.length_le hq).trans_lt hfuel)]
      rfl

end Tailqs.Held

/-- **Tail queues are lists**: whatever is done with any number of heads and elements
by a user that does what it owes, no macro follows a null pointer or one to an
element that was freed, every access and every loop yields what the lists say, the
loops end within fewer rounds than macros were run, and at the end the memory holds
the lists. -/
theorem tail_queues_are_lists [DecidableEq ι] [DecidableEq π] {ops : List (TqOp ι π ν)} {fuel : ℕ}
    (hfuel : ops.length ≤ fuel) {t : Tailqs ι π ν × List (List π)}
    (h : Run (traced Tailqs.step) (fun s op => s.1.Admits op) (Tailqs.start, []) ops t) :
    ∃ m, Run (traced fun m op => m.step fuel op) (fun _ _ => True) (TqMem.start, []) ops (m, t.2) ∧
      Threaded m t.1.lists t.1.home ∧ ∀ p, (m.elems p).map Cell.val = t.1.val p := by
  have hstep : ∀ n (a : Tailqs ι π ν) (m : TqMem ι π ν) op r b, n < fuel →
      (∃ seen : List π, seen.length ≤ n ∧ Tailqs.Held m a seen) → a.Admits op →
      a.step op = some (r, b) → ∃ m', m.step fuel op = some (r, m') ∧
        ∃ seen : List π, seen.length ≤ n + 1 ∧ Tailqs.Held m' b seen := by
    rintro n a m op r b hn ⟨seen, hseen, hm⟩ hok hs
    obtain ⟨m', seen', hm', hseen', h'⟩ := hm.step (lt_of_le_of_lt hseen hn) hok hs
    exact ⟨m', hm', seen', by omega, h'⟩
  have hstart : ∃ seen : List π, seen.length ≤ 0 ∧ Tailqs.Held TqMem.start
      (Tailqs.start : Tailqs ι π ν) seen := by
    refine ⟨[], le_rfl, ⟨Shelved.empty, fun i => rfl⟩, fun p => rfl, ?_⟩
    rintro p hp
    cases hp
  obtain ⟨m, hrun, seen, -, hm⟩ := h.simulates_counted (R := fun n a m => ∃ seen : List π,
    seen.length ≤ n ∧ Tailqs.Held m a seen) hfuel hstart hstep
  exact ⟨m, hrun, hm.threaded, hm.val⟩

/-- Two queues are filled at every place, run through in both directions, and put
together. -/
theorem tail_queues_are_lists_run : ∃ m : TqMem Bool ℕ ℕ,
    Run (traced fun m op => m.step 16 op) (fun _ _ => True) (TqMem.start, [])
      [.malloc 1 ⟨.next 9, some 9, 10⟩, .malloc 2 ⟨.next 9, none, 20⟩,
        .malloc 3 ⟨.next 9, none, 30⟩, .malloc 4 ⟨.next 9, none, 40⟩, .init true, .init false,
        .insertTail true 1, .insertHead true 2, .insertAfter true 2 3, .insertTail false 4,
        .foreachReverse true, .prev 2, .concat false true, .remove false 2, .foreach false,
        .last true]
      (m, [[], [], [], [], [], [], [], [], [], [], [1, 3, 2], [], [], [], [4, 3, 1], []]) ∧
      m.elems 2 ≠ none := by
  have hexec : (exec (fun (s : Tailqs Bool ℕ ℕ × List (List ℕ)) op =>
        if s.1.Admits op then traced Tailqs.step s op else none) (Tailqs.start, [])
      [.malloc 1 ⟨.next 9, some 9, 10⟩, .malloc 2 ⟨.next 9, none, 20⟩,
        .malloc 3 ⟨.next 9, none, 30⟩, .malloc 4 ⟨.next 9, none, 40⟩, .init true, .init false,
        .insertTail true 1, .insertHead true 2, .insertAfter true 2 3, .insertTail false 4,
        .foreachReverse true, .prev 2, .concat false true, .remove false 2, .foreach false,
        .last true]).map (fun t => (t.2, t.1.val 2)) =
      some ([[], [], [], [], [], [], [], [], [], [], [1, 3, 2], [], [], [], [4, 3, 1], []],
        some 20) := by
    decide
  obtain ⟨t, ht, hout⟩ := Option.map_eq_some_iff.mp hexec
  obtain ⟨hrs, hval⟩ := Prod.mk.inj hout
  obtain ⟨m, hrun, -, hm⟩ := tail_queues_are_lists (show _ ≤ 16 by decide) (run_of_exec_guarded ht)
  refine ⟨m, by rw [← hrs]; exact hrun, fun hnone => ?_⟩
  have h2 := hm 2
  rw [hnone, hval] at h2
  cases h2

end CLibrary
