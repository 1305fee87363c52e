import CLibrary.TailQueue.Basic

/-!
Tail queues are lists.

* `Threaded`: the memory holds a list for every head, and an element is in at most
  one of them.
* `store_slot`, `linkBack_slot`: the stores to what is before an element and to what
  is behind it, at the ends of a list and inside.
* `Threaded.insertHead`, `insertTail`, `insertAfter`, `insertBefore`, `remove`,
  `concat`: the macros keep it, and no element gets other contents.
* `Threaded.last`, `Threaded.prev`: the casts of `TAILQ_LAST` and `TAILQ_PREV` find
  the element before.
* `Threaded.foreach`, `Threaded.foreachReverse`: the loops visit the list.
-/

namespace CLibrary

variable {ι π ν : Type}

/-- The structure of the head of a list. -/
def TqHead.of (head : ι) (q : List π) : TqHead ι π := ⟨q.head?, lastName .next (.first head) q⟩

/-- The lists that the memory holds, and the list that an element is in. -/
structure Threaded (m : TqMem ι π ν) (shelf : ι → Option (List π)) (home : π → Option ι) :
    Prop where
  shelved : Shelved .next .first m.elems shelf home
  heads : ∀ i, m.heads i = (shelf i).map (TqHead.of i)

/-- The same elements are allocated, with the same contents. -/
def TqMem.SameVals (m m' : TqMem ι π ν) : Prop :=
  ∀ p, (m'.elems p).map Cell.val = (m.elems p).map Cell.val

variable {m m' : TqMem ι π ν} {shelf : ι → Option (List π)} {home : π → Option ι} {i j : ι}
  {p x : π} {q q₁ q₂ : List π}

lemma TqMem.SameVals.trans {m'' : TqMem ι π ν} (h : m.SameVals m') (h' : m'.SameVals m'') :
    m.SameVals m'' :=
  fun p => (h' p).trans (h p)

/-- The head of a list in two parts. -/
lemma TqHead.of_append (i : ι) (q₁ q₂ : List π) : TqHead.of i (q₁ ++ q₂) =
    ⟨q₁.head?.or q₂.head?, lastName .next (lastName .next (.first i) q₁) q₂⟩ := by
  rw [TqHead.of, lastName_append, List.head?_append]

namespace Threaded

lemma head_eq (h : Threaded m shelf home) (hi : shelf i = some q) :
    m.heads i = some (TqHead.of i q) := by
  rw [h.heads, hi, Option.map_some]

lemma linked (h : Threaded m shelf home) (hi : shelf i = some q) :
    Linked .next m.elems (.first i) q none :=
  h.shelved.linked i q hi

lemma exists_cell (h : Threaded m shelf home) (hi : shelf i = some q) (hp : p ∈ q) :
    ∃ c, m.elems p = some c :=
  (h.linked hi).exists_cell hp

/-- The cell of an element of a list. -/
lemma cell (h : Threaded m shelf home) (hi : shelf i = some (q₁ ++ p :: q₂)) :
    ∃ v, m.elems p = some ⟨lastName .next (.first i) q₁, q₂.head?, v⟩ := by
  obtain ⟨v, hv⟩ := (h.linked hi).cell
  exact ⟨v, by rw [hv, Option.or_none]⟩

/-- The last pointer of a list points nowhere. -/
lemma load_last (h : Threaded m shelf home) (hi : shelf i = some (q₁ ++ q₂)) :
    m.load (lastName .next (.first i) q₁) = some q₂.head? := by
  rcases List.eq_nil_or_concat' q₁ with rfl | ⟨front, x, rfl⟩
  · rw [lastName_nil, TqMem.load, h.head_eq hi]
    rfl
  · rw [List.append_assoc, List.singleton_append] at hi
    obtain ⟨v, hv⟩ := h.cell hi
    rw [lastName_concat, TqMem.load, hv, Option.map_some]

/-- What is behind the last pointer of a list: the address of the last but one. -/
lemma lastOf_last (h : Threaded m shelf home) (hi : shelf i = some (q₁ ++ x :: q₂)) :
    m.lastOf (lastName .next (.first i) (q₁ ++ [x])) = some (lastName .next (.first i) q₁) := by
  obtain ⟨v, hv⟩ := h.cell hi
  rw [lastName_concat, TqMem.lastOf, hv, Option.map_some]

variable [DecidableEq ι]

/-- **One list is changed**, and its head with it. -/
lemma put {elems : Cells π (Slot ι π) ν} {home' : π → Option ι} (h : Threaded m shelf home)
    (hshelved : Shelved .next .first elems (Function.update shelf i (some q)) home') :
    Threaded ⟨elems, Function.update m.heads i (some (TqHead.of i q))⟩
      (Function.update shelf i (some q)) home' := by
  refine ⟨hshelved, fun k => ?_⟩
  dsimp only
  by_cases hk : k = i
  · rw [hk, Function.update_self, Function.update_self, Option.map_some]
  · rw [Function.update_of_ne hk, Function.update_of_ne hk, h.heads]

/-- `TAILQ_INIT` of a new head. -/
lemma init_new (h : Threaded m shelf home) (hi : shelf i = none) :
    Threaded (m.tailqInit i) (Function.update shelf i (some [])) home :=
  h.put (h.shelved.add hi)

/-- `TAILQ_INIT` gives a list up. -/
lemma init (h : Threaded m shelf home) (i : ι) :
    Threaded (m.tailqInit i) (Function.update shelf i (some []))
      fun p => if home p = some i then none else home p := by
  cases hi : shelf i with
  | none =>
      have hhome : (fun p => if home p = some i then none else home p) = home := by
        funext p
        refine if_neg fun hp => ?_
        obtain ⟨q, hq, -⟩ := (h.shelved.home_iff p i).mp hp
        rw [hi] at hq
        cases hq
      rw [hhome]
      exact h.init_new hi
  | some q =>
      have hdrop := (h.shelved.drop hi fun p _ => rfl).add (Function.update_self ..)
      rw [Function.update_idem] at hdrop
      exact h.put hdrop

variable [DecidableEq π]

/-! ### Stores beside an element -/

/-- A store through the last pointer of `q₁`, which is the head's first pointer if
`q₁` is empty. -/
lemma store_slot {elems : Cells π (Slot ι π) ν} {heads : ι → Option (TqHead ι π)} {e e' : Option π}
    {s : Slot ι π} (hhead : heads i = some ⟨q₁.head?.or e, s⟩)
    (hcell : ∀ x ∈ q₁, ∃ c, elems x = some c) :
    TqMem.store ⟨elems, heads⟩ (lastName .next (.first i) q₁) e' =
      some ⟨elems.linkNext q₁.getLast? e',
        Function.update heads i (some ⟨q₁.head?.or e', s⟩)⟩ := by
  rcases List.eq_nil_or_concat' q₁ with rfl | ⟨front, x, rfl⟩
  · rw [lastName_nil, TqMem.store, TqMem.setFirst_eq hhead]
    rfl
  · obtain ⟨c, hc⟩ := hcell x (by simp)
    have hsame : (front ++ [x]).head?.or e' = (front ++ [x]).head?.or e := by
      cases front <;> rfl
    rw [lastName_concat, TqMem.store, TqMem.setNext, Cells.setNext_eq_linkNext hc, hsame,
      List.getLast?_concat, Option.map_some, ← hhead, Function.update_eq_self]

/-- A store to the first of `q₂`, or to the head's last pointer if `q₂` is empty. -/
lemma linkBack_slot {elems : Cells π (Slot ι π) ν} {heads : ι → Option (TqHead ι π)} {f : Option π}
    {s s' : Slot ι π} (hhead : heads i = some ⟨f, lastName .next s q₂⟩)
    (hcell : ∀ x ∈ q₂, ∃ c, elems x = some c) :
    TqMem.linkBack ⟨elems, heads⟩ i q₂.head? s' = some ⟨elems.linkPrev q₂.head? s',
      Function.update heads i (some ⟨f, lastName .next s' q₂⟩)⟩ := by
  cases q₂ with
  | nil =>
      rw [List.head?_nil, TqMem.linkBack, TqMem.setLast_eq hhead]
      rfl
  | cons x rest =>
      obtain ⟨c, hc⟩ := hcell x List.mem_cons_self
      have hsame : (lastName .next s' (x :: rest) : Slot ι π) = lastName .next s (x :: rest) := by
        rw [lastName_cons, lastName_cons]
      rw [List.head?_cons, TqMem.linkBack, TqMem.setPrev, Cells.setPrev_eq_linkPrev hc, hsame,
        Option.map_some, ← hhead, Function.update_eq_self]

/-! ### Insertions -/

/-- A cell is put into a list. -/
lemma hook (h : Threaded m shelf home) {c : Cell π (Slot ι π) ν} (hi : shelf i = some (q₁ ++ q₂))
    (hp : m.elems p = some c) (hhome : home p = none) :
    Threaded ⟨m.elems.hook .next (.first i) q₁ q₂ p c.val,
        Function.update m.heads i (some (TqHead.of i (q₁ ++ p :: q₂)))⟩
      (Function.update shelf i (some (q₁ ++ p :: q₂))) (Function.update home p (some i)) ∧
    m.SameVals ⟨m.elems.hook .next (.first i) q₁ q₂ p c.val,
        Function.update m.heads i (some (TqHead.of i (q₁ ++ p :: q₂)))⟩ :=
  ⟨h.put (h.shelved.hook hi hhome c.val), fun x => Cells.hook_val hp x⟩

/-- **`TAILQ_INSERT_TAIL`**. -/
lemma insertTail (h : Threaded m shelf home) {c : Cell π (Slot ι π) ν} (hi : shelf i = some q)
    (hp : m.elems p = some c) (hhome : home p = none) :
    ∃ m', m.tailqInsertTail i p = some m' ∧
      Threaded m' (Function.update shelf i (some (q ++ [p]))) (Function.update home p (some i)) ∧
      m.SameVals m' := by
  have hi' : shelf i = some (q ++ []) := by rw [hi, List.append_nil]
  refine ⟨_, ?_, h.hook hi' hp hhome⟩
  have hnotMem : p ∉ q := h.shelved.notMem (by rw [hhome]; exact (Option.some_ne_none i).symm) hi
  have hcell : ∀ x ∈ q, ∃ d, Function.update m.elems p
      (some ⟨lastName .next (.first i) q, none, c.val⟩) x = some d := by
    intro x hx
    rw [Function.update_of_ne (by rintro rfl; exact hnotMem hx)]
    exact h.exists_cell hi hx
  have hhead := h.head_eq hi
  have hhead' : m.heads i = some ⟨q.head?.or none, lastName .next (.first i) q⟩ := by
    rw [hhead, TqHead.of, Option.or_none]
  rw [TqMem.tailqInsertTail]
  simp only [TqMem.setNext_eq hp, Option.bind_eq_bind, Option.bind_some, hhead, TqHead.of]
  rw [TqMem.setPrev_eq (Function.update_self ..)]
  simp only [Function.update_idem, Option.bind_some]
  rw [store_slot hhead' hcell, Option.bind_some, TqMem.setLast_eq (Function.update_self ..),
    Function.update_idem, List.head?_append, lastName_concat]
  rfl

/-- **`TAILQ_INSERT_HEAD`**. -/
lemma insertHead (h : Threaded m shelf home) {c : Cell π (Slot ι π) ν} (hi : shelf i = some q)
    (hp : m.elems p = some c) (hhome : home p = none) :
    ∃ m', m.tailqInsertHead i p = some m' ∧
      Threaded m' (Function.update shelf i (some (p :: q))) (Function.update home p (some i)) ∧
      m.SameVals m' := by
  have hi' : shelf i = some ([] ++ q) := hi
  refine ⟨_, ?_, h.hook hi' hp hhome⟩
  have hnotMem : p ∉ q := h.shelved.notMem (by rw [hhome]; exact (Option.some_ne_none i).symm) hi
  have hne : q.head? ≠ some p := fun heq => hnotMem (List.mem_of_head? heq)
  have hcell : ∀ x ∈ q, ∃ d,
      Function.update m.elems p (some ⟨c.prev, q.head?, c.val⟩) x = some d := by
    intro x hx
    rw [Function.update_of_ne (by rintro rfl; exact hnotMem hx)]
    exact h.exists_cell hi hx
  have hhead := h.head_eq hi
  rw [TqMem.tailqInsertHead]
  simp only [hhead, Option.bind_eq_bind, Option.bind_some, TqHead.of, TqMem.setNext_eq hp]
  rw [linkBack_slot hhead hcell, Option.bind_some, TqMem.setFirst_eq (Function.update_self ..),
    Option.bind_some,
    TqMem.setPrev_eq ((Cells.linkPrev_of_ne hne).trans (Function.update_self ..)),
    Function.update_idem, Cells.update_linkPrev hne, Function.update_idem, List.nil_append,
    lastName_cons]
  rfl

/-- **`TAILQ_INSERT_AFTER`**. -/
lemma insertAfter (h : Threaded m shelf home) {c : Cell π (Slot ι π) ν}
    (hi : shelf i = some (q₁ ++ x :: q₂)) (hp : m.elems p = some c) (hhome : home p = none) :
    ∃ m', m.tailqInsertAfter i x p = some m' ∧
      Threaded m' (Function.update shelf i (some (q₁ ++ x :: p :: q₂)))
        (Function.update home p (some i)) ∧
      m.SameVals m' := by
  have hi' : shelf i = some ((q₁ ++ [x]) ++ q₂) := by
    rw [hi, List.append_assoc, List.singleton_append]
  have hsplit : q₁ ++ x :: p :: q₂ = (q₁ ++ [x]) ++ p :: q₂ := by
    rw [List.append_assoc, List.singleton_append]
  rw [hsplit]
  refine ⟨_, ?_, h.hook hi' hp hhome⟩
  have hnotMem : p ∉ q₁ ++ x :: q₂ :=
    h.shelved.notMem (by rw [hhome]; exact (Option.some_ne_none i).symm) hi
  have hxp : x ≠ p := by
    rintro rfl
    exact hnotMem (by simp)
  have hne : q₂.head? ≠ some p := fun heq =>
    hnotMem (List.mem_append_right _ (List.mem_cons_of_mem x (List.mem_of_head? heq)))
  have hx₂ : q₂.head? ≠ some x := fun heq => by
    have hnodup := (List.nodup_append.mp (h.shelved.nodup i _ hi)).2.1
    exact (List.nodup_cons.mp hnodup).1 (List.mem_of_head? heq)
  have hcell : ∀ y ∈ q₂, ∃ d, Function.update m.elems p (some ⟨c.prev, q₂.head?, c.val⟩) y =
      some d := by
    intro y hy
    have hmem : y ∈ q₁ ++ x :: q₂ := by simp [hy]
    rw [Function.update_of_ne (by rintro rfl; exact hnotMem hmem)]
    exact h.exists_cell hi hmem
  obtain ⟨v, hv⟩ := h.cell hi
  have hhead := h.head_eq hi'
  rw [TqHead.of_append] at hhead
  -- the cell of `x` when `x` is stored to
  have hv' : Cells.linkPrev (Function.update m.elems p (some ⟨c.prev, q₂.head?, c.val⟩)) q₂.head?
      (.next p) x = some ⟨lastName .next (.first i) q₁, q₂.head?, v⟩ := by
    rw [Cells.linkPrev_of_ne hx₂, Function.update_of_ne hxp, hv]
  rw [TqMem.tailqInsertAfter]
  simp only [hv, Option.bind_eq_bind, Option.bind_some, TqMem.setNext_eq hp]
  rw [linkBack_slot hhead hcell, Option.bind_some, TqMem.setNext, Cells.setNext_eq_linkNext hv',
    Option.map_some, Option.bind_some]
  have hxp' : some x ≠ some p := fun heq => hxp (Option.some.inj heq)
  rw [TqMem.setPrev_eq ((Cells.linkNext_of_ne hxp').trans ((Cells.linkPrev_of_ne hne).trans
    (Function.update_self ..))), Cells.update_linkNext hxp', Cells.update_linkPrev hne,
    Function.update_idem, Cells.linkNext_linkPrev, TqHead.of_append, lastName_cons,
    Cells.hook, List.getLast?_concat, lastName_concat]
  cases q₁ <;> rfl

/-- **`TAILQ_INSERT_BEFORE`**. -/
lemma insertBefore (h : Threaded m shelf home) {c : Cell π (Slot ι π) ν}
    (hi : shelf i = some (q₁ ++ x :: q₂)) (hp : m.elems p = some c) (hhome : home p = none) :
    ∃ m', m.tailqInsertBefore x p = some m' ∧
      Threaded m' (Function.update shelf i (some (q₁ ++ p :: x :: q₂)))
        (Function.update home p (some i)) ∧
      m.SameVals m' := by
  refine ⟨_, ?_, h.hook hi hp hhome⟩
  have hnotMem : p ∉ q₁ ++ x :: q₂ :=
    h.shelved.notMem (by rw [hhome]; exact (Option.some_ne_none i).symm) hi
  have hxp : x ≠ p := by
    rintro rfl
    exact hnotMem (by simp)
  have hnodup := List.nodup_append.mp (h.shelved.nodup i _ hi)
  have hx₁ : q₁.getLast? ≠ some x := fun heq =>
    hnodup.2.2 x (List.mem_of_getLast? heq) x List.mem_cons_self rfl
  have hcell : ∀ y ∈ q₁, ∃ d, Function.update m.elems p
      (some ⟨lastName .next (.first i) q₁, some x, c.val⟩) y = some d := by
    intro y hy
    have hmem : y ∈ q₁ ++ x :: q₂ := by simp [hy]
    rw [Function.update_of_ne (by rintro rfl; exact hnotMem hmem)]
    exact h.exists_cell hi hmem
  obtain ⟨v, hv⟩ := h.cell hi
  have hhead := h.head_eq hi
  rw [TqHead.of_append] at hhead
  have hv' : Cells.linkNext (Function.update m.elems p
      (some ⟨lastName .next (.first i) q₁, some x, c.val⟩)) q₁.getLast? (some p) x =
        some ⟨lastName .next (.first i) q₁, q₂.head?, v⟩ := by
    rw [Cells.linkNext_of_ne hx₁, Function.update_of_ne hxp, hv]
  rw [TqMem.tailqInsertBefore]
  simp only [hv, Option.bind_eq_bind, Option.bind_some, TqMem.setPrev_eq hp]
  rw [TqMem.setNext_eq (Function.update_self ..), Function.update_idem, Option.bind_some,
    store_slot hhead hcell, Option.bind_some, TqMem.setPrev, Cells.setPrev_eq_linkPrev hv',
    Option.map_some, TqHead.of_append, lastName_cons, lastName_cons, lastName_cons, Cells.hook]
  rfl

/-! ### Removal and concatenation -/

/-- **`TAILQ_REMOVE`**: the element keeps its own links. -/
lemma remove (h : Threaded m shelf home) (hi : shelf i = some (q₁ ++ p :: q₂)) :
    ∃ m', m.tailqRemove i p = some m' ∧
      Threaded m' (Function.update shelf i (some (q₁ ++ q₂))) (Function.update home p none) ∧
      m.SameVals m' ∧ m'.elems p = m.elems p := by
  have hnodup := List.nodup_append.mp (h.shelved.nodup i _ hi)
  have hp₁ : p ∉ q₁ := fun hmem => hnodup.2.2 p hmem p List.mem_cons_self rfl
  have hp₂ : p ∉ q₂ := (List.nodup_cons.mp hnodup.2.1).1
  have hne : q₂.head? ≠ some p := fun heq => hp₂ (List.mem_of_head? heq)
  obtain ⟨v, hv⟩ := h.cell hi
  have hhead := h.head_eq hi
  rw [TqHead.of_append, List.head?_cons, lastName_cons] at hhead
  have hcell₂ : ∀ y ∈ q₂, ∃ d, m.elems y = some d := fun y hy =>
    h.exists_cell hi (by simp [hy])
  have hcell₁ : ∀ y ∈ q₁, ∃ d, m.elems.linkPrev q₂.head? (lastName .next (.first i) q₁) y =
      some d := by
    intro y hy
    have hy₂ : q₂.head? ≠ some y := fun heq =>
      hnodup.2.2 y hy y (List.mem_cons_of_mem p (List.mem_of_head? heq)) rfl
    rw [Cells.linkPrev_of_ne hy₂]
    exact h.exists_cell hi (by simp [hy])
  refine ⟨⟨m.elems.unhook .next (.first i) q₁ q₂,
    Function.update m.heads i (some (TqHead.of i (q₁ ++ q₂)))⟩, ?_,
    h.put (h.shelved.unhook hi), fun x => Cells.unhook_val x, Cells.unhook_of_notMem hp₁ hp₂⟩
  rw [TqMem.tailqRemove]
  simp only [hv, Option.bind_eq_bind, Option.bind_some]
  rw [linkBack_slot hhead hcell₂, Option.bind_some]
  simp only [(Cells.linkPrev_of_ne hne).trans hv, Option.bind_some]
  rw [store_slot (Function.update_self ..) hcell₁, Function.update_idem,
    Cells.linkNext_linkPrev, TqHead.of_append]
  rfl

/-- **`TAILQ_CONCAT`**. -/
lemma concat (h : Threaded m shelf home) (hi : shelf i = some q₁) (hj : shelf j = some q₂)
    (hij : i ≠ j) :
    ∃ m', m.tailqConcat i j = some m' ∧
      Threaded m' (Function.update (Function.update shelf j (some [])) i (some (q₁ ++ q₂)))
        (fun p => if home p = some j then some i else home p) ∧
      m.SameVals m' := by
  cases q₂ with
  | nil =>
      have hnone : ∀ x, home x ≠ some j := fun x hx => by
        obtain ⟨q, hq, hmem⟩ := (h.shelved.home_iff x j).mp hx
        rw [hj, Option.some_inj] at hq
        rw [← hq] at hmem
        cases hmem
      have hhome : (fun x => if home x = some j then some i else home x) = home :=
        funext fun x => if_neg (hnone x)
      refine ⟨m, ?_, ?_, fun x => rfl⟩
      · rw [TqMem.tailqConcat]
        simp only [h.head_eq hj, Option.bind_eq_bind, Option.bind_some, TqHead.of]
        rfl
      · rw [hhome, List.append_nil, ← hj, Function.update_eq_self, ← hi, Function.update_eq_self]
        exact h
  | cons x rest =>
      have hval : ∀ y, (m.elems.unhook .next (.first i) q₁ (x :: rest) y).map Cell.val =
          (m.elems y).map Cell.val := fun y => Cells.unhook_val y
      refine ⟨⟨m.elems.unhook .next (.first i) q₁ (x :: rest), Function.update (Function.update
        m.heads i (some (TqHead.of i (q₁ ++ x :: rest)))) j (some ⟨none, .first j⟩)⟩, ?_,
        ⟨h.shelved.join hi hj hij, fun k => ?_⟩, hval⟩
      · have hhead : m.heads i = some ⟨q₁.head?.or none, lastName .next (.first i) q₁⟩ := by
          rw [h.head_eq hi, TqHead.of, Option.or_none]
        have hx : q₁.getLast? ≠ some x := fun heq => by
          have hhome := h.shelved.home_eq hi (List.mem_of_getLast? heq)
          rw [h.shelved.home_eq hj List.mem_cons_self, Option.some_inj] at hhome
          exact hij hhome.symm
        obtain ⟨c, hc⟩ := h.exists_cell hj (List.mem_cons_self (a := x))
        have hcell : ∀ y ∈ q₁, ∃ d, m.elems y = some d := fun y hy => h.exists_cell hi hy
        rw [TqMem.tailqConcat]
        simp only [h.head_eq hj, h.head_eq hi, Option.bind_eq_bind, Option.bind_some, TqHead.of,
          List.head?_cons]
        rw [store_slot hhead hcell, Option.bind_some, TqMem.setPrev,
          Cells.setPrev_eq_linkPrev ((Cells.linkNext_of_ne hx).trans hc), Option.map_some,
          Option.bind_some, TqMem.setLast_eq (Function.update_self ..), Function.update_idem,
          Option.bind_some, TqMem.tailqInit, List.head?_append, lastName_append, lastName_cons,
          lastName_cons]
        rfl
      · dsimp only
        by_cases hkj : k = j
        · rw [hkj, Function.update_self, Function.update_of_ne hij.symm, Function.update_self]
          rfl
        · rw [Function.update_of_ne hkj]
          by_cases hki : k = i
          · rw [hki, Function.update_self, Function.update_self, Option.map_some]
          · rw [Function.update_of_ne hki, Function.update_of_ne hki, Function.update_of_ne hkj,
              h.heads]

/-! ### Access -/

omit [DecidableEq ι] [DecidableEq π]

/-- `TAILQ_FIRST`. -/
lemma first (h : Threaded m shelf home) (hi : shelf i = some q) :
    m.tailqFirst i = some q.head? := by
  rw [TqMem.tailqFirst, h.head_eq hi]
  rfl

/-- `TAILQ_EMPTY`. -/
lemma empty (h : Threaded m shelf home) (hi : shelf i = some q) :
    m.tailqEmpty i = some q.isEmpty := by
  rw [TqMem.tailqEmpty, h.first hi]
  cases q <;> rfl

/-- `TAILQ_NEXT`. -/
lemma next (h : Threaded m shelf home) (hi : shelf i = some (q₁ ++ p :: q₂)) :
    m.tailqNext p = some q₂.head? := by
  obtain ⟨v, hv⟩ := h.cell hi
  rw [TqMem.tailqNext, hv]
  rfl

/-- **The cast** of `TAILQ_LAST` and `TAILQ_PREV` finds the last of a first part of
the list. -/
lemma load_lastOf (h : Threaded m shelf home) (hi : shelf i = some (q₁ ++ q₂)) :
    ((m.lastOf (lastName .next (.first i) q₁)).bind fun s => m.load s) = some q₁.getLast? := by
  rcases List.eq_nil_or_concat' q₁ with rfl | ⟨front, x, rfl⟩
  · -- the structure is the head, and its last pointer points nowhere
    have hi' : shelf i = some (q₂ ++ []) := by rw [hi, List.append_nil]; rfl
    rw [lastName_nil, TqMem.lastOf, h.head_eq hi, Option.map_some, Option.bind_some, TqHead.of,
      List.nil_append, h.load_last hi']
    rfl
  · -- the structure is the links of `x`, and what is before `x` points to it
    rw [List.append_assoc, List.singleton_append] at hi
    rw [h.lastOf_last hi, Option.bind_some, h.load_last hi, List.head?_cons, List.getLast?_concat]

/-- **`TAILQ_LAST`**. -/
lemma last (h : Threaded m shelf home) (hi : shelf i = some q) :
    m.tailqLast i = some q.getLast? := by
  have hi' : shelf i = some (q ++ []) := by rw [hi, List.append_nil]
  rw [TqMem.tailqLast, h.head_eq hi]
  exact h.load_lastOf hi'

/-- **`TAILQ_PREV`**. -/
lemma prev (h : Threaded m shelf home) (hi : shelf i = some (q₁ ++ p :: q₂)) :
    m.tailqPrev p = some q₁.getLast? := by
  obtain ⟨v, hv⟩ := h.cell hi
  rw [TqMem.tailqPrev, hv]
  exact h.load_lastOf hi

/-! ### Loops -/

/-- A loop that goes from each element of a list to the one behind visits it. -/
lemma forLoop_eq {step : π → Option (Option π)} {fuel : ℕ} (hfuel : q.length < fuel)
    (hstep : ∀ q₁ p q₂, q = q₁ ++ p :: q₂ → step p = some q₂.head?) :
    TqMem.forLoop step fuel q.head? = some q := by
  induction q generalizing fuel with
  | nil =>
      obtain ⟨n, rfl⟩ := Nat.exists_eq_add_one.mpr hfuel
      rfl
  | cons p q ih =>
      obtain ⟨n, rfl⟩ := Nat.exists_eq_add_one.mpr (Nat.zero_lt_of_lt hfuel)
      have hrest : TqMem.forLoop step n q.head? = some q := by
        refine ih (by rw [List.length_cons] at hfuel; omega) fun q₁ x q₂ hq => ?_
        exact hstep (p :: q₁) x q₂ (by rw [hq, List.cons_append])
      have hp : step p = some q.head? := hstep [] p q rfl
      simp only [TqMem.forLoop, List.head?_cons, hp, Option.bind_eq_bind, Option.bind_some, hrest]
      rfl

/-- **`TAILQ_FOREACH`**. -/
lemma foreach (h : Threaded m shelf home) (hi : shelf i = some q) {fuel : ℕ}
    (hfuel : q.length < fuel) : m.tailqForeach fuel i = some q := by
  rw [TqMem.tailqForeach, h.first hi]
  refine forLoop_eq hfuel fun q₁ p q₂ hq => ?_
  rw [hq] at hi
  exact h.next hi

/-- **`TAILQ_FOREACH_REVERSE`**. -/
lemma foreachReverse (h : Threaded m shelf home) (hi : shelf i = some q) {fuel : ℕ}
    (hfuel : q.length < fuel) : m.tailqForeachReverse fuel i = some q.reverse := by
  rw [TqMem.tailqForeachReverse, h.last hi, ← List.head?_reverse]
  refine forLoop_eq (by rwa [List.length_reverse]) fun q₁ p q₂ hq => ?_
  have hq' : q = q₂.reverse ++ p :: q₁.reverse := by
    rw [← List.reverse_reverse q, hq]
    simp
  rw [hq'] at hi
  rw [h.prev hi, List.getLast?_reverse]

end Threaded

end CLibrary
