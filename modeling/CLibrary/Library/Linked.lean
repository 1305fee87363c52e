import Mathlib.Tactic

/-!
Doubly linked lists in a memory of cells.

A cell points to the cell behind it and keeps the name of what is before it.
Names come from any type: the address of the cell before, the address of a
pointer field, and for the first cell of a list a name of the list itself.

* `Cells`: a memory, in which a store through the address of no cell fails.
* `Linked`: the cells at the addresses of a list are linked in that order.
  `linked_append` splits it, `linked_congr` and `linked_update` frame it.
* `linkNext`, `linkPrev`: a store to the cell at one end of a list, if there is
  one.  `hook` and `unhook` are made of them: a cell is put into a list, or
  taken out.
* `Shelved`: many lists in one memory, no address in two of them.
  `Shelved.hook`, `Shelved.unhook`: so they stay when a cell is moved.
* `after`: the element behind another one.
-/

namespace CLibrary

variable {π β ν ι : Type*}

/-! ### Cells -/

/-- The name of what is before, the address of the cell behind, and the contents. -/
structure Cell (π β ν : Type*) where
  prev : β
  next : Option π
  val : ν
  deriving Repr

/-- A cell without its contents. -/
def Cell.links (c : Cell π β ν) : β × Option π := (c.prev, c.next)

/-- The cells at their addresses. -/
abbrev Cells (π β ν : Type*) := π → Option (Cell π β ν)

namespace Cells

variable [DecidableEq π] (m : Cells π β ν) (p : π)

/-- A store to `p->next`. -/
def setNext (e : Option π) : Option (Cells π β ν) :=
  (m p).map fun c => Function.update m p (some { c with next := e })

/-- A store to `p->prev`. -/
def setPrev (b : β) : Option (Cells π β ν) :=
  (m p).map fun c => Function.update m p (some { c with prev := b })

/-- A store to the contents. -/
def setVal (v : ν) : Option (Cells π β ν) :=
  (m p).map fun c => Function.update m p (some { c with val := v })

/-- `free(p)`. -/
def free : Option (Cells π β ν) := (m p).map fun _ => Function.update m p none

variable {m p} {c : Cell π β ν}

lemma setNext_eq (h : m p = some c) (e : Option π) :
    m.setNext p e = some (Function.update m p (some { c with next := e })) := by
  rw [setNext, h, Option.map_some]

lemma setPrev_eq (h : m p = some c) (b : β) :
    m.setPrev p b = some (Function.update m p (some { c with prev := b })) := by
  rw [setPrev, h, Option.map_some]

lemma setVal_eq (h : m p = some c) (v : ν) :
    m.setVal p v = some (Function.update m p (some { c with val := v })) := by
  rw [setVal, h, Option.map_some]

lemma free_eq (h : m p = some c) : m.free p = some (Function.update m p none) := by
  rw [free, h, Option.map_some]

end Cells

/-! ### One list -/

/-- What the last of `l` is named, or `b` if `l` is empty. -/
def lastName (name : π → β) (b : β) (l : List π) : β := (l.getLast?.map name).getD b

/-- The cells at the addresses `l` are linked in that order: the first is behind
`b`, and the last points to `e`. -/
def Linked (name : π → β) (m : Cells π β ν) : β → List π → Option π → Prop
  | _, [], _ => True
  | b, p :: l, e => (∃ v, m p = some ⟨b, l.head?.or e, v⟩) ∧ Linked name m (name p) l e

section Lists

variable {name : π → β} {m m' : Cells π β ν} {b : β} {l q₁ q₂ : List π} {e : Option π} {p : π}

@[simp] lemma lastName_nil : lastName name b [] = b := rfl

lemma lastName_cons : lastName name b (p :: l) = lastName name (name p) l := by
  cases l with
  | nil => rfl
  | cons q l => rw [lastName, lastName, List.getLast?_cons_cons, List.getLast?_cons]; rfl

@[simp] lemma lastName_concat : lastName name b (l ++ [p]) = name p := by
  rw [lastName, List.getLast?_concat]
  rfl

/-- What the last of two lists is named. -/
lemma lastName_append : lastName name b (q₁ ++ q₂) = lastName name (lastName name b q₁) q₂ := by
  rcases List.eq_nil_or_concat' q₂ with rfl | ⟨front, p, rfl⟩
  · rw [List.append_nil, lastName_nil]
  · rw [← List.append_assoc, lastName_concat, lastName_concat]

/-- Lists whose names are the addresses themselves. -/
lemma lastName_some (l : List π) : lastName some none l = l.getLast? := by
  cases h : l.getLast? with
  | none => rw [lastName, h]; rfl
  | some p => rw [lastName, h]; rfl

lemma exists_cell_iff_links {x : Option (Cell π β ν)} :
    (∃ v, x = some ⟨b, e, v⟩) ↔ x.map Cell.links = some (b, e) := by
  refine ⟨?_, fun h => ?_⟩
  · rintro ⟨v, rfl⟩
    rfl
  · obtain ⟨⟨b', e', v⟩, rfl, hc⟩ := Option.map_eq_some_iff.mp h
    obtain ⟨rfl, rfl⟩ := Prod.mk.inj hc
    exact ⟨v, rfl⟩

/-- Two lists, one behind the other. -/
lemma linked_append : Linked name m b (q₁ ++ q₂) e ↔
    Linked name m b q₁ (q₂.head?.or e) ∧ Linked name m (lastName name b q₁) q₂ e := by
  induction q₁ generalizing b with
  | nil => simp [Linked]
  | cons p l ih =>
      have hhead : (l ++ q₂).head?.or e = l.head?.or (q₂.head?.or e) := by
        cases l <;> simp
      rw [List.cons_append, Linked, Linked, ih, hhead, lastName_cons, and_assoc]

/-- A list depends on the links of its own cells. -/
lemma linked_congr_links {μ : Type*} {m' : Cells π β μ}
    (h : ∀ p ∈ l, (m' p).map Cell.links = (m p).map Cell.links) :
    Linked name m' b l e ↔ Linked name m b l e := by
  induction l generalizing b with
  | nil => exact Iff.rfl
  | cons p l ih =>
      have hcell :
          (∃ v, m' p = some ⟨b, l.head?.or e, v⟩) ↔ ∃ v, m p = some ⟨b, l.head?.or e, v⟩ := by
        rw [exists_cell_iff_links, exists_cell_iff_links, h p List.mem_cons_self]
      rw [Linked, Linked, hcell, ih fun q hq => h q (List.mem_cons_of_mem p hq)]

/-- A list depends on its own cells. -/
lemma linked_congr (h : ∀ p ∈ l, m' p = m p) : Linked name m' b l e ↔ Linked name m b l e :=
  linked_congr_links fun p hp => by rw [h p hp]

/-- A store elsewhere. -/
lemma linked_update [DecidableEq π] (hp : p ∉ l) {c : Option (Cell π β ν)} :
    Linked name (Function.update m p c) b l e ↔ Linked name m b l e :=
  linked_congr fun q hq => Function.update_of_ne (by rintro rfl; exact hp hq) _ _

/-- The cell of an element. -/
lemma Linked.cell (h : Linked name m b (q₁ ++ p :: q₂) e) :
    ∃ v, m p = some ⟨lastName name b q₁, q₂.head?.or e, v⟩ :=
  (linked_append.mp h).2.1

lemma Linked.exists_cell (h : Linked name m b l e) (hp : p ∈ l) : ∃ c, m p = some c := by
  obtain ⟨q₁, q₂, rfl⟩ := List.append_of_mem hp
  obtain ⟨v, hv⟩ := h.cell
  exact ⟨_, hv⟩

end Lists

/-! ### Stores at the ends -/

section Stores

variable [DecidableEq π] {name : π → β} {m : Cells π β ν} {b b' : β} {l q₁ q₂ : List π}
  {e e' x : Option π} {p : π}

namespace Cells

/-- The cell at `x`, if there is one, points to `e`. -/
def linkNext (m : Cells π β ν) (x e : Option π) : Cells π β ν :=
  match x with
  | none => m
  | some p => Function.update m p ((m p).map fun c => { c with next := e })

/-- The cell at `x`, if there is one, is behind `b`. -/
def linkPrev (m : Cells π β ν) (x : Option π) (b : β) : Cells π β ν :=
  match x with
  | none => m
  | some p => Function.update m p ((m p).map fun c => { c with prev := b })

@[simp] lemma linkNext_none : m.linkNext none e = m := rfl

@[simp] lemma linkPrev_none : m.linkPrev none b = m := rfl

lemma setNext_eq_linkNext {c : Cell π β ν} (h : m p = some c) :
    m.setNext p e = some (m.linkNext (some p) e) := by
  rw [setNext_eq h, linkNext, h, Option.map_some]

lemma setPrev_eq_linkPrev {c : Cell π β ν} (h : m p = some c) :
    m.setPrev p b = some (m.linkPrev (some p) b) := by
  rw [setPrev_eq h, linkPrev, h, Option.map_some]

lemma linkNext_of_ne (h : x ≠ some p) : m.linkNext x e p = m p := by
  cases x with
  | none => rfl
  | some q => exact Function.update_of_ne (by rintro rfl; exact h rfl) _ _

lemma linkPrev_of_ne (h : x ≠ some p) : m.linkPrev x b p = m p := by
  cases x with
  | none => rfl
  | some q => exact Function.update_of_ne (by rintro rfl; exact h rfl) _ _

/-- The two stores are to different members. -/
lemma linkNext_linkPrev (m : Cells π β ν) (x y e : Option π) (b : β) :
    (m.linkPrev y b).linkNext x e = (m.linkNext x e).linkPrev y b := by
  cases x with
  | none => rfl
  | some p =>
      cases y with
      | none => rfl
      | some q =>
          by_cases hpq : p = q
          · subst hpq
            simp only [linkNext, linkPrev, Function.update_self, Function.update_idem,
              Option.map_map]
            rfl
          · have hqp : q ≠ p := Ne.symm hpq
            simp only [linkNext, linkPrev, Function.update_of_ne hpq, Function.update_of_ne hqp]
            exact Function.update_comm hqp _ _ _

/-- Stores to different cells. -/
lemma update_linkNext (h : x ≠ some p) (c : Option (Cell π β ν)) :
    Function.update (m.linkNext x e) p c = linkNext (Function.update m p c) x e := by
  cases x with
  | none => rfl
  | some q =>
      have hqp : q ≠ p := by
        rintro rfl
        exact h rfl
      rw [linkNext, linkNext, Function.update_of_ne hqp, Function.update_comm hqp]

lemma update_linkPrev (h : x ≠ some p) (c : Option (Cell π β ν)) :
    Function.update (m.linkPrev x b) p c = linkPrev (Function.update m p c) x b := by
  cases x with
  | none => rfl
  | some q =>
      have hqp : q ≠ p := by
        rintro rfl
        exact h rfl
      rw [linkPrev, linkPrev, Function.update_of_ne hqp, Function.update_comm hqp]

/-- Neither store changes the contents of a cell. -/
lemma linkNext_val (p : π) : (m.linkNext x e p).map Cell.val = (m p).map Cell.val := by
  by_cases h : x = some p
  · rw [h, linkNext, Function.update_self, Option.map_map]
    rfl
  · rw [linkNext_of_ne h]

lemma linkPrev_val (p : π) : (m.linkPrev x b p).map Cell.val = (m p).map Cell.val := by
  by_cases h : x = some p
  · rw [h, linkPrev, Function.update_self, Option.map_map]
    rfl
  · rw [linkPrev_of_ne h]

end Cells

/-- The last cell of a list is made to point elsewhere. -/
lemma Linked.linkNext (h : Linked name m b l e) (hl : l.Nodup) (e' : Option π) :
    Linked name (m.linkNext l.getLast? e') b l e' := by
  induction l using List.reverseRecOn with
  | nil => trivial
  | append_singleton l p _ =>
      have hp : p ∉ l := fun hmem => List.disjoint_of_nodup_append hl hmem List.mem_cons_self
      obtain ⟨hfront, ⟨v, hv⟩, -⟩ := linked_append.mp h
      rw [List.getLast?_concat, Cells.linkNext, hv, linked_append]
      exact ⟨(linked_update hp).mpr hfront, ⟨v, by rw [Function.update_self]; rfl⟩, trivial⟩

/-- The first cell of a list is put behind something else. -/
lemma Linked.linkPrev (h : Linked name m b l e) (hl : l.Nodup) (b' : β) :
    Linked name (m.linkPrev l.head? b') b' l e := by
  cases l with
  | nil => trivial
  | cons p l =>
      obtain ⟨⟨v, hv⟩, hrest⟩ := h
      rw [List.head?_cons, Cells.linkPrev, hv]
      exact ⟨⟨v, by rw [Function.update_self]; rfl⟩,
        (linked_update (List.nodup_cons.mp hl).1).mpr hrest⟩

lemma linked_linkNext (hx : ∀ p ∈ l, x ≠ some p) :
    Linked name (m.linkNext x e') b l e ↔ Linked name m b l e :=
  linked_congr fun p hp => Cells.linkNext_of_ne (hx p hp)

lemma linked_linkPrev (hx : ∀ p ∈ l, x ≠ some p) :
    Linked name (m.linkPrev x b') b l e ↔ Linked name m b l e :=
  linked_congr fun p hp => Cells.linkPrev_of_ne (hx p hp)

namespace Cells

/-- A cell with contents `v` at `p`, between `q₁` and `q₂`, in a list that begins
behind `b`. -/
def hook (name : π → β) (m : Cells π β ν) (b : β) (q₁ q₂ : List π) (p : π) (v : ν) : Cells π β ν :=
  (linkNext (Function.update m p (some ⟨lastName name b q₁, q₂.head?, v⟩)) q₁.getLast?
    (some p)).linkPrev q₂.head? (name p)

/-- The neighbours of a cell between `q₁` and `q₂` refer to each other. -/
def unhook (name : π → β) (m : Cells π β ν) (b : β) (q₁ q₂ : List π) : Cells π β ν :=
  (m.linkNext q₁.getLast? q₂.head?).linkPrev q₂.head? (lastName name b q₁)

variable {x : π} {v : ν}

lemma links_of_notMem (h₁ : x ∉ q₁) (h₂ : x ∉ q₂) :
    (m.linkNext q₁.getLast? e).linkPrev q₂.head? b x = m x := by
  rw [linkPrev_of_ne fun heq => h₂ (List.mem_of_head? heq),
    linkNext_of_ne fun heq => h₁ (List.mem_of_getLast? heq)]

lemma hook_of_ne (hx : x ≠ p) (h₁ : x ∉ q₁) (h₂ : x ∉ q₂) : hook name m b q₁ q₂ p v x = m x := by
  rw [hook, links_of_notMem h₁ h₂, Function.update_of_ne hx]

lemma unhook_of_notMem (h₁ : x ∉ q₁) (h₂ : x ∉ q₂) : unhook name m b q₁ q₂ x = m x :=
  links_of_notMem h₁ h₂

/-- The cell put in. -/
lemma hook_self (h₁ : p ∉ q₁) (h₂ : p ∉ q₂) :
    hook name m b q₁ q₂ p v p = some ⟨lastName name b q₁, q₂.head?, v⟩ := by
  rw [hook, links_of_notMem h₁ h₂, Function.update_self]

lemma hook_val {c : Cell π β ν} (hp : m p = some c) (x : π) :
    (hook name m b q₁ q₂ p c.val x).map Cell.val = (m x).map Cell.val := by
  rw [hook, linkPrev_val, linkNext_val]
  by_cases hx : x = p
  · rw [hx, Function.update_self, hp]
    rfl
  · rw [Function.update_of_ne hx]

lemma unhook_val (x : π) : (unhook name m b q₁ q₂ x).map Cell.val = (m x).map Cell.val := by
  rw [unhook, linkPrev_val, linkNext_val]

end Cells

/-- **Insertion**: a new cell that refers to its neighbours, and they to it. -/
theorem Linked.hook (h : Linked name m b (q₁ ++ q₂) none) (hl : (q₁ ++ q₂).Nodup)
    (hp : p ∉ q₁ ++ q₂) (v : ν) :
    Linked name (m.hook name b q₁ q₂ p v) b (q₁ ++ p :: q₂) none := by
  obtain ⟨hnodup₁, hnodup₂, hdisj⟩ := List.nodup_append.mp hl
  rw [List.mem_append, not_or] at hp
  have hlast : ∀ x ∈ q₁.getLast?, x ∈ q₁ := fun x hx => List.mem_of_getLast? hx
  have hhead : ∀ x ∈ q₂.head?, x ∈ q₂ := fun x hx => List.mem_of_head? hx
  obtain ⟨h₁, h₂⟩ := linked_append.mp h
  refine linked_append.mpr ⟨?_, ⟨v, ?_⟩, ?_⟩
  · rw [Cells.hook, linked_linkPrev fun x hx heq => hdisj x hx x (hhead x heq) rfl]
    exact Linked.linkNext ((linked_update hp.1).mpr h₁) hnodup₁ _
  · rw [Option.or_none, Cells.hook_self hp.1 hp.2]
  · refine Linked.linkPrev (b := lastName name b q₁) ?_ hnodup₂ _
    rw [linked_linkNext fun x hx heq => hdisj x (hlast x heq) x hx rfl]
    exact (linked_update hp.2).mpr h₂

/-- **Concatenation**: the last cell of a list and the first of another are made to
refer to each other. -/
theorem Linked.join (h₁ : Linked name m b q₁ e) (h₂ : Linked name m b' q₂ none)
    (hl : (q₁ ++ q₂).Nodup) : Linked name (m.unhook name b q₁ q₂) b (q₁ ++ q₂) none := by
  obtain ⟨hnodup₁, hnodup₂, hdisj⟩ := List.nodup_append.mp hl
  have hlast : ∀ x ∈ q₁.getLast?, x ∈ q₁ := fun x hx => List.mem_of_getLast? hx
  have hhead : ∀ x ∈ q₂.head?, x ∈ q₂ := fun x hx => List.mem_of_head? hx
  refine linked_append.mpr ⟨?_, ?_⟩
  · rw [Cells.unhook, linked_linkPrev fun x hx heq => hdisj x hx x (hhead x heq) rfl,
      Option.or_none]
    exact h₁.linkNext hnodup₁ _
  · have hbehind : Linked name (m.linkNext q₁.getLast? q₂.head?) b' q₂ none :=
      (linked_linkNext fun x hx heq => hdisj x (hlast x heq) x hx rfl).mpr h₂
    exact hbehind.linkPrev hnodup₂ _

/-- **Removal**: the neighbours of a cell are made to refer to each other. -/
theorem Linked.unhook (h : Linked name m b (q₁ ++ p :: q₂) none) (hl : (q₁ ++ p :: q₂).Nodup) :
    Linked name (m.unhook name b q₁ q₂) b (q₁ ++ q₂) none := by
  obtain ⟨h₁, -, h₂⟩ := linked_append.mp h
  exact h₁.join h₂ (List.nodup_cons.mp (List.nodup_middle.mp hl)).2

end Stores

/-! ### Many lists in one memory -/

/-- The lists on a shelf, each begun behind a name of its own: they are linked,
and an address is in at most one of them, its `home`, and there once. -/
structure Shelved (name : π → β) (root : ι → β) (m : Cells π β ν) (shelf : ι → Option (List π))
    (home : π → Option ι) : Prop where
  linked : ∀ i q, shelf i = some q → Linked name m (root i) q none
  nodup : ∀ i q, shelf i = some q → q.Nodup
  home_iff : ∀ p i, home p = some i ↔ ∃ q, shelf i = some q ∧ p ∈ q

namespace Shelved

variable {name : π → β} {root : ι → β} {m m' : Cells π β ν} {shelf : ι → Option (List π)}
  {home : π → Option ι} {i : ι} {q q₁ q₂ : List π} {p : π}

lemma home_eq (h : Shelved name root m shelf home) (hi : shelf i = some q) (hp : p ∈ q) :
    home p = some i :=
  (h.home_iff p i).mpr ⟨q, hi, hp⟩

lemma notMem (h : Shelved name root m shelf home) (hp : home p ≠ some i) (hi : shelf i = some q) :
    p ∉ q :=
  fun hmem => hp (h.home_eq hi hmem)

/-- A list with an element `p`, split there. -/
lemma split (h : Shelved name root m shelf home) (hp : home p = some i) :
    ∃ q₁ q₂, shelf i = some (q₁ ++ p :: q₂) := by
  obtain ⟨q, hi, hmem⟩ := (h.home_iff p i).mp hp
  obtain ⟨q₁, q₂, rfl⟩ := List.append_of_mem hmem
  exact ⟨q₁, q₂, hi⟩

/-- An empty shelf. -/
lemma empty : Shelved name root m (fun _ : ι => none) fun _ => none :=
  ⟨fun i q hi => (by cases hi), fun i q hi => (by cases hi),
    fun p i => ⟨fun hp => (by cases hp), fun ⟨q, hi, _⟩ => (by cases hi)⟩⟩

/-- Stores that leave the links of what is in the lists. -/
lemma congr_links {μ : Type*} {m' : Cells π β μ} (h : Shelved name root m shelf home)
    (hm : ∀ p, home p ≠ none → (m' p).map Cell.links = (m p).map Cell.links) :
    Shelved name root m' shelf home := by
  refine ⟨fun i q hi => (linked_congr_links fun p hp => hm p ?_).mpr (h.linked i q hi), h.nodup,
    h.home_iff⟩
  rw [h.home_eq hi hp]
  exact Option.some_ne_none i

/-- Stores to cells that are in no list. -/
lemma congr (h : Shelved name root m shelf home) (hm : ∀ p, home p ≠ none → m' p = m p) :
    Shelved name root m' shelf home :=
  h.congr_links fun p hp => by rw [hm p hp]

variable [DecidableEq ι]

/-- What changes one list leaves the others. -/
lemma linked_of_ne (h : Shelved name root m shelf home) (hm : ∀ p j, j ≠ i → home p = some j →
    m' p = m p) {r : Option (List π)} {j : ι} (hji : j ≠ i)
    (hj : Function.update shelf i r j = some q) : Linked name m' (root j) q none := by
  rw [Function.update_of_ne hji] at hj
  exact (linked_congr fun p hp => hm p j hji (h.home_eq hj hp)).mpr (h.linked j q hj)

/-- **The rule for one list**: it and its cells are replaced, and the homes of
addresses with it. -/
lemma replace (h : Shelved name root m shelf home) {r : Option (List π)} {home' : π → Option ι}
    (hm : ∀ p j, j ≠ i → home p = some j → m' p = m p)
    (hr : ∀ q, r = some q → Linked name m' (root i) q none ∧ q.Nodup)
    (hother : ∀ p j, j ≠ i → (home' p = some j ↔ home p = some j))
    (hself : ∀ p, home' p = some i ↔ ∃ q, r = some q ∧ p ∈ q) :
    Shelved name root m' (Function.update shelf i r) home' := by
  refine ⟨fun j q hj => ?_, fun j q hj => ?_, fun p j => ?_⟩
  · by_cases hji : j = i
    · rw [hji, Function.update_self] at hj
      exact hji ▸ (hr q hj).1
    · exact h.linked_of_ne hm hji hj
  · by_cases hji : j = i
    · rw [hji, Function.update_self] at hj
      exact (hr q hj).2
    · rw [Function.update_of_ne hji] at hj
      exact h.nodup j q hj
  · by_cases hji : j = i
    · rw [hji, Function.update_self]
      exact hself p
    · rw [Function.update_of_ne hji, hother p j hji]
      exact h.home_iff p j

/-- A new list. -/
lemma add (h : Shelved name root m shelf home) (hi : shelf i = none) :
    Shelved name root m (Function.update shelf i (some [])) home := by
  refine h.replace (fun _ _ _ _ => rfl) ?_ (fun _ _ _ => Iff.rfl) fun p => ?_
  · rintro q hq
    obtain rfl := Option.some.inj hq
    exact ⟨trivial, List.nodup_nil⟩
  · refine iff_of_false (fun hp => ?_) (by simp)
    obtain ⟨q, hq, -⟩ := (h.home_iff p i).mp hp
    rw [hi] at hq
    cases hq

/-- A list given up, with whatever becomes of its cells. -/
lemma drop (h : Shelved name root m shelf home) (hi : shelf i = some q)
    (hm : ∀ p, p ∉ q → m' p = m p) :
    Shelved name root m' (Function.update shelf i none)
      fun p => if home p = some i then none else home p := by
  refine h.replace (fun p j hji hp => ?_) (fun q hq => by cases hq) (fun p j hji => ?_) fun p => ?_
  · exact hm p (h.notMem (by rw [hp]; exact fun heq => hji (Option.some.inj heq)) hi)
  · split_ifs with hp
    · rw [hp, Option.some_inj]
      exact iff_of_false (by simp) (Ne.symm hji)
    · exact Iff.rfl
  · refine iff_of_false (fun hp => ?_) (by simp)
    split_ifs at hp with hhome
    exact hhome hp

variable [DecidableEq π]

/-- **A cell is put in** between two parts of a list. -/
theorem hook (h : Shelved name root m shelf home) (hi : shelf i = some (q₁ ++ q₂))
    (hp : home p = none) (v : ν) :
    Shelved name root (m.hook name (root i) q₁ q₂ p v)
      (Function.update shelf i (some (q₁ ++ p :: q₂))) (Function.update home p (some i)) := by
  have hnotMem : p ∉ q₁ ++ q₂ := h.notMem (by rw [hp]; exact (Option.some_ne_none i).symm) hi
  refine h.replace (fun x j hji hx => ?_) (fun q hq => ?_) (fun x j hji => ?_) fun x => ?_
  · have hne : x ≠ p := by
      rintro rfl
      rw [hp] at hx
      cases hx
    have hx' : x ∉ q₁ ++ q₂ :=
      h.notMem (by rw [hx]; exact fun heq => hji (Option.some.inj heq)) hi
    rw [List.mem_append, not_or] at hx'
    exact Cells.hook_of_ne hne hx'.1 hx'.2
  · obtain rfl := Option.some.inj hq
    have hnodup := h.nodup i _ hi
    exact ⟨(h.linked i _ hi).hook hnodup hnotMem v,
      List.nodup_middle.mpr (List.nodup_cons.mpr ⟨hnotMem, hnodup⟩)⟩
  · by_cases hx : x = p
    · rw [hx, Function.update_self, hp, Option.some_inj]
      exact iff_of_false (Ne.symm hji) (by simp)
    · rw [Function.update_of_ne hx]
  · have hmem : (∃ q, some (q₁ ++ p :: q₂) = some q ∧ x ∈ q) ↔ x = p ∨ x ∈ q₁ ++ q₂ := by
      simp only [Option.some_inj, exists_eq_left', List.mem_append, List.mem_cons]
      tauto
    rw [hmem]
    by_cases hx : x = p
    · rw [hx, Function.update_self]
      exact iff_of_true rfl (Or.inl rfl)
    · rw [Function.update_of_ne hx, h.home_iff, hi, or_iff_right hx]
      simp

/-- **A cell is taken out** of a list. -/
theorem unhook (h : Shelved name root m shelf home) (hi : shelf i = some (q₁ ++ p :: q₂)) :
    Shelved name root (m.unhook name (root i) q₁ q₂)
      (Function.update shelf i (some (q₁ ++ q₂))) (Function.update home p none) := by
  have hnodup := h.nodup i _ hi
  have hrest := List.nodup_cons.mp (List.nodup_middle.mp hnodup)
  refine h.replace (fun x j hji hx => ?_) (fun q hq => ?_) (fun x j hji => ?_) fun x => ?_
  · have hx' : x ∉ q₁ ++ p :: q₂ :=
      h.notMem (by rw [hx]; exact fun heq => hji (Option.some.inj heq)) hi
    rw [List.mem_append, List.mem_cons, not_or, not_or] at hx'
    exact Cells.unhook_of_notMem hx'.1 hx'.2.2
  · obtain rfl := Option.some.inj hq
    exact ⟨(h.linked i _ hi).unhook hnodup, hrest.2⟩
  · by_cases hx : x = p
    · have hhome : home p = some i := h.home_eq hi (by simp)
      rw [hx, Function.update_self, hhome, Option.some_inj]
      exact iff_of_false (by simp) (Ne.symm hji)
    · rw [Function.update_of_ne hx]
  · by_cases hx : x = p
    · rw [hx, Function.update_self]
      exact iff_of_false (by simp) (by simpa using hrest.1)
    · rw [Function.update_of_ne hx, h.home_iff, hi]
      simp [hx]

/-- **A list is put at the end of another**, and it is empty then. -/
theorem join {j : ι} (h : Shelved name root m shelf home) (hi : shelf i = some q₁)
    (hj : shelf j = some q₂) (hij : i ≠ j) :
    Shelved name root (m.unhook name (root i) q₁ q₂)
      (Function.update (Function.update shelf j (some [])) i (some (q₁ ++ q₂)))
      fun p => if home p = some j then some i else home p := by
  have hdisj : ∀ x ∈ q₁, ∀ y ∈ q₂, x ≠ y := by
    rintro x hx y hy rfl
    have hhome := h.home_eq hi hx
    rw [h.home_eq hj hy, Option.some_inj] at hhome
    exact hij hhome.symm
  have hnodup : (q₁ ++ q₂).Nodup := List.nodup_append.mpr ⟨h.nodup i _ hi, h.nodup j _ hj, hdisj⟩
  -- the second list is given up, and the first one takes its elements
  have hdrop := (h.drop hj fun p _ => rfl).add (Function.update_self ..)
  rw [Function.update_idem] at hdrop
  refine hdrop.replace (fun x k hki hx => ?_) (fun q hq => ?_) (fun x k hki => ?_) fun x => ?_
  · split_ifs at hx with hhome
    refine Cells.unhook_of_notMem (h.notMem ?_ hi) (h.notMem hhome hj)
    rw [hx]
    exact fun heq => hki (Option.some.inj heq)
  · obtain rfl := Option.some.inj hq
    exact ⟨(h.linked i _ hi).join (h.linked j _ hj) hnodup, hnodup⟩
  · split_ifs with hhome
    · exact iff_of_false (fun heq => hki (Option.some.inj heq).symm) (by simp)
    · exact Iff.rfl
  · have hmem₁ : x ∈ q₁ ↔ home x = some i := by rw [h.home_iff, hi]; simp
    have hmem₂ : x ∈ q₂ ↔ home x = some j := by rw [h.home_iff, hj]; simp
    simp only [Option.some_inj, exists_eq_left', List.mem_append, hmem₁, hmem₂]
    split_ifs with hhome
    · simp [hhome]
    · simp [hhome]

end Shelved

/-! ### The neighbours -/

section Neighbours

variable [DecidableEq π] {q q₁ q₂ : List π} {p : π}

/-- The element behind `p`. -/
def after (q : List π) (p : π) : Option π := (q.dropWhile fun x => x ≠ p).tail.head?

lemma after_append (hp : p ∉ q₁) : after (q₁ ++ p :: q₂) p = q₂.head? := by
  have hdrop : (q₁ ++ p :: q₂).dropWhile (fun x => x ≠ p) = p :: q₂ := by
    rw [List.dropWhile_append_of_pos fun x hx => ?_]
    · exact List.dropWhile_cons_of_neg (by simp)
    · rw [decide_eq_true_eq]
      rintro rfl
      exact hp hx
  rw [after, hdrop, List.tail_cons]

/-- The element before `p`, in a list without repetitions. -/
lemma after_reverse (hnodup : (q₁ ++ p :: q₂).Nodup) :
    after (q₁ ++ p :: q₂).reverse p = q₁.getLast? := by
  have hp : p ∉ q₂.reverse := by
    rw [List.mem_reverse]
    exact (List.nodup_cons.mp (List.nodup_append.mp hnodup).2.1).1
  rw [List.reverse_append, List.reverse_cons, List.append_assoc, List.singleton_append,
    after_append hp, List.head?_reverse]

end Neighbours

end CLibrary
