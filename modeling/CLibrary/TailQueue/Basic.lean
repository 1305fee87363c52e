import CLibrary.Library.Linked

/-!
`queue.h`: tail queues, whose elements have their links inside.

* `Slot`, `TqHead`, `TqMem`: the address of a pointer to an element, the
  structure `TAILQ_HEAD` declares, and the memory.  An element is a `Cell` whose
  `next` is `tqe_next`; its `prev` is `tqe_prev`, the address of the pointer that
  points to it.
* The macros, under their names.  A macro has no result where it would follow a
  null pointer or one to an element that is not allocated.
* The loops `TAILQ_FOREACH` and `TAILQ_FOREACH_REVERSE` run on fuel, and return
  the elements that their body is run for.
-/

namespace CLibrary

variable {ι π ν : Type}

/-- `&(head)->tqh_first`, or `&(elm)->field.tqe_next`. -/
inductive Slot (ι π : Type)
  | first (head : ι)
  | next (elm : π)
  deriving DecidableEq, Repr

/-- `TAILQ_HEAD`. -/
structure TqHead (ι π : Type) where
  tqhFirst : Option π
  tqhLast : Slot ι π

/-- The elements that are allocated, and the heads that are initialised. -/
structure TqMem (ι π ν : Type) where
  elems : Cells π (Slot ι π) ν
  heads : ι → Option (TqHead ι π)

namespace TqMem

/-- No element, no head. -/
def start : TqMem ι π ν := ⟨fun _ => none, fun _ => none⟩

variable [DecidableEq ι] [DecidableEq π] (m : TqMem ι π ν)

/-! ### Loads and stores -/

/-- A new element, with what `malloc` left in it. -/
def malloc (elm : π) (cell : Cell π (Slot ι π) ν) : TqMem ι π ν :=
  { m with elems := Function.update m.elems elm (some cell) }

/-- `free(elm)`. -/
def free (elm : π) : Option (TqMem ι π ν) :=
  (m.elems.free elm).map fun elems => { m with elems := elems }

/-- A store to the contents of an element. -/
def setVal (elm : π) (v : ν) : Option (TqMem ι π ν) :=
  (m.elems.setVal elm v).map fun elems => { m with elems := elems }

/-- A store to `(elm)->field.tqe_next`. -/
def setNext (elm : π) (e : Option π) : Option (TqMem ι π ν) :=
  (m.elems.setNext elm e).map fun elems => { m with elems := elems }

/-- A store to `(elm)->field.tqe_prev`. -/
def setPrev (elm : π) (s : Slot ι π) : Option (TqMem ι π ν) :=
  (m.elems.setPrev elm s).map fun elems => { m with elems := elems }

/-- A store to `(head)->tqh_first`. -/
def setFirst (head : ι) (e : Option π) : Option (TqMem ι π ν) :=
  (m.heads head).map fun h =>
    { m with heads := Function.update m.heads head (some { h with tqhFirst := e }) }

/-- A store to `(head)->tqh_last`. -/
def setLast (head : ι) (s : Slot ι π) : Option (TqMem ι π ν) :=
  (m.heads head).map fun h =>
    { m with heads := Function.update m.heads head (some { h with tqhLast := s }) }

/-- `*s = e`. -/
def store (s : Slot ι π) (e : Option π) : Option (TqMem ι π ν) :=
  match s with
  | .first head => m.setFirst head e
  | .next elm => m.setNext elm e

/-- `*s`. -/
def load (s : Slot ι π) : Option (Option π) :=
  match s with
  | .first head => (m.heads head).map TqHead.tqhFirst
  | .next elm => (m.elems elm).map Cell.next

/-- `((struct headname *)s)->tqh_last`, which is what is behind the pointer in the
structure it is in. -/
def lastOf (s : Slot ι π) : Option (Slot ι π) :=
  match s with
  | .first head => (m.heads head).map TqHead.tqhLast
  | .next elm => (m.elems elm).map Cell.prev

/-- What is behind an insertion or a removal: `next->field.tqe_prev = s`, or
`(head)->tqh_last = s` where `next` is null. -/
def linkBack (head : ι) (next : Option π) (s : Slot ι π) : Option (TqMem ι π ν) :=
  match next with
  | some elm => m.setPrev elm s
  | none => m.setLast head s

section Stores

variable {elems : Cells π (Slot ι π) ν} {heads : ι → Option (TqHead ι π)}
  {c : Cell π (Slot ι π) ν} {f : Option π} {s : Slot ι π} {head : ι} {elm : π}

omit [DecidableEq ι] in
lemma setNext_eq (h : elems elm = some c) (e : Option π) :
    setNext ⟨elems, heads⟩ elm e =
      some ⟨Function.update elems elm (some ⟨c.prev, e, c.val⟩), heads⟩ := by
  rw [setNext, Cells.setNext_eq h, Option.map_some]

omit [DecidableEq ι] in
lemma setPrev_eq (h : elems elm = some c) (s : Slot ι π) :
    setPrev ⟨elems, heads⟩ elm s =
      some ⟨Function.update elems elm (some ⟨s, c.next, c.val⟩), heads⟩ := by
  rw [setPrev, Cells.setPrev_eq h, Option.map_some]

omit [DecidableEq π] in
lemma setFirst_eq (h : heads head = some ⟨f, s⟩) (e : Option π) :
    setFirst ⟨elems, heads⟩ head e =
      some ⟨elems, Function.update heads head (some ⟨e, s⟩)⟩ := by
  simp only [setFirst, h, Option.map_some]

omit [DecidableEq π] in
lemma setLast_eq (h : heads head = some ⟨f, s⟩) (s' : Slot ι π) :
    setLast ⟨elems, heads⟩ head s' =
      some ⟨elems, Function.update heads head (some ⟨f, s'⟩)⟩ := by
  simp only [setLast, h, Option.map_some]

end Stores

/-! ### The macros -/

/-- `TAILQ_INIT`. -/
def tailqInit (head : ι) : TqMem ι π ν :=
  { m with heads := Function.update m.heads head (some ⟨none, .first head⟩) }

/-- `TAILQ_INSERT_HEAD`. -/
def tailqInsertHead (head : ι) (elm : π) : Option (TqMem ι π ν) := do
  let h ← m.heads head
  let m ← m.setNext elm h.tqhFirst
  let m ← m.linkBack head h.tqhFirst (.next elm)
  let m ← m.setFirst head (some elm)
  m.setPrev elm (.first head)

/-- `TAILQ_INSERT_TAIL`. -/
def tailqInsertTail (head : ι) (elm : π) : Option (TqMem ι π ν) := do
  let m ← m.setNext elm none
  let h ← m.heads head
  let m ← m.setPrev elm h.tqhLast
  let m ← m.store h.tqhLast (some elm)
  m.setLast head (.next elm)

/-- `TAILQ_INSERT_AFTER`. -/
def tailqInsertAfter (head : ι) (listelm elm : π) : Option (TqMem ι π ν) := do
  let l ← m.elems listelm
  let m ← m.setNext elm l.next
  let m ← m.linkBack head l.next (.next elm)
  let m ← m.setNext listelm (some elm)
  m.setPrev elm (.next listelm)

/-- `TAILQ_INSERT_BEFORE`. -/
def tailqInsertBefore (listelm elm : π) : Option (TqMem ι π ν) := do
  let l ← m.elems listelm
  let m ← m.setPrev elm l.prev
  let m ← m.setNext elm (some listelm)
  let m ← m.store l.prev (some elm)
  m.setPrev listelm (.next elm)

/-- `TAILQ_REMOVE`. -/
def tailqRemove (head : ι) (elm : π) : Option (TqMem ι π ν) := do
  let e ← m.elems elm
  let m ← m.linkBack head e.next e.prev
  let e ← m.elems elm
  m.store e.prev e.next

/-- `TAILQ_CONCAT`. -/
def tailqConcat (head₁ head₂ : ι) : Option (TqMem ι π ν) := do
  let h₂ ← m.heads head₂
  match h₂.tqhFirst with
  | none => return m
  | some first =>
      let h₁ ← m.heads head₁
      let m ← m.store h₁.tqhLast (some first)
      let m ← m.setPrev first h₁.tqhLast
      let m ← m.setLast head₁ h₂.tqhLast
      return m.tailqInit head₂

omit [DecidableEq ι] [DecidableEq π]

/-- `TAILQ_FIRST`. -/
def tailqFirst (head : ι) : Option (Option π) := (m.heads head).map TqHead.tqhFirst

/-- `TAILQ_EMPTY`. -/
def tailqEmpty (head : ι) : Option Bool := (m.tailqFirst head).map Option.isNone

/-- `TAILQ_NEXT`. -/
def tailqNext (elm : π) : Option (Option π) := (m.elems elm).map Cell.next

/-- `TAILQ_LAST`. -/
def tailqLast (head : ι) : Option (Option π) := do
  let h ← m.heads head
  let s ← m.lastOf h.tqhLast
  m.load s

/-- `TAILQ_PREV`. -/
def tailqPrev (elm : π) : Option (Option π) := do
  let e ← m.elems elm
  let s ← m.lastOf e.prev
  m.load s

/-- A loop from `var` that goes on to `step var`. -/
def forLoop (step : π → Option (Option π)) : ℕ → Option π → Option (List π)
  | 0, _ => none
  | fuel + 1, var =>
      match var with
      | none => some []
      | some elm => do
          let next ← step elm
          let rest ← forLoop step fuel next
          return elm :: rest

/-- `TAILQ_FOREACH`. -/
def tailqForeach (fuel : ℕ) (head : ι) : Option (List π) := do
  let var ← m.tailqFirst head
  forLoop m.tailqNext fuel var

/-- `TAILQ_FOREACH_REVERSE`. -/
def tailqForeachReverse (fuel : ℕ) (head : ι) : Option (List π) := do
  let var ← m.tailqLast head
  forLoop m.tailqPrev fuel var

end TqMem

end CLibrary
