import CLibrary.Library.Runs
import CLibrary.LinkedList.Basic

/-!
What the lists of `list.h` are for: sequences of nodes.

* `Sequences`: the sequence of every list, the value of every node, and the list
  it is in, its `home`.
* `ListOp`, `Sequences.step`: the calls, and what they mean for sequences.
  `ListMem.step` makes them.
* `Sequences.Admits`: what a caller owes: a pointer that it passes is one to what is
  allocated, a node that it pushes is in no list, a node that it removes is in the
  list it names, a list stays shorter than 2^32, and the iterator that `list_find`
  and `list_at` walk with can be allocated.
-/

namespace CLibrary

variable {π φ ν : Type}

/-- The calls of the interface; what `malloc` returns is part of a call.
`configure` stores to the members `free` and `match`, and `freeNode` frees a node
that is in no list. -/
inductive ListOp (π φ ν : Type)
  | new (malloc : Option π)
  | nodeNew (val : ν) (malloc : Option π)
  | configure (self : π) (free : Option φ) (matchVal : Option (ν → ν → Bool))
  | rpush (self : π) (node : Option π)
  | lpush (self : π) (node : Option π)
  | rpop (self : π)
  | lpop (self : π)
  | remove (self node : π)
  | freeNode (node : π)
  | find (self : π) (val : ν) (malloc : Option π)
  | atIndex (self : π) (index : ℤ) (malloc : Option π)
  | destroy (self : π)
  | iteratorNew (self : π) (direction : Direction) (malloc : Option π)
  | iteratorNewFromNode (node : Option π) (direction : Direction) (malloc : Option π)
  | iteratorNext (self : π)
  | iteratorDestroy (self : Option π)

/-- A list as a sequence of nodes, with its members `free` and `match`. -/
structure Sequence (π φ ν : Type) where
  seq : List π
  free : Option φ
  matchVal : Option (ν → ν → Bool)

/-- The lists, the value of every node, the list a node is in, the iterators with
the node each is in front of, and the values freed. -/
structure Sequences (π φ ν : Type) where
  lists : π → Option (Sequence π φ ν)
  val : π → Option ν
  home : π → Option π
  iters : π → Option (ListIterator π)
  freed : List (φ × ν)

namespace Sequences

/-- Nothing is allocated. -/
def start : Sequences π φ ν :=
  ⟨fun _ => none, fun _ => none, fun _ => none, fun _ => none, []⟩

/-- The position that `list_at` counts to, from either end. -/
def nth (q : List π) (index : ℤ) : Option π :=
  if index < 0 then q.reverse[(-index - 1).toNat]? else q[index.toNat]?

variable [DecidableEq π] (a : Sequences π φ ν)

/-- The node a node is followed by, in the list it is in. -/
def neighbour (direction : Direction) (p : π) : Option π := do
  let L ← a.lists (← a.home p)
  match direction with
  | .head => after L.seq p
  | .tail => after L.seq.reverse p

/-- List `l` with another sequence, and other homes. -/
def put (l : π) (L : Sequence π φ ν) (q : List π) (home : π → Option π) : Sequences π φ ν :=
  { a with lists := Function.update a.lists l (some { L with seq := q }), home := home }

/-- What a call means. -/
def step [DecidableEq ν] : ListOp π φ ν → Option (Option π × Sequences π φ ν)
  | .new malloc => some (malloc, malloc.elim a fun l =>
      { a with lists := Function.update a.lists l (some ⟨[], none, none⟩) })
  | .nodeNew val malloc => some (malloc, malloc.elim a fun p =>
      { a with val := Function.update a.val p (some val) })
  | .configure self free matchVal => do
      let L ← a.lists self
      return (none, { a with
        lists := Function.update a.lists self (some ⟨L.seq, free, matchVal⟩) })
  | .rpush self node => node.elim (some (none, a)) fun p => do
      let L ← a.lists self
      return (some p, a.put self L (L.seq ++ [p]) (Function.update a.home p (some self)))
  | .lpush self node => node.elim (some (none, a)) fun p => do
      let L ← a.lists self
      return (some p, a.put self L (p :: L.seq) (Function.update a.home p (some self)))
  | .rpop self => do
      let L ← a.lists self
      return (L.seq.getLast?, L.seq.getLast?.elim a fun p =>
        a.put self L L.seq.dropLast (Function.update a.home p none))
  | .lpop self => do
      let L ← a.lists self
      return (L.seq.head?, L.seq.head?.elim a fun p =>
        a.put self L L.seq.tail (Function.update a.home p none))
  | .remove self node => do
      let L ← a.lists self
      let val ← a.val node
      return (none, { a.put self L (L.seq.erase node) (Function.update a.home node none) with
        val := Function.update a.val node none, freed := callFree L.free val a.freed })
  | .freeNode node => do
      let _ ← a.val node
      return (none, { a with val := Function.update a.val node none })
  | .find self val _ => do
      let L ← a.lists self
      return (L.seq.find? fun p => (a.val p).elim false (isMatch L.matchVal val), a)
  | .atIndex self index _ => do
      let L ← a.lists self
      return (nth L.seq index, a)
  | .destroy self => do
      let L ← a.lists self
      return (none, { a with
        lists := Function.update a.lists self none
        val := fun p => if p ∈ L.seq then none else a.val p
        home := fun p => if a.home p = some self then none else a.home p
        freed :=
          (L.seq.filterMap a.val).foldl (fun freed val => callFree L.free val freed) a.freed })
  | .iteratorNew self direction malloc => do
      let L ← a.lists self
      let node := match direction with
        | .head => L.seq.head?
        | .tail => L.seq.getLast?
      return (malloc, malloc.elim a fun it =>
        { a with iters := Function.update a.iters it (some ⟨node, direction⟩) })
  | .iteratorNewFromNode node direction malloc => some (malloc, malloc.elim a fun it =>
      { a with iters := Function.update a.iters it (some ⟨node, direction⟩) })
  | .iteratorNext self => do
      let it ← a.iters self
      return (it.next, it.next.elim a fun p =>
        { a with
          iters := Function.update a.iters self (some ⟨a.neighbour it.direction p, it.direction⟩) })
  | .iteratorDestroy self => some (none, self.elim a fun it =>
      { a with iters := Function.update a.iters it none })

/-- What the caller owes: lists, nodes and iterators that are there and no node in two
lists, and that `malloc` returns what is not allocated.  In `list_find`, and in
`list_at` where it finds a node, it must not fail: they use their iterator untested. -/
def Admits : ListOp π φ ν → Prop
  | .new malloc => ∀ l ∈ malloc, a.lists l = none
  | .nodeNew _ malloc => ∀ p ∈ malloc, a.val p = none
  | .configure self _ _ | .rpop self | .lpop self | .destroy self => (a.lists self).isSome = true
  | .rpush self node | .lpush self node => ∀ p ∈ node,
      (a.val p).isSome = true ∧ a.home p = none ∧
        ∃ L ∈ a.lists self, L.seq.length + 1 < 2 ^ 32
  | .remove self node => a.home node = some self
  | .freeNode node => (a.val node).isSome = true ∧ a.home node = none
  | .find self _ malloc => (a.lists self).isSome = true ∧
      malloc.isSome = true ∧ ∀ it ∈ malloc, a.iters it = none
  | .atIndex self index malloc => ∃ L ∈ a.lists self, (nth L.seq index).isSome = true →
      malloc.isSome = true ∧ ∀ it ∈ malloc, a.iters it = none
  | .iteratorNew self _ malloc => (a.lists self).isSome = true ∧ ∀ it ∈ malloc, a.iters it = none
  | .iteratorNewFromNode _ _ malloc => ∀ it ∈ malloc, a.iters it = none
  | .iteratorNext self => ∃ it ∈ a.iters self, ∀ p ∈ it.next, (a.val p).isSome = true
  | .iteratorDestroy self => ∀ it ∈ self, (a.iters it).isSome = true

instance : ∀ op, Decidable (a.Admits op)
  | .new malloc => inferInstanceAs (Decidable (∀ l ∈ malloc, a.lists l = none))
  | .nodeNew _ malloc => inferInstanceAs (Decidable (∀ p ∈ malloc, a.val p = none))
  | .configure self _ _ | .rpop self | .lpop self | .destroy self =>
      inferInstanceAs (Decidable ((a.lists self).isSome = true))
  | .rpush self node | .lpush self node => inferInstanceAs (Decidable (∀ p ∈ node,
      (a.val p).isSome = true ∧ a.home p = none ∧
        ∃ L ∈ a.lists self, L.seq.length + 1 < 2 ^ 32))
  | .remove self node => inferInstanceAs (Decidable (a.home node = some self))
  | .freeNode node => inferInstanceAs (Decidable ((a.val node).isSome = true ∧ a.home node = none))
  | .find self _ malloc => inferInstanceAs (Decidable ((a.lists self).isSome = true ∧
      malloc.isSome = true ∧ ∀ it ∈ malloc, a.iters it = none))
  | .atIndex self index malloc => inferInstanceAs (Decidable (∃ L ∈ a.lists self,
      (nth L.seq index).isSome = true → malloc.isSome = true ∧ ∀ it ∈ malloc, a.iters it = none))
  | .iteratorNew self _ malloc => inferInstanceAs (Decidable
      ((a.lists self).isSome = true ∧ ∀ it ∈ malloc, a.iters it = none))
  | .iteratorNewFromNode _ _ malloc =>
      inferInstanceAs (Decidable (∀ it ∈ malloc, a.iters it = none))
  | .iteratorNext self =>
      inferInstanceAs (Decidable (∃ it ∈ a.iters self, ∀ p ∈ it.next, (a.val p).isSome = true))
  | .iteratorDestroy self => inferInstanceAs (Decidable (∀ it ∈ self, (a.iters it).isSome = true))

end Sequences

namespace ListMem

variable [DecidableEq π] [DecidableEq ν] (m : ListMem π φ ν)

/-- A call. -/
def step (fuel : ℕ) : ListOp π φ ν → Option (Option π × ListMem π φ ν)
  | .new malloc => some (m.listNew malloc)
  | .nodeNew val malloc => some (m.listNodeNew val malloc)
  | .configure self free matchVal => do
      let l ← m.lists self
      return (none, { m with
        lists :=
          Function.update m.lists self (some { l with free := free, matchVal := matchVal }) })
  | .rpush self node => m.listRpush self node
  | .lpush self node => m.listLpush self node
  | .rpop self => m.listRpop self
  | .lpop self => m.listLpop self
  | .remove self node => (m.listRemove self node).map fun m => (none, m)
  | .freeNode node => (m.nodes.free node).map fun nodes => (none, { m with nodes := nodes })
  | .find self val malloc => m.listFind fuel self val malloc
  | .atIndex self index malloc => m.listAt self index malloc
  | .destroy self => (m.listDestroy self).map fun m => (none, m)
  | .iteratorNew self direction malloc => m.listIteratorNew self direction malloc
  | .iteratorNewFromNode node direction malloc =>
      some (m.listIteratorNewFromNode node direction malloc)
  | .iteratorNext self => m.listIteratorNext self
  | .iteratorDestroy self => (m.listIteratorDestroy self).map fun m => (none, m)

end ListMem

end CLibrary
