import CLibrary.Library.Linked
import CLibrary.Library.Unsigned

/-!
`list.h`, `list.c`, `list_node.c`, `list_iterator.c`: lists of nodes that the
caller allocates.

* `ListT`, `ListIterator`, `ListMem`: the structures, and the memory they are
  in.  A node is a `Cell` that refers to its neighbours by their addresses.
* The functions, under the names of the source.  What `malloc` returns is an
  argument, `none` for `NULL`; a function has no result where the code would
  follow a null pointer or one to what has been freed.
* The `while` loop of `list_find` runs on fuel, the others count.
-/

namespace CLibrary

variable {π φ ν : Type}

/-- `list_direction_t`. -/
inductive Direction
  | head | tail
  deriving DecidableEq, Repr

/-- `list_t`; `matchVal` is its member `match`. -/
structure ListT (π φ ν : Type) where
  head : Option π
  tail : Option π
  len : ℕ
  free : Option φ
  matchVal : Option (ν → ν → Bool)

/-- `list_iterator_t`. -/
structure ListIterator (π : Type) where
  next : Option π
  direction : Direction

/-- The nodes, lists and iterators that are allocated, and the calls made to the
functions that free values. -/
structure ListMem (π φ ν : Type) where
  nodes : Cells π (Option π) ν
  lists : π → Option (ListT π φ ν)
  iters : π → Option (ListIterator π)
  freed : List (φ × ν)

/-- `if (self->free) self->free(val)`. -/
def callFree (free : Option φ) (val : ν) (freed : List (φ × ν)) : List (φ × ν) :=
  match free with
  | some f => freed ++ [(f, val)]
  | none => freed

/-- The test of `list_find`. -/
def isMatch [DecidableEq ν] (matchVal : Option (ν → ν → Bool)) (val nodeVal : ν) : Bool :=
  match matchVal with
  | some f => f val nodeVal
  | none => decide (val = nodeVal)

namespace ListMem

/-- Nothing is allocated. -/
def start : ListMem π φ ν := ⟨fun _ => none, fun _ => none, fun _ => none, []⟩

variable [DecidableEq π] (m : ListMem π φ ν)

/-- `list_new`. -/
def listNew (malloc : Option π) : Option π × ListMem π φ ν :=
  match malloc with
  | none => (none, m)
  | some self =>
      (some self,
        { m with lists := Function.update m.lists self (some ⟨none, none, 0, none, none⟩) })

/-- `list_node_new`. -/
def listNodeNew (val : ν) (malloc : Option π) : Option π × ListMem π φ ν :=
  match malloc with
  | none => (none, m)
  | some self =>
      (some self, { m with nodes := Function.update m.nodes self (some ⟨none, none, val⟩) })

/-- The stores that a function makes to nodes and to `*self`. -/
def stored (nodes : Cells π (Option π) ν) (self : π) (l : ListT π φ ν) : ListMem π φ ν :=
  { m with nodes := nodes, lists := Function.update m.lists self (some l) }

/-- `list_rpush`. -/
def listRpush (self : π) (node : Option π) : Option (Option π × ListMem π φ ν) :=
  match node with
  | none => some (none, m)
  | some p => do
      let l ← m.lists self
      if l.len ≠ 0 then
        let nodes ← m.nodes.setPrev p l.tail
        let nodes ← nodes.setNext p none
        let tail ← l.tail
        let nodes ← nodes.setNext tail (some p)
        return (some p, m.stored nodes self { l with tail := some p, len := uadd 32 l.len 1 })
      else
        let nodes ← m.nodes.setNext p none
        let nodes ← nodes.setPrev p none
        return (some p,
          m.stored nodes self { l with head := some p, tail := some p, len := uadd 32 l.len 1 })

/-- `list_lpush`. -/
def listLpush (self : π) (node : Option π) : Option (Option π × ListMem π φ ν) :=
  match node with
  | none => some (none, m)
  | some p => do
      let l ← m.lists self
      if l.len ≠ 0 then
        let nodes ← m.nodes.setNext p l.head
        let nodes ← nodes.setPrev p none
        let head ← l.head
        let nodes ← nodes.setPrev head (some p)
        return (some p, m.stored nodes self { l with head := some p, len := uadd 32 l.len 1 })
      else
        let nodes ← m.nodes.setNext p none
        let nodes ← nodes.setPrev p none
        return (some p,
          m.stored nodes self { l with head := some p, tail := some p, len := uadd 32 l.len 1 })

/-- `list_rpop`. -/
def listRpop (self : π) : Option (Option π × ListMem π φ ν) := do
  let l ← m.lists self
  if l.len = 0 then return (none, m)
  let node ← l.tail
  let len := usub 32 l.len 1
  if len ≠ 0 then
    let c ← m.nodes node
    let tail ← c.prev
    let nodes ← m.nodes.setNext tail none
    let nodes ← nodes.setPrev node none
    let nodes ← nodes.setNext node none
    return (some node, m.stored nodes self { l with tail := some tail, len := len })
  else
    let nodes ← m.nodes.setPrev node none
    let nodes ← nodes.setNext node none
    return (some node, m.stored nodes self { l with head := none, tail := none, len := len })

/-- `list_lpop`. -/
def listLpop (self : π) : Option (Option π × ListMem π φ ν) := do
  let l ← m.lists self
  if l.len = 0 then return (none, m)
  let node ← l.head
  let len := usub 32 l.len 1
  if len ≠ 0 then
    let c ← m.nodes node
    let head ← c.next
    let nodes ← m.nodes.setPrev head none
    let nodes ← nodes.setPrev node none
    let nodes ← nodes.setNext node none
    return (some node, m.stored nodes self { l with head := some head, len := len })
  else
    let nodes ← m.nodes.setPrev node none
    let nodes ← nodes.setNext node none
    return (some node, m.stored nodes self { l with head := none, tail := none, len := len })

/-- `prev ? (prev->next = next) : (self->head = next)`. -/
def storeNext (nodes : Cells π (Option π) ν) (l : ListT π φ ν) (prev next : Option π) :
    Option (Cells π (Option π) ν × ListT π φ ν) :=
  match prev with
  | some p => (nodes.setNext p next).map fun nodes => (nodes, l)
  | none => some (nodes, { l with head := next })

/-- `next ? (next->prev = prev) : (self->tail = prev)`. -/
def storePrev (nodes : Cells π (Option π) ν) (l : ListT π φ ν) (next prev : Option π) :
    Option (Cells π (Option π) ν × ListT π φ ν) :=
  match next with
  | some p => (nodes.setPrev p prev).map fun nodes => (nodes, l)
  | none => some (nodes, { l with tail := prev })

/-- `list_remove`. -/
def listRemove (self node : π) : Option (ListMem π φ ν) := do
  let l ← m.lists self
  let c ← m.nodes node
  let (nodes, l) ← storeNext m.nodes l c.prev c.next
  let c ← nodes node
  let (nodes, l) ← storePrev nodes l c.next c.prev
  let c ← nodes node
  let nodes ← nodes.free node
  return { m.stored nodes self { l with len := usub 32 l.len 1 } with
    freed := callFree l.free c.val m.freed }

/-- The loop of `list_destroy`. -/
def destroyLoop (free : Option φ) : ℕ → Option π → ListMem π φ ν → Option (ListMem π φ ν)
  | 0, _, m => some m
  | len + 1, curr, m => do
      let curr ← curr
      let c ← m.nodes curr
      let nodes ← m.nodes.free curr
      destroyLoop free len c.next { m with nodes := nodes, freed := callFree free c.val m.freed }

/-- `list_destroy`. -/
def listDestroy (self : π) : Option (ListMem π φ ν) := do
  let l ← m.lists self
  let m ← destroyLoop l.free l.len l.head m
  return { m with lists := Function.update m.lists self none }

/-! ### Iterators -/

/-- `list_iterator_new_from_node`. -/
def listIteratorNewFromNode (node : Option π) (direction : Direction) (malloc : Option π) :
    Option π × ListMem π φ ν :=
  match malloc with
  | none => (none, m)
  | some self =>
      (some self, { m with iters := Function.update m.iters self (some ⟨node, direction⟩) })

/-- `list_iterator_new`. -/
def listIteratorNew (list : π) (direction : Direction) (malloc : Option π) :
    Option (Option π × ListMem π φ ν) := do
  let l ← m.lists list
  let node := match direction with
    | .head => l.head
    | .tail => l.tail
  return m.listIteratorNewFromNode node direction malloc

/-- `list_iterator_next`. -/
def listIteratorNext (self : π) : Option (Option π × ListMem π φ ν) := do
  let it ← m.iters self
  match it.next with
  | none => return (none, m)
  | some curr =>
      let c ← m.nodes curr
      let next := match it.direction with
        | .head => c.next
        | .tail => c.prev
      return (some curr,
        { m with iters := Function.update m.iters self (some { it with next := next }) })

/-- `list_iterator_destroy`. -/
def listIteratorDestroy (self : Option π) : Option (ListMem π φ ν) :=
  match self with
  | none => some m
  | some it => (m.iters it).map fun _ => { m with iters := Function.update m.iters it none }

/-- The loop of `list_find` with its test. -/
def findLoop (test : ν → Bool) (it : π) : ℕ → ListMem π φ ν → Option (Option π × ListMem π φ ν)
  | 0, _ => none
  | fuel + 1, m => do
      let (node, m) ← m.listIteratorNext it
      match node with
      | none => (m.listIteratorDestroy (some it)).map fun m => (none, m)
      | some p =>
          let c ← m.nodes p
          if test c.val then (m.listIteratorDestroy (some it)).map fun m => (some p, m)
          else findLoop test it fuel m

/-- `list_find`. -/
def listFind [DecidableEq ν] (fuel : ℕ) (self : π) (val : ν) (malloc : Option π) :
    Option (Option π × ListMem π φ ν) := do
  let (it, m) ← m.listIteratorNew self .head malloc
  let it ← it
  let l ← m.lists self
  findLoop (isMatch l.matchVal val) it fuel m

/-- The loop of `list_at`, with the node it begins with. -/
def atLoop (it : π) : ℕ → Option π → ListMem π φ ν → Option (Option π × ListMem π φ ν)
  | 0, node, m => some (node, m)
  | index + 1, _, m => do
      let (node, m) ← m.listIteratorNext it
      atLoop it index node m

/-- `list_at`. -/
def listAt (self : π) (index : ℤ) (malloc : Option π) : Option (Option π × ListMem π φ ν) := do
  let direction : Direction := if index < 0 then .tail else .head
  let index : ℕ := (if index < 0 then -index - 1 else index).toNat
  let l ← m.lists self
  if index < l.len then
    let (it, m) ← m.listIteratorNew self direction malloc
    let it ← it
    let (node, m) ← m.listIteratorNext it
    let (node, m) ← atLoop it index node m
    let m ← m.listIteratorDestroy (some it)
    return (node, m)
  else return (none, m)

end ListMem

end CLibrary
