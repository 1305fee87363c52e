import Mathlib.Logic.Function.Basic
import Mathlib.Data.List.Basic

/-!
Memory behind store buffers.

Every processor has a buffer of stores, oldest first.  A load finds the latest store
to its address in the processor's own buffer, else the memory; a locked exchange
waits for the buffer to be empty; the buffers drain at any time.

* `Buffered`: `load`, `store`, `flush`, `exchange`.
* `Buffered.Always`: what holds of all that is stored to an address holds of what is
  there and of what is loaded from it.
* `Serial guarded m o data`: to the addresses in `guarded` only the owner `o` has
  stores under way, and what it sees there is `data`.
* `Serial.load`, `store`, `flush`, `acquire`, `release`: what an access does to it.
  `Serial.store_other`, `exchange` are the accesses elsewhere.
* `MemAccess.step`: a memory without buffers.
* `Locked`: a test-and-set lock, where releasing it is a plain store.  The lock is
  owned until that store drains.  `Locked.exchange_busy`, `exchange_free`, `unlock`,
  `store`, `flush`: what an access does to it.
-/

namespace CLibrary

variable {P A V : Type*} [DecidableEq A]

/-- The memory after some stores. -/
def drain (mem : A → V) (l : List (A × V)) : A → V :=
  l.foldl (fun m s => Function.update m s.1 s.2) mem

@[simp] lemma drain_nil (mem : A → V) : drain mem [] = mem := rfl

@[simp] lemma drain_cons (mem : A → V) (s : A × V) (l : List (A × V)) :
    drain mem (s :: l) = drain (Function.update mem s.1 s.2) l := rfl

lemma drain_append (mem : A → V) (l l' : List (A × V)) :
    drain mem (l ++ l') = drain (drain mem l) l' := List.foldl_append

/-- The stores to other addresses are not seen. -/
lemma drain_of_not_mem {l : List (A × V)} {a : A} (mem : A → V) (h : ∀ s ∈ l, s.1 ≠ a) :
    drain mem l a = mem a := by
  induction l generalizing mem with
  | nil => rfl
  | cons s l ih =>
    rw [drain_cons, ih _ fun t ht => h t (List.mem_cons_of_mem s ht),
      Function.update_of_ne (h s List.mem_cons_self).symm]

/-- What is seen at an address depends on the memory there only. -/
lemma drain_congr {l : List (A × V)} {a : A} {mem mem' : A → V} (h : mem a = mem' a) :
    drain mem l a = drain mem' l a := by
  induction l generalizing mem mem' with
  | nil => exact h
  | cons s l ih =>
    refine ih ?_
    simp only
    rcases eq_or_ne a s.1 with rfl | hne
    · rw [Function.update_self, Function.update_self]
    · rw [Function.update_of_ne hne, Function.update_of_ne hne, h]

/-- What is seen at an address was there before or is among the stores. -/
lemma drain_induction {Q : V → Prop} {l : List (A × V)} {a : A} {mem : A → V} (hmem : Q (mem a))
    (hl : ∀ s ∈ l, s.1 = a → Q s.2) : Q (drain mem l a) := by
  induction l generalizing mem with
  | nil => exact hmem
  | cons s l ih =>
    refine ih ?_ fun t ht => hl t (List.mem_cons_of_mem s ht)
    simp only
    rcases eq_or_ne a s.1 with rfl | hne
    · rw [Function.update_self]
      exact hl s List.mem_cons_self rfl
    · rw [Function.update_of_ne hne]
      exact hmem

/-- Memory, and the stores of every processor that have not reached it. -/
structure Buffered (P A V : Type*) where
  mem : A → V
  buf : P → List (A × V)

namespace Buffered

/-- Nothing is under way. -/
def start (mem : A → V) : Buffered P A V := ⟨mem, fun _ => []⟩

def load (m : Buffered P A V) (p : P) (a : A) : V := drain m.mem (m.buf p) a

/-- A locked exchange returns what was there. -/
def exchange (m : Buffered P A V) (p : P) (a : A) (v : V) : Option (V × Buffered P A V) :=
  match m.buf p with
  | [] => some (m.mem a, { m with mem := Function.update m.mem a v })
  | _ :: _ => none

variable [DecidableEq P]

def store (m : Buffered P A V) (p : P) (a : A) (v : V) : Buffered P A V :=
  { m with buf := Function.update m.buf p (m.buf p ++ [(a, v)]) }

/-- The oldest store of a buffer reaches the memory. -/
def flush (m : Buffered P A V) (p : P) : Option (Buffered P A V) :=
  match m.buf p with
  | [] => none
  | s :: l => some ⟨Function.update m.mem s.1 s.2, Function.update m.buf p l⟩

variable {m m' : Buffered P A V} {p q : P} {a b : A} {v w : V}

omit [DecidableEq A] in
@[simp] lemma store_mem : (m.store p a v).mem = m.mem := rfl

omit [DecidableEq A] in
lemma store_buf_self : (m.store p a v).buf p = m.buf p ++ [(a, v)] := Function.update_self ..

omit [DecidableEq A] in
lemma store_buf_of_ne (h : q ≠ p) : (m.store p a v).buf q = m.buf q := Function.update_of_ne h ..

lemma load_store_self : (m.store p a v).load p = Function.update (m.load p) a v := by
  funext b
  rw [load, store_buf_self, drain_append]
  rfl

lemma load_store_of_ne (h : q ≠ p) : (m.store p a v).load q = m.load q := by
  funext b
  rw [load, store_buf_of_ne h, store_mem, load]

lemma flush_eq_some : m.flush p = some m' ↔ ∃ s l, m.buf p = s :: l ∧
    m' = ⟨Function.update m.mem s.1 s.2, Function.update m.buf p l⟩ := by
  rw [flush]
  constructor
  · intro h
    split at h
    · cases h
    · next s l hl => exact ⟨s, l, hl, (Option.some.inj h).symm⟩
  · rintro ⟨s, l, hl, rfl⟩
    rw [hl]

omit [DecidableEq P] in
lemma exchange_eq_some : m.exchange p a v = some (w, m') ↔ m.buf p = [] ∧ w = m.mem a ∧
    m' = { m with mem := Function.update m.mem a v } := by
  rw [exchange]
  constructor
  · intro h
    split at h
    · next hl =>
      obtain ⟨rfl, rfl⟩ := Prod.mk.inj (Option.some.inj h)
      exact ⟨hl, rfl, rfl⟩
    · cases h
  · rintro ⟨hl, rfl, rfl⟩
    rw [hl]

/-- What is at `a`, and every store to it that is under way, satisfies `Q`. -/
structure Always (m : Buffered P A V) (a : A) (Q : V → Prop) : Prop where
  mem : Q (m.mem a)
  buf : ∀ p, ∀ s ∈ m.buf p, s.1 = a → Q s.2

namespace Always

variable {Q : V → Prop}

omit [DecidableEq A] [DecidableEq P] in
lemma start {mem : A → V} (h : Q (mem a)) : (Buffered.start mem : Buffered P A V).Always a Q :=
  ⟨h, fun _ _ hs => absurd hs List.not_mem_nil⟩

omit [DecidableEq P] in
/-- So does what anybody loads. -/
lemma load (h : m.Always a Q) (p : P) : Q (m.load p a) := drain_induction h.mem (h.buf p)

omit [DecidableEq A] in
lemma store (h : m.Always a Q) (hv : b = a → Q v) : (m.store p b v).Always a Q := by
  refine ⟨h.mem, fun q s hs heq => ?_⟩
  rcases eq_or_ne q p with rfl | hne
  · rw [store_buf_self] at hs
    rcases List.mem_append.mp hs with hs | hs
    · exact h.buf q s hs heq
    · obtain rfl := List.mem_singleton.mp hs
      exact hv heq
  · rw [store_buf_of_ne hne] at hs
    exact h.buf q s hs heq

lemma flush (h : m.Always a Q) (hm : m.flush p = some m') : m'.Always a Q := by
  obtain ⟨s, l, hl, rfl⟩ := flush_eq_some.mp hm
  have hall := h.buf p
  rw [hl] at hall
  refine ⟨drain_induction (l := [s]) h.mem fun t ht => ?_, fun q t ht heq => ?_⟩
  · rw [List.mem_singleton.mp ht]
    exact hall s List.mem_cons_self
  · simp only at ht
    rcases eq_or_ne q p with rfl | hne
    · rw [Function.update_self] at ht
      exact hall t (List.mem_cons_of_mem s ht) heq
    · rw [Function.update_of_ne hne] at ht
      exact h.buf q t ht heq

omit [DecidableEq P] in
lemma exchange (h : m.Always a Q) (hne : b ≠ a) (hm : m.exchange p b v = some (w, m')) :
    m'.Always a Q := by
  obtain ⟨-, -, rfl⟩ := exchange_eq_some.mp hm
  refine ⟨?_, h.buf⟩
  simp only
  rw [Function.update_of_ne hne.symm]
  exact h.mem

end Always

end Buffered

/-- To the guarded addresses only the owner has stores under way, and what it sees
there, or everybody where there is none, is `data`. -/
structure Serial (guarded : A → Prop) (m : Buffered P A V) (o : Option P) (data : A → V) :
    Prop where
  others : ∀ p, o ≠ some p → ∀ s ∈ m.buf p, ¬ guarded s.1
  seen : ∀ a, guarded a → data a = match o with
    | none => m.mem a
    | some p => m.load p a

namespace Serial

variable {guarded : A → Prop} {m m' : Buffered P A V} {o : Option P} {data : A → V} {p : P}
  {a : A} {v w : V}

lemma start (guarded : A → Prop) (mem : A → V) :
    Serial guarded (Buffered.start mem : Buffered P A V) none mem :=
  ⟨fun _ _ _ hs => absurd hs List.not_mem_nil, fun _ _ => rfl⟩

/-- The owner reads the data. -/
lemma load (h : Serial guarded m (some p) data) (ha : guarded a) : m.load p a = data a :=
  (h.seen a ha).symm

/-- The owner's store is to the data. -/
lemma store [DecidableEq P] (h : Serial guarded m (some p) data) :
    Serial guarded (m.store p a v) (some p) (Function.update data a v) := by
  refine ⟨fun q hq s hs => ?_, fun b hb => ?_⟩
  · have hne : q ≠ p := fun heq => hq (by rw [heq])
    rw [Buffered.store_buf_of_ne hne] at hs
    exact h.others q hq s hs
  · simp only
    rw [Buffered.load_store_self]
    rcases eq_or_ne b a with rfl | hne
    · rw [Function.update_self, Function.update_self]
    · rw [Function.update_of_ne hne, Function.update_of_ne hne]
      exact h.seen b hb

/-- A store elsewhere is not seen. -/
lemma store_other [DecidableEq P] (h : Serial guarded m o data) (ha : ¬ guarded a) :
    Serial guarded (m.store p a v) o data := by
  refine ⟨fun q hq s hs => ?_, fun b hb => ?_⟩
  · rcases eq_or_ne q p with rfl | hne
    · rw [Buffered.store_buf_self] at hs
      rcases List.mem_append.mp hs with hs | hs
      · exact h.others q hq s hs
      · rw [List.mem_singleton.mp hs]
        exact ha
    · rw [Buffered.store_buf_of_ne hne] at hs
      exact h.others q hq s hs
  · rw [h.seen b hb]
    cases o with
    | none => rfl
    | some q =>
      simp only
      rcases eq_or_ne q p with rfl | hne
      · rw [Buffered.load_store_self, Function.update_of_ne]
        rintro rfl
        exact ha hb
      · rw [Buffered.load_store_of_ne hne]

/-- What drains was seen by the owner, or is elsewhere. -/
lemma flush [DecidableEq P] (h : Serial guarded m o data) (hm : m.flush p = some m') :
    Serial guarded m' o data := by
  obtain ⟨s, l, hl, rfl⟩ := Buffered.flush_eq_some.mp hm
  refine ⟨fun q hq t ht => ?_, fun b hb => ?_⟩
  · simp only at ht
    rcases eq_or_ne q p with rfl | hne
    · rw [Function.update_self] at ht
      exact h.others q hq t (by rw [hl]; exact List.mem_cons_of_mem s ht)
    · rw [Function.update_of_ne hne] at ht
      exact h.others q hq t ht
  · have helse : o ≠ some p → Function.update m.mem s.1 s.2 b = m.mem b := by
      refine fun hp => Function.update_of_ne ?_ ..
      rintro rfl
      exact h.others p hp s (by rw [hl]; exact List.mem_cons_self) hb
    rw [h.seen b hb]
    cases o with
    | none => exact (helse (Option.some_ne_none p).symm).symm
    | some q =>
      simp only [Buffered.load]
      rcases eq_or_ne q p with rfl | hne
      · rw [hl, Function.update_self, drain_cons]
      · rw [Function.update_of_ne hne]
        exact drain_congr (helse fun heq => hne (Option.some.inj heq)).symm

/-- An exchange elsewhere changes no data. -/
lemma exchange (h : Serial guarded m o data) (ha : ¬ guarded a)
    (hm : m.exchange p a v = some (w, m')) : Serial guarded m' o data := by
  obtain ⟨-, -, rfl⟩ := Buffered.exchange_eq_some.mp hm
  refine ⟨h.others, fun b hb => ?_⟩
  have hne : b ≠ a := by
    rintro rfl
    exact ha hb
  rw [h.seen b hb]
  cases o with
  | none => exact (Function.update_of_ne hne ..).symm
  | some q => exact drain_congr (Function.update_of_ne hne ..).symm

/-- Where nothing is owned, a processor with an empty buffer can take it. -/
lemma acquire (h : Serial guarded m none data) (hp : m.buf p = []) :
    Serial guarded m (some p) data := by
  refine ⟨fun q _ => h.others q (Option.some_ne_none q).symm, fun a ha => ?_⟩
  simp only [Buffered.load]
  rw [hp]
  exact h.seen a ha

/-- An owner whose stores have all drained can give it up. -/
lemma release (h : Serial guarded m (some p) data) (hp : ∀ s ∈ m.buf p, ¬ guarded s.1) :
    Serial guarded m none data := by
  refine ⟨fun q _ => ?_, fun a ha => ?_⟩
  · rcases eq_or_ne p q with rfl | hne
    · exact hp
    · exact h.others q fun heq => hne (Option.some.inj heq)
  · rw [h.seen a ha]
    refine drain_of_not_mem m.mem fun s hs heq => hp s hs ?_
    rw [heq]
    exact ha

end Serial

/-- A load and what it found, or a store. -/
inductive MemAccess (A V : Type*)
  | loaded (a : A) (v : V)
  | stored (a : A) (v : V)
  deriving DecidableEq

/-- An access to a memory without buffers, where a load finds what is there. -/
def MemAccess.step [DecidableEq V] (data : A → V) : MemAccess A V → Option (A → V)
  | .loaded a v => if data a = v then some data else none
  | .stored a v => some (Function.update data a v)

/-! ### Test-and-set locks -/

/-- A buffer with the store that releases a lock, and nothing behind it that the lock
guards. -/
def Leaving (lock : A) (free : V) (guarded : A → Prop) (l : List (A × V)) : Prop :=
  ∃ l₁ l₂, l = l₁ ++ (lock, free) :: l₂ ∧ (∀ x ∈ l₁, x.1 ≠ lock) ∧
    ∀ x ∈ l₂, x.1 ≠ lock ∧ ¬ guarded x.1

omit [DecidableEq A] in
lemma Leaving.snoc {lock : A} {free : V} {guarded : A → Prop} {l : List (A × V)} {x : A × V}
    (h : Leaving lock free guarded l) (hlock : x.1 ≠ lock) (hguarded : ¬ guarded x.1) :
    Leaving lock free guarded (l ++ [x]) := by
  obtain ⟨l₁, l₂, rfl, h₁, h₂⟩ := h
  refine ⟨l₁, l₂ ++ [x], by simp, h₁, fun y hy => ?_⟩
  rcases List.mem_append.mp hy with hy | hy
  · exact h₂ y hy
  · rw [List.mem_singleton.mp hy]
    exact ⟨hlock, hguarded⟩

/-- The lock is taken from an exchange that finds it free until the store that frees it
drains.  `holds` are the processors between the two in their own order. -/
structure Locked (lock : A) (free : V) (guarded : A → Prop) (m : Buffered P A V) (holds : P → Prop)
    (owner : Option P) (data : A → V) : Prop where
  serial : Serial guarded m owner data
  free_iff : m.mem lock = free ↔ owner = none
  holder : ∀ p, holds p → owner = some p
  quiet : ∀ p, (owner = some p → holds p) → ∀ x ∈ m.buf p, x.1 ≠ lock
  leaving : ∀ p, owner = some p → ¬ holds p → Leaving lock free guarded (m.buf p)

namespace Locked

variable {lock : A} {free taken : V} {guarded : A → Prop} {m m' : Buffered P A V}
  {holds holds' : P → Prop} {owner : Option P} {data : A → V} {p q : P} {a : A} {v w : V}

lemma start {mem : A → V} (hlock : mem lock = free) (hnone : ∀ p, ¬ holds p) :
    Locked lock free guarded (Buffered.start mem) holds none mem :=
  ⟨Serial.start guarded mem, iff_of_true hlock rfl, fun p hp => absurd hp (hnone p),
    fun _ _ _ hx => absurd hx List.not_mem_nil, fun p hp => absurd hp.symm (Option.some_ne_none p)⟩

/-- At most one processor holds the lock. -/
lemma exclusive (h : Locked lock free guarded m holds owner data) (hp : holds p) (hq : holds q) :
    p = q :=
  Option.some.inj ((h.holder p hp).symm.trans (h.holder q hq))

/-- It depends on who holds the lock, and on no other state of the processors. -/
lemma congr (h : Locked lock free guarded m holds owner data) (heq : ∀ p, holds' p ↔ holds p) :
    Locked lock free guarded m holds' owner data := by
  obtain rfl : holds' = holds := funext fun p => propext (heq p)
  exact h

/-- The holder sees the data. -/
lemma load (h : Locked lock free guarded m holds owner data) (hp : holds p) (ha : guarded a) :
    m.load p a = data a := by
  have hserial := h.serial
  rw [h.holder p hp] at hserial
  exact hserial.load ha

/-- While the lock is free the data is in memory. -/
lemma mem_eq (h : Locked lock free guarded m holds owner data) (hfree : m.mem lock = free)
    (ha : guarded a) : m.mem a = data a := by
  have hserial := h.serial
  rw [h.free_iff.mp hfree] at hserial
  exact (hserial.seen a ha).symm

/-- An exchange that finds the lock taken leaves it so. -/
lemma exchange_busy (h : Locked lock free guarded m holds owner data) (hlock : ¬ guarded lock)
    (htaken : taken ≠ free) (hm : m.exchange p lock taken = some (w, m')) (hw : w ≠ free) :
    Locked lock free guarded m' holds owner data := by
  have hserial := h.serial.exchange hlock hm
  obtain ⟨-, rfl, rfl⟩ := Buffered.exchange_eq_some.mp hm
  refine ⟨hserial, ?_, h.holder, h.quiet, h.leaving⟩
  simp only [Function.update_self]
  exact iff_of_false htaken fun hnone => hw (h.free_iff.mpr hnone)

/-- An exchange that finds it free takes it. -/
lemma exchange_free (h : Locked lock free guarded m holds owner data) (hlock : ¬ guarded lock)
    (htaken : taken ≠ free) (hm : m.exchange p lock taken = some (free, m'))
    (hself : holds' p) (hothers : ∀ q, q ≠ p → (holds' q ↔ holds q)) :
    Locked lock free guarded m' holds' (some p) data := by
  have hserial := h.serial.exchange hlock hm
  obtain ⟨hbuf, hfree, rfl⟩ := Buffered.exchange_eq_some.mp hm
  obtain rfl : owner = none := h.free_iff.mp hfree.symm
  refine ⟨hserial.acquire hbuf, ?_, fun q hq => ?_, fun q _ => h.quiet q fun hq => ?_,
    fun q hq hnot => ?_⟩
  · simp only [Function.update_self]
    exact iff_of_false htaken (Option.some_ne_none p)
  · rcases eq_or_ne q p with rfl | hne
    · rfl
    · cases h.holder q ((hothers q hne).mp hq)
  · cases hq
  · cases hq
    exact absurd hself hnot

variable [DecidableEq P]

/-- The holder's store that frees the lock. -/
lemma unlock (h : Locked lock free guarded m holds owner data) (hlock : ¬ guarded lock)
    (hp : holds p) (hself : ¬ holds' p) (hothers : ∀ q, q ≠ p → (holds' q ↔ holds q)) :
    Locked lock free guarded (m.store p lock free) holds' owner data := by
  have howner := h.holder p hp
  have hne_of : ∀ q, q ≠ p → owner ≠ some q := fun q hne heq =>
    hne (Option.some.inj (heq.symm.trans howner))
  refine ⟨h.serial.store_other hlock, h.free_iff, fun q hq => ?_, fun q hq x hx => ?_,
    fun q hq hnot => ?_⟩
  · rcases eq_or_ne q p with rfl | hne
    · exact absurd hq hself
    · exact h.holder q ((hothers q hne).mp hq)
  · rcases eq_or_ne q p with rfl | hne
    · exact absurd (hq howner) hself
    · rw [Buffered.store_buf_of_ne hne] at hx
      exact h.quiet q (fun heq => absurd heq (hne_of q hne)) x hx
  · rcases eq_or_ne q p with rfl | hne
    · rw [Buffered.store_buf_self]
      exact ⟨m.buf q, [], rfl, h.quiet q fun _ => hp, fun x hx => absurd hx List.not_mem_nil⟩
    · exact absurd hq (hne_of q hne)

/-- A store to something else goes behind what is under way. -/
lemma store_bufs (h : Locked lock free guarded m holds owner data) (ha : a ≠ lock)
    (hguarded : guarded a → holds p) :
    (∀ q, (owner = some q → holds q) → ∀ x ∈ (m.store p a v).buf q, x.1 ≠ lock) ∧
      ∀ q, owner = some q → ¬ holds q → Leaving lock free guarded ((m.store p a v).buf q) := by
  constructor
  · intro q hq x hx
    rcases eq_or_ne q p with rfl | hne
    · rw [Buffered.store_buf_self] at hx
      rcases List.mem_append.mp hx with hx | hx
      · exact h.quiet q hq x hx
      · rw [List.mem_singleton.mp hx]
        exact ha
    · rw [Buffered.store_buf_of_ne hne] at hx
      exact h.quiet q hq x hx
  · intro q hq hnot
    rcases eq_or_ne q p with rfl | hne
    · rw [Buffered.store_buf_self]
      exact (h.leaving q hq hnot).snoc ha fun hg => hnot (hguarded hg)
    · rw [Buffered.store_buf_of_ne hne]
      exact h.leaving q hq hnot

/-- The holder stores to the data. -/
lemma store (h : Locked lock free guarded m holds owner data) (hp : holds p) (ha : a ≠ lock) :
    Locked lock free guarded (m.store p a v) holds owner (Function.update data a v) := by
  obtain ⟨hquiet, hleaving⟩ := h.store_bufs (v := v) ha fun _ => hp
  refine ⟨?_, h.free_iff, h.holder, hquiet, hleaving⟩
  have hserial := h.serial
  rw [h.holder p hp] at hserial ⊢
  exact hserial.store

/-- Anybody stores to what is not guarded. -/
lemma store_other (h : Locked lock free guarded m holds owner data) (ha : a ≠ lock)
    (hguarded : ¬ guarded a) : Locked lock free guarded (m.store p a v) holds owner data := by
  obtain ⟨hquiet, hleaving⟩ := h.store_bufs (p := p) (v := v) ha fun hg => absurd hg hguarded
  exact ⟨h.serial.store_other hguarded, h.free_iff, h.holder, hquiet, hleaving⟩

/-- The store that frees the lock drains, or another one. -/
lemma flush (h : Locked lock free guarded m holds owner data) (hm : m.flush p = some m') :
    ∃ owner', (owner' = owner ∨ owner' = none) ∧
      Locked lock free guarded m' holds owner' data := by
  have hserial := h.serial.flush hm
  obtain ⟨x, l, hl, rfl⟩ := Buffered.flush_eq_some.mp hm
  have hbuf : ∀ q, q ≠ p → Function.update m.buf p l q = m.buf q := fun q hne =>
    Function.update_of_ne hne ..
  rcases eq_or_ne x.1 lock with hx | hx
  · -- only an owner that has left has such a store, and it is its first
    have hleft : owner = some p ∧ ¬ holds p := by
      by_contra hnot
      refine h.quiet p (fun heq => ?_) x (by rw [hl]; exact List.mem_cons_self) hx
      by_contra hp
      exact hnot ⟨heq, hp⟩
    obtain ⟨l₁, l₂, hsplit, h₁, h₂⟩ := h.leaving p hleft.1 hleft.2
    obtain ⟨rfl, rfl⟩ : x = (lock, free) ∧ l = l₂ := by
      rw [hl] at hsplit
      cases l₁ with
      | nil => exact List.cons.inj hsplit
      | cons y l₁ =>
        obtain ⟨rfl, -⟩ := List.cons.inj hsplit
        exact absurd hx (h₁ x List.mem_cons_self)
    refine ⟨none, .inr rfl, ?_, ?_, fun q hq => ?_, fun q _ y hy => ?_, fun q hq => ?_⟩
    · rw [hleft.1] at hserial
      refine hserial.release fun y hy => ?_
      simp only [Function.update_self] at hy
      exact (h₂ y hy).2
    · exact iff_of_true (Function.update_self ..) rfl
    · obtain rfl := Option.some.inj ((h.holder q hq).symm.trans hleft.1)
      exact absurd hq hleft.2
    · rcases eq_or_ne q p with rfl | hne
      · simp only [Function.update_self] at hy
        exact (h₂ y hy).1
      · simp only [hbuf q hne] at hy
        refine h.quiet q (fun heq => ?_) y hy
        exact absurd (Option.some.inj (heq.symm.trans hleft.1)) hne
    · cases hq
  · refine ⟨owner, .inl rfl, hserial, ?_, h.holder, fun q hq y hy => ?_, fun q hq hnot => ?_⟩
    · simp only
      rw [Function.update_of_ne hx.symm]
      exact h.free_iff
    · rcases eq_or_ne q p with rfl | hne
      · simp only [Function.update_self] at hy
        exact h.quiet q hq y (by rw [hl]; exact List.mem_cons_of_mem x hy)
      · simp only [hbuf q hne] at hy
        exact h.quiet q hq y hy
    · rcases eq_or_ne q p with rfl | hne
      · simp only [Function.update_self]
        obtain ⟨l₁, l₂, hsplit, h₁, h₂⟩ := h.leaving q hq hnot
        rw [hl] at hsplit
        cases l₁ with
        | nil =>
          obtain ⟨rfl, -⟩ := List.cons.inj hsplit
          exact absurd rfl hx
        | cons y l₁ =>
          obtain ⟨-, rfl⟩ := List.cons.inj hsplit
          exact ⟨l₁, l₂, rfl, fun z hz => h₁ z (List.mem_cons_of_mem y hz), h₂⟩
      · simp only [hbuf q hne]
        exact h.leaving q hq hnot

end Locked

end CLibrary
