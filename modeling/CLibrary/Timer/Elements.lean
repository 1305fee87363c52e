import CLibrary.TailQueue.Refinement
import CLibrary.Timer.Basic

/-!
The elements of a timer in memory.

* `ElemFields`, `ElemMem`: an element without its links, and the memory of a timer,
  in which the elements are linked by the macros of `queue.h`.
* `Tracked`: the memory holds lists of elements.  An address stands for the number
  of the allocation that it comes from, and can be used again after a `free`.
* `Tracked.malloc`, `free`, `setVal`, `rewrite`, `insertTail`, `remove`: what the
  timer does to its memory keeps it.
* `unlink_middle`: the element with a number, in its list.
-/

namespace CLibrary

variable {ι π ε κ : Type}

/-- The members of `struct _timer_elem_t` without its links. -/
structure ElemFields (ε : Type) where
  expire : ℕ
  rotationCnt : ℤ
  cursor : ℕ
  event : ε

/-- The members of an element. -/
def TimerElem.fields (e : TimerElem ε) : ElemFields ε :=
  ⟨e.expire, e.rotationCnt, e.cursor, e.event⟩

/-- The elements of a timer and the heads of its queues. -/
abbrev ElemMem (ι π ε : Type) := TqMem ι π (ElemFields ε)

/-- At `p` is the element `e`, as far as `key` looks at its members. -/
def ElemAt (key : ElemFields ε → κ) (m : ElemMem ι π ε) (name : π → Option ℕ) (p : π)
    (e : TimerElem ε) : Prop :=
  name p = some e.id ∧ (m.elems p).map (fun c => key c.val) = some (key e.fields)

/-- The memory holds `lists`: their elements are linked in this order, and what is
allocated has a number of its own. -/
structure Tracked (key : ElemFields ε → κ) (m : ElemMem ι π ε) (lists : ι → List (TimerElem ε))
    (name : π → Option ℕ) (shelf : ι → Option (List π)) (home : π → Option ι) : Prop where
  threaded : Threaded m shelf home
  alloc : ∀ p, (m.elems p).isSome = (name p).isSome
  inj : ∀ p x n, name p = some n → name x = some n → p = x
  same : ∀ i q, shelf i = some q → List.Forall₂ (ElemAt key m name) q (lists i)

/-! ### Elements and their numbers -/

section Numbers

variable {l₁ l₂ : List (TimerElem ε)} {e : TimerElem ε}

lemma unlink_middle (h : ∀ f ∈ l₁, f.id ≠ e.id) : unlink (l₁ ++ e :: l₂) e.id = l₁ ++ l₂ := by
  rw [unlink, List.eraseP_append_right _ fun f hf => by simpa using h f hf,
    List.eraseP_cons_of_pos (by simp)]

end Numbers

/-- Two lists that correspond, split at an element of the first. -/
lemma forall₂_middle {α β : Type*} {R : α → β → Prop} {q₁ q₂ : List α} {p : α} {l : List β}
    (h : List.Forall₂ R (q₁ ++ p :: q₂) l) :
    ∃ l₁ e l₂, l = l₁ ++ e :: l₂ ∧ List.Forall₂ R q₁ l₁ ∧ R p e ∧ List.Forall₂ R q₂ l₂ := by
  induction q₁ generalizing l with
  | nil =>
      obtain ⟨e, l₂, hp, h₂, rfl⟩ := List.forall₂_cons_left_iff.mp h
      exact ⟨[], e, l₂, rfl, .nil, hp, h₂⟩
  | cons x q₁ ih =>
      obtain ⟨f, l', hx, hrest, rfl⟩ := List.forall₂_cons_left_iff.mp h
      obtain ⟨l₁, e, l₂, rfl, h₁, hp, h₂⟩ := ih hrest
      exact ⟨f :: l₁, e, l₂, rfl, .cons hx h₁, hp, h₂⟩

lemma forall₂_append {α β : Type*} {R : α → β → Prop} {q₁ q₂ : List α} {l₁ l₂ : List β}
    (h₁ : List.Forall₂ R q₁ l₁) (h₂ : List.Forall₂ R q₂ l₂) :
    List.Forall₂ R (q₁ ++ q₂) (l₁ ++ l₂) :=
  List.rel_append h₁ h₂

/-- Of two lists that correspond, an element of the second comes from the first. -/
lemma exists_of_mem_forall₂ {α β : Type*} {R : α → β → Prop} {q : List α} {l : List β} {e : β}
    (h : List.Forall₂ R q l) (he : e ∈ l) : ∃ p ∈ q, R p e := by
  obtain ⟨l₁, l₂, rfl⟩ := List.append_of_mem he
  obtain ⟨q₁, p, q₂, rfl, -, hp, -⟩ := forall₂_middle h.flip
  exact ⟨p, by simp, hp⟩

namespace Tracked

variable {key : ElemFields ε → κ} {m : ElemMem ι π ε} {lists : ι → List (TimerElem ε)}
  {name : π → Option ℕ} {shelf : ι → Option (List π)} {home : π → Option ι} {i : ι} {p : π}
  {q q₁ q₂ : List π} {e : TimerElem ε} {n : ℕ}

lemma exists_cell (h : Tracked key m lists name shelf home) (hp : name p = some n) :
    ∃ c, m.elems p = some c := by
  have halloc := h.alloc p
  rw [hp] at halloc
  exact Option.isSome_iff_exists.mp halloc

/-- What has no number is in no list. -/
lemma home_none (h : Tracked key m lists name shelf home) (hp : name p = none) :
    home p = none := by
  cases hhome : home p with
  | none => rfl
  | some i =>
      obtain ⟨q, hi, hmem⟩ := (h.threaded.shelved.home_iff p i).mp hhome
      obtain ⟨c, hc⟩ := h.threaded.exists_cell hi hmem
      have halloc := h.alloc p
      rw [hp, hc] at halloc
      cases halloc

/-- An element of a list has a number. -/
lemma exists_name (h : Tracked key m lists name shelf home) (hi : shelf i = some q) (hp : p ∈ q) :
    ∃ n, name p = some n := by
  obtain ⟨c, hc⟩ := h.threaded.exists_cell hi hp
  have halloc := h.alloc p
  rw [hc] at halloc
  exact Option.isSome_iff_exists.mp halloc.symm

/-- A list is no longer than there are numbers below a bound. -/
lemma length_le (h : Tracked key m lists name shelf home) {next : ℕ}
    (hnext : ∀ x n, name x = some n → n < next) (hi : shelf i = some q) : q.length ≤ next := by
  have hnodup : (q.map name).Nodup := by
    refine (h.threaded.shelved.nodup i q hi).map_on fun x hx y hy heq => ?_
    obtain ⟨n, hn⟩ := h.exists_name hi hx
    exact h.inj x y n hn (heq ▸ hn)
  have hsub : q.map name ⊆ (List.range next).map some := by
    intro y hy
    obtain ⟨x, hx, rfl⟩ := List.mem_map.mp hy
    obtain ⟨n, hn⟩ := h.exists_name hi hx
    rw [hn]
    exact List.mem_map_of_mem (List.mem_range.mpr (hnext x n hn))
  have hlength := (hnodup.subperm hsub).length_le
  rwa [List.length_map, List.length_map, List.length_range] at hlength

/-- The list an element is in, split there. -/
lemma split (h : Tracked key m lists name shelf home) (hi : shelf i = some (q₁ ++ p :: q₂)) :
    ∃ l₁ e l₂, lists i = l₁ ++ e :: l₂ ∧ List.Forall₂ (ElemAt key m name) q₁ l₁ ∧
      ElemAt key m name p e ∧ List.Forall₂ (ElemAt key m name) q₂ l₂ :=
  forall₂_middle (h.same i _ hi)

/-- The numbers before an element are others. -/
lemma id_ne (h : Tracked key m lists name shelf home) (hi : shelf i = some (q₁ ++ p :: q₂))
    {l₁ : List (TimerElem ε)} (h₁ : List.Forall₂ (ElemAt key m name) q₁ l₁)
    (hp : ElemAt key m name p e) : ∀ f ∈ l₁, f.id ≠ e.id := by
  intro f hf heq
  obtain ⟨x, hx, hxf⟩ := exists_of_mem_forall₂ h₁ hf
  obtain rfl : x = p := h.inj x p f.id hxf.1 (heq ▸ hp.1)
  exact (List.nodup_append.mp (h.threaded.shelved.nodup i _ hi)).2.2 x hx x List.mem_cons_self rfl

/-- Lists whose elements keep their numbers and their members. -/
lemma forall₂_congr {m' : ElemMem ι π ε} {name' : π → Option ℕ} {l : List (TimerElem ε)}
    (h : List.Forall₂ (ElemAt key m name) q l)
    (hsame : ∀ p ∈ q, name' p = name p ∧
      (m'.elems p).map (fun c => key c.val) = (m.elems p).map fun c => key c.val) :
    List.Forall₂ (ElemAt key m' name') q l := by
  induction h with
  | nil => exact .nil
  | cons hp _ ih =>
      refine .cons ?_ (ih fun x hx => hsame x (List.mem_cons_of_mem _ hx))
      obtain ⟨hname, hkey⟩ := hsame _ List.mem_cons_self
      exact ⟨hname.trans hp.1, hkey.trans hp.2⟩

/-- Macros leave the members of the elements. -/
lemma forall₂_sameVals {m' : ElemMem ι π ε} {l : List (TimerElem ε)} (hvals : m.SameVals m')
    (h : List.Forall₂ (ElemAt key m name) q l) : List.Forall₂ (ElemAt key m' name) q l := by
  refine forall₂_congr h fun p _ => ⟨rfl, ?_⟩
  have hval := congrArg (Option.map key) (hvals p)
  rw [Option.map_map, Option.map_map] at hval
  exact hval

lemma alloc_sameVals (h : Tracked key m lists name shelf home) {m' : ElemMem ι π ε}
    (hvals : m.SameVals m') (p : π) : (m'.elems p).isSome = (name p).isSome := by
  rw [← h.alloc, ← Option.isSome_map (f := Cell.val) (x := m'.elems p), hvals p, Option.isSome_map]

variable [DecidableEq π]

/-- An element in no list is allocated, freed or stored to. -/
lemma update_elem (h : Tracked key m lists name shelf home) (hhome : home p = none)
    {c : Option (Cell π (Slot ι π) (ElemFields ε))} {x : Option ℕ} (hc : c.isSome = x.isSome)
    (hx : ∀ p' n, p' ≠ p → x = some n → name p' ≠ some n) :
    Tracked key { m with elems := Function.update m.elems p c } lists
      (Function.update name p x) shelf home := by
  refine ⟨⟨h.threaded.shelved.congr fun y hy => ?_, h.threaded.heads⟩, fun y => ?_,
    fun y z n hy hz => ?_, fun i q hi => ?_⟩
  · refine Function.update_of_ne ?_ _ _
    rintro rfl
    exact hy hhome
  · dsimp only
    by_cases hy : y = p
    · rw [hy, Function.update_self, Function.update_self, hc]
    · rw [Function.update_of_ne hy, Function.update_of_ne hy, h.alloc]
  · by_cases hyp : y = p
    · by_cases hzp : z = p
      · rw [hyp, hzp]
      · rw [hyp, Function.update_self] at hy
        rw [Function.update_of_ne hzp] at hz
        exact absurd hz (hx z n hzp hy)
    · rw [Function.update_of_ne hyp] at hy
      by_cases hzp : z = p
      · rw [hzp, Function.update_self] at hz
        exact absurd hy (hx y n hyp hz)
      · rw [Function.update_of_ne hzp] at hz
        exact h.inj y z n hy hz
  · refine forall₂_congr (h.same i q hi) fun y hy => ?_
    have hyp : y ≠ p := by
      rintro rfl
      rw [h.threaded.shelved.home_eq hi hy] at hhome
      cases hhome
    exact ⟨Function.update_of_ne hyp _ _, by dsimp only; rw [Function.update_of_ne hyp]⟩

/-- `malloc`. -/
lemma malloc (h : Tracked key m lists name shelf home) (hp : name p = none)
    (hn : ∀ x, name x ≠ some n) (c : Cell π (Slot ι π) (ElemFields ε)) :
    Tracked key (m.malloc p c) lists (Function.update name p (some n)) shelf home :=
  h.update_elem (h.home_none hp) rfl fun x _ _ hx => Option.some.inj hx ▸ hn x

/-- `free` of an element in no list. -/
lemma free (h : Tracked key m lists name shelf home) (hhome : home p = none)
    (hp : name p = some n) :
    ∃ m', m.free p = some m' ∧
      Tracked key m' lists (Function.update name p none) shelf home := by
  obtain ⟨c, hc⟩ := h.exists_cell hp
  refine ⟨_, by rw [TqMem.free, Cells.free_eq hc]; rfl, h.update_elem hhome rfl ?_⟩
  rintro x n - hnone
  cases hnone

/-- A store to the members of an element in no list. -/
lemma setVal (h : Tracked key m lists name shelf home) (hhome : home p = none)
    (hp : name p = some n) (v : ElemFields ε) :
    ∃ m', m.setVal p v = some m' ∧ Tracked key m' lists name shelf home ∧
      (m'.elems p).map Cell.val = some v := by
  obtain ⟨c, hc⟩ := h.exists_cell hp
  have hstore := h.update_elem (c := some { c with val := v }) (x := some n) hhome rfl
    fun x k hx hk hxk => hx (h.inj x p k hxk (hp.trans hk))
  have hname : Function.update name p (some n) = name := by
    rw [← hp, Function.update_eq_self]
  rw [hname] at hstore
  refine ⟨_, by rw [TqMem.setVal, Cells.setVal_eq hc]; rfl, hstore, ?_⟩
  dsimp only
  rw [Function.update_self, Option.map_some]

variable [DecidableEq ι]

/-- **A store to the members of a linked element.** -/
lemma rewrite (h : Tracked key m lists name shelf home) (hi : shelf i = some (q₁ ++ p :: q₂))
    {l₁ l₂ : List (TimerElem ε)} (hl : lists i = l₁ ++ e :: l₂)
    (h₁ : List.Forall₂ (ElemAt key m name) q₁ l₁) (hp : ElemAt key m name p e)
    (h₂ : List.Forall₂ (ElemAt key m name) q₂ l₂) {f : TimerElem ε} (hid : f.id = e.id)
    {v : ElemFields ε} (hv : key v = key f.fields) :
    ∃ m', m.setVal p v = some m' ∧
      Tracked key m' (Function.update lists i (l₁ ++ f :: l₂)) name shelf home := by
  obtain ⟨c, hc⟩ := h.exists_cell hp.1
  have hnodup := h.threaded.shelved.nodup i _ hi
  have hrest := List.nodup_cons.mp (List.nodup_middle.mp hnodup)
  rw [List.mem_append, not_or] at hrest
  have hsame : ∀ x, x ≠ p → name x = name x ∧
      (Function.update m.elems p (some { c with val := v }) x).map (fun c => key c.val) =
        (m.elems x).map fun c => key c.val :=
    fun x hx => ⟨rfl, by rw [Function.update_of_ne hx]⟩
  refine ⟨⟨Function.update m.elems p (some { c with val := v }), m.heads⟩,
    by rw [TqMem.setVal, Cells.setVal_eq hc]; rfl,
    ⟨⟨h.threaded.shelved.congr_links fun x _ => ?_, h.threaded.heads⟩, fun x => ?_, h.inj,
      fun k q hk => ?_⟩⟩
  · dsimp only
    by_cases hx : x = p
    · rw [hx, Function.update_self, hc]
      rfl
    · rw [Function.update_of_ne hx]
  · dsimp only
    rw [← h.alloc]
    by_cases hx : x = p
    · rw [hx, Function.update_self, hc]
      rfl
    · rw [Function.update_of_ne hx]
  · by_cases hki : k = i
    · subst hki
      obtain rfl := Option.some.inj (hi.symm.trans hk)
      rw [Function.update_self]
      refine forall₂_append (forall₂_congr h₁ fun x hx => hsame x ?_)
        (.cons ⟨hid ▸ hp.1, ?_⟩ (forall₂_congr h₂ fun x hx => hsame x ?_))
      · rintro rfl
        exact hrest.1.1 hx
      · dsimp only
        rw [Function.update_self, Option.map_some, hv]
      · rintro rfl
        exact hrest.1.2 hx
    · rw [Function.update_of_ne hki]
      refine forall₂_congr (h.same k q hk) fun x hx => hsame x ?_
      rintro rfl
      have hhome := h.threaded.shelved.home_eq hk hx
      rw [h.threaded.shelved.home_eq hi (by simp), Option.some_inj] at hhome
      exact hki hhome.symm

omit [DecidableEq π] in
/-- What a macro leaves, where it has changed the list of one head. -/
lemma moved (h : Tracked key m lists name shelf home) {m' : ElemMem ι π ε} {home' : π → Option ι}
    {l : List (TimerElem ε)} (hthreaded : Threaded m' (Function.update shelf i (some q)) home')
    (hvals : m.SameVals m') (hl : List.Forall₂ (ElemAt key m name) q l) :
    Tracked key m' (Function.update lists i l) name (Function.update shelf i (some q)) home' := by
  refine ⟨hthreaded, h.alloc_sameVals hvals, h.inj, fun k q' hk => ?_⟩
  by_cases hki : k = i
  · rw [hki, Function.update_self, Option.some_inj] at hk
    rw [hki, Function.update_self, ← hk]
    exact forall₂_sameVals hvals hl
  · rw [Function.update_of_ne hki] at hk ⊢
    exact forall₂_sameVals hvals (h.same k q' hk)

/-- **`TAILQ_INSERT_TAIL`** of an element in no list. -/
lemma insertTail (h : Tracked key m lists name shelf home) (hi : shelf i = some q)
    (hhome : home p = none) (hp : ElemAt key m name p e) :
    ∃ m', m.tailqInsertTail i p = some m' ∧
      Tracked key m' (Function.update lists i (lists i ++ [e])) name
        (Function.update shelf i (some (q ++ [p]))) (Function.update home p (some i)) := by
  obtain ⟨c, hc⟩ := h.exists_cell hp.1
  obtain ⟨m', hm', hthreaded, hvals⟩ := h.threaded.insertTail hi hc hhome
  exact ⟨m', hm', h.moved hthreaded hvals (forall₂_append (h.same i q hi) (.cons hp .nil))⟩

/-- **`TAILQ_REMOVE`**. -/
lemma remove (h : Tracked key m lists name shelf home) (hi : shelf i = some (q₁ ++ p :: q₂))
    {l₁ l₂ : List (TimerElem ε)} (h₁ : List.Forall₂ (ElemAt key m name) q₁ l₁)
    (h₂ : List.Forall₂ (ElemAt key m name) q₂ l₂) :
    ∃ m', m.tailqRemove i p = some m' ∧
      Tracked key m' (Function.update lists i (l₁ ++ l₂)) name
        (Function.update shelf i (some (q₁ ++ q₂))) (Function.update home p none) ∧
      m'.elems p = m.elems p := by
  obtain ⟨m', hm', hthreaded, hvals, hself⟩ := h.threaded.remove hi
  exact ⟨m', hm', h.moved hthreaded hvals (forall₂_append h₁ h₂), hself⟩

end Tracked

end CLibrary
