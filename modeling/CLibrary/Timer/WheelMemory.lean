import CLibrary.Timer.Ledger
import CLibrary.Timer.Memory

/-!
The wheel timer in memory refines the wheel timer of lists.

* `WheelHeld`: the memory holds the spokes of a wheel.  `forget`: the numbers of
  the elements that are freed are given up.
* `WheelHeld.addWheel`, `delWheel`, `resetWheel`: every operation does what it does
  to the lists.
* `WheelHeld.walkLoop`, `tickLoop`, `checkWheel`: so does a check, at most `fuel`
  elements to a spoke.
* `WheelHeld.create`, `destroyWheel`: from the first allocation to the last free.
-/

namespace CLibrary

open TimerWheel

variable {π ε : Type}

/-- The wheel with its elements in memory. -/
def TimerWheel.inMem (wheel : TimerWheel ε) (m : ElemMem ℕ π ε) : WheelMem π ε :=
  ⟨wheel.wheelSize, wheel.createTime, wheel.spokeIndex, wheel.lastCheckRelativeTick, m⟩

/-- The timer with its elements in memory. -/
def ZxTimer.inMem (timer : ZxTimer (TimerWheel ε)) (m : ElemMem ℕ π ε) : ZxTimer (WheelMem π ε) :=
  ⟨timer.inner.inMem m, timer.elemCnt, timer.memOcupy⟩

/-- The memory holds the spokes of a wheel, and every element that is allocated is
in one of them, but for `loose`, which an operation has in hand. -/
structure WheelHeld (m : ElemMem ℕ π ε) (wheel : TimerWheel ε) (name : π → Option ℕ)
    (shelf : ℕ → Option (List π)) (home : π → Option ℕ) (loose : Option π) : Prop where
  tracked : Tracked id m wheel.spokes name shelf home
  heads : ∀ i, (shelf i).isSome = true ↔ i < wheel.wheelSize
  loose_iff : ∀ p, loose = some p ↔ (name p).isSome = true ∧ home p = none
  seated : wheel.Seated
  index : wheel.spokeIndex < wheel.wheelSize

/-- An element is its number and its members. -/
lemma TimerElem.ext_fields {e f : TimerElem ε} (hid : e.id = f.id) (h : e.fields = f.fields) :
    e = f := by
  obtain ⟨i, expire, rotation, cursor, event⟩ := e
  obtain ⟨j, expire', rotation', cursor', event'⟩ := f
  simp only [TimerElem.fields, ElemFields.mk.injEq] at h
  obtain ⟨rfl, rfl, rfl, rfl⟩ := h
  obtain rfl : i = j := hid
  rfl

lemma ElemAt.unique {ι : Type} {m : ElemMem ι π ε} {name : π → Option ℕ} {p : π}
    {e f : TimerElem ε} (he : ElemAt id m name p e) (hf : ElemAt id m name p f) : e = f := by
  refine TimerElem.ext_fields (Option.some.inj (he.1.symm.trans hf.1)) ?_
  exact Option.some.inj (he.2.symm.trans hf.2)

/-- The numbers of some elements are given up. -/
def forget (name : π → Option ℕ) (ids : List ℕ) (p : π) : Option ℕ :=
  if name p ∈ ids.map some then none else name p

@[simp] lemma forget_nil (name : π → Option ℕ) : forget name [] = name :=
  funext fun p => if_neg (by simp)

lemma forget_eq_some {name : π → Option ℕ} {ids : List ℕ} {p : π} {n : ℕ} :
    forget name ids p = some n ↔ name p = some n ∧ n ∉ ids := by
  rw [forget]
  split_ifs with hmem
  · refine iff_of_false (by simp) ?_
    rintro ⟨hp, hn⟩
    rw [hp, List.mem_map_of_injective (Option.some_injective ℕ)] at hmem
    exact hn hmem
  · refine ⟨fun hp => ⟨hp, fun hn => hmem ?_⟩, And.left⟩
    rw [hp]
    exact List.mem_map_of_mem hn

/-- One of them is the number of `p`. -/
lemma forget_cons [DecidableEq π] {name : π → Option ℕ} {p : π} {n : ℕ} {ids : List ℕ}
    (hinj : ∀ p x n, name p = some n → name x = some n → p = x) (hp : name p = some n) :
    forget name (n :: ids) = forget (Function.update name p none) ids := by
  funext x
  refine Option.ext fun k => ?_
  rw [forget_eq_some, forget_eq_some, List.mem_cons, not_or]
  by_cases hx : x = p
  · rw [hx, Function.update_self, hp, Option.some_inj]
    refine iff_of_false ?_ (by simp)
    rintro ⟨rfl, hne, -⟩
    exact hne rfl
  · rw [Function.update_of_ne hx]
    refine and_congr_right fun hk => and_iff_right ?_
    rintro rfl
    exact hx (hinj x p k hk hp)

lemma forget_append (name : π → Option ℕ) (ids ids' : List ℕ) :
    forget name (ids ++ ids') = forget (forget name ids) ids' := by
  funext x
  refine Option.ext fun k => ?_
  rw [forget_eq_some, forget_eq_some, forget_eq_some, List.mem_append, not_or, and_assoc]

namespace WheelHeld

variable {m : ElemMem ℕ π ε} {wheel : TimerWheel ε} {name : π → Option ℕ}
  {shelf : ℕ → Option (List π)} {home : π → Option ℕ} {loose : Option π} {p : π} {n i : ℕ}
  {e : TimerElem ε} {currentTime timeout : ℕ}

lemma shelf_eq (h : WheelHeld m wheel name shelf home loose) (hi : i < wheel.wheelSize) :
    ∃ q, shelf i = some q :=
  Option.isSome_iff_exists.mp ((h.heads i).mpr hi)

lemma startAt (h : WheelHeld m wheel name shelf home loose) (currentTime : ℕ) :
    WheelHeld m (wheel.startAt currentTime) name shelf home loose := by
  refine ⟨?_, ?_, h.loose_iff, h.seated.startAt currentTime, startAt_spoke_lt h.index⟩
  · rw [startAt_spokes]
    exact h.tracked
  · rw [startAt_wheelSize]
    exact h.heads

lemma inMem_startAt (wheel : TimerWheel ε) (m : ElemMem ℕ π ε) (currentTime : ℕ) :
    TimerMem.startAt (wheel.inMem m) currentTime = (wheel.startAt currentTime).inMem m := by
  rw [TimerMem.startAt, TimerWheel.startAt, apply_ite fun w => TimerWheel.inMem w m]
  rfl

/-- What an element in memory holds. -/
lemma exists_fields {ι : Type} {m : ElemMem ι π ε} (hp : ElemAt id m name p e) :
    ∃ c, m.elems p = some c ∧ c.val = e.fields := by
  obtain ⟨c, hc, hval⟩ := Option.map_eq_some_iff.mp hp.2
  exact ⟨c, hc, hval⟩

/-- An element that is linked, at its address. -/
lemma exists_split (h : WheelHeld m wheel name shelf home loose) (hp : name p = some n)
    (he : elemOf wheel.linked n = some e) :
    e.cursor < wheel.wheelSize ∧ ElemAt id m name p e ∧ ∃ q₁ q₂ l₁ l₂,
      shelf e.cursor = some (q₁ ++ p :: q₂) ∧ wheel.spokes e.cursor = l₁ ++ e :: l₂ ∧
      List.Forall₂ (ElemAt id m name) q₁ l₁ ∧ List.Forall₂ (ElemAt id m name) q₂ l₂ := by
  obtain ⟨hmem, rfl⟩ := elemOf_spec he
  obtain ⟨hcursor, hspoke⟩ := h.seated.mem_spoke hmem
  obtain ⟨q, hq⟩ := h.shelf_eq hcursor
  obtain ⟨x, hx, hxe⟩ := exists_of_mem_forall₂ (h.tracked.same _ q hq) hspoke
  obtain rfl : x = p := h.tracked.inj x p e.id hxe.1 hp
  obtain ⟨q₁, q₂, rfl⟩ := List.append_of_mem hx
  obtain ⟨l₁, f, l₂, hl, h₁, hf, h₂⟩ := h.tracked.split hq
  obtain rfl := hf.unique hxe
  exact ⟨hcursor, hf, q₁, q₂, l₁, l₂, hq, hl, h₁, h₂⟩

variable [DecidableEq π]

/-- `malloc`. -/
lemma malloc (h : WheelHeld m wheel name shelf home none) (hp : name p = none)
    (hn : ∀ x, name x ≠ some n) (c : Cell π (Slot ℕ π) (ElemFields ε)) :
    WheelHeld (m.malloc p c) wheel (Function.update name p (some n)) shelf home (some p) := by
  refine ⟨h.tracked.malloc hp hn c, h.heads, fun x => ?_, h.seated, h.index⟩
  by_cases hx : x = p
  · rw [hx, Function.update_self]
    exact iff_of_true rfl ⟨rfl, h.tracked.home_none hp⟩
  · rw [Function.update_of_ne hx, ← h.loose_iff, Option.some_inj]
    exact iff_of_false (Ne.symm hx) (by simp)

/-- `free` of the element in hand. -/
lemma free (h : WheelHeld m wheel name shelf home (some p)) :
    ∃ m', m.free p = some m' ∧
      WheelHeld m' wheel (Function.update name p none) shelf home none := by
  obtain ⟨hname, hhome⟩ := (h.loose_iff p).mp rfl
  obtain ⟨n, hn⟩ := Option.isSome_iff_exists.mp hname
  obtain ⟨m', hm', h'⟩ := h.tracked.free hhome hn
  refine ⟨m', hm', h', h.heads, fun x => ?_, h.seated, h.index⟩
  by_cases hx : x = p
  · rw [hx, Function.update_self]
    exact iff_of_false (by simp) (by simp)
  · rw [Function.update_of_ne hx, ← h.loose_iff, Option.some_inj]
    exact iff_of_false (by simp) (Ne.symm hx)

/-- **The stores of `zx_timer_add` and `zx_timer_reset`**, and the insertion. -/
lemma insertElem (h : WheelHeld m wheel name shelf home (some p)) (hp : name p = some e.id)
    (currentTime timeout : ℕ) :
    ∃ m' shelf' home', TimerMem.insertElem (wheel.inMem m) p e.event currentTime timeout =
        some ((wheel.insertElem e currentTime timeout).inMem m') ∧
      WheelHeld m' (wheel.insertElem e currentTime timeout) name shelf' home' none := by
  have hcursor : wheel.cursorOf currentTime timeout < wheel.wheelSize :=
    Nat.mod_lt _ (Nat.zero_lt_of_lt h.index)
  obtain ⟨-, hhome⟩ := (h.loose_iff p).mp rfl
  obtain ⟨q, hq⟩ := h.shelf_eq hcursor
  obtain ⟨m₁, hm₁, h₁, hval⟩ := h.tracked.setVal hhome hp
    ⟨uadd 64 currentTime timeout, toInt (timeout / wheel.wheelSize),
      wheel.cursorOf currentTime timeout, e.event⟩
  have helem : ElemAt id m₁ name p { e with
      expire := uadd 64 currentTime timeout
      rotationCnt := toInt (timeout / wheel.wheelSize)
      cursor := wheel.cursorOf currentTime timeout } := ⟨hp, hval⟩
  obtain ⟨m', hm', h'⟩ := h₁.insertTail hq hhome helem
  have hins : TimerMem.insertElem (wheel.inMem m) p e.event currentTime timeout =
      some ((wheel.insertElem e currentTime timeout).inMem m') := by
    have hcur : TimerMem.cursorOf (wheel.inMem m) currentTime timeout =
        wheel.cursorOf currentTime timeout := rfl
    rw [TimerMem.insertElem, hcur]
    simp only [TimerWheel.inMem, hm₁, Option.bind_eq_bind, Option.bind_some, hm']
    rfl
  refine ⟨m', _, _, hins, h', fun i => ?_, fun x => ?_, h.seated.insertElem, h.index⟩
  · by_cases hi : i = wheel.cursorOf currentTime timeout
    · rw [hi, Function.update_self]
      exact iff_of_true rfl hcursor
    · rw [Function.update_of_ne hi]
      exact h.heads i
  · refine iff_of_false (by simp) ?_
    rintro ⟨hname, hx⟩
    by_cases hxp : x = p
    · rw [hxp, Function.update_self] at hx
      cases hx
    · rw [Function.update_of_ne hxp] at hx
      exact hxp (Option.some.inj ((h.loose_iff x).mpr ⟨hname, hx⟩)).symm

/-- **`TAILQ_REMOVE`** from the spoke of an element. -/
lemma removeElem (h : WheelHeld m wheel name shelf home none) (hp : name p = some n)
    (he : elemOf wheel.linked n = some e) :
    ∃ m' shelf' home', m.tailqRemove e.cursor p = some m' ∧
      WheelHeld m' (wheel.removeElem e) name shelf' home' (some p) := by
  obtain ⟨hcursor, helem, q₁, q₂, l₁, l₂, hq, hl, h₁, h₂⟩ := h.exists_split hp he
  obtain ⟨m', hm', h', -⟩ := h.tracked.remove hq h₁ h₂
  have hunlink : unlink (wheel.spokes e.cursor) e.id = l₁ ++ l₂ := by
    rw [hl, unlink_middle (h.tracked.id_ne hq h₁ helem)]
  refine ⟨m', Function.update shelf e.cursor (some (q₁ ++ q₂)), Function.update home p none,
    hm', ?_, fun i => ?_, fun x => ?_, h.seated.removeElem, h.index⟩
  · rw [TimerWheel.removeElem, hunlink]
    exact h'
  · by_cases hi : i = e.cursor
    · rw [hi, Function.update_self]
      exact iff_of_true rfl hcursor
    · rw [Function.update_of_ne hi]
      exact h.heads i
  · by_cases hx : x = p
    · rw [hx, Function.update_self, hp]
      exact iff_of_true rfl ⟨rfl, rfl⟩
    · rw [Function.update_of_ne hx, ← h.loose_iff, Option.some_inj]
      exact iff_of_false (Ne.symm hx) (by simp)

/-- **`zx_timer_add`**. -/
lemma addWheel {timer : ZxTimer (TimerWheel ε)}
    (h : WheelHeld m timer.inner name shelf home none) (hp : name p = none)
    (hn : ∀ x, name x ≠ some n) (junk : Cell π (Slot ℕ π) (ElemFields ε))
    (currentTime timeout : ℕ) (event : ε) :
    ∃ m' shelf' home', TimerMem.addWheel (timer.inMem m) p junk currentTime timeout event =
        some ((timer.addWheel n currentTime timeout event).inMem m') ∧
      WheelHeld m' (timer.addWheel n currentTime timeout event).inner
        (Function.update name p (some n)) shelf' home' none := by
  have hloose := (h.startAt currentTime).malloc hp hn junk
  obtain ⟨m', shelf', home', hm', h'⟩ := hloose.insertElem (e := ⟨n, 0, 0, 0, event⟩)
    (Function.update_self ..) currentTime timeout
  refine ⟨m', shelf', home', ?_, ?_⟩
  · have hinner : (timer.inMem m).inner = timer.inner.inMem m := rfl
    rw [TimerMem.addWheel, hinner, inMem_startAt]
    have hmalloc : ({ (timer.inner.startAt currentTime).inMem m with
        spokes := ((timer.inner.startAt currentTime).inMem m).spokes.malloc p junk } :
          WheelMem π ε) = (timer.inner.startAt currentTime).inMem (m.malloc p junk) := rfl
    rw [hmalloc, hm']
    rfl
  · rw [ZxTimer.addWheel_inner]
    exact h'

/-- **`zx_timer_del`**. -/
lemma delWheel {timer : ZxTimer (TimerWheel ε)}
    (h : WheelHeld m timer.inner name shelf home none) (hp : name p = some n)
    {r : ℕ × ZxTimer (TimerWheel ε)} (hr : timer.delWheel n = some r) :
    ∃ m' shelf' home', TimerMem.delWheel (timer.inMem m) p = some (r.1, r.2.inMem m') ∧
      WheelHeld m' r.2.inner (Function.update name p none) shelf' home' none := by
  obtain ⟨e, he, rfl⟩ := ZxTimer.delWheel_spec hr
  obtain ⟨-, helem, -⟩ := h.exists_split hp he
  obtain ⟨c, hc, hval⟩ := exists_fields helem
  obtain ⟨m₁, shelf', home', hm₁, h₁⟩ := h.removeElem hp he
  obtain ⟨m', hm', h'⟩ := h₁.free
  have hcursor : c.val.cursor = e.cursor := by rw [hval, TimerElem.fields]
  have hexpire : c.val.expire = e.expire := by rw [hval, TimerElem.fields]
  refine ⟨m', shelf', home', ?_, ?_⟩
  · have hspokes : (timer.inMem m).inner.spokes = m := rfl
    rw [TimerMem.delWheel, hspokes]
    simp only [hc, Option.bind_eq_bind, Option.bind_some, hcursor, hm₁, hm', hexpire]
    rfl
  · rw [ZxTimer.countDown_inner]
    exact h'

/-- **`zx_timer_reset`**. -/
lemma resetWheel {timer t : ZxTimer (TimerWheel ε)}
    (h : WheelHeld m timer.inner name shelf home none) (hp : name p = some n)
    (ht : timer.resetWheel n currentTime timeout = some t) :
    ∃ m' shelf' home',
      TimerMem.resetWheel (timer.inMem m) p currentTime timeout = some (t.inMem m') ∧
      WheelHeld m' t.inner name shelf' home' none := by
  obtain ⟨e, he, rfl⟩ := ZxTimer.resetWheel_spec ht
  obtain ⟨-, helem, -⟩ := h.exists_split hp he
  obtain ⟨c, hc, hval⟩ := exists_fields helem
  obtain ⟨m₁, shelf₁, home₁, hm₁, h₁⟩ := h.removeElem hp he
  obtain ⟨m', shelf', home', hm', h'⟩ := (h₁.startAt currentTime).insertElem helem.1 currentTime
    timeout
  have hcursor : c.val.cursor = e.cursor := by rw [hval, TimerElem.fields]
  have hevent : c.val.event = e.event := by rw [hval, TimerElem.fields]
  refine ⟨m', shelf', home', ?_, h'⟩
  have hspokes : (timer.inMem m).inner.spokes = m := rfl
  have hstart : TimerMem.startAt { (timer.inMem m).inner with spokes := m₁ } currentTime =
      ((timer.inner.removeElem e).startAt currentTime).inMem m₁ :=
    inMem_startAt (timer.inner.removeElem e) m₁ currentTime
  rw [TimerMem.resetWheel, hspokes]
  simp only [hc, Option.bind_eq_bind, Option.bind_some, hcursor, hm₁, hstart, hevent, hm']
  rfl

/-! ### The loops of a check -/

/-- **The inner loop of `zx_timer_check`**, from the middle of a spoke. -/
lemma walkLoop {lists : ℕ → List (TimerElem ε)} {q₁ q₂ : List π} {l₁ l₂ : List (TimerElem ε)}
    (h : Tracked id m lists name shelf home) (hi : shelf i = some (q₁ ++ q₂))
    (hl : lists i = l₁ ++ l₂) (hlen : q₁.length = l₁.length)
    (hhome : ∀ x, (name x).isSome = true → (home x).isSome = true) {fuel : ℕ}
    (hfuel : q₂.length < fuel) (maxCbTimes cbCnt : ℕ) (timer : ZxTimer (TimerWheel ε)) :
    let walk := walkSpoke maxCbTimes l₂ cbCnt
    ∃ m' q' home', TimerMem.walkLoop maxCbTimes i fuel q₂.head? cbCnt (timer.inMem m) =
        some ⟨walk.fired.map TimerElem.event, walk.cut,
          (ZxTimer.countDown^[walk.fired.length] timer).inMem m'⟩ ∧
      Tracked id m' (Function.update lists i (l₁ ++ walk.kept))
        (forget name (walk.fired.map TimerElem.id)) (Function.update shelf i (some q')) home' ∧
      ∀ x, (forget name (walk.fired.map TimerElem.id) x).isSome = true →
        (home' x).isSome = true := by
  have hsame : List.Forall₂ (ElemAt id m name) (q₁ ++ q₂) (l₁ ++ l₂) := hl ▸ h.same i _ hi
  induction l₂ generalizing q₁ q₂ l₁ m lists name shelf home fuel cbCnt timer with
  | nil =>
      have hnil : q₂ = [] := by
        have hlength := hsame.length_eq
        rw [List.length_append, List.append_nil, hlen] at hlength
        exact List.eq_nil_of_length_eq_zero (by omega)
      subst hnil
      obtain ⟨k, rfl⟩ := Nat.exists_eq_add_one.mpr hfuel
      refine ⟨m, q₁ ++ [], home, rfl, ?_, ?_⟩
      · rw [walkSpoke, List.map_nil, forget_nil, ← hl, ← hi, Function.update_eq_self,
          Function.update_eq_self]
        exact h
      · rw [walkSpoke, List.map_nil, forget_nil]
        exact hhome
  | cons e l₂ ih =>
      obtain ⟨x₁, p, x₂, hx, hflip₁, helem, hflip₂⟩ := forall₂_middle hsame.flip
      have hlen₁ : q₁.length = x₁.length := hlen.trans hflip₁.length_eq
      obtain ⟨rfl, rfl⟩ := List.append_inj hx hlen₁
      have h₁ : List.Forall₂ (ElemAt id m name) q₁ l₁ := hflip₁.flip
      have h₂ : List.Forall₂ (ElemAt id m name) x₂ l₂ := hflip₂.flip
      obtain ⟨k, rfl⟩ := Nat.exists_eq_add_one.mpr (Nat.zero_lt_of_lt hfuel)
      have hfuel' : x₂.length < k := by
        rw [List.length_cons] at hfuel
        omega
      obtain ⟨c, hc, hval⟩ := exists_fields helem
      have hrotation : c.val.rotationCnt = e.rotationCnt := by rw [hval, TimerElem.fields]
      have hevent : c.val.event = e.event := by rw [hval, TimerElem.fields]
      have hmem : (timer.inMem m).inner.spokes = m := rfl
      rw [walkSpoke]
      by_cases hzero : e.rotationCnt ≠ 0
      · -- the element stays for another round
        obtain ⟨m₁, hm₁, h'⟩ := h.rewrite hi hl h₁ helem h₂ (f := decr e) rfl
          (v := { c.val with rotationCnt := e.rotationCnt - 1 }) (by rw [hval]; rfl)
        have hnext : m₁.tailqNext p = some x₂.head? := h'.threaded.next hi
        have hi' : shelf i = some ((q₁ ++ [p]) ++ x₂) := by
          rw [hi, List.append_assoc, List.singleton_append]
        have hl' : Function.update lists i (l₁ ++ decr e :: l₂) i = (l₁ ++ [decr e]) ++ l₂ := by
          rw [Function.update_self, List.append_assoc, List.singleton_append]
        have hlen' : (q₁ ++ [p]).length = (l₁ ++ [decr e]).length := by
          rw [List.length_append, List.length_append, hlen]
          rfl
        obtain ⟨m', q', home', hm', hrec, hkept⟩ :=
          ih h' hi' hl' hlen' hhome hfuel' cbCnt timer (hl' ▸ h'.same i _ hi')
        rw [if_pos hzero]
        refine ⟨m', q', home', ?_, ?_, hkept⟩
        · have hspokes : TimerMem.withSpokes (timer.inMem m) m₁ = timer.inMem m₁ := rfl
          rw [List.head?_cons, TimerMem.walkLoop]
          simp only [hmem, hc, Option.bind_eq_bind, Option.bind_some, hrotation, if_pos hzero, hm₁,
            hnext, hspokes]
          exact hm'
        · rw [Function.update_idem, List.append_assoc] at hrec
          exact hrec
      · by_cases hcut : cbCnt ≥ maxCbTimes
        · -- the budget is spent
          rw [if_neg hzero, if_pos hcut]
          refine ⟨m, q₁ ++ p :: x₂, home, ?_, ?_, ?_⟩
          · rw [List.head?_cons, TimerMem.walkLoop]
            simp only [hmem, hc, Option.bind_eq_bind, Option.bind_some, hrotation, if_neg hzero,
              if_pos hcut]
            rfl
          · rw [List.map_nil, forget_nil, ← hl, ← hi, Function.update_eq_self,
              Function.update_eq_self]
            exact h
          · rw [List.map_nil, forget_nil]
            exact hhome
        · -- the callback runs, and the element is freed
          have hnext : m.tailqNext p = some x₂.head? := h.threaded.next hi
          obtain ⟨m₁, hm₁, hrec₁, -⟩ := h.remove hi h₁ h₂
          obtain ⟨m₂, hm₂, hrec₂⟩ := hrec₁.free (Function.update_self ..) helem.1
          have hhome₂ : ∀ x, (Function.update name p none x).isSome = true →
              (Function.update home p none x).isSome = true := by
            intro x hx
            by_cases hxp : x = p
            · rw [hxp, Function.update_self] at hx
              cases hx
            · rw [Function.update_of_ne hxp] at hx ⊢
              exact hhome x hx
          have hsame₂ := hrec₂.same i _ (Function.update_self ..)
          rw [Function.update_self] at hsame₂
          obtain ⟨m', q', home', hm', hrec, hkept⟩ := ih hrec₂ (Function.update_self ..)
            (Function.update_self ..) hlen hhome₂ hfuel' (cbCnt + 1) timer.countDown hsame₂
          rw [if_neg hzero, if_neg hcut]
          refine ⟨m', q', home', ?_, ?_, ?_⟩
          · have hspokes : (TimerMem.withSpokes (timer.inMem m) m₂).countDown =
                timer.countDown.inMem m₂ := rfl
            rw [List.head?_cons, TimerMem.walkLoop]
            simp only [hmem, hc, Option.bind_eq_bind, Option.bind_some, hrotation, if_neg hzero,
              if_neg hcut, hnext, hm₁, hm₂, hspokes, hm', hevent]
            rw [List.map_cons, List.length_cons, Function.iterate_succ_apply]
            rfl
          · rw [List.map_cons, forget_cons h.inj helem.1]
            rw [Function.update_idem, Function.update_idem] at hrec
            exact hrec
          · rw [List.map_cons, forget_cons h.inj helem.1]
            exact hkept

omit [DecidableEq π] in
/-- Neither the counters nor the lists are in the memory of the elements. -/
lemma inMem_countDown (timer : ZxTimer (TimerWheel ε)) {wheel : TimerWheel ε}
    (h : wheel.inMem m = timer.inner.inMem m) (k : ℕ) :
    (ZxTimer.countDown^[k] { timer with inner := wheel }).inMem m =
      (ZxTimer.countDown^[k] timer).inMem m := by
  rw [ZxTimer.countDown_iterate_with timer k wheel, ZxTimer.inMem, ZxTimer.inMem,
    ZxTimer.countDown_iterate_inner, ← h]

/-- **The outer loop of `zx_timer_check`.** -/
lemma tickLoop {timer : ZxTimer (TimerWheel ε)}
    (h : WheelHeld m timer.inner name shelf home none) {next fuel : ℕ}
    (hnext : ∀ x n, name x = some n → n < next) (hfuel : next < fuel) (maxCbTimes n cbCnt : ℕ) :
    let r := TimerWheel.tickLoop maxCbTimes n timer.inner cbCnt
    ∃ m' shelf' home', TimerMem.tickLoop fuel maxCbTimes n (timer.inMem m) cbCnt =
        some ⟨r.fired.map TimerElem.event, r.cut,
          (ZxTimer.countDown^[r.fired.length] { timer with inner := r.wheel }).inMem m'⟩ ∧
      WheelHeld m' r.wheel (forget name (r.fired.map TimerElem.id)) shelf' home' none := by
  induction n generalizing timer m name shelf home cbCnt with
  | zero =>
      refine ⟨m, shelf, home, rfl, ?_⟩
      rw [TimerWheel.tickLoop, List.map_nil, forget_nil]
      exact h
  | succ n ih =>
      obtain ⟨q, hq⟩ := h.shelf_eq h.index
      have hhome : ∀ x, (name x).isSome = true → (home x).isSome = true := by
        intro x hx
        rw [Option.isSome_iff_ne_none]
        intro hnone
        have hloose := (h.loose_iff x).mpr ⟨hx, hnone⟩
        cases hloose
      have hsplit : shelf timer.inner.spokeIndex = some ([] ++ q) := hq
      obtain ⟨m₁, q', home₁, hm₁, hrec, hkept⟩ := walkLoop h.tracked hsplit
        (List.nil_append _).symm rfl hhome ((h.tracked.length_le hnext hq).trans_lt hfuel)
        maxCbTimes cbCnt timer
      rw [TimerMem.tickLoop, TimerWheel.tickLoop]
      set walk := walkSpoke maxCbTimes (timer.inner.spokes timer.inner.spokeIndex) cbCnt with hwalk
      have hfirst : (timer.inMem m).inner.spokes.tailqFirst timer.inner.spokeIndex =
          some q.head? := h.tracked.threaded.first hq
      have hindex : (timer.inMem m).inner.spokeIndex = timer.inner.spokeIndex := rfl
      -- after the round
      have h₁ : WheelHeld m₁ (timer.inner.walked walk.kept)
          (forget name (walk.fired.map TimerElem.id))
          (Function.update shelf timer.inner.spokeIndex (some q')) home₁ none := by
        refine ⟨hrec, fun i => ?_, fun x => ?_, h.seated.walked h.index maxCbTimes cbCnt, h.index⟩
        · by_cases hi : i = timer.inner.spokeIndex
          · rw [hi, Function.update_self]
            exact iff_of_true rfl h.index
          · rw [Function.update_of_ne hi]
            exact h.heads i
        · refine iff_of_false (by simp) ?_
          rintro ⟨hname, hnone⟩
          have hsome := hkept x hname
          rw [hnone] at hsome
          cases hsome
      have hinner : (timer.inner.walked walk.kept).inMem m₁ = timer.inner.inMem m₁ := rfl
      have hmem₁ := inMem_countDown timer hinner walk.fired.length
      simp only [hfirst, hindex, Option.bind_eq_bind, Option.bind_some, hm₁]
      by_cases hcut : walk.cut = true
      · rw [if_pos hcut, if_pos hcut]
        refine ⟨m₁, _, home₁, ?_, h₁⟩
        rw [hmem₁, hcut]
        rfl
      · rw [if_neg hcut, if_neg hcut]
        have hnext₁ : ∀ x k, forget name (walk.fired.map TimerElem.id) x = some k → k < next :=
          fun x k hk => hnext x k (forget_eq_some.mp hk).1
        have h₂ : WheelHeld m₁ ({ ZxTimer.countDown^[walk.fired.length] timer with
            inner := (timer.inner.walked walk.kept).nextSpoke } : ZxTimer (TimerWheel ε)).inner
            (forget name (walk.fired.map TimerElem.id))
            (Function.update shelf timer.inner.spokeIndex (some q')) home₁ none :=
          ⟨h₁.tracked, h₁.heads, h₁.loose_iff, h₁.seated.nextSpoke,
            Nat.mod_lt _ (Nat.zero_lt_of_lt h₁.index)⟩
        obtain ⟨m', shelf', home', hm', h'⟩ := ih h₂ hnext₁ (cbCnt + walk.fired.length)
        have hstep : TimerMem.nextSpoke ((ZxTimer.countDown^[walk.fired.length] timer).inMem m₁) =
            ({ ZxTimer.countDown^[walk.fired.length] timer with
              inner := (timer.inner.walked walk.kept).nextSpoke } :
                ZxTimer (TimerWheel ε)).inMem m₁ := by
          rw [TimerMem.nextSpoke, ZxTimer.inMem, ZxTimer.countDown_iterate_inner]
          rfl
        dsimp only at hm' h'
        set r := TimerWheel.tickLoop maxCbTimes n (timer.inner.walked walk.kept).nextSpoke
          (cbCnt + walk.fired.length) with hr
        have hcount : ZxTimer.countDown^[(walk.fired ++ r.fired).length]
            { timer with inner := r.wheel } = ZxTimer.countDown^[r.fired.length]
              { ZxTimer.countDown^[walk.fired.length] timer with inner := r.wheel } := by
          rw [List.length_append, Nat.add_comm walk.fired.length, Function.iterate_add_apply,
            ZxTimer.countDown_iterate_with timer walk.fired.length r.wheel]
        refine ⟨m', shelf', home', ?_, ?_⟩
        · rw [hstep, List.length_map, hm', Option.bind_some]
          dsimp only
          rw [hcount, List.map_append]
          rfl
        · rw [List.map_append, forget_append]
          exact h'

/-- **`zx_timer_check`**. -/
lemma checkWheel {timer : ZxTimer (TimerWheel ε)}
    (h : WheelHeld m timer.inner name shelf home none) {next fuel : ℕ}
    (hnext : ∀ x n, name x = some n → n < next) (hfuel : next < fuel) {maxCbTimes : ℕ}
    {r : List (TimerElem ε) × ZxTimer (TimerWheel ε)}
    (hr : timer.checkWheel currentTime maxCbTimes = some r) :
    ∃ m' shelf' home', TimerMem.checkWheel fuel (timer.inMem m) currentTime maxCbTimes =
        some (r.1.map TimerElem.event, r.2.inMem m') ∧
      WheelHeld m' r.2.inner (forget name (r.1.map TimerElem.id)) shelf' home' none := by
  have hcreate : (timer.inMem m).inner.createTime = timer.inner.createTime := rfl
  rw [ZxTimer.checkWheel] at hr
  rw [TimerMem.checkWheel, hcreate]
  dsimp only at hr ⊢
  by_cases hunstarted : timer.inner.createTime = ulongMax
  · rw [if_pos hunstarted] at hr ⊢
    obtain rfl := Option.some.inj hr
    refine ⟨m, shelf, home, rfl, ?_⟩
    rw [List.map_nil, forget_nil]
    exact h
  · rw [if_neg hunstarted] at hr ⊢
    have hcnt : usub 64 (usub 64 currentTime timer.inner.createTime)
        (timer.inMem m).inner.lastCheckRelativeTick = timer.inner.tickCnt currentTime := rfl
    obtain ⟨m', shelf', home', hm', h'⟩ := h.tickLoop hnext hfuel maxCbTimes
      (min (timer.inner.tickCnt currentTime) (2 ^ 31)) 0
    have hframe := TimerWheel.tickLoop_frame maxCbTimes
      (min (timer.inner.tickCnt currentTime) (2 ^ 31)) 0 h.index
    dsimp only at hm' h' hframe
    set ticks := TimerWheel.tickLoop maxCbTimes (min (timer.inner.tickCnt currentTime) (2 ^ 31))
      timer.inner 0 with hticks
    rw [hcnt, hm']
    simp only [Option.bind_eq_bind, Option.bind_some]
    split_ifs at hr ⊢ with hrange
    obtain rfl := Option.some.inj hr
    refine ⟨m', shelf', home', ?_, ?_⟩
    · rw [ZxTimer.countDown_iterate_with timer ticks.fired.length ticks.wheel,
        ZxTimer.countDown_iterate_with timer ticks.fired.length
          { ticks.wheel with lastCheckRelativeTick := usub 64 currentTime timer.inner.createTime },
        ← hframe.2.1]
      rfl
    · rw [ZxTimer.countDown_iterate_inner]
      exact ⟨h'.tracked, h'.heads, h'.loose_iff, h'.seated, h'.index⟩

/-! ### Creation and destruction -/

omit [DecidableEq π] in
/-- The loop of `zx_timer_create`. -/
lemma init_spokes (n : ℕ) :
    Threaded ((List.range n).foldl (fun spokes i => spokes.tailqInit i)
        (TqMem.start : ElemMem ℕ π ε)) (fun i => if i < n then some [] else none) (fun _ => none) ∧
      ∀ p, ((List.range n).foldl (fun spokes i => spokes.tailqInit i)
        (TqMem.start : ElemMem ℕ π ε)).elems p = none := by
  induction n with
  | zero => exact ⟨⟨Shelved.empty, fun i => rfl⟩, fun p => rfl⟩
  | succ n ih =>
      obtain ⟨h, helems⟩ := ih
      have hshelf : Function.update (fun i => if i < n then some ([] : List π) else none) n
          (some []) = fun i => if i < n + 1 then some [] else none := by
        funext i
        by_cases hi : i = n
        · rw [hi, Function.update_self, if_pos n.lt_succ_self]
        · rw [Function.update_of_ne hi]
          exact if_congr (by omega) rfl rfl
      rw [List.range_succ, List.foldl_append]
      refine ⟨?_, helems⟩
      rw [← hshelf]
      exact h.init_new (if_neg n.lt_irrefl)

omit [DecidableEq π] in
/-- The spokes of a new wheel are empty. -/
lemma create {wheelSize : ℕ} {timer : ZxTimer (TimerWheel ε)}
    (hcreate : ZxTimer.createWheel wheelSize = some timer) :
    ∃ m shelf, TimerMem.createWheel wheelSize = some (timer.inMem (m : ElemMem ℕ π ε)) ∧
      WheelHeld m timer.inner (fun _ => none) shelf (fun _ => none) none := by
  obtain ⟨h, helems⟩ := init_spokes (π := π) (ε := ε) wheelSize
  have hcode := hcreate
  rw [ZxTimer.createWheel] at hcode
  split_ifs at hcode with hsize
  obtain ⟨hpos, -, rfl⟩ := ZxTimer.createWheel_spec hcreate
  refine ⟨_, _, by rw [TimerMem.createWheel, if_neg hsize]; rfl, ⟨h, fun p => ?_, ?_, ?_⟩,
    fun i => ?_, fun p => ?_, ?_, hpos⟩
  · rw [helems p]
    rfl
  · rintro p x n hp
    cases hp
  · intro i q hi
    split_ifs at hi
    obtain rfl := Option.some.inj hi
    exact .nil
  · split_ifs with hi
    · exact iff_of_true rfl hi
    · exact iff_of_false (by simp) hi
  · exact iff_of_false (by simp) (by simp)
  · rintro c - e he
    cases he

/-- The loop of `zx_timer_destroy` frees a list. -/
lemma freeLoop {ι : Type} {m : ElemMem ι π ε} {b : Slot ι π} {q : List π} {fuel : ℕ}
    (hlinked : Linked .next m.elems b q none) (hnodup : q.Nodup) (hfuel : q.length < fuel) :
    TimerMem.freeLoop fuel q.head? m =
      some ⟨fun p => if p ∈ q then none else m.elems p, m.heads⟩ := by
  induction q generalizing m b fuel with
  | nil =>
      obtain ⟨k, rfl⟩ := Nat.exists_eq_add_one.mpr hfuel
      simp [TimerMem.freeLoop]
  | cons p q ih =>
      obtain ⟨k, rfl⟩ := Nat.exists_eq_add_one.mpr (Nat.zero_lt_of_lt hfuel)
      obtain ⟨⟨v, hv⟩, hrest⟩ := hlinked
      obtain ⟨hp, hnodup⟩ := List.nodup_cons.mp hnodup
      rw [List.head?_cons, TimerMem.freeLoop]
      simp only [TqMem.tailqNext, hv, Option.map_some, Option.bind_eq_bind, Option.bind_some,
        TqMem.free, Cells.free_eq hv, Option.or_none]
      have hcells : (fun y => if y ∈ q then none else Function.update m.elems p none y) =
          fun y => if y ∈ p :: q then none else m.elems y := by
        funext y
        by_cases hy : y = p
        · rw [hy, Function.update_self]
          simp
        · rw [Function.update_of_ne hy]
          simp [hy]
      rw [ih ((linked_update hp).mpr hrest) hnodup (by rw [List.length_cons] at hfuel; omega)]
      simp only [hcells]

end WheelHeld

end CLibrary
