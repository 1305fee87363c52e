import CLibrary.Timer.WheelMemory

/-!
The queue timer in memory refines the queue timer of lists.

* `QueueHeld`: the memory holds a queue.  What is allocated and not in the queue is
  what a refused reset has unlinked.
* `QueueHeld.addQueue`, `delQueue`, `checkQueue`, `resetQueue`: every operation does
  what it does to the list.
* `QueueHeld.destroyQueue`: a destroy frees the queue and nothing else.
-/

namespace CLibrary

variable {π ε : Type}

/-- The members that the queue timer looks at. -/
def queueKey (f : ElemFields ε) : ℕ × ε := (f.expire, f.event)

/-- The memory holds a queue: at the addresses `q` are its elements. -/
abbrev QueueHeld (m : ElemMem Unit π ε) (queue : List (TimerElem ε)) (name : π → Option ℕ)
    (q : List π) (home : π → Option Unit) : Prop :=
  Tracked queueKey m (fun _ => queue) name (fun _ => some q) home

/-- The timer with its elements in memory. -/
def ZxTimer.queueInMem (timer : ZxTimer (TimerQueue ε)) (m : ElemMem Unit π ε) :
    ZxTimer (QueueMem π ε) :=
  ⟨⟨timer.inner.lastExpireTime, m⟩, timer.elemCnt, timer.memOcupy⟩

lemma update_unit {α : Type*} (x y : α) :
    Function.update (fun _ : Unit => x) () y = fun _ => y :=
  funext fun _ => Function.update_self ..

namespace QueueHeld

variable {m : ElemMem Unit π ε} {queue : List (TimerElem ε)} {name : π → Option ℕ} {q : List π}
  {home : π → Option Unit} {p : π} {n : ℕ} {e : TimerElem ε} {currentTime timeout : ℕ}

/-- What an element in memory holds. -/
lemma exists_key (hp : ElemAt queueKey m name p e) :
    ∃ c, m.elems p = some c ∧ c.val.expire = e.expire ∧ c.val.event = e.event := by
  obtain ⟨c, hc, hkey⟩ := Option.map_eq_some_iff.mp hp.2
  obtain ⟨hexpire, hevent⟩ := Prod.mk.inj hkey
  exact ⟨c, hc, hexpire, hevent⟩

/-- **The tail** of the queue in memory. -/
lemma tailExpire (h : QueueHeld m queue name q home) :
    TimerMem.tailExpire m = some (ZxTimer.tailExpire queue) := by
  have hsame := h.same () q rfl
  have hempty : m.tailqEmpty () = some q.isEmpty := h.threaded.empty rfl
  have hlast : m.tailqLast () = some q.getLast? := h.threaded.last rfl
  rw [TimerMem.tailExpire, hempty]
  rcases List.eq_nil_or_concat' q with rfl | ⟨front, p, rfl⟩
  · have hnil : queue = [] := List.forall₂_nil_left_iff.mp hsame
    rw [hnil]
    rfl
  · obtain ⟨l₁, e, l₂, hl, -, hp, h₂⟩ := forall₂_middle hsame
    obtain rfl : l₂ = [] := List.forall₂_nil_left_iff.mp h₂
    obtain ⟨c, hc, hexpire, -⟩ := exists_key hp
    have hqueue : queue = l₁ ++ [e] := hl
    rw [ZxTimer.tailExpire, hqueue, List.getLast?_concat]
    simp only [Option.bind_eq_bind, Option.bind_some, hlast, List.getLast?_concat, hc, hexpire]
    rw [if_pos (by simp)]
    rfl

/-- An element that is linked, at its address. -/
lemma exists_split (h : QueueHeld m queue name q home) (hp : name p = some n)
    (he : elemOf queue n = some e) :
    ElemAt queueKey m name p e ∧ ∃ q₁ q₂ l₁ l₂, q = q₁ ++ p :: q₂ ∧ queue = l₁ ++ e :: l₂ ∧
      List.Forall₂ (ElemAt queueKey m name) q₁ l₁ ∧
      List.Forall₂ (ElemAt queueKey m name) q₂ l₂ := by
  obtain ⟨hmem, rfl⟩ := elemOf_spec he
  obtain ⟨l₁, l₂, rfl⟩ := List.append_of_mem hmem
  obtain ⟨q₁, x, q₂, rfl, h₁, hx, h₂⟩ := forall₂_middle (h.same () q rfl).flip
  obtain rfl : x = p := h.inj x p e.id hx.1 hp
  exact ⟨hx, q₁, q₂, l₁, l₂, rfl, rfl, h₁.flip, h₂.flip⟩

variable [DecidableEq π]

/-- **`TAILQ_REMOVE`**. -/
lemma remove (h : QueueHeld m queue name q home) (hp : name p = some n)
    (he : elemOf queue n = some e) :
    ∃ m' q' home', m.tailqRemove () p = some m' ∧ QueueHeld m' (unlink queue n) name q' home' ∧
      home' p = none ∧ m'.elems p = m.elems p := by
  obtain ⟨helem, q₁, q₂, l₁, l₂, rfl, rfl, h₁, h₂⟩ := h.exists_split hp he
  obtain rfl : e.id = n := (elemOf_spec he).2
  obtain ⟨m', hm', h', hself⟩ := Tracked.remove h (i := ()) rfl h₁ h₂
  rw [update_unit, update_unit] at h'
  rw [unlink_middle (Tracked.id_ne h (i := ()) rfl h₁ helem)]
  exact ⟨m', q₁ ++ q₂, _, hm', h', Function.update_self .., hself⟩

/-- **`TAILQ_INSERT_TAIL`**. -/
lemma insertTail (h : QueueHeld m queue name q home) (hhome : home p = none)
    (hp : ElemAt queueKey m name p e) :
    ∃ m' q' home', m.tailqInsertTail () p = some m' ∧
      QueueHeld m' (queue ++ [e]) name q' home' := by
  obtain ⟨m', hm', h'⟩ := Tracked.insertTail h (i := ()) rfl hhome hp
  rw [update_unit, update_unit] at h'
  exact ⟨m', q ++ [p], _, hm', h'⟩

/-- **`zx_timer_add`**. -/
lemma addQueue {timer : ZxTimer (TimerQueue ε)} (h : QueueHeld m timer.inner.queue name q home)
    (hp : name p = none) (hn : ∀ x, name x ≠ some n)
    (junk : Cell π (Slot Unit π) (ElemFields ε)) (currentTime timeout : ℕ) (event : ε) :
    let r := timer.addQueue n currentTime timeout event
    ∃ m' q' home', TimerMem.addQueue (timer.queueInMem m) p junk currentTime timeout event =
        some (r.1, r.2.queueInMem m') ∧
      QueueHeld m' r.2.inner.queue
        (if r.1 = 0 then Function.update name p (some n) else name) q' home' := by
  have hlast : (timer.queueInMem m).inner.lastExpireTime = timer.inner.lastExpireTime := rfl
  have hqueue : (timer.queueInMem m).inner.queue = m := rfl
  rw [TimerMem.addQueue, ZxTimer.addQueue, hlast, hqueue]
  dsimp only
  by_cases hearly : uadd 64 currentTime timeout < timer.inner.lastExpireTime
  · rw [if_pos hearly, if_pos hearly]
    have hret : ¬ (-1 : ℤ) = 0 := by decide
    exact ⟨m, q, home, rfl, by rw [if_neg hret]; exact h⟩
  · rw [if_neg hearly, if_neg hearly]
    have h₁ := Tracked.malloc h hp hn junk
    obtain ⟨m₂, hm₂, h₂, hval⟩ := h₁.setVal (h.home_none hp) (Function.update_self ..)
      { junk.val with expire := uadd 64 currentTime timeout, event := event }
    have helem : ElemAt queueKey m₂ (Function.update name p (some n)) p
        ⟨n, uadd 64 currentTime timeout, 0, 0, event⟩ := by
      refine ⟨Function.update_self .., ?_⟩
      have hkey := congrArg (Option.map queueKey) hval
      rw [Option.map_map] at hkey
      exact hkey
    obtain ⟨m', q', home', hm', h'⟩ := insertTail h₂ (h.home_none hp) helem
    refine ⟨m', q', home', ?_, ?_⟩
    · simp only [hm₂, Option.bind_eq_bind, Option.bind_some, hm']
      rfl
    · rw [if_pos rfl, ZxTimer.countUp_inner]
      exact h'

/-- **`zx_timer_del`**. -/
lemma delQueue {timer : ZxTimer (TimerQueue ε)} (h : QueueHeld m timer.inner.queue name q home)
    (hp : name p = some n) {r : ℕ × ZxTimer (TimerQueue ε)} (hr : timer.delQueue n = some r) :
    ∃ m' q' home', TimerMem.delQueue (timer.queueInMem m) p = some (r.1, r.2.queueInMem m') ∧
      QueueHeld m' r.2.inner.queue (Function.update name p none) q' home' := by
  rw [ZxTimer.delQueue] at hr
  cases he : elemOf timer.inner.queue n with
  | none => rw [he] at hr; cases hr
  | some e =>
      rw [he] at hr
      obtain rfl := Option.some.inj hr
      obtain ⟨helem, -⟩ := h.exists_split hp he
      obtain ⟨c, hc, hexpire, -⟩ := exists_key helem
      obtain ⟨m₁, q', home', hm₁, h₁, hhome, -⟩ := h.remove hp he
      obtain ⟨m', hm', h'⟩ := Tracked.free h₁ hhome hp
      have hqueue : (timer.queueInMem m).inner.queue = m := rfl
      refine ⟨m', q', home', ?_, ?_⟩
      · rw [TimerMem.delQueue, hqueue]
        simp only [hc, hm₁, h₁.tailExpire, hm', Option.bind_eq_bind, Option.bind_some, hexpire]
        rfl
      · rw [ZxTimer.countDown_inner]
        exact h'

/-- **`zx_timer_reset`**. -/
lemma resetQueue {timer : ZxTimer (TimerQueue ε)} (h : QueueHeld m timer.inner.queue name q home)
    (hp : name p = some n) {r : ℤ × ZxTimer (TimerQueue ε)}
    (hr : timer.resetQueue n currentTime timeout = some r) :
    ∃ m' q' home', TimerMem.resetQueue (timer.queueInMem m) p currentTime timeout =
        some (r.1, r.2.queueInMem m') ∧
      QueueHeld m' r.2.inner.queue name q' home' := by
  obtain ⟨e, he⟩ := ZxTimer.resetQueue_linked hr
  rw [ZxTimer.resetQueue_of_linked he, Option.some_inj] at hr
  subst hr
  obtain ⟨helem, -⟩ := h.exists_split hp he
  obtain ⟨c, hc, -, hevent⟩ := exists_key helem
  obtain ⟨m₁, q₁, home₁, hm₁, h₁, hhome, hself⟩ := h.remove hp he
  have hqueue : (timer.queueInMem m).inner.queue = m := rfl
  rw [TimerMem.resetQueue, hqueue]
  simp only [hm₁, h₁.tailExpire, Option.bind_eq_bind, Option.bind_some]
  by_cases hearly : uadd 64 currentTime timeout < ZxTimer.tailExpire (unlink timer.inner.queue n)
  · rw [if_pos hearly, if_pos hearly]
    exact ⟨m₁, q₁, home₁, rfl, h₁⟩
  · rw [if_neg hearly, if_neg hearly]
    obtain ⟨m₂, hm₂, h₂, hval⟩ := Tracked.setVal h₁ hhome hp
      { c.val with expire := uadd 64 currentTime timeout }
    have helem₂ : ElemAt queueKey m₂ name p { e with expire := uadd 64 currentTime timeout } := by
      refine ⟨helem.1, ?_⟩
      have hkey := congrArg (Option.map queueKey) hval
      rw [Option.map_map, Option.map_some] at hkey
      refine hkey.trans (congrArg some ?_)
      rw [queueKey, queueKey, hevent]
      rfl
    obtain ⟨m', q', home', hm', h'⟩ := insertTail h₂ hhome helem₂
    refine ⟨m', q', home', ?_, h'⟩
    simp only [hself, hc, hm₂, hm', Option.bind_some]
    rfl

/-- **The loop of `zx_timer_check`.** -/
lemma queueLoop {l : List (TimerElem ε)} (h : QueueHeld m l name q home) {fuel : ℕ}
    (hfuel : q.length < fuel) (maxCbTimes cbCnt : ℕ) (timer : ZxTimer (TimerQueue ε)) :
    let r := ZxTimer.queueLoop currentTime maxCbTimes l cbCnt
    ∃ m' q' home', TimerMem.queueLoop currentTime maxCbTimes fuel q.head? cbCnt
        (timer.queueInMem m) = some (r.2.map TimerElem.event,
          (ZxTimer.countDown^[r.2.length] timer).queueInMem m') ∧
      QueueHeld m' r.1 (forget name (r.2.map TimerElem.id)) q' home' := by
  induction l generalizing q m name home fuel cbCnt timer with
  | nil =>
      obtain rfl : q = [] := List.forall₂_nil_right_iff.mp (h.same () q rfl)
      obtain ⟨k, rfl⟩ := Nat.exists_eq_add_one.mpr hfuel
      refine ⟨m, [], home, rfl, ?_⟩
      rw [ZxTimer.queueLoop, List.map_nil, forget_nil]
      exact h
  | cons e l ih =>
      obtain ⟨p, q₂, hp, h₂, rfl⟩ := List.forall₂_cons_right_iff.mp (h.same () q rfl)
      obtain ⟨k, rfl⟩ := Nat.exists_eq_add_one.mpr (Nat.zero_lt_of_lt hfuel)
      have hfuel' : q₂.length < k := by
        rw [List.length_cons] at hfuel
        omega
      obtain ⟨c, hc, hexpire, hevent⟩ := exists_key hp
      have hqueue : (timer.queueInMem m).inner.queue = m := rfl
      rw [List.head?_cons, TimerMem.queueLoop, ZxTimer.queueLoop]
      by_cases hcut : cbCnt ≥ maxCbTimes
      · rw [if_pos hcut]
        simp only [if_pos hcut]
        refine ⟨m, p :: q₂, home, rfl, ?_⟩
        rw [List.map_nil, forget_nil]
        exact h
      · simp only [if_neg hcut, hqueue, hc, Option.bind_eq_bind, Option.bind_some, hexpire]
        by_cases hlate : currentTime < e.expire
        · simp only [if_pos hlate]
          refine ⟨m, p :: q₂, home, rfl, ?_⟩
          rw [List.map_nil, forget_nil]
          exact h
        · simp only [if_neg hlate]
          have hsplit : (some (p :: q₂) : Option (List π)) = some ([] ++ p :: q₂) := rfl
          obtain ⟨m₁, hm₁, hrec₁, hself⟩ := Tracked.remove h (i := ()) hsplit .nil h₂
          rw [update_unit, update_unit] at hrec₁
          simp only [List.nil_append] at hrec₁
          have hnext : m₁.tailqNext p = some q₂.head? := by
            have hnext' : m.tailqNext p = some q₂.head? := h.threaded.next (i := ()) hsplit
            rw [TqMem.tailqNext, hself]
            exact hnext'
          obtain ⟨m₂, hm₂, h₂'⟩ := hrec₁.free (Function.update_self ..) hp.1
          obtain ⟨m', q', home', hm', h'⟩ := ih h₂' hfuel' (cbCnt + 1) timer.countDown
          have hstep : ZxTimer.countDown { timer.queueInMem m with
              inner := { (timer.queueInMem m).inner with queue := m₂ } } =
                timer.countDown.queueInMem m₂ := rfl
          refine ⟨m', q', home', ?_, ?_⟩
          · simp only [hm₁, hnext, hm₂, Option.bind_some, hstep, hm', hevent]
            rw [List.map_cons, List.length_cons, Function.iterate_succ_apply]
            rfl
          · rw [List.map_cons, forget_cons h.inj hp.1]
            exact h'

/-- **`zx_timer_check`**. -/
lemma checkQueue {timer : ZxTimer (TimerQueue ε)} (h : QueueHeld m timer.inner.queue name q home)
    {fuel : ℕ} (hfuel : q.length < fuel) (currentTime maxCbTimes : ℕ) :
    let r := timer.checkQueue currentTime maxCbTimes
    ∃ m' q' home', TimerMem.checkQueue fuel (timer.queueInMem m) currentTime maxCbTimes =
        some (r.1.map TimerElem.event, r.2.queueInMem m') ∧
      QueueHeld m' r.2.inner.queue (forget name (r.1.map TimerElem.id)) q' home' := by
  have hfirst : (timer.queueInMem m).inner.queue.tailqFirst () = some q.head? :=
    h.threaded.first rfl
  obtain ⟨m', q', home', hm', h'⟩ := h.queueLoop hfuel maxCbTimes 0 timer
  rw [TimerMem.checkQueue, hfirst, ZxTimer.checkQueue]
  dsimp only at hm' h' ⊢
  refine ⟨m', q', home', ?_, ?_⟩
  · rw [Option.bind_eq_bind, Option.bind_some, hm', ZxTimer.countDown_iterate_with timer _
      { timer.inner with
        queue := (ZxTimer.queueLoop currentTime maxCbTimes timer.inner.queue 0).1 },
      ZxTimer.queueInMem, ZxTimer.queueInMem, ZxTimer.countDown_iterate_inner]
  · rw [ZxTimer.countDown_iterate_inner]
    exact h'

omit [DecidableEq π] in
/-- A new queue is empty. -/
lemma create : QueueHeld (TqMem.tailqInit TqMem.start () : ElemMem Unit π ε) [] (fun _ => none) []
    (fun _ => none) := by
  refine ⟨?_, fun p => rfl, ?_, fun i q hi => ?_⟩
  · have hinit := Threaded.init_new (i := ()) (⟨Shelved.empty, fun i => rfl⟩ :
      Threaded (TqMem.start : ElemMem Unit π ε) (fun _ => none) fun _ => none) rfl
    rw [update_unit] at hinit
    exact hinit
  · rintro p x n hp
    cases hp
  · obtain rfl := Option.some.inj hi
    exact .nil

/-- **`zx_timer_destroy`** frees the queue, and no element that is not in it. -/
lemma destroyQueue {timer : ZxTimer (TimerQueue ε)}
    (h : QueueHeld m timer.inner.queue name q home) {fuel : ℕ} (hfuel : q.length < fuel) :
    ∃ elems, TimerMem.destroyQueue fuel (timer.queueInMem m) = some elems ∧
      ∀ p, (elems p).isSome = true ↔
        ∃ n, name p = some n ∧ n ∉ timer.inner.queue.map TimerElem.id := by
  have hfirst : (timer.queueInMem m).inner.queue.tailqFirst () = some q.head? :=
    h.threaded.first rfl
  have hqueue : (timer.queueInMem m).inner.queue = m := rfl
  have hfree := WheelHeld.freeLoop (h.threaded.linked (i := ()) rfl)
    (h.threaded.shelved.nodup () q rfl) hfuel
  have hdestroy : TimerMem.destroyQueue fuel (timer.queueInMem m) =
      some fun p => if p ∈ q then none else m.elems p := by
    rw [TimerMem.destroyQueue, hfirst, hqueue, Option.bind_eq_bind, Option.bind_some, hfree]
    rfl
  refine ⟨_, hdestroy, fun p => ?_⟩
  by_cases hp : p ∈ q
  · -- it is in the queue
    rw [if_pos hp]
    refine iff_of_false (by simp) ?_
    rintro ⟨n, hn, hnot⟩
    obtain ⟨e, he, hpe⟩ := exists_of_mem_forall₂ (h.same () q rfl).flip hp
    obtain rfl : n = e.id := Option.some.inj (hn.symm.trans hpe.1)
    exact hnot (List.mem_map_of_mem he)
  · rw [if_neg hp, h.alloc, Option.isSome_iff_exists]
    refine exists_congr fun n => (and_iff_left_of_imp fun hn hmem => hp ?_).symm
    obtain ⟨e, he, rfl⟩ := List.mem_map.mp hmem
    obtain ⟨x, hx, hxe⟩ := exists_of_mem_forall₂ (h.same () q rfl) he
    exact h.inj x p e.id hxe.1 hn ▸ hx

end QueueHeld

end CLibrary
