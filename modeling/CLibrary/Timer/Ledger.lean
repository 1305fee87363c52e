import CLibrary.Timer.Rounds

/-!
The books of the wheel timer: where its elements are, and how many.

* `walkSpoke_perm`, `tickLoop_perm`: what the loop of a check runs and what it
  leaves make up what was linked, wherever its budget stops it.
* `insertElem_perm`, `removeElem_perm`: linking and unlinking one element.
* `Seated`: every linked element is in the spoke of its cursor, so that `del`
  and `reset` unlink from the right list.
* `Counted`: the counters against a number of elements.
* `Ledger`: every element whose add returned is linked once, or its callback has
  run once, or it was deleted once.  Every call keeps it (`Ledger.step`).
* `wheel_ledger`: it holds in every state of every run.
-/

namespace CLibrary

open scoped List

open TimerWheel

variable {ε : Type*}

/-- The fields of an element that no tick changes. -/
def TimerElem.entry (e : TimerElem ε) : ℕ × ℕ × ε := (e.id, e.expire, e.event)

lemma entry_inj {e f : TimerElem ε} (h : e.entry = f.entry) :
    e.id = f.id ∧ e.expire = f.expire ∧ e.event = f.event := by
  rw [TimerElem.entry, TimerElem.entry, Prod.mk.injEq, Prod.mk.injEq] at h
  exact h

namespace TimerWheel

/-! ### What a check runs and what it leaves -/

section Keys

variable {κ : Type*} (key : TimerElem ε → κ) {wheel : TimerWheel ε}

/-- A walk along a spoke runs or keeps every element of it; `key` is any data a
lost rotation does not change. -/
lemma walkSpoke_perm (hkey : ∀ e, key (decr e) = key e) (maxCbTimes : ℕ)
    (l : List (TimerElem ε)) (cbCnt : ℕ) :
    (walkSpoke maxCbTimes l cbCnt).fired.map key ++ (walkSpoke maxCbTimes l cbCnt).kept.map key
      ~ l.map key := by
  induction l generalizing cbCnt with
  | nil => exact .nil
  | cons e rest ih =>
      rw [walkSpoke]
      split_ifs with hrot hcut
      · have hdecr : key { e with rotationCnt := e.rotationCnt - 1 } = key e := hkey e
        dsimp only
        rw [List.map_cons, List.map_cons, hdecr]
        exact List.perm_middle.trans ((ih cbCnt).cons _)
      · exact .refl _
      · dsimp only
        rw [List.map_cons, List.map_cons, List.cons_append]
        exact (ih (cbCnt + 1)).cons _

/-- A spoke is given what a walk kept of it. -/
lemma linked_walked_perm (hspoke : wheel.spokeIndex < wheel.wheelSize)
    (kept : List (TimerElem ε)) :
    (wheel.walked kept).linked ++ wheel.spokes wheel.spokeIndex ~ wheel.linked ++ kept :=
  flatMap_update_perm wheel.spokes hspoke kept

/-- One round runs or keeps every linked element. -/
lemma walked_perm (hkey : ∀ e, key (decr e) = key e)
    (hspoke : wheel.spokeIndex < wheel.wheelSize) (maxCbTimes cbCnt : ℕ) :
    let walk := walkSpoke maxCbTimes (wheel.spokes wheel.spokeIndex) cbCnt
    walk.fired.map key ++ (wheel.walked walk.kept).linked.map key ~ wheel.linked.map key := by
  set l := wheel.spokes wheel.spokeIndex with hl
  set walk := walkSpoke maxCbTimes l cbCnt with hwalk
  have hspent : walk.fired.map key ++ walk.kept.map key ~ l.map key :=
    walkSpoke_perm key hkey maxCbTimes l cbCnt
  have hlinked : (wheel.walked walk.kept).linked.map key ++ l.map key ~
      wheel.linked.map key ++ walk.kept.map key := by
    rw [← List.map_append, ← List.map_append]
    exact (linked_walked_perm hspoke walk.kept).map key
  refine (List.perm_append_right_iff (l.map key)).mp ?_
  calc walk.fired.map key ++ (wheel.walked walk.kept).linked.map key ++ l.map key
      ~ walk.fired.map key ++ (wheel.linked.map key ++ walk.kept.map key) := by
        rw [List.append_assoc]
        exact hlinked.append_left _
    _ ~ wheel.linked.map key ++ (walk.fired.map key ++ walk.kept.map key) :=
        List.perm_append_comm_assoc _ _ _
    _ ~ wheel.linked.map key ++ l.map key := hspent.append_left _

/-- **The loop of a check** runs or keeps every linked element, with any
budget. -/
lemma tickLoop_perm (hkey : ∀ e, key (decr e) = key e)
    (hspoke : wheel.spokeIndex < wheel.wheelSize) (maxCbTimes n cbCnt : ℕ) :
    let r := tickLoop maxCbTimes n wheel cbCnt
    r.fired.map key ++ r.wheel.linked.map key ~ wheel.linked.map key := by
  induction n generalizing wheel cbCnt with
  | zero => exact .refl _
  | succ n ih =>
      have hround := walked_perm key hkey hspoke maxCbTimes cbCnt
      rw [tickLoop]
      set walk := walkSpoke maxCbTimes (wheel.spokes wheel.spokeIndex) cbCnt with hwalk
      dsimp only at hround ⊢
      split_ifs with hcut
      · exact hround
      · have hnext : (wheel.walked walk.kept).nextSpoke.spokeIndex <
            (wheel.walked walk.kept).nextSpoke.wheelSize :=
          Nat.mod_lt _ (by rw [walked_wheelSize]; omega)
        rw [List.map_append, List.append_assoc]
        exact ((ih hnext (cbCnt + walk.fired.length)).append_left _).trans hround

end Keys

/-! ### Every element in its spoke -/

/-- Every linked element is in the spoke of its cursor. -/
def Seated (wheel : TimerWheel ε) : Prop :=
  ∀ c < wheel.wheelSize, ∀ e ∈ wheel.spokes c, e.cursor = c

namespace Seated

variable {wheel : TimerWheel ε} {e : TimerElem ε} {currentTime timeout : ℕ}

lemma startAt (h : Seated wheel) (currentTime : ℕ) : Seated (wheel.startAt currentTime) := by
  rw [Seated, startAt_wheelSize, startAt_spokes]
  exact h

lemma insertElem (h : Seated wheel) : Seated (wheel.insertElem e currentTime timeout) := by
  intro c hc f hf
  rcases mem_insertElem hf with hf | ⟨rfl, rfl⟩
  · exact h c hc f hf
  · rfl

lemma removeElem (h : Seated wheel) : Seated (wheel.removeElem e) :=
  fun c hc f hf => h c hc f (mem_removeElem hf)

/-- A walk keeps elements of its spoke. -/
lemma walked (h : Seated wheel) (hspoke : wheel.spokeIndex < wheel.wheelSize)
    (maxCbTimes cbCnt : ℕ) :
    Seated (wheel.walked (walkSpoke maxCbTimes (wheel.spokes wheel.spokeIndex) cbCnt).kept) := by
  intro c hc f hf
  by_cases hcs : c = wheel.spokeIndex
  · subst hcs
    rw [walked_spokes_self] at hf
    have hperm := walkSpoke_perm TimerElem.cursor (fun _ => rfl) maxCbTimes
      (wheel.spokes wheel.spokeIndex) cbCnt
    have hmem := hperm.subset (List.mem_append_right _ (List.mem_map_of_mem hf))
    obtain ⟨g, hg, hgf⟩ := List.mem_map.mp hmem
    rw [← hgf]
    exact h _ hspoke g hg
  · rw [walked_spokes_of_ne hcs] at hf
    exact h c hc f hf

lemma nextSpoke (h : Seated wheel) : Seated wheel.nextSpoke := h

lemma tickLoop (h : Seated wheel) (hspoke : wheel.spokeIndex < wheel.wheelSize)
    (maxCbTimes n cbCnt : ℕ) : Seated (tickLoop maxCbTimes n wheel cbCnt).wheel := by
  induction n generalizing wheel cbCnt with
  | zero => exact h
  | succ n ih =>
      rw [TimerWheel.tickLoop]
      dsimp only
      split_ifs with hcut
      · exact h.walked hspoke maxCbTimes cbCnt
      · refine ih (h.walked hspoke maxCbTimes cbCnt).nextSpoke (Nat.mod_lt _ ?_) _
        rw [walked_wheelSize]
        omega

/-- A linked element is in the spoke of its cursor. -/
lemma mem_spoke (h : Seated wheel) (he : e ∈ wheel.linked) :
    e.cursor < wheel.wheelSize ∧ e ∈ wheel.spokes e.cursor := by
  obtain ⟨c, hc, hmem⟩ := mem_linked.mp he
  obtain rfl := h c hc e hmem
  exact ⟨hc, hmem⟩

end Seated

end TimerWheel

/-! ### Linking and unlinking one element -/

/-- Unlinking takes out one element, the one with the number. -/
lemma unlink_perm {l : List (TimerElem ε)} (hnodup : (l.map TimerElem.id).Nodup)
    {e : TimerElem ε} (he : e ∈ l) : e :: unlink l e.id ~ l := by
  obtain ⟨f, front, rest, -, hfid, rfl, hunlink⟩ :=
    List.exists_of_eraseP (p := fun f => f.id == e.id) he (beq_self_eq_true _)
  obtain rfl : f = e := List.inj_on_of_nodup_map hnodup
    (List.mem_append_right _ List.mem_cons_self) he (beq_iff_eq.mp hfid)
  rw [unlink, hunlink]
  exact List.perm_middle.symm

namespace TimerWheel

section Links

variable {wheel : TimerWheel ε} {e : TimerElem ε}

/-- Linking an element adds it. -/
lemma insertElem_perm (hpos : 0 < wheel.wheelSize) (e : TimerElem ε)
    (currentTime timeout : ℕ) :
    (wheel.insertElem e currentTime timeout).linked ~
      { e with
        expire := uadd 64 currentTime timeout
        rotationCnt := toInt (timeout / wheel.wheelSize)
        cursor := wheel.cursorOf currentTime timeout } :: wheel.linked := by
  set c := wheel.cursorOf currentTime timeout with hcursor
  have hc : c < wheel.wheelSize := Nat.mod_lt _ hpos
  set f : TimerElem ε := { e with
    expire := uadd 64 currentTime timeout
    rotationCnt := toInt (timeout / wheel.wheelSize)
    cursor := c } with hf
  have hperm : (wheel.insertElem e currentTime timeout).linked ++ wheel.spokes c ~
      wheel.linked ++ (wheel.spokes c ++ [f]) := flatMap_update_perm wheel.spokes hc _
  refine (List.perm_append_right_iff (wheel.spokes c)).mp (hperm.trans ?_)
  calc wheel.linked ++ (wheel.spokes c ++ [f])
      = wheel.linked ++ wheel.spokes c ++ [f] := (List.append_assoc _ _ _).symm
    _ ~ f :: (wheel.linked ++ wheel.spokes c) := List.perm_append_singleton f _

/-- Unlinking an element takes it out. -/
lemma removeElem_perm (hseated : Seated wheel) (hnodup : (wheel.linked.map TimerElem.id).Nodup)
    (he : e ∈ wheel.linked) : e :: (wheel.removeElem e).linked ~ wheel.linked := by
  obtain ⟨hc, hmem⟩ := hseated.mem_spoke he
  set l := wheel.spokes e.cursor with hl
  have hsub : l.Sublist wheel.linked :=
    List.sublist_flatten_of_mem (List.mem_map_of_mem (List.mem_range.mpr hc))
  have hunlink : e :: unlink l e.id ~ l := unlink_perm (hnodup.sublist (hsub.map _)) hmem
  have hperm : (wheel.removeElem e).linked ++ l ~ wheel.linked ++ unlink l e.id :=
    flatMap_update_perm wheel.spokes hc _
  refine (List.perm_append_right_iff (unlink l e.id)).mp ?_
  calc e :: (wheel.removeElem e).linked ++ unlink l e.id
      ~ (wheel.removeElem e).linked ++ e :: unlink l e.id := List.perm_middle.symm
    _ ~ (wheel.removeElem e).linked ++ l := hunlink.append_left _
    _ ~ wheel.linked ++ unlink l e.id := hperm

end Links

end TimerWheel

/-! ### The counters -/

namespace ZxTimer

variable {τ : Type*} {created n : ℕ} {timer : ZxTimer τ}

/-- The counters stand for `n` elements, `created` being the size of the timer
itself; they are of type `unsigned long`. -/
structure Counted (created : ℕ) (timer : ZxTimer τ) (n : ℕ) : Prop where
  count : timer.count = n % 2 ^ 64
  memsize : timer.memsize = (created + sizeofElem * n) % 2 ^ 64

namespace Counted

lemma countUp (h : Counted created timer n) : Counted created timer.countUp (n + 1) := by
  refine ⟨?_, ?_⟩
  · rw [count_countUp, h.count, uadd, Nat.mod_add_mod]
  · rw [memsize_countUp, h.memsize, uadd, Nat.mod_add_mod, Nat.mul_succ, Nat.add_assoc]

lemma countDown (h : Counted created timer (n + 1)) : Counted created timer.countDown n := by
  refine ⟨?_, ?_⟩
  · have hone : 1 ≤ 2 ^ 64 := Nat.one_le_two_pow
    rw [count_countDown, h.count, ← uadd, usub_uadd_self hone]
  · have helem : sizeofElem ≤ 2 ^ 64 := by decide
    rw [memsize_countDown, h.memsize, Nat.mul_succ, ← Nat.add_assoc, ← uadd,
      usub_uadd_self helem]

lemma with_inner (h : Counted created timer n) (x : τ) :
    Counted created { timer with inner := x } n :=
  ⟨h.count, h.memsize⟩

/-- The counters after `k` elements are freed. -/
lemma countDown_iterate {k : ℕ} (h : Counted created timer (k + n)) :
    Counted created (ZxTimer.countDown^[k] timer) n := by
  induction k generalizing timer with
  | zero => rwa [Nat.zero_add] at h
  | succ k ih =>
      rw [Nat.succ_add] at h
      rw [Function.iterate_succ_apply]
      exact ih h.countDown

/-- While what is allocated fits the address space, the counters are exact. -/
lemma exact (h : Counted created timer n) (hfits : created + sizeofElem * n < 2 ^ 64) :
    timer.count = n ∧ timer.memsize = created + sizeofElem * n := by
  have hn : n < 2 ^ 64 := by
    rw [sizeofElem] at hfits
    omega
  rw [h.count, h.memsize, Nat.mod_eq_of_lt hn, Nat.mod_eq_of_lt hfits]
  exact ⟨rfl, rfl⟩

end Counted

end ZxTimer

/-! ### What the calls run and keep -/

namespace ZxTimer

variable {timer : ZxTimer (TimerWheel ε)} {currentTime : ℕ}

/-- A check runs or keeps every linked element. -/
lemma checkWheel_perm {κ : Type*} (key : TimerElem ε → κ) (hkey : ∀ e, key (decr e) = key e)
    (hspoke : timer.inner.spokeIndex < timer.inner.wheelSize) {maxCbTimes : ℕ}
    {r : List (TimerElem ε) × ZxTimer (TimerWheel ε)}
    (hr : timer.checkWheel currentTime maxCbTimes = some r) :
    r.1.map key ++ r.2.inner.linked.map key ~ timer.inner.linked.map key := by
  rcases checkWheel_spec hr with ⟨-, rfl⟩ | ⟨-, rfl⟩
  · exact .refl _
  · rw [countDown_iterate_inner]
    exact tickLoop_perm key hkey hspoke maxCbTimes _ 0

end ZxTimer

/-! ### The books -/

/-- The call deletes element `i`. -/
def WheelOp.deletes (i : ℕ) : WheelOp ε → Bool
  | .del j => j == i
  | _ => false

/-- The elements whose callbacks have run, in order. -/
def WheelRun.callbacks (s : WheelRun ε) : List ℕ := s.history.checks.flatMap Prod.snd

/-- How often element `i` is linked, in all spokes together, how often its
callback has run, and how often it was deleted by the calls `as`. -/
def WheelRun.fates (s : WheelRun ε) (as : List (WheelOp ε)) (i : ℕ) : ℕ :=
  (s.wheel.linked.map TimerElem.id).count i + s.callbacks.count i + as.countP (WheelOp.deletes i)

/-- The books after the calls `as` on a timer created with `created` bytes:
every element added so far is linked, run or deleted, one of them and once, and
is in the spoke of its cursor while it is linked. -/
structure Ledger (created : ℕ) (as : List (WheelOp ε)) (s : WheelRun ε) : Prop where
  spoke : s.wheel.spokeIndex < s.wheel.wheelSize
  seated : Seated s.wheel
  once : ∀ i < s.next, s.fates as i = 1
  fresh : ∀ i, s.next ≤ i → s.fates as i = 0
  counted : s.timer.Counted created s.wheel.linked.length

namespace Ledger

variable {created currentTime timeout id : ℕ} {as : List (WheelOp ε)} {s s' : WheelRun ε}

lemma size_pos (h : Ledger created as s) : 0 < s.wheel.wheelSize := by
  have := h.spoke
  omega

/-- No element is linked twice. -/
lemma nodup (h : Ledger created as s) : (s.wheel.linked.map TimerElem.id).Nodup := by
  refine List.nodup_iff_count_le_one.mpr fun i => ?_
  have hle : (s.wheel.linked.map TimerElem.id).count i ≤ s.fates as i := by
    rw [WheelRun.fates, Nat.add_assoc]
    exact Nat.le_add_right _ _
  rcases Nat.lt_or_ge i s.next with hi | hi
  · exact hle.trans (h.once i hi).le
  · exact hle.trans ((h.fresh i hi).le.trans zero_le_one)

/-- A linked element counts once, its callback has not run, and it was added. -/
lemma of_mem (h : Ledger created as s) {e : TimerElem ε} (he : e ∈ s.wheel.linked) :
    e.id ∉ s.callbacks ∧ e.id < s.next := by
  have hpos : 0 < (s.wheel.linked.map TimerElem.id).count e.id :=
    List.count_pos_iff.mpr (List.mem_map_of_mem he)
  have hlt : e.id < s.next := by
    by_contra hge
    have hfresh := h.fresh e.id (Nat.le_of_not_lt hge)
    rw [WheelRun.fates] at hfresh
    omega
  have honce := h.once e.id hlt
  rw [WheelRun.fates] at honce
  exact ⟨List.count_eq_zero.mp (by omega), hlt⟩

/-- The elements left are not the one taken out. -/
lemma ne_of_perm (h : Ledger created as s) {f : TimerElem ε} {l : List (TimerElem ε)}
    (hperm : f :: l ~ s.wheel.linked) : ∀ e ∈ l, e.id ≠ f.id := by
  have hnodup := (hperm.map TimerElem.id).nodup_iff.mpr h.nodup
  rw [List.map_cons, List.nodup_cons] at hnodup
  exact fun e he heq => hnodup.1 (heq ▸ List.mem_map_of_mem he)

/-- Calls that add nothing keep the books if they keep every count. -/
lemma of_fates (h : Ledger created as s) {as' : List (WheelOp ε)} (hnext : s'.next = s.next)
    (hspoke : s'.wheel.spokeIndex < s'.wheel.wheelSize) (hseated : Seated s'.wheel)
    (hfates : ∀ i, s'.fates as' i = s.fates as i)
    (hcounted : s'.timer.Counted created s'.wheel.linked.length) : Ledger created as' s' :=
  ⟨hspoke, hseated, fun i hi => (hfates i).trans (h.once i (hnext ▸ hi)),
    fun i hi => (hfates i).trans (h.fresh i (hnext ▸ hi)), hcounted⟩

/-- An add keeps the books, with one more element. -/
lemma add (h : Ledger created as s) {event : ε}
    (hs : WheelOp.step s (.add currentTime timeout event) = some s') :
    Ledger created (as ++ [.add currentTime timeout event]) s' := by
  obtain rfl := Option.some.inj hs
  set s' : WheelRun ε := ⟨s.timer.addWheel s.next currentTime timeout event, s.next + 1,
    currentTime, s.history.arm s.next (uadd 64 currentTime timeout)⟩ with hs'
  have hinner : s'.wheel = (s.wheel.startAt currentTime).insertElem ⟨s.next, 0, 0, 0, event⟩
      currentTime timeout := ZxTimer.addWheel_inner s.timer s.next currentTime timeout event
  have hsize : 0 < (s.wheel.startAt currentTime).wheelSize := by
    rw [startAt_wheelSize]
    exact h.size_pos
  have hperm := insertElem_perm hsize ⟨s.next, 0, 0, 0, event⟩ currentTime timeout
  rw [← hinner, startAt_linked] at hperm
  have hfates : ∀ i, s'.fates (as ++ [.add currentTime timeout event]) i =
      s.fates as i + if s.next = i then 1 else 0 := by
    intro i
    have hcount := (hperm.map TimerElem.id).count_eq i
    rw [List.map_cons, List.count_cons] at hcount
    simp only [beq_iff_eq] at hcount
    rw [WheelRun.fates, WheelRun.fates, hcount, List.countP_append]
    change _ + s.callbacks.count i + (_ + 0) = _
    omega
  refine ⟨?_, ?_, fun i hi => ?_, fun i hi => ?_, ?_⟩
  · rw [hinner]
    exact startAt_spoke_lt h.spoke
  · rw [hinner]
    exact (h.seated.startAt currentTime).insertElem
  · rw [hfates]
    rcases Nat.lt_succ_iff_lt_or_eq.mp hi with hlt | rfl
    · rw [if_neg (by omega), h.once i hlt]
    · rw [if_pos rfl, h.fresh _ le_rfl]
  · change s.next + 1 ≤ i at hi
    rw [hfates, if_neg (by omega), h.fresh i (by omega)]
  · rw [hperm.length_eq]
    change (s.timer.addWheel s.next currentTime timeout event).Counted created _
    rw [ZxTimer.addWheel]
    exact (h.counted.with_inner _).countUp

/-- A del keeps the books: what was linked is deleted. -/
lemma del (h : Ledger created as s) (hs : WheelOp.step s (.del id) = some s') :
    Ledger created (as ++ [.del id]) s' := by
  obtain ⟨r, hr, rfl⟩ := Option.map_eq_some_iff.mp hs
  obtain ⟨e, he, rfl⟩ := ZxTimer.delWheel_spec hr
  obtain ⟨hmem, rfl⟩ := elemOf_spec he
  have hperm := removeElem_perm h.seated h.nodup hmem
  have hinner : (ZxTimer.countDown { s.timer with inner := s.timer.inner.removeElem e }).inner =
      s.wheel.removeElem e := ZxTimer.countDown_inner _
  refine h.of_fates rfl ?_ ?_ (fun i => ?_) ?_
  · rw [WheelRun.wheel, hinner]
    exact h.spoke
  · rw [WheelRun.wheel, hinner]
    exact h.seated.removeElem
  · have hcount := (hperm.map TimerElem.id).count_eq i
    rw [List.map_cons, List.count_cons] at hcount
    rw [WheelRun.fates, WheelRun.fates, ← hcount, List.countP_append, List.countP_singleton,
      WheelRun.wheel, hinner]
    change ((s.wheel.removeElem e).linked.map TimerElem.id).count i + s.callbacks.count i +
      (_ + if (e.id == i) = true then 1 else 0) = _
    omega
  · rw [WheelRun.wheel, hinner]
    refine ZxTimer.Counted.countDown (ZxTimer.Counted.with_inner ?_ _)
    rw [← List.length_cons (a := e), hperm.length_eq]
    exact h.counted

/-- A reset keeps the books: the element is linked before and after. -/
lemma reset (h : Ledger created as s)
    (hs : WheelOp.step s (.reset id currentTime timeout) = some s') :
    Ledger created (as ++ [.reset id currentTime timeout]) s' := by
  obtain ⟨t, ht, rfl⟩ := Option.map_eq_some_iff.mp hs
  obtain ⟨e, helem, rfl⟩ := ZxTimer.resetWheel_spec ht
  obtain ⟨he, rfl⟩ := elemOf_spec helem
  set wheel := (s.timer.inner.removeElem e).startAt currentTime with hwheel
  have hsize : 0 < wheel.wheelSize := by
    rw [hwheel, startAt_wheelSize]
    exact h.size_pos
  have hinsert := insertElem_perm hsize e currentTime timeout
  rw [startAt_linked] at hinsert
  have hids : (wheel.insertElem e currentTime timeout).linked.map TimerElem.id ~
      s.wheel.linked.map TimerElem.id :=
    (hinsert.map TimerElem.id).trans
      ((removeElem_perm h.seated h.nodup he).map TimerElem.id)
  refine h.of_fates rfl ?_ ?_ (fun i => ?_) ?_
  · have hspoke : (s.timer.inner.removeElem e).spokeIndex <
        (s.timer.inner.removeElem e).wheelSize := h.spoke
    exact startAt_spoke_lt hspoke
  · exact (h.seated.removeElem.startAt currentTime).insertElem
  · rw [WheelRun.fates, WheelRun.fates, List.countP_append]
    change ((wheel.insertElem e currentTime timeout).linked.map TimerElem.id).count i +
      s.callbacks.count i + (_ + 0) = _
    rw [hids.count_eq i]
    rfl
  · have hlength := hids.length_eq
    rw [List.length_map, List.length_map] at hlength
    change ZxTimer.Counted created _ (wheel.insertElem e currentTime timeout).linked.length
    rw [hlength]
    exact h.counted.with_inner _

/-- A check keeps the books: what it runs is linked no longer. -/
lemma check (h : Ledger created as s) {maxCbTimes : ℕ}
    (hs : WheelOp.step s (.check currentTime maxCbTimes) = some s') :
    Ledger created (as ++ [.check currentTime maxCbTimes]) s' := by
  obtain ⟨r, hr, rfl⟩ := WheelOp.step_check hs
  have hids := ZxTimer.checkWheel_perm TimerElem.id (fun _ => rfl) h.spoke hr
  refine h.of_fates rfl ?_ ?_ (fun i => ?_) ?_
  · rcases ZxTimer.checkWheel_spec hr with ⟨-, rfl⟩ | ⟨-, rfl⟩
    · exact h.spoke
    · obtain ⟨hws, -, hsp⟩ := tickLoop_frame maxCbTimes _ 0 h.spoke
      rw [WheelRun.wheel, ZxTimer.countDown_iterate_inner]
      exact lt_of_lt_of_eq hsp hws.symm
  · rcases ZxTimer.checkWheel_spec hr with ⟨-, rfl⟩ | ⟨-, rfl⟩
    · exact h.seated
    · rw [WheelRun.wheel, ZxTimer.countDown_iterate_inner]
      exact h.seated.tickLoop h.spoke maxCbTimes _ 0
  · have hcount := hids.count_eq i
    rw [List.count_append] at hcount
    have hcallbacks : WheelRun.callbacks ⟨r.2, s.next, currentTime,
        s.history.check currentTime (r.1.map TimerElem.id)⟩ =
        s.callbacks ++ r.1.map TimerElem.id := by
      rw [WheelRun.callbacks, History.check, List.flatMap_append, List.flatMap_singleton]
      rfl
    rw [WheelRun.fates, WheelRun.fates, hcallbacks, List.count_append, List.countP_append]
    change (r.2.inner.linked.map TimerElem.id).count i + _ + (_ + 0) = _
    change _ = (s.timer.inner.linked.map TimerElem.id).count i + _ + _
    omega
  · have hlength := hids.length_eq
    rw [List.length_append, List.length_map, List.length_map, List.length_map] at hlength
    have hcounted : s.timer.Counted created (r.1.length + r.2.inner.linked.length) :=
      hlength ▸ h.counted
    rcases ZxTimer.checkWheel_spec hr with ⟨-, rfl⟩ | ⟨-, rfl⟩
    · rwa [List.length_nil, Nat.zero_add] at hcounted
    · exact (hcounted.with_inner _).countDown_iterate

/-- **Every call keeps the books.** -/
lemma step (h : Ledger created as s) {a : WheelOp ε} (hs : a.step s = some s') :
    Ledger created (as ++ [a]) s' := by
  cases a with
  | add currentTime timeout event => exact h.add hs
  | del id => exact h.del hs
  | reset id currentTime timeout => exact h.reset hs
  | check currentTime maxCbTimes => exact h.check hs

/-- A wheel just created. -/
lemma start {wheelSize : ℕ} {timer : ZxTimer (TimerWheel ε)}
    (hcreate : ZxTimer.createWheel wheelSize = some timer) :
    Ledger timer.memsize [] (WheelRun.start timer) := by
  have hok := WheelOk.start hcreate
  obtain ⟨hspokes, hcount, hbytes⟩ : (∀ c, timer.inner.spokes c = []) ∧ timer.count = 0 ∧
      timer.memsize < 2 ^ 64 := by
    obtain ⟨-, -, rfl⟩ := ZxTimer.createWheel_spec hcreate
    exact ⟨fun _ => rfl, rfl, Nat.mod_lt _ (by positivity)⟩
  have hlinked : (WheelRun.start timer).wheel.linked = [] :=
    List.flatMap_eq_nil_iff.mpr fun c _ => hspokes c
  refine ⟨hok.spoke, fun c _ e he => ?_, fun i hi => absurd hi (Nat.not_lt_zero i),
    fun i _ => ?_, ⟨?_, ?_⟩⟩
  · rw [WheelRun.start, WheelRun.wheel, hspokes] at he
    exact (List.not_mem_nil he).elim
  · rw [WheelRun.fates, hlinked]
    rfl
  · rw [hlinked]
    exact hcount
  · rw [hlinked, List.length_nil, Nat.mul_zero, Nat.add_zero, Nat.mod_eq_of_lt hbytes]
    rfl

end Ledger

/-- The books of every run. -/
lemma ledger_of_run {wheelSize : ℕ} {timer : ZxTimer (TimerWheel ε)}
    (hcreate : ZxTimer.createWheel wheelSize = some timer) {ok : WheelRun ε → WheelOp ε → Prop}
    {as : List (WheelOp ε)} {s : WheelRun ε}
    (hrun : Run WheelOp.step ok (WheelRun.start timer) as s) : Ledger timer.memsize as s :=
  hrun.invariant (I := Ledger timer.memsize) (Ledger.start hcreate) fun _ _ _ _ h _ hs => h.step hs

/-- **The wheel neither loses nor duplicates elements**: in every run, every
element added is linked once in the spoke of its cursor, or its callback has run
once, or it was deleted once; and the counters count the linked elements, exactly
so while what is allocated fits the address space. -/
theorem wheel_ledger {wheelSize : ℕ} {timer : ZxTimer (TimerWheel ε)}
    (hcreate : ZxTimer.createWheel wheelSize = some timer) {as : List (WheelOp ε)} {s : WheelRun ε}
    (hrun : Run WheelOp.step (fun _ a => a.InRange) (WheelRun.start timer) as s) :
    Ledger timer.memsize as s ∧
      (timer.memsize + sizeofElem * s.wheel.linked.length < 2 ^ 64 →
        s.timer.count = s.wheel.linked.length ∧
          s.timer.memsize = timer.memsize + sizeofElem * s.wheel.linked.length) := by
  have h := ledger_of_run hcreate hrun
  exact ⟨h, h.counted.exact⟩

/-- Four elements, one run by a check with a budget of one, one deleted. -/
theorem wheel_of_six_ledger :
    ∃ (timer : ZxTimer (TimerWheel Unit)) (as : List (WheelOp Unit)) (s : WheelRun Unit),
      s.callbacks = [1] ∧ s.wheel.linked.map TimerElem.id = [3, 2] ∧
        Ledger timer.memsize as s ∧ s.timer.count = 2 ∧ s.timer.memsize = 256 := by
  have hrun : (exec (fun s a => if a.InRange then WheelOp.step s a else none)
      (WheelRun.start wheelOfSix)
      [.add 0 10 (), .add 0 1 (), .add 0 1 (), .add 0 6 (), .check 5 1, .del 0]).map
      (fun s => (s.callbacks, s.wheel.linked.map TimerElem.id)) = some ([1], [3, 2]) := by
    decide +kernel
  obtain ⟨s, hs, heq⟩ := Option.map_eq_some_iff.mp hrun
  rw [Prod.mk.injEq] at heq
  obtain ⟨hledger, hexact⟩ := wheel_ledger createWheel_six (run_of_exec_guarded hs)
  have hlength : s.wheel.linked.length = 2 := by
    rw [← List.length_map TimerElem.id, heq.2]
    rfl
  rw [hlength] at hexact
  exact ⟨_, _, s, heq.1, heq.2, hledger, hexact (by decide)⟩

end CLibrary
