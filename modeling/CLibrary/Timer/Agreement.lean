import CLibrary.Timer.CatchUp
import CLibrary.Timer.Exact
import CLibrary.Timer.Ledger

/-!
The wheel and the queue on when a timeout is due.

* `Mirrors`: a queue holds the events of a wheel, with their expires, in the
  order of expire and insertion.
* `Agree`: a check of both at one time invokes the same events in the same
  order, leaves them mirrored, and leaves nothing that has timed out.
* `Armed`: every linked element was armed with its expire.
* `checkWheel_ran`: in a disciplined run, a wheel check runs exactly what expires
  before its time, in order.
* `timers_agree_iff`: the checks agree exactly where nothing expires at the time
  of the check.  The queue runs it there, the wheel one tick later
  (`wheel_one_tick_late`).
-/

namespace CLibrary

open scoped List

open TimerWheel

variable {ε : Type*}

/-! ### One queue and one wheel -/

/-- By expire, then by the last add or reset. -/
def Sooner (h : History ℕ) (x y : ℕ × ℕ × ε) : Prop :=
  x.2.1 < y.2.1 ∨ x.2.1 = y.2.1 ∧
    ∀ a b, h.armed x.1 = some a → h.armed y.1 = some b → a.stamp < b.stamp

/-- The linked entries of a wheel in the order of expire and insertion. -/
structure Ordered (h : History ℕ) (wheel : TimerWheel ε) (l : List (ℕ × ℕ × ε)) : Prop where
  perm : l ~ wheel.linked.map TimerElem.entry
  sorted : l.Pairwise (Sooner h)

/-- The queue holds the events of the wheel with their expires, in the order of
expire and insertion. -/
def Mirrors (h : History ℕ) (wheel : TimerWheel ε) (queue : List (TimerElem ε)) : Prop :=
  ∃ l, Ordered h wheel l ∧ queue.map (fun e => (e.expire, e.event)) = l.map Prod.snd

/-- `zx_timer_check` at `now` on both: the same events in the same order, the
same events left, and nothing left that has timed out. -/
def Agree (s : WheelRun ε) (queue : ZxTimer (TimerQueue ε)) (now wheelBudget queueBudget : ℕ) :
    Prop :=
  ∃ r, s.timer.checkWheel now wheelBudget = some r ∧
    r.1.map TimerElem.event = (queue.checkQueue now queueBudget).1.map TimerElem.event ∧
    Mirrors s.history r.2.inner (queue.checkQueue now queueBudget).2.inner.queue ∧
    (∀ e ∈ r.2.inner.linked, now < e.expire) ∧
    ∀ e ∈ (queue.checkQueue now queueBudget).2.inner.queue, now < e.expire

/-! ### Armed with their expires -/

/-- Every linked element was armed with its expire. -/
def Armed (s : WheelRun ε) : Prop :=
  ∀ e ∈ s.wheel.linked, ∃ a, s.history.armed e.id = some a ∧ a.deadline = e.expire

namespace Armed

variable {created currentTime timeout id : ℕ} {as : List (WheelOp ε)} {s s' : WheelRun ε}

/-- An element set last is armed with its expire, and the others are as before. -/
lemma of_arm {h : History ℕ} {l l' : List (TimerElem ε)} {f : TimerElem ε} {d : ℕ}
    (hl : ∀ e ∈ l, ∃ a, h.armed e.id = some a ∧ a.deadline = e.expire)
    (hother : ∀ e ∈ l, e.id ≠ id) (hperm : l' ~ f :: l) (hid : f.id = id) (hd : f.expire = d) :
    ∀ e ∈ l', ∃ a, (h.arm id d).armed e.id = some a ∧ a.deadline = e.expire := by
  intro e he
  rcases List.mem_cons.mp (hperm.subset he) with rfl | he
  · rw [hid, hd]
    exact ⟨_, Function.update_self _ _ _, rfl⟩
  · obtain ⟨a, ha, hdeadline⟩ := hl e he
    exact ⟨a, (Function.update_of_ne (hother e he) _ _).trans ha, hdeadline⟩

lemma add (h : Armed s) (hledger : Ledger created as s) {event : ε}
    (hs : WheelOp.step s (.add currentTime timeout event) = some s') : Armed s' := by
  obtain rfl := Option.some.inj hs
  have hsize : 0 < (s.wheel.startAt currentTime).wheelSize := by
    rw [startAt_wheelSize]
    exact hledger.size_pos
  have hperm := insertElem_perm hsize ⟨s.next, 0, 0, 0, event⟩ currentTime timeout
  rw [startAt_linked] at hperm
  intro e he
  rw [WheelRun.wheel, ZxTimer.addWheel_inner] at he
  exact of_arm h (fun f hf => (hledger.of_mem hf).2.ne) hperm rfl rfl e he

lemma del (h : Armed s) (hledger : Ledger created as s)
    (hs : WheelOp.step s (.del id) = some s') : Armed s' := by
  obtain ⟨r, hr, rfl⟩ := Option.map_eq_some_iff.mp hs
  obtain ⟨f, helem, rfl⟩ := ZxTimer.delWheel_spec hr
  obtain ⟨hf, rfl⟩ := elemOf_spec helem
  have hperm := removeElem_perm hledger.seated hledger.nodup hf
  intro e he
  rw [WheelRun.wheel, ZxTimer.countDown_inner] at he
  obtain ⟨a, ha, hdeadline⟩ := h e (hperm.subset (List.mem_cons_of_mem _ he))
  have hne := hledger.ne_of_perm hperm e he
  exact ⟨a, (Function.update_of_ne hne _ _).trans ha, hdeadline⟩

lemma reset (h : Armed s) (hledger : Ledger created as s)
    (hs : WheelOp.step s (.reset id currentTime timeout) = some s') : Armed s' := by
  obtain ⟨t, ht, rfl⟩ := Option.map_eq_some_iff.mp hs
  obtain ⟨f, helem, rfl⟩ := ZxTimer.resetWheel_spec ht
  obtain ⟨hf, rfl⟩ := elemOf_spec helem
  have hremove := removeElem_perm hledger.seated hledger.nodup hf
  have hsize : 0 < ((s.timer.inner.removeElem f).startAt currentTime).wheelSize := by
    rw [startAt_wheelSize]
    exact hledger.size_pos
  have hinsert := insertElem_perm hsize f currentTime timeout
  rw [startAt_linked] at hinsert
  exact of_arm (fun e he => h e (hremove.subset (List.mem_cons_of_mem _ he)))
    (hledger.ne_of_perm hremove) hinsert rfl rfl

lemma check (h : Armed s) (hledger : Ledger created as s) {maxCbTimes : ℕ}
    (hs : WheelOp.step s (.check currentTime maxCbTimes) = some s') : Armed s' := by
  obtain ⟨r, hr, rfl⟩ := WheelOp.step_check hs
  have hperm := ZxTimer.checkWheel_perm TimerElem.entry (fun _ => rfl) hledger.spoke hr
  intro e he
  obtain ⟨f, hf, hfe⟩ :=
    List.mem_map.mp (hperm.subset (List.mem_append_right _ (List.mem_map_of_mem he)))
  obtain ⟨a, ha, hdeadline⟩ := h f hf
  obtain ⟨hid, hexpire, -⟩ := entry_inj hfe
  exact ⟨a, hid ▸ ha, hdeadline.trans hexpire⟩

/-- Every call keeps the linked elements armed. -/
lemma step (h : Armed s) (hledger : Ledger created as s) {a : WheelOp ε}
    (hs : a.step s = some s') : Armed s' := by
  cases a with
  | add currentTime timeout event => exact h.add hledger hs
  | del id => exact h.del hledger hs
  | reset id currentTime timeout => exact h.reset hledger hs
  | check currentTime maxCbTimes => exact h.check hledger hs

end Armed

/-! ### A wheel check -/

/-- What is known of a state of a disciplined run. -/
structure Sound (as : List (WheelOp ε)) (s : WheelRun ε) : Prop where
  ledger : ∃ created, Ledger created as s
  armed : Armed s
  inv : ∃ pending, WheelInv s pending

lemma sound_of_run {wheelSize : ℕ} {timer : ZxTimer (TimerWheel ε)}
    (hcreate : ZxTimer.createWheel wheelSize = some timer) {as : List (WheelOp ε)} {s : WheelRun ε}
    (hrun : Run WheelOp.step (fun s a => a.Disciplined s ∧ a.NoWrap) (WheelRun.start timer) as s) :
    Sound as s := by
  refine hrun.invariant (I := Sound) ⟨⟨_, Ledger.start hcreate⟩, fun e he => ?_,
    [], WheelInv.start hcreate⟩ ?_
  · exact absurd ((Ledger.start hcreate).of_mem he).2 (Nat.not_lt_zero _)
  · rintro as t a u ⟨⟨created, hledger⟩, harmed, pending, hinv⟩ ⟨hok, hwrap⟩ hs
    exact ⟨⟨created, hledger.step hs⟩, harmed.step hledger hs, hinv.step hok hwrap hs⟩

section Check

variable {as : List (WheelOp ε)} {s : WheelRun ε} {now m : ℕ}
  {r : List (TimerElem ε) × ZxTimer (TimerWheel ε)} {l : List (ℕ × ℕ × ε)}

/-- A check runs or keeps every linked element. -/
lemma Sound.perm {κ : Type*} (h : Sound as s) (key : TimerElem ε → κ)
    (hkey : ∀ e, key (decr e) = key e) (hr : s.timer.checkWheel now m = some r) :
    r.1.map key ++ r.2.inner.linked.map key ~ s.wheel.linked.map key := by
  obtain ⟨created, hledger⟩ := h.ledger
  exact ZxTimer.checkWheel_perm key hkey hledger.spoke hr

/-- The history stays exact with one more check. -/
lemma exact_check (h : Sound as s) (hok : WheelOp.Disciplined s (.check now m))
    (hr : s.timer.checkWheel now m = some r) :
    (s.history.check now (r.1.map TimerElem.id)).Exact := by
  obtain ⟨pending, hinv⟩ := h.inv
  obtain ⟨pending', hinv'⟩ := hinv.check hok hr
  exact hinv'.agrees.exact

/-- The check runs a linked element exactly when it expires before its time. -/
lemma ran_iff (h : Sound as s) (hok : WheelOp.Disciplined s (.check now m))
    (hr : s.timer.checkWheel now m = some r) {e : TimerElem ε} (he : e ∈ s.wheel.linked) :
    e.id ∈ r.1.map TimerElem.id ↔ e.expire < now := by
  obtain ⟨created, hledger⟩ := h.ledger
  obtain ⟨pending, hinv⟩ := h.inv
  obtain ⟨a, ha, hdeadline⟩ := h.armed e he
  have hran : ¬ s.history.Ran e.id := fun ⟨c, hc, hi⟩ =>
    (hledger.of_mem he).1 (List.mem_flatMap.mpr ⟨c, hc, hi⟩)
  have hwait := hinv.agrees.exact.waiting ha hran
  have hlast : (s.history.check now (r.1.map TimerElem.id)).checks[s.history.checks.length]? =
      some (now, r.1.map TimerElem.id) := by
    rw [History.check, List.getElem?_append_right le_rfl, Nat.sub_self]
    rfl
  rw [(exact_check h hok hr).runs e.id a ha _ _ hlast, hdeadline,
    History.Agrees.waiting_check_of_le _ _ _ _ le_rfl]
  exact ⟨fun hall => hall.2.1, fun hlt => ⟨(hinv.agrees.since_le _ a ha).1, hlt, hwait⟩⟩

/-- What a check runs, and what it leaves, was linked with the same entry. -/
lemma exists_linked (h : Sound as s) (hr : s.timer.checkWheel now m = some r) {e : TimerElem ε}
    (he : e ∈ r.1 ∨ e ∈ r.2.inner.linked) : ∃ f ∈ s.wheel.linked, f.entry = e.entry := by
  have hperm := h.perm TimerElem.entry (fun _ => rfl) hr
  refine List.mem_map.mp (hperm.subset (List.mem_append.mpr ?_))
  exact he.imp (fun he => List.mem_map_of_mem he) fun he => List.mem_map_of_mem he

/-- What a check does not run stays linked with the same entry. -/
lemma linked_of_not_ran (h : Sound as s) (hr : s.timer.checkWheel now m = some r)
    {e : TimerElem ε} (he : e ∈ s.wheel.linked) (hran : e.id ∉ r.1.map TimerElem.id) :
    ∃ f ∈ r.2.inner.linked, f.entry = e.entry := by
  have hperm := h.perm TimerElem.entry (fun _ => rfl) hr
  rcases List.mem_append.mp (hperm.symm.subset (List.mem_map_of_mem he)) with hmem | hmem
  · obtain ⟨f, hf, hfe⟩ := List.mem_map.mp hmem
    exact absurd (List.mem_map.mpr ⟨f, hf, (entry_inj hfe).1⟩) hran
  · exact List.mem_map.mp hmem

/-- The callbacks run by expire, and then by the last add or reset. -/
lemma ran_sorted (h : Sound as s) (hok : WheelOp.Disciplined s (.check now m))
    (hr : s.timer.checkWheel now m = some r) :
    (r.1.map TimerElem.entry).Pairwise (Sooner s.history) := by
  have harmed : ∀ e ∈ r.1, ∃ a, s.history.armed e.id = some a ∧ a.deadline = e.expire := by
    intro e he
    obtain ⟨f, hf, hfe⟩ := exists_linked h hr (Or.inl he)
    obtain ⟨hid, hexpire, -⟩ := entry_inj hfe
    rw [← hid, ← hexpire]
    exact h.armed f hf
  have hordered := (exact_check h hok hr).ordered (now, r.1.map TimerElem.id)
    (List.mem_append_right _ (List.mem_singleton_self _))
  rw [List.pairwise_map] at hordered ⊢
  refine hordered.imp_of_mem fun {e f} he hf hbefore => ?_
  obtain ⟨a, ha, hae⟩ := harmed e he
  obtain ⟨b, hb, hbf⟩ := harmed f hf
  rcases hbefore a b ha hb with hlt | ⟨heq, hstamp⟩
  · rw [hae, hbf] at hlt
    exact Or.inl hlt
  · rw [hae, hbf] at heq
    refine Or.inr ⟨heq, fun a' b' ha' hb' => ?_⟩
    obtain rfl := Option.some.inj (ha.symm.trans ha')
    obtain rfl := Option.some.inj (hb.symm.trans hb')
    exact hstamp

/-- Of two linked entries only one comes first. -/
lemma sooner_asymm (h : Sound as s) (hl : Ordered s.history s.wheel l) :
    ∀ x ∈ l, ∀ y ∈ l, Sooner s.history x y → ¬ Sooner s.history y x := by
  intro x hx y hy hxy hyx
  obtain ⟨e, he, rfl⟩ := List.mem_map.mp (hl.perm.subset hx)
  obtain ⟨f, hf, rfl⟩ := List.mem_map.mp (hl.perm.subset hy)
  obtain ⟨a, ha, -⟩ := h.armed e he
  obtain ⟨b, hb, -⟩ := h.armed f hf
  rcases hxy with hlt | ⟨heq, hstamp⟩ <;> rcases hyx with hlt' | ⟨heq', hstamp'⟩
  · omega
  · omega
  · omega
  · have := hstamp a b ha hb
    have := hstamp' b a hb ha
    omega

/-- **What a wheel check does**: it runs what expires before its time, in order,
and leaves the rest. -/
lemma checkWheel_ran (h : Sound as s) (hok : WheelOp.Disciplined s (.check now m))
    (hr : s.timer.checkWheel now m = some r) (hl : Ordered s.history s.wheel l) :
    r.1.map TimerElem.entry = (l.filter fun x => x.2.1 < now) ∧
      r.2.inner.linked.map TimerElem.entry ~ l.filter fun x => !decide (x.2.1 < now) := by
  obtain ⟨created, hledger⟩ := h.ledger
  have hperm := h.perm TimerElem.entry (fun _ => rfl) hr
  have hids := h.perm TimerElem.id (fun _ => rfl) hr
  have hdisjoint := (List.nodup_append.mp (hids.nodup_iff.mpr hledger.nodup)).2.2
  refine eq_filter_of_perm (sooner_asymm h hl) hl.sorted (ran_sorted h hok hr)
    (hperm.trans hl.perm.symm) (fun x hx => ?_) fun x hx => ?_
  · obtain ⟨e, he, rfl⟩ := List.mem_map.mp hx
    obtain ⟨f, hf, hfe⟩ := exists_linked h hr (Or.inl he)
    obtain ⟨hid, hexpire, -⟩ := entry_inj hfe
    have hran := (ran_iff h hok hr hf).mp (hid ▸ List.mem_map_of_mem he)
    rw [decide_eq_true_eq]
    exact lt_of_eq_of_lt hexpire.symm hran
  · obtain ⟨e, he, rfl⟩ := List.mem_map.mp hx
    obtain ⟨f, hf, hfe⟩ := exists_linked h hr (Or.inr he)
    obtain ⟨hid, hexpire, -⟩ := entry_inj hfe
    rw [decide_eq_true_eq]
    intro hlt
    have hran := (ran_iff h hok hr hf).mpr (hexpire.trans_lt hlt)
    exact hdisjoint _ hran _ (List.mem_map_of_mem he) hid

end Check

/-! ### A queue check -/

/-- A queue whose entries are sorted by expire runs what has timed out and
leaves the rest, in order. -/
lemma checkQueue_ran {queue : ZxTimer (TimerQueue ε)} {l : List (ℕ × ℕ × ε)} (now : ℕ) {m : ℕ}
    (hsorted : l.Pairwise fun x y => x.2.1 ≤ y.2.1)
    (hqueue : queue.inner.queue.map (fun e => (e.expire, e.event)) = l.map Prod.snd)
    (hm : queue.inner.queue.length ≤ m) :
    (queue.checkQueue now m).1.map (fun e => (e.expire, e.event)) =
        (l.filter fun x => x.2.1 ≤ now).map Prod.snd ∧
      (queue.checkQueue now m).2.inner.queue.map (fun e => (e.expire, e.event)) =
        (l.filter fun x => !decide (x.2.1 ≤ now)).map Prod.snd := by
  set f : TimerElem ε → ℕ × ε := fun e => (e.expire, e.event) with hf
  set q := queue.inner.queue with hq
  have hq_sorted : q.Pairwise fun e e' =>
      decide (e'.expire ≤ now) = true → decide (e.expire ≤ now) = true := by
    have hpairs : (q.map f).Pairwise fun x y => x.1 ≤ y.1 := by
      rw [hqueue, List.pairwise_map]
      exact hsorted
    refine (List.pairwise_map.mp hpairs).imp fun {e e'} hle => ?_
    rw [decide_eq_true_eq, decide_eq_true_eq]
    exact hle.trans
  have hfilter : ∀ p : ℕ → Bool,
      (q.filter fun e => p e.expire).map f = (l.filter fun x => p x.2.1).map Prod.snd := by
    intro p
    calc (q.filter fun e => p e.expire).map f
        = (q.map f).filter fun x => p x.1 := by
          rw [List.filter_map]
          rfl
      _ = (l.map Prod.snd).filter fun x => p x.1 := by rw [hqueue]
      _ = (l.filter fun x => p x.2.1).map Prod.snd := by
          rw [List.filter_map]
          rfl
  rw [ZxTimer.checkQueue_eq, queueLoop_of_le now (by rwa [Nat.zero_add])]
  dsimp only
  rw [takeWhile_eq_filter hq_sorted, dropWhile_eq_filter hq_sorted]
  exact ⟨hfilter fun t => t ≤ now, hfilter fun t => !decide (t ≤ now)⟩

/-! ### Both checks -/

section Both

variable {as : List (WheelOp ε)} {s : WheelRun ε} {queue : ZxTimer (TimerQueue ε)} {now m m' : ℕ}

/-- A check with a budget for what is linked has a result only if its tick count
fits an `int`. -/
lemma tickCnt_lt_of_some (h : Sound as s) (hm : s.wheel.linked.length ≤ m)
    {r : List (TimerElem ε) × ZxTimer (TimerWheel ε)} (hr : s.timer.checkWheel now m = some r)
    (hcreate : s.wheel.createTime ≠ ulongMax) : s.wheel.tickCnt now < 2 ^ 31 := by
  obtain ⟨created, hledger⟩ := h.ledger
  obtain ⟨pending, hinv⟩ := h.inv
  set n := min (s.timer.inner.tickCnt now) (2 ^ 31) with hn
  have hrounds : (rounds n s.timer.inner).2.length ≤ m := by
    calc (rounds n s.timer.inner).2.length
        = s.wheel.dueBy 0 (0 + n) := rounds_length n hledger.spoke hinv.size_lt
      _ ≤ s.wheel.linked.length := dueBy_le_linked s.wheel 0 (0 + n)
      _ ≤ m := hm
  rw [ZxTimer.checkWheel_of_le hcreate hrounds] at hr
  split_ifs at hr with hint
  exact Nat.lt_of_not_le hint

/-- And with such a tick count it has one. -/
lemma checkWheel_isSome (hint : s.wheel.createTime ≠ ulongMax → s.wheel.tickCnt now < 2 ^ 31) :
    ∃ r, s.timer.checkWheel now m = some r := by
  rw [ZxTimer.checkWheel]
  dsimp only
  split_ifs with hcreate hcut
  · exact ⟨_, rfl⟩
  · exact absurd hcut.1 (Nat.not_le.mpr (hint hcreate))
  · exact ⟨_, rfl⟩

/-- The linked entries in order have sorted expires. -/
lemma Ordered.expire_le {l : List (ℕ × ℕ × ε)} (hl : Ordered s.history s.wheel l) :
    l.Pairwise fun x y => x.2.1 ≤ y.2.1 := by
  refine hl.sorted.imp fun {x y} hxy => ?_
  rcases hxy with hlt | ⟨heq, -⟩
  · exact hlt.le
  · exact heq.le

/-- Nothing expires at the time of the check: the timers agree. -/
lemma agree_of_ne (h : Sound as s) (hqueue : Mirrors s.history s.wheel queue.inner.queue)
    (hok : WheelOp.Disciplined s (.check now m)) (hm' : queue.inner.queue.length ≤ m')
    {r : List (TimerElem ε) × ZxTimer (TimerWheel ε)} (hr : s.timer.checkWheel now m = some r)
    (hne : ∀ e ∈ s.wheel.linked, e.expire ≠ now) : Agree s queue now m m' := by
  obtain ⟨l, hl, hmap⟩ := hqueue
  obtain ⟨hran, hleft⟩ := checkWheel_ran h hok hr hl
  obtain ⟨hqran, hqleft⟩ := checkQueue_ran now hl.expire_le hmap hm'
  have hnow : ∀ x ∈ l, decide (x.2.1 ≤ now) = decide (x.2.1 < now) := by
    intro x hx
    obtain ⟨e, he, rfl⟩ := List.mem_map.mp (hl.perm.subset hx)
    have hexpire : e.entry.2.1 ≠ now := hne e he
    rw [decide_eq_decide]
    omega
  rw [List.filter_congr hnow, ← hran] at hqran
  rw [List.filter_congr fun x hx => congrArg not (hnow x hx)] at hqleft
  have hlater : ∀ x ∈ l.filter fun x => !decide (x.2.1 < now), now < x.2.1 := by
    intro x hx
    obtain ⟨hxl, hlt⟩ := List.mem_filter.mp hx
    rw [← hnow x hxl] at hlt
    simpa using hlt
  refine ⟨r, hr, ?_, ⟨_, ⟨hleft.symm, hl.sorted.sublist List.filter_sublist⟩, hqleft⟩,
    fun e he => ?_, fun e he => ?_⟩
  · have hevents := congrArg (List.map Prod.snd) hqran
    rw [List.map_map, List.map_map, List.map_map] at hevents
    exact hevents.symm
  · exact hlater _ (hleft.subset (List.mem_map_of_mem he))
  · have hmem := List.mem_map_of_mem (f := fun e : TimerElem ε => (e.expire, e.event)) he
    rw [hqleft] at hmem
    obtain ⟨x, hx, hxe⟩ := List.mem_map.mp hmem
    have := hlater x hx
    rw [hxe] at this
    exact this

end Both

/-- **When the wheel and the queue agree**: in every disciplined run without
wrapping expires, a check of the wheel and one of a queue with the same events
in the same order agree if and only if nothing linked expires at the time of the
check, and its tick count fits an `int`. -/
theorem timers_agree_iff {wheelSize : ℕ} {timer : ZxTimer (TimerWheel ε)}
    (hcreate : ZxTimer.createWheel wheelSize = some timer) {as : List (WheelOp ε)} {s : WheelRun ε}
    (hrun : Run WheelOp.step (fun s a => a.Disciplined s ∧ a.NoWrap) (WheelRun.start timer) as s)
    {queue : ZxTimer (TimerQueue ε)} (hqueue : Mirrors s.history s.wheel queue.inner.queue)
    {now m m' : ℕ} (hnow : s.now ≤ now) (hmax : now ≤ ulongMax)
    (hm : s.wheel.linked.length ≤ m) (hm' : queue.inner.queue.length ≤ m') :
    Agree s queue now m m' ↔
      (s.wheel.createTime ≠ ulongMax → s.wheel.tickCnt now < 2 ^ 31) ∧
        ∀ e ∈ s.wheel.linked, e.expire ≠ now := by
  have h := sound_of_run hcreate hrun
  refine ⟨fun hagree => ?_, fun ⟨hint, hne⟩ => ?_⟩
  · obtain ⟨r, hr, -, -, hleft, -⟩ := hagree
    have hint := fun hcreate => tickCnt_lt_of_some h hm hr hcreate
    refine ⟨hint, fun e he heq => ?_⟩
    -- what expires now is not run by the wheel, and stays linked
    have hnot := mt (ran_iff h ⟨⟨hnow, hmax, hint⟩, hm⟩ hr he).mp (by omega)
    obtain ⟨f, hf, hfe⟩ := linked_of_not_ran h hr he hnot
    have := hleft f hf
    rw [(entry_inj hfe).2.1] at this
    omega
  · obtain ⟨r, hr⟩ := checkWheel_isSome hint
    exact agree_of_ne h hqueue ⟨⟨hnow, hmax, hint⟩, hm⟩ hm' hr hne

/-- A wheel of six with events expiring at 1 and 3, checked at 2. -/
theorem timers_agree_at_two :
    ∃ (s : WheelRun ℕ) (queue : ZxTimer (TimerQueue ℕ)),
      s.wheel.linked.map TimerElem.entry = [(0, 1, 7), (1, 3, 8)] ∧ Agree s queue 2 9 9 := by
  have hrun : (exec (fun s a => if a.Disciplined s ∧ a.NoWrap then WheelOp.step s a else none)
      (WheelRun.start wheelOfSix)
      [.check 0 9, .add 0 1 7, .add 0 3 8]).map
      (fun s => (s.wheel.linked.map TimerElem.entry, s.now, s.wheel.tickCnt 2)) =
        some ([(0, 1, 7), (1, 3, 8)], 0, 2) := by
    decide +kernel
  obtain ⟨s, hs, heq⟩ := Option.map_eq_some_iff.mp hrun
  rw [Prod.mk.injEq, Prod.mk.injEq] at heq
  obtain ⟨hentries, hnow, hticks⟩ := heq
  have hlength : s.wheel.linked.length = 2 := by
    rw [← List.length_map TimerElem.entry, hentries]
    rfl
  have hqueue : Mirrors s.history s.wheel [⟨0, 1, 0, 0, 7⟩, ⟨1, 3, 0, 0, 8⟩] := by
    refine ⟨[(0, 1, 7), (1, 3, 8)], ⟨.of_eq hentries.symm, ?_⟩, rfl⟩
    exact List.pairwise_pair.mpr (Or.inl (by decide))
  refine ⟨s, ⟨⟨3, [⟨0, 1, 0, 0, 7⟩, ⟨1, 3, 0, 0, 8⟩]⟩, 2, 160⟩, hentries,
    (timers_agree_iff createWheel_six (run_of_exec_guarded hs) hqueue (by omega) (by decide)
      (by omega) (by decide)).mpr ⟨fun _ => by omega, fun e he => ?_⟩⟩
  have hmem := List.mem_map_of_mem (f := TimerElem.entry) he
  rw [hentries] at hmem
  rcases List.mem_cons.mp hmem with heq | hmem
  · rw [show e.expire = 1 from congrArg (fun x => x.2.1) heq]
    decide
  · rw [show e.expire = 3 from congrArg (fun x => x.2.1) (List.mem_singleton.mp hmem)]
    decide

/-- **The wheel is one tick late**: a check at 0, an add at 0 with a timeout of
1, and a check at 1, which the queue runs the event in and the wheel does not. -/
theorem wheel_one_tick_late :
    ∃ (timer : ZxTimer (TimerWheel ℕ)) (s : WheelRun ℕ) (queue : ZxTimer (TimerQueue ℕ)),
      ZxTimer.createWheel 6 = some timer ∧
      Run WheelOp.step (fun s a => a.Disciplined s ∧ a.NoWrap) (WheelRun.start timer)
        [.check 0 10000, .add 0 1 7] s ∧
      Mirrors s.history s.wheel queue.inner.queue ∧ WheelOp.Disciplined s (.check 1 10000) ∧
      queue.inner.queue.length ≤ 10000 ∧
      (s.timer.checkWheel 1 10000).map (fun r => r.1.map TimerElem.event) = some [] ∧
      (queue.checkQueue 1 10000).1.map TimerElem.event = [7] ∧ ¬ Agree s queue 1 10000 10000 := by
  have hrun : (exec (fun s a => if a.Disciplined s ∧ a.NoWrap then WheelOp.step s a else none)
      (WheelRun.start wheelOfSix)
      [.check 0 10000, .add 0 1 7]).map
      (fun s => (s.wheel.linked.map TimerElem.entry,
        decide (WheelOp.Disciplined s (.check 1 10000)),
        (s.timer.checkWheel 1 10000).map fun r => r.1.map TimerElem.event)) =
        some ([(0, 1, 7)], true, some []) := by
    decide +kernel
  obtain ⟨s, hs, heq⟩ := Option.map_eq_some_iff.mp hrun
  rw [Prod.mk.injEq, Prod.mk.injEq, decide_eq_true_eq] at heq
  obtain ⟨hentries, hok, hwheel⟩ := heq
  have hqueue : ((⟨⟨1, [⟨0, 1, 0, 0, 7⟩]⟩, 1, 112⟩ : ZxTimer (TimerQueue ℕ)).checkQueue 1
      10000).1.map TimerElem.event = [7] := by
    rfl
  refine ⟨_, s, ⟨⟨1, [⟨0, 1, 0, 0, 7⟩]⟩, 1, 112⟩, createWheel_six, run_of_exec_guarded hs,
    ⟨[(0, 1, 7)], ⟨.of_eq hentries.symm, List.pairwise_singleton _ _⟩, rfl⟩, hok, by decide, hwheel,
    hqueue, ?_⟩
  rintro ⟨r, hr, hevents, -⟩
  rw [hr, Option.map_some, hevents, hqueue] at hwheel
  cases hwheel

end CLibrary
