import CLibrary.Timer.Wheel

/-!
Exact deadlines of the wheel under the check-before-add discipline.

* `Disciplined`, `NoWrap`: a check at the same time before every add and reset
  after the first, with a budget for every linked element; `current_time +
  timeout` not wrapping.
* `Aligned`: every spoke lists the pending timers of its residue, in the order
  of their armings, and each of them is due in the tick of its deadline.
  `Aligned.tick` and `Aligned.tickLoop` run it through the loop of a check,
  `Aligned.insert` and `Aligned.remove` through the other calls.
* `ModeOk`: a wheel before its first add, a running one, and one at the end of
  time, where `create_time` or `last_check_relative_tick` is `-1` by accident.
* `wheel_exact_deadlines`: the history of every such run is `Exact`.
-/

namespace CLibrary

open TimerWheel

variable {ε : Type*}

namespace WheelOp

/-- Every add and reset after the first add follows a check at the same time;
every check has a budget for all linked elements. -/
def Disciplined (s : WheelRun ε) (a : WheelOp ε) : Prop :=
  a.Admitted s ∧
    match a with
    | .add currentTime _ _ | .reset _ currentTime _ =>
        s.history.armings = 0 ∨ s.history.checks.getLast?.map Prod.fst = some currentTime
    | .del _ => True
    | .check _ maxCbTimes => s.wheel.linked.length ≤ maxCbTimes

instance (s : WheelRun ε) : ∀ a, Decidable (Disciplined s a)
  | .add _ _ _ => inferInstanceAs (Decidable (_ ∧ _))
  | .del _ => inferInstanceAs (Decidable (_ ∧ True))
  | .reset _ _ _ => inferInstanceAs (Decidable (_ ∧ _))
  | .check _ _ => inferInstanceAs (Decidable (_ ∧ _))

/-- No expire wraps. -/
def NoWrap : WheelOp ε → Prop
  | .add currentTime timeout _ | .reset _ currentTime timeout => currentTime + timeout ≤ ulongMax
  | _ => True

instance : ∀ a : WheelOp ε, Decidable (NoWrap a)
  | .add _ _ _ => inferInstanceAs (Decidable (_ ≤ _))
  | .del _ => isTrue trivial
  | .reset _ _ _ => inferInstanceAs (Decidable (_ ≤ _))
  | .check _ _ => isTrue trivial

end WheelOp

/-! ### A wheel and its pending timers -/

/-- An element of spoke `c` stands for a pending timer. -/
def Stands (wheel : TimerWheel ε) (k c : ℕ) (e : TimerElem ε) (p : ℕ × ℕ) : Prop :=
  e.id = p.1 ∧ e.cursor = c ∧ 0 ≤ e.rotationCnt ∧ p.2 = wheel.createTime + wheel.dueTick k c e

/-- The spoke of a pending timer. -/
def spokeOf (wheel : TimerWheel ε) (p : ℕ × ℕ) : ℕ := (p.2 - wheel.createTime) % wheel.wheelSize

/-- Tick `k` is the next one, and every spoke lists the pending timers that
belong to it. -/
structure Aligned (wheel : TimerWheel ε) (k : ℕ) (pending : List (ℕ × ℕ)) : Prop where
  size_pos : 0 < wheel.wheelSize
  size_lt : wheel.wheelSize < 2 ^ 64
  spoke : wheel.spokeIndex = k % wheel.wheelSize
  ge : ∀ p ∈ pending, wheel.createTime + k ≤ p.2
  lists : ∀ c < wheel.wheelSize, List.Forall₂ (Stands wheel k c) (wheel.spokes c)
    (pending.filter fun p => spokeOf wheel p = c)

/-- Lists related by a relation that makes two keys equal have equal keys. -/
lemma map_eq_of_forall₂ {β γ δ : Type*} {R : β → γ → Prop} {f : β → δ} {g : γ → δ} {l : List β}
    {q : List γ} (h : List.Forall₂ R l q) (hR : ∀ a b, R a b → f a = g b) : l.map f = q.map g := by
  induction h with
  | nil => rfl
  | cons hab _ ih => rw [List.map_cons, List.map_cons, hR _ _ hab, ih]

namespace Aligned

variable {wheel : TimerWheel ε} {k : ℕ} {pending : List (ℕ × ℕ)}

lemma spoke_lt (h : Aligned wheel k pending) : wheel.spokeIndex < wheel.wheelSize := by
  rw [h.spoke]
  exact Nat.mod_lt _ h.size_pos

/-- The wheel links as many elements as there are pending timers. -/
lemma linked_length (h : Aligned wheel k pending) : wheel.linked.length = pending.length := by
  have hlen : (List.range wheel.wheelSize).map (fun c => (wheel.spokes c).length) =
      (List.range wheel.wheelSize).map fun c =>
        (pending.filter fun p => spokeOf wheel p = c).length :=
    List.map_congr_left fun c hc => (h.lists c (List.mem_range.mp hc)).length_eq
  have hperm := buckets_perm (spokeOf wheel) pending 0 wheel.wheelSize
  rw [List.filter_eq_self.mpr fun p _ => ?_] at hperm
  · calc wheel.linked.length
        = ((List.range wheel.wheelSize).map fun c => (wheel.spokes c).length).sum := by
          rw [linked, List.length_flatMap]
      _ = (buckets (spokeOf wheel) pending 0 wheel.wheelSize).length := by
          rw [hlen, buckets, List.length_flatMap, List.range_eq_range']
      _ = pending.length := hperm.length_eq
  · simpa [spokeOf] using Nat.mod_lt _ h.size_pos

/-- Every linked element stands for a pending timer. -/
lemma exists_pending (h : Aligned wheel k pending) {c : ℕ} (hc : c < wheel.wheelSize)
    {e : TimerElem ε} (he : e ∈ wheel.spokes c) :
    ∃ p ∈ pending, spokeOf wheel p = c ∧ Stands wheel k c e p := by
  obtain ⟨i, hi, rfl⟩ := List.getElem_of_mem he
  have hrel := h.lists c hc
  have hi' : i < (pending.filter fun p => spokeOf wheel p = c).length := hrel.length_eq ▸ hi
  have hmem := List.getElem_mem hi'
  rw [List.mem_filter, decide_eq_true_eq] at hmem
  exact ⟨_, hmem.1, hmem.2, List.Forall₂.get hrel hi hi'⟩

/-! ### Ticks -/

/-- On the spoke visited, the elements with no rotations left stand for the
timers due now. -/
lemma stands_self_iff (h : Aligned wheel k pending) {e : TimerElem ε} {p : ℕ × ℕ}
    (hs : Stands wheel k wheel.spokeIndex e p) :
    e.rotationCnt = 0 ↔ p.2 = wheel.createTime + k := by
  obtain ⟨-, -, hrot, hdue⟩ := hs
  rw [← dueTick_self_iff (k := k) h.spoke_lt hrot, hdue]
  omega

/-- The pending timers due now belong to the spoke visited. -/
lemma spokeOf_now (h : Aligned wheel k pending) {p : ℕ × ℕ} (hp : p.2 = wheel.createTime + k) :
    spokeOf wheel p = wheel.spokeIndex := by
  rw [spokeOf, hp, Nat.add_sub_cancel_left, h.spoke]

/-- **A tick** runs the timers due in it, in the order of their armings. -/
lemma tick (h : Aligned wheel k pending) {maxCbTimes cbCnt : ℕ}
    (hb : cbCnt + pending.length ≤ maxCbTimes) :
    let walk := walkSpoke maxCbTimes (wheel.spokes wheel.spokeIndex) cbCnt
    walk.cut = false ∧
      walk.fired.map TimerElem.id =
        (pending.filter fun p => p.2 = wheel.createTime + k).map Prod.fst ∧
      Aligned (wheel.ticked walk.kept) (k + 1)
        (pending.filter fun p => p.2 ≠ wheel.createTime + k) := by
  have hspoke := h.spoke_lt
  have hsize := h.size_lt
  set now := wheel.createTime + k with hnow
  set l := wheel.spokes wheel.spokeIndex with hl
  set q := pending.filter fun p => spokeOf wheel p = wheel.spokeIndex with hq
  have hrel : List.Forall₂ (Stands wheel k wheel.spokeIndex) l q := h.lists _ hspoke
  have hdue : List.Forall₂ (Stands wheel k wheel.spokeIndex)
      (l.filter fun e => e.rotationCnt = 0) (q.filter fun p => p.2 = now) := by
    refine List.rel_filter ?_ hrel
    intro e p hs
    simpa using h.stands_self_iff hs
  have hlater : List.Forall₂ (Stands wheel k wheel.spokeIndex)
      (l.filter fun e => e.rotationCnt ≠ 0) (q.filter fun p => p.2 ≠ now) := by
    refine List.rel_filter ?_ hrel
    intro e p hs
    simpa using not_congr (h.stands_self_iff hs)
  have hqnow : (q.filter fun p => p.2 = now) = pending.filter fun p => p.2 = now := by
    rw [hq, List.filter_filter]
    refine List.filter_congr fun p _ => ?_
    rw [Bool.eq_iff_iff, Bool.and_eq_true, decide_eq_true_eq, decide_eq_true_eq]
    exact ⟨And.left, fun hp => ⟨hp, h.spokeOf_now hp⟩⟩
  have hbudget : cbCnt + (l.filter fun e => e.rotationCnt = 0).length ≤ maxCbTimes := by
    rw [hdue.length_eq, hqnow]
    have := List.length_filter_le (fun p : ℕ × ℕ => decide (p.2 = now)) pending
    omega
  rw [walkSpoke_uncut hbudget]
  refine ⟨rfl, ?_, ⟨by simpa using h.size_pos, by simpa using hsize, ?_, ?_, ?_⟩⟩
  · rw [← hqnow]
    exact map_eq_of_forall₂ hdue fun _ _ hs => hs.1
  · rw [ticked_spokeIndex hspoke hsize, ticked_wheelSize, h.spoke, Nat.mod_add_mod]
  · intro p hp
    rw [List.mem_filter, decide_eq_true_eq] at hp
    have := h.ge p hp.1
    rw [ticked_createTime]
    omega
  · intro c hc
    rw [ticked_wheelSize] at hc
    have hfilter : ((pending.filter fun p => p.2 ≠ now).filter fun p =>
        spokeOf (wheel.ticked ((l.filter fun e => e.rotationCnt ≠ 0).map decr)) p = c) =
        (pending.filter fun p => spokeOf wheel p = c).filter fun p => p.2 ≠ now := by
      rw [List.filter_filter, List.filter_filter]
      refine List.filter_congr fun p _ => ?_
      rw [spokeOf, spokeOf, ticked_createTime, ticked_wheelSize, Bool.and_comm]
    rw [hfilter, ticked_spokes]
    by_cases hcs : c = wheel.spokeIndex
    · -- the elements passed over lose a rotation and a full turn
      subst hcs
      rw [walked_spokes_self]
      refine List.forall₂_map_left_iff.mpr ?_
      refine (List.forall₂_iff_zip.mpr ⟨hlater.length_eq, fun {e p} hep => ?_⟩)
      have hs := (List.forall₂_iff_zip.mp hlater).2 hep
      have hrot : e.rotationCnt ≠ 0 := by
        have := (List.of_mem_zip hep).1
        rw [List.mem_filter, decide_eq_true_eq] at this
        exact this.2
      obtain ⟨hid, hcur, hnn, hdl⟩ := hs
      refine ⟨hid, hcur, ?_, ?_⟩
      · change 0 ≤ e.rotationCnt - 1
        omega
      · rw [ticked_createTime, dueTick_next_self hspoke hsize (by omega), hdl]
    · -- nothing happens to the other spokes
      rw [walked_spokes_of_ne hcs]
      have hall : ((pending.filter fun p => spokeOf wheel p = c).filter fun p => p.2 ≠ now) =
          pending.filter fun p => spokeOf wheel p = c := by
        refine List.filter_eq_self.mpr fun p hp => ?_
        rw [List.mem_filter, decide_eq_true_eq] at hp
        rw [decide_eq_true_eq]
        intro hpn
        exact hcs (hp.2.symm.trans (h.spokeOf_now hpn))
      rw [hall]
      refine (h.lists c hc).imp fun e p hs => ⟨hs.1, hs.2.1, hs.2.2.1, ?_⟩
      rw [ticked_createTime, dueTick_next_of_ne hspoke hsize hc hcs]
      exact hs.2.2.2

/-- **The loop of a check** runs the timers due in its ticks, by deadline and
then by arming. -/
lemma tickLoop (h : Aligned wheel k pending) {maxCbTimes cbCnt : ℕ} (n : ℕ)
    (hb : cbCnt + pending.length ≤ maxCbTimes) :
    let r := TimerWheel.tickLoop maxCbTimes n wheel cbCnt
    r.cut = false ∧
      r.fired.map TimerElem.id =
        (buckets Prod.snd pending (wheel.createTime + k) n).map Prod.fst ∧
      r.wheel.createTime = wheel.createTime ∧ r.wheel.wheelSize = wheel.wheelSize ∧
      Aligned r.wheel (k + n) (pending.filter fun p => wheel.createTime + k + n ≤ p.2) := by
  induction n generalizing wheel k cbCnt pending with
  | zero =>
      have hall : (pending.filter fun p => wheel.createTime + k + 0 ≤ p.2) = pending :=
        List.filter_eq_self.mpr fun p hp => decide_eq_true (h.ge p hp)
      refine ⟨rfl, rfl, rfl, rfl, ?_⟩
      rw [hall]
      exact h
  | succ n ih =>
      obtain ⟨hcut, hfired, hal⟩ := h.tick hb
      rw [TimerWheel.tickLoop]
      set walk := walkSpoke maxCbTimes (wheel.spokes wheel.spokeIndex) cbCnt with hwalk
      dsimp only
      rw [hcut, if_neg Bool.false_ne_true]
      set now := wheel.createTime + k with hnow
      set rest := pending.filter fun p => p.2 ≠ now with hrest
      have hbudget : cbCnt + walk.fired.length + rest.length ≤ maxCbTimes := by
        have hlen : walk.fired.length = (pending.filter fun p => p.2 = now).length := by
          have := congrArg List.length hfired
          simpa using this
        have hsplit :=
          (List.filter_append_perm (fun p : ℕ × ℕ => decide (p.2 = now)) pending).length_eq
        rw [List.length_append] at hsplit
        have hrest' : rest = pending.filter fun p => !decide (p.2 = now) := by
          rw [hrest]
          refine List.filter_congr fun p _ => ?_
          rw [decide_not]
        rw [hlen, hrest']
        omega
      obtain ⟨hcut', hfired', hct, hws, hal'⟩ := ih hal hbudget
      rw [ticked_createTime] at hfired' hct hal'
      rw [ticked_wheelSize] at hws
      refine ⟨hcut', ?_, hct, hws, ?_⟩
      · rw [List.map_append, hfired, buckets_succ, List.map_append]
        refine congrArg₂ _ rfl (hfired'.trans (congrArg _ ?_))
        refine buckets_congr fun r hr _ => ?_
        rw [hrest, List.filter_filter]
        refine List.filter_congr fun p _ => ?_
        rw [Bool.eq_iff_iff, Bool.and_eq_true, decide_eq_true_eq, decide_eq_true_eq]
        exact ⟨And.left, fun hp => ⟨hp, by omega⟩⟩
      · have hfilter : (rest.filter fun p => wheel.createTime + (k + 1) + n ≤ p.2) =
            pending.filter fun p => now + (n + 1) ≤ p.2 := by
          rw [hrest, List.filter_filter]
          refine List.filter_congr fun p _ => ?_
          rw [Bool.eq_iff_iff, Bool.and_eq_true, decide_eq_true_eq, decide_eq_true_eq,
            decide_eq_true_eq]
          omega
        rw [← hfilter, show k + (n + 1) = k + 1 + n by omega]
        exact hal'

/-- The end of a check stores its time. -/
lemma checked (h : Aligned wheel k pending) (tick : ℕ) :
    Aligned { wheel with lastCheckRelativeTick := tick } k pending :=
  ⟨h.size_pos, h.size_lt, h.spoke, h.ge, h.lists⟩

/-! ### Adding and removing elements -/

/-- An element set at the time of tick `k` is due at its expire. -/
lemma insert (h : Aligned wheel k pending) {e : TimerElem ε} {currentTime timeout : ℕ}
    (htime : currentTime = wheel.createTime + k) (hwrap : currentTime + timeout ≤ ulongMax)
    (hquot : timeout / wheel.wheelSize < 2 ^ 31) :
    Aligned (wheel.insertElem e currentTime timeout) k
      (pending ++ [(e.id, currentTime + timeout)]) := by
  have hpos := h.size_pos
  have hmax := ulongMax_lt
  have hrem : timeout % wheel.wheelSize < wheel.wheelSize := Nat.mod_lt _ hpos
  have hle : timeout % wheel.wheelSize ≤ timeout := Nat.mod_le _ _
  have hcursor : wheel.cursorOf currentTime timeout =
      (k + timeout % wheel.wheelSize) % wheel.wheelSize := by
    calc wheel.cursorOf currentTime timeout
        = (currentTime - wheel.createTime + timeout % wheel.wheelSize) % wheel.wheelSize := by
          rw [cursorOf, usub_of_le (by omega) (by omega), uadd_of_lt (by omega)]
      _ = (k + timeout % wheel.wheelSize) % wheel.wheelSize := by
          rw [htime, Nat.add_sub_cancel_left]
  have hspokeOf : spokeOf wheel (e.id, currentTime + timeout) =
      wheel.cursorOf currentTime timeout := by
    calc (currentTime + timeout - wheel.createTime) % wheel.wheelSize
        = (k + timeout) % wheel.wheelSize := by
          rw [htime, Nat.add_assoc, Nat.add_sub_cancel_left]
      _ = (k + timeout % wheel.wheelSize) % wheel.wheelSize := (Nat.add_mod_mod _ _ _).symm
      _ = wheel.cursorOf currentTime timeout := hcursor.symm
  refine ⟨hpos, h.size_lt, h.spoke, ?_, fun c hc => ?_⟩
  · intro p hp
    rcases List.mem_append.mp hp with hp | hp
    · exact h.ge p hp
    · rw [List.mem_singleton.mp hp]
      change wheel.createTime + k ≤ currentTime + timeout
      omega
  · change List.Forall₂ (Stands wheel k c)
      (Function.update wheel.spokes (wheel.cursorOf currentTime timeout) _ c)
      ((pending ++ _).filter fun p => spokeOf wheel p = c)
    rw [List.filter_append]
    by_cases hcc : c = wheel.cursorOf currentTime timeout
    · subst hcc
      rw [Function.update_self, List.filter_singleton, hspokeOf, decide_eq_true rfl, cond_true]
      refine List.rel_append (h.lists _ hc) (List.Forall₂.cons ⟨rfl, rfl, ?_, ?_⟩ .nil)
      · exact toInt_nonneg hquot
      · -- the rotations and the steps to the cursor add up to the timeout
        change currentTime + timeout = wheel.createTime + (k +
          turn wheel.wheelSize wheel.spokeIndex (wheel.cursorOf currentTime timeout) +
          wheel.wheelSize * (toInt (timeout / wheel.wheelSize)).toNat)
        rw [toNat_toInt hquot, hcursor, h.spoke, turn_mod_add hrem, htime]
        have := Nat.mod_add_div timeout wheel.wheelSize
        omega
    · rw [Function.update_of_ne hcc, List.filter_singleton, hspokeOf,
        decide_eq_false (Ne.symm hcc), cond_false, List.append_nil]
      exact h.lists c hc

/-- A linked element is pending, and removing it takes it out. -/
lemma remove (h : Aligned wheel k pending) (hnodup : (pending.map Prod.fst).Nodup) {id : ℕ}
    {e : TimerElem ε} (he : elemOf wheel.linked id = some e) :
    e.id = id ∧ (∃ d, (id, d) ∈ pending) ∧
      Aligned (wheel.removeElem e) k (pending.filter fun p => p.1 ≠ id) := by
  obtain ⟨hlinked, hid⟩ := elemOf_spec he
  obtain ⟨c, hc, hmem⟩ := mem_linked.mp hlinked
  obtain ⟨⟨id', d⟩, hp, hpc, hstands⟩ := h.exists_pending hc hmem
  obtain rfl : c = e.cursor := hstands.2.1.symm
  obtain rfl : id = id' := hid.symm.trans hstands.1
  refine ⟨hid, ⟨d, hp⟩, h.size_pos, h.size_lt, h.spoke,
    fun p hp => h.ge p (List.mem_of_mem_filter hp), fun c hc' => ?_⟩
  change List.Forall₂ (Stands wheel k c)
    (Function.update wheel.spokes e.cursor (unlink (wheel.spokes e.cursor) e.id) c)
    ((pending.filter fun p => p.1 ≠ id).filter fun p => spokeOf wheel p = c)
  rw [List.filter_comm]
  by_cases hcc : c = e.cursor
  · subst hcc
    have hids : (wheel.spokes e.cursor).map TimerElem.id =
        (pending.filter fun p => spokeOf wheel p = e.cursor).map Prod.fst :=
      map_eq_of_forall₂ (h.lists _ hc) fun _ _ hs => hs.1
    rw [Function.update_self, hid, unlink_eq_filter
      (hids ▸ hnodup.sublist (List.filter_sublist.map _))]
    refine List.rel_filter ?_ (h.lists _ hc)
    intro f p hs
    simp [hs.1]
  · -- the timer belongs to another spoke
    rw [Function.update_of_ne hcc]
    have hfilter : ((pending.filter fun p => spokeOf wheel p = c).filter fun p => p.1 ≠ id) =
        pending.filter fun p => spokeOf wheel p = c := by
      refine List.filter_eq_self.mpr fun p hp' => ?_
      rw [List.mem_filter, decide_eq_true_eq] at hp'
      rw [decide_eq_true_eq]
      intro hpid
      have hpe : p = (id, d) := List.inj_on_of_nodup_map hnodup hp'.1 hp hpid
      rw [hpe, hpc] at hp'
      exact hcc hp'.2.symm
    rw [hfilter]
    exact h.lists c hc'

end Aligned

/-! ### The modes of a wheel -/

/-- The time of the last check. -/
def lastCheck (h : History ℕ) : Option ℕ := h.checks.getLast?.map Prod.fst

/-- Nothing has been added yet. -/
structure Unstarted (wheel : TimerWheel ε) (now : ℕ) (h : History ℕ) (pending : List (ℕ × ℕ)) :
    Prop where
  create : wheel.createTime = ulongMax
  last : wheel.lastCheckRelativeTick = ulongMax
  spokes : ∀ c, wheel.spokes c = []
  pending : pending = []
  lastCheck : ∀ t, lastCheck h = some t → t ≤ now

/-- Time is at its last value and so is `create_time`: no check runs anything,
and nothing pending has a deadline that could still be passed. -/
structure Ended (wheel : TimerWheel ε) (now next : ℕ) (h : History ℕ) (pending : List (ℕ × ℕ)) :
    Prop where
  create : wheel.createTime = ulongMax
  now_eq : now = ulongMax
  late : ∀ p ∈ pending, ulongMax ≤ p.2
  spokes : ∀ c < wheel.wheelSize, ∀ e ∈ wheel.spokes c, ¬ h.Ran e.id ∧ e.id < next

/-- The wheel is aligned at the tick of its last check. -/
structure Running (wheel : TimerWheel ε) (now : ℕ) (h : History ℕ) (pending : List (ℕ × ℕ)) :
    Prop where
  create : wheel.createTime < ulongMax
  le_now : wheel.createTime + wheel.lastCheckRelativeTick ≤ now
  aligned : Aligned wheel wheel.lastCheckRelativeTick pending
  armed : h.armings ≠ 0
  lastCheck : ∀ t, lastCheck h = some t → wheel.createTime ≤ t →
    t = wheel.createTime + wheel.lastCheckRelativeTick

/-- One of the three. -/
def ModeOk (wheel : TimerWheel ε) (now next : ℕ) (h : History ℕ) (pending : List (ℕ × ℕ)) : Prop :=
  Unstarted wheel now h pending ∨ Ended wheel now next h pending ∨ Running wheel now h pending

section Modes

variable {wheel : TimerWheel ε} {now next next' currentTime timeout : ℕ} {h : History ℕ}
  {pending : List (ℕ × ℕ)} {e : TimerElem ε}

/-- An insertion at the end of time. -/
lemma ended_insert (hcreate : wheel.createTime = ulongMax)
    (hlate : ∀ p ∈ pending, ulongMax ≤ p.2)
    (hspokes : ∀ c < wheel.wheelSize, ∀ f ∈ wheel.spokes c, ¬ h.Ran f.id ∧ f.id < next)
    (hran : ¬ h.Ran e.id) (hid : e.id < next) (htime : currentTime = ulongMax) (d : ℕ) :
    Ended (wheel.insertElem e currentTime timeout) currentTime next (h.arm e.id d)
      (pending ++ [(e.id, currentTime + timeout)]) := by
  refine ⟨hcreate, htime, fun p hp => ?_, fun c hc f hf => ?_⟩
  · rcases List.mem_append.mp hp with hp | hp
    · exact hlate p hp
    · rw [List.mem_singleton.mp hp]
      change ulongMax ≤ currentTime + timeout
      omega
  · rcases mem_insertElem hf with hf | ⟨-, rfl⟩
    · exact hspokes c hc f hf
    · exact ⟨hran, hid⟩

/-- **Setting an element** right after a check, or first of all. -/
lemma ModeOk.insert (hmode : ModeOk wheel now next h pending) (hpos : 0 < wheel.wheelSize)
    (hsize : wheel.wheelSize < 2 ^ 64) (htime : now ≤ currentTime) (hmax : currentTime ≤ ulongMax)
    (hwrap : currentTime + timeout ≤ ulongMax) (hquot : timeout / wheel.wheelSize < 2 ^ 31)
    (hdisc : h.armings = 0 ∨ lastCheck h = some currentTime)
    (hpending : ∀ p ∈ pending, ¬ h.Ran p.1 ∧ p.1 < next) (hran : ¬ h.Ran e.id)
    (hid : e.id < next') (hnext : next ≤ next') (d : ℕ) :
    ModeOk ((wheel.startAt currentTime).insertElem e currentTime timeout) currentTime next'
      (h.arm e.id d) (pending ++ [(e.id, currentTime + timeout)]) := by
  rcases hmode with hmode | hmode | hmode
  · -- the first add: the wheel starts at tick 0
    have hstart : wheel.startAt currentTime =
        { wheel with createTime := currentTime, spokeIndex := 0, lastCheckRelativeTick := 0 } := by
      rw [startAt, if_pos hmode.last]
    rw [hstart, hmode.pending]
    by_cases hend : currentTime = ulongMax
    · refine Or.inr (Or.inl (ended_insert hend (fun p hp => (List.not_mem_nil hp).elim) ?_ hran hid
        hend d))
      intro c _ f hf
      rw [show wheel.spokes c = [] from hmode.spokes c] at hf
      exact (List.not_mem_nil hf).elim
    · have hal : Aligned ({ wheel with
          createTime := currentTime, spokeIndex := 0, lastCheckRelativeTick := 0 } :
          TimerWheel ε) 0 [] := by
        refine ⟨hpos, hsize, (Nat.zero_mod _).symm, fun p hp => (List.not_mem_nil hp).elim,
          fun c _ => ?_⟩
        rw [show wheel.spokes c = [] from hmode.spokes c]
        exact .nil
      refine Or.inr (Or.inr ⟨by change currentTime < ulongMax; omega, le_rfl,
        hal.insert rfl hwrap hquot, Nat.succ_ne_zero _, fun t ht hle => ?_⟩)
      have := hmode.lastCheck t ht
      change currentTime ≤ t at hle
      change t = currentTime + 0
      omega
  · -- the end of time: whether the wheel starts again or not, `create_time` is `-1`
    have hend : currentTime = ulongMax := by
      have := hmode.now_eq
      omega
    have hstart : (wheel.startAt currentTime).createTime = ulongMax := by
      rw [startAt]
      split_ifs
      · exact hend
      · exact hmode.create
    refine Or.inr (Or.inl (ended_insert hstart hmode.late ?_ hran hid hend d))
    rw [startAt_spokes, startAt_wheelSize]
    intro c hc f hf
    have := hmode.spokes c hc f hf
    exact ⟨this.1, by omega⟩
  · have hnow := hmode.le_now
    by_cases hlast : wheel.lastCheckRelativeTick = ulongMax
    · -- the last check was at the end of time, and its tick reads as `-1`
      have hend : currentTime = ulongMax := by omega
      have hstart : wheel.startAt currentTime = { wheel with
          createTime := currentTime
          spokeIndex := 0
          lastCheckRelativeTick := 0 } := by
        rw [startAt, if_pos hlast]
      rw [hstart]
      refine Or.inr (Or.inl (ended_insert hend (fun p hp => ?_) ?_ hran hid hend d))
      · have := hmode.aligned.ge p hp
        omega
      · intro c hc f hf
        obtain ⟨p, hp, -, hs⟩ := hmode.aligned.exists_pending hc hf
        rw [hs.1]
        exact ⟨(hpending p hp).1, (hpending p hp).2.trans_le hnext⟩
    · have hstart : wheel.startAt currentTime = wheel := by rw [startAt, if_neg hlast]
      have hcur : currentTime = wheel.createTime + wheel.lastCheckRelativeTick :=
        hmode.lastCheck _ (hdisc.resolve_left hmode.armed) (by omega)
      rw [hstart]
      exact Or.inr (Or.inr ⟨hmode.create, hcur.ge, hmode.aligned.insert hcur hwrap hquot,
        Nat.succ_ne_zero _, hmode.lastCheck⟩)

/-- **Unlinking an element**: it was pending or at least never run, and the
wheel stays in its mode. -/
lemma ModeOk.remove (hmode : ModeOk wheel now next h pending)
    (hnodup : (pending.map Prod.fst).Nodup)
    (hpending : ∀ p ∈ pending, ¬ h.Ran p.1 ∧ p.1 < next) {id : ℕ}
    (he : elemOf wheel.linked id = some e) :
    e.id = id ∧ ¬ h.Ran id ∧ id < next ∧
      ModeOk (wheel.removeElem e) now next h (pending.filter fun p => p.1 ≠ id) := by
  obtain ⟨hlinked, hid⟩ := elemOf_spec he
  obtain ⟨c, hc, hmem⟩ := mem_linked.mp hlinked
  rcases hmode with hmode | hmode | hmode
  · rw [hmode.spokes c] at hmem
    exact (List.not_mem_nil hmem).elim
  · have hran := hmode.spokes c hc e hmem
    rw [hid] at hran
    exact ⟨hid, hran.1, hran.2, Or.inr (Or.inl ⟨hmode.create, hmode.now_eq,
      fun p hp => hmode.late p (List.mem_of_mem_filter hp),
      fun c hc f hf => hmode.spokes c hc f (mem_removeElem hf)⟩)⟩
  · obtain ⟨-, ⟨d, hd⟩, hal⟩ := hmode.aligned.remove hnodup he
    have hran := hpending _ hd
    exact ⟨hid, hran.1, hran.2, Or.inr (Or.inr ⟨hmode.create, hmode.le_now, hal, hmode.armed,
      hmode.lastCheck⟩)⟩

/-- Disarming changes nothing the mode is about. -/
lemma ModeOk.disarm (hmode : ModeOk wheel now next h pending) (i : ℕ) :
    ModeOk wheel now next (h.disarm i) pending := by
  rcases hmode with hmode | hmode | hmode
  · exact Or.inl ⟨hmode.create, hmode.last, hmode.spokes, hmode.pending, hmode.lastCheck⟩
  · exact Or.inr (Or.inl ⟨hmode.create, hmode.now_eq, hmode.late, hmode.spokes⟩)
  · exact Or.inr (Or.inr ⟨hmode.create, hmode.le_now, hmode.aligned, hmode.armed,
      hmode.lastCheck⟩)

end Modes

/-! ### Every call -/

/-- The wheel, its mode, and the history its user has seen. -/
structure WheelInv (s : WheelRun ε) (pending : List (ℕ × ℕ)) : Prop where
  size_pos : 0 < s.wheel.wheelSize
  size_lt : s.wheel.wheelSize < 2 ^ 64
  agrees : s.history.Agrees pending
  fresh : ∀ i a, s.history.armed i = some a → i < s.next
  mode : ModeOk s.wheel s.now s.next s.history pending

namespace WheelInv

variable {s s' : WheelRun ε} {pending : List (ℕ × ℕ)} {currentTime timeout id : ℕ}

/-- What is pending has not been run. -/
lemma pending_ok (h : WheelInv s pending) : ∀ p ∈ pending, ¬ s.history.Ran p.1 ∧ p.1 < s.next := by
  intro p hp
  obtain ⟨a, ha, -⟩ := (h.agrees.mem_iff p.1 p.2).mp hp
  exact ⟨h.agrees.not_ran hp, h.fresh _ a ha⟩

/-- The next element has never been armed. -/
lemma next_ok (h : WheelInv s pending) :
    ¬ s.history.Ran s.next ∧ (pending.filter fun p => p.1 ≠ s.next) = pending := by
  refine ⟨?_, List.filter_eq_self.mpr fun p hp => ?_⟩
  · rintro ⟨c, hc, hi⟩
    obtain ⟨a, ha⟩ := h.agrees.exact.known c hc _ hi
    exact absurd (h.fresh _ a ha) (Nat.lt_irrefl _)
  · have := (h.pending_ok p hp).2
    rw [decide_eq_true_eq]
    omega

/-- Arming keeps the armed elements below the next one. -/
lemma fresh_arm {next next' id d : ℕ} {h : History ℕ}
    (hfresh : ∀ i a, h.armed i = some a → i < next) (hid : id < next') (hle : next ≤ next') :
    ∀ i a, (h.arm id d).armed i = some a → i < next' := by
  intro i a ha
  by_cases hi : i = id
  · rw [hi]
    exact hid
  · rw [show (h.arm id d).armed i = h.armed i from Function.update_of_ne hi _ _] at ha
    exact (hfresh i a ha).trans_le hle

/-- An add keeps the invariant. -/
lemma add (h : WheelInv s pending) {event : ε}
    (hok : WheelOp.Disciplined s (.add currentTime timeout event))
    (hwrap : currentTime + timeout ≤ ulongMax)
    (hs : WheelOp.step s (.add currentTime timeout event) = some s') :
    ∃ pending', WheelInv s' pending' := by
  obtain rfl := Option.some.inj hs
  obtain ⟨⟨htime, hmax, -, hquot⟩, hdisc⟩ := hok
  obtain ⟨hran, hfilter⟩ := h.next_ok
  have hexp : uadd 64 currentTime timeout = currentTime + timeout := uadd_of_le_ulongMax hwrap
  have hag := h.agrees.arm hran (currentTime + timeout)
  have hmode := h.mode.insert (e := ⟨s.next, 0, 0, 0, event⟩) h.size_pos h.size_lt htime hmax hwrap
    hquot hdisc h.pending_ok hran (Nat.lt_succ_self _) (Nat.le_succ _) (currentTime + timeout)
  rw [hfilter] at hag
  refine ⟨pending ++ [(s.next, currentTime + timeout)], ⟨?_, ?_, ?_, ?_, ?_⟩⟩
  · rw [WheelRun.wheel, ZxTimer.addWheel_inner]
    exact (startAt_wheelSize s.wheel currentTime).symm ▸ h.size_pos
  · rw [WheelRun.wheel, ZxTimer.addWheel_inner]
    exact (startAt_wheelSize s.wheel currentTime).symm ▸ h.size_lt
  · rw [hexp]
    exact hag
  · exact fresh_arm h.fresh (Nat.lt_succ_self _) (Nat.le_succ _)
  · rw [hexp, WheelRun.wheel, ZxTimer.addWheel_inner]
    exact hmode

/-- A del keeps the invariant. -/
lemma del (h : WheelInv s pending) (hs : WheelOp.step s (.del id) = some s') :
    ∃ pending', WheelInv s' pending' := by
  obtain ⟨r, hr, rfl⟩ := Option.map_eq_some_iff.mp hs
  obtain ⟨e, he, rfl⟩ := ZxTimer.delWheel_spec hr
  obtain ⟨-, hran, -, hmode⟩ := h.mode.remove h.agrees.nodup h.pending_ok he
  refine ⟨pending.filter fun p => p.1 ≠ id,
    ⟨?_, ?_, h.agrees.disarm hran, fun i a ha => ?_, ?_⟩⟩
  · rw [WheelRun.wheel, ZxTimer.countDown_inner]
    exact h.size_pos
  · rw [WheelRun.wheel, ZxTimer.countDown_inner]
    exact h.size_lt
  · by_cases hi : i = id
    · rw [hi, show (s.history.disarm id).armed id = none from Function.update_self _ _ _] at ha
      cases ha
    · rw [show (s.history.disarm id).armed i = s.history.armed i from
        Function.update_of_ne hi _ _] at ha
      exact h.fresh i a ha
  · rw [WheelRun.wheel, ZxTimer.countDown_inner]
    exact hmode.disarm id

/-- A reset keeps the invariant. -/
lemma reset (h : WheelInv s pending)
    (hok : WheelOp.Disciplined s (.reset id currentTime timeout))
    (hwrap : currentTime + timeout ≤ ulongMax)
    (hs : WheelOp.step s (.reset id currentTime timeout) = some s') :
    ∃ pending', WheelInv s' pending' := by
  obtain ⟨⟨htime, hmax, -, hquot⟩, hdisc⟩ := hok
  obtain ⟨timer, hr, rfl⟩ := Option.map_eq_some_iff.mp hs
  obtain ⟨e, he, rfl⟩ := ZxTimer.resetWheel_spec hr
  have hexp : uadd 64 currentTime timeout = currentTime + timeout := uadd_of_le_ulongMax hwrap
  obtain ⟨hid, hran, hlt, hmode⟩ := h.mode.remove h.agrees.nodup h.pending_ok he
  subst hid
  have hmode' := hmode.insert (e := e) h.size_pos h.size_lt htime hmax hwrap hquot hdisc
    (fun p hp => h.pending_ok p (List.mem_of_mem_filter hp)) hran hlt le_rfl
    (currentTime + timeout)
  have hsize : ((s.timer.inner.removeElem e).startAt currentTime).wheelSize =
      s.wheel.wheelSize := startAt_wheelSize _ _
  refine ⟨(pending.filter fun p => p.1 ≠ e.id) ++ [(e.id, currentTime + timeout)],
    ⟨hsize.symm ▸ h.size_pos, hsize.symm ▸ h.size_lt, ?_, fresh_arm h.fresh hlt le_rfl, ?_⟩⟩
  · rw [hexp]
    exact h.agrees.arm hran _
  · rw [hexp]
    exact hmode'

/-- The last check, after one more. -/
lemma lastCheck_check (h : History ℕ) (now : ℕ) (ran : List ℕ) :
    lastCheck (h.check now ran) = some now := by
  rw [lastCheck, History.check, List.getLast?_append]
  rfl

/-- A check that runs nothing has run nothing. -/
lemma ran_check_nil {h : History ℕ} {now i : ℕ} (hran : (h.check now []).Ran i) : h.Ran i := by
  obtain ⟨c, hc, hi⟩ := hran
  rcases List.mem_append.mp hc with hc | hc
  · exact ⟨c, hc, hi⟩
  · rw [List.mem_singleton.mp hc] at hi
    exact (List.not_mem_nil hi).elim

/-- A check that returns at once keeps the invariant. -/
lemma check_idle (h : WheelInv s pending) (htime : s.now ≤ currentTime)
    (hmax : currentTime ≤ ulongMax) (hcreate : s.wheel.createTime = ulongMax) :
    WheelInv ⟨s.timer, s.next, currentTime, s.history.check currentTime []⟩ pending := by
  have hlate : ∀ p ∈ pending, currentTime ≤ p.2 := by
    rcases h.mode with hmode | hmode | hmode
    · intro p hp
      rw [hmode.pending] at hp
      exact (List.not_mem_nil hp).elim
    · exact fun p hp => hmax.trans (hmode.late p hp)
    · exact absurd hcreate hmode.create.ne
  have hag := h.agrees.check hlate 0
  rw [buckets_zero, Nat.add_zero,
    List.filter_eq_self.mpr fun p hp => decide_eq_true (hlate p hp)] at hag
  refine ⟨h.size_pos, h.size_lt, hag, h.fresh, ?_⟩
  rcases h.mode with hmode | hmode | hmode
  · refine Or.inl ⟨hmode.create, hmode.last, hmode.spokes, hmode.pending, fun t ht => ?_⟩
    rw [lastCheck_check] at ht
    exact (Option.some.inj ht).ge
  · have hnow := hmode.now_eq
    exact Or.inr (Or.inl ⟨hmode.create, le_antisymm hmax (hnow ▸ htime), hmode.late,
      fun c hc e he => ⟨fun hran => (hmode.spokes c hc e he).1 (ran_check_nil hran),
        (hmode.spokes c hc e he).2⟩⟩)
  · exact absurd hcreate hmode.create.ne

/-- A check keeps the invariant. -/
lemma check (h : WheelInv s pending) {maxCbTimes : ℕ}
    (hok : WheelOp.Disciplined s (.check currentTime maxCbTimes))
    {r : List (TimerElem ε) × ZxTimer (TimerWheel ε)}
    (hr : s.timer.checkWheel currentTime maxCbTimes = some r) :
    ∃ pending', WheelInv ⟨r.2, s.next, currentTime,
      s.history.check currentTime (r.1.map TimerElem.id)⟩ pending' := by
  obtain ⟨⟨htime, hmax, hticks⟩, hbudget⟩ := hok
  rcases ZxTimer.checkWheel_spec hr with ⟨hcreate, rfl⟩ | ⟨hcreate, rfl⟩
  · exact ⟨pending, h.check_idle htime hmax hcreate⟩
  · have hrun : Running s.timer.inner s.now s.history pending := by
      rcases h.mode with hmode | hmode | hmode
      · exact absurd hmode.create hcreate
      · exact absurd hmode.create hcreate
      · exact hmode
    replace hbudget : s.timer.inner.linked.length ≤ maxCbTimes := hbudget
    have hlt : s.timer.inner.tickCnt currentTime < 2 ^ 31 := hticks hcreate
    have hnow := hrun.le_now
    obtain ⟨hrel, hcnt⟩ := tickCnt_of_le (hnow.trans htime) hmax
    rw [min_eq_left (le_of_lt hlt), hrel]
    set n := s.timer.inner.tickCnt currentTime with hn
    rw [hrun.aligned.linked_length, ← Nat.zero_add pending.length] at hbudget
    obtain ⟨-, hfired, hct, hws, hal⟩ := hrun.aligned.tickLoop n hbudget
    have hcur : s.timer.inner.createTime + s.timer.inner.lastCheckRelativeTick + n =
        currentTime := by omega
    have htick : currentTime - s.timer.inner.createTime =
        s.timer.inner.lastCheckRelativeTick + n := by omega
    have hag := h.agrees.check hrun.aligned.ge n
    rw [hcur, ← hfired] at hag
    rw [hcur] at hal
    rw [htick]
    refine ⟨pending.filter fun p => currentTime ≤ p.2, ⟨?_, ?_, hag, h.fresh, ?_⟩⟩
    · rw [WheelRun.wheel, ZxTimer.countDown_iterate_inner]
      exact hws.symm ▸ h.size_pos
    · rw [WheelRun.wheel, ZxTimer.countDown_iterate_inner]
      exact hws.symm ▸ h.size_lt
    · rw [WheelRun.wheel, ZxTimer.countDown_iterate_inner]
      refine Or.inr (Or.inr
        ⟨hct.symm ▸ hrun.create, ?_, hal.checked _, hrun.armed, fun t ht _ => ?_⟩)
      · dsimp only
        rw [hct]
        omega
      · rw [lastCheck_check] at ht
        obtain rfl := Option.some.inj ht
        dsimp only
        rw [hct]
        omega

/-- **Every disciplined call keeps the invariant.** -/
lemma step (h : WheelInv s pending) {a : WheelOp ε} (hok : a.Disciplined s) (hwrap : a.NoWrap)
    (hs : a.step s = some s') : ∃ pending', WheelInv s' pending' := by
  cases a with
  | add currentTime timeout event => exact h.add hok hwrap hs
  | del id => exact h.del hs
  | reset id currentTime timeout => exact h.reset hok hwrap hs
  | check currentTime maxCbTimes =>
      obtain ⟨r, hr, rfl⟩ := WheelOp.step_check hs
      exact h.check hok hr

/-- A wheel just created. -/
lemma start {wheelSize : ℕ} {timer : ZxTimer (TimerWheel ε)}
    (hcreate : ZxTimer.createWheel wheelSize = some timer) :
    WheelInv (WheelRun.start timer) [] := by
  obtain ⟨hpos, hlt, rfl⟩ := ZxTimer.createWheel_spec hcreate
  exact ⟨hpos, hlt, History.start_agrees, fun i a ha => (Option.some_ne_none a ha.symm).elim,
    Or.inl ⟨rfl, rfl, fun _ => rfl, rfl, fun t ht => (Option.some_ne_none t ht.symm).elim⟩⟩

end WheelInv

/-- **Exact deadlines of the wheel**: in every disciplined run without wrapping
expires, an element runs in the first check past its expire and in no other,
and the callbacks of a check run by expire and then by insertion or last
reset. -/
theorem wheel_exact_deadlines {wheelSize : ℕ} {timer : ZxTimer (TimerWheel ε)}
    (hcreate : ZxTimer.createWheel wheelSize = some timer) {as : List (WheelOp ε)} {s : WheelRun ε}
    (hrun : Run WheelOp.step (fun s a => a.Disciplined s ∧ a.NoWrap) (WheelRun.start timer) as s) :
    s.history.Exact := by
  obtain ⟨pending, h⟩ := hrun.invariant (I := fun _ s => ∃ pending, WheelInv s pending)
    ⟨[], WheelInv.start hcreate⟩ fun _ _ _ _ ⟨_, h⟩ hok hs => h.step hok.1 hok.2 hs
  exact h.agrees.exact

/-- Three elements, one of them past its expire at the second check. -/
theorem wheel_of_six_exact_deadlines :
    ∃ s : WheelRun Unit, s.history.checks = [(3, []), (5, [1])] ∧ s.history.Exact := by
  have hrun : (exec (fun s a => if a.Disciplined s ∧ a.NoWrap then WheelOp.step s a else none)
      (WheelRun.start wheelOfSix)
      [.add 0 10 (), .check 3 5, .add 3 1 (), .add 3 2 (), .check 5 5]).map
      (fun s => s.history.checks) = some [(3, []), (5, [1])] := by
    decide +kernel
  obtain ⟨s, hs, hchecks⟩ := Option.map_eq_some_iff.mp hrun
  exact ⟨s, hchecks, wheel_exact_deadlines createWheel_six (run_of_exec_guarded hs)⟩

/-- **An expire that wraps**: 5 after `2 ^ 64 - 2` is 3, and a check at
`2 ^ 64 - 1` does not run it. -/
theorem wheel_misses_wrapped_deadline :
    ∃ (timer : ZxTimer (TimerWheel Unit)) (s : WheelRun Unit),
      ZxTimer.createWheel 6 = some timer ∧
      Run WheelOp.step (fun s a => a.Disciplined s) (WheelRun.start timer)
        [.add (2 ^ 64 - 2) 5 (), .check (2 ^ 64 - 1) 1] s ∧
      ¬ s.history.Exact := by
  have hrun : (exec (fun s a => if a.Disciplined s then WheelOp.step s a else none)
      (WheelRun.start wheelOfSix)
      [.add (2 ^ 64 - 2) 5 (), .check (2 ^ 64 - 1) 1]).map
      (fun s => ((s.history.armed 0).map fun a => (a.deadline, a.since), s.history.checks)) =
        some (some (3, 0), [(2 ^ 64 - 1, [])]) := by
    decide +kernel
  obtain ⟨s, hs, heq⟩ := Option.map_eq_some_iff.mp hrun
  rw [Prod.mk.injEq] at heq
  obtain ⟨a, ha, hda⟩ := Option.map_eq_some_iff.mp heq.1
  rw [Prod.mk.injEq] at hda
  refine ⟨_, s, createWheel_six, run_of_exec_guarded hs, fun hexact => ?_⟩
  have hran := (hexact.runs 0 a ha 0 (2 ^ 64 - 1, []) (by rw [heq.2]; rfl)).mpr
    ⟨hda.2.le, by rw [hda.1]; decide, fun j hj => absurd hj (Nat.not_lt_zero j)⟩
  exact List.not_mem_nil hran

end CLibrary
