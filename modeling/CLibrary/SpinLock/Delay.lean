import CLibrary.SpinLock.Basic

/-!
How long a call of `s_lock` waits.

* `SpinLog`: what a call has printed and slept.  `SpinLog.again`: one more try fails.
* `sLock`: a call as the list of what `random()` returns at the tries that fail.
* `Backed spd k log`: the state after `k` of them.  `Backed.again`: one more, if the
  delays still fit an `int`, and nothing defined if they do not.
* `sLock_backs_off`: how often, how long and how loudly a call waits.
-/

namespace CLibrary

/-- The tries of a call so far. -/
structure SpinLog where
  status : SpinDelayStatus
  printed : List String
  slept : List Timeval
  deriving DecidableEq

/-- `perform_spin_delay` after a try that failed. -/
def SpinLog.again (R : Rounding) (spinsPerDelay : ℤ) (log : SpinLog) (random : ℕ) :
    Option SpinLog := do
  let spun ← performSpinDelay R spinsPerDelay log.status random
  some ⟨spun.status, log.printed ++ spun.printed.toList, log.slept ++ spun.slept.toList⟩

/-- `s_lock`, where `TAS_SPIN` fails as often as the list is long: what it returns, the
new estimate, and what happened. -/
def sLock (R : Rounding) (spinsPerDelay : ℤ) (file : String) (line : ℤ) (func : Option String)
    (randoms : List ℕ) : Option (ℤ × ℤ × SpinLog) := do
  let log ← randoms.foldlM (SpinLog.again R spinsPerDelay) ⟨initSpinDelay file line func, [], []⟩
  some (log.status.delays, finishSpinDelay spinsPerDelay log.status, log)

/-- The tries between two delays. -/
def triesPerDelay (spinsPerDelay : ℤ) : ℕ := (max spinsPerDelay 1).toNat

lemma triesPerDelay_pos (spinsPerDelay : ℤ) : 0 < triesPerDelay spinsPerDelay := by
  rw [triesPerDelay]
  omega

/-- A delay: at least a millisecond, at most a second, and a proper `timeval`. -/
def Timeval.IsDelay (t : Timeval) : Prop :=
  0 ≤ t.tvUsec ∧ t.tvUsec < 1000000 ∧ minDelayUsec ≤ t.tvSec * 1000000 + t.tvUsec ∧
    t.tvSec * 1000000 + t.tvUsec ≤ maxDelayUsec

/-- The state of a call after `k` tries that failed. -/
structure Backed (spinsPerDelay : ℤ) (file : String) (line : ℤ) (func : Option String) (k : ℕ)
    (log : SpinLog) : Prop where
  place : log.status.file = file ∧ log.status.line = line ∧ log.status.func = func
  spins : log.status.spins = (k % triesPerDelay spinsPerDelay : ℕ)
  delays : log.status.delays = (k / triesPerDelay spinsPerDelay : ℕ)
  fits : k / triesPerDelay spinsPerDelay < 2 ^ 31
  never : k < triesPerDelay spinsPerDelay → log.status.curDelay = 0
  delayed : triesPerDelay spinsPerDelay ≤ k →
    minDelayUsec ≤ log.status.curDelay ∧ log.status.curDelay ≤ maxDelayUsec
  printed : log.printed =
    List.replicate (k / triesPerDelay spinsPerDelay - 1000) (sLockStuck file line func)
  count : log.slept.length = k / triesPerDelay spinsPerDelay
  slept : ∀ t ∈ log.slept, t.IsDelay

lemma pgUsleep_isDelay {microsec : ℤ} (h : minDelayUsec ≤ microsec) (h' : microsec ≤ maxDelayUsec) :
    ∃ t, pgUsleep microsec = some t ∧ t.IsDelay := by
  have hlo : (1000 : ℤ) ≤ microsec := h
  have hhi : microsec ≤ 1000000 := h'
  refine ⟨_, if_pos (by omega), ?_⟩
  simp only [Timeval.IsDelay]
  rw [Int.tdiv_eq_ediv_of_nonneg (by omega), Int.tmod_eq_emod_of_nonneg (by omega)]
  refine ⟨by omega, by omega, h.trans_eq ?_, le_trans (le_of_eq ?_) h'⟩ <;> omega

/-- A try that completes a round. -/
lemma succ_wraps {k n : ℕ} (hn : 0 < n) (h : k % n + 1 = n) :
    (k + 1) / n = k / n + 1 ∧ (k + 1) % n = 0 := by
  have hk := Nat.div_add_mod k n
  refine (Nat.div_mod_unique hn).mpr ⟨?_, hn⟩
  rw [mul_add, mul_one]
  omega

/-- A try that does not. -/
lemma succ_stays {k n : ℕ} (h : k % n + 1 < n) :
    (k + 1) / n = k / n ∧ (k + 1) % n = k % n + 1 := by
  have hk := Nat.div_add_mod k n
  refine (Nat.div_mod_unique (by omega)).mpr ⟨?_, h⟩
  omega

namespace Backed

variable {R : Rounding} {spinsPerDelay : ℤ} {file : String} {line : ℤ} {func : Option String}
  {k random : ℕ} {log log' : SpinLog}

lemma start (spinsPerDelay : ℤ) (file : String) (line : ℤ) (func : Option String) :
    Backed spinsPerDelay file line func 0 ⟨initSpinDelay file line func, [], []⟩ := by
  have hn := triesPerDelay_pos spinsPerDelay
  refine ⟨⟨rfl, rfl, rfl⟩, ?_, ?_, ?_, fun _ => rfl, fun h => by omega, ?_, ?_, ?_⟩
  · simp [initSpinDelay]
  · simp [initSpinDelay]
  · simp
  · simp
  · simp
  · simp

/-- Every count of tries fits. -/
lemma spins_fits (h : Backed spinsPerDelay file line func k log) (hspd : spinsPerDelay < 2 ^ 31) :
    fitsInt (log.status.spins + 1) = some (log.status.spins + 1) := by
  have hlt := Nat.mod_lt k (triesPerDelay_pos spinsPerDelay)
  rw [h.spins]
  refine fitsInt_of_mem (by omega) ?_
  simp only [triesPerDelay] at hlt ⊢
  omega

/-- The round is complete where the code compares. -/
lemma spins_ge_iff (h : Backed spinsPerDelay file line func k log) :
    log.status.spins + 1 ≥ spinsPerDelay ↔
      k % triesPerDelay spinsPerDelay + 1 = triesPerDelay spinsPerDelay := by
  have hlt := Nat.mod_lt k (triesPerDelay_pos spinsPerDelay)
  rw [h.spins]
  simp only [triesPerDelay] at hlt ⊢
  omega

/-- The length of the next delay. -/
lemma curDelay_mem (h : Backed spinsPerDelay file line func k log) :
    minDelayUsec ≤ (if log.status.curDelay = 0 then minDelayUsec else log.status.curDelay) ∧
      (if log.status.curDelay = 0 then minDelayUsec else log.status.curDelay) ≤ maxDelayUsec := by
  rcases lt_or_ge k (triesPerDelay spinsPerDelay) with hk | hk
  · rw [if_pos (h.never hk)]
    exact ⟨le_rfl, by simp [minDelayUsec, maxDelayUsec]⟩
  · have hcur := h.delayed hk
    rw [if_neg (by simp only [minDelayUsec] at hcur; omega)]
    exact hcur

lemma again_eq {spun : Spun}
    (h : performSpinDelay R spinsPerDelay log.status random = some spun) :
    log.again R spinsPerDelay random = some ⟨spun.status, log.printed ++ spun.printed.toList,
      log.slept ++ spun.slept.toList⟩ := by
  rw [SpinLog.again, h]
  rfl

/-- What a try does that completes no round. -/
lemma again_stays (h : Backed spinsPerDelay file line func k log)
    (hspd : spinsPerDelay < 2 ^ 31)
    (hround : k % triesPerDelay spinsPerDelay + 1 < triesPerDelay spinsPerDelay) :
    ∃ log', log.again R spinsPerDelay random = some log' ∧
      Backed spinsPerDelay file line func (k + 1) log' := by
  have hge : ¬ log.status.spins + 1 ≥ spinsPerDelay := fun hge => by
    have := h.spins_ge_iff.mp hge
    omega
  obtain ⟨hdiv, hmod⟩ := succ_stays hround
  have hstep : performSpinDelay R spinsPerDelay log.status random =
      some ⟨{ log.status with spins := log.status.spins + 1 }, none, none⟩ := by
    rw [performSpinDelay, h.spins_fits hspd, Option.bind_eq_bind, Option.bind_some, if_neg hge]
  refine ⟨_, again_eq hstep, ⟨h.place, ?_, ?_, ?_, ?_, ?_, ?_, ?_, ?_⟩⟩
  · rw [hmod]
    simp [h.spins]
  · rw [hdiv]
    exact h.delays
  · rw [hdiv]
    exact h.fits
  · exact fun hk => h.never (by omega)
  · intro hk
    refine h.delayed ?_
    by_contra hlt
    rw [Nat.mod_eq_of_lt (by omega)] at hround
    omega
  · simp [hdiv, h.printed]
  · simp [hdiv, h.count]
  · simpa using h.slept

/-- What a try does that completes one. -/
lemma again_wraps (h : Backed spinsPerDelay file line func k log)
    (hspd : spinsPerDelay < 2 ^ 31) (hrandom : random ≤ maxRandomValue)
    (hround : k % triesPerDelay spinsPerDelay + 1 = triesPerDelay spinsPerDelay)
    (hfits : (k + 1) / triesPerDelay spinsPerDelay < 2 ^ 31) :
    ∃ log', log.again R spinsPerDelay random = some log' ∧
      Backed spinsPerDelay file line func (k + 1) log' := by
  have hpos := triesPerDelay_pos spinsPerDelay
  obtain ⟨hdiv, hmod⟩ := succ_wraps hpos hround
  obtain ⟨hfile, hline, hfunc⟩ := h.place
  obtain ⟨hlo, hhi⟩ := h.curDelay_mem
  obtain ⟨t, ht, hdelay⟩ := pgUsleep_isDelay hlo hhi
  set cur := if log.status.curDelay = 0 then minDelayUsec else log.status.curDelay with hcur
  simp only [minDelayUsec, maxDelayUsec] at hlo hhi
  obtain ⟨hj0, hj1⟩ := R.jitter_mem (show 0 ≤ cur by omega) (by omega) hrandom
  have hstep : performSpinDelay R spinsPerDelay log.status random = some
      ⟨{ log.status with
          spins := 0
          delays := log.status.delays + 1
          curDelay := if cur + R.jitter cur random > maxDelayUsec then minDelayUsec
            else cur + R.jitter cur random },
        if log.status.delays + 1 > numDelays then some (sLockStuck file line func) else none,
        some t⟩ := by
    have hdelays : fitsInt (log.status.delays + 1) = some (log.status.delays + 1) := by
      have hnonneg := Int.natCast_nonneg (k / triesPerDelay spinsPerDelay)
      rw [h.delays]
      exact fitsInt_of_mem (by omega) (by omega)
    have hnext : fitsInt (cur + R.jitter cur random) = some (cur + R.jitter cur random) :=
      fitsInt_of_mem (by omega) (by omega)
    rw [performSpinDelay, h.spins_fits hspd, Option.bind_eq_bind, Option.bind_some,
      if_pos (h.spins_ge_iff.mpr hround), hdelays, Option.bind_some, ← hcur]
    simp only
    rw [hnext, Option.bind_some, ht, hfile, hline, hfunc]
  have hmem : minDelayUsec ≤ (if cur + R.jitter cur random > maxDelayUsec then minDelayUsec
        else cur + R.jitter cur random) ∧
      (if cur + R.jitter cur random > maxDelayUsec then minDelayUsec
        else cur + R.jitter cur random) ≤ maxDelayUsec := by
    simp only [minDelayUsec, maxDelayUsec]
    split_ifs <;> omega
  have hprinted : log.printed ++ (if log.status.delays + 1 > numDelays then
        some (sLockStuck file line func) else none).toList =
      List.replicate ((k + 1) / triesPerDelay spinsPerDelay - 1000)
        (sLockStuck file line func) := by
    rw [h.printed, h.delays, hdiv]
    generalize k / triesPerDelay spinsPerDelay = q
    have hnum : numDelays = 1000 := rfl
    split_ifs with hbig
    · rw [Option.toList_some, ← List.replicate_succ', show q + 1 - 1000 = q - 1000 + 1 by omega]
    · rw [Option.toList_none, List.append_nil, show q + 1 - 1000 = q - 1000 by omega]
  refine ⟨_, again_eq hstep, ⟨⟨hfile, hline, hfunc⟩, ?_, ?_, hfits, ?_, fun _ => hmem, hprinted,
    ?_, ?_⟩⟩
  · simp [hmod]
  · simp [hdiv, h.delays]
  · intro hk
    rw [Nat.div_eq_of_lt hk] at hdiv
    exact absurd hdiv.symm (Nat.succ_ne_zero _)
  · simp [hdiv, h.count]
  · intro u hu
    rcases List.mem_append.mp hu with hu | hu
    · exact h.slept u hu
    · obtain rfl : u = t := by simpa using hu
      exact hdelay

/-- One more try. -/
lemma again (h : Backed spinsPerDelay file line func k log) (hspd : spinsPerDelay < 2 ^ 31)
    (hrandom : random ≤ maxRandomValue)
    (hfits : (k + 1) / triesPerDelay spinsPerDelay < 2 ^ 31) :
    ∃ log', log.again R spinsPerDelay random = some log' ∧
      Backed spinsPerDelay file line func (k + 1) log' := by
  have hlt := Nat.mod_lt k (triesPerDelay_pos spinsPerDelay)
  rcases Nat.lt_or_eq_of_le (Nat.succ_le_of_lt hlt) with hround | hround
  · exact h.again_stays hspd hround
  · exact h.again_wraps hspd hrandom hround hfits

/-- A try after which the delays do not fit is undefined. -/
lemma again_none (h : Backed spinsPerDelay file line func k log) (hspd : spinsPerDelay < 2 ^ 31)
    (hbig : 2 ^ 31 ≤ (k + 1) / triesPerDelay spinsPerDelay) :
    log.again R spinsPerDelay random = none := by
  have hlt := Nat.mod_lt k (triesPerDelay_pos spinsPerDelay)
  have hfits := h.fits
  rcases Nat.lt_or_eq_of_le (Nat.succ_le_of_lt hlt) with hround | hround
  · rw [(succ_stays hround).1] at hbig
    omega
  · rw [(succ_wraps (triesPerDelay_pos spinsPerDelay) hround).1] at hbig
    have hdelays : fitsInt (log.status.delays + 1) = none := by
      rw [h.delays]
      exact fitsInt_of_le (by omega)
    have hnone : performSpinDelay R spinsPerDelay log.status random = none := by
      rw [performSpinDelay, h.spins_fits hspd, Option.bind_eq_bind, Option.bind_some,
        if_pos (h.spins_ge_iff.mpr hround), hdelays]
      rfl
    rw [SpinLog.again, hnone]
    rfl

/-- Some more tries: they are defined exactly if the delays fit to the end. -/
lemma run (h : Backed spinsPerDelay file line func k log) (hspd : spinsPerDelay < 2 ^ 31)
    {randoms : List ℕ} (hrandoms : ∀ r ∈ randoms, r ≤ maxRandomValue) :
    ((k + randoms.length) / triesPerDelay spinsPerDelay < 2 ^ 31 ∧
      ∃ log', randoms.foldlM (SpinLog.again R spinsPerDelay) log = some log' ∧
        Backed spinsPerDelay file line func (k + randoms.length) log') ∨
    2 ^ 31 ≤ (k + randoms.length) / triesPerDelay spinsPerDelay ∧
      randoms.foldlM (SpinLog.again R spinsPerDelay) log = none := by
  induction randoms generalizing k log with
  | nil => exact .inl ⟨h.fits, log, rfl, h⟩
  | cons r rs ih =>
    have hlen : k + (r :: rs).length = k + 1 + rs.length := by
      rw [List.length_cons]
      omega
    rw [hlen, List.foldlM_cons, Option.bind_eq_bind]
    rcases lt_or_ge ((k + 1) / triesPerDelay spinsPerDelay) (2 ^ 31) with hfits | hbig
    · obtain ⟨log₁, hlog₁, h₁⟩ := h.again (R := R) hspd (hrandoms r List.mem_cons_self) hfits
      rw [hlog₁, Option.bind_some]
      exact ih h₁ fun r' hr' => hrandoms r' (List.mem_cons_of_mem r hr')
    · refine .inr ⟨hbig.trans (Nat.div_le_div_right (by omega)), ?_⟩
      rw [h.again_none hspd hbig, Option.bind_none]

end Backed

/-- **The back-off of a spin lock**: a call that fails `k` times first sleeps once for
every `spins_per_delay` of them (once for each, where that is not positive), never less
than a millisecond or more than a second, complains at every delay after the
thousandth, returns the number of delays, and takes the estimate up if there was none
and down if there was one.  It is defined unless the delays overflow their `int`. -/
theorem sLock_backs_off (R : Rounding) {spinsPerDelay : ℤ} (hspd : spinsPerDelay < 2 ^ 31)
    (file : String) (line : ℤ) (func : Option String) {randoms : List ℕ}
    (hrandoms : ∀ r ∈ randoms, r ≤ maxRandomValue) {delays : ℕ}
    (hdelays : delays = randoms.length / triesPerDelay spinsPerDelay) :
    (delays < 2 ^ 31 → ∃ log : SpinLog,
      sLock R spinsPerDelay file line func randoms = some ((delays : ℤ),
        if delays = 0 then max spinsPerDelay (min (spinsPerDelay + 100) maxSpinsPerDelay)
        else min spinsPerDelay (max (spinsPerDelay - 1) minSpinsPerDelay), log) ∧
      log.slept.length = delays ∧ (∀ t ∈ log.slept, t.IsDelay) ∧
      log.printed = List.replicate (delays - 1000) (sLockStuck file line func)) ∧
    (2 ^ 31 ≤ delays → sLock R spinsPerDelay file line func randoms = none) := by
  subst hdelays
  have hstart := Backed.start spinsPerDelay file line func
  rcases hstart.run (R := R) hspd hrandoms with ⟨hfits, log, hlog, h⟩ | ⟨hbig, hnone⟩
  · rw [Nat.zero_add] at hfits h
    refine ⟨fun _ => ⟨log, ?_, h.count, h.slept, h.printed⟩, fun hbig => absurd hfits (by omega)⟩
    have hpos := triesPerDelay_pos spinsPerDelay
    have hfinish : finishSpinDelay spinsPerDelay log.status =
        if randoms.length / triesPerDelay spinsPerDelay = 0 then
          max spinsPerDelay (min (spinsPerDelay + 100) maxSpinsPerDelay)
        else min spinsPerDelay (max (spinsPerDelay - 1) minSpinsPerDelay) := by
      rw [finishSpinDelay]
      simp only [maxSpinsPerDelay, minSpinsPerDelay]
      rcases lt_or_ge randoms.length (triesPerDelay spinsPerDelay) with hk | hk
      · rw [if_pos (h.never hk), if_pos (Nat.div_eq_of_lt hk)]
        split_ifs <;> omega
      · have hcur := (h.delayed hk).1
        simp only [minDelayUsec] at hcur
        have hone : 0 < randoms.length / triesPerDelay spinsPerDelay := Nat.div_pos hk hpos
        rw [if_neg (by omega), if_neg (by omega)]
        split_ifs <;> omega
    rw [sLock, hlog, Option.bind_eq_bind, Option.bind_some, h.delays, hfinish]
  · rw [Nat.zero_add] at hbig
    refine ⟨fun hfits => absurd hfits (by omega), fun _ => ?_⟩
    rw [sLock, hnone]
    rfl

/-- Twenty-five tries at ten for each delay. -/
theorem sLock_backs_off_run : ∃ log : SpinLog,
    sLock Rounding.exact 10 "main.c" 7 none (List.replicate 25 maxRandomValue) = some (2, 10, log) ∧
      log.slept.length = 2 ∧ log.printed = [] := by
  have hrandoms : ∀ r ∈ List.replicate 25 maxRandomValue, r ≤ maxRandomValue :=
    fun r hr => (List.eq_of_mem_replicate hr).le
  have hdelays : 2 = (List.replicate 25 maxRandomValue).length / triesPerDelay 10 := by decide
  obtain ⟨hdefined, -⟩ :=
    sLock_backs_off Rounding.exact (by norm_num) "main.c" 7 none hrandoms hdelays
  obtain ⟨log, hlog, hlen, -, hprinted⟩ := hdefined (by norm_num)
  exact ⟨log, hlog, hlen, hprinted⟩

end CLibrary
