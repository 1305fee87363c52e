import Mathlib.Tactic

/-!
Runs of a deterministic labelled system.

A system is a partial function `step : σ → α → Option σ`; the label carries
whatever the environment chooses (the call made, its arguments, the thread
that moves), and `none` says that the label is not enabled.

* `Run step ok s as t`: the labels `as` lead from `s` to `t`, and every step
  was taken from a state where its label met `ok`; with `ok` always true these
  are all the runs of the system.
* `Run.invariant`: what one step preserves, a whole run preserves.
* `Run.simulates`: what one step matches in a second system over the same
  labels, a whole run matches; with `Run.simulates_stuttering` the labels may
  differ and a step may be matched by none, but the order stays.
* `traced`, `Run.simulates_traced`: systems that return something at every step,
  and that a simulation which matches what is returned matches all of it; in
  `Run.simulates_counted` the relation depends on the number of steps.
* `exec`, `run_of_exec`, `run_of_exec_guarded`: the executable form, for
  concrete runs.
-/

namespace CLibrary

variable {σ τ α : Type*}

/-- The runs from `s`: the labels taken, in order, and the state they end in.
Every step is enabled and its label meets `ok` where it is taken. -/
inductive Run (step : σ → α → Option σ) (ok : σ → α → Prop) (s : σ) : List α → σ → Prop
  | nil : Run step ok s [] s
  | snoc {as : List α} {t u : σ} {a : α} :
      Run step ok s as t → ok t a → step t a = some u → Run step ok s (as ++ [a]) u

namespace Run

variable {step : σ → α → Option σ} {ok : σ → α → Prop} {s t u : σ} {as bs : List α} {a : α}

/-- Runs compose. -/
lemma append (h : Run step ok s as t) (h' : Run step ok t bs u) : Run step ok s (as ++ bs) u := by
  induction h' with
  | nil => simpa using h
  | snoc _ ha hs ih =>
      rw [← List.append_assoc]
      exact ih.snoc ha hs

/-- A run of one step. -/
lemma single (ha : ok s a) (hs : step s a = some t) : Run step ok s [a] t := Run.nil.snoc ha hs

/-- The last step of a run. -/
lemma last (h : Run step ok s (as ++ [a]) u) :
    ∃ t, Run step ok s as t ∧ ok t a ∧ step t a = some u := by
  generalize hbs : as ++ [a] = bs at h
  cases h with
  | nil => simp at hbs
  | snoc hr ha hs =>
      obtain ⟨rfl, rfl⟩ := List.append_inj' hbs rfl |>.imp id List.singleton_inj.mp
      exact ⟨_, hr, ha, hs⟩

/-- The labels determine the state. -/
lemma unique {ok' : σ → α → Prop} (h : Run step ok s as t) (h' : Run step ok' s as u) : t = u := by
  induction h generalizing u with
  | nil =>
      generalize hbs : [] = bs at h'
      cases h' with
      | nil => rfl
      | snoc _ _ _ => simp at hbs
  | snoc _ _ hs ih =>
      obtain ⟨t', hr', -, hs'⟩ := h'.last
      rw [ih hr', hs'] at hs
      exact (Option.some.inj hs).symm

/-- A guarded run is a run. -/
lemma unguarded (h : Run step ok s as t) : Run step (fun _ _ => True) s as t := by
  induction h with
  | nil => exact .nil
  | snoc _ _ hs ih => exact ih.snoc trivial hs

/-- **The invariant rule**: a predicate of the labels taken so far and the
state, true at the start and kept by every step the guard admits, holds at the
end of every run. -/
theorem invariant {I : List α → σ → Prop} (h : Run step ok s as t) (h0 : I [] s)
    (hstep : ∀ as t a u, I as t → ok t a → step t a = some u → I (as ++ [a]) u) : I as t := by
  induction h with
  | nil => exact h0
  | snoc _ ha hs ih => exact hstep _ _ _ _ ih ha hs

/-- **Forward simulation**: if every step out of related states is matched by a
step of the second system under the same label, every run is. -/
theorem simulates {step' : τ → α → Option τ} {R : σ → τ → Prop} {s' : τ}
    (h : Run step ok s as t) (h0 : R s s')
    (hstep : ∀ t t' a u, R t t' → ok t a → step t a = some u →
      ∃ u', step' t' a = some u' ∧ R u u') :
    ∃ t', Run step' (fun _ _ => True) s' as t' ∧ R t t' := by
  induction h with
  | nil => exact ⟨s', .nil, h0⟩
  | snoc _ ha hs ih =>
      obtain ⟨t', hr, hR⟩ := ih
      obtain ⟨u', hu, hR'⟩ := hstep _ _ _ _ hR ha hs
      exact ⟨u', hr.snoc trivial hu, hR'⟩

/-- **Forward simulation with stuttering**: if every step out of related states
leads to a state still related, or is matched by one step of the second system
whose label matches and meets the condition there, every run is matched by a run
whose labels match those of some of its steps, in their order. -/
theorem simulates_stuttering {β : Type*} {step' : τ → β → Option τ} {ok' : τ → β → Prop}
    {R : σ → τ → Prop} {L : β → α → Prop} {s' : τ} (h : Run step ok s as t) (h0 : R s s')
    (hstep : ∀ t t' a u, R t t' → ok t a → step t a = some u →
      R u t' ∨ ∃ b u', L b a ∧ ok' t' b ∧ step' t' b = some u' ∧ R u u') :
    ∃ bs t', Run step' ok' s' bs t' ∧ List.SublistForall₂ L bs as ∧ R t t' := by
  induction h with
  | nil => exact ⟨[], s', .nil, .nil, h0⟩
  | snoc _ ha hs ih =>
      obtain ⟨bs, t', hr, hbs, hR⟩ := ih
      obtain ⟨cs, hcs, hsub⟩ := List.sublistForall₂_iff.mp hbs
      rcases hstep _ _ _ _ hR ha hs with hR' | ⟨b, u', hb, hok, hu, hR'⟩
      · refine ⟨bs, t', hr, List.sublistForall₂_iff.mpr ⟨cs, hcs, ?_⟩, hR'⟩
        exact hsub.trans (List.sublist_append_left _ _)
      · refine ⟨bs ++ [b], u', hr.snoc hok hu, List.sublistForall₂_iff.mpr ?_, hR'⟩
        exact ⟨_, List.rel_append hcs (.cons hb .nil), hsub.append_right _⟩

/-- **Forward simulation in both directions**: if related states enable the same
labels and stay related, the runs of the two systems have the same labels. -/
theorem bisimulates {step' : τ → α → Option τ} {R : σ → τ → Prop} {s' : τ}
    (h : Run step ok s as t) (h0 : R s s')
    (hstep : ∀ t t' a, R t t' → Option.Rel R (step t a) (step' t' a)) :
    ∃ t', Run step' (fun _ _ => True) s' as t' ∧ R t t' := by
  refine h.simulates h0 fun t t' a u hR _ hs => ?_
  have hrel := hstep t t' a hR
  rw [hs] at hrel
  cases hs' : step' t' a with
  | none => rw [hs'] at hrel; cases hrel
  | some u' =>
      rw [hs'] at hrel
      cases hrel with
      | some hu => exact ⟨u', rfl, hu⟩

end Run

/-! ### Returned values -/

/-- A system that returns something at every step, with what it has returned. -/
def traced {ρ : Type*} (step : σ → α → Option (ρ × σ)) (s : σ × List ρ) (a : α) :
    Option (σ × List ρ) :=
  (step s.1 a).map fun r => (r.2, s.2 ++ [r.1])

/-- **Forward simulation of what is returned**, where the relation may depend on the
number of steps taken: if every step out of related states is matched by one that
returns the same, every run is. -/
theorem Run.simulates_counted {ρ : Type*} {step : σ → α → Option (ρ × σ)}
    {step' : τ → α → Option (ρ × τ)} {ok : σ → α → Prop} {R : ℕ → σ → τ → Prop} {s : σ} {s' : τ}
    {as : List α} {t : σ × List ρ} {N : ℕ}
    (h : Run (traced step) (fun s a => ok s.1 a) (s, []) as t) (hN : as.length ≤ N) (h0 : R 0 s s')
    (hstep : ∀ n t t' a r u, n < N → R n t t' → ok t a → step t a = some (r, u) →
      ∃ u', step' t' a = some (r, u') ∧ R (n + 1) u u') :
    ∃ t', Run (traced step') (fun _ _ => True) (s', []) as (t', t.2) ∧ R as.length t.1 t' := by
  suffices hmatch : as.length ≤ N →
      ∃ t', Run (traced step') (fun _ _ => True) (s', []) as (t', t.2) ∧ R as.length t.1 t' from
    hmatch hN
  refine h.invariant (I := fun as t => as.length ≤ N → ∃ t', Run (traced step') (fun _ _ => True)
    (s', []) as (t', t.2) ∧ R as.length t.1 t') (fun _ => ⟨s', .nil, h0⟩) ?_
  rintro as ⟨t, rs⟩ a u ih hok hs hlen
  rw [List.length_append, List.length_singleton] at hlen ⊢
  obtain ⟨t', hrun, hR⟩ := ih (Nat.le_of_succ_le hlen)
  obtain ⟨⟨r, v⟩, hv, rfl⟩ := Option.map_eq_some_iff.mp hs
  obtain ⟨u', hu', hR'⟩ := hstep as.length t t' a r v hlen hR hok hv
  exact ⟨u', hrun.snoc trivial (by rw [traced, hu', Option.map_some]), hR'⟩

/-- The state after a list of labels, if every one of them is enabled. -/
def exec (step : σ → α → Option σ) : σ → List α → Option σ
  | s, [] => some s
  | s, a :: as =>
      match step s a with
      | some t => exec step t as
      | none => none

/-- What `exec` reaches is the end of a run. -/
lemma run_of_exec {step : σ → α → Option σ} {as : List α} :
    ∀ {s t : σ}, exec step s as = some t → Run step (fun _ _ => True) s as t := by
  induction as with
  | nil =>
      intro s t h
      obtain rfl : s = t := by simpa [exec] using h
      exact .nil
  | cons a as ih =>
      intro s t h
      rw [exec] at h
      cases hs : step s a with
      | none => simp [hs] at h
      | some u =>
          rw [hs] at h
          have h1 : Run step (fun _ _ => True) s ([] ++ [a]) u := Run.nil.snoc trivial hs
          simpa using h1.append (ih h)

/-- What `exec` reaches through a decidable guard is the end of a guarded run. -/
lemma run_of_exec_guarded {step : σ → α → Option σ} {ok : σ → α → Prop}
    [∀ s a, Decidable (ok s a)] {s t : σ} {as : List α}
    (h : exec (fun s a => if ok s a then step s a else none) s as = some t) :
    Run step ok s as t := by
  refine (run_of_exec h).invariant (I := fun as t => Run step ok s as t) .nil ?_
  intro as t a u hr _ hs
  split_ifs at hs with ha
  exact hr.snoc ha hs

end CLibrary
