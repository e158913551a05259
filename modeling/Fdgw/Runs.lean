import Mathlib.Tactic.TypeStar

/-! Finite runs of a partial step function driven by a list of events. A step
that the system cannot take yields `none`, and a run is a sequence of steps
that all succeed. Safety results are stated over `run`; a condition that every
step of a run has to meet is `Guarded`, so an invariant that only survives
good steps is still an induction over the whole run. -/
namespace Fdgw.Runs

variable {σ ε : Type*} {step : σ → ε → Option σ} {s t u : σ} {e : ε} {es fs : List ε}

/-- Take the steps of `events` in order, or fail at the first impossible one. -/
def run (step : σ → ε → Option σ) : σ → List ε → Option σ
  | s, [] => some s
  | s, e :: es => (step s e).bind fun t => run step t es

theorem run_cons : run step s (e :: es) = some u ↔ ∃ t, step s e = some t ∧ run step t es = some u := by
  simp [run, Option.bind_eq_some_iff]

/-- What holds at the end of a run that succeeds holds somewhere. -/
theorem exists_run {goal : σ → Prop} (succeeds : (run step s es).isSome)
    (holds : ∀ u, run step s es = some u → goal u) : ∃ u, run step s es = some u ∧ goal u := by
  obtain ⟨u, ran⟩ := Option.isSome_iff_exists.mp succeeds
  exact ⟨u, ran, holds u ran⟩

theorem run_append (first : run step s es = some t) (second : run step t fs = some u) :
    run step s (es ++ fs) = some u := by
  induction es generalizing s with
  | nil =>
    cases first
    exact second
  | cons e es ih =>
    obtain ⟨v, taken, rest⟩ := run_cons.mp first
    exact run_cons.mpr ⟨v, taken, ih rest⟩

/-- Every step taken from `s` along `events` meets `allowed`, a condition on the
event and the state before it. -/
def Guarded (step : σ → ε → Option σ) (allowed : σ → ε → Prop) : σ → List ε → Prop
  | _, [] => True
  | s, e :: es => allowed s e ∧ ∀ t, step s e = some t → Guarded step allowed t es

theorem guarded_append {allowed : σ → ε → Prop} (good : Guarded step allowed s (es ++ fs))
    (ran : run step s es = some t) : Guarded step allowed s es ∧ Guarded step allowed t fs := by
  induction es generalizing s with
  | nil =>
    cases ran
    exact ⟨trivial, good⟩
  | cons e es ih =>
    obtain ⟨u, first, rest⟩ := run_cons.mp ran
    obtain ⟨early, late⟩ := ih (good.2 u first) rest
    refine ⟨⟨good.1, ?_⟩, late⟩
    intro v taken
    rw [first] at taken
    cases taken
    exact early

/-- The induction behind every conditional safety result: a property that each
allowed step keeps holds at the end of every run of allowed steps. -/
theorem guarded_invariant {allowed : σ → ε → Prop} {inv : σ → Prop}
    (keep : ∀ s e t, inv s → allowed s e → step s e = some t → inv t)
    (start : inv s) (good : Guarded step allowed s es) (ran : run step s es = some u) : inv u := by
  induction es generalizing s with
  | nil =>
    cases ran
    exact start
  | cons e es ih =>
    obtain ⟨t, first, rest⟩ := run_cons.mp ran
    exact ih (keep s e t start good.1 first) (good.2 t first) rest

/-- A property kept by every step holds at the end of every run. -/
theorem run_invariant {inv : σ → Prop} (keep : ∀ s e t, inv s → step s e = some t → inv t)
    (start : inv s) (ran : run step s es = some u) : inv u := by
  induction es generalizing s with
  | nil =>
    cases ran
    exact start
  | cons e es ih =>
    obtain ⟨t, first, rest⟩ := run_cons.mp ran
    exact ih (keep s e t start first) rest

/-- When a good property survives the allowed steps and any other step loses it
for good, the end of a run tells whether all its steps were allowed. `valid`
restricts the events of the run. -/
theorem guarded_decides {valid : ε → Prop} {allowed : σ → ε → Prop} {good bad : σ → Prop}
    (keep : ∀ s e t, valid e → good s → allowed s e → step s e = some t → good t)
    (spoil : ∀ s e t, valid e → good s → ¬allowed s e → step s e = some t → bad t)
    (stay : ∀ s e t, valid e → bad s → step s e = some t → bad t)
    (events : ∀ e ∈ es, valid e) (start : good s) (ran : run step s es = some u) :
    (Guarded step allowed s es ∧ good u) ∨ (¬Guarded step allowed s es ∧ bad u) := by
  have lost : ∀ {s es}, (∀ e ∈ es, valid e) → bad s → run step s es = some u → bad u := by
    intro s es events spoiled ran
    induction es generalizing s with
    | nil =>
      cases ran
      exact spoiled
    | cons e es ih =>
      obtain ⟨t, first, rest⟩ := run_cons.mp ran
      obtain ⟨here, others⟩ := List.forall_mem_cons.mp events
      exact ih others (stay s e t here spoiled first) rest
  induction es generalizing s with
  | nil =>
    cases ran
    exact Or.inl ⟨trivial, start⟩
  | cons e es ih =>
    obtain ⟨t, first, rest⟩ := run_cons.mp ran
    obtain ⟨here, others⟩ := List.forall_mem_cons.mp events
    by_cases fine : allowed s e
    · rcases ih others (keep s e t here start fine first) rest with ⟨later, kept⟩ | ⟨later, gone⟩
      · refine Or.inl ⟨⟨fine, ?_⟩, kept⟩
        intro v taken
        rw [first] at taken
        cases taken
        exact later
      · exact Or.inr ⟨fun guarded => later (guarded.2 t first), gone⟩
    · have gone := lost others (spoil s e t here start fine first) rest
      exact Or.inr ⟨fun guarded => fine guarded.1, gone⟩

/-! ## Steps that fail with a message -/

section Failing

variable {μ : Type*} {f : σ → ε → Except μ σ}

theorem foldlM_ok_cons (first : f s e = .ok t) : (e :: es).foldlM f s = es.foldlM f t := by
  rw [List.foldlM_cons, first]
  rfl

theorem foldlM_ok_append (first : es.foldlM f s = .ok t) : (es ++ fs).foldlM f s = fs.foldlM f t := by
  rw [List.foldlM_append, first]
  rfl

theorem foldlM_invariant {P : σ → Prop} (kept : ∀ {s t e}, P s → f s e = .ok t → P t) (start : P s)
    (ran : es.foldlM f s = .ok t) : P t := by
  induction es generalizing s with
  | nil =>
    cases ran
    exact start
  | cons e es ih =>
    rw [List.foldlM_cons] at ran
    cases first : f s e with
    | error message =>
      rw [first] at ran
      cases ran
    | ok u =>
      rw [first] at ran
      exact ih (kept start first) ran

end Failing

end Fdgw.Runs
