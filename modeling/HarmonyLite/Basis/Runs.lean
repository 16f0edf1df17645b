import Mathlib.Data.List.Basic

/-! Runs of a total step function over a list of inputs.
An input that is not enabled in a state is a step that leaves the state alone.
-/

namespace Runs

variable {σ ι : Type*} (step : σ → ι → σ)

/-- The state reached from `start` by the given inputs. -/
abbrev run (start : σ) (inputs : List ι) : σ := inputs.foldl step start

/-- Every step of the run meets `guard` in the state it is taken from. -/
def Along (guard : σ → ι → Prop) : σ → List ι → Prop
  | _, [] => True
  | start, input :: rest => guard start input ∧ Along guard (step start input) rest

variable {step} {guard other : σ → ι → Prop} {start : σ}

instance Along.decidable [∀ state input, Decidable (guard state input)] (start : σ)
    : (inputs : List ι) → Decidable (Along step guard start inputs)
  | [] => isTrue trivial
  | input :: rest =>
      @instDecidableAnd _ _ inferInstance (Along.decidable (step start input) rest)

theorem run_cons (start : σ) (input : ι) (rest : List ι)
    : run step start (input :: rest) = run step (step start input) rest :=
  rfl

/-- A run continues from what its first part reaches. -/
theorem run_append (start : σ) (first second : List ι)
    : run step start (first ++ second) = run step (run step start first) second :=
  List.foldl_append

/-- The last input of a run is a step from what the others reach. -/
theorem run_concat (start : σ) (before : List ι) (input : ι)
    : run step start (before ++ [input]) = step (run step start before) input := by
  simp only [run, List.foldl_append, List.foldl_cons, List.foldl_nil]

/-- A guard met along a run is met in every state the run passes through, by induction on
the inputs before it.
-/
theorem along_iff_forall_split {inputs : List ι}
    : Along step guard start inputs
      ↔ ∀ before input after,
          inputs = before ++ input :: after → guard (run step start before) input := by
  induction inputs generalizing start with
  | nil => simp [Along]
  | cons head rest ih =>
      simp only [Along, ih]
      constructor
      · intro met before input after split
        obtain ⟨first, later⟩ := met
        cases before with
        | nil =>
            obtain ⟨rfl, rfl⟩ := List.cons.inj split
            exact first
        | cons earlier before =>
            obtain ⟨rfl, rfl⟩ := List.cons.inj split
            exact later before input after rfl
      · intro all
        refine ⟨all [] head rest rfl, ?_⟩
        intro before input after split
        subst split
        exact all (head :: before) input after rfl

/-- Guards met along a longer run are met along its first part. -/
theorem Along.of_append {first second : List ι}
    (met : Along step guard start (first ++ second))
    : Along step guard start first := by
  rw [along_iff_forall_split] at met ⊢
  intro before input after split
  subst split
  exact met before input (after ++ second) (by simp)

/-- Guards met along a longer run are met along the rest of it. -/
theorem Along.after {first second : List ι}
    (met : Along step guard start (first ++ second))
    : Along step guard (run step start first) second := by
  rw [along_iff_forall_split] at met ⊢
  intro before input after split
  subst split
  have here := met (first ++ before) input after (by simp)
  rwa [run_append] at here

theorem along_concat {before : List ι} {input : ι}
    : Along step guard start (before ++ [input])
      ↔ Along step guard start before ∧ guard (run step start before) input := by
  induction before generalizing start with
  | nil => simp [Along]
  | cons head rest ih => simp only [List.cons_append, Along, ih, and_assoc, run, List.foldl_cons]

theorem Along.and {inputs : List ι} (met : Along step guard start inputs)
    (also : Along step other start inputs)
    : Along step (fun state input => guard state input ∧ other state input) start inputs := by
  rw [along_iff_forall_split] at met also ⊢
  intro before input after split
  exact ⟨met before input after split, also before input after split⟩

theorem Along.mono {inputs : List ι} (met : Along step guard start inputs)
    (weaker : ∀ state input, guard state input → other state input)
    : Along step other start inputs := by
  induction inputs generalizing start with
  | nil => exact trivial
  | cons input rest ih => exact ⟨weaker start input met.1, ih met.2⟩

/-- Along a run each input is one of its inputs. -/
theorem Along.and_mem {inputs : List ι} (met : Along step guard start inputs)
    : Along step (fun state input => guard state input ∧ input ∈ inputs) start inputs := by
  rw [along_iff_forall_split] at met ⊢
  intro before input after split
  exact ⟨met before input after split, by simp [split]⟩

/-- What every step preserves holds in every state reached. -/
theorem run_invariant (inv : σ → Prop)
    (preserved : ∀ state input, inv state → inv (step state input))
    (initial : inv start) (inputs : List ι)
    : inv (run step start inputs) := by
  induction inputs generalizing start with
  | nil => exact initial
  | cons input rest ih => exact ih (preserved start input initial)

/-- What every step that meets the guard preserves holds in every state reached by such
steps, by induction on the run.
-/
theorem Along.invariant {inv : σ → Prop} {inputs : List ι}
    (met : Along step guard start inputs)
    (preserved : ∀ state input, inv state → guard state input → inv (step state input))
    (initial : inv start)
    : inv (run step start inputs) := by
  induction inputs generalizing start with
  | nil => exact initial
  | cons input rest ih => exact ih met.2 (preserved start input initial met.1)

theorem along_true (inputs : List ι) : Along step (fun _ _ => True) start inputs := by
  induction inputs generalizing start with
  | nil => exact trivial
  | cons input rest ih => exact ⟨trivial, ih⟩

/-- Along a run that meets `other`, what an invariant of the guarded steps implies holds in
every state exactly when the run is guarded, provided each unguarded step breaks it at once.
-/
theorem Along.forall_prefix_iff {holds inv : σ → Prop} {inputs : List ι}
    (assumed : Along step other start inputs) (initial : inv start)
    (implied : ∀ state, inv state → holds state)
    (preserved : ∀ state input, inv state → other state input → guard state input
      → inv (step state input))
    (needed : ∀ state input, inv state → other state input → holds (step state input)
      → guard state input)
    : (∀ seen, seen <+: inputs → holds (run step start seen))
      ↔ Along step guard start inputs := by
  constructor
  · intro always
    induction inputs generalizing start with
    | nil => exact trivial
    | cons input rest ih =>
        obtain ⟨first, later⟩ := assumed
        have met : guard start input :=
          needed start input initial first (always [input] ⟨rest, rfl⟩)
        refine ⟨met, ih later (preserved start input initial first met) ?_⟩
        intro seen part
        obtain ⟨unseen, rfl⟩ := part
        exact always (input :: seen) ⟨unseen, rfl⟩
  · intro met seen part
    obtain ⟨rest, rfl⟩ := part
    have both := assumed.of_append.and met.of_append
    exact implied _ (both.invariant
      (fun state input kept meets => preserved state input kept meets.1 meets.2) initial)

theorem forall_prefix_iff_along {holds inv : σ → Prop} {inputs : List ι}
    (initial : inv start) (implied : ∀ state, inv state → holds state)
    (preserved : ∀ state input, inv state → guard state input → inv (step state input))
    (needed : ∀ state input, inv state → holds (step state input) → guard state input)
    : (∀ seen, seen <+: inputs → holds (run step start seen))
      ↔ Along step guard start inputs :=
  (along_true inputs).forall_prefix_iff initial implied
    (fun state input kept _ => preserved state input kept)
    (fun state input kept _ => needed state input kept)

/-- The same for what means, under an invariant of all steps, that something is kept, where
exactly the guarded steps keep it.
-/
theorem forall_prefix_iff_along_of_kept {holds inv kept : σ → Prop} {inputs : List ι}
    (initial : inv start ∧ kept start)
    (preserved : ∀ state input, inv state → inv (step state input))
    (means : ∀ state, inv state → (holds state ↔ kept state))
    (keeps : ∀ state input, inv state → kept state
      → (kept (step state input) ↔ guard state input))
    : (∀ seen, seen <+: inputs → holds (run step start seen))
      ↔ Along step guard start inputs := by
  have guarded (state : σ) (input : ι) (both : inv state ∧ kept state)
      (met : guard state input)
      : inv (step state input) ∧ kept (step state input) :=
    ⟨preserved state input both.1, (keeps state input both.1 both.2).mpr met⟩
  refine forall_prefix_iff_along initial ?_ guarded ?_
  · intro state both
    exact (means state both.1).mpr both.2
  · intro state input both next
    have still := (means _ (preserved state input both.1)).mp next
    exact (keeps state input both.1 both.2).mp still

/-- The first parts of a run, by what follows them. -/
theorem forall_split_iff_prefix {property : List ι → Prop} {inputs : List ι}
    : (∀ before after, inputs = before ++ after → property before)
      ↔ ∀ seen, seen <+: inputs → property seen := by
  constructor
  · intro all seen part
    obtain ⟨rest, whole⟩ := part
    exact all seen rest whole.symm
  · intro all before after split
    exact all before ⟨after, split.symm⟩

/-- Two guards that agree wherever an invariant holds are met along the same runs. -/
theorem along_congr (inv : σ → Prop) {inputs : List ι}
    (agree : ∀ state input, inv state → (guard state input ↔ other state input))
    (preserved : ∀ state input, inv state → inv (step state input)) (initial : inv start)
    : Along step guard start inputs ↔ Along step other start inputs := by
  induction inputs generalizing start with
  | nil => exact Iff.rfl
  | cons input rest ih =>
      exact and_congr (agree start input initial) (ih (preserved start input initial))

end Runs
