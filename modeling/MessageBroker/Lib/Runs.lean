import Mathlib.Data.List.Basic

namespace Runs

structure Event (σ ι ο : Type) where
  before : σ
  input : ι
  outcome : ο
  after : σ

variable {σ ι ο : Type}

def happen (perform : σ → ι → ο × σ) (s : σ) (input : ι) : Event σ ι ο :=
  ⟨s, input, (perform s input).1, (perform s input).2⟩

/-- Runs from `start`: what has happened, oldest first, and the state reached. `admits` says which
    inputs may come next. -/
inductive Run (perform : σ → ι → ο × σ) (admits : List (Event σ ι ο) → σ → ι → Prop) (start : σ) :
    List (Event σ ι ο) → σ → Prop where
  | start : Run perform admits start [] start
  | step {past : List (Event σ ι ο)} {s : σ} {input : ι} :
      Run perform admits start past s → admits past s input →
      Run perform admits start (past ++ [happen perform s input]) (perform s input).2

def execute (perform : σ → ι → ο × σ) : List (Event σ ι ο) → σ → List ι → List (Event σ ι ο) × σ
  | past, s, [] => (past, s)
  | past, s, input :: rest =>
    execute perform (past ++ [happen perform s input]) (perform s input).2 rest

def Admitted (perform : σ → ι → ο × σ) (admits : List (Event σ ι ο) → σ → ι → Prop) :
    List (Event σ ι ο) → σ → List ι → Prop
  | _, _, [] => True
  | past, s, input :: rest =>
    admits past s input ∧
      Admitted perform admits (past ++ [happen perform s input]) (perform s input).2 rest

instance Admitted.decidable (perform : σ → ι → ο × σ) (admits : List (Event σ ι ο) → σ → ι → Prop)
    [∀ past s input, Decidable (admits past s input)] :
    ∀ (past : List (Event σ ι ο)) (s : σ) (inputs : List ι),
      Decidable (Admitted perform admits past s inputs)
  | _, _, [] => isTrue trivial
  | past, s, input :: rest =>
    have := Admitted.decidable perform admits (past ++ [happen perform s input])
      (perform s input).2 rest
    inferInstanceAs (Decidable (_ ∧ _))

variable {perform : σ → ι → ο × σ} {admits : List (Event σ ι ο) → σ → ι → Prop} {start s : σ}
  {past : List (Event σ ι ο)}

/-- What holds at the start and is kept by every admitted step holds all along. -/
theorem Run.invariant {holds : List (Event σ ι ο) → σ → Prop}
    (run : Run perform admits start past s) (first : holds [] start)
    (next : ∀ past s input, holds past s → admits past s input →
      holds (past ++ [happen perform s input]) (perform s input).2) : holds past s := by
  induction run with
  | start => exact first
  | step _ admitted ih => exact next _ _ _ ih admitted

theorem Run.mono {weaker : List (Event σ ι ο) → σ → ι → Prop}
    (run : Run perform admits start past s)
    (implies : ∀ past s input, admits past s input → weaker past s input) :
    Run perform weaker start past s := by
  induction run with
  | start => exact .start
  | step _ admitted ih => exact .step ih (implies _ _ _ admitted)

theorem Run.next {input : ι} {outcome : ο} {after : σ} (run : Run perform admits start past s)
    (admitted : admits past s input) (ran : perform s input = (outcome, after)) :
    Run perform admits start (past ++ [⟨s, input, outcome, after⟩]) after := by
  have step := Run.step run admitted
  rwa [happen, ran] at step

theorem run_execute {inputs : List ι} (run : Run perform admits start past s)
    (admitted : Admitted perform admits past s inputs) :
    Run perform admits start (execute perform past s inputs).1
      (execute perform past s inputs).2 := by
  induction inputs generalizing past s with
  | nil => exact run
  | cons input rest ih => exact ih (.step run admitted.1) admitted.2

end Runs
