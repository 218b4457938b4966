import MessageBroker.Lib.Program

namespace Faulty

section Reports

variable {μ σ ε α β : Type} {may : ε → Prop}

/-- Whatever its memory, its disk and the faults are, the program reports no error outside `may`. -/
def Reports (may : ε → Prop) (p : Program μ σ ε α) : Prop :=
  ∀ world reason after, p world = (.error reason, after) → may reason

theorem Reports.pure (value : α) : Reports may (Pure.pure value : Program μ σ ε α) := by
  intro world reason after ran
  cases ran

theorem Reports.throw {reason : ε} (holds : may reason) :
    Reports may (Program.throw reason : Program μ σ ε α) := by
  intro world reason' after ran
  cases ran
  exact holds

theorem Reports.memory : Reports may (Program.memory : Program μ σ ε μ) := by
  intro world reason after ran
  cases ran

theorem Reports.modify (change : μ → μ) :
    Reports may (Program.modify change : Program μ σ ε Unit) := by
  intro world reason after ran
  cases ran

theorem Reports.bind {p : Program μ σ ε α} {next : α → Program μ σ ε β} (first : Reports may p)
    (later : ∀ value, Reports may (next value)) : Reports may (p >>= next) := by
  intro world reason after ran
  replace ran : Program.bind p next world = (.error reason, after) := ran
  unfold Program.bind at ran
  rcases step : p world with ⟨_ | _ | _, between⟩ <;> rw [step] at ran
  · exact later _ _ _ _ ran
  · cases ran
    exact first _ _ _ step
  · cases ran

theorem Reports.attempt (p : Program μ σ ε α) : Reports may (Program.attempt p) := by
  intro world reason after ran
  unfold Program.attempt at ran
  rcases step : p world with ⟨_ | _ | _, between⟩ <;> rw [step] at ran <;> cases ran

theorem Reports.onError {p : Program μ σ ε α} {cleanup : Program μ σ ε Unit}
    (holds : Reports may p) :
    Reports may (Program.onError p cleanup) := by
  intro world reason after ran
  replace ran : Program.bind (Program.attempt p) _ world = (.error reason, after) := ran
  unfold Program.bind Program.attempt at ran
  rcases step : p world with ⟨_ | failure | _, between⟩ <;> rw [step] at ran
  · cases ran
  · -- behind the cleanup, which may die, the failure of `p` is reported
    have given := holds _ _ _ step
    have quiet : Reports may
        (Program.ignore cleanup >>= fun _ => Program.throw failure : Program μ σ ε α) :=
      ((Reports.attempt cleanup).bind fun _ => Reports.pure _).bind fun _ => Reports.throw given
    exact quiet _ _ _ ran
  · cases ran

theorem Reports.operate {action : σ → Except ε α × σ} {failed cut : Nat → σ → σ} {failure : ε}
    (passes : ∀ d reason d', action d = (.error reason, d') → may reason) (fails : may failure) :
    Reports may (Program.operate action failed cut failure : Program μ σ ε α) := by
  intro world reason after ran
  unfold Program.operate at ran
  dsimp only at ran
  rcases acted : action world.disk with ⟨_ | value, d'⟩ <;> rw [acted] at ran <;> split at ran <;>
    cases ran
  all_goals first
    | exact passes _ _ _ acted
    | exact fails

end Reports

end Faulty
