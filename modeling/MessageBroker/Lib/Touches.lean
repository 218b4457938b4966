import Mathlib.Order.Defs.Unbundled
import MessageBroker.Lib.Program

namespace Faulty

section Touches

variable {μ ν σ τ ε δ α β : Type} {may : σ → σ → Prop}

/-- Whatever its memory, its disk and the faults are, the program takes the disk only where `may`
    lets it, whichever exit it leaves through. -/
def Touches (may : σ → σ → Prop) (p : Program μ σ ε α) : Prop :=
  ∀ world, may world.disk (p world).2.disk

/-- A specification, with what the program may touch added at each exit. -/
theorem Touches.meets {allowed : Fault → Prop} {p : Program μ σ ε α} {m : μ} {d : σ}
    {post : Post μ σ ε α} (touches : Touches may p) (meets : Meets allowed p m d post) :
    Meets allowed p m d
      ⟨fun value m' d' => post.returns value m' d' ∧ may d d',
        fun reason m' d' => post.fails reason m' d' ∧ may d d',
       fun d' => post.dies d' ∧ may d d'⟩ := by
  intro faults permitted
  have after := touches ⟨m, d, faults⟩
  have holds := meets faults permitted
  rcases ran : p ⟨m, d, faults⟩ with ⟨exit, world⟩
  rw [ran] at after holds
  cases exit with
  | ok value => exact ⟨⟨holds.1, after⟩, holds.2⟩
  | error reason => exact ⟨⟨holds.1, after⟩, holds.2⟩
  | died => exact ⟨holds, after⟩

theorem Touches.mapError {wrap : ε → δ} {p : Program μ σ ε α} (touches : Touches may p) :
    Touches may (Program.mapError wrap p) := by
  intro world
  have after := touches world
  unfold Program.mapError
  rcases ran : p world with ⟨_ | _ | _, between⟩ <;> rw [ran] at after <;> exact after

theorem Touches.focus {view : μ → ν} {update : μ → ν → μ} {part : σ → τ} {replace : σ → τ → σ}
    {inner : τ → τ → Prop} {p : Program ν τ ε α} (touches : Touches inner p)
    (lifts : ∀ d t, inner (part d) t → may d (replace d t)) :
    Touches may (Program.focus view update part replace p) := by
  intro world
  exact lifts world.disk _ (touches ⟨view world.memory, part world.disk, world.faults⟩)

section Preorder

variable [IsPreorder σ may]

theorem Touches.pure (value : α) : Touches may (Pure.pure value : Program μ σ ε α) :=
  fun world => refl_of may world.disk

theorem Touches.throw (reason : ε) : Touches may (Program.throw reason : Program μ σ ε α) :=
  fun world => refl_of may world.disk

theorem Touches.die : Touches may (Program.die : Program μ σ ε α) :=
  fun world => refl_of may world.disk

theorem Touches.memory : Touches may (Program.memory : Program μ σ ε μ) :=
  fun world => refl_of may world.disk

theorem Touches.modify (change : μ → μ) :
    Touches may (Program.modify change : Program μ σ ε Unit) :=
  fun world => refl_of may world.disk

theorem Touches.bind {p : Program μ σ ε α} {next : α → Program μ σ ε β} (first : Touches may p)
    (later : ∀ value, Touches may (next value)) : Touches may (p >>= next) := by
  intro world
  show may world.disk (Program.bind p next world).2.disk
  have before := first world
  unfold Program.bind
  rcases ran : p world with ⟨_ | _ | _, between⟩ <;> rw [ran] at before
  · exact trans_of may before (later _ between)
  · exact before
  · exact before

omit [IsPreorder σ may] in
theorem Touches.attempt {p : Program μ σ ε α} (touches : Touches may p) :
    Touches may (Program.attempt p) := by
  intro world
  have after := touches world
  unfold Program.attempt
  rcases ran : p world with ⟨_ | _ | _, between⟩ <;> rw [ran] at after <;> exact after

theorem Touches.ignore {p : Program μ σ ε α} (touches : Touches may p) :
    Touches may (Program.ignore p) :=
  touches.attempt.bind fun _ => Touches.pure ()

theorem Touches.onError {p : Program μ σ ε α} {cleanup : Program μ σ ε Unit}
    (touches : Touches may p) (cleans : Touches may cleanup) :
    Touches may (Program.onError p cleanup) := by
  refine touches.attempt.bind fun result => ?_
  cases result with
  | ok value => exact Touches.pure value
  | error reason => exact cleans.ignore.bind fun _ => Touches.throw reason

omit [IsPreorder σ may] in
theorem Touches.operate {action : σ → Except ε α × σ} {failed cut : Nat → σ → σ} {failure : ε}
    (passes : ∀ d, may d (action d).2) (fails : ∀ written d, may d (failed written d))
    (dies : ∀ written d, may d (cut written d)) :
    Touches may (Program.operate action failed cut failure : Program μ σ ε α) := by
  intro world
  have passed := passes world.disk
  unfold Program.operate
  dsimp only
  rcases acted : action world.disk with ⟨_ | _, after⟩ <;> rw [acted] at passed <;> split
  all_goals first
    | exact passed
    | exact fails _ _
    | exact dies _ _

end Preorder

/-- When the program returns, the disk is as `holds` says. -/
def Leaves (holds : σ → Prop) (p : Program μ σ ε α) : Prop :=
  ∀ world value after, p world = (.ok value, after) → holds after.disk

theorem Leaves.bind {holds : σ → Prop} {p : Program μ σ ε α} {next : α → Program μ σ ε β}
    (first : Leaves holds p)
    (later : ∀ value, Touches (fun d d' => holds d → holds d') (next value)) :
    Leaves holds (p >>= next) := by
  intro world value after ran
  change Program.bind p next world = (.ok value, after) at ran
  unfold Program.bind at ran
  rcases started : p world with ⟨given | _ | _, between⟩ <;> rw [started] at ran
  · have kept := later given between (first world given between started)
    rwa [show next given between = (.ok value, after) from ran] at kept
  · cases ran
  · cases ran

theorem Leaves.meets {allowed : Fault → Prop} {holds : σ → Prop} {p : Program μ σ ε α} {m : μ}
    {d : σ} {post : Post μ σ ε α} (leaves : Leaves holds p) (meets : Meets allowed p m d post) :
    Meets allowed p m d ⟨fun value m' d' => post.returns value m' d' ∧ holds d', post.fails,
      post.dies⟩ := by
  intro faults permitted
  have exits := meets faults permitted
  rcases ran : p ⟨m, d, faults⟩ with ⟨exit, world⟩
  rw [ran] at exits
  cases exit with
  | ok value => exact ⟨⟨exits.1, leaves _ value world ran⟩, exits.2⟩
  | error reason => exact exits
  | died => exact exits

end Touches

end Faulty
