import Mathlib.Data.List.Basic

namespace Faulty

/-- What the environment does to one operation on the disk: it passes, it fails after
    `written` bytes of a write got through, or the process dies at that point. -/
inductive Fault where
  | pass
  | fail (written : Nat)
  | die (written : Nat)
  deriving DecidableEq, Repr

inductive Exit (ε α : Type) where
  | ok (value : α)
  | error (reason : ε)
  | died
  deriving DecidableEq, Repr

structure World (μ σ : Type) where
  memory : μ
  disk : σ
  faults : List Fault

/-- A program over a memory that is lost when the process dies and a disk that is not.
    Errors are ordinary values: memory changed before an error stays changed. -/
def Program (μ σ ε α : Type) := World μ σ → Exit ε α × World μ σ

namespace Program

variable {μ ν σ τ ε α β : Type}

def bind (p : Program μ σ ε α) (next : α → Program μ σ ε β) : Program μ σ ε β := fun world =>
  match p world with
  | (.ok value, after) => next value after
  | (.error reason, after) => (.error reason, after)
  | (.died, after) => (.died, after)

instance : Monad (Program μ σ ε) where
  pure value := fun world => (.ok value, world)
  bind := Program.bind

def throw (reason : ε) : Program μ σ ε α := fun world => (.error reason, world)

def die : Program μ σ ε α := fun world => (.died, world)

def memory : Program μ σ ε μ := fun world => (.ok world.memory, world)

def modify (change : μ → μ) : Program μ σ ε Unit := fun world =>
  (.ok (), { world with memory := change world.memory })

/-- Turns an error into a value, as a caller that inspects `err` does. -/
def attempt (p : Program μ σ ε α) : Program μ σ ε (Except ε α) := fun world =>
  match p world with
  | (.ok value, after) => (.ok (.ok value), after)
  | (.error reason, after) => (.ok (.error reason), after)
  | (.died, after) => (.died, after)

def ignore (p : Program μ σ ε α) : Program μ σ ε Unit := do
  let _ ← attempt p
  pure ()

/-- Runs `cleanup` when `p` fails and then reports the failure of `p`. -/
def onError (p : Program μ σ ε α) (cleanup : Program μ σ ε Unit) : Program μ σ ε α := do
  match ← attempt p with
  | .ok value => pure value
  | .error reason => do
    ignore cleanup
    throw reason

def mapError {δ : Type} (wrap : ε → δ) (p : Program μ σ ε α) : Program μ σ δ α := fun world =>
  match p world with
  | (.ok value, after) => (.ok value, after)
  | (.error reason, after) => (.error (wrap reason), after)
  | (.died, after) => (.died, after)

/-- One operation on the disk. `action` is what it does when the environment lets it pass (it may
    still report an error of its own); `failed` and `cut` are what is left of it when it fails and
    when the process dies in it. -/
def operate (action : σ → Except ε α × σ) (failed cut : Nat → σ → σ) (failure : ε) :
    Program μ σ ε α :=
  fun world =>
    let passed (faults : List Fault) : Exit ε α × World μ σ :=
      match action world.disk with
      | (.ok value, disk) => (.ok value, { world with disk := disk, faults := faults })
      | (.error reason, disk) => (.error reason, { world with disk := disk, faults := faults })
    match world.faults with
    | [] => passed []
    | .pass :: faults => passed faults
    | .fail written :: faults =>
      (.error failure, { world with disk := failed written world.disk, faults := faults })
    | .die written :: faults =>
      (.died, { world with disk := cut written world.disk, faults := faults })

/-- Runs a program on a part of the memory and a part of the disk. -/
def focus (view : μ → ν) (update : μ → ν → μ) (part : σ → τ) (replace : σ → τ → σ)
    (p : Program ν τ ε α) : Program μ σ ε α := fun world =>
  match p ⟨view world.memory, part world.disk, world.faults⟩ with
  | (exit, after) =>
    (exit, ⟨update world.memory after.memory, replace world.disk after.disk, after.faults⟩)

end Program

/-- What has to hold at each of a program's three exits. -/
structure Post (μ σ ε α : Type) where
  returns : α → μ → σ → Prop
  fails : ε → μ → σ → Prop
  dies : σ → Prop

/-- The result of a disk operation, error or not, is one the exits allow. -/
def Post.accepts {μ σ ε α : Type} (post : Post μ σ ε α) (m : μ) : Except ε α × σ → Prop
  | (.ok value, disk) => post.returns value m disk
  | (.error reason, disk) => post.fails reason m disk

/-- The disk is as `holds` says, whichever exit the program takes. -/
def Post.always {μ σ ε α : Type} (holds : σ → Prop) : Post μ σ ε α :=
  ⟨fun _ _ d => holds d, fun _ _ d => holds d, holds⟩

section Meets

variable {μ ν σ τ ε α β : Type} {allowed : Fault → Prop}

/-- Under every sequence of allowed faults the program leaves through an exit that meets `post`. -/
def Meets (allowed : Fault → Prop) (p : Program μ σ ε α) (m : μ) (d : σ) (post : Post μ σ ε α) :
    Prop :=
  ∀ faults, (∀ fault ∈ faults, allowed fault) →
    match p ⟨m, d, faults⟩ with
    | (.ok value, after) =>
      post.returns value after.memory after.disk ∧ ∀ fault ∈ after.faults, allowed fault
    | (.error reason, after) =>
      post.fails reason after.memory after.disk ∧ ∀ fault ∈ after.faults, allowed fault
    | (.died, after) => post.dies after.disk

theorem Meets.pure {m : μ} {d : σ} {post : Post μ σ ε α} {value : α}
    (holds : post.returns value m d) :
    Meets allowed (Pure.pure value) m d post :=
  fun _ permitted => ⟨holds, permitted⟩

theorem Meets.throw {m : μ} {d : σ} {post : Post μ σ ε α} {reason : ε}
    (holds : post.fails reason m d) :
    Meets allowed (Program.throw reason) m d post :=
  fun _ permitted => ⟨holds, permitted⟩

theorem Meets.die {m : μ} {d : σ} {post : Post μ σ ε α} (holds : post.dies d) :
    Meets allowed Program.die m d post :=
  fun _ _ => holds

theorem Meets.memory {m : μ} {d : σ} {post : Post μ σ ε μ} (holds : post.returns m m d) :
    Meets allowed Program.memory m d post :=
  fun _ permitted => ⟨holds, permitted⟩

theorem Meets.modify {m : μ} {d : σ} {post : Post μ σ ε Unit} {change : μ → μ}
    (holds : post.returns () (change m) d) : Meets allowed (Program.modify change) m d post :=
  fun _ permitted => ⟨holds, permitted⟩

theorem Meets.bind {m : μ} {d : σ} {post : Post μ σ ε β} {p : Program μ σ ε α}
    {next : α → Program μ σ ε β}
    (first : Meets allowed p m d
      ⟨fun value m d => Meets allowed (next value) m d post, post.fails, post.dies⟩) :
    Meets allowed (p >>= next) m d post := by
  intro faults permitted
  have holds := first faults permitted
  change match Program.bind p next ⟨m, d, faults⟩ with
    | (.ok value, after) => _
    | (.error reason, after) => _
    | (.died, after) => _
  unfold Program.bind
  split at holds
  · exact holds.1 _ holds.2
  · exact holds
  · exact holds

theorem Meets.mono {m : μ} {d : σ} {strong weak : Post μ σ ε α} {p : Program μ σ ε α}
    (meets : Meets allowed p m d strong)
    (returns : ∀ value m d, strong.returns value m d → weak.returns value m d)
    (fails : ∀ reason m d, strong.fails reason m d → weak.fails reason m d)
    (dies : ∀ d, strong.dies d → weak.dies d) : Meets allowed p m d weak := by
  intro faults permitted
  have holds := meets faults permitted
  split at holds
  · exact ⟨returns _ _ _ holds.1, holds.2⟩
  · exact ⟨fails _ _ _ holds.1, holds.2⟩
  · exact dies _ holds

theorem Meets.both {m : μ} {d : σ} {first second : Post μ σ ε α} {p : Program μ σ ε α}
    (left : Meets allowed p m d first) (right : Meets allowed p m d second) :
    Meets allowed p m d
      ⟨fun value m d => first.returns value m d ∧ second.returns value m d,
       fun reason m d => first.fails reason m d ∧ second.fails reason m d,
       fun d => first.dies d ∧ second.dies d⟩ := by
  intro faults permitted
  have one := left faults permitted
  have other := right faults permitted
  rcases ran : p ⟨m, d, faults⟩ with ⟨exit, after⟩
  rw [ran] at one other
  cases exit with
  | ok value => exact ⟨⟨one.1, other.1⟩, one.2⟩
  | error reason => exact ⟨⟨one.1, other.1⟩, one.2⟩
  | died => exact ⟨one, other⟩

/-- Where every fault is allowed, nothing can go wrong with what is left of the script. -/
theorem Meets.any (p : Program μ σ ε α) (m : μ) (d : σ) :
    Meets (fun _ => True) p m d (.always fun _ => True) := by
  intro faults _
  rcases p ⟨m, d, faults⟩ with ⟨_ | _ | _, after⟩
  · exact ⟨trivial, fun _ _ => trivial⟩
  · exact ⟨trivial, fun _ _ => trivial⟩
  · exact trivial

theorem Meets.always {holds : σ → Prop} {p : Program μ σ ε α} {m : μ} {d : σ} {faults : List Fault}
    (meets : Meets allowed p m d (.always holds)) (permitted : ∀ fault ∈ faults, allowed fault) :
    holds (p ⟨m, d, faults⟩).2.disk := by
  have exits := meets faults permitted
  rcases ran : p ⟨m, d, faults⟩ with ⟨_ | _ | _, after⟩ <;> rw [ran] at exits
  · exact exits.1
  · exact exits.1
  · exact exits

theorem Meets.attempt {m : μ} {d : σ} {post : Post μ σ ε (Except ε α)} {p : Program μ σ ε α}
    (meets : Meets allowed p m d
      ⟨fun value => post.returns (.ok value), fun reason => post.returns (.error reason),
        post.dies⟩) :
    Meets allowed (Program.attempt p) m d post := by
  intro faults permitted
  have holds := meets faults permitted
  unfold Program.attempt
  split at holds
  · exact holds
  · exact holds
  · exact holds

theorem Meets.ignore {m : μ} {d : σ} {post : Post μ σ ε Unit} {p : Program μ σ ε α}
    (meets : Meets allowed p m d
      ⟨fun _ => post.returns (), fun _ => post.returns (), post.dies⟩) :
    Meets allowed (Program.ignore p) m d post := by
  apply Meets.bind
  apply Meets.attempt
  apply meets.mono
  · intro value m d holds
    exact Meets.pure holds
  · intro reason m d holds
    exact Meets.pure holds
  · exact fun _ holds => holds

theorem Meets.onError {m : μ} {d : σ} {post : Post μ σ ε α} {p : Program μ σ ε α}
    {cleanup : Program μ σ ε Unit}
    (meets : Meets allowed p m d
      ⟨post.returns, fun reason m d => Meets allowed cleanup m d
        ⟨fun _ => post.fails reason, fun _ => post.fails reason, post.dies⟩, post.dies⟩) :
    Meets allowed (Program.onError p cleanup) m d post := by
  apply Meets.bind
  apply Meets.attempt
  apply meets.mono
  · intro value m d holds
    exact Meets.pure holds
  · intro reason m d holds
    apply Meets.bind
    apply Meets.ignore
    apply holds.mono
    · exact fun _ _ _ failed => Meets.throw failed
    · exact fun _ _ _ failed => Meets.throw failed
    · exact fun _ died => died
  · exact fun _ holds => holds

theorem Meets.mapError {δ : Type} {wrap : ε → δ} {m : μ} {d : σ} {post : Post μ σ δ α}
    {p : Program μ σ ε α}
    (meets : Meets allowed p m d ⟨post.returns, fun reason => post.fails (wrap reason),
      post.dies⟩) :
    Meets allowed (Program.mapError wrap p) m d post := by
  intro faults permitted
  have holds := meets faults permitted
  unfold Program.mapError
  split at holds
  · exact holds
  · exact holds
  · exact holds

theorem Meets.operate {m : μ} {d : σ} {post : Post μ σ ε α}
    {action : σ → Except ε α × σ} {failed cut : Nat → σ → σ} {failure : ε}
    (passes : post.accepts m (action d))
    (fails : ∀ written, allowed (.fail written) → post.fails failure m (failed written d))
    (dies : ∀ written, allowed (.die written) → post.dies (cut written d)) :
    Meets allowed (Program.operate action failed cut failure) m d post := by
  intro faults permitted
  unfold Program.operate
  dsimp only
  cases faults with
  | nil =>
    rcases acted : action d with ⟨_ | _, after⟩ <;> rw [acted] at passes <;>
      exact ⟨passes, permitted⟩
  | cons fault faults =>
    have rest : ∀ fault ∈ faults, allowed fault :=
      fun f member => permitted f (List.mem_cons_of_mem _ member)
    have head := permitted fault List.mem_cons_self
    cases fault with
    | pass =>
      rcases acted : action d with ⟨_ | _, after⟩ <;> rw [acted] at passes <;> exact ⟨passes, rest⟩
    | fail written => exact ⟨fails written head, rest⟩
    | die written => exact dies written head

/-- A focused program changes only its part, so the parent's exits are the part's put back. -/
theorem Meets.focus {m : μ} {d : σ} {post : Post μ σ ε α} {view : μ → ν} {update : μ → ν → μ}
    {part : σ → τ} {replace : σ → τ → σ} {p : Program ν τ ε α}
    (meets : Meets allowed p (view m) (part d)
      ⟨fun value inner piece => post.returns value (update m inner) (replace d piece),
       fun reason inner piece => post.fails reason (update m inner) (replace d piece),
       fun piece => post.dies (replace d piece)⟩) :
    Meets allowed (Program.focus view update part replace p) m d post := by
  intro faults permitted
  have holds := meets faults permitted
  unfold Program.focus
  dsimp only
  rcases run : p ⟨view m, part d, faults⟩ with ⟨exit, after⟩
  rw [run] at holds
  cases exit with
  | ok value => exact holds
  | error reason => exact holds
  | died => exact holds

end Meets

section Runs

variable {μ σ ε α : Type} {allowed : Fault → Prop} {p : Program μ σ ε α} {m : μ} {d : σ}
  {post : Post μ σ ε α} {faults : List Fault} {after : World μ σ}

theorem Meets.returned {value : α} (meets : Meets allowed p m d post)
    (permitted : ∀ fault ∈ faults, allowed fault) (run : p ⟨m, d, faults⟩ = (.ok value, after)) :
    post.returns value after.memory after.disk := by
  have holds := meets faults permitted
  rw [run] at holds
  exact holds.1

/-- The exit a run took is one the exits allow. -/
def Post.met (post : Post μ σ ε α) : Exit ε α × World μ σ → Prop
  | (.ok value, after) => post.returns value after.memory after.disk
  | (.error reason, after) => post.fails reason after.memory after.disk
  | (.died, after) => post.dies after.disk

theorem Meets.met (meets : Meets allowed p m d post) (permitted : ∀ fault ∈ faults, allowed fault) :
    post.met (p ⟨m, d, faults⟩) := by
  have holds := meets faults permitted
  rcases ran : p ⟨m, d, faults⟩ with ⟨_ | _ | _, after⟩ <;> rw [ran] at holds
  · exact holds.1
  · exact holds.1
  · exact holds

theorem Post.met.mono {strong weak : Post μ σ ε α} {run : Exit ε α × World μ σ}
    (met : strong.met run)
    (returns : ∀ value m d, strong.returns value m d → weak.returns value m d)
    (fails : ∀ reason m d, strong.fails reason m d → weak.fails reason m d)
    (dies : ∀ d, strong.dies d → weak.dies d) : weak.met run := by
  rcases run with ⟨_ | _ | _, after⟩
  · exact returns _ _ _ met
  · exact fails _ _ _ met
  · exact dies _ met

/-- The first operation of the script does not fail, though the process may die in it. -/
def Firm (faults : List Fault) : Prop := ∀ written, faults.head? ≠ some (.fail written)

instance : ∀ faults, Decidable (Firm faults)
  | [] => isTrue nofun
  | .pass :: _ | .die _ :: _ => isTrue nofun
  | .fail written :: _ => isFalse fun firm => firm written rfl

theorem met_firm {β : Type} {action : σ → Except ε β × σ} {failed cut : Nat → σ → σ} {failure : ε}
    {next : Except ε β → Program μ σ ε α} (permitted : ∀ fault ∈ faults, allowed fault)
    (firm : Firm faults)
    (passes : Post.accepts ⟨fun value m d => Meets allowed (next (.ok value)) m d post,
      fun reason m d => Meets allowed (next (.error reason)) m d post, post.dies⟩ m (action d))
    (dies : ∀ written, allowed (.die written) → post.dies (cut written d)) :
    post.met ((Program.attempt (Program.operate action failed cut failure) >>= next)
      ⟨m, d, faults⟩) := by
  have passed : ∀ rest : List Fault, (∀ fault ∈ rest, allowed fault) →
      post.met (match action d with
        | (.ok value, d') => next (.ok value) ⟨m, d', rest⟩
        | (.error reason, d') => next (.error reason) ⟨m, d', rest⟩) := by
    intro rest permitted'
    rcases acted : action d with ⟨_ | _, d'⟩ <;> rw [acted] at passes <;>
      exact Meets.met passes permitted'
  show post.met (Program.bind (Program.attempt (Program.operate action failed cut failure)) next
    ⟨m, d, faults⟩)
  unfold Program.bind Program.attempt Program.operate
  cases faults with
  | nil =>
    have here := passed [] permitted
    rcases acted : action d with ⟨_ | _, d'⟩ <;> rw [acted] at here <;> exact here
  | cons fault rest =>
    have later : ∀ fault ∈ rest, allowed fault :=
      fun fault member => permitted fault (List.mem_cons_of_mem _ member)
    cases fault with
    | pass =>
      have here := passed rest later
      rcases acted : action d with ⟨_ | _, d'⟩ <;> rw [acted] at here <;> exact here
    | fail written => exact absurd rfl (firm written)
    | die written => exact dies written (permitted _ List.mem_cons_self)

/-- On a healthy disk a program whose error and death exits are excluded returns. -/
theorem Meets.succeeds (meets : Meets (fun _ => False) p m d post)
    (noError : ∀ reason m d, ¬ post.fails reason m d) (noDeath : ∀ d, ¬ post.dies d) :
    ∃ value m' d', p ⟨m, d, []⟩ = (.ok value, ⟨m', d', []⟩) ∧ post.returns value m' d' := by
  have holds := meets [] (by simp)
  rcases run : p ⟨m, d, []⟩ with ⟨exit, ⟨m', d', rest⟩⟩
  rw [run] at holds
  cases exit with
  | ok value =>
    have empty : rest = [] := List.eq_nil_iff_forall_not_mem.mpr holds.2
    exact ⟨value, m', d', by rw [empty], holds.1⟩
  | error reason => exact absurd holds.1 (noError _ _ _)
  | died => exact absurd holds (noDeath _)

end Runs

end Faulty
