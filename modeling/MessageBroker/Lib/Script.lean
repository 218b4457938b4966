import MessageBroker.Lib.Program

namespace Faulty

def faultAt (script : List Fault) (place : Nat) : Fault := script.getD place .pass

/-- What has to hold at each exit of a program, with the place of the script it has come to. -/
structure Exits (μ σ ε α : Type) where
  returns : α → Nat → μ → σ → Prop
  fails : ε → Nat → μ → σ → Prop
  dies : σ → Prop

section Goes

variable {μ σ ε α β : Type} {script : List Fault} {place : Nat} {m : μ} {d : σ}

/-- Under this one script, from a place of it on, the program leaves through an exit that meets
    `exits`. -/
def Goes (script : List Fault) (place : Nat) (p : Program μ σ ε α) (m : μ) (d : σ)
    (exits : Exits μ σ ε α) : Prop :=
  match p ⟨m, d, script.drop place⟩ with
  | (.ok value, after) =>
    ∃ next, after.faults = script.drop next ∧ exits.returns value next after.memory after.disk
  | (.error reason, after) =>
    ∃ next, after.faults = script.drop next ∧ exits.fails reason next after.memory after.disk
  | (.died, after) => exits.dies after.disk

theorem Goes.pure {exits : Exits μ σ ε α} {value : α} (holds : exits.returns value place m d) :
    Goes script place (Pure.pure value) m d exits :=
  ⟨place, rfl, holds⟩

theorem Goes.throw {exits : Exits μ σ ε α} {reason : ε} (holds : exits.fails reason place m d) :
    Goes script place (Program.throw reason) m d exits :=
  ⟨place, rfl, holds⟩

theorem Goes.memory {exits : Exits μ σ ε μ} (holds : exits.returns m place m d) :
    Goes script place Program.memory m d exits :=
  ⟨place, rfl, holds⟩

theorem Goes.modify {exits : Exits μ σ ε Unit} {change : μ → μ}
    (holds : exits.returns () place (change m) d) :
    Goes script place (Program.modify change) m d exits :=
  ⟨place, rfl, holds⟩

theorem Goes.bind {exits : Exits μ σ ε β} {p : Program μ σ ε α} {next : α → Program μ σ ε β}
    (first : Goes script place p m d
      ⟨fun value later m d => Goes script later (next value) m d exits, exits.fails, exits.dies⟩) :
    Goes script place (p >>= next) m d exits := by
  unfold Goes at first
  change match Program.bind p next ⟨m, d, script.drop place⟩ with
    | (.ok value, after) => _
    | (.error reason, after) => _
    | (.died, after) => _
  unfold Program.bind
  rcases ran : p ⟨m, d, script.drop place⟩ with ⟨exit, ⟨memory, disk, faults⟩⟩
  rw [ran] at first
  cases exit with
  | ok value =>
    obtain ⟨later, rfl, holds⟩ := first
    exact holds
  | error reason => exact first
  | died => exact first

theorem Goes.attempt {exits : Exits μ σ ε (Except ε α)} {p : Program μ σ ε α}
    (goes : Goes script place p m d
      ⟨fun value => exits.returns (.ok value), fun reason => exits.returns (.error reason),
        exits.dies⟩) :
    Goes script place (Program.attempt p) m d exits := by
  unfold Goes Program.attempt
  unfold Goes at goes
  rcases ran : p ⟨m, d, script.drop place⟩ with ⟨exit, after⟩
  rw [ran] at goes
  cases exit with
  | ok value => exact goes
  | error reason => exact goes
  | died => exact goes

theorem Goes.mono {strong weak : Exits μ σ ε α} {p : Program μ σ ε α}
    (goes : Goes script place p m d strong)
    (returns : ∀ value next m d, strong.returns value next m d → weak.returns value next m d)
    (fails : ∀ reason next m d, strong.fails reason next m d → weak.fails reason next m d)
    (dies : ∀ d, strong.dies d → weak.dies d) : Goes script place p m d weak := by
  unfold Goes at goes ⊢
  rcases ran : p ⟨m, d, script.drop place⟩ with ⟨exit, after⟩
  rw [ran] at goes
  cases exit with
  | ok value =>
    obtain ⟨next, rest, holds⟩ := goes
    exact ⟨next, rest, returns _ _ _ _ holds⟩
  | error reason =>
    obtain ⟨next, rest, holds⟩ := goes
    exact ⟨next, rest, fails _ _ _ _ holds⟩
  | died => exact dies _ goes

theorem Goes.ignore {exits : Exits μ σ ε Unit} {p : Program μ σ ε α}
    (goes : Goes script place p m d ⟨fun _ => exits.returns (), fun _ => exits.returns (),
      exits.dies⟩) :
    Goes script place (Program.ignore p) m d exits := by
  apply Goes.bind
  apply Goes.attempt
  exact goes.mono (fun _ _ _ _ holds => Goes.pure holds) (fun _ _ _ _ holds => Goes.pure holds)
    (fun _ holds => holds)

theorem Goes.onError {exits : Exits μ σ ε α} {p : Program μ σ ε α} {cleanup : Program μ σ ε Unit}
    (goes : Goes script place p m d
      ⟨exits.returns, fun reason next m d => Goes script next cleanup m d
        ⟨fun _ => exits.fails reason, fun _ => exits.fails reason, exits.dies⟩, exits.dies⟩) :
    Goes script place (Program.onError p cleanup) m d exits := by
  apply Goes.bind
  apply Goes.attempt
  refine goes.mono (fun _ _ _ _ holds => Goes.pure holds) (fun _ _ _ _ holds => ?_)
    (fun _ holds => holds)
  apply Goes.bind
  apply Goes.ignore
  exact Goes.mono holds (fun _ _ _ _ failed => Goes.throw failed)
    (fun _ _ _ _ failed => Goes.throw failed) (fun _ died => died)

theorem drop_cases (script : List Fault) (place : Nat) :
    (script.drop place = [] ∧ faultAt script place = .pass ∧ script.drop (place + 1) = []) ∨
      script.drop place = faultAt script place :: script.drop (place + 1) := by
  rcases Nat.lt_or_ge place script.length with inside | outside
  · right
    rw [faultAt, List.getD_eq_getElem?_getD, List.getElem?_eq_getElem inside, Option.getD_some]
    exact List.drop_eq_getElem_cons inside
  · left
    refine ⟨List.drop_eq_nil_of_le outside, ?_, List.drop_eq_nil_of_le (by omega)⟩
    rw [faultAt, List.getD_eq_getElem?_getD, List.getElem?_eq_none outside, Option.getD_none]

theorem Goes.operate {exits : Exits μ σ ε α} {action : σ → Except ε α × σ}
    {failed cut : Nat → σ → σ} {failure : ε}
    (passes : faultAt script place = .pass → (Post.mk (fun value => exits.returns value (place + 1))
      (fun reason => exits.fails reason (place + 1)) exits.dies).accepts m (action d))
    (fails : ∀ written,
      faultAt script place = .fail written → exits.fails failure (place + 1) m (failed written d))
    (dies : ∀ written, faultAt script place = .die written → exits.dies (cut written d)) :
    Goes script place (Program.operate action failed cut failure) m d exits := by
  unfold Goes Program.operate
  rcases drop_cases script place with ⟨nothing, passed, behind⟩ | split
  · have accepted := passes passed
    rw [nothing]
    dsimp only
    rcases acted : action d with ⟨_ | _, after⟩ <;> rw [acted] at accepted <;>
      exact ⟨place + 1, by rw [behind], accepted⟩
  · rw [split]
    cases here : faultAt script place with
    | pass =>
      have accepted := passes here
      dsimp only
      rcases acted : action d with ⟨_ | _, after⟩ <;> rw [acted] at accepted <;>
        exact ⟨place + 1, rfl, accepted⟩
    | fail written => exact ⟨place + 1, rfl, fails written here⟩
    | die written => exact dies written here

/-- What a program does under every sequence of faults, it does under this script as well. -/
theorem Goes.both {exits : Exits μ σ ε α} {allowed : Fault → Prop} {post : Post μ σ ε α}
    {p : Program μ σ ε α} (goes : Goes script place p m d exits)
    (permitted : ∀ fault ∈ script, allowed fault) (meets : Meets allowed p m d post) :
    Goes script place p m d
      ⟨fun value next m d => exits.returns value next m d ∧ post.returns value m d,
       fun reason next m d => exits.fails reason next m d ∧ post.fails reason m d,
       fun d => exits.dies d ∧ post.dies d⟩ := by
  have met := meets (script.drop place)
    fun fault member => permitted fault (List.mem_of_mem_drop member)
  unfold Goes at goes ⊢
  rcases ran : p ⟨m, d, script.drop place⟩ with ⟨exit, after⟩
  rw [ran] at goes met
  cases exit with
  | ok value =>
    obtain ⟨next, rest, holds⟩ := goes
    exact ⟨next, rest, holds, met.1⟩
  | error reason =>
    obtain ⟨next, rest, holds⟩ := goes
    exact ⟨next, rest, holds, met.1⟩
  | died => exact ⟨goes, met⟩

end Goes

end Faulty
