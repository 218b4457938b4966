import Mathlib.Logic.Relation

namespace Servers

/-- A server of some library, as its caller knows it: what a call of each method makes of its state,
    what it then does by itself, and which calls have returned. `drain` is a graceful stop and
    `kill` one that does not wait. -/
structure NetServer where
  State : Type
  Step : Type
  new : State
  next : State → Step → Option State
  serve : State → State
  drain : State → State
  kill : State → State
  serveReturned : State → Bool
  drainReturned : State → Bool
  killReturned : State → Bool
  handlers : State → Nat

/-- What the caller has called, and which stops it has seen return. -/
structure Calls where
  served : Bool
  draining : Bool
  drained : Bool
  killing : Bool
  killed : Bool
  deriving DecidableEq, Repr

def Calls.none : Calls := ⟨false, false, false, false, false⟩

namespace NetServer

/-- The states a server can get into. The caller may call every method at any time and from several
    threads. -/
inductive Reaches (S : NetServer) : Calls → S.State → Prop where
  | new : Reaches S .none S.new
  | next {c : Calls} {s s' : S.State} {step : S.Step} :
      Reaches S c s → S.next s step = some s' → Reaches S c s'
  | serve {c : Calls} {s : S.State} :
      Reaches S c s → Reaches S { c with served := true } (S.serve s)
  | drain {c : Calls} {s : S.State} :
      Reaches S c s → Reaches S { c with draining := true } (S.drain s)
  | drained {c : Calls} {s : S.State} :
      Reaches S c s → S.drainReturned s = true → Reaches S { c with drained := true } s
  | kill {c : Calls} {s : S.State} : Reaches S c s → Reaches S { c with killing := true } (S.kill s)
  | killed {c : Calls} {s : S.State} :
      Reaches S c s → S.killReturned s = true → Reaches S { c with killed := true } s

def Moves (S : NetServer) (s s' : S.State) : Prop := ∃ step, S.next s step = some s'

/-- Once a graceful stop has returned no handler runs any more, unless the server was killed. -/
def Drains (S : NetServer) : Prop :=
  ∀ c s, S.Reaches c s → c.drained = true → c.killing = false → S.handlers s = 0

/-- Once either stop has returned no handler begins any more. -/
def Refuses (S : NetServer) : Prop :=
  ∀ c s s', S.Reaches c s →
    c.drained = true ∨ c.killed = true → S.Moves s s' → S.handlers s' ≤ S.handlers s

/-- The calls can come to their end: a stop because what it waits for can, and `serve` behind a
    stop. -/
structure Stops (S : NetServer) : Prop where
  serve : ∀ c s, S.Reaches c s → c.served = true → c.draining = true ∨ c.killing = true →
    ∃ s', Relation.ReflTransGen S.Moves s s' ∧ S.serveReturned s' = true
  drain : ∀ c s, S.Reaches c s → c.draining = true →
    ∃ s', Relation.ReflTransGen S.Moves s s' ∧ S.drainReturned s' = true
  kill : ∀ c s, S.Reaches c s → c.killing = true →
    ∃ s', Relation.ReflTransGen S.Moves s s' ∧ S.killReturned s' = true

end NetServer

/-! ## A server that counts its handlers -/

structure Tally where
  serving : Bool
  failed : Bool
  quit : Bool
  killed : Bool
  handlers : Nat
  deriving DecidableEq, Repr

inductive Tally.Step where
  | accept
  | finish
  | fail
  deriving DecidableEq, Repr

def Tally.next (t : Tally) : Tally.Step → Option Tally
  | .accept => if t.serving ∧ ¬ t.quit then some { t with handlers := t.handlers + 1 } else none
  | .finish => if t.handlers = 0 then none else some { t with handlers := t.handlers - 1 }
  | .fail => if t.serving then some { t with failed := true } else none

/-- It may fail while it serves, and a graceful stop waits for the handlers. -/
def counting : NetServer where
  State := Tally
  Step := Tally.Step
  new := ⟨false, false, false, false, 0⟩
  next := Tally.next
  serve t := { t with serving := true }
  drain t := { t with quit := true }
  kill t := { t with quit := true, killed := true }
  serveReturned t := t.serving && (t.quit || t.failed)
  drainReturned t := t.quit && (t.handlers == 0 || t.killed)
  killReturned t := t.killed
  handlers t := t.handlers

section Counting

variable {c : Calls} {t t' : Tally} {step : Tally.Step}

structure Tally.Follows (t : Tally) (c : Calls) : Prop where
  served : c.served = true → t.serving = true
  quit : c.draining = true ∨ c.killing = true ∨ c.drained = true ∨ c.killed = true → t.quit = true
  killing : c.killing = true ↔ t.killed = true
  drained : c.drained = true → c.killing = false → t.handlers = 0

theorem Tally.next_quiet (quit : t.quit = true) (ran : t.next step = some t') :
    t'.handlers ≤ t.handlers ∧
      t'.quit = t.quit ∧ t'.killed = t.killed ∧ t'.serving = t.serving := by
  cases step with
  | accept => simp [Tally.next, quit] at ran
  | finish =>
    simp only [Tally.next] at ran
    split at ran <;> cases ran
    exact ⟨Nat.sub_le _ _, rfl, rfl, rfl⟩
  | fail =>
    simp only [Tally.next] at ran
    split at ran <;> cases ran
    exact ⟨Nat.le_refl _, rfl, rfl, rfl⟩

theorem Tally.next_kept (ran : t.next step = some t') :
    t'.quit = t.quit ∧ t'.killed = t.killed ∧ t'.serving = t.serving := by
  cases step <;> simp only [Tally.next] at ran <;> split at ran <;> cases ran <;>
    exact ⟨rfl, rfl, rfl⟩

theorem counting_follows {t : counting.State} (reaches : counting.Reaches c t) :
    Tally.Follows t c := by
  induction reaches with
  | new =>
    exact ⟨by simp [Calls.none], by simp [Calls.none], by simp [Calls.none, counting],
      by simp [Calls.none]⟩
  | next _ ran ih =>
    obtain ⟨quit, killed, serving⟩ := Tally.next_kept ran
    refine ⟨fun on => serving.trans (ih.served on), fun on => quit.trans (ih.quit on),
      by rw [killed]; exact ih.killing, ?_⟩
    intro drained alive
    have fewer := (Tally.next_quiet (ih.quit (Or.inr (Or.inr (Or.inl drained)))) ran).1
    have nothing := ih.drained drained alive
    omega
  | serve _ ih => exact ⟨fun _ => rfl, ih.quit, ih.killing, ih.drained⟩
  | drain _ ih => exact ⟨ih.served, fun _ => rfl, ih.killing, ih.drained⟩
  | drained _ returned ih =>
    simp only [counting, Bool.and_eq_true, Bool.or_eq_true, beq_iff_eq] at returned
    refine ⟨ih.served, fun _ => returned.1, ih.killing,
      fun _ alive => returned.2.resolve_right fun killed => ?_⟩
    rw [ih.killing.mpr killed] at alive
    cases alive
  | kill _ ih => exact ⟨ih.served, fun _ => rfl, by simp [counting], fun _ alive => by cases alive⟩
  | killed _ returned ih =>
    exact ⟨ih.served, fun _ => ih.quit (Or.inr (Or.inl (ih.killing.mpr returned))), ih.killing,
      ih.drained⟩

theorem counting_drains : counting.Drains := fun _ _ reaches => (counting_follows reaches).drained

theorem counting_refuses : counting.Refuses := by
  rintro c t t' reaches stopped ⟨step, ran⟩
  refine (Tally.next_quiet ((counting_follows reaches).quit ?_) ran).1
  exact Or.inr (Or.inr stopped)

theorem counting_empties : ∀ {handlers : Nat} {t : Tally}, t.handlers = handlers →
    Relation.ReflTransGen counting.Moves t { t with handlers := 0 }
  | 0, t, ended => by
    rw [← ended]
    exact .refl
  | handlers + 1, t, left => by
    have first : counting.Moves t { t with handlers := handlers } :=
      ⟨.finish, by simp [counting, Tally.next, left]⟩
    exact .head first (counting_empties rfl)

theorem counting_stops : counting.Stops where
  serve c t reaches served stopping := by
    have follows := counting_follows reaches
    refine ⟨t, .refl, ?_⟩
    simp [counting, follows.served served, follows.quit (stopping.imp_right Or.inl)]
  drain c t reaches draining := by
    have quit := (counting_follows reaches).quit (Or.inl draining)
    exact ⟨_, counting_empties rfl, by simp [counting, quit]⟩
  kill c t reaches killing := ⟨t, .refl, (counting_follows reaches).killing.mp killing⟩

end Counting

end Servers
