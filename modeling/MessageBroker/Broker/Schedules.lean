import MessageBroker.Broker.ServerCalls

namespace MessageBroker.Broker.Lifecycle

open Runs Servers

/-! ## Every schedule -/

/-- What any schedule can make of a process, whatever its servers do. -/
abbrev ProcessRun (G H : NetServer) (past : List (ProcessEvent G H)) (p : Process G H) : Prop :=
  Run Process.perform (AnySchedule G H) (Process.new G H) past p

section Schedules

variable {G H : NetServer} {p : Process G H} {past : List (ProcessEvent G H)}

theorem orderly_run (run : ProcessRun G H past p) : Orderly p ∧ Startup p ∧ Told p p.stage := by
  refine @Run.invariant _ _ _ _ _ _ _ _ (fun _ p => Orderly p ∧ Startup p ∧ Told p p.stage) run
    ⟨orderly_new, startup_new, told_new⟩ ?_
  rintro past p choice ⟨orderly, startup, told⟩ _
  show Orderly ((p.step choice).getD p) ∧
    Startup ((p.step choice).getD p) ∧ Told ((p.step choice).getD p) _
  cases ran : p.step choice with
  | none =>
    unfold Process.perform
    rw [ran]
    exact ⟨orderly, startup, told⟩
  | some p' =>
    unfold Process.perform
    rw [ran]
    exact ⟨orderly_step orderly ran, startup_step orderly startup ran, told_step orderly told ran⟩

theorem ProcessRun.scheduled (run : ProcessRun G H past p) (choices : List (Choice G H)) :
    ProcessRun G H (execute Process.perform past p choices).1
      (execute Process.perform past p choices).2 := by
  induction choices generalizing past p with
  | nil => exact run
  | cons choice rest ih => exact ih (.step run trivial)

theorem Orderly.traces (orderly : Orderly p) :
    (p.stopped = true ↔ 0 < p.stage) ∧
      (p.cancelled = true ↔ 3 ≤ p.stage) ∧ (p.offsetsClosed = true ↔ 14 ≤ p.stage) ∧
      (p.topicsClosed = true ↔ 15 ≤ p.stage) ∧ p.doneClosings = if 16 ≤ p.stage then 1 else 0 := by
  have flags := orderly.staged.flags
  simp only [Process.flags, flagsAt, Flags.mk.injEq] at flags
  simp [flags]

/-- The stores are closed when nothing else runs any more. What is said of the RPCs rests on what
    the library says of its two stops; only a forced one leaves handlers behind. -/
theorem stores_closed_last (drains : G.Drains) (refuses : G.Refuses) (run : ProcessRun G H past p)
    (closed : p.offsetsClosed = true ∨ p.topicsClosed = true) :
    p.ready = false ∧ p.worker = .exited ∧ p.http = .exited ∧ p.grpc = .exited ∧
      (p.forced = false → G.handlers p.grpcServer = 0) ∧
      ∀ server, G.Moves p.grpcServer server → G.handlers server ≤ G.handlers p.grpcServer := by
  obtain ⟨orderly, _, ⟨c, grpc⟩, _⟩ := orderly_run run
  obtain ⟨_, _, offsets, topics, _⟩ := orderly.traces
  have late : 14 ≤ p.stage := by
    rcases closed with closed | closed
    · exact offsets.mp closed
    · exact Nat.le_trans (by decide) (topics.mp closed)
  have loops := orderly.staged.loops (by omega)
  have quit := grpc.quit (by omega)
  refine ⟨?_, orderly.staged.worker (by omega), loops.1, loops.2, fun gentle => ?_,
    fun server moves => ?_⟩
  · cases ready : p.ready with
    | false => rfl
    | true =>
      have early := orderly.staged.ready ready
      omega
  · have alive : c.killing = false :=
      Bool.eq_false_iff.mpr fun on => by simp [grpc.killing.mp on] at gentle
    refine drains c _ grpc.reaches (quit.elim (fun both => both.2) fun both => ?_) alive
    rw [alive] at both
    cases both.1
  · exact refuses c _ server grpc.reaches (quit.imp (fun both => both.2) fun both => both.2) moves

def startSchedule : List (Choice counting counting) :=
  List.replicate 6 (.main .first) ++ [.main .second, .main .first, .main .first]

/-- A start, an RPC that never ends, a signal and a shutdown whose context expires. -/
def forcedSchedule : List (Choice counting counting) :=
  startSchedule ++ [.grpc, .http, .grpcServer .accept, .main .second, .main .first, .main .first,
    .main .first, .worker .first, .worker .first, .main .first, .main .first, .main .first,
    .graceful, .expires, .main .second, .main .first, .main .first,
    .main .first, .main .first, .main .first, .http, .http, .grpc, .grpc, .main .first,
    .main .first, .main .first]

theorem stores_closed_last_forced :
    ∃ past p, ProcessRun counting counting past p ∧
      p.topicsClosed = true ∧ counting.handlers p.grpcServer = 1 ∧ p.grpc = .exited ∧
      ∀ server, counting.Moves p.grpcServer server → counting.handlers server ≤ 1 := by
  have run := ProcessRun.scheduled .start forcedSchedule
  have one : counting.handlers
      (execute Process.perform [] (Process.new counting counting) forcedSchedule).2.grpcServer =
      1 := by
    decide +kernel
  have last := stores_closed_last counting_drains counting_refuses run (Or.inr (by decide +kernel))
  refine ⟨_, _, run, by decide +kernel, one, last.2.2.2.1, fun server moves => ?_⟩
  exact Nat.le_trans (last.2.2.2.2.2 server moves) (Nat.le_of_eq one)

/-- Of the two calls of `Shutdown` at most one gets past its first step, and so the done channel is
    closed once at most; when it is, both stores are closed. -/
theorem shutdown_once (run : ProcessRun G H past p) :
    (p.main.stage = 0 ∨ p.monitor.stage = 0) ∧ p.doneClosings ≤ 1 ∧
      (p.doneClosings = 1 → p.offsetsClosed = true ∧ p.topicsClosed = true) := by
  have orderly := (orderly_run run).1
  obtain ⟨_, _, offsets, topics, done⟩ := orderly.traces
  refine ⟨orderly.exclusive, ?_, ?_⟩
  · rw [done]
    split <;> decide
  · intro once
    rw [done] at once
    split at once
    · exact ⟨offsets.mpr (by omega), topics.mpr (by omega)⟩
    · cases once

def interruptedSchedule : List (Choice counting counting) :=
  startSchedule ++ [.http, .httpServer .fail, .http, .http, .http, .http, .monitor .first,
    .monitor .first, .monitor .first, .monitor .first, .main .second, .main .first]

theorem shutdown_once_interrupted :
    ∃ past p, ProcessRun counting counting past p ∧ p.monitor.stage = 2 ∧ p.main.stage = 0 := by
  have run := ProcessRun.scheduled .start interruptedSchedule
  exact ⟨_, _, run, by decide, (shutdown_once run).1.resolve_right (by decide)⟩

theorem Stop.stage_one {call : Stop} (one : call.stage = 1) : call = .markNotReady := by
  cases call <;> simp_all [Stop.stage]

theorem Main.stage_one {main : Main} (one : main.stage = 1) :
    ∃ cause, main = .stopping cause .markNotReady := by
  cases main with
  | stopping cause call => exact ⟨cause, congrArg _ (Stop.stage_one one)⟩
  | _ => cases one

theorem Monitor.stage_one {monitor : Monitor} (one : monitor.stage = 1) :
    ∃ err, monitor = .stopping err .markNotReady := by
  cases monitor with
  | stopping err call => exact ⟨err, congrArg _ (Stop.stage_one one)⟩
  | _ => cases one

/-- While the broker says it is ready it is started, its servers are launched, it retains and its
    stores are open; `Shutdown` clears that first. A server that has crashed by then, perhaps before
    the broker said so, is on its way to a `Shutdown`. -/
theorem ready_serves (run : ProcessRun G H past p) (ready : p.ready = true) :
    p.started = true ∧ p.http ≠ .idle ∧ p.grpc ≠ .idle ∧ p.worker.busy = true ∧
      p.offsetsClosed = false ∧ p.topicsClosed = false ∧
      (p.stopped = true → (∃ cause, p.main = .stopping cause .markNotReady) ∨
        ∃ err, p.monitor = .stopping err .markNotReady) ∧
      (p.stopped = false →
        (p.http = .exited → p.alarmed .http) ∧ (p.grpc = .exited → p.alarmed .grpc)) := by
  obtain ⟨orderly, startup, _⟩ := orderly_run run
  obtain ⟨stopped, cancelled, offsets, topics, _⟩ := orderly.traces
  have early := orderly.staged.ready ready
  have launched := startup.ready ready
  have begun : p.started = true := by
    refine startup.started (fun here => ?_) fun here => ?_ <;>
      simp [here, Main.launches] at launched
  refine ⟨begun, ?_, ?_, ?_, ?_, ?_, ?_, orderly.noticed⟩
  · exact orderly.threads.http.not.mpr (by omega)
  · exact orderly.threads.grpc.not.mpr (by omega)
  · have begun := orderly.threads.worker.not.mpr (by omega)
    have working : p.worker ≠ .exited :=
      fun gone => absurd (cancelled.mp (startup.worker gone)) (by omega)
    cases here : p.worker <;> simp_all [Worker.busy]
  · exact Bool.eq_false_iff.mpr fun closed => absurd (offsets.mp closed) (by omega)
  · exact Bool.eq_false_iff.mpr fun closed => absurd (topics.mp closed) (by omega)
  · intro on
    have stage : p.main.stage + p.monitor.stage = 1 := Nat.le_antisymm early (stopped.mp on)
    rcases orderly.exclusive with other | other <;> rw [other] at stage
    · exact Or.inr (Monitor.stage_one (by omega))
    · exact Or.inl (Main.stage_one (by omega))

/-- The HTTP server fails within the startup window, and the broker says that it is ready all the
    same. -/
theorem ready_serves_crashed :
    ∃ past p, ProcessRun counting counting past p ∧
      p.ready = true ∧ p.http = .exited ∧ p.worker.busy = true ∧ p.alarmed .http := by
  have run := ProcessRun.scheduled .start
    (List.replicate 6 (Choice.main .first) ++ [.http, .httpServer .fail, .main .second, .http,
      .http,
    .http, .http, .main .first] : List (Choice counting counting))
  obtain ⟨_, _, _, busy, _, _, _, noticed⟩ := ready_serves run (by decide)
  exact ⟨_, _, run, by decide, by decide, busy, (noticed (by decide)).1 (by decide)⟩

/-- A `run` that returns no error has closed the stores, unless the signal came while the monitor
    was shutting down. -/
theorem clean_exit (run : ProcessRun G H past p) (clean : p.main.result = some .clean) :
    p.offsetsClosed = true ∧ p.topicsClosed = true ∨
      p.main = .stopping .signal .skipped ∧
        ∃ err call, p.monitor = .stopping err call ∧ 0 < call.stage := by
  obtain ⟨orderly, startup, _⟩ := orderly_run run
  obtain ⟨stopped, _, offsets, topics, _⟩ := orderly.traces
  unfold Main.result at clean
  split at clean <;> try cases clean
  · rename_i here
    have done : 16 ≤ p.stage := by
      rw [Process.stage, here]
      exact Nat.le_add_right _ _
    exact Or.inl ⟨offsets.mpr (by omega), topics.mpr (by omega)⟩
  · rename_i here
    have begun := stopped.mp (startup.turned .signal here)
    rw [Process.stage, here] at begun
    refine Or.inr ⟨here, ?_⟩
    cases there : p.monitor with
    | stopping err call =>
      rw [there] at begun
      exact ⟨err, call, rfl, by simpa [Main.stage, Monitor.stage, Stop.stage] using begun⟩
    | _ => simp [there, Main.stage, Monitor.stage, Stop.stage] at begun

theorem clean_exit_interrupted :
    ∃ past p, ProcessRun counting counting past p ∧
      p.main.result = some .clean ∧ p.topicsClosed = false ∧
      ∃ err call, p.monitor = .stopping err call ∧ 0 < call.stage := by
  have run := ProcessRun.scheduled .start interruptedSchedule
  refine ⟨_, _, run, by decide, by decide, ?_⟩
  exact ((clean_exit run (by decide)).resolve_left (by decide)).2

/-- A server that is gone while nobody has stopped the broker is on its way to a `Shutdown`, and its
    own error is not lost. -/
theorem crash_noticed (run : ProcessRun G H past p) (running : p.stopped = false) :
    p.lost = false ∧
      (p.http = .exited → p.alarmed .http) ∧ (p.grpc = .exited → p.alarmed .grpc) := by
  obtain ⟨orderly, _⟩ := orderly_run run
  exact ⟨orderly.lost, orderly.noticed running⟩

def crashSchedule : List (Choice counting counting) :=
  startSchedule ++ [.http, .grpc, .httpServer .fail, .grpcServer .fail, .http, .grpc, .http, .grpc,
    .http, .grpc, .http, .grpc, .monitor .first]

theorem crash_noticed_both :
    ∃ past p, ProcessRun counting counting past p ∧
      p.serveErrs = [.grpc] ∧ p.monitor = .received .http ∧ p.alarmed .http ∧
      p.alarmed .grpc := by
  have run := ProcessRun.scheduled .start crashSchedule
  obtain ⟨_, http, grpc⟩ := crash_noticed run (by decide)
  exact ⟨_, _, run, by decide, by decide, http (by decide), grpc (by decide)⟩

end Schedules

end MessageBroker.Broker.Lifecycle
