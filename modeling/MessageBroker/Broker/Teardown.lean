import MessageBroker.Broker.Lifecycle
import Mathlib.Tactic.SplitIfs
import Mathlib.Tactic.Common

namespace MessageBroker.Broker.Lifecycle

open Runs Servers

/-- How far a call of `Shutdown` has come. A call that was turned away has not begun. -/
def Stop.stage : Stop → Nat
  | .enter | .skipped => 0
  | .markNotReady => 1
  | .cancelMaintenance => 2
  | .waitMaintenance => 3
  | .markNotServing => 4
  | .launchGracefulStop => 5
  | .selectStopped => 6
  | .forceStop => 7
  | .waitStop => 8
  | .cleanup _ => 9
  | .shutdownHTTP _ => 10
  | .waitHTTP _ => 11
  | .waitServe _ => 12
  | .closeOffsets _ => 13
  | .closeTopics _ => 14
  | .closeDone _ => 15
  | .finished _ => 16

def Main.stage : Main → Nat
  | .stopping _ call => call.stage
  | _ => 0

def Monitor.stage : Monitor → Nat
  | .stopping _ call => call.stage
  | _ => 0

section Stages

variable {G H : NetServer}

/-- How far the shutdown has come: only one of the two calls gets past its first step. -/
def Process.stage (p : Process G H) : Nat := p.main.stage + p.monitor.stage

def Main.launches : Main → Nat
  | .launchGRPC => 1
  | .launchWorker => 2
  | .window | .markReady | .launchMonitor | .stopping (.crash _) _ => 3
  | .waiting | .unexpected | .stopping .signal _ => 4
  | _ => 0

/-- The steps of the shutdown that leave a trace. -/
structure Flags where
  stopped : Bool
  cancelled : Bool
  offsetsClosed : Bool
  topicsClosed : Bool
  doneClosings : Nat
  deriving DecidableEq

def Process.flags (p : Process G H) : Flags :=
  ⟨p.stopped, p.cancelled, p.offsetsClosed, p.topicsClosed, p.doneClosings⟩

def flagsAt (stage : Nat) : Flags :=
  ⟨0 < stage, 3 ≤ stage, 14 ≤ stage, 15 ≤ stage, if 16 ≤ stage then 1 else 0⟩

/-- What holds at a stage of the shutdown. -/
structure Staged (p : Process G H) (stage : Nat) : Prop where
  flags : p.flags = flagsAt stage
  ready : p.ready = true → stage ≤ 1
  worker : 4 ≤ stage → p.worker = .exited
  graceful : p.graceful = .idle ↔ stage < 6
  loops : 13 ≤ stage → p.http = .exited ∧ p.grpc = .exited

structure Threads (p : Process G H) : Prop where
  http : p.http = .idle ↔ p.main.launches < 1
  grpc : p.grpc = .idle ↔ p.main.launches < 2
  worker : p.worker = .idle ↔ p.main.launches < 3
  monitor : p.monitor = .idle ↔ p.main.launches < 4

end Stages

theorem Worker.rests {worker : Worker} (rests : ¬ worker.busy = true) (launched : worker ≠ .idle) :
    worker = .exited := by
  cases worker <;> simp_all [Worker.busy]

theorem Loop.rests {loop : Loop} (rests : ¬ loop.busy = true) (launched : loop ≠ .idle) :
    loop = .exited := by
  cases loop <;> simp_all [Loop.busy]

section Shutdown

variable {G H : NetServer} {p p' : Process G H} {deadline : Bool} {branch : Branch}
  {call call' : Stop} {stage : Nat}

theorem shutdown_staged (staged : Staged p call.stage) (begun : 0 < call.stage)
    (threads : Threads p) (launched : 3 ≤ p.main.launches)
    (ran : p.shutdown deadline branch call = some (p', call')) :
    Staged p' call'.stage ∧ 0 < call'.stage := by
  obtain ⟨flags, ready, worker, graceful, loops⟩ := staged
  have http := threads.http
  have grpc := threads.grpc
  have work := threads.worker
  clear threads
  cases call with
  | enter => simp [Stop.stage] at begun
  | skipped => simp [Stop.stage] at begun
  | finished errs => cases ran
  | waitMaintenance =>
    simp only [Process.shutdown] at ran
    split at ran <;> cases ran
    simp only [Stop.stage] at *
    refine ⟨⟨by simpa [Process.flags, flagsAt] using flags, ?_, ?_, ?_, ?_⟩, by decide⟩ <;>
      grind [Worker.rests]
  | selectStopped | waitHTTP errs =>
    simp only [Process.shutdown] at ran
    split at ran <;> split at ran <;> cases ran
    all_goals
      simp only [Stop.stage] at *
      refine ⟨⟨by simpa [Process.flags, flagsAt] using flags, ?_, ?_, ?_, ?_⟩, by decide⟩ <;> grind
  | waitStop =>
    simp only [Process.shutdown] at ran
    split at ran <;> cases ran
    simp only [Stop.stage] at *
    refine ⟨⟨by simpa [Process.flags, flagsAt] using flags, ?_, ?_, ?_, ?_⟩, by decide⟩ <;> grind
  | waitServe errs =>
    simp only [Process.shutdown] at ran
    split at ran <;> cases ran
    simp only [Stop.stage] at *
    refine ⟨⟨by simpa [Process.flags, flagsAt] using flags, ?_, ?_, ?_, ?_⟩, by decide⟩ <;>
      grind [Loop.rests]
  | _ =>
    cases ran
    simp only [Stop.stage] at *
    refine ⟨⟨by simp_all [Process.flags, flagsAt], ?_, ?_, ?_, ?_⟩, by decide⟩ <;> grind

/-- The two calls together: one that comes second leaves the first alone. -/
theorem shutdown_exclusive {other : Nat} (staged : Staged p (call.stage + other))
    (exclusive : call.stage = 0 ∨ other = 0) (threads : Threads p) (launched : 3 ≤ p.main.launches)
    (ran : p.shutdown deadline branch call = some (p', call')) :
    Staged p' (call'.stage + other) ∧ (call'.stage = 0 ∨ other = 0) := by
  by_cases begun : 0 < call.stage
  · obtain rfl : other = 0 := exclusive.resolve_left (by omega)
    exact ⟨(shutdown_staged staged begun threads launched ran).1, Or.inr rfl⟩
  · cases call with
    | skipped => cases ran
    | enter =>
      have stopped := congrArg Flags.stopped staged.flags
      simp only [Process.flags, flagsAt, Stop.stage, Nat.zero_add] at stopped
      simp only [Process.shutdown, stopped] at ran
      split at ran <;> rename_i other_begun <;> cases ran
      · exact ⟨staged, Or.inl rfl⟩
      · obtain rfl : other = 0 := by simpa using other_begun
        refine ⟨⟨?_, fun _ => Nat.le_refl _, ?_, ?_, ?_⟩, Or.inr rfl⟩
        · have flags := staged.flags
          simp_all [Process.flags, flagsAt, Stop.stage]
        · exact fun late => absurd late (by decide)
        · exact staged.graceful.trans (by decide)
        · exact fun late => absurd late (by decide)
    | _ => simp [Stop.stage] at begun

/-- What `Shutdown` leaves to the other threads. -/
structure Leaves (p p' : Process G H) : Prop where
  main : p'.main = p.main
  monitor : p'.monitor = p.monitor
  http : p'.http = p.http
  grpc : p'.grpc = p.grpc
  worker : p'.worker = p.worker
  started : p'.started = p.started
  serveErrs : p'.serveErrs = p.serveErrs
  lost : p'.lost = p.lost
  stopped : p.stopped = true → p'.stopped = true
  cancelled : p.cancelled = true → p'.cancelled = true
  ready : p'.ready = true → p.ready = true

theorem shutdown_leaves (ran : p.shutdown deadline branch call = some (p', call')) :
    Leaves p p' := by
  cases call with
  | enter =>
    simp only [Process.shutdown] at ran
    split at ran <;> cases ran <;> constructor <;> simp_all
  | finished errs => cases ran
  | skipped => cases ran
  | waitMaintenance | waitStop | waitServe errs =>
    simp only [Process.shutdown] at ran
    split at ran <;> cases ran
    constructor <;> simp
  | selectStopped | waitHTTP errs =>
    simp only [Process.shutdown] at ran
    split at ran <;> split at ran <;> cases ran <;> constructor <;> simp
  | _ =>
    cases ran
    constructor <;> simp

theorem Leaves.threads (leaves : Leaves p p') (threads : Threads p) : Threads p' := by
  obtain ⟨http, grpc, worker, monitor⟩ := threads
  rw [← leaves.main] at http grpc worker monitor
  rw [← leaves.http] at http
  rw [← leaves.grpc] at grpc
  rw [← leaves.worker] at worker
  rw [← leaves.monitor] at monitor
  exact ⟨http, grpc, worker, monitor⟩

theorem shutdown_skipped (ran : p.shutdown deadline branch call = some (p', .skipped)) :
    p'.stopped = true := by
  cases call with
  | enter =>
    simp only [Process.shutdown] at ran
    split at ran <;> cases ran
    assumption
  | finished errs | skipped => cases ran
  | waitMaintenance | waitStop | waitServe errs =>
    simp only [Process.shutdown] at ran
    split at ran <;> cases ran
  | selectStopped | waitHTTP errs =>
    simp only [Process.shutdown] at ran
    split at ran <;> split at ran <;> cases ran
  | _ => cases ran

theorem shutdown_stopped (ran : p.shutdown deadline branch .enter = some (p', call')) :
    p'.stopped = true := by
  simp only [Process.shutdown] at ran
  split at ran <;> cases ran
  · assumption
  · rfl

end Shutdown

/-! ## Every step keeps the order -/

def Loop.reports (loop : Loop) : Nat := if loop = .exited then 1 else 0

/-- The error of the server waits in the channel, or somebody has received it and has not passed it
    on to `Shutdown`. -/
def Process.alarmed {G H : NetServer} (p : Process G H) (part : Part) : Prop :=
  part ∈ p.serveErrs ∨ p.monitor = .received part ∨ p.monitor = .stopping part .enter ∨
    p.main = .stopping (.crash part) .enter

structure Orderly {G H : NetServer} (p : Process G H) : Prop where
  exclusive : p.main.stage = 0 ∨ p.monitor.stage = 0
  staged : Staged p p.stage
  threads : Threads p
  starting : p.main = .starting → p.started = false
  reports : p.serveErrs.length ≤ p.http.reports + p.grpc.reports
  lost : p.lost = false
  noticed : p.stopped = false →
    (p.http = .exited → p.alarmed .http) ∧ (p.grpc = .exited → p.alarmed .grpc)

section Steps

variable {G H : NetServer} {p p' : Process G H} {branch : Branch}

theorem orderly_new : Orderly (Process.new G H) where
  exclusive := Or.inl rfl
  staged := by
    refine ⟨rfl, ?_, ?_, ?_, ?_⟩
    all_goals simp [Process.new, Process.stage, Main.stage, Monitor.stage]
  threads := by constructor <;> simp [Process.new, Main.launches]
  starting _ := rfl
  reports := Nat.zero_le _
  lost := rfl
  noticed _ := by constructor <;> intro gone <;> cases gone

theorem orderly_worker {worker : Worker} (orderly : Orderly p)
    (ran : p.retain branch p.worker = some worker) :
    Orderly { p with worker } := by
  obtain ⟨exclusive, staged, threads, starting, reports, lost, noticed⟩ := orderly
  have moved : p.worker ≠ .idle ∧ p.worker ≠ .exited ∧ worker ≠ .idle := by
    unfold Process.retain at ran
    split at ran
    · cases ran; simp_all
    · split at ran
      · split at ran <;> cases ran; simp_all
      · cases ran; simp_all
    · cases ran
  refine ⟨exclusive, { staged with worker := fun late => absurd (staged.worker late) moved.2.1 },
    ?_, starting, reports, lost, noticed⟩
  exact { threads with worker := by simpa [moved.2.2] using threads.worker.not.mp moved.1 }

theorem orderly_graceful {graceful : Graceful} (orderly : Orderly p)
    (ran : p.stopGracefully p.graceful = some (p', graceful)) :
    Orderly { p' with graceful } := by
  obtain ⟨exclusive, staged, threads, starting, reports, lost, noticed⟩ := orderly
  have launched :
      ∀ {graceful : Graceful},
        p.graceful ≠ .idle → graceful ≠ .idle → (graceful = .idle ↔ p.stage < 6) := by
    intro graceful before after
    simpa [after] using staged.graceful.not.mp before
  unfold Process.stopGracefully at ran
  split at ran
  next here =>
    cases ran
    exact ⟨exclusive, { staged with graceful := launched (by simp [here]) (by simp) },
      { threads with }, starting, reports, lost, noticed⟩
  next here =>
    split at ran <;> cases ran
    exact ⟨exclusive, { staged with graceful := launched (by simp [here]) (by simp) },
      { threads with }, starting, reports, lost, noticed⟩
  · cases ran

/-! ### The serving loops -/

/-- What a step of the loop of one server may do: it looks at the broker, calls its server, clears
    the readiness or puts its error into the channel, and then it is done. -/
structure LoopMoves (part : Part) (p p' : Process G H) (loop loop' : Loop) : Prop where
  frame : p' = { p with
    grpcServer := p'.grpcServer
    httpServer := p'.httpServer
    ready := p'.ready
    serving := p'.serving
    grpcListener := p'.grpcListener
    serveErrs := p'.serveErrs }
  ready : p'.ready = true → p.ready = true
  before : loop ≠ .idle ∧ loop ≠ .exited
  after : loop' ≠ .idle
  errs : p'.serveErrs = p.serveErrs ∧ (loop' = .exited → p.stopped = true) ∨
    p'.serveErrs = p.serveErrs ++ [part] ∧ loop' = .exited

theorem report_moves {part : Part} {loop loop' : Loop} (few : p.serveErrs.length < 2)
    (ran : p.report part loop = some (p', loop')) : LoopMoves part p p' loop loop' := by
  cases loop with
  | returned =>
    cases ran
    refine ⟨rfl, fun on => on, by simp, ?_, Or.inl ⟨rfl, ?_⟩⟩ <;> split <;> simp_all
  | crashed =>
    cases ran
    exact ⟨rfl, by simp, by simp, by simp, Or.inl ⟨rfl, by simp⟩⟩
  | reporting =>
    simp only [Process.report, few, if_true] at ran
    cases ran
    exact ⟨rfl, fun on => on, by simp, by simp, Or.inr ⟨rfl, rfl⟩⟩
  | _ => cases ran

theorem serveHTTP_moves {loop loop' : Loop} (few : p.serveErrs.length < 2)
    (ran : p.serveHTTP loop = some (p', loop')) : LoopMoves .http p p' loop loop' := by
  cases loop with
  | launched =>
    simp only [Process.serveHTTP] at ran
    split at ran <;> cases ran <;>
      exact ⟨rfl, fun on => on, by simp, by simp, Or.inl ⟨rfl, by simp⟩⟩
  | serving =>
    simp only [Process.serveHTTP] at ran
    split at ran <;> cases ran
    exact ⟨rfl, fun on => on, by simp, by simp, Or.inl ⟨rfl, by simp⟩⟩
  | _ => exact report_moves few ran

theorem serveGRPC_moves {loop loop' : Loop} (few : p.serveErrs.length < 2)
    (ran : p.serveGRPC loop = some (p', loop')) : LoopMoves .grpc p p' loop loop' := by
  cases loop with
  | launched =>
    simp only [Process.serveGRPC] at ran
    split at ran <;> cases ran <;>
      exact ⟨rfl, fun on => on, by simp, by simp, Or.inl ⟨rfl, by simp⟩⟩
  | serving =>
    simp only [Process.serveGRPC] at ran
    split at ran <;> cases ran
    exact ⟨rfl, fun on => on, by simp, by simp, Or.inl ⟨rfl, by simp⟩⟩
  | _ => exact report_moves few ran

theorem Loop.reports_le (loop : Loop) : loop.reports ≤ 1 := by
  unfold Loop.reports
  split <;> decide

/-- The channel takes both loops' errors. -/
theorem room_of_reports {loop other : Loop} {errs : List Part}
    (reports : errs.length ≤ loop.reports + other.reports) (alive : loop ≠ .exited) :
    errs.length < 2 := by
  have others := other.reports_le
  rw [Loop.reports, if_neg alive] at reports
  omega

theorem Orderly.http_moves {loop : Loop} (orderly : Orderly p)
    (ran : p.serveHTTP p.http = some (p', loop)) :
    LoopMoves .http p p' p.http loop := by
  refine serveHTTP_moves (room_of_reports orderly.reports fun gone => ?_) ran
  rw [gone] at ran
  cases ran

theorem Orderly.grpc_moves {loop : Loop} (orderly : Orderly p)
    (ran : p.serveGRPC p.grpc = some (p', loop)) :
    LoopMoves .grpc p p' p.grpc loop := by
  have reports := orderly.reports
  rw [Nat.add_comm] at reports
  refine serveGRPC_moves (room_of_reports reports fun gone => ?_) ran
  rw [gone] at ran
  cases ran

theorem LoopMoves.reports {part : Part} {loop loop' : Loop} {other : Nat}
    (moves : LoopMoves part p p' loop loop') (reports : p.serveErrs.length ≤ loop.reports + other) :
    p'.serveErrs.length ≤ loop'.reports + other := by
  have count : loop.reports = 0 := if_neg moves.before.2
  rcases moves.errs with ⟨same, _⟩ | ⟨more, rfl⟩
  · rw [same]
    omega
  · have one : Loop.exited.reports = 1 := rfl
    rw [more, List.length_append, List.length_singleton]
    omega

theorem LoopMoves.alarms {part : Part} {loop loop' : Loop} (moves : LoopMoves part p p' loop loop')
    (running : p.stopped = false) :
    (loop' = .exited → p'.alarmed part) ∧ ∀ other, p.alarmed other → p'.alarmed other := by
  obtain ⟨frame, _, _, _, errs⟩ := moves
  have main : p'.main = p.main := by rw [frame]
  have monitor : p'.monitor = p.monitor := by rw [frame]
  unfold Process.alarmed
  rw [main, monitor]
  rcases errs with ⟨same, stopped⟩ | ⟨more, _⟩
  · rw [same]
    refine ⟨fun gone => ?_, fun other known => known⟩
    rw [stopped gone] at running
    cases running
  · rw [more]
    exact ⟨fun _ => Or.inl (by simp),
      fun other known => known.imp_left fun there => List.mem_append_left _ there⟩

theorem orderly_http {loop : Loop} (orderly : Orderly p)
    (ran : p.serveHTTP p.http = some (p', loop)) :
    Orderly { p' with http := loop } := by
  have moves := orderly.http_moves ran
  obtain ⟨exclusive, staged, threads, starting, reports, lost, noticed⟩ := orderly
  have counted := moves.reports reports
  have alarms := moves.alarms
  obtain ⟨frame, ready, before, after, errs⟩ := moves
  generalize p'.grpcServer = gs, p'.httpServer = hs, p'.ready = r, p'.serving = s,
    p'.grpcListener = l, p'.serveErrs = e at frame ready errs counted
  subst frame
  refine ⟨exclusive, { staged with ready := ?_, loops := ?_ }, { threads with http := ?_ },
    starting, counted, lost, ?_⟩
  · exact fun on => staged.ready (ready on)
  · exact fun late => absurd (staged.loops late).1 before.2
  · simpa [after] using threads.http.not.mp before.1
  · intro (running : p.stopped = false)
    exact ⟨(alarms running).1, fun gone => (alarms running).2 _ ((noticed running).2 gone)⟩

theorem orderly_grpc {loop : Loop} (orderly : Orderly p)
    (ran : p.serveGRPC p.grpc = some (p', loop)) :
    Orderly { p' with grpc := loop } := by
  have moves := orderly.grpc_moves ran
  obtain ⟨exclusive, staged, threads, starting, reports, lost, noticed⟩ := orderly
  rw [Nat.add_comm] at reports
  have counted := moves.reports reports
  rw [Nat.add_comm] at counted
  have alarms := moves.alarms
  obtain ⟨frame, ready, before, after, errs⟩ := moves
  generalize p'.grpcServer = gs, p'.httpServer = hs, p'.ready = r, p'.serving = s,
    p'.grpcListener = l, p'.serveErrs = e at frame ready errs counted
  subst frame
  refine ⟨exclusive, { staged with ready := ?_, loops := ?_ }, { threads with grpc := ?_ },
    starting, counted, lost, ?_⟩
  · exact fun on => staged.ready (ready on)
  · exact fun late => absurd (staged.loops late).2 before.2
  · simpa [after] using threads.grpc.not.mp before.1
  · intro (running : p.stopped = false)
    exact ⟨fun gone => (alarms running).2 _ ((noticed running).1 gone), (alarms running).1⟩

/-! ### The callers of `Shutdown` -/

theorem Orderly.stopped_of_cancelled (orderly : Orderly p) (cancelled : p.cancelled = true) :
    p.stopped = true := by
  have flags := orderly.staged.flags
  simp only [Process.flags, flagsAt, Flags.mk.injEq] at flags
  simp only [flags, decide_eq_true_eq] at cancelled ⊢
  omega

/-- Whoever calls `Shutdown` while the broker runs comes first. -/
theorem Orderly.first (orderly : Orderly p) (running : p.stopped = false) :
    p.main.stage = 0 ∧ p.monitor.stage = 0 := by
  have stopped : p.stopped = decide (0 < p.main.stage + p.monitor.stage) :=
    congrArg Flags.stopped orderly.staged.flags
  rw [running, eq_comm, decide_eq_false_iff_not] at stopped
  omega

theorem Orderly.monitor_moved {monitor : Monitor} {errs : List Part} (orderly : Orderly p)
    (before : p.monitor ≠ .idle ∧ p.monitor.stage = 0) (after : monitor ≠ .idle ∧ monitor.stage = 0)
    (fewer : errs.length ≤ p.serveErrs.length)
    (known : p.stopped = false →
      ∀ part, p.alarmed part → ({ p with serveErrs := errs, monitor } : Process G H).alarmed part) :
    Orderly { p with serveErrs := errs, monitor } := by
  have stage : p.stage = p.main.stage := by rw [Process.stage, before.2, Nat.add_zero]
  have stage' : ({ p with serveErrs := errs, monitor } : Process G H).stage = p.main.stage := by
    rw [Process.stage, after.2, Nat.add_zero]
  have staged := stage ▸ orderly.staged
  refine ⟨Or.inr after.2, stage' ▸ { staged with }, { orderly.threads with monitor := ?_ },
    orderly.starting, Nat.le_trans fewer orderly.reports, orderly.lost, fun running => ?_⟩
  · simpa [after.1] using orderly.threads.monitor.not.mp before.1
  · exact ⟨fun gone => known running _ ((orderly.noticed running).1 gone),
      fun gone => known running _ ((orderly.noticed running).2 gone)⟩

/-- A step of `Shutdown` passes no alarm over but its own caller's, and that one only where the
    broker is marked stopped. -/
theorem Leaves.alarmed {part : Part} (leaves : Leaves p p') (known : p.alarmed part) :
    p'.alarmed part := by
  unfold Process.alarmed at known ⊢
  rwa [leaves.serveErrs, leaves.monitor, leaves.main]

theorem orderly_monitor {monitor : Monitor} (orderly : Orderly p)
    (ran : p.watch branch p.monitor = some (p', monitor)) :
    Orderly { p' with monitor } := by
  cases here : p.monitor with
  | idle | exited =>
    rw [here] at ran
    cases ran
  | selecting =>
    have before : p.monitor ≠ .idle ∧ p.monitor.stage = 0 := by simp [here, Monitor.stage]
    simp only [here, Process.watch] at ran
    split at ran
    next err rest got =>
      cases ran
      refine orderly.monitor_moved before (by simp [Monitor.stage]) (by simp [got])
        fun _ part known => ?_
      simp only [Process.alarmed, got, List.mem_cons, here] at known ⊢
      rcases known with (rfl | there) | there | there | there
      · exact Or.inr (Or.inl rfl)
      · exact Or.inl there
      · cases there
      · cases there
      · exact Or.inr (Or.inr (Or.inr there))
    · cases ran
    · split at ran <;> cases ran
      rename_i cancelled
      refine orderly.monitor_moved before (by simp [Monitor.stage]) (Nat.le_refl _)
        fun running => ?_
      have stopped := orderly.stopped_of_cancelled cancelled
      rw [running] at stopped
      cases stopped
  | received err =>
    have before : p.monitor ≠ .idle ∧ p.monitor.stage = 0 := by simp [here, Monitor.stage]
    simp only [here, Process.watch] at ran
    split at ran <;> cases ran <;> rename_i stopped
    · exact orderly.monitor_moved before (by simp [Monitor.stage]) (Nat.le_refl _)
        fun running => by simp_all
    · refine orderly.monitor_moved before (by simp [Monitor.stage, Stop.stage]) (Nat.le_refl _)
        fun _ part known => ?_
      simp only [Process.alarmed, here] at known ⊢
      rcases known with there | there | there | there
      · exact Or.inl there
      · cases there
        exact Or.inr (Or.inr (Or.inl rfl))
      · cases there
      · exact Or.inr (Or.inr (Or.inr there))
  | stopping err call =>
    simp only [here, Process.watch, Option.map_eq_some_iff] at ran
    obtain ⟨⟨q, call'⟩, ran, eq⟩ := ran
    cases eq
    obtain ⟨exclusive, staged, threads, starting, reports, lost, noticed⟩ := orderly
    have launched : 4 ≤ p.main.launches := by
      have idle := threads.monitor.not
      rw [here] at idle
      exact Nat.not_lt.mp (idle.mp (by simp))
    rw [here] at exclusive
    rw [Process.stage, here, Nat.add_comm] at staged
    have stage := shutdown_exclusive staged exclusive.symm threads (by omega) ran
    have leaves := shutdown_leaves ran
    have after := leaves.threads threads
    have main := leaves.main
    refine ⟨?_, ?_, { after with monitor := ?_ }, ?_, ?_, ?_, ?_⟩
    · rw [← main] at stage
      exact stage.2.symm
    · have staged' := stage.1
      rw [← main, Nat.add_comm] at staged'
      exact { staged' with }
    · show _ ↔ q.main.launches < 4
      rw [main]
      simp
      omega
    · intro early
      change q.main = _ at early
      rw [main] at early
      simp [early, Main.launches] at launched
    · show q.serveErrs.length ≤ q.http.reports + q.grpc.reports
      rw [leaves.serveErrs, leaves.http, leaves.grpc]
      exact reports
    · exact leaves.lost.trans lost
    · intro (running : q.stopped = false)
      have before : p.stopped = false :=
        Bool.eq_false_iff.mpr fun on => by simp [leaves.stopped on] at running
      -- the caller has not got past the first step, or the broker would be marked stopped
      have kept : ∀ part,
          p.alarmed part →
            ({ q with monitor := .stopping err call' } : Process G H).alarmed part := by
        intro part known
        rcases leaves.alarmed known with there | there | there | there
        · exact Or.inl there
        · cases (leaves.monitor.trans here).symm.trans there
        · cases (leaves.monitor.trans here).symm.trans there
          simp [shutdown_stopped ran] at running
        · exact Or.inr (Or.inr (Or.inr there))
      exact ⟨fun gone => kept _ ((noticed before).1 (leaves.http.symm.trans gone)),
        fun gone => kept _ ((noticed before).2 (leaves.grpc.symm.trans gone))⟩

/-- Before the monitor runs nobody has called `Shutdown`, and what the loops report waits in the
    channel. -/
theorem Orderly.quiet (orderly : Orderly p) (early : p.main.launches < 4)
    (before : p.main.stage = 0) (calm : ∀ err, p.main ≠ .stopping (.crash err) .enter) :
    Staged p 0 ∧ p.monitor = .idle ∧
      (p.http = .exited → .http ∈ p.serveErrs) ∧ (p.grpc = .exited → .grpc ∈ p.serveErrs) := by
  have idle := orderly.threads.monitor.mpr early
  have staged := orderly.staged
  rw [Process.stage, before, idle] at staged
  have running : p.stopped = false := congrArg Flags.stopped staged.flags
  have waits : ∀ part, p.alarmed part → part ∈ p.serveErrs := by
    intro part known
    rcases known with there | there | there | there
    · exact there
    · cases idle.symm.trans there
    · cases idle.symm.trans there
    · exact absurd there (calm part)
  exact ⟨staged, idle, fun gone => waits _ ((orderly.noticed running).1 gone),
    fun gone => waits _ ((orderly.noticed running).2 gone)⟩

theorem Staged.start {started ready httpListener grpcListener : Bool} {errs : List Part}
    {main : Main} {http grpc : Loop} {worker : Worker} {monitor : Monitor} (staged : Staged p 0)
    (lost : p.lost = false) (stage : main.stage = 0 ∧ monitor.stage = 0) (begun : main ≠ .starting)
    (loops : (http = .idle ↔ main.launches < 1) ∧ (grpc = .idle ↔ main.launches < 2))
    (others : (worker = .idle ↔ main.launches < 3) ∧ (monitor = .idle ↔ main.launches < 4))
    (reports : errs.length ≤ http.reports + grpc.reports)
    (noticed : (http = .exited → .http ∈ errs ∨ main = .stopping (.crash .http) .enter) ∧
      (grpc = .exited → .grpc ∈ errs ∨ main = .stopping (.crash .grpc) .enter)) :
    Orderly { p with
      started, ready, httpListener, grpcListener
      serveErrs := errs
      main, http, grpc, worker, monitor } := by
  have quiet : main.stage + monitor.stage = 0 := by rw [stage.1, stage.2]
  refine ⟨Or.inl stage.1, ?_, ⟨loops.1, loops.2, others.1, others.2⟩, fun here => absurd here begun,
    reports, lost, fun _ =>
    ⟨fun gone => (noticed.1 gone).imp_right fun here => Or.inr (Or.inr here),
      fun gone => (noticed.2 gone).imp_right fun here => Or.inr (Or.inr here)⟩⟩
  show Staged _ (main.stage + monitor.stage)
  rw [quiet]
  exact ⟨staged.flags, fun _ => Nat.zero_le 1, fun late => absurd late (by decide), staged.graceful,
    fun late => absurd late (by decide)⟩

theorem orderly_main {main : Main} (orderly : Orderly p)
    (ran : p.run branch p.main = some (p', main)) :
    Orderly { p' with main } := by
  cases here : p.main with
  | stopping cause call =>
    simp only [here, Process.run, Option.map_eq_some_iff] at ran
    obtain ⟨⟨q, call'⟩, ran, eq⟩ := ran
    cases eq
    obtain ⟨exclusive, staged, threads, starting, reports, lost, noticed⟩ := orderly
    have launched : 3 ≤ p.main.launches := by
      rw [here]
      cases cause <;> simp [Main.launches]
    have same : (Main.stopping cause call').launches = p.main.launches := by
      rw [here]
      cases cause <;> rfl
    rw [here] at exclusive
    rw [Process.stage, here] at staged
    have stage := shutdown_exclusive staged exclusive threads launched ran
    have leaves := shutdown_leaves ran
    have after := leaves.threads threads
    rw [← leaves.monitor] at stage
    refine ⟨stage.2, { stage.1 with }, ?_, by simp, ?_, leaves.lost.trans lost, ?_⟩
    · have counts : q.main.launches = (Main.stopping cause call').launches := by
        rw [leaves.main, same]
      obtain ⟨http, grpc, worker, monitor⟩ := after
      rw [counts] at http grpc worker monitor
      exact ⟨http, grpc, worker, monitor⟩
    · show q.serveErrs.length ≤ q.http.reports + q.grpc.reports
      rw [leaves.serveErrs, leaves.http, leaves.grpc]
      exact reports
    · intro (running : q.stopped = false)
      have before : p.stopped = false :=
        Bool.eq_false_iff.mpr fun on => by simp [leaves.stopped on] at running
      have kept : ∀ part,
          p.alarmed part →
            ({ q with main := .stopping cause call' } : Process G H).alarmed part := by
        intro part known
        rcases leaves.alarmed known with there | there | there | there
        · exact Or.inl there
        · exact Or.inr (Or.inl there)
        · exact Or.inr (Or.inr (Or.inl there))
        · cases (leaves.main.trans here).symm.trans there
          simp [shutdown_stopped ran] at running
      exact ⟨fun gone => kept _ ((noticed before).1 (leaves.http.symm.trans gone)),
        fun gone => kept _ ((noticed before).2 (leaves.grpc.symm.trans gone))⟩
  | notStarted | unexpected =>
    rw [here] at ran
    cases ran
  | waiting =>
    have calm : ∀ {main : Main},
        main.stage = 0 → main.launches = 4 → main ≠ .starting → Orderly { p with main } := by
      intro main stage launches begun
      obtain ⟨exclusive, staged, threads, starting, reports, lost, noticed⟩ := orderly
      obtain ⟨http, grpc, worker, monitor⟩ := threads
      have same : p.main.stage = main.stage := by rw [here, stage]; rfl
      have count : p.main.launches = main.launches := by rw [here, launches]; rfl
      rw [count] at http grpc worker monitor
      rw [Process.stage, same] at staged
      have kept : ∀ part, p.alarmed part → ({ p with main } : Process G H).alarmed part := by
        intro part known
        rcases known with there | there | there | there
        · exact Or.inl there
        · exact Or.inr (Or.inl there)
        · exact Or.inr (Or.inr (Or.inl there))
        · cases here.symm.trans there
      exact ⟨Or.inl stage, { staged with }, ⟨http, grpc, worker, monitor⟩,
        fun early => absurd early begun, reports, lost,
        fun running => ⟨fun gone => kept _ ((noticed running).1 gone),
            fun gone => kept _ ((noticed running).2 gone)⟩⟩
    rw [here] at ran
    simp only [Process.run] at ran
    split at ran
    · split at ran <;> cases ran
      exact calm rfl rfl (by simp)
    · cases ran
      exact calm rfl rfl (by simp)
  | _ =>
    obtain ⟨staged, idle, quiet⟩ :=
      orderly.quiet (by simp [here, Main.launches]) (by simp [here, Main.stage]) (by simp [here])
    have before := orderly.starting
    have reports := orderly.reports
    obtain ⟨http, grpc, worker, monitor⟩ := orderly.threads
    simp only [here, Main.launches] at ran http grpc worker monitor before
    simp only [Process.run] at ran
    repeat' split at ran
    all_goals try cases ran
    all_goals
      refine staged.start orderly.lost ⟨by rfl, ?_⟩ ?_ ⟨?_, ?_⟩ ⟨?_, ?_⟩ ?_ ?_
    -- the threads that were not launched are idle, and what was not launched has reported nothing
    all_goals try simp [Monitor.stage, idle, Main.launches]
    all_goals simp_all
    all_goals first | exact reports | omega | grind

theorem orderly_step {choice : Choice G H} (orderly : Orderly p) (ran : p.step choice = some p') :
    Orderly p' := by
  unfold Process.step at ran
  split at ran
  · cases ran
  cases choice with
  | main branch =>
    simp only [Option.map_eq_some_iff] at ran
    obtain ⟨⟨q, main⟩, ran, rfl⟩ := ran
    exact orderly_main orderly ran
  | http =>
    simp only [Option.map_eq_some_iff] at ran
    obtain ⟨⟨q, loop⟩, ran, rfl⟩ := ran
    exact orderly_http orderly ran
  | grpc =>
    simp only [Option.map_eq_some_iff] at ran
    obtain ⟨⟨q, loop⟩, ran, rfl⟩ := ran
    exact orderly_grpc orderly ran
  | worker branch =>
    simp only [Option.map_eq_some_iff] at ran
    obtain ⟨worker, ran, rfl⟩ := ran
    exact orderly_worker orderly ran
  | monitor branch =>
    simp only [Option.map_eq_some_iff] at ran
    obtain ⟨⟨q, monitor⟩, ran, rfl⟩ := ran
    exact orderly_monitor orderly ran
  | graceful =>
    simp only [Option.map_eq_some_iff] at ran
    obtain ⟨⟨q, graceful⟩, ran, rfl⟩ := ran
    exact orderly_graceful orderly ran
  | httpServer step | grpcServer step =>
    simp only [Option.map_eq_some_iff] at ran
    obtain ⟨server, ran, rfl⟩ := ran
    obtain ⟨exclusive, staged, threads, starting, reports, lost, noticed⟩ := orderly
    exact ⟨exclusive, { staged with }, { threads with }, starting, reports, lost, noticed⟩
  | expires =>
    dsimp only at ran
    split at ran <;> cases ran
    obtain ⟨exclusive, staged, threads, starting, reports, lost, noticed⟩ := orderly
    exact ⟨exclusive, { staged with }, { threads with }, starting, reports, lost, noticed⟩

end Steps

/-! ## What `Start` has done -/

structure Startup {G H : NetServer} (p : Process G H) : Prop where
  started : p.main ≠ .starting → p.main ≠ .notStarted → p.started = true
  ready : p.ready = true → 3 ≤ p.main.launches
  worker : p.worker = .exited → p.cancelled = true
  turned : ∀ cause, p.main = .stopping cause .skipped → p.stopped = true

section Startup

variable {G H : NetServer} {p p' : Process G H} {branch : Branch}

theorem startup_new : Startup (Process.new G H) where
  started begun := absurd rfl begun
  ready on := by cases on
  worker gone := by cases gone
  turned _ turn := by cases turn

theorem startup_loop {part : Part} {loop loop' http grpc : Loop} (startup : Startup p)
    (moves : LoopMoves part p p' loop loop') :
    Startup { p' with http, grpc } := by
  obtain ⟨started, ready, worker, turned⟩ := startup
  obtain ⟨frame, down, _⟩ := moves
  generalize p'.grpcServer = gs, p'.httpServer = hs, p'.ready = r, p'.serving = s,
    p'.grpcListener = l, p'.serveErrs = e at frame down
  subst frame
  exact ⟨started, fun on => ready (down on), worker, turned⟩

theorem startup_main {main : Main} (startup : Startup p)
    (ran : p.run branch p.main = some (p', main)) :
    Startup { p' with main } := by
  obtain ⟨started, ready, worker, turned⟩ := startup
  cases here : p.main with
  | stopping cause call =>
    simp only [here, Process.run, Option.map_eq_some_iff] at ran
    obtain ⟨⟨q, call'⟩, ran, eq⟩ := ran
    cases eq
    have leaves := shutdown_leaves ran
    have launched : 3 ≤ (Main.stopping cause call').launches := by
      cases cause <;> simp [Main.launches]
    refine ⟨fun _ _ => leaves.started.trans (started (by simp [here]) (by simp [here])),
      fun _ => launched, fun gone => leaves.cancelled (worker (leaves.worker.symm.trans gone)),
      fun cause' turn => ?_⟩
    cases turn
    exact (shutdown_skipped ran : q.stopped = true)
  | _ =>
    simp only [here, Main.launches, Process.run] at ran ready started
    repeat' split at ran
    all_goals try cases ran
    all_goals refine ⟨?_, ?_, ?_, ?_⟩
    all_goals simp_all [Main.launches]

theorem startup_monitor {monitor : Monitor} (startup : Startup p)
    (ran : p.watch branch p.monitor = some (p', monitor)) :
    Startup { p' with monitor } := by
  obtain ⟨started, ready, worker, turned⟩ := startup
  cases here : p.monitor with
  | stopping err call =>
    simp only [here, Process.watch, Option.map_eq_some_iff] at ran
    obtain ⟨⟨q, call'⟩, ran, eq⟩ := ran
    cases eq
    have leaves := shutdown_leaves ran
    rw [← leaves.main] at started ready turned
    rw [← leaves.started] at started
    exact ⟨started, fun on => ready (leaves.ready on),
      fun gone => leaves.cancelled (worker (leaves.worker.symm.trans gone)),
      fun cause turn => leaves.stopped (turned cause turn)⟩
  | _ =>
    simp only [here, Process.watch] at ran
    repeat' split at ran
    all_goals cases ran
    all_goals exact ⟨started, ready, worker, turned⟩

theorem startup_step {choice : Choice G H} (orderly : Orderly p) (startup : Startup p)
    (ran : p.step choice = some p') :
    Startup p' := by
  unfold Process.step at ran
  split at ran
  · cases ran
  cases choice with
  | main branch =>
    simp only [Option.map_eq_some_iff] at ran
    obtain ⟨⟨q, main⟩, ran, rfl⟩ := ran
    exact startup_main startup ran
  | http =>
    simp only [Option.map_eq_some_iff] at ran
    obtain ⟨⟨q, loop⟩, ran, rfl⟩ := ran
    exact startup_loop startup (orderly.http_moves ran)
  | grpc =>
    simp only [Option.map_eq_some_iff] at ran
    obtain ⟨⟨q, loop⟩, ran, rfl⟩ := ran
    exact startup_loop startup (orderly.grpc_moves ran)
  | worker branch =>
    simp only [Option.map_eq_some_iff] at ran
    obtain ⟨worker, ran, rfl⟩ := ran
    refine ⟨startup.started, startup.ready, ?_, startup.turned⟩
    rintro rfl
    unfold Process.retain at ran
    repeat' split at ran
    all_goals cases ran
    assumption
  | monitor branch =>
    simp only [Option.map_eq_some_iff] at ran
    obtain ⟨⟨q, monitor⟩, ran, rfl⟩ := ran
    exact startup_monitor startup ran
  | graceful =>
    simp only [Option.map_eq_some_iff] at ran
    obtain ⟨⟨q, graceful⟩, ran, rfl⟩ := ran
    unfold Process.stopGracefully at ran
    repeat' split at ran
    all_goals cases ran
    all_goals exact ⟨startup.started, startup.ready, startup.worker, startup.turned⟩
  | httpServer step | grpcServer step =>
    simp only [Option.map_eq_some_iff] at ran
    obtain ⟨server, ran, rfl⟩ := ran
    exact ⟨startup.started, startup.ready, startup.worker, startup.turned⟩
  | expires =>
    dsimp only at ran
    split at ran <;> cases ran
    exact ⟨startup.started, startup.ready, startup.worker, startup.turned⟩

end Startup

end MessageBroker.Broker.Lifecycle
