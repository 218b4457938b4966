import MessageBroker.Broker.Schedules
import Mathlib.Logic.Relation

namespace MessageBroker.Broker.Lifecycle

open Runs Servers

/-! ## A shutdown can be brought to its end -/

section Progress

variable {G H : NetServer} {p p' p'' : Process G H}

def Process.Moves (p p' : Process G H) : Prop := ∃ choice, p.step choice = some p'

/-- Some schedule leads from one process to the other without a step of the two callers of
    `Shutdown`. -/
structure Process.Waits (p p' : Process G H) : Prop where
  reaches : Relation.ReflTransGen Process.Moves p p'
  main : p'.main = p.main
  monitor : p'.monitor = p.monitor

theorem Process.Waits.refl : p.Waits p := ⟨.refl, rfl, rfl⟩

theorem Process.Waits.trans (first : p.Waits p') (second : p'.Waits p'') : p.Waits p'' :=
  ⟨first.reaches.trans second.reaches, second.main.trans first.main,
    second.monitor.trans first.monitor⟩

theorem Process.Waits.one (choice : Choice G H) (ran : p.step choice = some p')
    (main : p'.main = p.main) (monitor : p'.monitor = p.monitor) : p.Waits p' :=
  ⟨.single ⟨choice, ran⟩, main, monitor⟩

theorem Process.Waits.stage (waits : p.Waits p') : p'.stage = p.stage := by
  rw [Process.stage, waits.main, waits.monitor, Process.stage]

/-- A shutdown behind the first step of its call, in a process that is still there. -/
structure Ongoing (p : Process G H) (stage : Nat) : Prop where
  orderly : Orderly p
  told : Told p p.stage
  alive : p.main.result = none
  late : stage ≤ p.stage

theorem told_reaches (reaches : Relation.ReflTransGen Process.Moves p p') (orderly : Orderly p)
    (told : Told p p.stage) :
    Orderly p' ∧ Told p' p'.stage := by
  induction reaches with
  | refl => exact ⟨orderly, told⟩
  | tail _ moves ih =>
    obtain ⟨choice, ran⟩ := moves
    exact ⟨orderly_step ih.1 ran, told_step ih.1 ih.2 ran⟩

theorem Ongoing.waits {stage : Nat} (ongoing : Ongoing p stage) (waits : p.Waits p') :
    Ongoing p' stage where
  orderly := (told_reaches waits.reaches ongoing.orderly ongoing.told).1
  told := (told_reaches waits.reaches ongoing.orderly ongoing.told).2
  alive := waits.main ▸ ongoing.alive
  late := waits.stage ▸ ongoing.late

theorem grpcServer_moves {server : G.State} (alive : p.main.result = none)
    (moves : Relation.ReflTransGen G.Moves p.grpcServer server) :
    p.Waits { p with grpcServer := server } := by
  induction moves with
  | refl => exact .refl
  | tail _ moves ih =>
    obtain ⟨step, ran⟩ := moves
    exact ih.trans (.one (.grpcServer step) (by simp [Process.step, alive, ran]) rfl rfl)

theorem httpServer_moves {server : H.State} (alive : p.main.result = none)
    (moves : Relation.ReflTransGen H.Moves p.httpServer server) :
    p.Waits { p with httpServer := server } := by
  induction moves with
  | refl => exact .refl
  | tail _ moves ih =>
    obtain ⟨step, ran⟩ := moves
    exact ih.trans (.one (.httpServer step) (by simp [Process.step, alive, ran]) rfl rfl)

theorem worker_leaves (ongoing : Ongoing p 3) : ∃ p', p.Waits p' ∧ p'.worker.busy = false := by
  have cancelled := ongoing.orderly.traces.2.1.mpr ongoing.late
  have leaves : ∀ {p : Process G H},
      p.main.result = none → p.cancelled = true → p.worker = .selecting →
      p.Waits { p with worker := .exited } := by
    intro p alive cancelled here
    exact .one (.worker .first) (by simp [Process.step, alive, here, Process.retain, cancelled]) rfl
      rfl
  cases here : p.worker with
  | idle => exact ⟨p, .refl, by simp [here, Worker.busy]⟩
  | exited => exact ⟨p, .refl, by simp [here, Worker.busy]⟩
  | selecting => exact ⟨_, leaves ongoing.alive cancelled here, rfl⟩
  | retaining =>
    have first : p.Waits { p with worker := .selecting } :=
      .one (.worker .first) (by simp [Process.step, ongoing.alive, here, Process.retain]) rfl rfl
    exact ⟨_, first.trans (leaves ongoing.alive cancelled rfl), rfl⟩

theorem graceful_finishes (stops : G.Stops) (ongoing : Ongoing p 6) :
    ∃ p', p.Waits p' ∧ p'.graceful = .finished := by
  have launched : p.graceful ≠ .idle :=
    fun idle => absurd (ongoing.orderly.staged.graceful.mp idle) (Nat.not_lt.mpr ongoing.late)
  have finishes :
      ∀ {p : Process G H},
        Ongoing p 6 → p.graceful = .draining → ∃ p', p.Waits p' ∧ p'.graceful = .finished := by
    intro p ongoing here
    obtain ⟨⟨c, grpc⟩, _⟩ := ongoing.told
    obtain ⟨server, moves, returned⟩ := stops.drain c _ grpc.reaches (grpc.draining (Or.inl here))
    have last : ({ p with grpcServer := server } : Process G H).Waits
      { p with grpcServer := server, graceful := .finished } :=
      .one .graceful (by simp [Process.step, ongoing.alive, here, Process.stopGracefully, returned])
        rfl rfl
    exact ⟨_, (grpcServer_moves ongoing.alive moves).trans last, rfl⟩
  cases here : p.graceful with
  | idle => exact absurd here launched
  | finished => exact ⟨p, .refl, here⟩
  | draining => exact finishes ongoing here
  | launched =>
    have first : p.Waits { p with grpcServer := G.drain p.grpcServer, graceful := .draining } :=
      .one .graceful (by simp [Process.step, ongoing.alive, here, Process.stopGracefully]) rfl rfl
    obtain ⟨p', second, done⟩ := finishes (ongoing.waits first) rfl
    exact ⟨p', first.trans second, done⟩

/-! ## The loops -/

def Loop.rank : Loop → Nat
  | .idle | .exited => 0
  | .reporting => 1
  | .crashed => 2
  | .returned => 3
  | .serving => 4
  | .launched => 5

theorem Loop.rests_of_rank {loop : Loop} (ended : loop.rank = 0) : loop.busy = false := by
  cases loop <;> simp_all [Loop.rank, Loop.busy]

theorem report_advances (part : Part) {loop : Loop}
    (left : loop = .returned ∨ loop = .crashed ∨ loop = .reporting) :
    ∃ q loop', p.report part loop = some (q, loop') ∧ loop'.rank < loop.rank := by
  rcases left with rfl | rfl | rfl
  · refine ⟨_, _, rfl, ?_⟩
    split <;> decide
  · exact ⟨_, _, rfl, by decide⟩
  · by_cases room : p.serveErrs.length < 2
    · exact ⟨_, .exited, if_pos room, by decide⟩
    · exact ⟨_, .exited, if_neg room, by decide⟩

theorem http_moves (ongoing : Ongoing p 12) {q : Process G H} {loop : Loop}
    (ran : p.serveHTTP p.http = some (q, loop)) :
    p.Waits { q with http := loop } ∧ q.grpc = p.grpc := by
  have frame := (ongoing.orderly.http_moves ran).frame
  refine ⟨.one .http (by simp [Process.step, ongoing.alive, ran]) ?_ ?_, ?_⟩ <;> rw [frame]

theorem grpc_moves (ongoing : Ongoing p 12) {q : Process G H} {loop : Loop}
    (ran : p.serveGRPC p.grpc = some (q, loop)) :
    p.Waits { q with grpc := loop } ∧ q.http = p.http := by
  have frame := (ongoing.orderly.grpc_moves ran).frame
  refine ⟨.one .grpc (by simp [Process.step, ongoing.alive, ran]) ?_ ?_, ?_⟩ <;> rw [frame]

/-- Each loop gets nearer to its end and leaves the other one alone; in `Serve` it first waits for
    its server. -/
theorem http_advances (stops : H.Stops) (ongoing : Ongoing p 12) (busy : p.http.busy = true) :
    ∃ p', p.Waits p' ∧ p'.http.rank < p.http.rank ∧ p'.grpc = p.grpc := by
  have behind : p.http = .returned ∨ p.http = .crashed ∨ p.http = .reporting →
      p.serveHTTP p.http = p.report .http p.http := by
    rintro (here | here | here) <;> rw [here] <;> rfl
  cases here : p.http with
  | idle | exited => simp [here, Loop.busy] at busy
  | launched =>
    have ran : ∃ q loop, p.serveHTTP p.http = some (q, loop) ∧ loop.rank < 5 := by
      rw [here]
      cases listener : p.httpListener
      · exact ⟨p, .returned, if_neg (by simp [listener]), by decide⟩
      · exact ⟨_, .serving, if_pos listener, by decide⟩
    obtain ⟨q, loop, ran, nearer⟩ := ran
    exact ⟨_, (http_moves ongoing ran).1, nearer, (http_moves ongoing ran).2⟩
  | serving =>
    obtain ⟨_, d, http⟩ := ongoing.told
    have draining := http.draining (Nat.le_trans (by decide) ongoing.late)
    obtain ⟨server, moves, returned⟩ :=
      stops.serve d _ http.reaches (http.served here) (Or.inl draining)
    have first := httpServer_moves ongoing.alive moves
    have last : ({ p with httpServer := server } : Process G H).Waits
      { p with httpServer := server, http := .returned } :=
      .one .http (by simp [Process.step, ongoing.alive, here, Process.serveHTTP, returned]) rfl rfl
    exact ⟨_, first.trans last, by simp [Loop.rank], rfl⟩
  | returned | crashed | reporting =>
    obtain ⟨q, loop, ran, nearer⟩ := @report_advances _ _ p .http p.http (by simp [here])
    have moves := http_moves ongoing ((behind (by simp [here])).trans ran)
    exact ⟨_, moves.1, here ▸ nearer, moves.2⟩

theorem grpc_advances (stops : G.Stops) (ongoing : Ongoing p 12) (busy : p.grpc.busy = true) :
    ∃ p', p.Waits p' ∧ p'.grpc.rank < p.grpc.rank ∧ p'.http = p.http := by
  have behind : p.grpc = .returned ∨ p.grpc = .crashed ∨ p.grpc = .reporting →
      p.serveGRPC p.grpc = p.report .grpc p.grpc := by
    rintro (here | here | here) <;> rw [here] <;> rfl
  cases here : p.grpc with
  | idle | exited => simp [here, Loop.busy] at busy
  | launched =>
    have ran : ∃ q loop, p.serveGRPC p.grpc = some (q, loop) ∧ loop.rank < 5 := by
      rw [here]
      cases listener : p.grpcListener
      · exact ⟨p, .returned, if_neg (by simp [listener]), by decide⟩
      · exact ⟨_, .serving, if_pos listener, by decide⟩
    obtain ⟨q, loop, ran, nearer⟩ := ran
    exact ⟨_, (grpc_moves ongoing ran).1, nearer, (grpc_moves ongoing ran).2⟩
  | serving =>
    obtain ⟨⟨c, grpc⟩, _⟩ := ongoing.told
    have quit := grpc.quit (Nat.le_trans (by decide) ongoing.late)
    obtain ⟨server, moves, returned⟩ :=
      stops.serve c _ grpc.reaches (grpc.served here)
        (quit.imp (fun both => both.1) fun both => both.1)
    have first := grpcServer_moves ongoing.alive moves
    have last : ({ p with grpcServer := server } : Process G H).Waits
        { p with grpcServer := server, grpcListener := false, grpc := .returned } :=
      .one .grpc (by simp [Process.step, ongoing.alive, here, Process.serveGRPC, returned]) rfl rfl
    exact ⟨_, first.trans last, by simp [Loop.rank], rfl⟩
  | returned | crashed | reporting =>
    obtain ⟨q, loop, ran, nearer⟩ := @report_advances _ _ p .grpc p.grpc (by simp [here])
    have moves := grpc_moves ongoing ((behind (by simp [here])).trans ran)
    exact ⟨_, moves.1, here ▸ nearer, moves.2⟩

theorem loop_leaves (loop other : Process G H → Loop)
    (advances : ∀ {p : Process G H}, Ongoing p 12 → (loop p).busy = true →
      ∃ p', p.Waits p' ∧ (loop p').rank < (loop p).rank ∧ other p' = other p) (rank : Nat) :
    ∀ {p : Process G H},
      (loop p).rank ≤ rank →
        Ongoing p 12 → ∃ p', p.Waits p' ∧ (loop p').busy = false ∧ other p' = other p := by
  induction rank with
  | zero => exact fun {p} near _ => ⟨p, .refl, Loop.rests_of_rank (Nat.le_zero.mp near), rfl⟩
  | succ rank ih =>
    intro p near ongoing
    cases busy : (loop p).busy with
    | false => exact ⟨p, .refl, busy, rfl⟩
    | true =>
      obtain ⟨p', first, nearer, same⟩ := advances ongoing busy
      obtain ⟨p'', second, done, same'⟩ :=
        ih (Nat.le_of_lt_succ (Nat.lt_of_lt_of_le nearer near)) (ongoing.waits first)
      exact ⟨p'', first.trans second, done, same'.trans same⟩

theorem loops_leave (grpc : G.Stops) (http : H.Stops) (ongoing : Ongoing p 12) :
    ∃ p', p.Waits p' ∧ p'.http.busy = false ∧ p'.grpc.busy = false := by
  obtain ⟨p', first, ended, _⟩ :=
    loop_leaves Process.http Process.grpc (http_advances http) _ (Nat.le_refl _) ongoing
  obtain ⟨p'', second, ended', same⟩ :=
    loop_leaves Process.grpc Process.http (grpc_advances grpc) _ (Nat.le_refl _)
      (ongoing.waits first)
  exact ⟨p'', first.trans second, same ▸ ended, ended'⟩

/-! ## The call -/

/-- Whatever a call of `Shutdown` waits for happens without it. -/
theorem shutdown_unblocks {deadline : Bool} {call : Stop} (grpc : G.Stops) (http : H.Stops)
    (ongoing : Ongoing p call.stage) (same : p.stage = call.stage) (begun : 0 < call.stage)
    (unfinished : call.stage < 16) :
    ∃ p' q call', p.Waits p' ∧ p'.shutdown deadline .first call = some (q, call') ∧
      call.stage < call'.stage := by
  cases call with
  | enter | skipped => simp [Stop.stage] at begun
  | finished errs => simp [Stop.stage] at unfinished
  | waitMaintenance =>
    obtain ⟨p', waits, rests⟩ := worker_leaves ongoing
    exact ⟨p', p', .markNotServing, waits, if_neg (by simp [rests]), by decide⟩
  | selectStopped =>
    obtain ⟨p', waits, finished⟩ := graceful_finishes grpc ongoing
    exact ⟨p', p', .cleanup [], waits, if_pos finished, by simp [Stop.stage]⟩
  | waitStop =>
    obtain ⟨⟨c, told⟩, _⟩ := ongoing.told
    obtain ⟨server, moves, returned⟩ :=
      grpc.kill c _ told.reaches (told.killing.mpr (told.forced same))
    exact ⟨_, _, .cleanup [.grpc], grpcServer_moves ongoing.alive moves,
      if_pos returned, by simp [Stop.stage]⟩
  | waitHTTP errs =>
    obtain ⟨_, d, told⟩ := ongoing.told
    obtain ⟨server, moves, returned⟩ := http.drain d _ told.reaches (told.draining ongoing.late)
    exact ⟨_, _, .waitServe errs, httpServer_moves ongoing.alive moves,
      if_pos returned, by simp [Stop.stage]⟩
  | waitServe errs =>
    obtain ⟨p', waits, http, grpc⟩ := loops_leave grpc http ongoing
    exact ⟨p', p', .closeOffsets errs, waits, if_neg (by simp [http, grpc]), by simp [Stop.stage]⟩
  | _ => exact ⟨p, _, _, .refl, rfl, by simp [Stop.stage]⟩

theorem result_of_stage {main : Main} (begun : 0 < main.stage) (unfinished : main.stage < 16) :
    main.result = none := by
  cases main with
  | stopping cause call =>
    cases cause <;> cases call <;> simp_all [Main.stage, Stop.stage, Main.result]
  | _ => cases begun

theorem stage_advances (grpc : G.Stops) (http : H.Stops) (ongoing : Ongoing p 1)
    (unfinished : p.stage < 16) :
    ∃ p', Relation.ReflTransGen Process.Moves p p' ∧
      p.stage < p'.stage ∧ (p'.stage < 16 → p'.main.result = none) := by
  have late := ongoing.late
  rcases ongoing.orderly.exclusive with other | other
  · have stage : p.stage = p.monitor.stage := by rw [Process.stage, other, Nat.zero_add]
    cases here : p.monitor with
    | stopping err call =>
      have same : p.stage = call.stage := by rw [stage, here]; rfl
      obtain ⟨p', q, call', waits, ran, further⟩ :=
        @shutdown_unblocks _ _ p false call grpc http ⟨ongoing.orderly, ongoing.told, ongoing.alive,
          Nat.le_of_eq same.symm⟩ same
          (by omega) (by omega)
      have main := (shutdown_leaves ran).main.trans waits.main
      refine ⟨{ q with monitor := .stopping err call' }, waits.reaches.tail ⟨.monitor .first, ?_⟩,
        ?_, ?_⟩
      · simp [Process.step, waits.main, ongoing.alive, waits.monitor, here, Process.watch, ran]
      · show p.stage < q.main.stage + call'.stage
        omega
      · intro _
        show q.main.result = none
        rw [main]
        exact ongoing.alive
    | _ =>
      rw [stage, here] at late
      cases late
  · have stage : p.stage = p.main.stage := by rw [Process.stage, other, Nat.add_zero]
    cases here : p.main with
    | stopping cause call =>
      have same : p.stage = call.stage := by rw [stage, here]; rfl
      obtain ⟨p', q, call', waits, ran, further⟩ :=
        @shutdown_unblocks _ _ p (cause = .signal) call grpc http ⟨ongoing.orderly, ongoing.told,
          ongoing.alive, Nat.le_of_eq same.symm⟩
          same (by omega) (by omega)
      refine ⟨{ q with main := .stopping cause call' }, waits.reaches.tail ⟨.main .first, ?_⟩, ?_,
        ?_⟩
      · have alive := ongoing.alive
        rw [here] at alive
        simp [Process.step, waits.main, here, alive, Process.run, ran]
      · show p.stage < call'.stage + q.monitor.stage
        omega
      · intro early
        exact result_of_stage (Nat.lt_of_le_of_lt (Nat.zero_le _) further)
          (Nat.lt_of_le_of_lt (Nat.le_add_right _ _) early)
    | _ =>
      rw [stage, here] at late
      cases late

theorem shutdown_finishes (grpc : G.Stops) (http : H.Stops) (steps : Nat) :
    ∀ {p : Process G H}, 16 - p.stage ≤ steps → Ongoing p 1 →
    ∃ p', Relation.ReflTransGen Process.Moves p p' ∧ 16 ≤ p'.stage := by
  induction steps with
  | zero => exact fun {p} near _ => ⟨p, .refl, by omega⟩
  | succ steps ih =>
    intro p near ongoing
    by_cases unfinished : p.stage < 16
    · obtain ⟨p', reaches, further, alive⟩ := stage_advances grpc http ongoing unfinished
      by_cases more : p'.stage < 16
      · have late := ongoing.late
        have known := told_reaches reaches ongoing.orderly ongoing.told
        obtain ⟨p'', rest, done⟩ := ih (by omega) ⟨known.1, known.2, alive more, by omega⟩
        exact ⟨p'', reaches.trans rest, done⟩
      · exact ⟨p', reaches, by omega⟩
    · exact ⟨p, .refl, by omega⟩

theorem run_reaches {past : List (ProcessEvent G H)} (run : ProcessRun G H past p)
    (reaches : Relation.ReflTransGen Process.Moves p p') :
    ∃ more, ProcessRun G H (past ++ more) p' := by
  induction reaches with
  | refl => exact ⟨[], by rwa [List.append_nil]⟩
  | tail _ moves ih =>
    obtain ⟨more, run⟩ := ih
    obtain ⟨choice, ran⟩ := moves
    have next := @Run.next _ _ _ _ _ _ _ _ choice _ _ run trivial (by rw [Process.perform, ran])
    exact ⟨_, by rwa [List.append_assoc] at next⟩

/-- Wherever a `Shutdown` has come to, it can still close the stores as long as the process is there
    and the two servers let their own stops come to an end. -/
theorem shutdown_completes {past : List (ProcessEvent G H)} (grpc : G.Stops) (http : H.Stops)
    (run : ProcessRun G H past p) (stopped : p.stopped = true) (alive : p.main.result = none) :
    ∃ more p', ProcessRun G H (past ++ more) p' ∧
      p'.offsetsClosed = true ∧ p'.topicsClosed = true ∧ p'.doneClosings = 1 := by
  obtain ⟨orderly, _, told⟩ := orderly_run run
  obtain ⟨p', reaches, done⟩ :=
    shutdown_finishes grpc http _ (Nat.le_refl _) ⟨orderly, told, alive,
      orderly.traces.1.mp stopped⟩
  obtain ⟨more, run'⟩ := run_reaches run reaches
  obtain ⟨_, _, offsets, topics, closings⟩ := (orderly_run run').1.traces
  refine ⟨more, p', run', offsets.mpr (by omega), topics.mpr (by omega), ?_⟩
  rw [closings, if_pos done]

def signalledSchedule : List (Choice counting counting) :=
  startSchedule ++ [.grpc, .http, .grpcServer .accept, .main .second, .main .first]

theorem shutdown_completes_signalled :
    ∃ past p, ProcessRun counting counting past p ∧
      signalledSchedule.length ≤ past.length ∧ p.topicsClosed = true := by
  have run := ProcessRun.scheduled .start signalledSchedule
  obtain ⟨more, p, run, _, closed, _⟩ :=
    shutdown_completes counting_stops counting_stops run (by decide) (by decide)
  refine ⟨_, p, run, ?_, closed⟩
  rw [List.length_append]
  exact Nat.le_trans (by decide) (Nat.le_add_right _ _)

end Progress

end MessageBroker.Broker.Lifecycle
