import MessageBroker.Broker.Teardown

namespace MessageBroker.Broker.Lifecycle

open Runs Servers

/-! ## What the servers have been told -/

/-- The calls that stand behind the state of the gRPC server at a stage of the shutdown. -/
structure GrpcTold {G H : NetServer} (p : Process G H) (stage : Nat) (c : Calls) : Prop where
  reaches : G.Reaches c p.grpcServer
  served : p.grpc = .serving → c.served = true
  draining : p.graceful = .draining ∨ p.graceful = .finished → c.draining = true
  drained : p.graceful = .finished → c.drained = true
  killing : c.killing = true ↔ p.forced = true
  forced : stage = 8 → p.forced = true
  quit : 9 ≤ stage → c.draining = true ∧ c.drained = true ∨ c.killing = true ∧ c.killed = true

structure HttpTold {G H : NetServer} (p : Process G H) (stage : Nat) (c : Calls) : Prop where
  reaches : H.Reaches c p.httpServer
  served : p.http = .serving → c.served = true
  draining : 11 ≤ stage → c.draining = true

def Told {G H : NetServer} (p : Process G H) (stage : Nat) : Prop :=
  (∃ c, GrpcTold p stage c) ∧ ∃ c, HttpTold p stage c

section Told

variable {G H : NetServer} {p p' : Process G H} {branch : Branch} {stage : Nat}

theorem Told.frame {stage' : Nat} (told : Told p stage) (same : stage' = stage)
    (grpcServer : p'.grpcServer = p.grpcServer) (httpServer : p'.httpServer = p.httpServer)
    (graceful : p'.graceful = p.graceful) (forced : p'.forced = p.forced)
    (grpc : p'.grpc = .serving → p.grpc = .serving)
    (http : p'.http = .serving → p.http = .serving) : Told p' stage' := by
  subst same
  obtain ⟨⟨c, told⟩, d, toldH⟩ := told
  refine ⟨⟨c, ?_, fun here => told.served (grpc here), ?_, ?_, ?_, ?_, told.quit⟩, d, ?_,
    fun here => toldH.served (http here), toldH.draining⟩
  · rw [grpcServer]
    exact told.reaches
  · rw [graceful]
    exact told.draining
  · rw [graceful]
    exact told.drained
  · rw [forced]
    exact told.killing
  · rw [forced]
    exact told.forced
  · rw [httpServer]
    exact toldH.reaches

theorem told_new : Told (Process.new G H) 0 := by
  refine ⟨⟨.none, .new, ?_, ?_, ?_, ?_, ?_, ?_⟩, .none, .new, ?_, ?_⟩
  all_goals simp [Process.new, Calls.none]

/-- Most stages go by without a word to the servers. -/
theorem Told.passes {stage' : Nat} (told : Told p stage) (forced : stage' = 8 → stage = 8)
    (quit : 9 ≤ stage' → 9 ≤ stage) (draining : 11 ≤ stage' → 11 ≤ stage) : Told p stage' := by
  obtain ⟨⟨c, grpc⟩, d, http⟩ := told
  exact ⟨⟨c, { grpc with
      forced := fun here => grpc.forced (forced here)
      quit := fun late => grpc.quit (quit late) }⟩,
    d, { http with draining := fun late => http.draining (draining late) }⟩

theorem told_begun {deadline : Bool} {call call' : Stop} (told : Told p call.stage)
    (begun : 0 < call.stage) (ran : p.shutdown deadline branch call = some (p', call')) :
    Told p' call'.stage := by
  cases call with
  | enter => cases begun
  | skipped => cases begun
  | finished errs => cases ran
  | launchGracefulStop =>
    cases ran
    obtain ⟨⟨c, grpc⟩, d, http⟩ : Told p 6 := told.passes (by simp) (by simp) (by simp)
    exact ⟨⟨c, { grpc with draining := by simp, drained := by simp }⟩, d, { http with }⟩
  | forceStop =>
    cases ran
    obtain ⟨⟨c, grpc⟩, d, http⟩ := told
    exact ⟨⟨{ c with killing := true }, .kill grpc.reaches, grpc.served, grpc.draining,
      grpc.drained, by simp, by simp, by simp [Stop.stage]⟩,
      d, { http with draining := by simp [Stop.stage] }⟩
  | waitStop =>
    simp only [Process.shutdown] at ran
    split at ran <;> cases ran
    rename_i returned
    obtain ⟨⟨c, grpc⟩, d, http⟩ := told
    have killing := grpc.killing.mpr (grpc.forced rfl)
    exact ⟨⟨{ c with killed := true }, .killed grpc.reaches returned, grpc.served, grpc.draining,
      grpc.drained, grpc.killing, by simp [Stop.stage], fun _ => Or.inr ⟨killing, rfl⟩⟩,
      d, { http with draining := by simp [Stop.stage] }⟩
  | selectStopped =>
    simp only [Process.shutdown] at ran
    split at ran <;> split at ran <;> cases ran
    · rename_i finished
      obtain ⟨⟨c, grpc⟩, d, http⟩ := told
      have both := And.intro (grpc.draining (Or.inr finished)) (grpc.drained finished)
      exact ⟨⟨c, { grpc with forced := by simp [Stop.stage], quit := fun _ => Or.inl both }⟩,
        d, { http with draining := by simp [Stop.stage] }⟩
    · exact told.passes (by simp [Stop.stage]) (by simp [Stop.stage]) (by simp [Stop.stage])
  | shutdownHTTP errs =>
    cases ran
    obtain ⟨⟨c, grpc⟩, d, http⟩ := told
    have quit := grpc.quit (by simp [Stop.stage])
    exact ⟨⟨c, { grpc with forced := by simp [Stop.stage], quit := fun _ => quit }⟩,
      { d with draining := true }, .drain http.reaches, http.served, fun _ => rfl⟩
  | waitMaintenance | waitServe errs =>
    simp only [Process.shutdown] at ran
    split at ran <;> cases ran
    exact told.passes (by simp [Stop.stage]) (by simp [Stop.stage]) (by simp [Stop.stage])
  | waitHTTP errs =>
    simp only [Process.shutdown] at ran
    split at ran <;> split at ran <;> cases ran
    all_goals
      exact told.passes (by simp [Stop.stage]) (by simp [Stop.stage]) (by simp [Stop.stage])
  | _ =>
    cases ran
    exact Told.passes (told.frame rfl rfl rfl rfl rfl (fun same => same) fun same => same)
      (by simp [Stop.stage]) (by simp [Stop.stage]) (by simp [Stop.stage])

theorem told_shutdown {deadline : Bool} {call call' : Stop} {other : Nat}
    (told : Told p (call.stage + other)) (exclusive : call.stage = 0 ∨ other = 0)
    (first : p.stopped = false → other = 0)
    (ran : p.shutdown deadline branch call = some (p', call')) : Told p' (call'.stage + other) := by
  by_cases begun : 0 < call.stage
  · obtain rfl : other = 0 := exclusive.resolve_left (by omega)
    exact told_begun told begun ran
  · cases call with
    | skipped => cases ran
    | enter =>
      simp only [Process.shutdown] at ran
      split at ran <;> cases ran
      · exact told
      · rename_i running
        obtain rfl := first (by simpa using running)
        obtain ⟨⟨c, grpc⟩, d, http⟩ := told
        exact ⟨⟨c, { grpc with forced := by simp [Stop.stage], quit := by simp [Stop.stage] }⟩,
          d, { http with draining := by simp [Stop.stage] }⟩
    | _ => simp [Stop.stage] at begun

theorem told_main {main : Main} (orderly : Orderly p) (told : Told p p.stage)
    (ran : p.run branch p.main = some (p', main)) :
    Told { p' with main } ({ p' with main } : Process G H).stage := by
  cases here : p.main with
  | stopping cause call =>
    simp only [here, Process.run, Option.map_eq_some_iff] at ran
    obtain ⟨⟨q, call'⟩, ran, eq⟩ := ran
    cases eq
    have exclusive := orderly.exclusive
    have first : p.stopped = false → p.monitor.stage = 0 := fun running => (orderly.first running).2
    rw [Process.stage, here] at told
    rw [here] at exclusive
    obtain ⟨⟨c, grpc⟩, d, http⟩ := told_shutdown told exclusive first ran
    rw [← (shutdown_leaves ran).monitor] at grpc http
    exact ⟨⟨c, { grpc with }⟩, d, { http with }⟩
  | launchMonitor =>
    have idle : p.monitor = .idle := orderly.threads.monitor.mpr (by simp [here, Main.launches])
    simp only [here, Process.run] at ran
    cases ran
    refine told.frame ?_ rfl rfl rfl rfl (fun same => same) fun same => same
    rw [Process.stage, Process.stage, here, idle]
    rfl
  | _ =>
    simp only [here, Process.run] at ran
    repeat' split at ran
    all_goals try cases ran
    all_goals
      refine told.frame (by rw [Process.stage, Process.stage, here]; rfl) rfl rfl rfl rfl ?_ ?_
    all_goals first | exact fun same => same | simp

theorem told_monitor {monitor : Monitor} (orderly : Orderly p) (told : Told p p.stage)
    (ran : p.watch branch p.monitor = some (p', monitor)) :
    Told { p' with monitor } ({ p' with monitor } : Process G H).stage := by
  cases here : p.monitor with
  | stopping err call =>
    simp only [here, Process.watch, Option.map_eq_some_iff] at ran
    obtain ⟨⟨q, call'⟩, ran, eq⟩ := ran
    cases eq
    have exclusive := orderly.exclusive
    have first : p.stopped = false → p.main.stage = 0 := fun running => (orderly.first running).1
    rw [Process.stage, here, Nat.add_comm] at told
    rw [here] at exclusive
    obtain ⟨⟨c, grpc⟩, d, http⟩ := told_shutdown told exclusive.symm first ran
    rw [← (shutdown_leaves ran).main, Nat.add_comm] at grpc http
    exact ⟨⟨c, { grpc with }⟩, d, { http with }⟩
  | received err =>
    simp only [here, Process.watch] at ran
    cases ran
    refine told.frame ?_ rfl rfl rfl rfl (fun same => same) fun same => same
    rw [Process.stage, Process.stage, here]
    split <;> rfl
  | _ =>
    simp only [here, Process.watch] at ran
    repeat' split at ran
    all_goals try cases ran
    all_goals
      refine told.frame ?_ rfl rfl rfl rfl (fun same => same) fun same => same
      rw [Process.stage, Process.stage, here]
      rfl

theorem told_report {part : Part} {loop loop' : Loop} (told : Told p stage)
    (ran : p.report part loop = some (p', loop')) :
    loop' ≠ .serving ∧ Told p' stage ∧ p'.stage = p.stage := by
  unfold Process.report at ran
  split at ran
  · cases ran
    refine ⟨?_, told, rfl⟩
    split <;> simp
  · cases ran
    exact ⟨by simp, told.frame rfl rfl rfl rfl rfl (fun same => same) fun same => same, rfl⟩
  · split at ran <;> cases ran <;>
      exact ⟨by simp, told.frame rfl rfl rfl rfl rfl (fun same => same) fun same => same, rfl⟩
  · cases ran

theorem told_http {loop : Loop} (told : Told p p.stage)
    (ran : p.serveHTTP p.http = some (p', loop)) :
    Told { p' with http := loop } ({ p' with http := loop } : Process G H).stage := by
  unfold Process.serveHTTP at ran
  split at ran
  · split at ran <;> cases ran
    · obtain ⟨⟨c, grpc⟩, d, http⟩ := told
      exact ⟨⟨c, { grpc with }⟩, { d with served := true }, .serve http.reaches, fun _ => rfl,
        http.draining⟩
    · exact told.frame rfl rfl rfl rfl rfl (fun same => same) (by simp)
  · split at ran <;> cases ran
    exact told.frame rfl rfl rfl rfl rfl (fun same => same) (by simp)
  · obtain ⟨gone, told', stage⟩ := told_report told ran
    exact told'.frame stage rfl rfl rfl rfl (fun same => same) fun here => absurd here gone

theorem told_grpc {loop : Loop} (told : Told p p.stage)
    (ran : p.serveGRPC p.grpc = some (p', loop)) :
    Told { p' with grpc := loop } ({ p' with grpc := loop } : Process G H).stage := by
  unfold Process.serveGRPC at ran
  split at ran
  · split at ran <;> cases ran
    · obtain ⟨⟨c, grpc⟩, d, http⟩ := told
      exact ⟨⟨{ c with served := true }, .serve grpc.reaches, fun _ => rfl, grpc.draining,
        grpc.drained, grpc.killing, grpc.forced, grpc.quit⟩, d, { http with }⟩
    · exact told.frame rfl rfl rfl rfl rfl (by simp) fun same => same
  · split at ran <;> cases ran
    exact told.frame rfl rfl rfl rfl rfl (by simp) fun same => same
  · obtain ⟨gone, told', stage⟩ := told_report told ran
    exact told'.frame stage rfl rfl rfl rfl (fun here => absurd here gone) fun same => same

theorem told_graceful {graceful : Graceful} (told : Told p p.stage)
    (ran : p.stopGracefully p.graceful = some (p', graceful)) :
    Told { p' with graceful } ({ p' with graceful } : Process G H).stage := by
  obtain ⟨⟨c, grpc⟩, d, http⟩ := told
  unfold Process.stopGracefully at ran
  split at ran
  · cases ran
    refine ⟨⟨{ c with draining := true }, .drain grpc.reaches, grpc.served, fun _ => rfl, by simp,
      grpc.killing, grpc.forced, fun late => ?_⟩, d, { http with }⟩
    exact (grpc.quit late).imp_left fun both => ⟨rfl, both.2⟩
  next here =>
    split at ran <;> cases ran
    rename_i returned
    refine ⟨⟨{ c with drained := true }, .drained grpc.reaches returned, grpc.served,
      fun _ => grpc.draining (Or.inl here), fun _ => rfl, grpc.killing, grpc.forced,
      fun late => ?_⟩, d, { http with }⟩
    exact (grpc.quit late).imp_left fun both => ⟨both.1, rfl⟩
  · cases ran

theorem told_step {choice : Choice G H} (orderly : Orderly p) (told : Told p p.stage)
    (ran : p.step choice = some p') :
    Told p' p'.stage := by
  unfold Process.step at ran
  split at ran
  · cases ran
  cases choice with
  | main branch =>
    simp only [Option.map_eq_some_iff] at ran
    obtain ⟨⟨q, main⟩, ran, rfl⟩ := ran
    exact told_main orderly told ran
  | http =>
    simp only [Option.map_eq_some_iff] at ran
    obtain ⟨⟨q, loop⟩, ran, rfl⟩ := ran
    exact told_http told ran
  | grpc =>
    simp only [Option.map_eq_some_iff] at ran
    obtain ⟨⟨q, loop⟩, ran, rfl⟩ := ran
    exact told_grpc told ran
  | worker branch =>
    simp only [Option.map_eq_some_iff] at ran
    obtain ⟨worker, ran, rfl⟩ := ran
    exact told.frame rfl rfl rfl rfl rfl (fun same => same) fun same => same
  | monitor branch =>
    simp only [Option.map_eq_some_iff] at ran
    obtain ⟨⟨q, monitor⟩, ran, rfl⟩ := ran
    exact told_monitor orderly told ran
  | graceful =>
    simp only [Option.map_eq_some_iff] at ran
    obtain ⟨⟨q, graceful⟩, ran, rfl⟩ := ran
    exact told_graceful told ran
  | httpServer step =>
    simp only [Option.map_eq_some_iff] at ran
    obtain ⟨server, ran, rfl⟩ := ran
    obtain ⟨⟨c, grpc⟩, d, http⟩ := told
    exact ⟨⟨c, { grpc with }⟩, d, { http with reaches := .next http.reaches ran }⟩
  | grpcServer step =>
    simp only [Option.map_eq_some_iff] at ran
    obtain ⟨server, ran, rfl⟩ := ran
    obtain ⟨⟨c, grpc⟩, d, http⟩ := told
    exact ⟨⟨c, { grpc with reaches := .next grpc.reaches ran }⟩, d, { http with }⟩
  | expires =>
    dsimp only at ran
    split at ran <;> cases ran
    exact told.frame rfl rfl rfl rfl rfl (fun same => same) fun same => same

end Told

end MessageBroker.Broker.Lifecycle
