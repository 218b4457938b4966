import MessageBroker.Lib.Runs
import MessageBroker.Lib.Servers

namespace MessageBroker.Broker.Lifecycle

open Servers

/-! ## The threads -/

/-- What `Shutdown` may report an error of. -/
inductive Part where
  | grpc
  | http
  | offsets
  | storage
  deriving DecidableEq, Repr

/-- Where a call of `Broker.Shutdown` is, with the errors it will join. `enter` is the check of
    `stopped`, which a second call does not pass. -/
inductive Stop where
  | enter
  | markNotReady
  | cancelMaintenance
  | waitMaintenance
  | markNotServing
  | launchGracefulStop
  | selectStopped
  | forceStop
  | waitStop
  | cleanup (errs : List Part)
  | shutdownHTTP (errs : List Part)
  | waitHTTP (errs : List Part)
  | waitServe (errs : List Part)
  | closeOffsets (errs : List Part)
  | closeTopics (errs : List Part)
  | closeDone (errs : List Part)
  | finished (errs : List Part)
  | skipped
  deriving DecidableEq, Repr

/-- The goroutine around one server's `Serve`. It has looked at `stopped` when it is in
    `crashed`. -/
inductive Loop where
  | idle
  | launched
  | serving
  | returned
  | crashed
  | reporting
  | exited
  deriving DecidableEq, Repr

/-- `runRetentionWorker`: in a pass over the partitions, or in the `select` behind it. -/
inductive Worker where
  | idle
  | retaining
  | selecting
  | exited
  deriving DecidableEq, Repr

/-- `monitorServe`, with the error it has received. -/
inductive Monitor where
  | idle
  | selecting
  | received (err : Part)
  | stopping (err : Part) (call : Stop)
  | exited
  deriving DecidableEq, Repr

/-- The goroutine that `grpcserver.Shutdown` starts for `GracefulStop`. -/
inductive Graceful where
  | idle
  | launched
  | draining
  | finished
  deriving DecidableEq, Repr

/-- Why `run` or `Start` calls `Shutdown`: for a signal, or for a crash during the startup. -/
inductive Cause where
  | signal
  | crash (err : Part)
  deriving DecidableEq, Repr

/-- `run` of the broker's command behind `New`, with `Start` in it. -/
inductive Main where
  | starting
  | bindHTTP
  | bindGRPC
  | closeHTTPListener
  | unstart
  | notStarted
  | launchHTTP
  | launchGRPC
  | launchWorker
  | window
  | markReady
  | launchMonitor
  | waiting
  | unexpected
  | stopping (cause : Cause) (call : Stop)
  deriving DecidableEq, Repr

inductive Result where
  | clean
  | startupFailed
  | stoppedUnexpectedly
  | shutdownFailed (errs : List Part)
  deriving DecidableEq, Repr

def Main.result : Main → Option Result
  | .notStarted => some .startupFailed
  | .unexpected => some .stoppedUnexpectedly
  | .stopping .signal (.finished []) => some .clean
  | .stopping .signal (.finished errs) => some (.shutdownFailed errs)
  | .stopping .signal .skipped => some .clean
  | .stopping (.crash _) (.finished _) => some .startupFailed
  | .stopping (.crash _) .skipped => some .startupFailed
  | _ => none

/-! ## The process -/

/-- The broker around its two servers: `G` is `grpc.Server`, whose graceful stop is `GracefulStop`
    and whose other one is `Stop`, and `H` is `http.Server`, whose graceful stop is `Shutdown`.
    `httpListener` and `grpcListener` say whether the wrappers have a listener. `serveErrs` is the
    buffered channel of two errors; `lost` is set where its `select` takes the `default`. -/
structure Process (G H : NetServer) where
  grpcServer : G.State
  httpServer : H.State
  started : Bool
  stopped : Bool
  ready : Bool
  serving : Bool
  cancelled : Bool
  httpListener : Bool
  grpcListener : Bool
  forced : Bool
  expired : Bool
  serveErrs : List Part
  lost : Bool
  offsetsClosed : Bool
  topicsClosed : Bool
  doneClosings : Nat
  main : Main
  http : Loop
  grpc : Loop
  worker : Worker
  monitor : Monitor
  graceful : Graceful

def Process.new (G H : NetServer) : Process G H where
  grpcServer := G.new
  httpServer := H.new
  started := false
  stopped := false
  ready := false
  serving := false
  cancelled := false
  httpListener := false
  grpcListener := false
  forced := false
  expired := false
  serveErrs := []
  lost := false
  offsetsClosed := false
  topicsClosed := false
  doneClosings := 0
  main := .starting
  http := .idle
  grpc := .idle
  worker := .idle
  monitor := .idle
  graceful := .idle

/-- The counters of the wait groups are not zero. -/
def Worker.busy (worker : Worker) : Bool := worker == .retaining || worker == .selecting

def Loop.busy (loop : Loop) : Bool := loop != .idle && loop != .exited

/-- Which case of a `select` is taken, or whether an operation succeeds. -/
inductive Branch where
  | first
  | second
  deriving DecidableEq, Repr

def Branch.fails (branch : Branch) (part : Part) : List Part :=
  match branch with
  | .first => []
  | .second => [part]

section Threads

variable {G H : NetServer}

/-- One step of `Shutdown`. `deadline` says whether its context can expire. -/
def Process.shutdown (p : Process G H) (deadline : Bool) (branch : Branch) :
    Stop → Option (Process G H × Stop)
  | .enter =>
    if p.stopped then some (p, .skipped) else some ({ p with stopped := true }, .markNotReady)
  | .markNotReady => some ({ p with ready := false }, .cancelMaintenance)
  | .cancelMaintenance => some ({ p with cancelled := true }, .waitMaintenance)
  | .waitMaintenance => if p.worker.busy then none else some (p, .markNotServing)
  | .markNotServing => some ({ p with serving := false }, .launchGracefulStop)
  | .launchGracefulStop => some ({ p with graceful := .launched }, .selectStopped)
  | .selectStopped =>
    match branch with
    | .first => if p.graceful = .finished then some (p, .cleanup []) else none
    | .second => if deadline && p.expired then some (p, .forceStop) else none
  | .forceStop => some ({ p with grpcServer := G.kill p.grpcServer, forced := true }, .waitStop)
  | .waitStop => if G.killReturned p.grpcServer then some (p, .cleanup [.grpc]) else none
  | .cleanup errs => some ({ p with grpcListener := false }, .shutdownHTTP errs)
  | .shutdownHTTP errs => some ({ p with httpServer := H.drain p.httpServer }, .waitHTTP errs)
  | .waitHTTP errs =>
    match branch with
    | .first => if H.drainReturned p.httpServer then some (p, .waitServe errs) else none
    | .second =>
      if H.drainReturned p.httpServer || deadline && p.expired then
        some (p, .waitServe (errs ++ [.http]))
      else none
  | .waitServe errs => if p.http.busy || p.grpc.busy then none else some (p, .closeOffsets errs)
  | .closeOffsets errs =>
    some ({ p with offsetsClosed := true }, .closeTopics (errs ++ branch.fails .offsets))
  | .closeTopics errs =>
    some ({ p with topicsClosed := true }, .closeDone (errs ++ branch.fails .storage))
  | .closeDone errs => some ({ p with doneClosings := p.doneClosings + 1 }, .finished errs)
  | .finished _ | .skipped => none

/-- Behind `Serve`: a loop that ends although nobody stopped the broker reports it. -/
def Process.report (p : Process G H) (part : Part) : Loop → Option (Process G H × Loop)
  | .returned => some (p, if p.stopped then .exited else .crashed)
  | .crashed => some ({ p with ready := false }, .reporting)
  | .reporting =>
    if p.serveErrs.length < 2 then some ({ p with serveErrs := p.serveErrs ++ [part] }, .exited)
    else some ({ p with lost := true }, .exited)
  | _ => none

def Process.serveHTTP (p : Process G H) : Loop → Option (Process G H × Loop)
  | .launched =>
    if p.httpListener then some ({ p with httpServer := H.serve p.httpServer }, .serving)
    else some (p, .returned)
  | .serving => if H.serveReturned p.httpServer then some (p, .returned) else none
  | loop => p.report .http loop

/-- The wrapper's `Serve` sets the health status before it serves and drops the listener behind
    it. -/
def Process.serveGRPC (p : Process G H) : Loop → Option (Process G H × Loop)
  | .launched =>
    if p.grpcListener then some ({ p with serving := true, grpcServer := G.serve p.grpcServer },
      .serving)
    else some (p, .returned)
  | .serving =>
    if G.serveReturned p.grpcServer then some ({ p with grpcListener := false }, .returned)
    else none
  | loop => p.report .grpc loop

def Process.retain (p : Process G H) (branch : Branch) : Worker → Option Worker
  | .retaining => some .selecting
  | .selecting =>
    match branch with
    | .first => if p.cancelled then some .exited else none
    | .second => some .retaining
  | _ => none

def Process.watch (p : Process G H) (branch : Branch) : Monitor → Option (Process G H × Monitor)
  | .selecting =>
    match branch, p.serveErrs with
    | .first, err :: rest => some ({ p with serveErrs := rest }, .received err)
    | .first, [] => none
    | .second, _ => if p.cancelled then some (p, .exited) else none
  | .received err => some (p, if p.stopped then .exited else .stopping err .enter)
  | .stopping err call =>
    (p.shutdown false branch call).map fun (p, call) => (p, .stopping err call)
  | _ => none

def Process.stopGracefully (p : Process G H) : Graceful → Option (Process G H × Graceful)
  | .launched => some ({ p with grpcServer := G.drain p.grpcServer }, .draining)
  | .draining => if G.drainReturned p.grpcServer then some (p, .finished) else none
  | _ => none

def Process.run (p : Process G H) (branch : Branch) : Main → Option (Process G H × Main)
  | .starting =>
    if p.started then some (p, .waiting) else some ({ p with started := true }, .bindHTTP)
  | .bindHTTP =>
    match branch with
    | .first => some ({ p with httpListener := true }, .bindGRPC)
    | .second => some (p, .unstart)
  | .bindGRPC =>
    match branch with
    | .first => some ({ p with grpcListener := true }, .launchHTTP)
    | .second => some (p, .closeHTTPListener)
  -- the wrapper closes its listener but keeps it
  | .closeHTTPListener => some (p, .unstart)
  | .unstart => some ({ p with started := false }, .notStarted)
  | .launchHTTP => some ({ p with http := .launched }, .launchGRPC)
  | .launchGRPC => some ({ p with grpc := .launched }, .launchWorker)
  | .launchWorker => some ({ p with worker := .retaining }, .window)
  | .window =>
    match branch, p.serveErrs with
    | .first, err :: rest => some ({ p with serveErrs := rest }, .stopping (.crash err) .enter)
    | .first, [] => none
    | .second, _ => some (p, .markReady)
  | .markReady => some ({ p with ready := true }, .launchMonitor)
  | .launchMonitor => some ({ p with monitor := .selecting }, .waiting)
  | .waiting =>
    match branch with
    | .first => if 0 < p.doneClosings then some (p, .unexpected) else none
    | .second => some (p, .stopping .signal .enter)
  | .stopping cause call =>
    (p.shutdown (cause = .signal) branch call).map fun (p, call) => (p, .stopping cause call)
  | .notStarted | .unexpected => none

/-- The scheduler lets a thread go on, a server does something by itself, or the context of the
    shutdown expires. -/
inductive Choice (G H : NetServer) where
  | main (branch : Branch)
  | http
  | grpc
  | worker (branch : Branch)
  | monitor (branch : Branch)
  | graceful
  | httpServer (step : H.Step)
  | grpcServer (step : G.Step)
  | expires

/-- `none` for a thread that has to wait. When `run` returns, the process is gone with all its
    threads. -/
def Process.step (p : Process G H) (choice : Choice G H) : Option (Process G H) :=
  if p.main.result.isSome then none
  else
    match choice with
    | .main branch => (p.run branch p.main).map fun (p, main) => { p with main }
    | .http => (p.serveHTTP p.http).map fun (p, http) => { p with http }
    | .grpc => (p.serveGRPC p.grpc).map fun (p, grpc) => { p with grpc }
    | .worker branch => (p.retain branch p.worker).map fun worker => { p with worker }
    | .monitor branch => (p.watch branch p.monitor).map fun (p, monitor) => { p with monitor }
    | .graceful => (p.stopGracefully p.graceful).map fun (p, graceful) => { p with graceful }
    | .httpServer step => (H.next p.httpServer step).map fun httpServer => { p with httpServer }
    | .grpcServer step => (G.next p.grpcServer step).map fun grpcServer => { p with grpcServer }
    | .expires =>
      match p.main with
      | .stopping .signal _ => some { p with expired := true }
      | _ => none

def Process.perform (p : Process G H) (choice : Choice G H) : Bool × Process G H :=
  ((p.step choice).isSome, (p.step choice).getD p)

end Threads

abbrev ProcessEvent (G H : NetServer) := Runs.Event (Process G H) (Choice G H) Bool

def AnySchedule (G H : NetServer) (_ : List (ProcessEvent G H)) (_ : Process G H) (_ : Choice G H) :
    Prop := True

end MessageBroker.Broker.Lifecycle
