import DelosLab.Async.Scheduler
import DelosLab.Controller.Manifest

/-!
# SubprocessNodeSupervisor

The operations of the supervisor as coroutines. What the processes, their launcher and the
HTTP endpoints of the nodes answer is arbitrary: a launch may fail, a process may end at any
time, and a wait for it ends only then.
-/

namespace DelosLab.Controller

open Async Async.Coroutine

/-- What `command_for` makes of the manifest, and the generation of the manifest. -/
structure Command where
  nodeId : String
  group : Group
  endpoint : String
  dbPeers : List (String × String)
  metaPeers : List (String × String)
  join : Bool
  generation : Nat
deriving DecidableEq

inductive Signal : Type where
  | sigterm
  | sigkill
  | sigstop
  | sigcont
deriving DecidableEq

/-- A process that the supervisor has launched. -/
structure Process where
  command : Command
  alive : Bool
  stopped : Bool
  killed : Bool
deriving DecidableEq

/-- A process is asked to end by SIGTERM, which it may do at any time anyway. -/
def Process.signalled (self : Process) : Signal → Process
  | .sigterm => self
  | .sigkill => { self with killed := true }
  | .sigstop => { self with stopped := true }
  | .sigcont => { self with stopped := false }

/-- `returncode` is set. -/
def Process.exited (self : Process) : Process := { self with alive := false }

/-- `command_for`. -/
def commandFor (manifest : LabManifest) (generation : Nat) (nodeId : String) :
    Except Error Command :=
  match manifest.node? nodeId with
  | none => .error (.valueError ("unknown node: " ++ nodeId))
  | some node =>
      if node.processRemoved then .error (.valueError ("removed process: " ++ nodeId))
      else
        let peers := fun nodes : List NodeManifest =>
          nodes.map fun peer => (peer.nodeId, peer.endpoint)
        .ok ⟨nodeId, node.group, node.endpoint, peers manifest.activeDatabaseNodes,
          peers manifest.metastoreNodes, node.joinExistingDatabase, generation⟩

/-- A task that `gather` makes for a node. -/
inductive Child : Type where
  | stopNode (nodeId : String)
  | startNode (nodeId : String)
deriving DecidableEq

namespace Supervisor

/-- The number of a process stands for its handle, the number of a child for its task. -/
inductive Act : Type where
  | manifest
  | commandFor (nodeId : String)
  | isRunning (nodeId : String)
  | process (nodeId : String)
  | pop (nodeId : String)
  | assign (nodeId : String) (process : Nat)
  | alive (process : Nat)
  | signal (process : Nat) (signal : Signal)
  | isPaused (nodeId : String)
  | addPaused (nodeId : String)
  | discardPaused (nodeId : String)
  | addDatabaseNode (nodeId endpoint : String)
  | markDatabaseNodeJoined (nodeId : String)
  | retireDatabaseNode (nodeId : String)
  | createStops (nodeIds : List String)
  | createStarts (nodeIds : List String)
  | clearProcesses
  | clearPaused
  | setNodes (replacement : LabManifest)
  | release
  | releaseDeployment

@[reducible] def ActResult : Act → Type
  | .manifest => LabManifest
  | .commandFor _ => Except Error Command
  | .isRunning _ => Bool
  | .process _ => Option Nat
  | .pop _ => Option Nat
  | .assign _ _ => Unit
  | .alive _ => Bool
  | .signal _ _ => Unit
  | .isPaused _ => Bool
  | .addPaused _ => Unit
  | .discardPaused _ => Unit
  | .addDatabaseNode _ _ => Except Error NodeManifest
  | .markDatabaseNodeJoined _ => Except Error NodeManifest
  | .retireDatabaseNode _ => Except Error NodeManifest
  | .createStops _ => List Nat
  | .createStarts _ => List Nat
  | .clearProcesses => Unit
  | .clearPaused => Unit
  | .setNodes _ => Unit
  | .release => Unit
  | .releaseDeployment => Unit

/-- `startLock` is the lock as `start_node` takes it. `healthy` is `wait_healthy`, and `join` is
the request to the node that joins. -/
inductive Wait : Type where
  | startLock (nodeId : String)
  | lock
  | deploymentLock
  | launch (command : Command)
  | exited (process : Nat)
  | exitedInTime (process : Nat)
  | healthy (nodeIds : List String)
  | join (endpoint : String)
  | gather (tasks : List Nat)
  | never   -- a loop that has used up its draws

@[reducible] def WaitResult : Wait → Type
  | .startLock _ => Unit
  | .lock => Unit
  | .deploymentLock => Unit
  | .launch _ => Nat
  | .exited _ => Unit
  | .exitedInTime _ => Unit
  | .healthy _ => Unit
  | .join _ => Unit
  | .gather _ => Unit
  | .never => Empty

@[reducible] def signature : Signature where
  Act := Act
  ActResult := ActResult
  Wait := Wait
  WaitResult := WaitResult
  Error := Error

/-- A coroutine of the supervisor. -/
abbrev Co (α : Type) : Type := Coroutine signature α

def act (a : Act) : Co (ActResult a) := perform (S := signature) a

def wait (e : Wait) : Co (WaitResult e) := await (S := signature) e

/-- An act that may raise. -/
def orError {α : Type} (r : Except Error α) : Co α := ofExcept (S := signature) r

end Supervisor

/-! ## The operations -/

namespace SubprocessNodeSupervisor

open Supervisor

/-- `_node`. -/
def node (nodeId : String) : Co NodeManifest := do
  let manifest ← act .manifest
  orRaise (manifest.node? nodeId) (.valueError ("unknown node: " ++ nodeId))

/-- `_active_node`. -/
def activeNode (nodeId : String) : Co NodeManifest := do
  let node ← node nodeId
  require (node.processRemoved = false) (.valueError ("removed process: " ++ nodeId))
  ret node

/-- What `start_node` does under the lock. -/
def launchNode (nodeId : String) : Co Unit := do
  let running ← act (.isRunning nodeId)
  if running then ret ()
  else do
    let command ← act (.commandFor nodeId)
    let command ← orError command
    let process ← wait (.launch command)
    act (.assign nodeId process)
    act (.discardPaused nodeId)

def startNode (nodeId : String) : Co Unit := do
  let _ ← activeNode nodeId
  wait (.startLock nodeId)
  tryFinally (launchNode nodeId) (act .release)

/-- What `resume_node` does under the lock: is the process one that runs? -/
def continueNode (nodeId : String) : Co Bool := do
  match ← act (.process nodeId) with
  | none => ret false
  | some process => do
      let alive ← act (.alive process)
      if alive then do
        let paused ← act (.isPaused nodeId)
        if paused then do
          act (.signal process .sigcont)
          act (.discardPaused nodeId)
          ret true
        else ret true
      else ret false

def resumeNode (nodeId : String) : Co Unit := do
  let _ ← activeNode nodeId
  wait .lock
  let running ← tryFinally (continueNode nodeId) (act .release)
  if running then ret () else startNode nodeId

/-- What `pause_node` does under the lock. -/
def haltNode (nodeId : String) : Co Unit := do
  match ← act (.process nodeId) with
  | none => ret ()
  | some process => do
      let alive ← act (.alive process)
      let paused ← act (.isPaused nodeId)
      if alive ∧ paused = false then do
        act (.signal process .sigstop)
        act (.addPaused nodeId)
      else ret ()

def pauseNode (nodeId : String) : Co Unit := do
  let _ ← activeNode nodeId
  wait .lock
  tryFinally (haltNode nodeId) (act .release)

/-- What `kill_node` does with the process that it has taken, if any. -/
def killProcess : Option Nat → Co Unit
  | none => ret ()
  | some process => do
      let alive ← act (.alive process)
      if alive then do
        act (.signal process .sigkill)
        wait (.exited process)
      else ret ()

def killNode (nodeId : String) : Co Unit := do
  let node ← activeNode nodeId
  require (node.group = .database) (.valueError "only database processes can be killed")
  wait .lock
  let process ← tryFinally (do
    let process ← act (.pop nodeId)
    act (.discardPaused nodeId)
    ret process) (act .release)
  killProcess process
  let retired ← act (.retireDatabaseNode nodeId)
  let _ ← orError retired
  ret ()

/-- What `stop_node` does with a process that it has taken. -/
def endProcess (nodeId : String) (process : Nat) : Co Unit := do
  let paused ← act (.isPaused nodeId)
  if paused then do
    act (.signal process .sigcont)
    act (.discardPaused nodeId)
  else ret ()
  act (.signal process .sigterm)
  handle (wait (.exitedInTime process)) fun e =>
    if e = .timeoutError then do
      act (.signal process .sigkill)
      wait (.exited process)
    else raise e

def stopNode (nodeId : String) : Co Unit := do
  let _ ← node nodeId
  wait .lock
  let process ← tryFinally (act (.pop nodeId)) (act .release)
  match process with
  | none => ret ()
  | some process => do
      let alive ← act (.alive process)
      if alive then endProcess nodeId process else ret ()

/-- The node that waits to join, or a new one of a name that is drawn. -/
def joiningNode (endpoint : String) (draws : List String) : Co NodeManifest := do
  let manifest ← act .manifest
  match manifest.pendingDatabaseNode with
  | some node => ret node
  | none =>
      match LabManifest.newDatabaseProcessId manifest.nodeIds draws with
      | none => do
          let never ← wait .never
          nomatch never
      | some nodeId => do
          let added ← act (.addDatabaseNode nodeId endpoint)
          orError added

/-- `_add_database_node`, with the endpoint of a free port. -/
def addNode (endpoint : String) (draws : List String) : Co Unit := do
  let node ← joiningNode endpoint draws
  startNode node.nodeId
  wait (.healthy [node.nodeId])
  wait (.join node.endpoint)
  let joined ← act (.markDatabaseNodeJoined node.nodeId)
  let _ ← orError joined
  ret ()

def addDatabaseNode (endpoint : String) (draws : List String) : Co Unit := do
  wait .deploymentLock
  tryFinally (addNode endpoint draws) (act .releaseDeployment)

def stopCluster : Co Unit := do
  let manifest ← act .manifest
  let tasks ← act (.createStops manifest.nodeIds)
  wait (.gather tasks)

/-- `await asyncio.gather(*(self.start_node(node_id) ...))` and `wait_healthy`. -/
def startNodes (nodeIds : List String) : Co Unit := do
  let tasks ← act (.createStarts nodeIds)
  wait (.gather tasks)
  wait (.healthy nodeIds)

def startCluster (endpoint : String) (draws : List String) : Co Unit := do
  let manifest ← act .manifest
  let metas := manifest.metastoreNodes.filter fun node => !node.processRemoved
  let databases := manifest.activeDatabaseNodes.filter fun node => !node.joinExistingDatabase
  let pending := manifest.activeDatabaseNodes.filter NodeManifest.joinExistingDatabase
  startNodes (metas.map NodeManifest.nodeId)
  startNodes (databases.map NodeManifest.nodeId)
  if pending = [] then ret () else addDatabaseNode endpoint draws

/-- What the ports and the names of a fresh cluster turn out to be, and whether the files of the
old one can be deleted. -/
structure Bootstrap where
  metaPorts : List Int
  dbPorts : List Int
  draws : List (List String)
  deletable : Bool
deriving DecidableEq

/-- What `reset_cluster` does under the deployment lock. -/
def bootstrap (b : Bootstrap) : Co Unit := do
  let manifest ← act .manifest
  match LabManifest.newDatabaseProcessIds manifest.nodeIds b.draws with
  | none => do
      let never ← wait .never
      nomatch never
  | some databaseIds => do
      let replacement ← orError
        (LabManifest.createSubprocess b.metaPorts b.dbPorts databaseIds)
      stopCluster
      require (b.deletable = true) .osError
      act .clearProcesses
      act .clearPaused
      act (.setNodes replacement)
      startCluster "" []   -- no node of a fresh cluster waits to join

def resetCluster (b : Bootstrap) : Co Unit := do
  wait .deploymentLock
  tryFinally (bootstrap b) (act .releaseDeployment)

end SubprocessNodeSupervisor

/-! ## The system -/

namespace Supervisor

open SubprocessNodeSupervisor (Bootstrap)

inductive Call : Type where
  | startNode (nodeId : String)
  | resumeNode (nodeId : String)
  | pauseNode (nodeId : String)
  | killNode (nodeId : String)
  | stopNode (nodeId : String)
  | addDatabaseNode (endpoint : String) (draws : List String)
  | resetCluster (b : Bootstrap)
  | child (task : Nat)
deriving DecidableEq

/-- `spawned` has the tasks that `gather` has made, in the order of their numbers, `started` those
that run or have run and `results` how they ended. The rest is read by no task: `generation`
counts the replacements of the nodes, `calls` has the calls in progress, `holds` the process that
each has in a local variable only, `killings` the nodes between the pop and the retirement of a
kill, `popped` the children that have taken the process of their node, and `resetting` the reset
that is about to replace the nodes, with its children. -/
structure World where
  manifest : LabManifest
  launched : List Process
  processes : String → Option Nat
  paused : String → Bool
  lock : Option Nat
  deploymentLock : Option Nat
  spawned : List Child
  started : Nat → Bool
  results : Nat → Option (Except Error Unit)
  generation : Nat
  calls : Nat → Option Call
  holds : Nat → Option Nat
  killings : List (Nat × String)
  popped : Nat → Bool
  resetting : Option (Nat × List Nat)

inductive Choice : Type where
  | done
  | failed (e : Error)

/-- A process ends. -/
inductive Disturbance : Type where
  | exit (process : Nat)

namespace World

/-- A supervisor that has launched nothing yet. -/
def initial (manifest : LabManifest) : World where
  manifest := manifest
  launched := []
  processes := fun _ => none
  paused := fun _ => false
  lock := none
  deploymentLock := none
  spawned := []
  started := fun _ => false
  results := fun _ => none
  generation := 0
  calls := fun _ => none
  holds := fun _ => none
  killings := []
  popped := fun _ => false
  resetting := none

/-- `process.returncode is None`. -/
def alive (w : World) (process : Nat) : Bool :=
  match w.launched[process]? with
  | some p => p.alive
  | none => false

def isRunning (w : World) (nodeId : String) : Bool :=
  match w.processes nodeId with
  | some process => w.alive process
  | none => false

def holding (w : World) (t : Nat) (process : Option Nat) : World :=
  { w with holds := Function.update w.holds t process }

/-- The pop of a kill opens a gap that its retirement closes. -/
def noteKilling (w : World) (t : Nat) (nodeId : String) : List (Nat × String) :=
  match w.calls t with
  | some (.killNode _) => (t, nodeId) :: w.killings
  | _ => w.killings

/-- A child that pops has come to its node. -/
def notePopped (w : World) (t task : Nat) : Bool :=
  w.popped task || decide (w.calls t = some (.child task))

def pop (w : World) (t : Nat) (nodeId : String) : World :=
  { w with
    processes := Function.update w.processes nodeId none
    holds := Function.update w.holds t (w.processes nodeId)
    killings := w.noteKilling t nodeId
    popped := w.notePopped t }

def spawn (w : World) (children : List Child) : World × List Nat :=
  ({ w with spawned := w.spawned ++ children },
    (List.range children.length).map (w.spawned.length + ·))

/-- A method of the manifest that returns a node. -/
def edit (w : World) (r : Except Error (LabManifest × NodeManifest)) :
    World × Except Error NodeManifest :=
  match r with
  | .ok (manifest, node) => ({ w with manifest := manifest }, .ok node)
  | .error e => (w, .error e)

end World

def exec (w : World) (t : Nat) : (a : Act) → World × ActResult a
  | .manifest => (w, w.manifest)
  | .commandFor nodeId => (w, commandFor w.manifest w.generation nodeId)
  | .isRunning nodeId => (w, w.isRunning nodeId)
  | .process nodeId => (w, w.processes nodeId)
  | .pop nodeId => (w.pop t nodeId, w.processes nodeId)
  | .assign nodeId process =>
      ({ w.holding t none with
        processes := Function.update w.processes nodeId (some process) }, ())
  | .alive process => (w, w.alive process)
  | .signal process signal =>
      ({ w with launched := w.launched.modify process fun p => p.signalled signal }, ())
  | .isPaused nodeId => (w, w.paused nodeId)
  | .addPaused nodeId => ({ w with paused := Function.update w.paused nodeId true }, ())
  | .discardPaused nodeId => ({ w with paused := Function.update w.paused nodeId false }, ())
  | .addDatabaseNode nodeId endpoint => w.edit (w.manifest.addDatabaseNode nodeId endpoint)
  | .markDatabaseNodeJoined nodeId => w.edit (w.manifest.markDatabaseNodeJoined nodeId)
  | .retireDatabaseNode nodeId =>
      let r := w.edit (w.manifest.retireDatabaseNode nodeId)
      ({ r.1 with killings := r.1.killings.filter fun k => k.1 ≠ t }, r.2)
  | .createStops nodeIds =>
      let r := w.spawn (nodeIds.map .stopNode)
      ({ r.1 with resetting := some (t, r.2) }, r.2)
  | .createStarts nodeIds => w.spawn (nodeIds.map .startNode)
  | .clearProcesses => ({ w with processes := fun _ => none }, ())
  | .clearPaused => ({ w with paused := fun _ => false }, ())
  | .setNodes replacement =>
      ({ w with
        manifest := replacement
        generation := w.generation + 1
        resetting := none }, ())
  | .release => ({ w with lock := none }, ())
  | .releaseDeployment => ({ w with deploymentLock := none, resetting := none }, ())

/-- All of the gathered tasks have returned. -/
def World.allReturned (w : World) (tasks : List Nat) : Bool :=
  tasks.all fun task => w.results task = some (.ok ())

/-- One of the gathered tasks has raised `e`; the others go on. -/
def World.someRaised (w : World) (tasks : List Nat) (e : Error) : Bool :=
  tasks.any fun task => w.results task = some (.error e)

def resume (w : World) (t : Nat) :
    (e : Wait) → Choice → Option (World × Except Error (WaitResult e))
  | .startLock _, .done =>
      if w.lock = none then some ({ w with lock := some t }, .ok ()) else none
  | .lock, .done => if w.lock = none then some ({ w with lock := some t }, .ok ()) else none
  | .deploymentLock, .done =>
      if w.deploymentLock = none then some ({ w with deploymentLock := some t }, .ok ()) else none
  | .launch command, .done =>
      some ({ w.holding t (some w.launched.length) with
        launched := w.launched ++ [⟨command, true, false, false⟩] }, .ok w.launched.length)
  | .launch _, .failed e => some (w, .error e)
  | .exited process, .done => if w.alive process then none else some (w, .ok ())
  | .exitedInTime process, .done => if w.alive process then none else some (w, .ok ())
  | .exitedInTime _, .failed .timeoutError => some (w, .error .timeoutError)
  | .healthy _, .done => some (w, .ok ())
  | .healthy _, .failed e => some (w, .error e)
  | .join _, .done => some (w, .ok ())
  | .join _, .failed e => some (w, .error e)
  | .gather tasks, .done => if w.allReturned tasks then some (w, .ok ()) else none
  | .gather tasks, .failed e => if w.someRaised tasks e then some (w, .error e) else none
  | _, _ => none

def program : Call → Co Unit
  | .startNode nodeId => SubprocessNodeSupervisor.startNode nodeId
  | .resumeNode nodeId => SubprocessNodeSupervisor.resumeNode nodeId
  | .pauseNode nodeId => SubprocessNodeSupervisor.pauseNode nodeId
  | .killNode nodeId => SubprocessNodeSupervisor.killNode nodeId
  | .stopNode nodeId => SubprocessNodeSupervisor.stopNode nodeId
  | .addDatabaseNode endpoint draws => SubprocessNodeSupervisor.addDatabaseNode endpoint draws
  | .resetCluster b => SubprocessNodeSupervisor.resetCluster b
  | .child _ => ret ()

def Child.program : Child → Co Unit
  | .stopNode nodeId => SubprocessNodeSupervisor.stopNode nodeId
  | .startNode nodeId => SubprocessNodeSupervisor.startNode nodeId

/-- A call begins under a task of its own. -/
def World.begin (w : World) (t : Nat) (c : Call) : World :=
  { w with calls := Function.update w.calls t (some c) }

def start (w : World) (t : Nat) (c : Call) : Option (World × Co Unit) :=
  match w.calls t with
  | some _ => none
  | none =>
      match c with
      | .child task =>
          match w.spawned[task]? with
          | none => none
          | some child =>
              if w.started task then none
              else some ({ w.begin t c with started := Function.update w.started task true },
                Child.program child)
      | c => some (w.begin t c, program c)

def World.ended (w : World) (t : Nat) : World :=
  { w.holding t none with calls := Function.update w.calls t none }

def finish (w : World) (t : Nat) : Call → Except Error Unit → World
  | .child task, r =>
      { w.ended t with results := Function.update w.results task (some r) }
  | _, _ => w.ended t

/-- A process that is stopped ends only when it is killed. -/
def disturb (w : World) : Disturbance → Option World
  | .exit process =>
      match w.launched[process]? with
      | some p =>
          if p.alive ∧ (p.stopped = false ∨ p.killed = true) then
            some { w with launched := w.launched.modify process Process.exited }
          else none
      | none => none

/-- The operations of a supervisor. -/
def runtime : Runtime signature World Nat Call Choice Disturbance Unit where
  start := start
  exec := exec
  resume := resume
  finish := finish
  disturb := disturb
  survives := fun _ _ => true

/-- The supervisor and the suspended tasks. -/
abbrev SystemState : Type := State signature World Nat Call Unit

end Supervisor

end DelosLab.Controller
