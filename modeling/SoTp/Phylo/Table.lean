/-
The philosophers (`Userland/UserModule/c2/phyloTest.c`): the processes of
`myPhyloProcess` and the controlling process of `commandPhylo`. A process is the statement
it has come to, and whether it is blocked there; between any two statements and system
calls another process may run. Sleeping takes any time, and printing does nothing here.

A semaphore has a value and a queue, and a post hands its unit to the first process of the
queue. `phylo[f].fork_at_index` is the semaphore `fork f`. A process is killed only by the
controlling process, and is then in no queue. `sysSemInit` of a fork and `sysCreateProcess`
may fail; the result of the latter is not looked at.
-/

import Mathlib.Logic.Function.Basic
import Mathlib.Tactic.Common

namespace SoTp.Phylo

def PHYLO_AMOUNT : Nat := 5

def PHYLO_MAX_AMOUNT : Nat := 10

def PHYLO_MIN_AMOUNT : Nat := 2

inductive PhyloState where
  | eating | hungry | thinking | nothing
  deriving DecidableEq

inductive Pid where
  | controller
  | phylo (i : Nat)
  deriving DecidableEq

structure Semaphore where
  value : Nat
  queue : List Pid
  destroyed : Bool

/-- `change_phylos_sem`, `print_mutex` and the forks. -/
inductive SemId where
  | change
  | print
  | fork (f : Nat)
  deriving DecidableEq

/-! ### Processes -/

/-- The statements of a philosopher, those of `think`, `takeForks`, `eat`, `monitor` and
`leaveForks` in their places. -/
inductive Statement where
  | waitChange
  | think
  | thinkSleep
  | hungry
  | takeFirst
  | takeSecond
  | eat
  | eatSleep
  | waitPrint
  | print (i : Nat)
  | postPrint
  | leaveOwn
  | leaveRight
  | nothing
  | postChange
  deriving DecidableEq

def Statement.next : Statement → Statement
  | .waitChange => .think
  | .think => .thinkSleep
  | .thinkSleep => .hungry
  | .hungry => .takeFirst
  | .takeFirst => .takeSecond
  | .takeSecond => .eat
  | .eat => .eatSleep
  | .eatSleep => .waitPrint
  | .waitPrint => .print 0
  | .print _ => .postPrint
  | .postPrint => .leaveOwn
  | .leaveOwn => .leaveRight
  | .leaveRight => .nothing
  | .nothing => .postChange
  | .postChange => .waitChange

structure Process where
  statement : Statement
  blocked : Bool
  deriving DecidableEq

/-- What the controlling process does when it holds the whole table. -/
inductive Command where
  | addPhylo (pos : Nat)
  | remPhylo (pos : Nat)
  | endPhylos

/-- The statements of the controlling process. After `freeAll` it reads the next key, or it
exits. -/
inductive Control where
  | blockAllToInitiate (i : Nat)
  | initFork (i : Nat)
  | initProcess (i : Nat)
  | initState (i : Nat)
  | initTable (i : Nat)
  | getKey
  | blockAll (command : Command) (i : Nat)
  | addFork (pos : Nat)
  | addState (pos : Nat)
  | addProcess (pos : Nat)
  | addTable (pos : Nat)
  | remKill (pos : Nat)
  | remFork (pos : Nat)
  | remTable (pos : Nat)
  | endFork
  | endKill
  | endTable
  | endChange
  | endPrint
  | freeAll (i : Nat) (exits : Bool)
  | exited

/-- The loops that wait and post go round. -/
def Control.next : Control → Control
  | .blockAllToInitiate i => .blockAllToInitiate (i + 1)
  | .blockAll command i => .blockAll command (i + 1)
  | .freeAll i exits => .freeAll (i + 1) exits
  | at_ => at_

structure Controller where
  control : Control
  blocked : Bool

structure Table where
  phylosOnTable : Nat
  change : Semaphore
  printMutex : Semaphore
  fork : Nat → Semaphore
  state : Nat → PhyloState
  process : Nat → Option Process
  controller : Controller

/-! ### Forks -/

def rightFork (phylosOnTable i : Nat) : Nat := (i + 1) % phylosOnTable

/-- The forks in the order in which `takeForks` takes them. -/
def firstFork (phylosOnTable i : Nat) : Nat := if i % 2 = 1 then rightFork phylosOnTable i else i

def secondFork (phylosOnTable i : Nat) : Nat := if i % 2 = 1 then i else rightFork phylosOnTable i

namespace Table

def sem (t : Table) : SemId → Semaphore
  | .change => t.change
  | .print => t.printMutex
  | .fork f => t.fork f

def setSem (t : Table) (id : SemId) (s : Semaphore) : Table :=
  match id with
  | .change => { t with change := s }
  | .print => { t with printMutex := s }
  | .fork f => { t with fork := Function.update t.fork f s }

def setState (t : Table) (i : Nat) (s : PhyloState) : Table :=
  { t with state := Function.update t.state i s }

def setProcess (t : Table) (i : Nat) (p : Option Process) : Table :=
  { t with process := Function.update t.process i p }

/-- The process goes on behind the statement it is at. -/
def resume (t : Table) : Pid → Table
  | .controller => { t with controller := ⟨t.controller.control.next, false⟩ }
  | .phylo i => t.setProcess i ((t.process i).map fun p => ⟨p.statement.next, false⟩)

def block (t : Table) : Pid → Table
  | .controller => { t with controller := { t.controller with blocked := true } }
  | .phylo i => t.setProcess i ((t.process i).map fun p => { p with blocked := true })

/-! ### System calls -/

def sysWaitSem (t : Table) (pid : Pid) (id : SemId) : Table :=
  let s := t.sem id
  if s.destroyed then t.resume pid
  else if s.value > 0 then (t.setSem id { s with value := s.value - 1 }).resume pid
  else (t.setSem id { s with queue := s.queue ++ [pid] }).block pid

def sysPostSem (t : Table) (pid : Pid) (id : SemId) : Table :=
  let s := t.sem id
  if s.destroyed then t.resume pid
  else
    match s.queue with
    | [] => (t.setSem id { s with value := s.value + 1 }).resume pid
    | toReady :: queue => ((t.setSem id { s with queue }).resume toReady).resume pid

/-- `phylo[i].fork_at_index = sysSemInit(1)`. -/
def sysSemInit (t : Table) (f : Nat) : Table := t.setSem (.fork f) ⟨1, [], false⟩

def sysDestroySemaphore (t : Table) (id : SemId) : Table × Bool :=
  let s := t.sem id
  if s.destroyed then (t, false)
  else (s.queue.foldl resume (t.setSem id { s with queue := [], destroyed := true }), true)

def sysCreateProcess (t : Table) (i : Nat) (made : Bool) : Table :=
  if made then t.setProcess i (some ⟨.waitChange, false⟩) else t

/-- A semaphore without a process in its queue. -/
def without (pid : Pid) (s : Semaphore) : Semaphore := { s with queue := s.queue.filter (· ≠ pid) }

def sysKill (t : Table) (i : Nat) : Table × Bool :=
  match t.process i with
  | none => (t, false)
  | some _ =>
      ({ t.setProcess i none with
          change := without (.phylo i) t.change
          printMutex := without (.phylo i) t.printMutex
          fork := fun f => without (.phylo i) (t.fork f) }, true)

/-! ### Philosophers -/

def goto (t : Table) (i : Nat) (statement : Statement) : Table :=
  t.setProcess i (some ⟨statement, false⟩)

/-- The next statement of philosopher `i`. -/
def phyloStep (t : Table) (i : Nat) : Statement → Table
  | .waitChange => t.sysWaitSem (.phylo i) .change
  | .think => (t.setState i .thinking).resume (.phylo i)
  | .thinkSleep => t.resume (.phylo i)
  | .hungry => (t.setState i .hungry).resume (.phylo i)
  | .takeFirst => t.sysWaitSem (.phylo i) (.fork (firstFork t.phylosOnTable i))
  | .takeSecond => t.sysWaitSem (.phylo i) (.fork (secondFork t.phylosOnTable i))
  | .eat => (t.setState i .eating).resume (.phylo i)
  | .eatSleep => t.resume (.phylo i)
  | .waitPrint => t.sysWaitSem (.phylo i) .print
  | .print k => if k < t.phylosOnTable then t.goto i (.print (k + 1)) else t.resume (.phylo i)
  | .postPrint => t.sysPostSem (.phylo i) .print
  | .leaveOwn => t.sysPostSem (.phylo i) (.fork i)
  | .leaveRight => t.sysPostSem (.phylo i) (.fork (rightFork t.phylosOnTable i))
  | .nothing => (t.setState i .nothing).resume (.phylo i)
  | .postChange => t.sysPostSem (.phylo i) .change

/-! ### The controlling process -/

inductive Key where
  | a | r | e | other | eof

def goes (t : Table) (control : Control) : Table := { t with controller := ⟨control, false⟩ }

/-- What a key leads to. -/
def pressed (t : Table) : Key → Control
  | .a =>
      let pos := t.phylosOnTable
      if pos < PHYLO_MIN_AMOUNT ∨ pos ≥ PHYLO_MAX_AMOUNT then .getKey
        else .blockAll (.addPhylo pos) 0
  | .r =>
      let pos := t.phylosOnTable - 1
      if pos < PHYLO_MIN_AMOUNT ∨ pos ≥ t.phylosOnTable then .getKey
        else .blockAll (.remPhylo pos) 0
  | .e => .blockAll .endPhylos 0
  | .other => .getKey
  | .eof => .exited

/-- The next statement of the controlling process, with the key it reads, and whether what
it asks for can be made. -/
def controlStep (t : Table) (key : Key) (made : Bool) : Control → Table
  | .blockAllToInitiate i =>
      if i < PHYLO_AMOUNT then t.sysWaitSem .controller .change else t.goes (.initFork 0)
  | .initFork i =>
      if i < PHYLO_AMOUNT then
        if made then (t.sysSemInit i).goes (.initProcess i) else t.goes .exited
      else t.goes (.freeAll 0 false)
  | .initProcess i => (t.sysCreateProcess i made).goes (.initState i)
  | .initState i => (t.setState i .thinking).goes (.initTable i)
  | .initTable i => { t with phylosOnTable := t.phylosOnTable + 1 }.goes (.initFork (i + 1))
  | .getKey => t.goes (t.pressed key)
  | .blockAll command i =>
      if i < t.phylosOnTable then t.sysWaitSem .controller .change
      else
        match command with
        | .addPhylo pos => t.goes (.addFork pos)
        | .remPhylo pos => t.goes (.remKill pos)
        | .endPhylos => t.goes .endFork
  | .addFork pos =>
      if made then (t.sysSemInit pos).goes (.addState pos) else t.goes (.freeAll 0 true)
  | .addState pos => (t.setState pos .thinking).goes (.addProcess pos)
  | .addProcess pos => (t.sysCreateProcess pos made).goes (.addTable pos)
  | .addTable _ => { t with phylosOnTable := t.phylosOnTable + 1 }.goes (.freeAll 0 false)
  | .remKill pos =>
      let (t, killed) := t.sysKill pos
      if killed then t.goes (.remFork pos) else t.goes (.freeAll 0 true)
  | .remFork pos =>
      let (t, destroyed) := t.sysDestroySemaphore (.fork pos)
      if destroyed then t.goes (.remTable pos) else t.goes (.freeAll 0 true)
  | .remTable pos => { t with phylosOnTable := pos }.goes (.freeAll 0 false)
  | .endFork =>
      if t.phylosOnTable > 0 then
        let (t, destroyed) := t.sysDestroySemaphore (.fork (t.phylosOnTable - 1))
        if destroyed then t.goes .endKill else t.goes (.freeAll 0 true)
      else t.goes .endChange
  | .endKill =>
      let (t, killed) := t.sysKill (t.phylosOnTable - 1)
      if killed then t.goes .endTable else t.goes (.freeAll 0 true)
  | .endTable => { t with phylosOnTable := t.phylosOnTable - 1 }.goes .endFork
  | .endChange =>
      let (t, destroyed) := t.sysDestroySemaphore .change
      if destroyed then t.goes .endPrint else t.goes .exited
  | .endPrint => (t.sysDestroySemaphore .print).1.goes .exited
  | .freeAll i exits =>
      if i < t.phylosOnTable then t.sysPostSem .controller .change
      else if exits then t.goes .exited else t.goes .getKey
  | .exited => t

end Table

/-! ### Runs -/

/-- Who takes the next step. -/
inductive Act where
  | phylo (i : Nat)
  | controller (key : Table.Key) (made : Bool)

/-- A step of a process that is there, and not blocked. -/
def Act.perform (t : Table) : Act → Option Table
  | .phylo i =>
      match t.process i with
      | some ⟨statement, false⟩ => some (t.phyloStep i statement)
      | _ => none
  | .controller key made =>
      if t.controller.blocked then none else some (t.controlStep key made t.controller.control)

/-- `commandPhylo` has made `change_phylos_sem` and `print_mutex`. The arrays hold what
they held before. -/
def initial (state : Nat → PhyloState) (fork : Nat → Semaphore) : Table where
  phylosOnTable := 0
  change := ⟨PHYLO_AMOUNT, [], false⟩
  printMutex := ⟨1, [], false⟩
  fork := fun f => { fork f with queue := [] }
  state := state
  process := fun _ => none
  controller := ⟨.blockAllToInitiate 0, false⟩

/-- The states of the runs whose steps all meet a condition. -/
inductive Run (Ok : Table → Act → Prop) : Table → Prop
  | initial (state : Nat → PhyloState) (fork : Nat → Semaphore) : Run Ok (initial state fork)
  | step {t t' : Table} (before : Run Ok t) (act : Act) (ok : Ok t act)
      (perform : act.perform t = some t') : Run Ok t'

end SoTp.Phylo
