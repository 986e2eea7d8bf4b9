/-
The tables of semaphores and pipes (`Kernel/c/semaphores.c`, `Kernel/c/pipes.c`): who gets
which id. A C string is the list of its characters; `semArray` and `pipeArray`, each with
its `freedPositions`, are tables of slots, and the memory they ask for is there, so that no
id comes near `2^31`.

`serial` is the number of an object among the events of its table, and the logs say what
was created and destroyed; the code does not have them. The processes that wait are no
matter here: destroying a semaphore readies them, or finishes them off, and neither
touches a table.

* `Inv.addSem`, `Inv.destroySemaphore`, `Inv.addPipe`, `Inv.releasePipe` — what one
  statement preserves.
* `Inv.tells` — every call did what its result tells.
* `ids_never_shared` — in every run each table agrees with its log, and no semaphore
  belongs to two pipes.
-/

import SoTp.Lib.Slots
import Mathlib.Algebra.Ring.Nat

namespace SoTp.Ids

open SoTp.Lib

def MAX_SEM_NAME : Nat := 50

def BUFFER_SIZE : Nat := 40

structure Semaphore where
  value : Nat
  destroyed : Bool
  name : List UInt8
  serial : Nat

structure Pipe where
  writeIdx : Nat
  readIdx : Nat
  mutex : Int
  emptyCountSem : Int
  writtenCountSem : Int
  destroyed : Bool
  serial : Nat

/-- The semaphore is one of the pipe's three. -/
def Pipe.Has (p : Pipe) (semId : Int) : Prop :=
  semId = p.mutex ∨ semId = p.writtenCountSem ∨ semId = p.emptyCountSem

structure Tables where
  semaphores : Slots Semaphore
  pipes : Slots Pipe
  semLog : List (Event Nat)
  pipeLog : List (Event Nat)

namespace Tables

/-! ### Semaphores -/

/-- The semaphore the operations find under an id: `Array_get`, and it is not destroyed. -/
def getSem (t : Tables) (semId : Int) : Option Semaphore :=
  t.semaphores.live Semaphore.destroyed semId

def findName (t : Tables) (name : List UInt8) : Int :=
  match t.semaphores.cells.findIdx? fun sem => !sem.destroyed && name == sem.name with
  | some i => i
  | none => -1

def addSem (t : Tables) (name : List UInt8) (initialValue : Nat) : Tables × Int :=
  let sem : Semaphore := ⟨initialValue, false, name.take MAX_SEM_NAME, t.semLog.length⟩
  if name.length > MAX_SEM_NAME then (t, -1)
  else
    let (semaphores, semId) := t.semaphores.alloc sem
    ({ t with semaphores, semLog := t.semLog ++ [.created semId sem.serial] }, semId)

def semInit (t : Tables) (initialValue : Nat) : Tables × Int := t.addSem [] initialValue

def createSemaphore (t : Tables) (name : List UInt8) (initialValue : Nat) : Tables × Int :=
  if t.findName name ≥ 0 then (t, -1) else t.addSem name initialValue

def openSemaphore (t : Tables) (name : List UInt8) (value : Nat) : Tables × Int :=
  let semId := t.findName name
  if semId < 0 then t.addSem name value else (t, semId)

def destroySemaphore (t : Tables) (semId : Int) : Tables × Bool :=
  match t.getSem semId with
  | none => (t, false)
  | some sem =>
      ({ t with
          semaphores := t.semaphores.release semId { sem with destroyed := true }
          semLog := t.semLog ++ [.destroyed semId] }, true)

def destroySemaphoreByName (t : Tables) (name : List UInt8) : Tables × Bool :=
  t.destroySemaphore (t.findName name)

/-! ### Pipes -/

/-- `Array_set` or `Array_push`, whichever `pipeInit` comes to. -/
def addPipe (t : Tables) (p : Pipe) : Tables × Int :=
  let (pipes, pipeId) := t.pipes.alloc p
  ({ t with pipes, pipeLog := t.pipeLog ++ [.created pipeId p.serial] }, pipeId)

def pipeInit (t : Tables) : Tables × Int :=
  let (t, mutex) := t.semInit 1
  let (t, writtenCountSem) := t.semInit 0
  let (t, emptyCountSem) := t.semInit BUFFER_SIZE
  t.addPipe
    { writeIdx := 0, readIdx := 0, mutex, emptyCountSem, writtenCountSem
      destroyed := false, serial := t.pipeLog.length }

def getPipe (t : Tables) (pipeId : Int) : Option Pipe := t.pipes.live Pipe.destroyed pipeId

/-- `p->destroyed = true`, and the push of the id. -/
def releasePipe (t : Tables) (pipeId : Int) (p : Pipe) : Tables :=
  { t with
    pipes := t.pipes.release pipeId { p with destroyed := true }
    pipeLog := t.pipeLog ++ [.destroyed pipeId] }

def destroyPipe (t : Tables) (pipeId : Int) : Tables × Bool :=
  if 0 ≤ pipeId ∧ pipeId ≤ 2 then (t, false)
  else
    match t.getPipe pipeId with
    | none => (t, false)
    | some p =>
        let t := t.releasePipe pipeId p
        let t := (t.destroySemaphore p.mutex).1
        let t := (t.destroySemaphore p.writtenCountSem).1
        ((t.destroySemaphore p.emptyCountSem).1, true)

/-- `initializeSemaphores` and `initializePipes`: the pipes stdout, stdin and stderr. -/
def initial : Tables :=
  ((((⟨⟨[], []⟩, ⟨[], []⟩, [], []⟩ : Tables).pipeInit).1.pipeInit).1.pipeInit).1

end Tables

/-! ### Runs -/

inductive Call where
  | semInit (initialValue : Nat)
  | createSemaphore (name : List UInt8) (initialValue : Nat)
  | openSemaphore (name : List UInt8) (value : Nat)
  | destroySemaphore (semId : Int)
  | destroySemaphoreByName (name : List UInt8)
  | pipeInit
  | destroyPipe (pipeId : Int)

namespace Call

def perform (t : Tables) : Call → Tables
  | .semInit initialValue => (t.semInit initialValue).1
  | .createSemaphore name initialValue => (t.createSemaphore name initialValue).1
  | .openSemaphore name value => (t.openSemaphore name value).1
  | .destroySemaphore semId => (t.destroySemaphore semId).1
  | .destroySemaphoreByName name => (t.destroySemaphoreByName name).1
  | .pipeInit => t.pipeInit.1
  | .destroyPipe pipeId => (t.destroyPipe pipeId).1

/-- Names are not empty, and no semaphore of a pipe is destroyed but with the pipe. -/
def Allowed (t : Tables) : Call → Prop
  | .createSemaphore name _ | .openSemaphore name _ | .destroySemaphoreByName name => name ≠ []
  | .destroySemaphore semId => ∀ pipeId p, t.getPipe pipeId = some p → ¬ p.Has semId
  | .semInit _ | .pipeInit | .destroyPipe _ => True

/-- The call creates a semaphore and returns its id. -/
def CreatesSem (t : Tables) (semId : Int) : Call → Prop
  | .semInit initialValue => (t.semInit initialValue).2 = semId
  | .createSemaphore name initialValue =>
      0 ≤ semId ∧ (t.createSemaphore name initialValue).2 = semId
  | .openSemaphore name value =>
      0 ≤ semId ∧ (t.openSemaphore name value).2 = semId ∧
        ∀ id sem, t.getSem id = some sem → sem.name ≠ name
  | .destroySemaphore _ | .destroySemaphoreByName _ | .pipeInit | .destroyPipe _ => False

/-- The call creates a pipe and returns its id. -/
def CreatesPipe (t : Tables) (pipeId : Int) : Call → Prop
  | .pipeInit => t.pipeInit.2 = pipeId
  | .semInit _ | .createSemaphore .. | .openSemaphore .. | .destroySemaphore _
  | .destroySemaphoreByName _ | .destroyPipe _ => False

end Call

namespace Tables

/-- One semaphore more, and the pipes as they were. -/
structure AddsSem (t t' : Tables) (semId : Int) (sem : Semaphore) : Prop where
  semaphores :
    Slots.Adds Semaphore.destroyed Semaphore.serial t.semaphores t'.semaphores t.semLog t'.semLog
    semId sem
  pipes : t'.pipes = t.pipes ∧ t'.pipeLog = t.pipeLog

/-- One semaphore less, and the pipes as they were. -/
structure DropsSem (t t' : Tables) (semId : Int) : Prop where
  semaphores : Slots.Drops Semaphore.destroyed t.semaphores t'.semaphores t.semLog t'.semLog semId
  pipes : t'.pipes = t.pipes ∧ t'.pipeLog = t.pipeLog

structure AddsPipe (t t' : Tables) (pipeId : Int) (p : Pipe) : Prop where
  pipes : Slots.Adds Pipe.destroyed Pipe.serial t.pipes t'.pipes t.pipeLog t'.pipeLog pipeId p
  semaphores : t'.semaphores = t.semaphores ∧ t'.semLog = t.semLog

structure DropsPipe (t t' : Tables) (pipeId : Int) : Prop where
  pipes : Slots.Drops Pipe.destroyed t.pipes t'.pipes t.pipeLog t'.pipeLog pipeId
  semaphores : t'.semaphores = t.semaphores ∧ t'.semLog = t.semLog

end Tables

/-- What a call did, as its result tells. -/
def Call.Tells (t : Tables) : Call → Prop
  | .semInit initialValue =>
      ∃ sem, t.AddsSem (t.semInit initialValue).1 (t.semInit initialValue).2 sem
  | .createSemaphore name initialValue =>
      t.createSemaphore name initialValue = (t, -1) ∨ ∃ sem, sem.name = name ∧
        t.AddsSem (t.createSemaphore name initialValue).1
          (t.createSemaphore name initialValue).2 sem
  | .openSemaphore name value =>
      t.openSemaphore name value = (t, -1) ∨
      ((t.openSemaphore name value).1 = t ∧ ∃ sem, sem.name = name ∧
        t.getSem (t.openSemaphore name value).2 = some sem) ∨
      ∃ sem, sem.name = name ∧
        t.AddsSem (t.openSemaphore name value).1 (t.openSemaphore name value).2 sem
  | .destroySemaphore semId =>
      if (t.destroySemaphore semId).2 then t.DropsSem (t.destroySemaphore semId).1 semId
      else (t.destroySemaphore semId).1 = t ∧ t.getSem semId = none
  | .destroySemaphoreByName name =>
      if (t.destroySemaphoreByName name).2 then ∃ semId sem, t.getSem semId = some sem ∧
        sem.name = name ∧ t.DropsSem (t.destroySemaphoreByName name).1 semId
      else (t.destroySemaphoreByName name).1 = t ∧ ∀ semId sem, t.getSem semId = some sem →
        sem.name ≠ name
  | .pipeInit => ∃ p sem₁ sem₂ sem₃ t₁ t₂ t₃, t.AddsSem t₁ p.mutex sem₁ ∧
      t₁.AddsSem t₂ p.writtenCountSem sem₂ ∧ t₂.AddsSem t₃ p.emptyCountSem sem₃ ∧
        t₃.AddsPipe t.pipeInit.1 t.pipeInit.2 p
  | .destroyPipe pipeId =>
      if (t.destroyPipe pipeId).2 then ∃ p t₀ t₁ t₂, t.getPipe pipeId = some p ∧
        t.DropsPipe t₀ pipeId ∧ t₀.DropsSem t₁ p.mutex ∧ t₁.DropsSem t₂ p.writtenCountSem ∧
          t₂.DropsSem (t.destroyPipe pipeId).1 p.emptyCountSem
      else (t.destroyPipe pipeId).1 = t ∧ (0 ≤ pipeId ∧ pipeId ≤ 2 ∨ t.getPipe pipeId = none)

inductive Reached : Tables → Prop
  | init : Reached Tables.initial
  | call {t : Tables} (before : Reached t) (c : Call) (allowed : c.Allowed t) :
      Reached (c.perform t)

/-! ### The invariant -/

/-- The three semaphores of a pipe are three. -/
def Pipe.Distinct (p : Pipe) : Prop :=
  p.mutex ≠ p.writtenCountSem ∧ p.mutex ≠ p.emptyCountSem ∧ p.writtenCountSem ≠ p.emptyCountSem

/-- No pipe has the semaphore. -/
def Tables.Unowned (t : Tables) (semId : Int) : Prop :=
  ∀ pipeId p, t.getPipe pipeId = some p → ¬ p.Has semId

/-- A semaphore without a name. -/
def Tables.Anonymous (t : Tables) (semId : Int) : Prop := ∃ sem, t.getSem semId = some sem ∧
    sem.name = []

structure Inv (t : Tables) : Prop where
  semaphores : t.semaphores.Tracks Semaphore.destroyed Semaphore.serial t.semLog
  pipes : t.pipes.Tracks Pipe.destroyed Pipe.serial t.pipeLog
  owned : ∀ pipeId p, t.getPipe pipeId = some p → ∀ semId, p.Has semId → t.Anonymous semId
  distinct : ∀ pipeId p, t.getPipe pipeId = some p → p.Distinct
  unshared : ∀ i p j q semId, t.getPipe i = some p → t.getPipe j = some q →
    p.Has semId → q.Has semId → i = j

section Statements

variable {t : Tables}

/-- What `addSem` does: it finds the name too long, or puts a semaphore under an id that
named none. -/
theorem Inv.addSem (inv : Inv t) (name : List UInt8) (initialValue : Nat) :
    (MAX_SEM_NAME < name.length ∧ t.addSem name initialValue = (t, -1)) ∨
    (name.length ≤ MAX_SEM_NAME ∧ ∃ semId sem, (t.addSem name initialValue).2 = semId ∧
      sem.name = name ∧
      t.getSem semId = none ∧ (t.addSem name initialValue).1.getSem =
        Function.update t.getSem semId (some sem) ∧
      (t.addSem name initialValue).1.pipes = t.pipes ∧
      (t.addSem name initialValue).1.pipeLog = t.pipeLog ∧ Inv (t.addSem name initialValue).1) := by
  by_cases long : name.length > MAX_SEM_NAME
  · exact Or.inl ⟨long, by rw [Tables.addSem, if_pos long]⟩
  · refine Or.inr ⟨Nat.le_of_not_lt long, ?_⟩
    set sem : Semaphore :=
      ⟨initialValue, false, name.take MAX_SEM_NAME, t.semLog.length⟩ with sem_eq
    have added : t.addSem name initialValue =
        ({ t with
            semaphores := (t.semaphores.alloc sem).1
            semLog := t.semLog ++ [.created (t.semaphores.alloc sem).2 sem.serial] },
          (t.semaphores.alloc sem).2) := by
      rw [Tables.addSem, if_neg long]
    have tracks := inv.semaphores.alloc (x := sem) rfl
    have unused := Slots.alloc_unused inv.semaphores.sound sem
    have get : (t.addSem name initialValue).1.getSem =
        Function.update t.getSem (t.semaphores.alloc sem).2 (some sem) := by
      rw [added]
      exact Slots.live_update (Slots.alloc_get inv.semaphores.sound sem)
    have pipes : (t.addSem name initialValue).1.pipes = t.pipes := by rw [added]
    have getPipe : (t.addSem name initialValue).1.getPipe = t.getPipe := by
      unfold Tables.getPipe
      rw [pipes]
    refine ⟨_, sem, by rw [added], List.take_of_length_le (Nat.le_of_not_lt long),
      unused, get, pipes, by rw [added], ⟨?_, ?_, fun i p => ?_, ?_, ?_⟩⟩
    · rw [added]
      exact tracks
    · rw [added]
      exact inv.pipes
    · rw [getPipe]
      intro held semId has
      obtain ⟨sem', found, anonymous⟩ := inv.owned i p held semId has
      refine ⟨sem', ?_, anonymous⟩
      have ne : semId ≠ (t.semaphores.alloc sem).2 := fun same => by
        rw [same] at found
        cases unused.symm.trans found
      rw [get, Function.update_of_ne ne, found]
    · rw [getPipe]
      exact inv.distinct
    · rw [getPipe]
      exact inv.unshared

/-- A semaphore that no pipe has may be destroyed. -/
theorem Inv.destroySemaphore (inv : Inv t) {semId : Int} (unowned : t.Unowned semId) :
    Inv (t.destroySemaphore semId).1 ∧ (t.destroySemaphore semId).1.pipes = t.pipes := by
  unfold Tables.destroySemaphore
  cases found : t.getSem semId with
  | none => exact ⟨inv, rfl⟩
  | some sem =>
      have get : ∀ id ≠ semId, (t.semaphores.release semId { sem with destroyed := true }).live
          Semaphore.destroyed id = t.getSem id := fun id ne => by
        rw [Slots.release_live found rfl, Function.update_of_ne ne]
        rfl
      refine ⟨⟨inv.semaphores.release found rfl, inv.pipes, fun i p pipe id has => ?_, inv.distinct,
        inv.unshared⟩, rfl⟩
      obtain ⟨sem', found', anonymous⟩ := inv.owned i p pipe id has
      have ne : id ≠ semId := fun same => unowned i p pipe (same ▸ has)
      exact ⟨sem', (get id ne).trans found', anonymous⟩

/-- A pipe may get three semaphores that no other pipe has. -/
theorem Inv.addPipe (inv : Inv t) {p : Pipe} (alive : p.destroyed = false) (distinct : p.Distinct)
    (anonymous : ∀ semId, p.Has semId → t.Anonymous semId)
    (unowned : ∀ semId, p.Has semId → t.Unowned semId) : Inv (t.addPipe p).1 := by
  have get : (t.addPipe p).1.getPipe = Function.update t.getPipe (t.pipes.alloc p).2 (some p) := by
    show (t.pipes.alloc p).1.live Pipe.destroyed = _
    rw [Slots.live_update (Slots.alloc_get inv.pipes.sound p), alive]
    rfl
  have cases_get : ∀ i q, (t.addPipe p).1.getPipe i = some q →
      (i = (t.pipes.alloc p).2 ∧ q = p) ∨ t.getPipe i = some q := fun i q held => by
    rw [get] at held
    by_cases same : i = (t.pipes.alloc p).2
    · rw [same, Function.update_self] at held
      exact Or.inl ⟨same, (Option.some.inj held).symm⟩
    · rw [Function.update_of_ne same] at held
      exact Or.inr held
  refine ⟨inv.semaphores, inv.pipes.alloc alive, fun i q held semId has => ?_, fun i q held => ?_,
    fun i q j r semId held held' has has' => ?_⟩
  · rcases cases_get i q held with ⟨-, rfl⟩ | old
    · exact anonymous semId has
    · exact inv.owned i q old semId has
  · rcases cases_get i q held with ⟨-, rfl⟩ | old
    · exact distinct
    · exact inv.distinct i q old
  · rcases cases_get i q held with ⟨rfl, rfl⟩ | old <;>
      rcases cases_get j r held' with ⟨rfl, rfl⟩ | old'
    · rfl
    · exact absurd has' (unowned semId has j r old')
    · exact absurd has (unowned semId has' i q old)
    · exact inv.unshared i q j r semId old old' has has'

/-- A pipe that is destroyed leaves its semaphores to nobody. -/
theorem Inv.releasePipe (inv : Inv t) {pipeId : Int} {p : Pipe} (held : t.getPipe pipeId = some p) :
    Inv (t.releasePipe pipeId p) ∧ ∀ semId, p.Has semId →
      (t.releasePipe pipeId p).Unowned semId := by
  have get : (t.releasePipe pipeId p).getPipe = Function.update t.getPipe pipeId none :=
    Slots.release_live held rfl
  have old : ∀ i q, (t.releasePipe pipeId p).getPipe i = some q → i ≠ pipeId ∧
      t.getPipe i = some q :=
    fun i q found => by
      rw [get] at found
      by_cases same : i = pipeId
      · rw [same, Function.update_self] at found
        cases found
      · rw [Function.update_of_ne same] at found
        exact ⟨same, found⟩
  refine ⟨⟨inv.semaphores, inv.pipes.release held rfl, fun i q found => ?_, fun i q found => ?_,
    fun i q j r semId found found' => ?_⟩, fun semId has i q found has' => ?_⟩
  · exact inv.owned i q (old i q found).2
  · exact inv.distinct i q (old i q found).2
  · exact inv.unshared i q j r semId (old i q found).2 (old j r found').2
  · obtain ⟨ne, found⟩ := old i q found
    exact ne (inv.unshared i q pipeId p semId found held has' has)

end Statements

/-! ### Calls -/

section Calls

variable {t : Tables}

/-- `semInit` fills an unused slot, and leaves the pipes. -/
theorem Inv.semInit (inv : Inv t) (initialValue : Nat) :
    ∃ semId sem, (t.semInit initialValue).2 = semId ∧ sem.name = [] ∧ t.getSem semId = none ∧
    (t.semInit initialValue).1.getSem = Function.update t.getSem semId (some sem) ∧
    (t.semInit initialValue).1.getPipe = t.getPipe ∧
    (t.semInit initialValue).1.pipeLog = t.pipeLog ∧ Inv (t.semInit initialValue).1 := by
  rcases inv.addSem [] initialValue with ⟨long, -⟩ | ⟨-, semId, sem, id, name, unused, get,
    pipes, log, inv'⟩
  · exact absurd long (Nat.not_lt_zero _)
  · have getPipe : (t.semInit initialValue).1.getPipe = t.getPipe := by
      show Slots.live _ (t.addSem [] initialValue).1.pipes = _
      rw [pipes]
      rfl
    exact ⟨semId, sem, id, name, unused, get, getPipe, log, inv'⟩

/-- A semaphore that is not there belongs to no pipe. -/
theorem Inv.unowned (inv : Inv t) {semId : Int} (none : t.getSem semId = none) : t.Unowned semId :=
  fun i p held has => by
    obtain ⟨sem, found, -⟩ := inv.owned i p held semId has
    cases none.symm.trans found

/-- Creating a pipe keeps the tables sound, and its id was unused. -/
theorem Inv.pipeInit (inv : Inv t) :
    Inv t.pipeInit.1 ∧ t.getPipe t.pipeInit.2 = none := by
  obtain ⟨mutex, sem₁, id₁, name₁, new₁, get₁, pipes₁, -, inv₁⟩ := inv.semInit 1
  obtain ⟨written, sem₂, id₂, name₂, new₂, get₂, pipes₂, -, inv₂⟩ := inv₁.semInit 0
  obtain ⟨empty, sem₃, id₃, name₃, new₃, get₃, pipes₃, -, inv₃⟩ := inv₂.semInit BUFFER_SIZE
  set t₁ := (t.semInit 1).1
  set t₂ := (t₁.semInit 0).1
  set t₃ := (t₂.semInit BUFFER_SIZE).1
  have ne₁₂ : mutex ≠ written := fun same => by
    rw [get₁, same, Function.update_self] at new₂
    cases new₂
  have ne₁₃ : mutex ≠ empty := fun same => by
    rw [get₂, Function.update_of_ne (same ▸ ne₁₂), get₁, same, Function.update_self] at new₃
    cases new₃
  have ne₂₃ : written ≠ empty := fun same => by
    rw [get₂, same, Function.update_self] at new₃
    cases new₃
  set p : Pipe := ⟨0, 0, mutex, empty, written, false, t₃.pipeLog.length⟩ with p_eq
  have made : t.pipeInit = t₃.addPipe p := by
    rw [p_eq, ← id₁, ← id₂, ← id₃]
    rfl
  have getPipe : t₃.getPipe = t.getPipe := by rw [pipes₃, pipes₂, pipes₁]
  have new : ∀ semId, p.Has semId → t.getSem semId = none := by
    rintro semId (rfl | rfl | rfl)
    · exact new₁
    · rw [get₁, Function.update_of_ne ne₁₂.symm] at new₂
      exact new₂
    · rw [get₂, Function.update_of_ne ne₂₃.symm, get₁, Function.update_of_ne ne₁₃.symm] at new₃
      exact new₃
  have anonymous : ∀ semId, p.Has semId → t₃.Anonymous semId := by
    rintro semId (rfl | rfl | rfl)
    · refine ⟨sem₁, ?_, name₁⟩
      rw [get₃, Function.update_of_ne ne₁₃, get₂, Function.update_of_ne ne₁₂, get₁,
        Function.update_self]
    · refine ⟨sem₂, ?_, name₂⟩
      rw [get₃, Function.update_of_ne ne₂₃, get₂, Function.update_self]
    · refine ⟨sem₃, ?_, name₃⟩
      rw [get₃, Function.update_self]
  have unowned : ∀ semId, p.Has semId → t₃.Unowned semId := fun semId has => by
    unfold Tables.Unowned
    rw [getPipe]
    exact inv.unowned (new semId has)
  rw [made]
  refine ⟨inv₃.addPipe rfl ⟨ne₁₂, ne₁₃, ne₂₃⟩ anonymous unowned, ?_⟩
  rw [← getPipe]
  exact Slots.alloc_unused inv₃.pipes.sound p

/-- Destroying one keeps them sound. -/
theorem Inv.destroyPipe (inv : Inv t) (pipeId : Int) : Inv (t.destroyPipe pipeId).1 := by
  unfold Tables.destroyPipe
  split_ifs with standard
  · exact inv
  · cases held : t.getPipe pipeId with
    | none => exact inv
    | some p =>
        obtain ⟨inv, unowned⟩ := inv.releasePipe held
        have keep : ∀ {t' : Tables}, t'.pipes = (t.releasePipe pipeId p).pipes →
            ∀ semId, p.Has semId → t'.Unowned semId := fun same semId has i q found has' => by
          unfold Tables.getPipe at found
          rw [same] at found
          exact unowned semId has i q found has'
        obtain ⟨inv₁, pipes₁⟩ := inv.destroySemaphore (keep rfl p.mutex (Or.inl rfl))
        obtain ⟨inv₂, pipes₂⟩ :=
          inv₁.destroySemaphore (keep pipes₁ p.writtenCountSem (Or.inr (Or.inl rfl)))
        obtain ⟨inv₃, -⟩ :=
          inv₂.destroySemaphore (keep (pipes₂.trans pipes₁) p.emptyCountSem (Or.inr (Or.inr rfl)))
        exact inv₃

/-- A name that is found is that of a semaphore. -/
theorem Tables.findName_cases (t : Tables) (name : List UInt8) :
    (∃ sem, 0 ≤ t.findName name ∧ t.getSem (t.findName name) = some sem ∧ sem.name = name) ∨
    (t.findName name = -1 ∧ ∀ id sem, t.getSem id = some sem → sem.name ≠ name) := by
  unfold Tables.findName
  cases found : t.semaphores.cells.findIdx? fun sem => !sem.destroyed && name == sem.name with
  | some i =>
      obtain ⟨inside, same, -⟩ := List.findIdx?_eq_some_iff_getElem.mp found
      simp only [Bool.and_eq_true, Bool.not_eq_true', beq_iff_eq] at same
      refine Or.inl ⟨t.semaphores.cells[i], Int.natCast_nonneg i, Slots.live_some.mpr ⟨?_, same.1⟩,
        same.2.symm⟩
      rw [Slots.get, if_neg (Int.not_lt.mpr (Int.natCast_nonneg i)), Int.toNat_natCast]
      exact List.getElem?_eq_getElem inside
  | none =>
      refine Or.inr ⟨rfl, fun id sem held named => ?_⟩
      obtain ⟨held, alive⟩ := Slots.live_some.mp held
      unfold Slots.get at held
      split_ifs at held
      have := List.findIdx?_eq_none_iff.mp found sem (List.mem_of_getElem? held)
      simp [alive, named] at this

/-- Creating a semaphore keeps the tables sound, -/
theorem Inv.addSem_inv (inv : Inv t) (name : List UInt8) (initialValue : Nat) :
    Inv (t.addSem name initialValue).1 := by
  rcases inv.addSem name initialValue with ⟨-, eq⟩ | ⟨-, semId, sem, -, -, -, -, -, -, inv'⟩
  · rw [eq]
    exact inv
  · exact inv'

/-- under an id that was unused, -/
theorem Inv.addSem_unused (inv : Inv t) (name : List UInt8) (initialValue : Nat)
    (added : 0 ≤ (t.addSem name initialValue).2) :
      t.getSem (t.addSem name initialValue).2 = none := by
  rcases inv.addSem name initialValue with ⟨-, eq⟩ | ⟨-, semId, sem, rfl, -, unused, -⟩
  · rw [eq] at added
    cases added
  · exact unused

/-- Every call the rules allow keeps the invariant. -/
theorem Inv.perform (inv : Inv t) (c : Call) (allowed : c.Allowed t) : Inv (c.perform t) := by
  cases c with
  | semInit initialValue => exact inv.addSem_inv [] initialValue
  | createSemaphore name initialValue =>
      show Inv (t.createSemaphore name initialValue).1
      unfold Tables.createSemaphore
      split_ifs
      · exact inv
      · exact inv.addSem_inv name initialValue
  | openSemaphore name value =>
      show Inv (t.openSemaphore name value).1
      unfold Tables.openSemaphore
      dsimp only
      split_ifs
      · exact inv.addSem_inv name value
      · exact inv
  | destroySemaphore semId => exact (inv.destroySemaphore allowed).1
  | destroySemaphoreByName name =>
      have unowned : t.Unowned (t.findName name) := by
        rcases t.findName_cases name with ⟨sem, -, found, named⟩ | ⟨none, -⟩
        · intro i p held has
          obtain ⟨sem', found', anonymous⟩ := inv.owned i p held _ has
          cases found.symm.trans found'
          exact allowed (named.symm.trans anonymous)
        · rw [none]
          exact inv.unowned rfl
      exact (inv.destroySemaphore unowned).1
  | pipeInit => exact inv.pipeInit.1
  | destroyPipe pipeId => exact inv.destroyPipe pipeId

/-- with the name it was given. -/
theorem Inv.addSem_adds (inv : Inv t) {name : List UInt8} (short : name.length ≤ MAX_SEM_NAME)
    (initialValue : Nat) : ∃ sem, sem.name = name ∧
      t.AddsSem (t.addSem name initialValue).1 (t.addSem name initialValue).2 sem := by
  refine ⟨⟨initialValue, false, name.take MAX_SEM_NAME, t.semLog.length⟩,
    List.take_of_length_le short, ?_⟩
  rw [Tables.addSem, if_neg (Nat.not_lt.mpr short)]
  exact ⟨inv.semaphores.sound.adds rfl rfl, rfl, rfl⟩

/-- A name that is too long adds nothing, and any other one does. -/
theorem Inv.addSem_tells (inv : Inv t) (name : List UInt8) (initialValue : Nat) :
    t.addSem name initialValue = (t, -1) ∨ ∃ sem, sem.name = name ∧
      t.AddsSem (t.addSem name initialValue).1 (t.addSem name initialValue).2 sem := by
  by_cases long : name.length > MAX_SEM_NAME
  · exact Or.inl (by rw [Tables.addSem, if_pos long])
  · exact Or.inr (inv.addSem_adds (Nat.le_of_not_lt long) initialValue)

/-- `semInit` always adds one. -/
theorem Inv.semInit_tells (inv : Inv t) (initialValue : Nat) :
    ∃ sem, t.AddsSem (t.semInit initialValue).1 (t.semInit initialValue).2 sem := by
  have short : ([] : List UInt8).length ≤ MAX_SEM_NAME := Nat.zero_le _
  obtain ⟨sem, -, adds⟩ := inv.addSem_adds short initialValue
  exact ⟨sem, adds⟩

/-- A semaphore that is there can be destroyed. -/
theorem Tables.destroySemaphore_tells (t : Tables) (semId : Int) :
    if (t.destroySemaphore semId).2 then t.DropsSem (t.destroySemaphore semId).1 semId
    else (t.destroySemaphore semId).1 = t ∧ t.getSem semId = none := by
  unfold Tables.destroySemaphore
  cases found : t.getSem semId with
  | none => exact ⟨rfl, rfl⟩
  | some sem => exact ⟨Slots.release_drops found rfl, rfl, rfl⟩

/-- Destroying a semaphore that is there drops it. -/
theorem Tables.drops_of_there {semId : Int} {sem : Semaphore} (there : t.getSem semId = some sem) :
    t.DropsSem (t.destroySemaphore semId).1 semId := by
  have tells := t.destroySemaphore_tells semId
  split_ifs at tells with done
  · exact tells
  · cases there.symm.trans tells.2

/-- The other semaphores are still there. -/
theorem Tables.DropsSem.others {t' : Tables} {semId other : Int} (drops : t.DropsSem t' semId)
    (ne : other ≠ semId) : t'.getSem other = t.getSem other := by
  unfold Tables.getSem
  rw [drops.semaphores.gone, Function.update_of_ne ne]

/-- What `pipeInit` returns tells what it did, -/
theorem Inv.pipeInit_tells (inv : Inv t) : (Call.pipeInit).Tells t := by
  have inv₁ := inv.addSem_inv [] 1
  have inv₂ := inv₁.addSem_inv [] 0
  have inv₃ := inv₂.addSem_inv [] BUFFER_SIZE
  obtain ⟨sem₁, adds₁⟩ := inv.semInit_tells 1
  obtain ⟨sem₂, adds₂⟩ := inv₁.semInit_tells 0
  obtain ⟨sem₃, adds₃⟩ := inv₂.semInit_tells BUFFER_SIZE
  refine ⟨⟨0, 0, _, _, _, false,
    (((t.semInit 1).1.semInit 0).1.semInit BUFFER_SIZE).1.pipeLog.length⟩,
    sem₁, sem₂, sem₃, _, _, _, adds₁, adds₂, adds₃, ?_⟩
  exact ⟨inv₃.pipes.sound.adds rfl rfl, rfl, rfl⟩

/-- and so does `destroyPipe`. -/
theorem Inv.destroyPipe_tells (inv : Inv t) (pipeId : Int) : (Call.destroyPipe pipeId).Tells t := by
  show if (t.destroyPipe pipeId).2 then _ else _
  by_cases standard : 0 ≤ pipeId ∧ pipeId ≤ 2
  · rw [Tables.destroyPipe, if_pos standard]
    exact ⟨rfl, Or.inl standard⟩
  · rw [Tables.destroyPipe, if_neg standard]
    cases held : t.getPipe pipeId with
    | none => exact ⟨rfl, Or.inr rfl⟩
    | some p =>
        have drops : t.DropsPipe (t.releasePipe pipeId p) pipeId :=
          ⟨Slots.release_drops held rfl, rfl, rfl⟩
        obtain ⟨ne₁, ne₂, ne₃⟩ := inv.distinct pipeId p held
        obtain ⟨sem₁, there₁, -⟩ := inv.owned pipeId p held p.mutex (Or.inl rfl)
        obtain ⟨sem₂, there₂, -⟩ := inv.owned pipeId p held p.writtenCountSem (Or.inr (Or.inl rfl))
        obtain ⟨sem₃, there₃, -⟩ := inv.owned pipeId p held p.emptyCountSem (Or.inr (Or.inr rfl))
        have drops₁ : (t.releasePipe pipeId p).DropsSem _ p.mutex := Tables.drops_of_there there₁
        have drops₂ := Tables.drops_of_there ((drops₁.others ne₁.symm).trans there₂)
        have drops₃ := Tables.drops_of_there
          ((drops₂.others ne₃.symm).trans ((drops₁.others ne₂.symm).trans there₃))
        exact ⟨p, _, _, _, rfl, drops, drops₁, drops₂, drops₃⟩

/-- Every call did what its result tells. -/
theorem Inv.tells (inv : Inv t) (c : Call) : c.Tells t := by
  cases c with
  | semInit initialValue => exact inv.semInit_tells initialValue
  | createSemaphore name initialValue =>
      show t.createSemaphore name initialValue = (t, -1) ∨ _
      unfold Tables.createSemaphore
      split_ifs
      · exact Or.inl rfl
      · exact inv.addSem_tells name initialValue
  | openSemaphore name value =>
      show t.openSemaphore name value = (t, -1) ∨ _
      unfold Tables.openSemaphore
      dsimp only
      rcases t.findName_cases name with ⟨sem, nonneg, found, named⟩ | ⟨none, -⟩
      · rw [if_neg (Int.not_lt.mpr nonneg)]
        exact Or.inr (Or.inl ⟨rfl, sem, named, found⟩)
      · rw [none, if_pos (by decide)]
        exact (inv.addSem_tells name value).imp_right Or.inr
  | destroySemaphore semId => exact t.destroySemaphore_tells semId
  | destroySemaphoreByName name =>
      have tells := t.destroySemaphore_tells (t.findName name)
      show if (t.destroySemaphore (t.findName name)).2 then _ else _
      split_ifs at tells ⊢
      · obtain ⟨sem, there⟩ := Option.isSome_iff_exists.mp tells.semaphores.there
        rcases t.findName_cases name with ⟨sem', -, found, named⟩ | ⟨none, -⟩
        · exact ⟨_, sem', found, named, tells⟩
        · rw [none] at there
          cases there
      · rcases t.findName_cases name with ⟨sem, -, found, -⟩ | ⟨-, unnamed⟩
        · cases tells.2.symm.trans found
        · exact ⟨tells.1, unnamed⟩
  | pipeInit => exact inv.pipeInit_tells
  | destroyPipe pipeId => exact inv.destroyPipe_tells pipeId

/-- Every table reached is sound. -/
theorem Reached.inv (run : Reached t) : Inv t := by
  induction run with
  | init =>
      have none : ∀ i, (⟨⟨[], []⟩, ⟨[], []⟩, [], []⟩ : Tables).getPipe i = none := fun i => by
        simp [Tables.getPipe, Slots.live, Slots.get]
      have empty : Inv ⟨⟨[], []⟩, ⟨[], []⟩, [], []⟩ := by
        refine ⟨.empty, .empty, ?_, ?_, ?_⟩
        · intro i p held
          cases (none i).symm.trans held
        · intro i p held
          cases (none i).symm.trans held
        · intro i p j q semId held
          cases (none i).symm.trans held
      exact empty.pipeInit.1.pipeInit.1.pipeInit.1
  | call before c allowed inv => exact inv.perform c allowed

end Calls

/-- Semaphore and pipe ids are never shared. In every state a run reaches: every call did
what its result tells, so that an id it returns names the new object and the ids it
destroyed name nothing and are on the stack; a call that creates a semaphore or a pipe
returns an id that names none; what is found under an id is what was created under it
last, unless that was destroyed; the stack of freed positions holds the ids of what was
destroyed, each once; and a semaphore belongs to one pipe at most, in which it is there
and is one of three. -/
theorem ids_never_shared {t : Tables} (run : Reached t) :
    (∀ c : Call, c.Tells t) ∧
    (∀ (c : Call) (id : Int), c.Allowed t →
      (c.CreatesSem t id → t.getSem id = none) ∧ (c.CreatesPipe t id → t.getPipe id = none)) ∧
    (Event.Fresh t.semLog ∧ Event.Fresh t.pipeLog) ∧
    (∀ id, (t.getSem id).map Semaphore.serial = Event.registered t.semLog id ∧
      (t.getPipe id).map Pipe.serial = Event.registered t.pipeLog id) ∧
    (t.semaphores.freed.Nodup ∧ t.pipes.freed.Nodup ∧ ∀ id,
      (id ∈ t.semaphores.freed ↔ Event.Issued t.semLog id ∧ Event.registered t.semLog id = none) ∧
      (id ∈ t.pipes.freed ↔ Event.Issued t.pipeLog id ∧ Event.registered t.pipeLog id = none)) ∧
    (∀ i p semId, t.getPipe i = some p → p.Has semId → p.Distinct ∧ (t.getSem semId).isSome = true ∧
      ∀ j q, t.getPipe j = some q → q.Has semId → i = j) := by
  have inv := run.inv
  refine ⟨inv.tells, fun c id allowed => ⟨fun creates => ?_, fun creates => ?_⟩,
    ⟨inv.semaphores.fresh, inv.pipes.fresh⟩, fun id => ⟨inv.semaphores.live id, inv.pipes.live id⟩,
    ⟨inv.semaphores.sound.nodup, inv.pipes.sound.nodup, fun id =>
      ⟨inv.semaphores.freed_iff id, inv.pipes.freed_iff id⟩⟩, fun i p semId held has => ?_⟩
  · cases c with
    | semInit initialValue =>
        obtain ⟨semId, -, same, -, unused, -⟩ := inv.semInit initialValue
        cases same.symm.trans creates
        exact unused
    | createSemaphore name initialValue =>
        obtain ⟨nonneg, rfl⟩ := creates
        unfold Tables.createSemaphore at nonneg ⊢
        split_ifs at nonneg ⊢ with found
        · cases nonneg
        · exact inv.addSem_unused name initialValue nonneg
    | openSemaphore name value =>
        obtain ⟨nonneg, rfl, unnamed⟩ := creates
        have none : t.findName name = -1 := by
          rcases t.findName_cases name with ⟨sem, -, found, named⟩ | ⟨none, -⟩
          · exact absurd named (unnamed _ _ found)
          · exact none
        unfold Tables.openSemaphore at nonneg ⊢
        dsimp only at nonneg ⊢
        rw [none, if_pos (by decide)] at nonneg ⊢
        exact inv.addSem_unused name value nonneg
    | destroySemaphore _ | destroySemaphoreByName _ | pipeInit | destroyPipe _ => cases creates
  · cases c with
    | pipeInit =>
        obtain rfl : t.pipeInit.2 = id := creates
        exact inv.pipeInit.2
    | semInit _ | createSemaphore _ _ | openSemaphore _ _ | destroySemaphore _
    | destroySemaphoreByName _ | destroyPipe _ => cases creates
  · refine ⟨inv.distinct i p held, ?_, fun j q held' has' =>
      inv.unshared i p j q semId held held' has has'⟩
    obtain ⟨sem, found, -⟩ := inv.owned i p held semId has
    rw [found]
    rfl

/-- The tables after some calls. -/
def Tables.after (calls : List Call) : Tables := calls.foldl Call.perform Tables.initial

/-- A pipe is destroyed, two of its semaphores go to a named one and to a new pipe, and so
does its own id. -/
theorem ids_never_shared_recycled :
    let t := Tables.after [.pipeInit, .destroyPipe 3, .openSemaphore [97] 1, .pipeInit]
    (t.getPipe 3).map Pipe.mutex = some 10 ∧ t.findName [97] = 11 ∧ t.semaphores.freed = [] ∧
      (∀ j q, t.getPipe j = some q → q.Has 10 → 3 = j) ∧
        (Call.destroySemaphoreByName [97]).Tells t := by
  have run : Reached (Tables.after [.pipeInit, .destroyPipe 3, .openSemaphore [97] 1, .pipeInit]) :=
    ((((Reached.init.call .pipeInit trivial).call (.destroyPipe 3) trivial).call
      (.openSemaphore [97] 1) (List.cons_ne_nil _ _)).call .pipeInit trivial)
  obtain ⟨tells, -, -, -, -, unshared⟩ := ids_never_shared run
  exact ⟨by decide, by decide, by decide, (unshared 3 _ 10 rfl (Or.inl rfl)).2.2, tells _⟩

end SoTp.Ids
