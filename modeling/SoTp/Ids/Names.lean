/-
The names of semaphores. A semaphore that `semInit` creates has the empty name, which finds
it. `byName` says under which name an object was created, by its serial number; the code
does not have it.

* `Named.perform` — what every call preserves, whatever its arguments.
* `names_iff` — in every run, for which names the calls find what was created under them.
-/

import SoTp.Ids.Tables

namespace SoTp.Ids

open SoTp.Lib

abbrev Name := List UInt8

/-- The calls that create a semaphore under a name, and nothing else. -/
def Call.name : Call → Option Name
  | .createSemaphore name _ | .openSemaphore name _ => some name
  | .semInit _ | .destroySemaphore _ | .destroySemaphoreByName _ | .pipeInit | .destroyPipe _ =>
      none

/-- A semaphore that a call creates has the number of its event. -/
def Call.record (t : Tables) (byName : Nat → Option Name) (c : Call) : Nat → Option Name :=
  match c.name with
  | none => byName
  | some name =>
      if (c.perform t).semLog.length = t.semLog.length then byName
      else Function.update byName t.semLog.length (some name)

/-- Any calls, in any order. -/
inductive Run : Tables → (Nat → Option Name) → Prop
  | init : Run Tables.initial fun _ => none
  | call {t : Tables} {byName : Nat → Option Name} (before : Run t byName) (c : Call) :
      Run (c.perform t) (c.record t byName)

/-- The semaphore is there, and was created under the name. -/
def CreatedAs (t : Tables) (byName : Nat → Option Name) (semId : Int) (name : Name) : Prop :=
  ∃ sem, t.getSem semId = some sem ∧ byName sem.serial = some name

/-- The semaphore is there, and `semInit` created it. -/
def Unnamed (t : Tables) (byName : Nat → Option Name) (semId : Int) : Prop :=
  ∃ sem, t.getSem semId = some sem ∧ byName sem.serial = none

/-- The calls find the semaphore that was created under the name, and nothing if there is
none. -/
structure Finds (t : Tables) (byName : Nat → Option Name) (name : Name) : Prop where
  there : ∀ semId, CreatedAs t byName semId name → ∀ value, t.createSemaphore name value = (t, -1) ∧
    t.openSemaphore name value = (t, semId) ∧ t.destroySemaphoreByName name =
      t.destroySemaphore semId
  absent : (∀ semId, ¬ CreatedAs t byName semId name) → ∀ value,
    t.createSemaphore name value = t.addSem name value ∧
      t.openSemaphore name value = t.addSem name value ∧ t.destroySemaphoreByName name = (t, false)

/-- The name is not empty, or every semaphore of `semInit` comes behind one that was created
under the empty name. -/
def Distinguished (t : Tables) (byName : Nat → Option Name) (name : Name) : Prop :=
  name ≠ [] ∨ ∀ semId, Unnamed t byName semId → ∃ first < semId, CreatedAs t byName first []

/-! ### The invariant -/

structure Named (t : Tables) (byName : Nat → Option Name) : Prop where
  sound : t.semaphores.Sound Semaphore.destroyed
  serials : ∀ semId sem, t.getSem semId = some sem → sem.serial < t.semLog.length
  recorded : ∀ n, byName n ≠ none → n < t.semLog.length
  named : ∀ semId sem name, t.getSem semId = some sem → byName sem.serial = some name →
    sem.name = name
  unnamed : ∀ semId sem, t.getSem semId = some sem → byName sem.serial = none → sem.name = []
  short : ∀ semId sem, t.getSem semId = some sem → sem.name.length ≤ MAX_SEM_NAME
  unique : ∀ i j name, CreatedAs t byName i name → CreatedAs t byName j name → i = j

section Invariant

variable {t : Tables} {byName : Nat → Option Name} {name : Name}

/-- What `addSem` does to the semaphores there are. -/
theorem Named.addSem_get (named : Named t byName) (short : name.length ≤ MAX_SEM_NAME)
    (initialValue : Nat) : ∃ semId sem, sem.name = name ∧ sem.serial = t.semLog.length ∧ 0 ≤ semId ∧
      (t.addSem name initialValue).2 = semId ∧
      (t.addSem name initialValue).1.getSem = Function.update t.getSem semId (some sem) ∧
      (t.addSem name initialValue).1.semaphores.Sound Semaphore.destroyed ∧
      (t.addSem name initialValue).1.semLog.length = t.semLog.length + 1 := by
  set sem : Semaphore := ⟨initialValue, false, name.take MAX_SEM_NAME, t.semLog.length⟩
  have added : t.addSem name initialValue =
      ({ t with
          semaphores := (t.semaphores.alloc sem).1
          semLog := t.semLog ++ [.created (t.semaphores.alloc sem).2 sem.serial] },
        (t.semaphores.alloc sem).2) := by
    rw [Tables.addSem, if_neg (Nat.not_lt.mpr short)]
  refine ⟨_, sem, List.take_of_length_le short, rfl,
    Slots.alloc_nonneg named.sound sem, by rw [added], ?_, ?_, ?_⟩
  · rw [added]
    exact Slots.live_update (Slots.alloc_get named.sound sem)
  · rw [added]
    exact named.sound.alloc rfl
  · rw [added, List.length_append]
    rfl

/-- A semaphore is added, which `semInit` creates, or under a name that no other has. -/
theorem Named.add (named : Named t byName) {t' : Tables} {semId : Int} {sem : Semaphore}
    (origin : Option Name)
    (serial : sem.serial = t.semLog.length) (is_name : sem.name = origin.getD [])
    (short : sem.name.length ≤ MAX_SEM_NAME)
    (new : ∀ name, origin = some name → ∀ id other, t.getSem id = some other → other.name ≠ name)
    (get : t'.getSem = Function.update t.getSem semId (some sem))
    (sound : t'.semaphores.Sound Semaphore.destroyed)
    (length : t'.semLog.length = t.semLog.length + 1) :
    Named t' (Function.update byName t.semLog.length origin) := by
  -- The semaphore is the new one, or an old one with an older number.
  have cases_get : ∀ id other, t'.getSem id = some other →
      (id = semId ∧ other = sem) ∨
      (t.getSem id = some other ∧ other.serial < t.semLog.length ∧
        Function.update byName t.semLog.length origin other.serial = byName other.serial) := by
    intro id other found
    rw [get] at found
    by_cases same : id = semId
    · rw [same, Function.update_self] at found
      exact Or.inl ⟨same, (Option.some.inj found).symm⟩
    · rw [Function.update_of_ne same] at found
      have older := named.serials id other found
      exact Or.inr ⟨found, older, Function.update_of_ne (Nat.ne_of_lt older) _ _⟩
  have self : Function.update byName t.semLog.length origin sem.serial = origin := by
    rw [serial, Function.update_self]
  constructor
  · exact sound
  · intro id other found
    rcases cases_get id other found with ⟨-, rfl⟩ | ⟨-, older, -⟩
    · omega
    · omega
  · intro n some_name
    by_cases last : n = t.semLog.length
    · omega
    · rw [Function.update_of_ne last] at some_name
      have := named.recorded n some_name
      omega
  · intro id other name found as_name
    rcases cases_get id other found with ⟨-, rfl⟩ | ⟨old, -, same⟩
    · rw [self] at as_name
      rw [is_name, as_name, Option.getD_some]
    · exact named.named id other name old (same ▸ as_name)
  · intro id other found no_name
    rcases cases_get id other found with ⟨-, rfl⟩ | ⟨old, -, same⟩
    · rw [self] at no_name
      rw [is_name, no_name, Option.getD_none]
    · exact named.unnamed id other old (same ▸ no_name)
  · intro id other found
    rcases cases_get id other found with ⟨-, rfl⟩ | ⟨old, -, -⟩
    · exact short
    · exact named.short id other old
  · rintro i j name ⟨sem₁, found₁, as₁⟩ ⟨sem₂, found₂, as₂⟩
    rcases cases_get i sem₁ found₁ with ⟨rfl, rfl⟩ | ⟨old₁, -, same₁⟩
    · rcases cases_get j sem₂ found₂ with ⟨rfl, -⟩ | ⟨old₂, -, same₂⟩
      · rfl
      · rw [self] at as₁
        exact absurd (named.named j sem₂ name old₂ (same₂ ▸ as₂)) (new name as₁ j sem₂ old₂)
    · rcases cases_get j sem₂ found₂ with ⟨rfl, rfl⟩ | ⟨old₂, -, same₂⟩
      · rw [self] at as₂
        exact absurd (named.named i sem₁ name old₁ (same₁ ▸ as₁)) (new name as₂ i sem₁ old₁)
      · exact named.unique i j name ⟨sem₁, old₁, same₁ ▸ as₁⟩ ⟨sem₂, old₂, same₂ ▸ as₂⟩

/-- A semaphore of `semInit` adds no name. -/
theorem Named.semInit (named : Named t byName) (initialValue : Nat) :
    Named (t.semInit initialValue).1 byName := by
  have short : ([] : Name).length ≤ MAX_SEM_NAME := Nat.zero_le _
  obtain ⟨semId, sem, is_name, serial, -, -, get, sound, length⟩ :=
    named.addSem_get short initialValue
  have added := named.add none serial is_name (is_name ▸ short)
    (fun _ eq => nomatch eq) get sound length
  have unrecorded : byName t.semLog.length = none := by
    by_contra recorded
    exact Nat.lt_irrefl _ (named.recorded _ recorded)
  rw [Function.update_eq_self_iff.mpr unrecorded.symm] at added
  exact added

/-- Fewer semaphores, and the log as long or longer. -/
theorem Named.fewer (named : Named t byName) {t' : Tables}
    (get : ∀ id sem, t'.getSem id = some sem → t.getSem id = some sem)
    (sound : t'.semaphores.Sound Semaphore.destroyed)
    (length : t.semLog.length ≤ t'.semLog.length) :
    Named t' byName where
  sound := sound
  serials id sem found := Nat.lt_of_lt_of_le (named.serials id sem (get id sem found)) length
  recorded n some_name := Nat.lt_of_lt_of_le (named.recorded n some_name) length
  named id sem name found := named.named id sem name (get id sem found)
  unnamed id sem found := named.unnamed id sem (get id sem found)
  short id sem found := named.short id sem (get id sem found)
  unique := by
    rintro i j name ⟨sem₁, found₁, as₁⟩ ⟨sem₂, found₂, as₂⟩
    exact named.unique i j name ⟨sem₁, get i sem₁ found₁, as₁⟩ ⟨sem₂, get j sem₂ found₂, as₂⟩

theorem Named.destroySemaphore (named : Named t byName) (semId : Int) :
    Named (t.destroySemaphore semId).1 byName := by
  unfold Tables.destroySemaphore
  cases found : t.getSem semId with
  | none => exact named
  | some sem =>
      refine named.fewer (fun id other found' => ?_) (named.sound.release found rfl) ?_
      · have get : Function.update t.getSem semId none id = some other := by
          rw [← found']
          exact (congrFun (Slots.release_live found rfl) id).symm
        by_cases same : id = semId
        · rw [same, Function.update_self] at get
          cases get
        · rwa [Function.update_of_ne same] at get
      · show t.semLog.length ≤ (t.semLog ++ _).length
        rw [List.length_append]
        exact Nat.le_add_right _ _

/-- The name is too long, or a semaphore is created under it. -/
theorem Named.addNamed (named : Named t byName) (initialValue : Nat)
    (new : ∀ id sem, t.getSem id = some sem → sem.name ≠ name) :
    Named (t.addSem name initialValue).1
      (if (t.addSem name initialValue).1.semLog.length = t.semLog.length then byName
        else Function.update byName t.semLog.length (some name)) := by
  by_cases long : name.length > MAX_SEM_NAME
  · have same : t.addSem name initialValue = (t, -1) := by rw [Tables.addSem, if_pos long]
    rw [same, if_pos rfl]
    exact named
  · obtain ⟨semId, sem, is_name, serial, -, -, get, sound, length⟩ :=
      named.addSem_get (Nat.le_of_not_lt long) initialValue
    have short : sem.name.length ≤ MAX_SEM_NAME := is_name ▸ Nat.le_of_not_lt long
    rw [if_neg (by omega)]
    refine named.add (some name) serial is_name short (fun other eq => ?_) get sound length
    rw [← Option.some.inj eq]
    exact new

/-- The table of pipes does not matter. -/
theorem Named.same_sems (named : Named t byName) {t' : Tables}
    (semaphores : t'.semaphores = t.semaphores) (log : t'.semLog = t.semLog) : Named t' byName := by
  have get : t'.getSem = t.getSem := by
    unfold Tables.getSem
    rw [semaphores]
  refine named.fewer (fun id sem found => by rwa [get] at found) ?_ (by rw [log])
  rw [semaphores]
  exact named.sound

theorem Named.pipeInit (named : Named t byName) : Named t.pipeInit.1 byName :=
  (((named.semInit 1).semInit 0).semInit BUFFER_SIZE).same_sems rfl rfl

theorem Named.destroyPipe (named : Named t byName) (pipeId : Int) :
    Named (t.destroyPipe pipeId).1 byName := by
  unfold Tables.destroyPipe
  split_ifs with standard
  · exact named
  · cases held : t.getPipe pipeId with
    | none => exact named
    | some p =>
        have released : Named (t.releasePipe pipeId p) byName := named.same_sems rfl rfl
        exact ((released.destroySemaphore p.mutex).destroySemaphore
          p.writtenCountSem).destroySemaphore p.emptyCountSem

/-- Every call keeps the invariant. -/
theorem Named.perform (named : Named t byName) (c : Call) : Named (c.perform t)
    (c.record t byName) := by
  cases c with
  | semInit initialValue => exact named.semInit initialValue
  | createSemaphore name initialValue =>
      show Named (t.createSemaphore name initialValue).1
        (if (t.createSemaphore name initialValue).1.semLog.length =
          t.semLog.length then byName else _)
      rcases t.findName_cases name with ⟨sem, found, -⟩ | ⟨none, new⟩
      · have same : t.createSemaphore name initialValue = (t, -1) := by
          rw [Tables.createSemaphore, if_pos found]
        rw [same, if_pos rfl]
        exact named
      · have added : t.createSemaphore name initialValue = t.addSem name initialValue := by
          rw [Tables.createSemaphore, none, if_neg (by decide)]
        rw [added]
        exact named.addNamed initialValue new
  | openSemaphore name value =>
      show Named (t.openSemaphore name value).1
        (if (t.openSemaphore name value).1.semLog.length = t.semLog.length then byName else _)
      rcases t.findName_cases name with ⟨sem, found, -⟩ | ⟨none, new⟩
      · have same : t.openSemaphore name value = (t, t.findName name) :=
          if_neg (Int.not_lt.mpr found)
        rw [same, if_pos rfl]
        exact named
      · have added : t.openSemaphore name value = t.addSem name value := by
          simp only [Tables.openSemaphore, none, if_pos (by decide : (-1 : Int) < 0)]
        rw [added]
        exact named.addNamed value new
  | destroySemaphore semId => exact named.destroySemaphore semId
  | destroySemaphoreByName name => exact named.destroySemaphore (t.findName name)
  | pipeInit => exact named.pipeInit
  | destroyPipe pipeId => exact named.destroyPipe pipeId

/-- Every run knows the names of its table. -/
theorem Run.named (run : Run t byName) : Named t byName := by
  induction run with
  | init =>
      have none : ∀ id, (⟨⟨[], []⟩, ⟨[], []⟩, [], []⟩ : Tables).getSem id = none := by
        intro id
        simp [Tables.getSem, Slots.live, Slots.get]
      have empty : Named ⟨⟨[], []⟩, ⟨[], []⟩, [], []⟩ fun _ => Option.none := by
        constructor
        · exact (@Slots.Tracks.empty _ _ Semaphore.destroyed Semaphore.serial).sound
        · intro id sem found
          cases (none id).symm.trans found
        · intro n recorded
          exact absurd rfl recorded
        · intro id sem name found
          cases (none id).symm.trans found
        · intro id sem found
          cases (none id).symm.trans found
        · intro id sem found
          cases (none id).symm.trans found
        · rintro i j name ⟨sem, found, -⟩
          cases (none i).symm.trans found
      exact empty.pipeInit.pipeInit.pipeInit
  | call before c named => exact named.perform c

end Invariant

/-! ### What is found -/

section Finding

variable {t : Tables} {byName : Nat → Option Name} {name : Name}

/-- `findName` finds the first semaphore with the name. -/
theorem findName_first {semId : Int} {sem : Semaphore} (found : t.getSem semId = some sem)
    (is_name : sem.name = name) : 0 ≤ t.findName name ∧ t.findName name ≤ semId := by
  obtain ⟨held, alive⟩ := Slots.live_some.mp found
  unfold Slots.get at held
  split_ifs at held with neg
  unfold Tables.findName
  cases first : t.semaphores.cells.findIdx? fun sem => !sem.destroyed && name == sem.name with
  | none =>
      have other := List.findIdx?_eq_none_iff.mp first sem (List.mem_of_getElem? held)
      simp [alive, is_name] at other
  | some i =>
      obtain ⟨inside, -, before⟩ := List.findIdx?_eq_some_iff_getElem.mp first
      refine ⟨Int.natCast_nonneg i, ?_⟩
      show (i : Int) ≤ semId
      by_contra behind
      obtain ⟨inside', held'⟩ := List.getElem?_eq_some_iff.mp held
      have other := before semId.toNat (by omega)
      simp [held', alive, is_name] at other

/-- An id that was given is no error. -/
theorem CreatedAs.nonneg {semId : Int} (created : CreatedAs t byName semId name) : 0 ≤ semId := by
  obtain ⟨sem, found, -⟩ := created
  obtain ⟨held, -⟩ := Slots.live_some.mp found
  unfold Slots.get at held
  split_ifs at held with neg
  omega

/-- The calls do what they should exactly when `findName` does. -/
theorem finds_iff (named : Named t byName) (name : Name) : Finds t byName name ↔
    (∀ semId, CreatedAs t byName semId name → t.findName name = semId) ∧
      ((∀ semId, ¬ CreatedAs t byName semId name) → t.findName name = -1) := by
  constructor
  · intro finds
    constructor
    · intro semId created
      have opened := (finds.there semId created 0).2.1
      rcases t.findName_cases name with ⟨sem, found, -⟩ | ⟨none, new⟩
      · have same : t.openSemaphore name 0 = (t, t.findName name) := if_neg (Int.not_lt.mpr found)
        exact congrArg Prod.snd (same.symm.trans opened)
      · obtain ⟨sem, found, as_name⟩ := created
        exact absurd (named.named semId sem name found as_name) (new semId sem found)
    · intro nobody
      rcases t.findName_cases name with ⟨sem, found, there, is_name⟩ | ⟨none, -⟩
      · -- Nothing was created under the name, so the one that is found has the empty name.
        have unnamed : byName sem.serial = none := by
          by_contra some_name
          obtain ⟨other, as_other⟩ := Option.ne_none_iff_exists'.mp some_name
          have same := named.named _ sem other there as_other
          rw [is_name] at same
          exact nobody _ ⟨sem, there, same ▸ as_other⟩
        have empty : name = [] := is_name.symm.trans (named.unnamed _ sem there unnamed)
        have added := (finds.absent nobody 0).1
        have kept : t.createSemaphore name 0 = (t, -1) := by
          rw [Tables.createSemaphore, if_pos found]
        have short : name.length ≤ MAX_SEM_NAME := by
          rw [empty]
          exact Nat.zero_le _
        obtain ⟨id, -, -, -, nonneg, returned, -⟩ := named.addSem_get short 0
        rw [← added, kept] at returned
        have negative : (-1 : Int) = id := returned
        omega
      · exact none
  · rintro ⟨there, absent⟩
    constructor
    · intro semId created value
      have found := there semId created
      have nonneg := created.nonneg
      refine ⟨?_, ?_, ?_⟩
      · rw [Tables.createSemaphore, found, if_pos nonneg]
      · simp only [Tables.openSemaphore, found, if_neg (Int.not_lt.mpr nonneg)]
      · rw [Tables.destroySemaphoreByName, found]
    · intro nobody value
      have none := absent nobody
      refine ⟨?_, ?_, ?_⟩
      · rw [Tables.createSemaphore, none, if_neg (by decide)]
      · simp only [Tables.openSemaphore, none, if_pos (by decide : (-1 : Int) < 0)]
      · rw [Tables.destroySemaphoreByName, none]
        rfl

/-- A name finds its semaphore exactly when it is not empty, or no unnamed semaphore comes
first. -/
theorem finds_distinguished (named : Named t byName) (name : Name) :
    Finds t byName name ↔ Distinguished t byName name := by
  rw [finds_iff named]
  constructor
  · rintro ⟨there, absent⟩
    by_cases empty : name = []
    · subst empty
      refine Or.inr fun semId unnamed => ?_
      obtain ⟨sem, found, no_name⟩ := unnamed
      obtain ⟨nonneg, first⟩ := findName_first found (named.unnamed semId sem found no_name)
      by_cases nobody : ∀ id, ¬ CreatedAs t byName id []
      · rw [absent nobody] at nonneg
        exact absurd nonneg (by decide)
      · obtain ⟨id, created⟩ := not_forall_not.mp nobody
        rw [there id created] at first
        refine ⟨id, ?_, created⟩
        obtain ⟨other, found', as_name⟩ := created
        rcases Int.lt_or_eq_of_le first with lt | rfl
        · exact lt
        · cases found.symm.trans found'
          cases no_name.symm.trans as_name
    · exact Or.inl empty
  · intro distinguished
    -- What `findName` finds was created under the name, or the empty name is not distinguished.
    have found_created : ∀ sem, t.getSem (t.findName name) = some sem → sem.name = name →
        CreatedAs t byName (t.findName name) name ∨
          (name = [] ∧ ∃ first < t.findName name, CreatedAs t byName first []) := by
      intro sem there is_name
      cases as_name : byName sem.serial with
      | some other =>
          have same := named.named _ sem other there as_name
          rw [is_name] at same
          exact Or.inl ⟨sem, there, same ▸ as_name⟩
      | none =>
          have empty : name = [] := is_name.symm.trans (named.unnamed _ sem there as_name)
          rcases distinguished with nonempty | behind
          · exact absurd empty nonempty
          · exact Or.inr ⟨empty, behind _ ⟨sem, there, as_name⟩⟩
    have not_before : ∀ id, CreatedAs t byName id name → ¬ id < t.findName name := by
      rintro id ⟨sem, found, as_name⟩ lt
      have first := findName_first found (named.named id sem name found as_name)
      omega
    constructor
    · intro semId created
      rcases t.findName_cases name with ⟨sem, -, there, is_name⟩ | ⟨none, new⟩
      · rcases found_created sem there is_name with same | ⟨rfl, first, lt, created'⟩
        · exact named.unique _ _ name same created
        · exact absurd lt (not_before first created')
      · obtain ⟨sem, found, as_name⟩ := created
        exact absurd (named.named semId sem name found as_name) (new semId sem found)
    · intro nobody
      rcases t.findName_cases name with ⟨sem, -, there, is_name⟩ | ⟨none, -⟩
      · rcases found_created sem there is_name with same | ⟨rfl, first, -, created⟩
        · exact absurd same (nobody _)
        · exact absurd created (nobody first)
      · exact none

end Finding

/-- In every run: the semaphores that were created by name have pairwise different names; a
name that is too long creates nothing; and the calls find exactly what was created under a
name, exactly when it is not empty, or no semaphore of `semInit` comes first. -/
theorem names_iff {t : Tables} {byName : Nat → Option Name} (run : Run t byName) :
    (∀ i j name, CreatedAs t byName i name → CreatedAs t byName j name → i = j) ∧
      (∀ name value, MAX_SEM_NAME < name.length → t.createSemaphore name value = (t, -1) ∧
        t.openSemaphore name value = (t, -1) ∧ ∀ semId, ¬ CreatedAs t byName semId name) ∧
      ∀ name, Finds t byName name ↔ Distinguished t byName name := by
  have named := run.named
  refine ⟨named.unique, fun name value long => ?_, finds_distinguished named⟩
  have nobody : ∀ semId, ¬ CreatedAs t byName semId name := by
    rintro semId ⟨sem, found, as_name⟩
    have short := named.short semId sem found
    rw [named.named semId sem name found as_name] at short
    omega
  have nonempty : name ≠ [] := by
    rintro rfl
    exact Nat.not_lt_zero _ long
  have absent := ((finds_distinguished named name).mpr (Or.inl nonempty)).absent nobody value
  have added : t.addSem name value = (t, -1) := by rw [Tables.addSem, if_pos long]
  exact ⟨absent.1.trans added, absent.2.1.trans added, nobody⟩

/-- A semaphore `a` is created, opened and destroyed. -/
theorem names_iff_created : ∃ t byName, Run t byName ∧ CreatedAs t byName 9 [97] ∧
    t.openSemaphore [97] 5 = (t, 9) ∧ t.destroySemaphoreByName [97] = t.destroySemaphore 9 := by
  have run := Run.init.call (.createSemaphore [97] 1)
  have created : CreatedAs (Call.perform .initial (.createSemaphore [97] 1))
      (Call.record .initial (fun _ => none) (.createSemaphore [97] 1)) 9 [97] := ⟨_, rfl, rfl⟩
  have finds := ((names_iff run).2.2 [97]).mpr (Or.inl (by decide))
  exact ⟨_, _, run, created, (finds.there 9 created 5).2⟩

/-- The empty name finds a pipe's semaphore at once: nothing is created under it, and the
semaphore is destroyed. -/
theorem empty_name_found : Run .initial (fun _ => none) ∧
    (∀ semId, ¬ CreatedAs .initial (fun _ => none) semId []) ∧
    (Tables.createSemaphore .initial [] 1).2 = -1 ∧ (Tables.openSemaphore .initial [] 1).2 = 0 ∧
    (Tables.getPipe .initial 0).map Pipe.mutex = some 0 ∧
      (Tables.destroySemaphoreByName .initial []).2 = true ∧
    ¬ Finds .initial (fun _ => none) [] := by
  have nobody : ∀ semId, ¬ CreatedAs .initial (fun _ => none) semId [] := by
    rintro semId ⟨sem, -, impossible⟩
    cases impossible
  refine ⟨.init, nobody, by decide, by decide, by decide, by decide, fun finds => ?_⟩
  have destroyed := (finds.absent nobody 0).2.2
  have result : (Tables.destroySemaphoreByName .initial []).2 = false := congrArg Prod.snd destroyed
  exact absurd result (by decide)

end SoTp.Ids
