/-
Tables whose slots are used again. An object gets the slot on top of a stack of freed
slots, or a new one at the end; a slot that is released keeps its object, marked dead,
until it is used again. Ids are slot numbers, and a negative id names nothing.

What a table is for is said by the log of what was created and destroyed under which id:
a partial map from ids to objects.

* `Slots.Sound.adds`, `Slots.release_drops` — what an allocation and a release did, as their
  caller sees it.
* `Slots.Tracks.alloc`, `Slots.Tracks.release` — a table that agrees with its log goes on
  agreeing with it.
-/

import Mathlib.Data.List.Nodup
import Mathlib.Logic.Function.Basic
import Mathlib.Tactic.Common

namespace SoTp.Lib

/-! ### What was created and destroyed -/

inductive Event (β : Type) where
  | created (id : Int) (obj : β)
  | destroyed (id : Int)

namespace Event

variable {β : Type}

def record (m : Int → Option β) : Event β → Int → Option β
  | .created id obj => Function.update m id (some obj)
  | .destroyed id => Function.update m id none

/-- The objects there are after a log, by id. -/
def registered (log : List (Event β)) : Int → Option β := log.foldl record fun _ => none

/-- The id was given to some object. -/
def Issued (log : List (Event β)) (id : Int) : Prop := ∃ obj, .created id obj ∈ log

/-- No object got the id of another one that was still there. -/
def Fresh (log : List (Event β)) : Prop :=
  ∀ before id obj after, log = before ++ .created id obj :: after → registered before id = none

/-- One more event. -/
theorem registered_concat (log : List (Event β)) (e : Event β) :
    registered (log ++ [e]) = record (registered log) e := by
  simp [registered]

/-- A log stays fresh as long as ids in use are not given again. -/
theorem Fresh.concat {log : List (Event β)} (fresh : Fresh log) {e : Event β}
    (new : ∀ id obj, e = .created id obj → registered log id = none) : Fresh (log ++ [e]) := by
  intro before id obj after split
  rcases List.eq_nil_or_concat after with rfl | ⟨init, last, rfl⟩
  · obtain ⟨rfl, last⟩ := List.append_inj' split rfl
    exact new id obj (List.singleton_inj.mp last)
  · have split : log ++ [e] = (before ++ .created id obj :: init) ++ [last] := by simpa using split
    exact fresh before id obj init (List.append_inj' split rfl).1

/-- Creating issues an id, -/
theorem issued_concat_created {log : List (Event β)} {id id' : Int} {obj : β} :
    Issued (log ++ [.created id' obj]) id ↔ Issued log id ∨ id = id' := by
  constructor
  · rintro ⟨obj', mem⟩
    rcases List.mem_append.mp mem with mem | mem
    · exact Or.inl ⟨obj', mem⟩
    · cases List.mem_singleton.mp mem
      exact Or.inr rfl
  · rintro (⟨obj', mem⟩ | rfl)
    · exact ⟨obj', List.mem_append_left _ mem⟩
    · exact ⟨obj, List.mem_append_right _ (List.mem_singleton_self _)⟩

/-- and destroying none. -/
theorem issued_concat_destroyed {log : List (Event β)} {id id' : Int} :
    Issued (log ++ [.destroyed id']) id ↔ Issued log id := by
  constructor
  · rintro ⟨obj, mem⟩
    rcases List.mem_append.mp mem with mem | mem
    · exact ⟨obj, mem⟩
    · cases List.mem_singleton.mp mem
  · rintro ⟨obj, mem⟩
    exact ⟨obj, List.mem_append_left _ mem⟩

end Event

/-! ### The table -/

/-- The slots, and the stack of those that were freed, its top last. -/
structure Slots (α : Type) where
  cells : List α
  freed : List Int

namespace Slots

variable {α β : Type}

def get (s : Slots α) (id : Int) : Option α := if id < 0 then none else s.cells[id.toNat]?

/-- The object under an id, unless it is dead. -/
def live (dead : α → Bool) (s : Slots α) (id : Int) : Option α := (s.get id).filter fun x => !dead x

def alloc (s : Slots α) (x : α) : Slots α × Int :=
  match s.freed.getLast? with
  | some id => (⟨s.cells.set id.toNat x, s.freed.dropLast⟩, id)
  | none => (⟨s.cells ++ [x], s.freed⟩, s.cells.length)

/-- Frees a slot. `x` is its object, now dead. -/
def release (s : Slots α) (id : Int) (x : α) : Slots α := ⟨s.cells.set id.toNat x, s.freed ++ [id]⟩

/-- Writing a slot changes what its id gets, -/
theorem get_set {s : Slots α} {id : Int} {y : α} (held : s.get id = some y) (x : α)
    (freed : List Int) :
    (Slots.mk (s.cells.set id.toNat x) freed).get = Function.update s.get id (some x) := by
  unfold get at held
  split_ifs at held with neg
  obtain ⟨inside, -⟩ := List.getElem?_eq_some_iff.mp held
  funext id'
  unfold get
  by_cases same : id' = id
  · subst same
    rw [Function.update_self, if_neg neg, List.getElem?_set_self inside]
  · rw [Function.update_of_ne same]
    split_ifs with neg'
    · rfl
    · exact List.getElem?_set_ne (by omega)

/-- and pushing one adds an id. -/
theorem get_push (s : Slots α) (x : α) (freed : List Int) :
    (Slots.mk (s.cells ++ [x]) freed).get = Function.update s.get s.cells.length (some x) := by
  funext id
  unfold get
  by_cases same : id = s.cells.length
  · subst same
    rw [Function.update_self, if_neg (by omega), Int.toNat_natCast, List.getElem?_concat_length]
  · rw [Function.update_of_ne same]
    split_ifs with neg
    · rfl
    · by_cases inside : id.toNat < s.cells.length
      · exact List.getElem?_append_left inside
      · have past : (s.cells ++ [x]).length ≤ id.toNat := by
          rw [List.length_append, List.length_singleton]
          omega
        rw [List.getElem?_eq_none past, List.getElem?_eq_none (by omega)]

/-- What is live is there and not dead. -/
theorem live_some {dead : α → Bool} {s : Slots α} {id : Int} {x : α} :
    s.live dead id = some x ↔ s.get id = some x ∧ dead x = false := by
  simp [live, Option.filter_eq_some_iff]

/-- Writing a slot changes what is live under its id. -/
theorem live_update {dead : α → Bool} {s s' : Slots α} {id : Int} {x : α}
    (get : s'.get = Function.update s.get id (some x)) :
    s'.live dead = Function.update (s.live dead) id (if dead x then none else some x) := by
  funext id'
  unfold live
  rw [get]
  by_cases same : id' = id
  · subst same
    rw [Function.update_self, Function.update_self, Option.filter_some]
    cases dead x <;> rfl
  · rw [Function.update_of_ne same, Function.update_of_ne same]

theorem release_get {s : Slots α} {id : Int} {y : α} (held : s.get id = some y) (x : α) :
    (s.release id x).get = Function.update s.get id (some x) := get_set held x _

/-- Releasing ends one object and no other. -/
theorem release_live {dead : α → Bool} {s : Slots α} {id : Int} {x y : α}
    (held : s.live dead id = some y) (old : dead x = true) :
    (s.release id x).live dead = Function.update (s.live dead) id none := by
  rw [live_update (release_get (live_some.mp held).1 x), if_pos old]

/-- The freed slots are those whose object is dead, each once. -/
structure Sound (dead : α → Bool) (s : Slots α) : Prop where
  nodup : s.freed.Nodup
  freed : ∀ id, id ∈ s.freed ↔ ∃ x, s.get id = some x ∧ dead x = true

section Sound

variable {dead : α → Bool} {s : Slots α} {id : Int} {x y : α}

/-- What an allocation does: it takes the slot of a dead object, or a new one. -/
theorem alloc_cases (sound : s.Sound dead) (x : α) :
    (∃ freed id y, s.freed = freed ++ [id] ∧ s.get id = some y ∧ dead y = true ∧
      s.alloc x = (Slots.mk (s.cells.set id.toNat x) freed, id)) ∨
    (s.freed = [] ∧ s.alloc x = (Slots.mk (s.cells ++ [x]) [], (s.cells.length : Int))) := by
  rcases List.eq_nil_or_concat s.freed with none | ⟨freed, id, some⟩
  · exact Or.inr ⟨none, by simp [alloc, none]⟩
  · have some : s.freed = freed ++ [id] := by simpa using some
    have mem : id ∈ s.freed := by simp [some]
    obtain ⟨y, held, old⟩ := (sound.freed id).mp mem
    exact Or.inl ⟨freed, id, y, some, held, old, by simp [alloc, some]⟩

theorem alloc_get (sound : s.Sound dead) (x : α) :
    (s.alloc x).1.get = Function.update s.get (s.alloc x).2 (some x) := by
  rcases alloc_cases sound x with ⟨freed, id, y, -, held, -, eq⟩ | ⟨-, eq⟩
  · rw [eq]
    exact get_set held x freed
  · rw [eq]
    exact get_push s x []

/-- The slot that is taken holds no object that is alive. -/
theorem alloc_unused (sound : s.Sound dead) (x : α) : s.live dead (s.alloc x).2 = none := by
  rcases alloc_cases sound x with ⟨freed, id, y, -, held, old, eq⟩ | ⟨-, eq⟩
  · rw [eq]
    simp [live, held, old]
  · rw [eq]
    simp [live, get]

/-- An id that is given is no error. -/
theorem alloc_nonneg (sound : s.Sound dead) (x : α) : 0 ≤ (s.alloc x).2 := by
  rcases alloc_cases sound x with ⟨freed, id, y, -, held, -, eq⟩ | ⟨-, eq⟩
  · rw [eq]
    by_contra neg
    simp only [get, if_pos (Int.not_le.mp neg)] at held
    cases held
  · rw [eq]
    exact Int.natCast_nonneg _

/-- Allocating keeps the slots sound, -/
theorem Sound.alloc (sound : s.Sound dead) (new : dead x = false) : (s.alloc x).1.Sound dead := by
  have get := alloc_get sound x
  have others : ∀ id ≠ (s.alloc x).2, (s.alloc x).1.get id = s.get id := fun id ne => by
    rw [get, Function.update_of_ne ne]
  have self : (s.alloc x).1.get (s.alloc x).2 = some x := by rw [get, Function.update_self]
  have freed : (s.alloc x).1.freed.Nodup ∧
      ∀ id, id ∈ (s.alloc x).1.freed ↔ id ∈ s.freed ∧ id ≠ (s.alloc x).2 := by
    rcases alloc_cases sound x with ⟨freed, top, y, eq_freed, -, -, eq⟩ | ⟨none, eq⟩
    · have nodup := eq_freed ▸ sound.nodup
      obtain ⟨nodup, -, apart⟩ := List.nodup_append.mp nodup
      rw [eq]
      refine ⟨nodup, fun id => ?_⟩
      simp only [eq_freed, List.mem_append, List.mem_singleton]
      constructor
      · intro mem
        exact ⟨Or.inl mem, apart id mem top (List.mem_singleton_self _)⟩
      · rintro ⟨mem | same, ne⟩
        · exact mem
        · exact absurd same ne
    · rw [eq, none]
      exact ⟨List.nodup_nil, fun id => by simp⟩
  refine ⟨freed.1, fun id => ?_⟩
  rw [freed.2, sound.freed]
  by_cases same : id = (s.alloc x).2
  · rw [same, self]
    simp [new]
  · rw [others id same]
    exact ⟨And.left, fun dead => ⟨dead, same⟩⟩

theorem Sound.congr {dead' : α → Bool} (sound : s.Sound dead)
    (same : ∀ id x, s.get id = some x → dead' x = dead x) : s.Sound dead' := by
  refine ⟨sound.nodup, fun id =>
    (sound.freed id).trans (exists_congr fun x => and_congr_right fun held => ?_)⟩
  rw [same id x held]

/-- The object of a slot dies where it is. -/
theorem Sound.die {dead' : α → Bool} (sound : s.Sound dead) (held : s.live dead id = some x)
    (once : ∀ id', s.get id' = some x → id' = id) (died : dead' x = true)
    (others : ∀ y, y ≠ x → dead' y = dead y) : (s.release id x).Sound dead' := by
  obtain ⟨held, alive⟩ := live_some.mp held
  have get : (s.release id x).get = s.get := by
    rw [release_get held, ← held, Function.update_eq_self]
  have new : id ∉ s.freed := fun mem => by
    obtain ⟨z, held', dead⟩ := (sound.freed id).mp mem
    cases held.symm.trans held'
    exact Bool.false_ne_true (alive.symm.trans dead)
  refine ⟨List.Nodup.append sound.nodup (List.nodup_singleton id) (by simpa using new),
    fun id' => ?_⟩
  show id' ∈ s.freed ++ [id] ↔ _
  rw [List.mem_append, List.mem_singleton, sound.freed, get]
  constructor
  · rintro (⟨y, held', dead⟩ | rfl)
    · refine ⟨y, held', (others y fun e => ?_).trans dead⟩
      rw [e, alive] at dead
      cases dead
    · exact ⟨x, held, died⟩
  · rintro ⟨y, held', dead⟩
    by_cases e : y = x
    · exact Or.inr (once id' (e ▸ held'))
    · exact Or.inl ⟨y, held', (others y e).symm.trans dead⟩

/-- and so does releasing. -/
theorem Sound.release (sound : s.Sound dead) (held : s.live dead id = some y)
    (old : dead x = true) : (s.release id x).Sound dead := by
  obtain ⟨held, alive⟩ := live_some.mp held
  have get := release_get held x
  have new : id ∉ s.freed := fun mem => by
    obtain ⟨z, held', dead⟩ := (sound.freed id).mp mem
    cases held.symm.trans held'
    exact Bool.false_ne_true (alive.symm.trans dead)
  refine ⟨?_, fun id' => ?_⟩
  · exact List.Nodup.append sound.nodup (List.nodup_singleton id) (by simpa using new)
  · show id' ∈ s.freed ++ [id] ↔ _
    rw [List.mem_append, List.mem_singleton, sound.freed, get]
    by_cases same : id' = id
    · subst same
      simp [old]
    · simp [same]

end Sound

/-! ### What one call did -/

/-- An object appears under an id that named none: the one on top of the stack, if there is
one. It has the number of its event. -/
structure Adds (dead : α → Bool) (serial : α → Nat) (s s' : Slots α) (log log' : List (Event Nat))
    (id : Int) (x : α) : Prop where
  unused : s.live dead id = none
  top : ∀ freed ∈ s.freed.getLast?, id = freed
  popped : s'.freed = s.freed.dropLast
  found : s'.live dead = Function.update (s.live dead) id (some x)
  number : serial x = log.length
  logged : log' = log ++ [.created id log.length]

/-- The object of an id is gone, and the id is on top of the stack. -/
structure Drops (dead : α → Bool) (s s' : Slots α) (log log' : List (Event β))
    (id : Int) : Prop where
  there : (s.live dead id).isSome = true
  gone : s'.live dead = Function.update (s.live dead) id none
  pushed : s'.freed = s.freed ++ [id]
  logged : log' = log ++ [.destroyed id]

section Changes

variable {dead : α → Bool} {s : Slots α} {id : Int} {x y : α}

/-- An allocation adds its object under an id that was not in use, -/
theorem Sound.adds {serial : α → Nat} {log : List (Event Nat)} (sound : s.Sound dead)
    (new : dead x = false) (number : serial x = log.length) :
    Adds dead serial s (s.alloc x).1 log (log ++ [.created (s.alloc x).2 (serial x)])
      (s.alloc x).2 x where
  unused := alloc_unused sound x
  top freed top := by
    rcases alloc_cases sound x with ⟨freed', id, y, eq_freed, -, -, eq⟩ | ⟨none, -⟩
    · obtain rfl : id = freed := by simpa [eq_freed] using top
      rw [eq]
    · rw [none] at top
      cases top
  popped := by
    rcases alloc_cases sound x with ⟨freed', id, y, eq_freed, -, -, eq⟩ | ⟨none, eq⟩
    · rw [eq, eq_freed, List.dropLast_concat]
    · rw [eq, none]
      rfl
  found := by rw [live_update (alloc_get sound x), new]; rfl
  number := number
  logged := by rw [number]

/-- and a release drops it. -/
theorem release_drops {log : List (Event β)} (held : s.live dead id = some y)
    (old : dead x = true) : Drops dead s (s.release id x) log (log ++ [.destroyed id]) id where
  there := by rw [held]; rfl
  gone := release_live held old
  pushed := rfl
  logged := rfl

end Changes

/-! ### The table and its log -/

/-- The objects of the table are those of the log, and the freed slots are the ids whose
objects were destroyed. `serial` tells objects apart. -/
structure Tracks (dead : α → Bool) (serial : α → β) (s : Slots α) (log : List (Event β)) :
    Prop where
  sound : s.Sound dead
  live : ∀ id, (s.live dead id).map serial = Event.registered log id
  issued : ∀ id, (s.get id).isSome = true ↔ Event.Issued log id
  fresh : Event.Fresh log

section Tracks

variable {dead : α → Bool} {serial : α → β} {s : Slots α} {log : List (Event β)}
    {id : Int} {x y : α}

/-- The log follows the slots from the beginning, -/
theorem Tracks.empty : (⟨[], []⟩ : Slots α).Tracks dead serial [] where
  sound := ⟨List.nodup_nil, fun id => by simp [Slots.get]⟩
  live id := by simp [Slots.live, Slots.get, Event.registered]
  issued id := by simp [Slots.get, Event.Issued]
  fresh before id obj after split := by simp at split

/-- through allocations -/
theorem Tracks.alloc (t : s.Tracks dead serial log) (new : dead x = false) :
    (s.alloc x).1.Tracks dead serial (log ++ [.created (s.alloc x).2 (serial x)]) where
  sound := t.sound.alloc new
  live id := by
    rw [live_update (alloc_get t.sound x), Event.registered_concat, new, Event.record]
    by_cases same : id = (s.alloc x).2
    · rw [same, Function.update_self, Function.update_self]
      rfl
    · rw [Function.update_of_ne same, Function.update_of_ne same]
      exact t.live id
  issued id := by
    rw [alloc_get t.sound x, Event.issued_concat_created, ← t.issued]
    by_cases same : id = (s.alloc x).2
    · rw [same, Function.update_self]
      simp
    · rw [Function.update_of_ne same]
      simp [same]
  fresh := t.fresh.concat fun id obj eq => by
    cases eq
    rw [← t.live, alloc_unused t.sound x]
    rfl

/-- and releases. -/
theorem Tracks.release (t : s.Tracks dead serial log) (held : s.live dead id = some y)
    (old : dead x = true) : (s.release id x).Tracks dead serial (log ++ [.destroyed id]) := by
  have get := release_get (live_some.mp held).1 x
  refine ⟨t.sound.release held old, fun id' => ?_, fun id' => ?_, ?_⟩
  · rw [release_live held old, Event.registered_concat, Event.record]
    by_cases same : id' = id
    · rw [same, Function.update_self, Function.update_self]
      rfl
    · rw [Function.update_of_ne same, Function.update_of_ne same]
      exact t.live id'
  · rw [get, Event.issued_concat_destroyed, ← t.issued]
    by_cases same : id' = id
    · rw [same, Function.update_self, (live_some.mp held).1]
      simp
    · rw [Function.update_of_ne same]
  · exact t.fresh.concat fun _ _ eq => by cases eq

/-- The stack holds the ids that were given out and have no object now. -/
theorem Tracks.freed_iff (t : s.Tracks dead serial log) (id : Int) :
    id ∈ s.freed ↔ Event.Issued log id ∧ Event.registered log id = none := by
  rw [t.sound.freed, ← t.issued, ← t.live, Option.map_eq_none_iff]
  cases held : s.get id with
  | none => simp
  | some x => simp [Slots.live, held, Option.filter_eq_none_iff]

end Tracks

end Slots

end SoTp.Lib
