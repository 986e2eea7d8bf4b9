/-
The module loader (`Kernel/c/moduleLoader.c`). It walks over what the packer has put behind
the kernel image and copies each module to its address.

* `loadModule_spec` — one module.
* `module_round_trip` — what was packed is what is loaded.
-/

import SoTp.Modules.Memcpy
import SoTp.Modules.Packer

namespace SoTp.Modules

open SoTp.Lib

/-! ### Loading -/

def readUint32 (mem : Bytes) (address : Nat) : Nat × Nat := (loadWord mem address, address + 4)

/-- `loadModule`: the memory, where the next module begins, and where this one ends. -/
def loadModule (mem : Bytes) (module targetModuleAddress : Nat) : Bytes × Nat × Nat :=
  let (moduleSize, module) := readUint32 mem module
  (memcpy mem targetModuleAddress module moduleSize, module + moduleSize,
    targetModuleAddress + moduleSize)

/-- The modules from number `i` on. `endOfModules` has no value before the first one. -/
def loadFrom (targetModuleAddress : Nat → Nat) :
    Nat → Nat → Bytes → Nat → Option Nat → Bytes × Option Nat
  | 0, _, mem, _, endOfModules => (mem, endOfModules)
  | more + 1, i, mem, currentModule, _ =>
      let (mem, currentModule, endOfModules) := loadModule mem currentModule (targetModuleAddress i)
      loadFrom targetModuleAddress more (i + 1) mem currentModule (some endOfModules)

def loadModules (mem : Bytes) (payloadStart : Nat) (targetModuleAddress : Nat → Nat) :
    Bytes × Option Nat :=
  let (moduleCount, currentModule) := readUint32 mem payloadStart
  loadFrom targetModuleAddress moduleCount 0 mem currentModule none

/-! ### One module -/

section Module

variable {mem : Bytes} {start target : Nat} {file rest : File}

/-- A packed file has four bytes more than the file. -/
theorem packed_length (file : File) : (packed file).length = 4 + file.length := by
  simp [packed]

/-- A module lies packed at `start`, and its region is free. -/
theorem loadModule_spec (small : file.length < 2 ^ 32) (held : Holds mem start (packed file))
    (apart : Apart target file.length start (packed file).length) :
    loadModule mem start target = (moved mem target (start + 4) file.length,
      start + (packed file).length, target + file.length) := by
  obtain ⟨size, bytes⟩ := holds_append.mp held
  have e : loadWord mem start = file.length := by
    rw [Nat.mod_eq_of_lt small] at size
    exact loadWord_bytes small size
  have source : Apart target file.length (start + 4) file.length := fun x inside other =>
    apart x inside ⟨by have := other.1; omega, by have := other.2; rw [packed_length]; omega⟩
  simp only [loadModule, readUint32, e]
  rw [memcpy_spec (Or.inr source), packed_length, Nat.add_assoc]

/-- The module has arrived. -/
theorem moved_holds (held : Holds mem start (packed file)) :
    Holds (moved mem target (start + 4) file.length) target file := fun i h => by
  have bytes := (holds_append.mp held).2 i h
  rw [moved, if_pos ⟨by omega, by omega⟩, Nat.add_sub_cancel_left]
  exact bytes

end Module

/-! ### All modules -/

/-- The regions of `modules`, at the addresses from number `i` on: none meets another, nor
the `n` bytes at `start`. -/
structure Placed (targets : Nat → Nat) (i : Nat) (modules : List File) (start n : Nat) : Prop where
  payload : ∀ j (h : j < modules.length), Apart (targets (i + j)) modules[j].length start n
  apart : ∀ j l (h : j < modules.length) (h' : l < modules.length), j ≠ l →
    Apart (targets (i + j)) modules[j].length (targets (i + l)) modules[l].length

/-- The modules have been loaded, and nothing else has changed. -/
structure Loaded (targets : Nat → Nat) (i : Nat) (modules : List File) (mem mem' : Bytes) :
    Prop where
  holds : ∀ j (h : j < modules.length), Holds mem' (targets (i + j)) modules[j]
  same : ∀ x, (∀ j (h : j < modules.length), ¬ InRegion (targets (i + j)) modules[j].length x) →
    mem' x = mem x

section Modules

variable {targets : Nat → Nat} {i start n : Nat} {file : File} {modules : List File}
  {mem mem' : Bytes}

/-- What is placed for all modules is placed for those behind the first one. -/
theorem Placed.tail (p : Placed targets i (file :: modules) start n) {start' n' : Nat}
    (within : ∀ x, InRegion start' n' x → InRegion start n x) :
    Placed targets (i + 1) modules start' n' := by
  have shift : ∀ j, i + 1 + j = i + (j + 1) := fun j => by omega
  refine ⟨fun j h x inside other => ?_, fun j l h h' ne => ?_⟩
  · rw [shift] at inside
    exact p.payload (j + 1) (Nat.succ_lt_succ h) x inside (within x other)
  · rw [shift, shift]
    exact p.apart (j + 1) (l + 1) (Nat.succ_lt_succ h) (Nat.succ_lt_succ h') (by omega)

/-- The first module, and then the others. -/
theorem Loaded.cons (p : Placed targets i (file :: modules) start n) (from_ : Nat)
    (first : Holds (moved mem (targets i) from_ file.length) (targets i) file)
    (rest : Loaded targets (i + 1) modules (moved mem (targets i) from_ file.length) mem') :
    Loaded targets i (file :: modules) mem mem' := by
  have shift : ∀ j, i + 1 + j = i + (j + 1) := fun j => by omega
  refine ⟨fun j h => ?_, fun x outside => ?_⟩
  · cases j with
    | zero =>
        refine first.congr fun x inside => rest.same x fun j h' other => ?_
        rw [shift] at other
        exact p.apart 0 (j + 1) h (Nat.succ_lt_succ h') (by omega) x inside other
    | succ j =>
        rw [← shift]
        exact rest.holds j (Nat.lt_of_succ_lt_succ h)
  · have others :
        ∀ j (h : j < modules.length), ¬ InRegion (targets (i + 1 + j)) modules[j].length x :=
      fun j h => by
        rw [shift]
        exact outside (j + 1) (Nat.succ_lt_succ h)
    rw [rest.same x others]
    exact if_neg (outside 0 (Nat.zero_lt_succ _))

/-- The loop loads every module, and its value is the end of the last one. -/
theorem loadFrom_spec (endOfModules : Option Nat) (small : ∀ m ∈ modules, m.length < 2 ^ 32)
    (held : Holds mem start (modules.flatMap packed))
    (placed : Placed targets i modules start (modules.flatMap packed).length) :
    Loaded targets i modules mem
        (loadFrom targets modules.length i mem start endOfModules).1 ∧
      (loadFrom targets modules.length i mem start endOfModules).2 =
        (modules.getLast?.map fun last => targets (i + (modules.length - 1)) + last.length).or
          endOfModules := by
  induction modules generalizing i mem start endOfModules with
  | nil => exact ⟨⟨fun _ h => absurd h (Nat.not_lt_zero _), fun _ _ => rfl⟩, rfl⟩
  | cons file modules ih =>
      rw [List.flatMap_cons] at held placed
      obtain ⟨here, behind⟩ := holds_append.mp held
      have free := placed.payload 0 (Nat.zero_lt_succ _)
      have apart : Apart (targets i) file.length start (packed file).length := fun x inside other =>
        free x inside ⟨other.1, by have := other.2; rw [List.length_append]; omega⟩
      -- Loading the first module leaves the others packed.
      have still : Holds (moved mem (targets i) (start + 4) file.length)
          (start + (packed file).length)
          (modules.flatMap packed) := behind.congr fun x inside => if_neg fun other =>
        free x other
          ⟨by have := inside.1; omega, by have := inside.2; rw [List.length_append]; omega⟩
      have rest : Placed targets (i + 1) modules (start + (packed file).length)
          (modules.flatMap packed).length := placed.tail fun x inside =>
        ⟨by have := inside.1; omega, by have := inside.2; rw [List.length_append]; omega⟩
      have loaded := loadModule_spec (small file List.mem_cons_self) here apart
      obtain ⟨others, last⟩ := ih (some (targets i + file.length))
        (fun m mem => small m (List.mem_cons_of_mem _ mem)) still rest
      simp only [List.length_cons, loadFrom, loaded]
      refine ⟨others.cons placed _ (moved_holds here), ?_⟩
      rw [last]
      cases modules with
      | nil => rfl
      | cons second modules =>
          simp only [List.getLast?_cons_cons, List.length_cons, Nat.add_sub_cancel]
          rw [show i + 1 + modules.length = i + (modules.length + 1) by omega]
          rw [List.getLast?_eq_some_getLast (List.cons_ne_nil second modules)]
          rfl

end Modules

/-- Modules that were packed behind a kernel image are loaded as they were, each to its
address, and nothing else changes. -/
theorem module_round_trip (fileArray : array_t) (nonempty : fileArray.array.tail ≠ [])
    (small : ∀ m ∈ fileArray.array.tail, m.length < 2 ^ 32) (mem : Bytes) (payloadStart : Nat)
    (held : Holds mem payloadStart
      ((buildImage fileArray).drop (fileArray.array.head fileArray.given).length))
    (targets : Nat → Nat)
    (placed : Placed targets 0 fileArray.array.tail payloadStart
      ((buildImage fileArray).drop (fileArray.array.head fileArray.given).length).length) :
    Loaded targets 0 fileArray.array.tail mem (loadModules mem payloadStart targets).1 ∧
      (loadModules mem payloadStart targets).2 =
        some (targets (fileArray.array.tail.length - 1) +
          (fileArray.array.tail.getLast nonempty).length) := by
  rw [buildImage_eq, List.drop_left] at held placed
  obtain ⟨count, behind⟩ := holds_append.mp held
  rw [uint32Bytes_length] at behind
  have few : fileArray.array.tail.length < 2 ^ 32 := by
    have := fileArray.length
    rw [List.length_tail]
    omega
  have inner : Placed targets 0 fileArray.array.tail (payloadStart + 4)
      (fileArray.array.tail.flatMap packed).length := by
    refine ⟨fun j h x inside other => placed.payload j h x inside ?_, placed.apart⟩
    have within : (payload fileArray.array.tail).length =
        4 + (fileArray.array.tail.flatMap packed).length := by
      simp [payload]
    exact ⟨by have := other.1; omega, by have := other.2; omega⟩
  simp only [loadModules, readUint32, loadWord_bytes few count]
  obtain ⟨loaded, last⟩ := loadFrom_spec none small behind inner
  refine ⟨loaded, ?_⟩
  rw [last, List.getLast?_eq_some_getLast nonempty, Nat.zero_add]
  rfl

/-- Two modules behind a kernel image of two bytes. -/
theorem module_round_trip_two : ∃ mem : Bytes,
    Holds (loadModules mem 100 fun i => 16 + 16 * i).1 16 [7, 8, 9, 10] ∧
      Holds (loadModules mem 100 fun i => 16 + 16 * i).1 32 [5] ∧
      (loadModules mem 100 fun i => 16 + 16 * i).2 = some 33 := by
  have image : (buildImage ⟨[[1, 2], [7, 8, 9, 10], [5]], by simp, by decide⟩).drop 2 =
      payload [[7, 8, 9, 10], [5]] := by
    rw [buildImage_eq]
    rfl
  have held : Holds (fun x => (payload [[7, 8, 9, 10], [5]]).getD (x - 100) 0) 100
      (payload [[7, 8, 9, 10], [5]]) := by
    unfold Holds
    decide
  have placed : Placed (fun i => 16 + 16 * i) 0 [[7, 8, 9, 10], [5]] 100
      (payload [[7, 8, 9, 10], [5]]).length := by
    refine ⟨fun j h x inside other => ?_, fun j l h h' ne x inside other => ?_⟩
    · have : j = 0 ∨ j = 1 := by simp at h; omega
      rcases this with rfl | rfl <;> simp [InRegion] at inside other <;> omega
    · have : (j = 0 ∧ l = 1) ∨ (j = 1 ∧ l = 0) := by simp at h h'; omega
      rcases this with ⟨rfl, rfl⟩ | ⟨rfl, rfl⟩ <;> simp [InRegion] at inside other <;> omega
  obtain ⟨loaded, last⟩ :=
    module_round_trip ⟨[[1, 2], [7, 8, 9, 10], [5]], by simp, by decide⟩ (by simp)
    (by decide) _ 100 (image ▸ held) (fun i => 16 + 16 * i) (image ▸ placed)
  exact ⟨_, loaded.holds 0 (by decide), loaded.holds 1 (by decide), last⟩

end SoTp.Modules
