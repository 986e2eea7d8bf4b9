/-
The arguments of a new process (`createProcess`, `stackAlloc`, `strncpy` and
`initializeProcessStack`), byte by byte. The table of pointers and the strings behind it
grow from the one end of the stack, the first frame from the other.

* `strncpyFrom_spec` — `strncpy` puts the first characters and a terminator.
* `copyArgs_spec`, `copyArgs_reach` — what the loop puts where there is room, and how far
  it gets wherever it writes inside the block only.
* `argWrites_written` — the writes that `argWrites` lists are among them.
* `arguments_intact_iff` — the arguments arrive intact exactly when there is a block and
  they fit below the frame.
-/

import SoTp.Process.Creation
import SoTp.Modules.Memcpy
import SoTp.Lib.Writes
import Mathlib.Algebra.BigOperators.Group.List.Basic

namespace SoTp.Process.Arguments

open SoTp.Lib SoTp.Modules

/-- The loop of `strncpy` and the terminator behind it, with `i` characters copied. -/
def strncpyFrom (l : Tracked) (dst src i : Nat) : Nat → Tracked × Nat
  | 0 => (l.put (dst + i) 0, i)
  | left + 1 =>
      if l.mem (src + i) ≠ 0 then strncpyFrom (l.put (dst + i) (l.mem (src + i))) dst src
        (i + 1) left
      else (l.put (dst + i) 0, i)

def strncpy (l : Tracked) (dst src : Nat) (max : Int) : Tracked × Int :=
  if max < 0 then (l, -1)
  else
    let (l, i) := strncpyFrom l dst src 0 max.toNat
    (l, i)

/-- `argv[i]`. -/
def pointer (mem : Bytes) (argv i : Nat) : Nat := load mem (argv + 8 * i) 8

/-- The loop of `createProcess`, from the argument `i` on. -/
def copyArgs (l : Tracked) (argvStack argv i arg : Nat) : Nat → Tracked
  | 0 => l
  | left + 1 =>
      let l := l.store (argvStack + 8 * i) (bytesOf 8 arg)
      let j := strncpy l arg (pointer l.mem argv i) MAX_NAME_LENGTH
      copyArgs j.1 argvStack argv (i + 1) (arg + j.2 + 1).toNat left

def push (stack : Tracked × Nat) (w : Nat) : Tracked × Nat :=
  (stack.1.store (stack.2 - 8) (bytesOf 8 w), stack.2 - 8)

/-- What `initializeProcessStack` pushes: `ss`, `rsp`, `rflags`, `cs`, `rip`, then the
registers from `rax` to `r15`. -/
def frame (argc argv processRip stackStart : Nat) : List Nat :=
  [0, stackStart, 0x202, 0x8, processRip, 0, 0, 0, 0, argv, argc, stackStart, 0, 0, 0,
    0, 0, 0, 0, 0]

def initializeProcessStack (l : Tracked) (argc argv processRip stackStart : Nat) : Tracked × Nat :=
  (frame argc argv processRip stackStart).foldl push (l, stackStart)

/-- What `createProcess` has copied before it builds the frame. -/
def copied (mem : Bytes) (stackEnd argc argv : Nat) : Tracked :=
  copyArgs ⟨mem, []⟩ stackEnd argv 0 (stackEnd + 8 * argc) argc

/-- `createProcess`, where `stackEnd` is the answer of `globalMalloc(stackSize)` and
`added` that of `addPCB`: the memory, and the stack pointer or NULL. -/
def createProcess (mem : Bytes) (stackEnd argc argv processRip : Nat) (added : Bool) :
    Bytes × Nat :=
  let rsp := initializeProcessStack (copied mem stackEnd argc argv) argc stackEnd processRip
    (stackStart stackEnd)
  (rsp.1.mem, if added then rsp.2 else NULL)

/-! ### What is to hold -/

/-- What is copied of a string. -/
def copy (text : List UInt8) : List UInt8 := text.take MAX_NAME_LENGTH ++ [0]

/-- Bytes of all the copies. -/
def copiesSize (texts : List (List UInt8)) : Nat := (texts.map fun text => (copy text).length).sum

/-- The string `text` behind `argv[i]`, outside the block at `stackEnd`. -/
structure Passed (mem : Bytes) (argv stackEnd i : Nat) (text : List UInt8) : Prop where
  free : 0 ∉ text
  held : Holds mem (pointer mem argv i) (text ++ [0])
  slot : stackEnd ≠ NULL → Apart (argv + 8 * i) 8 stackEnd stackSize
  outside : stackEnd ≠ NULL → Apart (pointer mem argv i) (text.length + 1) stackEnd stackSize

/-- `argc >= 1` strings, and a block in the address space. -/
structure Given (mem : Bytes) (argv stackEnd : Nat) (texts : List (List UInt8)) : Prop where
  argc : texts ≠ []
  space : stackEnd + stackSize ≤ 2 ^ 64
  passed : ∀ i (h : i < texts.length), Passed mem argv stackEnd i texts[i]

/-- The lowest address of the first frame. -/
def frameEnd (stackEnd : Nat) : Nat := stackStart stackEnd - 8 * pushes

/-- The arguments in the memory `final` of the new process, whose stack pointer is `rsp`,
with `copied` while they were copied. -/
structure Intact (copied : Tracked) (final : Bytes) (rsp stackEnd : Nat)
    (texts : List (List UInt8)) : Prop where
  allocated : stackEnd ≠ NULL
  inside : ∀ x ∈ copied.written, InRegion stackEnd stackSize x
  below : ∀ x ∈ copied.written, x < rsp
  copies : ∀ i (h : i < texts.length), Holds final (pointer final stackEnd i) (copy texts[i])
  table : ∀ i (h : i < texts.length),
    Apart stackEnd (8 * texts.length) (pointer final stackEnd i) (copy texts[i]).length
  apart : ∀ i j (hi : i < texts.length) (hj : j < texts.length), i ≠ j →
    Apart (pointer final stackEnd i) (copy texts[i]).length (pointer final stackEnd j)
      (copy texts[j]).length

/-! ### One string -/

section Strings

variable {l : Tracked} {dst src i left x : Nat} {text rest : List UInt8}

@[simp] theorem copy_length (text : List UInt8) :
    (copy text).length = min MAX_NAME_LENGTH text.length + 1 := by
  rw [copy, List.length_append, List.length_take, List.length_singleton]

/-- The next character of what is left of a string, and what is left behind it. -/
theorem holds_next {mem : Bytes} {c : UInt8} (held : Holds mem (src + i) (c :: rest ++ [0])) :
    mem (src + i) = c ∧ Holds mem (src + (i + 1)) (rest ++ [0]) := by
  constructor
  · exact held 0 (Nat.succ_pos _)
  · intro k h
    have := held (k + 1) (Nat.succ_lt_succ h)
    rwa [show src + i + (k + 1) = src + (i + 1) + k by omega] at this

theorem strncpyFrom_spec (free : 0 ∉ rest) (held : Holds l.mem (src + i) (rest ++ [0]))
    (apart : Apart (dst + i) ((rest.take left).length + 1) (src + i) (rest.length + 1)) :
    strncpyFrom l dst src i left =
      (l.store (dst + i) (rest.take left ++ [0]), i + (rest.take left).length) := by
  induction left generalizing l i rest with
  | zero => rfl
  | succ left ih =>
      cases rest with
      | nil =>
          have ends : l.mem (src + i) = 0 := held 0 (Nat.succ_pos _)
          rw [strncpyFrom, if_neg (not_not.mpr ends)]
          rfl
      | cons c rest =>
          obtain ⟨here, behind⟩ := holds_next held
          obtain ⟨nonzero, free⟩ := not_or.mp (fun mem => free (List.mem_cons.mpr mem))
          have away : Holds (l.put (dst + i) c).mem (src + (i + 1)) (rest ++ [0]) := by
            refine behind.congr fun x inside => put_outside fun same => ?_
            rw [List.length_append, List.length_singleton] at inside
            apply apart x
            · exact ⟨by omega, by omega⟩
            · exact ⟨by have := inside.1; omega, by have := inside.2; rw [List.length_cons]; omega⟩
          have next : Apart (dst + (i + 1)) ((rest.take left).length + 1) (src + (i + 1))
              (rest.length + 1) := by
            intro x inside
            have beyond := apart x
            simp only [InRegion, List.take_succ_cons, List.length_cons] at beyond inside ⊢
            omega
          rw [strncpyFrom, here, if_pos (Ne.symm nonzero), ih free away next, List.take_succ_cons,
            List.length_cons, List.cons_append, Tracked.store]
          congr 1
          omega

theorem strncpyFrom_keeps (mem : x ∈ l.written) : x ∈ (strncpyFrom l dst src i left).1.written := by
  induction left generalizing l i with
  | zero => exact List.mem_append_left _ mem
  | succ left ih =>
      rw [strncpyFrom]
      split_ifs
      · exact ih (List.mem_append_left _ mem)
      · exact List.mem_append_left _ mem

theorem mem_put (l : Tracked) (a : Nat) (b : UInt8) : a ∈ (l.put a b).written :=
  List.mem_append_right _ (List.mem_singleton_self a)

/-- What `strncpy` writes, if it never writes to the string that it reads. -/
theorem strncpyFrom_reach {P : Nat → Prop} (free : 0 ∉ rest)
    (held : Holds l.mem (src + i) (rest ++ [0]))
    (source : ∀ x, InRegion (src + i) (rest.length + 1) x → ¬ P x)
    (only : ∀ x ∈ (strncpyFrom l dst src i left).1.written, P x) :
    ∀ x, InRegion (dst + i) ((rest.take left).length + 1) x → P x := by
  induction left generalizing l i rest with
  | zero =>
      intro x inside
      have here : x = dst + i := by
        simp only [InRegion, List.take_zero, List.length_nil] at inside; omega
      rw [here]
      exact only _ (mem_put l _ _)
  | succ left ih =>
      cases rest with
      | nil =>
          intro x inside
          have here : x = dst + i := by
            simp only [InRegion, List.take_nil, List.length_nil] at inside; omega
          have ends : l.mem (src + i) = 0 := held 0 (Nat.succ_pos _)
          rw [strncpyFrom, if_neg (not_not.mpr ends)] at only
          rw [here]
          exact only _ (mem_put l _ _)
      | cons c rest =>
          obtain ⟨here, behind⟩ := holds_next held
          obtain ⟨nonzero, free⟩ := not_or.mp (fun mem => free (List.mem_cons.mpr mem))
          rw [strncpyFrom, here, if_pos (Ne.symm nonzero)] at only
          have first : P (dst + i) := only _ (strncpyFrom_keeps (mem_put l _ _))
          have source' : ∀ x, InRegion (src + (i + 1)) (rest.length + 1) x → ¬ P x := by
            intro x inside
            apply source x
            simp only [InRegion, List.length_cons] at inside ⊢
            omega
          have away : Holds (l.put (dst + i) c).mem (src + (i + 1)) (rest ++ [0]) := by
            refine behind.congr fun x inside => put_outside fun same => source' x ?_ (same ▸ first)
            rwa [List.length_append] at inside
          intro x inside
          by_cases same : x = dst + i
          · rw [same]
            exact first
          · apply ih free away source' only x
            simp only [InRegion, List.take_succ_cons, List.length_cons] at inside ⊢
            omega

theorem strncpy_spec (free : 0 ∉ text) (held : Holds l.mem src (text ++ [0]))
    (apart : Apart dst (copy text).length src (text.length + 1)) :
    strncpy l dst src MAX_NAME_LENGTH =
      (l.store dst (copy text), ((text.take MAX_NAME_LENGTH).length : Int)) := by
  have run : strncpyFrom l dst src 0 MAX_NAME_LENGTH = _ := strncpyFrom_spec free held (by
    rwa [copy, List.length_append] at apart)
  rw [Nat.zero_add] at run
  rw [strncpy, if_neg (by decide), Int.toNat_natCast, run]
  rfl

theorem strncpy_keeps {max : Int} (mem : x ∈ l.written) :
    x ∈ (strncpy l dst src max).1.written := by
  rw [strncpy]
  split_ifs
  · exact mem
  · exact strncpyFrom_keeps mem

theorem strncpy_reach {P : Nat → Prop} (free : 0 ∉ text) (held : Holds l.mem src (text ++ [0]))
    (source : ∀ x, InRegion src (text.length + 1) x → ¬ P x)
    (only : ∀ x ∈ (strncpy l dst src MAX_NAME_LENGTH).1.written, P x) :
    ∀ x, InRegion dst (copy text).length x → P x := by
  rw [strncpy, if_neg (by decide), Int.toNat_natCast] at only
  intro x inside
  rw [copy, List.length_append] at inside
  exact strncpyFrom_reach (i := 0) free held source only x inside

end Strings

/-! ### All of them -/

section Loop

variable {l : Tracked} {mem mem' : Bytes} {stackEnd argv i arg left x : Nat} {text : List UInt8}
  {texts : List (List UInt8)}

/-- The strings stay as they are while nothing outside the block changes. -/
theorem Passed.congr (passed : Passed mem argv stackEnd i text) (allocated : stackEnd ≠ NULL)
    (same : ∀ x, ¬ InRegion stackEnd stackSize x → mem' x = mem x) :
      Passed mem' argv stackEnd i text := by
  have slot := passed.slot allocated
  have outside := passed.outside allocated
  have behind : pointer mem' argv i = pointer mem argv i :=
    load_congr fun x inside => same x (slot x inside)
  constructor
  · exact passed.free
  · rw [behind]
    refine passed.held.congr fun x inside => same x (outside x ?_)
    rwa [List.length_append] at inside
  · exact passed.slot
  · rw [behind]
    exact passed.outside

theorem region_sub {a n b m : Nat} (low : b ≤ a) (high : a + n ≤ b + m) :
    ∀ x, InRegion a n x → InRegion b m x :=
  fun _ inside => ⟨low.trans inside.1, inside.2.trans_le high⟩

/-- One round of the loop, where it does not touch the string. -/
def round (l : Tracked) (stackEnd i arg : Nat) (text : List UInt8) : Tracked :=
  (l.store (stackEnd + 8 * i) (bytesOf 8 arg)).store arg (copy text)

theorem round_outside (slot : ¬ InRegion (stackEnd + 8 * i) 8 x)
    (behind : ¬ InRegion arg (copy text).length x) :
    (round l stackEnd i arg text).mem x = l.mem x := by
  rw [round, store_outside behind, store_outside (by rwa [bytesOf_length])]

theorem mem_round_written : x ∈ (round l stackEnd i arg text).written ↔
    x ∈ l.written ∨ InRegion (stackEnd + 8 * i) 8 x ∨ InRegion arg (copy text).length x := by
  rw [round, mem_store_written, mem_store_written, bytesOf_length, or_assoc]

/-- `argvStack[i] = arg`. -/
def slotted (l : Tracked) (stackEnd i arg : Nat) : Tracked := l.store (stackEnd + 8 * i)
    (bytesOf 8 arg)

theorem copyArgs_round : copyArgs l stackEnd argv i arg (left + 1) =
    copyArgs
      (strncpy (slotted l stackEnd i arg) arg (pointer (slotted l stackEnd i arg).mem argv i)
        MAX_NAME_LENGTH).1
      stackEnd argv (i + 1)
      (arg + (strncpy (slotted l stackEnd i arg) arg (pointer (slotted l stackEnd i arg).mem argv i)
        MAX_NAME_LENGTH).2 + 1).toNat left := by
  rw [copyArgs]
  simp only [slotted]

theorem slotted_keeps (mem : x ∈ l.written) : x ∈ (slotted l stackEnd i arg).written :=
  mem_store_written.mpr (Or.inl mem)

theorem copyArgs_keeps (mem : x ∈ l.written) :
    x ∈ (copyArgs l stackEnd argv i arg left).written := by
  induction left generalizing l i arg with
  | zero => exact mem
  | succ left ih =>
      rw [copyArgs_round]
      exact ih (strncpy_keeps (slotted_keeps mem))

theorem Passed.slotted (passed : Passed l.mem argv stackEnd i text) (allocated : stackEnd ≠ NULL)
    (slot : ∀ x, InRegion (stackEnd + 8 * i) 8 x → InRegion stackEnd stackSize x) :
    Passed (slotted l stackEnd i arg).mem argv stackEnd i text :=
  passed.congr allocated fun x out =>
    store_outside fun inside => out (slot x (by rwa [bytesOf_length] at inside))

/-- The pointer is in the block: what the round does is known once the copy is, too. -/
theorem copyArgs_succ (allocated : stackEnd ≠ NULL) (passed : Passed l.mem argv stackEnd i text)
    (slot : ∀ x, InRegion (stackEnd + 8 * i) 8 x → InRegion stackEnd stackSize x)
    (behind : ∀ x, InRegion arg (copy text).length x → InRegion stackEnd stackSize x) :
    copyArgs l stackEnd argv i arg (left + 1) =
      copyArgs (round l stackEnd i arg text) stackEnd argv (i + 1)
        (arg + (copy text).length) left := by
  have passed : Passed (slotted l stackEnd i arg).mem argv stackEnd i text :=
    passed.slotted allocated slot
  have apart : Apart arg (copy text).length (pointer (slotted l stackEnd i arg).mem argv i)
      (text.length + 1) :=
    fun x inside source => passed.outside allocated x source (behind x inside)
  have run := strncpy_spec passed.free passed.held apart
  have next : ((arg : Int) + ((text.take MAX_NAME_LENGTH).length : Int) + 1).toNat =
      arg + (copy text).length := by
    rw [copy, List.length_append, List.length_singleton]
    omega
  rw [copyArgs_round, run, next]
  rfl

theorem copiesSize_cons (text : List UInt8) (texts : List (List UInt8)) :
    copiesSize (text :: texts) = (copy text).length + copiesSize texts := by
  rw [copiesSize, List.map_cons, List.sum_cons]
  rfl

/-- The strings behind what is passed next, once a round is over. -/
theorem passed_next (allocated : stackEnd ≠ NULL)
    (passed : ∀ k (h : k < (text :: texts).length),
      Passed mem argv stackEnd (i + k) (text :: texts)[k])
    (same : ∀ x, ¬ InRegion stackEnd stackSize x → mem' x = mem x) :
    ∀ k (h : k < texts.length), Passed mem' argv stackEnd (i + 1 + k) texts[k] := by
  intro k h
  have := passed (k + 1) (Nat.succ_lt_succ h)
  rw [show i + (k + 1) = i + 1 + k by omega] at this
  exact this.congr allocated same

/-- How far the loop gets, if it writes inside the block only: the last address is the
terminator of the last copy. -/
theorem copyArgs_reach (allocated : stackEnd ≠ NULL) (some : texts ≠ [])
    (passed : ∀ k (h : k < texts.length), Passed l.mem argv stackEnd (i + k) texts[k])
    (only : ∀ x ∈ (copyArgs l stackEnd argv i arg texts.length).written,
      InRegion stackEnd stackSize x) :
    ∃ x ∈ (copyArgs l stackEnd argv i arg texts.length).written, x + 1 =
      arg + copiesSize texts := by
  induction texts generalizing l i arg with
  | nil => exact absurd rfl some
  | cons text texts ih =>
      have first : Passed l.mem argv stackEnd i text := passed 0 (Nat.succ_pos _)
      rw [List.length_cons] at only ⊢
      -- the round writes inside the block, so it leaves the strings alone
      have round_only := only
      rw [copyArgs_round] at round_only
      have slot : ∀ x, InRegion (stackEnd + 8 * i) 8 x → InRegion stackEnd stackSize x := by
        intro x inside
        refine round_only x (copyArgs_keeps (strncpy_keeps (mem_store_written.mpr (Or.inr ?_))))
        rwa [bytesOf_length]
      have source : Passed (slotted l stackEnd i arg).mem argv stackEnd i text :=
        first.slotted allocated slot
      have behind : ∀ x, InRegion arg (copy text).length x → InRegion stackEnd stackSize x :=
        strncpy_reach source.free source.held (source.outside allocated)
          fun x mem => round_only x (copyArgs_keeps mem)
      rw [copyArgs_succ allocated first slot behind] at only ⊢
      rw [copiesSize_cons, ← Nat.add_assoc]
      cases texts with
      | nil =>
          refine ⟨arg + min MAX_NAME_LENGTH text.length, ?_, by rw [copy_length]; rfl⟩
          refine copyArgs_keeps (mem_round_written.mpr (Or.inr (Or.inr ?_)))
          rw [InRegion, copy_length]
          omega
      | cons next texts =>
          refine ih (List.cons_ne_nil _ _) (passed_next allocated passed ?_) only
          intro x out
          exact round_outside (fun inside => out (slot x inside))
            (fun inside => out (behind x inside))

/-- Where the copy of the argument `k` begins. -/
def start (arg : Nat) (texts : List (List UInt8)) (k : Nat) : Nat := arg + copiesSize (texts.take k)

/-- What the rounds from `i` on leave behind. -/
structure Rounds (l l' : Tracked) (stackEnd i arg : Nat) (texts : List (List UInt8)) : Prop where
  written : ∀ x ∈ l'.written, x ∈ l.written ∨ InRegion (stackEnd + 8 * i) (8 * texts.length) x ∨
    InRegion arg (copiesSize texts) x
  outside : ∀ x, ¬ InRegion (stackEnd + 8 * i) (8 * texts.length) x →
    ¬ InRegion arg (copiesSize texts) x → l'.mem x = l.mem x
  pointers : ∀ k (h : k < texts.length),
    Holds l'.mem (stackEnd + 8 * (i + k)) (bytesOf 8 (start arg texts k))
  copies : ∀ k (h : k < texts.length), Holds l'.mem (start arg texts k) (copy texts[k])

theorem start_succ (k : Nat) : start arg (text :: texts)
    (k + 1) = start (arg + (copy text).length) texts k := by
  rw [start, start, List.take_succ_cons, copiesSize_cons, Nat.add_assoc]

theorem copyArgs_spec (allocated : stackEnd ≠ NULL)
    (passed : ∀ k (h : k < texts.length), Passed l.mem argv stackEnd (i + k) texts[k])
    (table : stackEnd + 8 * (i + texts.length) ≤ arg)
    (room : arg + copiesSize texts ≤ stackEnd + stackSize) :
    Rounds l (copyArgs l stackEnd argv i arg texts.length) stackEnd i arg texts := by
  induction texts generalizing l i arg with
  | nil =>
      constructor
      · exact fun x mem => Or.inl mem
      · exact fun x _ _ => rfl
      · intro k h
        cases h
      · intro k h
        cases h
  | cons text texts ih =>
      rw [copiesSize_cons] at room
      rw [List.length_cons] at table
      have slot : ∀ x, InRegion (stackEnd + 8 * i) 8 x → InRegion stackEnd stackSize x :=
        region_sub (by omega) (by omega)
      have behind : ∀ x, InRegion arg (copy text).length x → InRegion stackEnd stackSize x :=
        region_sub (by omega) (by omega)
      have rest : Rounds (round l stackEnd i arg text)
          (copyArgs (round l stackEnd i arg text) stackEnd argv (i + 1)
            (arg + (copy text).length) texts.length)
          stackEnd (i + 1) (arg + (copy text).length) texts := ih
        (passed_next allocated passed fun x out =>
          round_outside (fun inside => out (slot x inside)) (fun inside => out (behind x inside)))
        (by omega) (by omega)
      have first : Passed l.mem argv stackEnd i text := passed 0 (Nat.succ_pos _)
      rw [List.length_cons, copyArgs_succ allocated first slot behind]
      constructor
      · intro x mem
        rw [List.length_cons, copiesSize_cons]
        rcases rest.written x mem with before | inside | inside
        · rcases mem_round_written.mp before with before | inside | inside
          · exact Or.inl before
          · exact Or.inr (Or.inl ⟨inside.1, by have := inside.2; omega⟩)
          · exact Or.inr (Or.inr ⟨inside.1, by have := inside.2; omega⟩)
        · exact Or.inr (Or.inl ⟨by have := inside.1; omega, by have := inside.2; omega⟩)
        · exact Or.inr (Or.inr ⟨by have := inside.1; omega, by have := inside.2; omega⟩)
      · intro x offTable offCopies
        rw [copiesSize_cons] at offCopies
        simp only [InRegion, List.length_cons] at offTable offCopies
        rw [rest.outside x (by rw [InRegion]; omega) (by rw [InRegion]; omega)]
        exact round_outside (by rw [InRegion]; omega) (by rw [InRegion]; omega)
      · intro k h
        cases k with
        | zero =>
            have here : Holds (round l stackEnd i arg text).mem (stackEnd + 8 * i)
                (bytesOf 8 arg) := by
              refine store_holds.store fun x inside => ?_
              rw [bytesOf_length] at inside
              simp only [InRegion] at inside ⊢
              omega
            refine here.congr fun x inside => rest.outside x ?_ ?_
            all_goals
              rw [bytesOf_length] at inside
              simp only [InRegion] at inside ⊢
              omega
        | succ k =>
            rw [start_succ, show i + (k + 1) = i + 1 + k by omega]
            exact rest.pointers k (Nat.lt_of_succ_lt_succ h)
      · intro k h
        cases k with
        | zero =>
            have here : Holds (round l stackEnd i arg text).mem arg (copy text) := store_holds
            refine here.congr fun x inside => rest.outside x ?_ ?_
            all_goals
              simp only [InRegion] at inside ⊢
              omega
        | succ k =>
            rw [start_succ]
            exact rest.copies k (Nat.lt_of_succ_lt_succ h)

/-- What `argWrites` lists is what the loop writes. -/
theorem argWrites_written {off : Nat} (allocated : stackEnd ≠ NULL)
    (passed : ∀ k (h : k < texts.length), Passed l.mem argv stackEnd (i + k) texts[k])
    (table : 8 * (i + texts.length) ≤ off) (room : off + copiesSize texts ≤ stackSize) :
    ∀ w ∈ argWrites stackEnd i off texts,
      w.base + w.offset ∈ (copyArgs l stackEnd argv i (stackEnd + off) texts.length).written := by
  induction texts generalizing l i off with
  | nil =>
      intro w mem
      cases mem
  | cons text texts ih =>
      rw [copiesSize_cons] at room
      rw [List.length_cons] at table
      have slot : ∀ x, InRegion (stackEnd + 8 * i) 8 x → InRegion stackEnd stackSize x :=
        region_sub (by omega) (by omega)
      have behind : ∀ x, InRegion (stackEnd + off) (copy text).length x →
          InRegion stackEnd stackSize x :=
        region_sub (by omega) (by omega)
      have first : Passed l.mem argv stackEnd i text := passed 0 (Nat.succ_pos _)
      have size := copy_length text
      rw [List.length_cons, copyArgs_succ allocated first slot behind]
      intro w mem
      rw [argWrites, List.cons_append, List.mem_cons, List.mem_append] at mem
      rcases mem with rfl | mem | mem
      · have here : InRegion (stackEnd + 8 * i) 8 (stackEnd + 8 * i) := ⟨Nat.le_refl _, by omega⟩
        exact copyArgs_keeps (mem_round_written.mpr (Or.inr (Or.inl here)))
      · obtain ⟨n, lt, rfl⟩ := List.mem_map.mp mem
        rw [List.mem_range] at lt
        have here : InRegion (stackEnd + off) (copy text).length (stackEnd + (off + n)) :=
          ⟨by omega, by omega⟩
        exact copyArgs_keeps (mem_round_written.mpr (Or.inr (Or.inr here)))
      · rw [Nat.add_assoc stackEnd]
        refine ih (passed_next allocated passed fun x out =>
          round_outside (fun inside => out (slot x inside)) (fun inside => out (behind x inside)))
          (by omega) (by omega) w ?_
        rwa [size, Nat.min_comm]

end Loop

/-! ### Where the copies lie -/

section Places

variable {k k' : Nat} {texts : List (List UInt8)}

/-- A copy ends where a later one begins, or before. -/
theorem start_step (arg : Nat) (h : k < texts.length) (lt : k < k') :
    start arg texts k + (copy texts[k]).length ≤ start arg texts k' := by
  obtain ⟨m, rfl⟩ : ∃ m, k' = k + (m + 1) := ⟨k' - k - 1, by omega⟩
  have size : copiesSize (texts.take (k + (m + 1))) =
      copiesSize (texts.take k) +
        ((copy texts[k]).length + copiesSize ((texts.drop (k + 1)).take m)) := by
    rw [List.take_add, List.drop_eq_getElem_cons h, List.take_succ_cons, ← copiesSize_cons,
      copiesSize, List.map_append, List.sum_append]
    rfl
  rw [start, start, size]
  omega

theorem start_end (arg : Nat) (texts : List (List UInt8)) :
    start arg texts texts.length = arg + copiesSize texts := by
  rw [start, List.take_length]

theorem start_ge (arg : Nat) (texts : List (List UInt8)) (k : Nat) : arg ≤ start arg texts k :=
  Nat.le_add_right _ _

end Places

/-! ### The frame -/

section Frame

variable {l : Tracked} {mem : Bytes} {stackEnd argc argv processRip top x : Nat} {added : Bool}

theorem pushes_end (ws : List Nat) : (ws.foldl push (l, top)).2 = top - 8 * ws.length := by
  induction ws generalizing l top with
  | nil => rfl
  | cons w ws ih =>
      rw [List.foldl_cons, push, ih, List.length_cons]
      omega

/-- The pushes do not reach what lies below them. -/
theorem pushes_below {ws : List Nat} (below : x < top - 8 * ws.length) :
    (ws.foldl push (l, top)).1.mem x = l.mem x := by
  induction ws generalizing l top with
  | nil => rfl
  | cons w ws ih =>
      rw [List.length_cons] at below
      rw [List.foldl_cons, push, ih (by omega)]
      exact store_outside (by rw [bytesOf_length, InRegion]; omega)

theorem frame_length (argc argv processRip stackStart : Nat) :
    (frame argc argv processRip stackStart).length = pushes := rfl

theorem initializeProcessStack_below {stackStart : Nat} (below : x < stackStart - 8 * pushes) :
    (initializeProcessStack l argc argv processRip stackStart).1.mem x = l.mem x := by
  rw [← frame_length argc argv processRip stackStart] at below
  exact pushes_below below

theorem initializeProcessStack_end (l : Tracked) (argc argv processRip stackStart : Nat) :
    (initializeProcessStack l argc argv processRip stackStart).2 = stackStart - 8 * pushes := by
  rw [← frame_length argc argv processRip stackStart]
  exact pushes_end _

theorem createProcess_below (below : x < frameEnd stackEnd) :
    (createProcess mem stackEnd argc argv processRip added).1 x =
      (copied mem stackEnd argc argv).mem x := by
  rw [createProcess]
  exact initializeProcessStack_below below

theorem createProcess_returned
    (returned : (createProcess mem stackEnd argc argv processRip added).2 ≠ NULL) :
    (createProcess mem stackEnd argc argv processRip added).2 = frameEnd stackEnd := by
  cases added with
  | false => exact absurd rfl returned
  | true =>
      rw [createProcess, if_pos rfl]
      exact initializeProcessStack_end _ _ _ _ _

theorem frameEnd_le : frameEnd stackEnd ≤ stackEnd + stackSize := by
  rw [frameEnd, stackStart, stackSize]
  omega

end Frame

/-! ### The arguments in the new process -/

section Arrival

variable {mem : Bytes} {argv stackEnd : Nat} {texts : List (List UInt8)}

theorem given_rounds (given : Given mem argv stackEnd texts) (allocated : stackEnd ≠ NULL)
    (room : stackEnd + 8 * texts.length + copiesSize texts ≤ frameEnd stackEnd) :
    Rounds ⟨mem, []⟩ (copied mem stackEnd texts.length argv) stackEnd 0
      (stackEnd + 8 * texts.length) texts := by
  apply copyArgs_spec allocated
  · intro k h
    rw [Nat.zero_add]
    exact given.passed k h
  · omega
  · exact room.trans frameEnd_le

/-- Every argument arrives intact exactly when there is a block, and the table and the
copies end below the frame. -/
theorem arguments_intact_iff (given : Given mem argv stackEnd texts) (processRip : Nat)
    (added : Bool)
    (returned : (createProcess mem stackEnd texts.length argv processRip added).2 ≠ NULL) :
    Intact (copied mem stackEnd texts.length argv)
        (createProcess mem stackEnd texts.length argv processRip added).1
        (createProcess mem stackEnd texts.length argv processRip added).2 stackEnd texts ↔
      stackEnd ≠ NULL ∧ stackEnd + 8 * texts.length + copiesSize texts ≤ frameEnd stackEnd := by
  rw [createProcess_returned returned]
  have whole : frameEnd stackEnd ≤ stackEnd + stackSize := frameEnd_le
  constructor
  · intro intact
    refine ⟨intact.allocated, ?_⟩
    obtain ⟨x, written, last⟩ := copyArgs_reach (l := ⟨mem, []⟩) intact.allocated given.argc
      (fun k h => by rw [Nat.zero_add]; exact given.passed k h) intact.inside
    have := intact.below x written
    omega
  · rintro ⟨allocated, room⟩
    have rounds := given_rounds given allocated room
    set arg := stackEnd + 8 * texts.length
    have ends : ∀ k (h : k < texts.length), start arg texts k + (copy texts[k]).length ≤
        frameEnd stackEnd :=
      fun k h => (start_step arg h h).trans ((start_end arg texts).trans_le room)
    have copies : ∀ k (h : k < texts.length),
        Holds (createProcess mem stackEnd texts.length argv processRip added).1 (start arg texts k)
          (copy texts[k]) := by
      intro k h
      refine (rounds.copies k h).congr fun x inside => createProcess_below ?_
      have := ends k h
      have := inside.2
      omega
    have pointers : ∀ k (h : k < texts.length),
        pointer (createProcess mem stackEnd texts.length argv processRip added).1 stackEnd k =
          start arg texts k := by
      intro k h
      have slot : Holds (createProcess mem stackEnd texts.length argv processRip added).1
          (stackEnd + 8 * k) (bytesOf 8 (start arg texts k)) := by
        have held := rounds.pointers k h
        rw [Nat.zero_add] at held
        refine held.congr fun x inside => createProcess_below ?_
        rw [bytesOf_length] at inside
        have := inside.2
        omega
      have small : start arg texts k < 256 ^ 8 := by
        have := ends k h
        have := given.space
        have : (copy texts[k]).length = _ := copy_length _
        omega
      rw [pointer, load_bytesOf slot, Nat.mod_eq_of_lt small]
    have written : ∀ x ∈ (copied mem stackEnd texts.length argv).written,
        stackEnd ≤ x ∧ x < frameEnd stackEnd := by
      intro x mem
      rcases rounds.written x mem with before | inside | inside
      · cases before
      · obtain ⟨low, high⟩ := inside
        exact ⟨by omega, by omega⟩
      · obtain ⟨low, high⟩ := inside
        exact ⟨by omega, by omega⟩
    constructor
    · exact allocated
    · intro x mem
      obtain ⟨low, high⟩ := written x mem
      exact ⟨low, by omega⟩
    · intro x mem
      exact (written x mem).2
    · intro k h
      rw [pointers k h]
      exact copies k h
    · intro k h x table inside
      rw [pointers k h] at inside
      have := start_ge arg texts k
      have := table.2
      have := inside.1
      omega
    · intro i j hi hj ne x first second
      rw [pointers i hi] at first
      rw [pointers j hj] at second
      obtain ⟨firstLow, firstHigh⟩ := first
      obtain ⟨secondLow, secondHigh⟩ := second
      rcases Nat.lt_or_gt_of_ne ne with lt | gt
      · have := start_step arg hi lt
        omega
      · have := start_step arg hj gt
        omega

/-- `n` pointers from 65536 on, all of them to the one word at 131072 with `size` letters. -/
def words (n size : Nat) : Bytes := fun x =>
  if InRegion 131072 size x then 97 else if InRegion 65536 (8 * n) x ∧ x % 8 = 2 then 2 else 0

theorem words_byte {n i k : Nat} (size : Nat) (few : n ≤ 8192) (h : i < n) (lt : k < 8) :
    words n size (65536 + 8 * i + k) = if k = 2 then 2 else 0 := by
  rw [words, if_neg (by rw [InRegion]; omega)]
  refine if_congr ⟨fun low => by have := low.2; omega, fun two => ?_⟩ rfl rfl
  exact ⟨⟨by omega, by omega⟩, by omega⟩

theorem words_pointer {n size i : Nat} (few : n ≤ 8192) (h : i < n) :
    pointer (words n size) 65536 i = 131072 := by
  have bytes := fun k (lt : k < 8) => words_byte size few h lt
  have held : Holds (words n size) (65536 + 8 * i) (bytesOf 8 131072) := by
    intro k lt
    rw [bytes k lt]
    rcases k with _ | _ | _ | _ | _ | _ | _ | _ | k
    all_goals first | rfl | (rw [bytesOf_length] at lt; omega)
  rw [pointer, load_bytesOf held]
  rfl

theorem words_given {n : Nat} (size : Nat) (some : 0 < n) (few : n ≤ 8192) :
    Given (words n size) 65536 4096 (List.replicate n (List.replicate size 97)) := by
  constructor
  · intro none
    have := congrArg List.length none
    rw [List.length_replicate] at this
    exact absurd this (Nat.ne_of_gt some)
  · decide
  · intro i h
    rw [List.length_replicate] at h
    rw [List.getElem_replicate]
    constructor
    · intro mem
      exact absurd (List.eq_of_mem_replicate mem) (by decide)
    · rw [words_pointer few h, holds_append]
      constructor
      · intro k lt
        rw [List.length_replicate] at lt
        rw [List.getElem_replicate, words, if_pos ⟨Nat.le_add_right _ _, by omega⟩]
      · intro k lt
        rw [List.length_singleton] at lt
        obtain rfl : k = 0 := by omega
        rw [List.length_replicate, words, if_neg (by rw [InRegion]; omega),
          if_neg (by rw [InRegion]; omega)]
        rfl
    · intro _ x slot block
      have := slot.1
      have := block.2
      rw [stackSize] at this
      omega
    · intro _ x text block
      rw [words_pointer few h] at text
      have := text.1
      have := block.2
      rw [stackSize] at this
      omega

theorem arguments_intact_iff_three :
    Intact (copied (words 3 4) 4096 3 65536) (createProcess (words 3 4) 4096 3 65536 0 true).1
      (createProcess (words 3 4) 4096 3 65536 0 true).2 4096 (List.replicate 3 [97, 97, 97, 97]) :=
  (arguments_intact_iff (words_given 4 (by decide) (by decide)) 0 true
    (by rw [createProcess, if_pos rfl, initializeProcessStack_end]; decide)).mpr (by decide)

/-- With 57 words of 60 letters the last copy ends in the frame. -/
theorem arguments_overrun :
    Given (words 57 60) 65536 4096 (List.replicate 57 (List.replicate 60 97)) ∧
      (createProcess (words 57 60) 4096 57 65536 0 true).2 ≠ NULL ∧
      ¬ Intact (copied (words 57 60) 4096 57 65536)
        (createProcess (words 57 60) 4096 57 65536 0 true).1
        (createProcess (words 57 60) 4096 57 65536 0 true).2 4096
        (List.replicate 57 (List.replicate 60 97)) := by
  have given : Given (words 57 60) 65536 4096 (List.replicate 57 (List.replicate 60 97)) :=
    words_given 60 (by decide) (by decide)
  have returned : (createProcess (words 57 60) 4096 57 65536 0 true).2 = frameEnd 4096 := by
    rw [createProcess, if_pos rfl, initializeProcessStack_end]
    rfl
  refine ⟨given, by rw [returned]; decide, fun intact => ?_⟩
  obtain ⟨x, written, last⟩ := copyArgs_reach (l := ⟨words 57 60, []⟩)
    (i := 0) intact.allocated given.argc
    (fun k h => by rw [Nat.zero_add]; exact given.passed k h) intact.inside
  have below := intact.below x written
  rw [returned, show frameEnd 4096 = 8016 from by decide] at below
  rw [show copiesSize (List.replicate 57 (List.replicate 60 97)) =
    3477 from by decide +kernel] at last
  omega

end Arrival

end SoTp.Process.Arguments
