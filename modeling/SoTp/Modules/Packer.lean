/-
The module packer (`Toolchain/ModulePacker/main.c`). It appends to the kernel image the
number of modules and, for each module, its size and its bytes. Files are copied 128
bytes at a time until a short read meets the end of the file.

* `write_file_fopen` — a file is copied whole.
* `buildImage_eq` — the image that is written.
-/

import SoTp.Lib.Bytes

namespace SoTp.Modules

open SoTp.Lib

def BUFFER_SIZE : Nat := 128

abbrev File := List UInt8

/-- A file that is being read. -/
structure FILE where
  bytes : File
  position : Nat
  eof : Bool

def fopen (file : File) : FILE := ⟨file, 0, false⟩

/-- `fread(buffer, 1, n, source)`. A short read sets the end-of-file indicator. -/
def fread (n : Nat) (source : FILE) : File × FILE :=
  let read := (source.bytes.drop source.position).take n
  (read, { source with
    position := source.position + read.length
    eof := source.eof || decide (read.length < n) })

/-- A read that was not short has moved on. -/
theorem fread_moves {source : FILE} (more : (fread BUFFER_SIZE source).2.eof = false) :
    source.bytes.length - (fread BUFFER_SIZE source).2.position <
      source.bytes.length - source.position := by
  simp only [fread, BUFFER_SIZE, Bool.or_eq_false_iff, decide_eq_false_iff_not, List.length_take,
    List.length_drop] at more ⊢
  omega

/-- `write_file`: everything from the position of `source` on goes behind `target`. -/
def write_file (target : File) (source : FILE) : File :=
  if source.eof then target
  else
    write_file (target ++ (fread BUFFER_SIZE source).1) (fread BUFFER_SIZE source).2
termination_by (if source.eof then 0 else 1, source.bytes.length - source.position)
decreasing_by
  rename_i reading
  by_cases more : (fread BUFFER_SIZE source).2.eof = true
  · exact Prod.Lex.left _ _ (by simp [more, reading])
  · have more : (fread BUFFER_SIZE source).2.eof = false := by simpa using more
    rw [if_neg reading, more]
    exact Prod.Lex.right _ (fread_moves more)

/-- `write_size`: `stat` reports the length of the file. -/
def write_size (target file : File) : File := target ++ uint32Bytes (file.length % 2 ^ 32)

/-- The files of the command line: the kernel, which has to be there, and the modules.
Their number is an `int`. -/
structure array_t where
  array : List File
  given : array ≠ []
  length : array.length < 2 ^ 31

def buildImage (fileArray : array_t) : File :=
  let target := write_file [] (fopen (fileArray.array.head fileArray.given))
  let extraBinaries := fileArray.array.length - 1
  let target := target ++ uint32Bytes extraBinaries
  fileArray.array.tail.foldl (fun target file =>
    write_file (write_size target file) (fopen file)) target

/-! ### What the packer writes -/

/-- A module in the image: its size and its bytes. -/
def packed (file : File) : File := uint32Bytes (file.length % 2 ^ 32) ++ file

/-- What lies behind the kernel image. -/
def payload (modules : List File) : File := uint32Bytes modules.length ++ modules.flatMap packed

theorem write_file_from (target : File) (source : FILE) (reading : source.eof = false) :
    write_file target source = target ++ source.bytes.drop source.position := by
  induction target, source using write_file.induct with
  | case1 target source eof =>
      rw [reading] at eof
      cases eof
  | case2 target source _ ih =>
      rw [write_file, if_neg (by simp [reading])]
      by_cases more : (fread BUFFER_SIZE source).2.eof = true
      · -- The read was short, so it was the last one.
        have short : source.bytes.length - source.position ≤ BUFFER_SIZE := by
          simp only [fread, reading, Bool.false_or, decide_eq_true_eq, List.length_take,
            List.length_drop] at more
          omega
        have all : (fread BUFFER_SIZE source).1 = source.bytes.drop source.position :=
          List.take_of_length_le (by rwa [List.length_drop])
        rw [write_file, if_pos more, all]
      · have more : (fread BUFFER_SIZE source).2.eof = false := by simpa using more
        have rest : (fread BUFFER_SIZE source).2.bytes.drop (fread BUFFER_SIZE source).2.position =
            (source.bytes.drop source.position).drop BUFFER_SIZE := by
          have full : BUFFER_SIZE ≤ (source.bytes.drop source.position).length := by
            simp only [fread, reading, Bool.false_or, decide_eq_false_iff_not, List.length_take,
              Nat.not_lt] at more
            omega
          rw [fread, List.drop_drop, List.length_take, Nat.min_eq_left full]
        rw [ih more, rest, List.append_assoc, fread, List.take_append_drop]

/-- A file is copied whole. -/
theorem write_file_fopen (target file : File) :
    write_file target (fopen file) = target ++ file := by
  rw [write_file_from target (fopen file) rfl]
  rfl

theorem foldl_packed (target : File) (files : List File) :
    files.foldl (fun target file => write_file (write_size target file) (fopen file)) target =
      target ++ files.flatMap packed := by
  induction files generalizing target with
  | nil => simp
  | cons file files ih =>
      rw [List.foldl_cons, ih, write_file_fopen, write_size, List.flatMap_cons, packed]
      simp only [List.append_assoc]

/-- The image that is written. -/
theorem buildImage_eq (fileArray : array_t) : buildImage fileArray =
    fileArray.array.head fileArray.given ++ payload fileArray.array.tail := by
  unfold buildImage
  rw [foldl_packed, write_file_fopen, payload, List.length_tail]
  simp only [List.nil_append, List.append_assoc]

end SoTp.Modules
