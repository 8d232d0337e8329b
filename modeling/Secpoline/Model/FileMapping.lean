import Secpoline.Model.Handlers

/-!
# The contents of a mapping

`secpoline_mmap` never lets the kernel map a file: `map_file_baked` maps anonymous memory
and reads the file into it, from the given offset on, and puts the position of the
descriptor back. This is `mapFileBaked` of the memory handlers with its calls of `lseek` and
`read`, and what they leave in the mapping.

All results of these calls are kept in variables of type `size_t`. An error number is a
large number there, so none of the comparisons with zero that follow the calls ever sees
an error, and the loop adds error numbers to the number of bytes that it has read.

The kernel may let any call fail, and `read` deliver any part of what there is: the answers
are given from outside. It delivers nothing only at the end of the file.
-/

namespace Secpoline

/-- The number of an error, without its sign. -/
structure Errno where
  number : Nat
  pos : 0 < number
  lt : number < 4096
deriving DecidableEq, Repr

/-- `-errno`, as a `size_t`. -/
def Errno.word (e : Errno) : Nat := 2 ^ 64 - e.number

def EBADF : Errno := ⟨9, by decide, by decide⟩

/-- The result of a kernel call reports an error. -/
def isFailure (r : Nat) : Bool := 2 ^ 64 - 4096 < r

/-! ## The file -/

/-- What a descriptor refers to. Sizes and positions are not negative as an `off_t`. -/
structure OpenFile where
  bytes : List UInt8
  pos : Nat
  bytes_lt : bytes.length < 2 ^ 63
  pos_lt : pos < 2 ^ 63
deriving DecidableEq, Repr

/-- Behind the end of the file a mapping is zero. -/
def OpenFile.byteAt (f : OpenFile) (i : Nat) : UInt8 := f.bytes.getD i 0

inductive Whence where
  | SEEK_SET
  | SEEK_CUR
deriving DecidableEq, Repr

/-- Where `lseek` goes. -/
def OpenFile.target (f : OpenFile) (offset : Nat) : Whence → Nat
  | .SEEK_SET => offset
  | .SEEK_CUR => wadd f.pos offset

/-- The kernel's `lseek`; `none` is a descriptor that is not open. A negative position is
refused with `EINVAL`. -/
def kernelLseek (f : Option OpenFile) (offset : Nat) (whence : Whence) (error : Option Errno) :
    Nat × Option OpenFile :=
  match f, error with
  | none, _ => (EBADF.word, none)
  | some f, some e => (e.word, some f)
  | some f, none =>
      if h : f.target offset whence < 2 ^ 63 then
        (f.target offset whence, some { f with pos := f.target offset whence, pos_lt := h })
      else (2 ^ 64 - 22, some f)

/-- How the kernel answers a `read`. -/
inductive ReadAnswer where
  | error (e : Errno)
  /-- At most so many bytes. -/
  | deliver (n : Nat)
deriving DecidableEq, Repr

/-- The bytes that a `read` of `count` delivers. -/
def OpenFile.delivered (f : OpenFile) (count n : Nat) : List UInt8 :=
  (f.bytes.drop f.pos).take (min count (max 1 n))

theorem OpenFile.delivered_le (f : OpenFile) (count n : Nat) :
    (f.delivered count n).length ≤ f.bytes.length - f.pos := by
  rw [delivered, List.length_take, List.length_drop]
  exact Nat.min_le_right _ _

/-- The file after so many bytes have been delivered. -/
def OpenFile.advance (f : OpenFile) (count n : Nat) : OpenFile :=
  { f with
    pos := f.pos + (f.delivered count n).length
    pos_lt := by
      have hlen := f.delivered_le count n
      have hbytes := f.bytes_lt
      have hpos := f.pos_lt
      omega }

/-- What a `read` comes to: its result, the bytes, and the file afterwards. -/
structure ReadResult where
  curlen : Nat
  data : List UInt8
  file : Option OpenFile
deriving DecidableEq, Repr

/-- The kernel's `read`. -/
def kernelRead (f : Option OpenFile) (count : Nat) (answer : ReadAnswer) : ReadResult :=
  match f, answer with
  | none, _ => ⟨EBADF.word, [], none⟩
  | some f, .error e => ⟨e.word, [], some f⟩
  | some f, .deliver n =>
      ⟨(f.delivered count n).length, f.delivered count n, some (f.advance count n)⟩

/-! ## map_file_baked -/

/-- The contents of a mapping, by the distance from its beginning. -/
abbrev Contents := Nat → UInt8

/-- Bytes written from a place on. -/
def Contents.put (m : Contents) (i : Nat) (data : List UInt8) : Contents := fun x =>
  if i ≤ x ∧ x < i + data.length then data.getD (x - i) 0 else m x

/-- What the `read` loop has come to: the results of its calls, and when it has ended the
file and the contents. -/
structure ReadRun where
  results : List Nat
  ended : Option (Option OpenFile × Contents)

/-- `while(readlen < size)`; the next call of `read` is number `k`. -/
def readLoop (size : Nat) (answers : Nat → ReadAnswer) :
    Nat → Nat → Nat → Option OpenFile → Contents → ReadRun
  | 0, _, _, _, _ => ⟨[], none⟩
  | fuel + 1, k, readlen, f, m =>
      if readlen < size then
        let r := kernelRead f (size - readlen) (answers k)
        let m := m.put readlen r.data
        -- assert(curlen >= 0) is true of every size_t
        if r.curlen = 0 then ⟨[0], some (r.file, m)⟩
        else
          let rest := readLoop size answers fuel (k + 1) (wadd readlen r.curlen) r.file m
          ⟨r.curlen :: rest.results, rest.ended⟩
      else ⟨[], some (f, m)⟩

/-- How the kernel answers the first call: it fails, or maps pages at some address. -/
inductive MmapAnswer where
  | error (e : Errno)
  | mapped (address : Nat) (pos : 0 < address)
deriving DecidableEq, Repr

/-- The result, as an `int64_t`. -/
def MmapAnswer.result : MmapAnswer → Int
  | .error e => -e.number
  | .mapped address _ => address

/-- The answers to all calls that `secpoline_mmap` makes until the mapping is filled. -/
structure MmapAnswers where
  mmap : MmapAnswer
  cur : Option Errno
  set : Option Errno
  reads : Nat → ReadAnswer
  restore : Option Errno

/-- What a call of `secpoline_mmap` comes to. -/
inductive MmapRun where
  /-- An assertion fails. -/
  | aborts
  /-- It returns; `seeks` and `reads` are the results of its calls of `lseek` and `read`,
  and `file` is what the descriptor refers to then. -/
  | returns (result : Int) (seeks reads : List Nat) (file : Option OpenFile) (contents : Contents)
  /-- The `read` loop has not ended yet. -/
  | running (reads : List Nat)

/-- `map_file_baked`. -/
def mapFile (size offset : Nat) (answers : MmapAnswers) (file : Option OpenFile) (fuel : Nat) :
    MmapRun :=
  match answers.mmap with
  | .error e => .returns (-e.number) [] [] file fun _ => 0
  | .mapped address _ =>
      -- if(cur < 0) and if(ret < 0) are true of no size_t
      let (cur, f) := kernelLseek file 0 .SEEK_CUR answers.cur
      let (ret, f) := kernelLseek f offset .SEEK_SET answers.set
      let run := readLoop size answers.reads fuel 0 0 f fun _ => 0
      match run.ended with
      | none => .running run.results
      | some (f, contents) =>
          let (ret', f) := kernelLseek f cur .SEEK_SET answers.restore
          .returns address [cur, ret, ret'] run.results f contents

def MAP_ANONYMOUS : Nat := 0x20

/-- `secpoline_mmap`, up to where the pages are tagged; `allowed` is what it finds out about
the range of a fixed mapping. Without a file the kernel is given the descriptor -1, and
refuses a mapping that is not anonymous. -/
def secpolineMmapContents (start size flags : Nat) (fd : Int) (offset : Nat) (cid : Int)
    (allowed : Bool) (answers : MmapAnswers) (file : Option OpenFile) (fuel : Nat) : MmapRun :=
  if getPkey cid = none then .returns (-EINVAL) [] [] file fun _ => 0
  else if hasFlag flags MAP_HUGETLB then .aborts
  else if size = 0 ∨ start % 4096 ≠ 0 then .returns (-EINVAL) [] [] file fun _ => 0
  else if hasFlag flags MAP_FIXED ∧ ¬ allowed then .returns (-EINVAL) [] [] file fun _ => 0
  else if fd ≠ -1 ∧ fd ≠ 0 then mapFile size offset answers file fuel
  else if hasFlag flags MAP_ANONYMOUS then
    .returns answers.mmap.result [] [] file fun _ => 0
  else
    match answers.mmap with
    | .error e => .returns (-e.number) [] [] file fun _ => 0
    | .mapped .. => .returns (-EBADF.number) [] [] file fun _ => 0

end Secpoline
