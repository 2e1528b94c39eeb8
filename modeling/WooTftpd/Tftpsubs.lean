import Mathlib.Logic.Function.Basic
import WooTftpd.Packet

namespace WooTftpd
open Lib
set_option autoImplicit true

/-- One of the two packet buffers: `counter` is the size of its data, or a flag. -/
structure Bf where
  counter : Int
  buf : Mem

def bfAlloc : Int := -3

def bfFree : Int := -2

/-- The static state of the read-ahead/write-behind routines. The indices 0 and 1 of `bfs`
are `false` and `true`; `prevchar` is `none` for the initial -1. -/
structure Subs where
  bfs : Bool → Bf
  nextone : Bool
  current : Bool
  newline : Bool
  prevchar : Option UInt8

namespace Subs

def static : Subs := ⟨fun _ => ⟨0, .zero⟩, false, false, false, none⟩

def setBf (s : Subs) (i : Bool) (b : Bf) : Subs := { s with bfs := Function.update s.bfs i b }

def setCounter (s : Subs) (i : Bool) (n : Int) : Subs := s.setBf i { s.bfs i with counter := n }

def setBuf (s : Subs) (i : Bool) (m : Mem) : Subs := s.setBf i { s.bfs i with buf := m }

@[simp] theorem setBf_same (s : Subs) (i : Bool) (b : Bf) : (s.setBf i b).bfs i = b :=
  Function.update_self _ _ _

@[simp] theorem setBf_not (s : Subs) (i : Bool) (b : Bf) : (s.setBf i b).bfs (!i) = s.bfs (!i) :=
  Function.update_of_ne (by cases i <;> decide) _ _

@[simp] theorem setBf_nextone (s : Subs) (i : Bool) (b : Bf) :
    (s.setBf i b).nextone = s.nextone := rfl

@[simp] theorem setBf_current (s : Subs) (i : Bool) (b : Bf) :
    (s.setBf i b).current = s.current := rfl

@[simp] theorem setBf_prevchar (s : Subs) (i : Bool) (b : Bf) :
    (s.setBf i b).prevchar = s.prevchar := rfl

end Subs

def rwInit (x : Bool) (s : Subs) : Subs :=
  { (s.setCounter false bfAlloc).setCounter true bfFree with
    newline := false, prevchar := none, current := false, nextone := x }

def rInit (s : Subs) : Subs := rwInit true s

def wInit (s : Subs) : Subs := rwInit false s

/-- A file open for reading. `err p` says that the kernel fails a read at offset `p`. -/
structure InFile where
  content : List UInt8
  pos : Nat
  err : Nat → Bool

namespace InFile

def regular (content : List UInt8) : InFile := ⟨content, 0, fun _ => false⟩

def rest (f : InFile) : List UInt8 := f.content.drop f.pos

def read (f : InFile) (n : Nat) : Option (List UInt8 × InFile) :=
  if f.err f.pos then none
  else some (f.rest.take n, { f with pos := f.pos + (f.rest.take n).length })

/-- `getc`, whose EOF stands for the end of the file and for an error alike. -/
def getc (f : InFile) : Option (UInt8 × InFile) :=
  if f.err f.pos then none
  else f.content[f.pos]?.map fun c => (c, { f with pos := f.pos + 1 })

end InFile

structure Fill where
  bytes : List UInt8
  newline : Bool
  prevchar : Option UInt8
  file : InFile

def Fill.cons (c : UInt8) (r : Fill) : Fill := { r with bytes := c :: r.bytes }

/-- The conversion loop of `read_ahead`, for the `n` bytes still free in the buffer. -/
def fillbuf : Nat → Bool → Option UInt8 → InFile → Fill
  | 0, newline, prevchar, f => ⟨[], newline, prevchar, f⟩
  | n + 1, true, prevchar, f =>
    .cons (if prevchar = some LF then LF else NUL) (fillbuf n false prevchar f)
  | n + 1, false, prevchar, f =>
    match f.getc with
    | none => ⟨[], false, prevchar, f⟩
    | some (c, f') =>
      if c = LF ∨ c = CR then .cons CR (fillbuf n true (some c) f')
      else .cons c (fillbuf n false prevchar f')

def readAhead (convert : Bool) (segsize : Nat) (s : Subs) (f : InFile) : Subs × InFile :=
  let i := s.nextone
  let b := s.bfs i
  if b.counter ≠ bfFree then (s, f)
  else
    let s := { s with nextone := !i }
    if convert then
      let r := fillbuf segsize s.newline s.prevchar f
      ({ s.setBf i ⟨r.bytes.length, b.buf.store thData r.bytes⟩ with
        newline := r.newline, prevchar := r.prevchar }, r.file)
    else
      match f.read segsize with
      | none => (s.setBf i { b with counter := -1 }, f)
      | some (bs, f') => (s.setBf i ⟨bs.length, b.buf.store thData bs⟩, f')

/-- Free the buffer whose data was acknowledged and turn to the next one, which is filled
if it is still empty. The caller's packet is then the current buffer. -/
def readit (convert : Bool) (segsize : Nat) (s : Subs) (f : InFile) : Subs × InFile × Int :=
  let s := { s.setCounter s.current bfFree with current := !s.current }
  let r := if (s.bfs s.current).counter = bfFree then readAhead convert segsize s f else (s, f)
  (r.1, r.2, (r.1.bfs r.1.current).counter)

/-- A stream open for writing: the file as the kernel has it, with the offset of its descriptor,
and what is still in the buffer of the stream. `ops` counts the system calls. -/
structure OutFile where
  stored : List UInt8
  pos : Nat
  unwritten : List UInt8
  bufsiz : Nat
  ops : Nat

/-- What goes wrong in the `k`-th system call on a file: nothing (`none`), or the call
fails (0), or it stops after so many bytes and before the last one. -/
def Faults := Nat → Option Nat

def Faults.clean : Faults := fun _ => none

namespace OutFile

def truncated (bufsiz : Nat) : OutFile := ⟨[], 0, [], bufsiz, 0⟩

def put (f : OutFile) (bs : List UInt8) : OutFile :=
  { f with stored := f.stored.take f.pos ++ bs ++ f.stored.drop (f.pos + bs.length),
           pos := f.pos + bs.length }

/-- The text of the stream, with the bytes of the buffer in their place. -/
def content (f : OutFile) : List UInt8 := (f.put f.unwritten).stored

def tick (f : OutFile) : OutFile := { f with ops := f.ops + 1 }

def write (fl : Faults) (f : OutFile) (bs : List UInt8) : OutFile × Int :=
  match fl f.ops with
  | none => ((f.put bs).tick, bs.length)
  | some 0 => (f.tick, -1)
  | some k => ((f.put (bs.dropLast.take k)).tick, (bs.dropLast.take k).length)

/-- The buffer is empty afterwards, also when it could not be written. -/
def fflush (fl : Faults) (f : OutFile) : OutFile × Bool :=
  if f.unwritten = [] then (f, true)
  else
    let r := { f with unwritten := [] }.write fl f.unwritten
    (r.1, decide (r.2 = (f.unwritten.length : Int)))

/-- A full buffer is written first. -/
def putc (fl : Faults) (f : OutFile) (c : UInt8) : OutFile :=
  if f.unwritten.length < f.bufsiz then { f with unwritten := f.unwritten ++ [c] }
  else
    let r := f.fflush fl
    if r.2 then { r.1 with unwritten := [c] } else r.1

/-- `lseek`, which fails at the start of the file. -/
def lseekBack (fl : Faults) (f : OutFile) : OutFile :=
  match fl f.ops with
  | none => { f with pos := f.pos - 1 }.tick
  | some _ => f.tick

/-- `fseek(file, -1, 1)`, which writes the buffer before it moves the offset. -/
def fseekBack (fl : Faults) (f : OutFile) : OutFile :=
  let r := f.fflush fl
  if r.2 then r.1.lseekBack fl else r.1

/-- The result says whether all of the buffer was written. -/
def fclose (fl : Faults) (f : OutFile) : OutFile × Bool := f.fflush fl

end OutFile

def putbuf (fl : Faults) : List UInt8 → Option UInt8 → OutFile → Option UInt8 × OutFile
  | [], prevchar, f => (prevchar, f)
  | c :: cs, prevchar, f =>
    if prevchar = some CR ∧ c = NUL then putbuf fl cs (some c) f
    else if prevchar = some CR ∧ c = LF then
      putbuf fl cs (some c) ((f.fseekBack fl).putc fl c)
    else putbuf fl cs (some c) (f.putc fl c)

def writeBehind (fl : Faults) (convert : Bool) (s : Subs) (f : OutFile) : Subs × OutFile × Int :=
  let i := s.nextone
  let b := s.bfs i
  if b.counter < -1 then (s, f, 0)
  else
    let count := b.counter
    let s := { s.setCounter i bfFree with nextone := !i }
    if count ≤ 0 then (s, f, -1)
    else
      let bs := b.buf.load thData count.toNat
      if convert then
        let r := putbuf fl bs s.prevchar f
        ({ s with prevchar := r.1 }, r.2, count)
      else
        let r := f.write fl bs
        (s, r.1, r.2)

/-- Update the count of the current buffer and turn to the other one, which is flushed if it
is not free. The result is the count that was passed in, whatever became of the flush. -/
def writeit (fl : Faults) (convert : Bool) (ct : Int) (s : Subs) (f : OutFile) :
    Subs × OutFile × Int :=
  let s := { s.setCounter s.current ct with current := !s.current }
  let r := if (s.bfs s.current).counter ≠ bfFree then writeBehind fl convert s f else (s, f, 0)
  (r.1.setCounter r.1.current bfAlloc, r.2.1, ct)

end WooTftpd
