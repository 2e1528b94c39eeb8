import WooTftpd.Lib.Strings

namespace WooTftpd
open Lib
set_option autoImplicit true

/-- A place in the words of the command line. -/
structure Place where
  word : Nat
  off : Nat
  deriving DecidableEq

/-- The command line. The words lie in memory apart from each other, each with a NUL behind it. -/
structure Argv where
  words : List CString
  address : Nat → Nat
  inRange : ∀ i w, words[i]? = some w → 0 < address i ∧ address i + w.length < 2 ^ 64
  apart : ∀ i j v w, words[i]? = some v → words[j]? = some w → i < j →
    address i + v.length < address j ∨ address j + w.length < address i

namespace Argv

variable (a : Argv)

def argc : Nat := a.words.length

def text (i : Nat) : List UInt8 := (a.words[i]?.map CString.bytes).getD []

def char (p : Place) : UInt8 := (a.text p.word)[p.off]?.getD 0

def string (p : Place) : List UInt8 := (a.text p.word).drop p.off

def pointer : Option Place → Nat
  | none => 0
  | some p => a.address p.word + p.off

/-- The difference of the pointers, as an unsigned number, is more than the length of the word. -/
def stale (p : Option Place) (i : Nat) : Bool :=
  (a.text i).length < (a.pointer p + (2 ^ 64 - a.address i)) % 2 ^ 64

end Argv

structure LongOption where
  name : List UInt8
  hasArg : Nat
  val : Nat
  deriving DecidableEq

/-- The variables of `getopt_long`, with `optptr` of its private state. -/
structure Getopt where
  optind : Nat
  optptr : Option Place
  optarg : Option Place
  optopt : UInt8

def Getopt.start : Getopt := ⟨0, none, none, 0⟩

def hyphen : UInt8 := 45
def equalsSign : UInt8 := 61
def colonSign : UInt8 := 58
def questionMark : Nat := 63

/-- How many characters of the argument the name takes, if it is the whole of it or stands in front
of an equals sign. -/
def optionMatches : List UInt8 → List UInt8 → Option Nat
  | [], optName => if optName = [] then some 0 else none
  | c :: arg, optName =>
    if c = equalsSign then if optName = [] then some 0 else none
    else
      match optName with
      | [] => none
      | d :: optName => if c = d then (optionMatches arg optName).map (· + 1) else none

def lookupLong (longopts : List LongOption) (arg : List UInt8) : Option (LongOption × Nat) :=
  longopts.findSome? fun lo => (optionMatches arg lo.name).map fun n => (lo, n)

/-- A word that begins with two hyphens. The result -1 is `none`. -/
def getoptLongWord (longopts : List LongOption) (a : Argv) (s : Getopt) : Option Nat × Getopt :=
  let arg := (a.text s.optind).drop 2
  let s' := { s with optind := s.optind + 1 }
  if arg = [] then (none, s')
  else
    match lookupLong longopts arg with
    | none => (some questionMark, s')
    | some (lo, n) =>
      if arg[n]? = some equalsSign then
        if lo.hasArg ≠ 0 then (some lo.val, { s' with optarg := some ⟨s.optind, 2 + n + 1⟩ })
        else (some questionMark, s')
      else if lo.hasArg = 1 then
        if s'.optind < a.argc then
          (some lo.val, { s' with optarg := some ⟨s'.optind, 0⟩, optind := s'.optind + 1 })
        else (some questionMark, { s' with optarg := none })
      else (some lo.val, s')

/-- What `strchr` finds: the option character and what stands behind it. -/
def strchr (c : UInt8) (s : List UInt8) : Option (List UInt8) :=
  match s.dropWhile (· ≠ c) with
  | [] => none
  | t => some t

/-- The next character of a word of short options. -/
def getoptShort (optstring : List UInt8) (a : Argv) (s : Getopt) : Option Nat × Getopt :=
  let p := if a.stale s.optptr s.optind then ⟨s.optind, 1⟩ else s.optptr.getD ⟨s.optind, 1⟩
  let opt := a.char p
  let p := { p with off := p.off + 1 }
  let s := { s with optptr := some p }
  let past := if a.char p = 0 then s.optind + 1 else s.optind
  match if opt = colonSign then none else strchr opt optstring with
  | none => (some questionMark, { s with optopt := opt, optind := past })
  | some osptr =>
    if osptr[1]? = some colonSign then
      if a.char p ≠ 0 then (some opt.toNat, { s with optarg := some p, optind := s.optind + 1 })
      else if s.optind + 1 < a.argc then
        (some opt.toNat, { s with optarg := some ⟨s.optind + 1, 0⟩, optind := s.optind + 2 })
      else
        (some (if optstring.head? = some colonSign then colonSign.toNat else questionMark),
          { s with optind := s.optind + 1 })
    else (some opt.toNat, { s with optind := past })

/-- The options alone begin a word with a hyphen that is not the whole of it. -/
def isOption (w : List UInt8) : Bool := w.head? = some hyphen ∧ w.tail ≠ []

/-- One call. The arguments are those of the call before, or this is the first one. -/
def getoptLong (optstring : List UInt8) (longopts : List LongOption) (a : Argv) (s : Getopt) :
    Option Nat × Getopt :=
  let s := if s.optind < 1 ∨ a.argc < s.optind then { s with optind := 1, optptr := none } else s
  let carg := a.text s.optind
  if ¬ isOption carg then (none, s)
  else if carg[1]? = some hyphen then getoptLongWord longopts a s
  else getoptShort optstring a s

/-- The calls up to the one that returns -1: what each returns, with the argument that `optarg`
points to afterwards. -/
def getoptRun (optstring : List UInt8) (longopts : List LongOption) (a : Argv) :
    Nat → Getopt → List (Nat × Option (List UInt8)) × Getopt
  | 0, s => ([], s)
  | n + 1, s =>
    match getoptLong optstring longopts a s with
    | (none, s) => ([], s)
    | (some c, s) =>
      let r := getoptRun optstring longopts a n s
      ((c, s.optarg.map a.string) :: r.1, r.2)

end WooTftpd
