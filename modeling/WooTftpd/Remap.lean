import WooTftpd.Address

namespace WooTftpd
open Lib
set_option autoImplicit true

/-- The `int` that arithmetic comes to: it wraps around, as the code is compiled. -/
def int32 (n : Int) : Int := n.bmod (2 ^ 32)

theorem int32_add (a b : Int) : int32 (int32 a + b) = int32 (a + b) := Int.bmod_add_bmod

theorem int32_lt (n : Int) : int32 n < (2 ^ 31 : Nat) := Int.bmod_lt (by decide)

theorem int32_nat_iff (n : Nat) : int32 n = n ↔ n < 2 ^ 31 := by
  constructor
  · intro h
    have hlt := int32_lt n
    omega
  · intro h
    apply Int.bmod_eq_of_le
    · omega
    · omega

theorem int32_le (h : 0 ≤ n) : int32 n ≤ n := by
  have hpow : ((2 ^ 32 : Nat) : Int) = 4294967296 := rfl
  rw [int32, Int.bmod_def, hpow]
  split
  · omega
  · omega

/-- An output pointer: where it points to in the buffer, and one past the last byte of the
buffer that was written. -/
structure Cursor where
  mem : Mem
  pos : Nat
  extent : Nat

namespace Cursor

def poke (o : Cursor) (bs : List UInt8) : Cursor :=
  { o with mem := o.mem.store o.pos bs, extent := max o.extent (o.pos + bs.length) }

def push (o : Cursor) (bs : List UInt8) : Cursor :=
  { o.poke bs with pos := o.pos + bs.length }

/-- `memcpy` of `n` bytes, which is undefined for a negative number: as a `size_t` it is larger than
any buffer. -/
def memcpy (o : Cursor) (bs : List UInt8) (n : Int) : Option Cursor :=
  if 0 ≤ n then some (o.push (bs.take n.toNat)) else none

end Cursor

/-- Offsets of a match as `regexec` reports them; -1 for a group that took no part. -/
structure Regmatch where
  rmSo : Int
  rmEo : Int

/-- Offsets into a string: those of the whole match, and those of the groups that took part
in it. -/
structure MatchOf (input : List UInt8) where
  pmatch : Fin 10 → Regmatch
  groups : ∀ n, (pmatch n).rmSo = -1 ∨ (0 ≤ (pmatch n).rmSo ∧
    (pmatch n).rmSo ≤ (pmatch n).rmEo ∧ (pmatch n).rmEo ≤ input.length)
  whole : (pmatch 0).rmSo ≠ -1

def wholeMatch (input : List UInt8) : MatchOf input where
  pmatch := fun n => if n.val = 0 then ⟨0, input.length⟩ else ⟨-1, -1⟩
  groups := by
    intro n
    split
    · exact .inr ⟨Int.le_refl _, Int.natCast_nonneg _, Int.le_refl _⟩
    · exact .inl rfl
  whole := nofun

inductive Xform where
  | null
  | toupper
  | tolower

def Xform.apply (c : UInt8) : Xform → UInt8
  | .null => c
  | .toupper => WooTftpd.toupper c
  | .tolower => WooTftpd.tolower c

def backslash : UInt8 := 92

/-- A callback for the macros that `genmatchstring` does not know: the length of its output,
negative for no output, and the pointer it was given. -/
def MatchPatternCallback := UInt8 → Option Cursor → Int × Option Cursor

/-- The state of the loop over the pattern. `string` is `none` when only the length is asked
for. -/
structure Expansion where
  xform : Xform
  len : Int
  string : Option Cursor

namespace Expansion

def emit (s : Expansion) (cs : List UInt8) : Expansion :=
  { s with len := int32 (s.len + cs.length),
           string := s.string.map (·.push (cs.map s.xform.apply)) }

def reference (input : List UInt8) (m : Regmatch) (s : Expansion) : Expansion :=
  if m.rmSo ≠ -1 then s.emit ((input.drop m.rmSo.toNat).take (m.rmEo - m.rmSo).toNat) else s

/-- A macro of the callback, whose output is transformed in place. -/
def macrosub (callback : MatchPatternCallback) (c : UInt8) (s : Expansion) : Expansion :=
  let r := callback c s.string
  let s := { s with string := r.2 }
  if 0 ≤ r.1 then
    { s with len := int32 (s.len + r.1),
             string := s.string.map fun o =>
               o.push ((o.mem.load o.pos r.1.toNat).map s.xform.apply) }
  else s.emit [c]

def escape (callback : MatchPatternCallback) (input : List UInt8) (pmatch : Fin 10 → Regmatch)
    (c : UInt8) (s : Expansion) : Expansion :=
  if 48 ≤ c ∧ c ≤ 57 then s.reference input (pmatch (.ofNat 10 (c.toNat - 48)))
  else if c = 76 then { s with xform := .tolower }
  else if c = 85 then { s with xform := .toupper }
  else if c = 69 then { s with xform := .null }
  else s.macrosub callback c

/-- The loop over the pattern. A backslash at its end stands for itself. -/
def expand (callback : MatchPatternCallback) (input : List UInt8) (pmatch : Fin 10 → Regmatch) :
    List UInt8 → Expansion → Expansion
  | [], s => s
  | [c], s => s.emit [c]
  | c :: d :: pattern, s =>
    if c = backslash then expand callback input pmatch pattern (s.escape callback input pmatch d)
    else expand callback input pmatch (d :: pattern) (s.emit [c])

end Expansion

/-- The number of characters behind the match. -/
def endbytes (input : List UInt8) (pmatch : Fin 10 → Regmatch) : Int :=
  int32 (input.length - (pmatch 0).rmEo)

/-- Do `\`-substitution; with `string` `none`, only the length is computed. The pointer that is
returned is at the terminating NUL; there is none if the behaviour is undefined. -/
def genmatchstring (string : Option Cursor) (pattern input : List UInt8)
    (pmatch : Fin 10 → Regmatch) (callback : MatchPatternCallback) : Int × Option Cursor :=
  let endbytes := endbytes input pmatch
  let s : Expansion :=
    ⟨.null, int32 ((pmatch 0).rmSo + endbytes), string.bind (·.memcpy input (pmatch 0).rmSo)⟩
  let s := s.expand callback input pmatch pattern
  (s.len, s.string.bind fun o =>
    (o.memcpy (input.drop (pmatch 0).rmEo.toNat) endbytes).map (·.poke [NUL]))

/-- The callback of the server. `sprintf` and `strcpy` write a NUL behind their text; `\x` has
a length only if there is a buffer. -/
def rewriteMacros (peer : SockAddr) : MatchPatternCallback := fun macroChar output =>
  if macroChar = 105 then
    match inetNtop peer inet6Addrstrlen with
    | some p => (p.length, output.map (·.poke (p ++ [NUL])))
    | none => (0, output)
  else if macroChar = 120 then
    match output with
    | some o => ((hexAddress peer).length, some (o.poke (hexAddress peer ++ [NUL])))
    | none => (0, none)
  else (-1, output)

end WooTftpd
