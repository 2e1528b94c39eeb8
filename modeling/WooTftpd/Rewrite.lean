import WooTftpd.RemapSizing
import WooTftpd.Options

namespace WooTftpd
open Lib
set_option autoImplicit true

def maxline : Nat := 16384

/-- What the letters of a remap command set. `mode` is `none` for a rule of all modes. -/
structure Command where
  rewrite : Bool := false
  global : Bool := false
  exit : Bool := false
  restart : Bool := false
  abort : Bool := false
  inverse : Bool := false
  icase : Bool := false
  mode : Option UInt8 := none

def Command.letter (k : Command) (c : UInt8) : Option Command :=
  if c = 114 then some { k with rewrite := true }
  else if c = 103 then some { k with global := true }
  else if c = 101 then some { k with exit := true }
  else if c = 115 then some { k with restart := true }
  else if c = 97 then some { k with abort := true }
  else if c = 105 then some { k with icase := true }
  else if c = 126 then some { k with inverse := true }
  else if c = 71 ∨ c = 80 then some { k with mode := some c }
  else none

/-- A rule as `parseline` leaves it: only a rewrite is repeated, and no rewrite is inverted. -/
structure Rule (ρ : Type) where
  rewrite : Bool
  global : Bool
  exit : Bool
  restart : Bool
  abort : Bool
  inverse : Bool
  mode : Option UInt8
  rx : ρ
  pattern : CString
  rewriteOfGlobal : global = true → rewrite = true
  notInverted : ¬ (inverse = true ∧ rewrite = true)

/-- The string up to white space or a comment that no backslash is before, and what follows it. -/
def escapedWord : Bool → List UInt8 → List UInt8 × List UInt8
  | _, [] => ([], [])
  | wasbs, c :: p =>
    if wasbs = false ∧ (isSpace c ∨ c = 35) then ([], c :: p)
    else
      let r := escapedWord (!wasbs && c == backslash) p
      (c :: r.1, r.2)

def readescstring (str : List UInt8) : List UInt8 × List UInt8 :=
  escapedWord false (str.dropWhile isSpace)

inductive ParsedLine (ρ : Type) where
  | noRule
  | error
  | rule (r : Rule ρ)

section Parse

variable {ρ : Type} (regcomp : CString → Bool → Option ρ)

/-- The command, the regular expression and the pattern of a line. -/
def parseline (line : CString) : ParsedLine ρ :=
  let command := readescstring line.bytes
  if command.1 = [] then .noRule
  else
    match command.1.foldlM Command.letter {} with
    | none => .error
    | some k =>
      if hinv : k.inverse = true ∧ k.rewrite = true then .error
      else
        let regex := readescstring command.2
        if regex.1 = [] then .error
        else
          match regcomp (.ofBytes regex.1) k.icase with
          | none => .error
          | some rx =>
            .rule
              { rewrite := k.rewrite, global := k.global && k.rewrite, exit := k.exit,
                restart := k.restart, abort := k.abort, inverse := k.inverse, mode := k.mode,
                rx := rx, pattern := .ofBytes (readescstring regex.2).1,
                rewriteOfGlobal := fun h => (Bool.and_eq_true_iff.1 h).2,
                notInverted := hinv }

/-- The lines of a file as `fgets` returns them: each ends with its newline, or where the buffer
is full. -/
def fgetsLines : Nat → List UInt8 → List UInt8 → List (List UInt8)
  | _, line, [] => if line = [] then [] else [line]
  | room, line, c :: f =>
    if c = 10 ∨ room ≤ 1 then (line ++ [c]) :: fgetsLines (maxline - 1) [] f
    else fgetsLines (room - 1) (line ++ [c]) f

/-- The rules of the lines, or `none` if the server exits with `EX_CONFIG`. -/
def parserules : List CString → Option (List (Rule ρ))
  | [] => some []
  | line :: lines =>
    match parseline regcomp line with
    | .noRule => parserules lines
    | .error => none
    | .rule r => (parserules lines).map (r :: ·)

def parserulefile (f : List UInt8) : Option (List (Rule ρ)) :=
  parserules regcomp ((fgetsLines (maxline - 1) [] f).map .ofBytes)

end Parse

/-- What `regexec` can return for a string: 0 with the offsets of a match, `REG_NOMATCH`, or
another error. -/
inductive Regexec (s : CString) where
  | found (m : MatchOf s.bytes)
  | noMatch
  | failed

/-- `malloc`: how many bytes can be used where so many were asked for, if it has them. It never has
more than `PTRDIFF_MAX`. -/
structure Malloc where
  room : Nat → Option Nat
  enough : ∀ size n, room size = some n → size ≤ n
  limit : ∀ size, 2 ^ 63 ≤ size → room size = none

/-- An `int` that is passed as a `size_t`. -/
def sizeT (n : Int) : Nat := (n % (2 ^ 64 : Nat)).toNat

/-- What a call of `rewrite_string` is given besides the rules and the string. -/
structure RewriteCall (ρ : Type) where
  regexec : ρ → (s : CString) → Regexec s
  mode : UInt8
  macrosub : MatchPatternCallback
  malloc : Malloc

inductive Rewritten where
  | returned (current : CString)
  | null (errmsg : Option CString)

/-- "Remap table failure" -/
def tableFailure : CString :=
  .ofBytes [82, 101, 109, 97, 112, 32, 116, 97, 98, 108, 101, 32, 102, 97, 105, 108, 117, 114, 101]

/-- The two calls of `genmatchstring` for a new string. The process exits if `tfmalloc` fails; a
copy of -1 bytes and a write behind the end of the string are undefined. -/
inductive Newstr where
  | text (s : CString)
  | exits
  | undefined

/-- One pass through the body of the inner loop. -/
inductive Attempt where
  | noMatch
  | abort (errmsg : Option CString)
  | matched (current : CString)
  | exits
  | undefined

def Newstr.outcome (abort : Bool) : Newstr → Attempt
  | .text s => if abort then .abort (some s) else .matched s
  | .exits => .exits
  | .undefined => .undefined

/-- The end of the inner loop. -/
inductive LoopEnd where
  | ends (res : Rewritten)
  | leaves (wasMatch : Bool) (current : CString)

/-- What a rule does to the outer loop: the rules it goes on with, or its end. -/
inductive Visit (ρ : Type) where
  | ends (res : Rewritten)
  | goesOn (rules : List (Rule ρ)) (current : CString)

/-- A rule for which `genmatchstring` is called when it fires. -/
def Rule.substitutes (r : Rule ρ) : Bool :=
  if r.abort then r.pattern.bytes ≠ [] else r.rewrite

/-- The array as it is cleared for an inverted rule. -/
def clearedMatch : Fin 10 → Regmatch := fun _ => ⟨-1, -1⟩

namespace RewriteCall

variable {ρ : Type} (env : RewriteCall ρ) (rules : List (Rule ρ))

def newstr (pattern current : CString) (pmatch : Fin 10 → Regmatch) : Newstr :=
  let len := (genmatchstring none pattern.bytes current.bytes pmatch env.macrosub).1
  match env.malloc.room (sizeT (int32 (len + 1))) with
  | none => .exits
  | some room =>
    match (genmatchstring (some (.fresh .zero)) pattern.bytes current.bytes pmatch
      env.macrosub).2 with
    | none => .undefined
    | some o => if o.extent ≤ room then .text (.ofBytes (o.mem.load 0 o.extent)) else .undefined

/-- The array `pmatch` if the rule fires. -/
def firing (r : Rule ρ) (current : CString) : Option (Fin 10 → Regmatch) :=
  match env.regexec r.rx current with
  | .found m => if r.inverse then none else some m.pmatch
  | .noMatch => if r.inverse then some clearedMatch else none
  | .failed => none

/-- The array with which a pass of the inner loop calls `genmatchstring`, if it does. -/
def passedMatch (r : Rule ρ) (current : CString) : Option (Fin 10 → Regmatch) :=
  if r.substitutes then env.firing r current else none

def attempt (r : Rule ρ) (current : CString) : Attempt :=
  match env.firing r current with
  | none => .noMatch
  | some _ =>
    match env.passedMatch r current with
    | none => if r.abort then .abort none else .matched current
    | some pmatch => (env.newstr r.pattern current pmatch).outcome r.abort

/-- The inner loop. `none` if the fuel did not last, if the process exits, or if the behaviour is
undefined. -/
def repeatRule (r : Rule ρ) : Nat → Bool → CString → Option LoopEnd
  | 0, _, _ => none
  | fuel + 1, wasMatch, current =>
    match env.attempt r current with
    | .noMatch => some (.leaves wasMatch current)
    | .abort errmsg => some (.ends (.null errmsg))
    | .matched current =>
      if r.global then repeatRule r fuel true current else some (.leaves true current)
    | .exits => none
    | .undefined => none

/-- A restart sets `ruleptr` to the first rule, and the loop then steps to the next one. -/
def visit (fuel : Nat) (r : Rule ρ) (rest : List (Rule ρ)) (current : CString) :
    Option (Visit ρ) :=
  match env.repeatRule r fuel false current with
  | none => none
  | some (.ends res) => some (.ends res)
  | some (.leaves wasMatch current) =>
    if wasMatch then
      if r.exit then some (.ends (.returned current))
      else if r.restart then some (.goesOn rules.tail current)
      else some (.goesOn rest current)
    else some (.goesOn rest current)

def applies (r : Rule ρ) : Bool := r.mode = none ∨ r.mode = some env.mode

def next (rs : List (Rule ρ)) : List (Rule ρ) := rs.dropWhile fun r => !env.applies r

/-- The outer loop, from the rules `rs` of the list on. -/
def evaluate (fuel deadman : Nat) (rs : List (Rule ρ)) (current : CString) : Option Rewritten :=
  match env.next rs with
  | [] => some (.returned current)
  | r :: rest =>
    match deadman with
    | 0 => some (.null (some tableFailure))
    | deadman + 1 =>
      match env.visit rules fuel r rest current with
      | none => none
      | some (.ends res) => some res
      | some (.goesOn rs current) => evaluate fuel deadman rs current

def deadmanMaxSteps : Nat := 1024

/-- `tfstrdup` has memory for the copy of the string. -/
def Copies (input : CString) : Prop := (env.malloc.room (input.length + 1)).isSome = true

instance (input : CString) : Decidable (env.Copies input) :=
  inferInstanceAs (Decidable ((env.malloc.room (input.length + 1)).isSome = true))

def rewriteString (fuel : Nat) (input : CString) : Option Rewritten :=
  if env.Copies input then env.evaluate rules fuel deadmanMaxSteps rules input else none

variable {env : RewriteCall ρ} {r : Rule ρ}

/-- What the writing pass composes in a memory without end. -/
def composed (env : RewriteCall ρ) (pattern current : CString) (pmatch : Fin 10 → Regmatch) :
    CString :=
  match (genmatchstring (some (.fresh .zero)) pattern.bytes current.bytes pmatch env.macrosub).2 with
  | some o => .ofBytes (o.mem.load 0 o.extent)
  | none => .ofBytes []

/-- `tfmalloc` has memory for the length that the sizing pass counts, and the writing pass does
not need more than this memory. -/
def Fits (env : RewriteCall ρ) (pattern current : CString) (pmatch : Fin 10 → Regmatch) : Prop :=
  let len := (genmatchstring none pattern.bytes current.bytes pmatch env.macrosub).1
  let written := (genmatchstring (some (.fresh .zero)) pattern.bytes current.bytes pmatch
    env.macrosub).2
  ∃ room o, env.malloc.room (sizeT (int32 (len + 1))) = some room ∧ written = some o ∧
    o.extent ≤ room

theorem newstr_fits (h : env.Fits p c pmatch) :
    env.newstr p c pmatch = .text (env.composed p c pmatch) := by
  obtain ⟨room, o, hroom, ho, hle⟩ := h
  simp only [newstr, composed, hroom, ho, if_pos hle]

theorem fits_of_newstr (h : env.newstr p c pmatch = .text s) : env.Fits p c pmatch := by
  simp only [newstr] at h
  split at h
  · cases h
  · rename_i room hroom
    split at h
    · cases h
    · rename_i o ho
      split at h
      · rename_i hle
        exact ⟨room, o, hroom, ho, hle⟩
      · cases h

theorem attempt_idle (h : env.firing r c = none) : env.attempt r c = .noMatch := by
  simp only [attempt, h]

theorem attempt_passed (h : env.passedMatch r c = some pmatch) :
    env.attempt r c = (env.newstr r.pattern c pmatch).outcome r.abort := by
  have hf : env.firing r c = some pmatch := by
    rw [passedMatch] at h
    split at h
    · exact h
    · cases h
  simp only [attempt, hf, h]

/-- A rule that fires without calling `genmatchstring`. -/
theorem attempt_plain (h : env.firing r c = some pmatch) (hs : r.substitutes = false) :
    env.attempt r c = if r.abort then .abort none else .matched c := by
  have hp : env.passedMatch r c = none := by
    rw [passedMatch, hs]
    rfl
  simp only [attempt, h, hp]

theorem passedMatch_substitutes (h : env.firing r c = some pmatch) (hs : r.substitutes = true) :
    env.passedMatch r c = some pmatch := by
  rw [passedMatch, if_pos hs, h]

end RewriteCall

end WooTftpd
