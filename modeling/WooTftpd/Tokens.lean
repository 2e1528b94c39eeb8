import WooTftpd.Lib.Escape
import WooTftpd.Rewrite

namespace WooTftpd
open Lib
set_option autoImplicit true

/-- What a call of `readescstring` leaves behind: the length that it returns, the string in `buf`,
and the rest of the line at `*str`. -/
structure EscString where
  len : Nat
  buf : List UInt8
  str : List UInt8

/-- The loop of `readescstring` that copies, with what it has counted and copied so far. -/
def copyEscstring : Bool → Nat → List UInt8 → List UInt8 → EscString
  | _, len, buf, [] => ⟨len, buf, []⟩
  | wasbs, len, buf, c :: p =>
    if wasbs = false ∧ (isSpace c ∨ c = 35) then ⟨len, buf, c :: p⟩
    else copyEscstring (!wasbs && c == backslash) (len + 1) (buf ++ [c]) p

/-- `readescstring` with the length that it counts. -/
def countEscstring (str : List UInt8) : EscString :=
  let p := str.dropWhile isSpace
  if p = [] then ⟨0, [], p⟩ else copyEscstring false 0 [] p

/-- The lengths and the strings of so many calls in a row, each on the rest that the one before it
has left. -/
def escstrings : Nat → List UInt8 → List (Nat × List UInt8)
  | 0, _ => []
  | k + 1, str =>
    let r := countEscstring str
    (r.len, r.buf) :: escstrings k r.str

def endsWord (c : UInt8) : Bool := isSpace c || c == 35

theorem endsWord_iff (c : UInt8) : endsWord c = true ↔ isSpace c = true ∨ c = 35 := by
  rw [endsWord, Bool.or_eq_true, beq_iff_eq]

/-- The word that is read is the span of a scanner with the backslash as its escape character. -/
theorem escapedWord_eq (wasbs : Bool) (p : List UInt8) :
    escapedWord wasbs p = escapedSpan backslash endsWord wasbs p := by
  induction p generalizing wasbs with
  | nil => rfl
  | cons c p ih => simp only [escapedWord, escapedSpan, endsWord_iff, ih]

theorem copyEscstring_eq (wasbs : Bool) (len : Nat) (buf p : List UInt8) :
    copyEscstring wasbs len buf p =
      ⟨len + (escapedWord wasbs p).1.length, buf ++ (escapedWord wasbs p).1,
        (escapedWord wasbs p).2⟩ := by
  induction p generalizing wasbs len buf with
  | nil =>
    rw [escapedWord, List.append_nil]
    rfl
  | cons c p ih =>
    rw [copyEscstring, escapedWord]
    split
    · rw [List.append_nil]
      rfl
    · dsimp only
      rw [ih, List.append_assoc, List.length_cons, Nat.add_right_comm]
      rfl

/-- The length counted is that of the word, and the word and the rest are those of `parseline`. -/
theorem countEscstring_eq (str : List UInt8) :
    countEscstring str =
      ⟨(readescstring str).1.length, (readescstring str).1, (readescstring str).2⟩ := by
  rw [countEscstring, readescstring]
  split
  · rename_i hp
    rw [hp]
    rfl
  · rw [copyEscstring_eq, Nat.zero_add, List.nil_append]

theorem escstrings_succ (k : Nat) (h : readescstring str = (word, rest)) :
    escstrings (k + 1) str = (word.length, word) :: escstrings k rest := by
  rw [escstrings, countEscstring_eq, h]

/-- White space, or nothing. -/
structure Spaces where
  bytes : List UInt8
  isSpaces : ∀ c ∈ bytes, isSpace c = true

structure Separator extends Spaces where
  nonempty : bytes ≠ []

/-- A token as it stands in a line, with its backslashes: white space and `#` have an odd run of
them before it, and none is left over at the end. -/
structure Token where
  text : CString
  nonempty : text.bytes ≠ []
  isProtected : Protected backslash endsWord text.bytes

def Token.bytes (t : Token) : List UInt8 := t.text.bytes

def commentBytes : Option CString → List UInt8
  | none => []
  | some text => 35 :: text.bytes

/-- The parts of a line. White space is behind each token of `words`; the token `last`, if there is
one, has the end of the line or a comment behind it. -/
structure TokenLine where
  lead : Spaces
  words : List (Token × Separator)
  last : Option Token
  comment : Option CString

def TokenLine.tokens (l : TokenLine) : List Token := l.words.map Prod.fst ++ l.last.toList

def TokenLine.ending (l : TokenLine) : List UInt8 :=
  l.last.toList.flatMap Token.bytes ++ commentBytes l.comment

def TokenLine.bytes (l : TokenLine) : List UInt8 :=
  l.lead.bytes ++ (l.words.flatMap (fun w => w.1.bytes ++ w.2.bytes) ++ l.ending)

theorem Separator.stops (s : Separator) (ys : List UInt8) : Stops endsWord (s.bytes ++ ys) := by
  obtain ⟨⟨bytes, hspaces⟩, hne⟩ := s
  cases bytes with
  | nil => exact absurd rfl hne
  | cons c cs =>
    intro d hd
    cases hd
    exact (endsWord_iff c).2 (.inl (hspaces c List.mem_cons_self))

theorem stops_comment (c : Option CString) : Stops endsWord (commentBytes c) := by
  intro d hd
  cases c with
  | none => cases hd
  | some text =>
    cases hd
    exact (endsWord_iff 35).2 (.inr rfl)

theorem Spaces.dropWhile (ws : Spaces) (h : ∀ c ∈ ys.head?, isSpace c = false) :
    (ws.bytes ++ ys).dropWhile isSpace = ys := by
  rw [List.dropWhile_append_of_pos ws.isSpaces]
  cases ys with
  | nil => rfl
  | cons c ys => exact List.dropWhile_cons_of_neg (Bool.eq_false_iff.1 (h c rfl))

/-- A token is read as a whole, with the white space before it skipped. -/
theorem readescstring_token (ws : Spaces) (t : Token) (hys : Stops endsWord ys) :
    readescstring (ws.bytes ++ (t.bytes ++ ys)) = (t.bytes, ys) := by
  have hhead : ∀ c ∈ (t.bytes ++ ys).head?, isSpace c = false := by
    obtain ⟨⟨bytes, _⟩, hne, hp⟩ := t
    cases bytes with
    | nil => exact absurd rfl hne
    | cons d ds =>
      intro c hc
      cases hc
      have hstop := hp.head
      rw [endsWord, Bool.or_eq_false_iff] at hstop
      exact hstop.1
  rw [readescstring, ws.dropWhile hhead, escapedWord_eq]
  exact t.isProtected.escapedSpan hys

/-- Where only a comment is left, nothing is read and nothing is skipped but white space. -/
theorem readescstring_comment (ws : Spaces) (c : Option CString) :
    readescstring (ws.bytes ++ commentBytes c) = ([], commentBytes c) := by
  have hhead : ∀ d ∈ (commentBytes c).head?, isSpace d = false := by
    intro d hd
    cases c with
    | none => cases hd
    | some text =>
      cases hd
      rfl
  rw [readescstring, ws.dropWhile hhead, escapedWord_eq]
  exact escapedSpan_stops (stops_comment c)

def noSpaces : Spaces := ⟨[], fun _ h => absurd h List.not_mem_nil⟩

theorem escstrings_comment (ws : Spaces) (c : Option CString) (k : Nat) :
    escstrings k (ws.bytes ++ commentBytes c) = List.replicate k (0, []) := by
  induction k generalizing ws with
  | zero => rfl
  | succ k ih =>
    rw [escstrings_succ k (readescstring_comment ws c), List.replicate_succ]
    exact congrArg _ (ih noSpaces)

theorem escstrings_ending (ws : Spaces) (last : Option Token) (c : Option CString) (k : Nat) :
    escstrings (last.toList.length + k)
        (ws.bytes ++ (last.toList.flatMap Token.bytes ++ commentBytes c)) =
      last.toList.map (fun t => (t.bytes.length, t.bytes)) ++ List.replicate k (0, []) := by
  cases last with
  | none =>
    rw [Option.toList_none, List.length_nil, Nat.zero_add]
    exact escstrings_comment ws c k
  | some t =>
    have hread := readescstring_token ws t (stops_comment c)
    rw [Option.toList_some, List.flatMap_singleton, List.length_singleton, Nat.add_comm,
      escstrings_succ k hread]
    exact congrArg _ (escstrings_comment noSpaces c k)

/-- The white space behind the first word is what the rest of the line begins with. -/
theorem TokenLine.bytes_cons (ws : Spaces) (t : Token) (sep : Separator)
    (words : List (Token × Separator)) (last : Option Token) (c : Option CString) :
    (TokenLine.mk ws ((t, sep) :: words) last c).bytes =
      ws.bytes ++ (t.bytes ++ (TokenLine.mk sep.toSpaces words last c).bytes) := by
  simp only [TokenLine.bytes, TokenLine.ending, List.flatMap_cons, List.append_assoc]

theorem escstrings_words (ws : Spaces) (words : List (Token × Separator)) (last : Option Token)
    (c : Option CString) (k : Nat) :
    let l : TokenLine := ⟨ws, words, last, c⟩
    escstrings (l.tokens.length + k) l.bytes =
      l.tokens.map (fun t => (t.bytes.length, t.bytes)) ++ List.replicate k (0, []) := by
  induction words generalizing ws with
  | nil => exact escstrings_ending ws last c k
  | cons w words ih =>
    obtain ⟨t, sep⟩ := w
    intro l
    have hread : readescstring l.bytes =
        (t.bytes, (TokenLine.mk sep.toSpaces words last c).bytes) := by
      rw [TokenLine.bytes_cons]
      exact readescstring_token ws t (sep.stops _)
    have htokens : l.tokens = t :: (TokenLine.mk sep.toSpaces words last c).tokens := rfl
    rw [htokens, List.length_cons, Nat.add_right_comm, escstrings_succ _ hread]
    exact congrArg _ (ih sep.toSpaces)

theorem isSpace_ne_nul (h : isSpace c = true) : c ≠ 0 := by
  rintro rfl
  cases h

theorem Spaces.nulFree (ws : Spaces) : 0 ∉ ws.bytes :=
  fun h => isSpace_ne_nul (ws.isSpaces 0 h) rfl

theorem TokenLine.nulFree (l : TokenLine) : 0 ∉ l.bytes := by
  have hcomment : 0 ∉ commentBytes l.comment := by
    cases l.comment with
    | none => exact List.not_mem_nil
    | some text => exact List.not_mem_cons_of_ne_of_not_mem (by decide) text.nulFree
  simp only [bytes, ending, List.mem_append, List.mem_flatMap, not_or, not_exists, not_and]
  refine ⟨l.lead.nulFree, ?_, ?_, hcomment⟩
  · intro w _
    exact ⟨w.1.text.nulFree, w.2.nulFree⟩
  · intro t _
    exact t.text.nulFree

def TokenLine.line (l : TokenLine) : CString := ⟨l.bytes, l.nulFree⟩

theorem escstrings_take (h : j ≤ k) (str : List UInt8) :
    (escstrings k str).take j = escstrings j str := by
  induction k generalizing j str with
  | zero =>
    rw [Nat.le_zero.1 h]
    rfl
  | succ k ih =>
    cases j with
    | zero => rfl
    | succ j => exact congrArg _ (ih (Nat.le_of_succ_le_succ h) _)

/-- `parseline` has three calls of `readescstring`, and uses nothing of a line but what they
read. -/
theorem parseline_congr {ρ : Type} (regcomp : CString → Bool → Option ρ) {line line' : CString}
    (h : escstrings 3 line.bytes = escstrings 3 line'.bytes) :
    parseline regcomp line = parseline regcomp line' := by
  simp only [escstrings, countEscstring_eq, List.cons.injEq, Prod.mk.injEq] at h
  obtain ⟨⟨_, hcommand⟩, ⟨_, hregex⟩, ⟨_, hpattern⟩, _⟩ := h
  simp only [parseline, hcommand, hregex, hpattern]

/-- Neither the white space nor the comment of a line matters for the rule that it is. -/
theorem parseline_tokens {ρ : Type} (regcomp : CString → Bool → Option ρ) {l l' : TokenLine}
    (h : l.tokens = l'.tokens) : parseline regcomp l.line = parseline regcomp l'.line := by
  apply parseline_congr
  have hread (l : TokenLine) : escstrings 3 l.bytes =
      (l.tokens.map (fun t : Token => (t.bytes.length, t.bytes)) ++
        List.replicate 3 (0, [])).take 3 := by
    rw [← escstrings_words l.lead l.words l.last l.comment 3]
    exact (escstrings_take (Nat.le_add_left 3 _) l.bytes).symm
  exact (hread l).trans (h ▸ (hread l').symm)

/-- The word, and what is left of the line after it, stand at the end of the line. -/
theorem readescstring_suffix (str : List UInt8) :
    (readescstring str).1 ++ (readescstring str).2 <:+ str := by
  rw [readescstring, escapedWord_eq, escapedSpan_append]
  exact List.dropWhile_suffix isSpace

/-- From a line that tokens were joined to, successive calls of `readescstring` read those tokens
with their lengths, and nothing from then on; and no call writes more than was left of its
line. -/
theorem readescstring_inverts_joining :
    (∀ (l : TokenLine) (k : Nat), escstrings (l.tokens.length + k) l.bytes =
      l.tokens.map (fun t => (t.bytes.length, t.bytes)) ++ List.replicate k (0, [])) ∧
    ∀ str, (countEscstring str).len = (countEscstring str).buf.length ∧
      (countEscstring str).buf.length + (countEscstring str).str.length ≤ str.length := by
  constructor
  · rintro ⟨ws, words, last, c⟩ k
    exact escstrings_words ws words last c k
  · intro str
    rw [countEscstring_eq]
    refine ⟨rfl, ?_⟩
    rw [← List.length_append]
    exact (readescstring_suffix str).length_le

end WooTftpd
