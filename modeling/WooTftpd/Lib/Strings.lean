import WooTftpd.Lib.CString

namespace Lib
set_option autoImplicit true

instance : DecidableEq CString := fun s t => decidable_of_iff (s.bytes = t.bytes) CString.ext_iff.symm

def CString.empty : CString where
  bytes := []
  nulFree := List.not_mem_nil

def CString.cons (c : UInt8) (hc : c ≠ 0) (s : CString) : CString where
  bytes := c :: s.bytes
  nulFree := by
    rw [List.mem_cons, not_or]
    exact ⟨hc.symm, s.nulFree⟩

theorem CString.ofBytes_bytes (s : CString) : CString.ofBytes s.bytes = s := by
  apply CString.ext
  apply List.takeWhile_eq_self_iff.2
  intro c hc
  apply decide_eq_true
  rintro rfl
  exact s.nulFree hc

def encodeStrings (ss : List CString) : List UInt8 := ss.flatMap fun s => s.bytes ++ [0]

theorem encodeStrings_cons (s : CString) (ss : List CString) :
    encodeStrings (s :: ss) = s.bytes ++ 0 :: encodeStrings ss := by
  rw [encodeStrings, List.flatMap_cons, List.append_assoc]
  rfl

theorem encodeStrings_append (ss ts : List CString) :
    encodeStrings (ss ++ ts) = encodeStrings ss ++ encodeStrings ts := List.flatMap_append

/-- The strings that a sequence of bytes holds, and what is left behind the last NUL. -/
def splitStrings : List UInt8 → List CString × CString
  | [] => ([], .empty)
  | c :: cs =>
    if hc : c = 0 then (.empty :: (splitStrings cs).1, (splitStrings cs).2)
    else
      match splitStrings cs with
      | ([], rest) => ([], .cons c hc rest)
      | (s :: ss, rest) => (.cons c hc s :: ss, rest)

theorem encodeStrings_splitStrings (bs : List UInt8) :
    encodeStrings (splitStrings bs).1 ++ (splitStrings bs).2.bytes = bs := by
  induction bs with
  | nil => rfl
  | cons c cs ih =>
    rw [splitStrings]
    split
    · rename_i hc
      rw [encodeStrings_cons, hc]
      exact congrArg (List.cons 0) ih
    · rename_i hc
      split
      · rename_i rest heq
        rw [heq] at ih
        exact congrArg (List.cons c) ih
      · rename_i s ss rest heq
        rw [heq, encodeStrings_cons] at ih
        rw [encodeStrings_cons]
        exact congrArg (List.cons c) ih

theorem splitStrings_rest (rest : CString) : splitStrings rest.bytes = ([], rest) := by
  obtain ⟨bs, hbs⟩ := rest
  induction bs with
  | nil => rfl
  | cons c cs ih =>
    have hc : c ≠ 0 := by
      rintro rfl
      exact hbs List.mem_cons_self
    have hcs : 0 ∉ cs := fun h => hbs (List.mem_cons_of_mem _ h)
    have hrest := ih hcs
    simp only [splitStrings, dif_neg hc]
    rw [hrest]
    rfl

theorem splitStrings_string (s : CString) (bs : List UInt8) :
    splitStrings (s.bytes ++ 0 :: bs) = (s :: (splitStrings bs).1, (splitStrings bs).2) := by
  obtain ⟨cs, hcs⟩ := s
  induction cs with
  | nil => rfl
  | cons c cs ih =>
    have hc : c ≠ 0 := by
      rintro rfl
      exact hcs List.mem_cons_self
    have hcs' : 0 ∉ cs := fun h => hcs (List.mem_cons_of_mem _ h)
    have hrest := ih hcs'
    simp only [List.cons_append, splitStrings, dif_neg hc]
    rw [hrest]
    rfl

/-- A sequence of bytes is split into strings in one way only. -/
theorem splitStrings_encodeStrings (ss : List CString) (rest : CString) :
    splitStrings (encodeStrings ss ++ rest.bytes) = (ss, rest) := by
  induction ss with
  | nil => exact splitStrings_rest rest
  | cons s ss ih =>
    rw [encodeStrings_cons, List.append_assoc, List.cons_append, splitStrings_string, ih]

def pairUp : List α → Option (List (α × α))
  | [] => some []
  | [_] => none
  | a :: b :: xs => (pairUp xs).map ((a, b) :: ·)

def unpair (ps : List (α × α)) : List α := ps.flatMap fun p => [p.1, p.2]

theorem pairUp_unpair (ps : List (α × α)) : pairUp (unpair ps) = some ps := by
  induction ps with
  | nil => rfl
  | cons p ps ih =>
    change (pairUp (unpair ps)).map ((p.1, p.2) :: ·) = some (p :: ps)
    rw [ih]
    rfl

/-- The pairs of strings that a sequence of bytes is the encoding of. -/
def decodePairs (bs : List UInt8) : Option (List (CString × CString)) :=
  if (splitStrings bs).2 = .empty then pairUp (splitStrings bs).1 else none

def encodePairs (ps : List (CString × CString)) : List UInt8 := encodeStrings (unpair ps)

theorem decodePairs_encodePairs (ps : List (CString × CString)) :
    decodePairs (encodePairs ps) = some ps := by
  have hs := splitStrings_encodeStrings (unpair ps) .empty
  rw [CString.empty, List.append_nil] at hs
  rw [decodePairs, encodePairs, hs]
  exact pairUp_unpair ps

theorem encodePairs_append (ps qs : List (CString × CString)) :
    encodePairs (ps ++ qs) = encodePairs ps ++ encodePairs qs := by
  rw [encodePairs, unpair, List.flatMap_append]
  exact encodeStrings_append _ _

end Lib
