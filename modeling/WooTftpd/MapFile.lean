import WooTftpd.Rewrite

namespace WooTftpd
open Lib
set_option autoImplicit true

/-- The lines of a text, each with its newline. -/
def physicalLines : List UInt8 → List (List UInt8)
  | [] => []
  | c :: f =>
    if c = LF then [LF] :: physicalLines f
    else
      match physicalLines f with
      | [] => [[c]]
      | l :: ls => (c :: l) :: ls

/-- What the first `fgets` reads of a line, and what the next ones read of it. -/
def cutLine (l : List UInt8) : List UInt8 := l.take (maxline - 1)

def furtherLines (l : List UInt8) : List (List UInt8) :=
  fgetsLines (maxline - 1) [] (l.drop (maxline - 1))

def ParsedLine.rule? : ParsedLine ρ → Option (Rule ρ)
  | .rule r => some r
  | _ => none

def ParsedLine.isError : ParsedLine ρ → Bool
  | .error => true
  | _ => false

section Lines

variable {body f l acc : List UInt8}

theorem physicalLines_last (h : LF ∉ f) (hne : f ≠ []) : physicalLines f = [f] := by
  induction f with
  | nil => exact absurd rfl hne
  | cons c f ih =>
    rw [List.mem_cons, not_or] at h
    rw [physicalLines, if_neg (Ne.symm h.1)]
    cases f with
    | nil => rfl
    | cons d f => rw [ih h.2 (List.cons_ne_nil d f)]

theorem physicalLines_append (h : LF ∉ body) (f : List UInt8) :
    physicalLines (body ++ LF :: f) = (body ++ [LF]) :: physicalLines f := by
  induction body with
  | nil => rw [List.nil_append, physicalLines, if_pos rfl, List.nil_append]
  | cons c body ih =>
    rw [List.mem_cons, not_or] at h
    rw [List.cons_append, physicalLines, if_neg (Ne.symm h.1), ih h.2]
    rfl

/-- A text is one line, or a line and the text behind its newline. -/
theorem lines_cases (f : List UInt8) :
    LF ∉ f ∨ ∃ body rest, f = body ++ LF :: rest ∧ LF ∉ body := by
  by_cases h : LF ∈ f
  · exact .inr (List.eq_append_cons_of_mem h)
  · exact .inl h

/-- After a newline `fgets` begins anew. -/
theorem fgetsLines_append (h : LF ∉ body) (f : List UInt8) (room : Nat) (acc : List UInt8) :
    fgetsLines room acc (body ++ LF :: f) =
      fgetsLines room acc (body ++ [LF]) ++ fgetsLines (maxline - 1) [] f := by
  induction body generalizing room acc with
  | nil =>
    have hnil : fgetsLines (maxline - 1) [] [] = [] := if_pos rfl
    rw [List.nil_append, List.nil_append, fgetsLines, fgetsLines, if_pos (.inl rfl),
      if_pos (.inl rfl), hnil]
    rfl
  | cons c body ih =>
    rw [List.mem_cons, not_or] at h
    rw [List.cons_append, List.cons_append, fgetsLines, fgetsLines]
    split
    · rw [ih h.2]
      rfl
    · exact ih h.2 (room - 1) (acc ++ [c])

/-- A line with no newline but at its end is read up to where the buffer is full. -/
theorem fgetsLines_take (h : LF ∉ l.dropLast) (hr : 1 ≤ room) (hne : l ≠ [] ∨ acc ≠ []) :
    fgetsLines room acc l =
      (acc ++ l.take room) :: fgetsLines (maxline - 1) [] (l.drop room) := by
  induction l generalizing room acc with
  | nil =>
    have hnil : fgetsLines (maxline - 1) [] [] = [] := if_pos rfl
    have hacc : acc ≠ [] := hne.resolve_left (fun hne => hne rfl)
    rw [fgetsLines, if_neg hacc, List.take_nil, List.drop_nil, hnil, List.append_nil]
  | cons c l ih =>
    obtain ⟨k, rfl⟩ : ∃ k, room = k + 1 := ⟨room - 1, by omega⟩
    rw [fgetsLines, List.take_succ_cons, List.drop_succ_cons]
    by_cases hc : c = LF
    · have hl : l = [] := by
        by_contra hl
        rw [List.dropLast_cons_of_ne_nil hl, hc] at h
        exact h List.mem_cons_self
      rw [hl, if_pos (.inl hc), List.take_nil, List.drop_nil]
    by_cases hk : k = 0
    · rw [hk, if_pos (.inr (Nat.le_refl 1))]
      rfl
    · have hroom : ¬ (c = 10 ∨ k + 1 ≤ 1) := by
        rintro (h10 | hle)
        · exact hc h10
        · omega
      have hlast : LF ∉ l.dropLast := by
        intro hm
        have hl : l ≠ [] := by
          rintro rfl
          cases hm
        rw [List.dropLast_cons_of_ne_nil hl] at h
        exact h (List.mem_cons_of_mem c hm)
      rw [if_neg hroom, Nat.add_sub_cancel, ih hlast (Nat.pos_of_ne_zero hk)
        (.inr (List.append_ne_nil_of_right_ne_nil _ (List.cons_ne_nil c []))), List.append_assoc]
      rfl

theorem fgetsLines_line (h : LF ∉ l.dropLast) (hne : l ≠ []) :
    fgetsLines (maxline - 1) [] l = cutLine l :: furtherLines l := by
  rw [fgetsLines_take h (by decide) (.inl hne), List.nil_append]
  rfl

/-- `fgets` reads line after line, each in one piece or more. -/
theorem fgetsLines_eq (f : List UInt8) :
    fgetsLines (maxline - 1) [] f =
      (physicalLines f).flatMap fun l => cutLine l :: furtherLines l := by
  induction hn : f.length using Nat.strongRecOn generalizing f with
  | _ n ih =>
    rcases lines_cases f with h | ⟨body, rest, rfl, hb⟩
    · by_cases hne : f = []
      · rw [hne]
        exact if_pos rfl
      · have hlast : LF ∉ f.dropLast := fun hm => h (List.dropLast_subset f hm)
        rw [physicalLines_last h hne, fgetsLines_line hlast hne, List.flatMap_singleton]
    · have hlt : rest.length < n := by
        rw [← hn, List.length_append, List.length_cons]
        omega
      have hlast : LF ∉ (body ++ [LF]).dropLast := by
        rw [List.dropLast_concat]
        exact hb
      rw [fgetsLines_append hb, physicalLines_append hb, List.flatMap_cons, ← ih _ hlt rest rfl,
        fgetsLines_line hlast (List.append_ne_nil_of_right_ne_nil _ (List.cons_ne_nil _ _))]

end Lines

section Rules

variable {ρ : Type} {regcomp : CString → Bool → Option ρ}

/-- One error is enough to refuse the file; otherwise the rules are taken in their order. -/
def collect (ps : List (ParsedLine ρ)) : Option (List (Rule ρ)) :=
  if ps.any ParsedLine.isError then none else some (ps.filterMap ParsedLine.rule?)

theorem collect_rule (r : Rule ρ) (ps : List (ParsedLine ρ)) :
    collect (.rule r :: ps) = (collect ps).map (r :: ·) := by
  simp only [collect, List.any_cons, List.filterMap_cons, ParsedLine.isError, ParsedLine.rule?,
    Bool.false_or]
  split
  · rfl
  · rfl

def parsed (regcomp : CString → Bool → Option ρ) (l : List UInt8) : ParsedLine ρ :=
  parseline regcomp (.ofBytes l)

theorem parserules_eq (regcomp : CString → Bool → Option ρ) (ls : List (List UInt8)) :
    parserules regcomp (ls.map .ofBytes) = collect (ls.map (parsed regcomp)) := by
  induction ls with
  | nil => rfl
  | cons l ls ih =>
    rw [List.map_cons, parserules, List.map_cons]
    cases hl : parseline regcomp (.ofBytes l) with
    | noRule =>
      rw [parsed, hl]
      exact ih
    | error =>
      rw [parsed, hl]
      rfl
    | rule r =>
      rw [parsed, hl, collect_rule, ← ih]

/-- The file is read as the documentation says: one rule for each line that is one, none for a
blank line or a comment, and an error if any line is erroneous, each line being cut. -/
structure LineByLine (regcomp : CString → Bool → Option ρ) (f : List UInt8)
    (result : Option (List (Rule ρ))) : Prop where
  refused : result = none ↔
    ∃ l ∈ physicalLines f, (parsed regcomp (cutLine l)).isError = true
  rules : ∀ rs, result = some rs →
    rs = (physicalLines f).filterMap fun l => (parsed regcomp (cutLine l)).rule?

/-- What the pieces of a line are parsed to. -/
def parsedPieces (regcomp : CString → Bool → Option ρ) (l : List UInt8) : List (ParsedLine ρ) :=
  parsed regcomp (cutLine l) :: (furtherLines l).map (parsed regcomp)

theorem parserulefile_eq (regcomp : CString → Bool → Option ρ) (f : List UInt8) :
    parserulefile regcomp f = collect ((physicalLines f).flatMap (parsedPieces regcomp)) := by
  rw [parserulefile, fgetsLines_eq, parserules_eq, List.map_flatMap]
  rfl

theorem collect_eq_none_iff {ps : List (ParsedLine ρ)} :
    collect ps = none ↔ ∃ p ∈ ps, p.isError = true := by
  rw [collect, ← List.any_eq_true]
  split
  · rename_i h
    exact iff_of_true rfl h
  · rename_i h
    exact iff_of_false (Option.some_ne_none _) h

theorem collect_eq_some {ps : List (ParsedLine ρ)} (h : collect ps = some rs) :
    rs = ps.filterMap ParsedLine.rule? := by
  rw [collect] at h
  split at h
  · cases h
  · exact (Option.some.inj h).symm

/-- A line that is neither erroneous nor a rule says nothing. -/
theorem ParsedLine.noRule_of (p : ParsedLine ρ) (he : p.isError = false) (hr : p.rule? = none) :
    p = .noRule := by
  cases p with
  | noRule => rfl
  | error => cases he
  | rule r => cases hr

theorem length_flatMap_append (g h : α → List β) (xs : List α) :
    (xs.flatMap fun a => g a ++ h a).length = (xs.flatMap g).length + (xs.flatMap h).length := by
  induction xs with
  | nil => rfl
  | cons a xs ih =>
    simp only [List.flatMap_cons, List.length_append, ih]
    omega

theorem rules_pieces (regcomp : CString → Bool → Option ρ) (ls : List (List UInt8)) :
    (ls.flatMap (parsedPieces regcomp)).filterMap ParsedLine.rule? =
      ls.flatMap fun l => (parsed regcomp (cutLine l)).rule?.toList ++
        ((furtherLines l).map (parsed regcomp)).filterMap ParsedLine.rule? := by
  rw [List.filterMap_flatMap]
  congr 1
  funext l
  rw [parsedPieces, List.filterMap_cons]
  cases (parsed regcomp (cutLine l)).rule? with
  | none => rfl
  | some r => rfl

theorem rules_cut (regcomp : CString → Bool → Option ρ) (ls : List (List UInt8)) :
    (ls.filterMap fun l => (parsed regcomp (cutLine l)).rule?) =
      ls.flatMap fun l => (parsed regcomp (cutLine l)).rule?.toList :=
  List.filterMap_eq_flatMap_toList _ _

/-- The second and later pieces of each line are blank or comments. -/
def FurtherBlank (regcomp : CString → Bool → Option ρ) (f : List UInt8) : Prop :=
  ∀ l ∈ physicalLines f, ∀ piece ∈ furtherLines l, parsed regcomp piece = .noRule

/-- A line is erroneous when cut. -/
def Erroneous (regcomp : CString → Bool → Option ρ) (f : List UInt8) : Prop :=
  ∃ l ∈ physicalLines f, (parsed regcomp (cutLine l)).isError = true

theorem refused_iff (regcomp : CString → Bool → Option ρ) (f : List UInt8) :
    parserulefile regcomp f = none ↔
      ∃ l ∈ physicalLines f, ∃ p ∈ parsedPieces regcomp l, p.isError = true := by
  rw [parserulefile_eq, collect_eq_none_iff]
  simp only [List.mem_flatMap]
  constructor
  · rintro ⟨p, ⟨l, hl, hp⟩, he⟩
    exact ⟨l, hl, p, hp, he⟩
  · rintro ⟨l, hl, p, hp, he⟩
    exact ⟨p, ⟨l, hl, hp⟩, he⟩

theorem Erroneous.refused (h : Erroneous regcomp f) : parserulefile regcomp f = none := by
  obtain ⟨l, hl, he⟩ := h
  exact (refused_iff regcomp f).2 ⟨l, hl, _, List.mem_cons_self, he⟩

theorem rules_eq (h : parserulefile regcomp f = some rs) :
    rs = (physicalLines f).flatMap fun l => (parsed regcomp (cutLine l)).rule?.toList ++
      ((furtherLines l).map (parsed regcomp)).filterMap ParsedLine.rule? := by
  rw [parserulefile_eq] at h
  rw [collect_eq_some h, rules_pieces]

theorem FurtherBlank.lineByLine (h : FurtherBlank regcomp f) :
    LineByLine regcomp f (parserulefile regcomp f) := by
  have hblank (l : List UInt8) (hl : l ∈ physicalLines f) (p : ParsedLine ρ)
      (hp : p ∈ (furtherLines l).map (parsed regcomp)) : p = .noRule := by
    obtain ⟨piece, hpiece, rfl⟩ := List.mem_map.1 hp
    exact h l hl piece hpiece
  constructor
  · constructor
    · intro hr
      obtain ⟨l, hl, p, hp, he⟩ := (refused_iff regcomp f).1 hr
      rcases List.mem_cons.1 hp with rfl | hp
      · exact ⟨l, hl, he⟩
      · rw [hblank l hl p hp] at he
        cases he
    · intro he
      exact Erroneous.refused he
  · intro rs hrs
    rw [rules_eq hrs, rules_cut]
    apply List.flatMap_congr
    intro l hl
    have hnil : ((furtherLines l).map (parsed regcomp)).filterMap ParsedLine.rule? = [] := by
      rw [List.filterMap_eq_nil_iff]
      intro p hp
      rw [hblank l hl p hp]
      rfl
    rw [hnil, List.append_nil]

/-- Rules of further pieces would make the list longer. -/
theorem LineByLine.furtherBlank (h : LineByLine regcomp f (parserulefile regcomp f))
    (he : ¬ Erroneous regcomp f) : FurtherBlank regcomp f := by
  cases hr : parserulefile regcomp f with
  | none => exact absurd (h.refused.1 hr) he
  | some rs =>
    have hlen := congrArg List.length ((rules_eq hr).symm.trans (h.rules rs hr))
    rw [rules_cut, length_flatMap_append] at hlen
    have hnil := List.flatMap_eq_nil_iff.1 (List.length_eq_zero_iff.1 (Nat.left_eq_add.1 hlen.symm))
    intro l hl piece hp
    have hmem : parsed regcomp piece ∈ (furtherLines l).map (parsed regcomp) :=
      List.mem_map_of_mem hp
    apply ParsedLine.noRule_of
    · rw [← Bool.not_eq_true]
      intro herr
      have hnone := (refused_iff regcomp f).2 ⟨l, hl, _, List.mem_cons_of_mem _ hmem, herr⟩
      rw [hr] at hnone
      cases hnone
    · exact List.filterMap_eq_nil_iff.1 (hnil l hl) _ hmem

/-- The flags of every rule fit together, and the file is read line by line exactly if a line is
erroneous, or no more than blanks and comments stand where a line is over-long. -/
theorem parserulefile_lineByLine_iff (regcomp : CString → Bool → Option ρ) (f : List UInt8) :
    (∀ rs, parserulefile regcomp f = some rs → ∀ r ∈ rs,
      (r.global = true → r.rewrite = true) ∧ ¬ (r.inverse = true ∧ r.rewrite = true)) ∧
    (LineByLine regcomp f (parserulefile regcomp f) ↔
      Erroneous regcomp f ∨ FurtherBlank regcomp f) := by
  constructor
  · intro rs _ r _
    exact ⟨r.rewriteOfGlobal, r.notInverted⟩
  · constructor
    · intro h
      by_cases he : Erroneous regcomp f
      · exact .inl he
      · exact .inr (h.furtherBlank he)
    · rintro (he | hb)
      · constructor
        · exact iff_of_true he.refused he
        · intro rs hrs
          rw [he.refused] at hrs
          cases hrs
      · exact hb.lineByLine

theorem parseline_comment (regcomp : CString → Bool → Option ρ) (text : List UInt8) :
    parsed regcomp (35 :: text) = .noRule := by
  have hbytes : (CString.ofBytes (35 :: text)).bytes = 35 :: text.takeWhile (· ≠ 0) := by
    simp only [CString.ofBytes]
    exact List.takeWhile_cons_of_pos (by decide)
  have hword (p : List UInt8) : readescstring (35 :: p) = ([], 35 :: p) := by
    rw [readescstring, List.dropWhile_cons_of_neg (by decide)]
    exact if_pos ⟨rfl, .inr rfl⟩
  rw [parsed, parseline, hbytes, hword]
  exact if_pos rfl

end Rules

/-- A comment of blanks that is as long as the buffer, and a letter behind it. -/
def longComment : List UInt8 := 35 :: List.replicate 16382 32

theorem length_longComment : longComment.length = maxline - 1 := by
  rw [longComment, List.length_cons, List.length_replicate]
  rfl

theorem physicalLines_longComment :
    physicalLines (longComment ++ [122, LF]) = [longComment ++ [122, LF]] := by
  have hbody : LF ∉ longComment ++ [122] := by
    simp only [longComment, List.mem_append, List.mem_cons, List.mem_replicate]
    decide
  have hline := physicalLines_append hbody []
  rwa [List.append_assoc] at hline

/-- The letter is taken for a command, and the file is refused. -/
theorem longComment_refused :
    let regcomp : CString → Bool → Option Unit := fun _ _ => some ()
    parserulefile regcomp (longComment ++ [122, LF]) = none ∧
      ¬ LineByLine regcomp (longComment ++ [122, LF])
        (parserulefile regcomp (longComment ++ [122, LF])) := by
  intro regcomp
  have hcut : cutLine (longComment ++ [122, LF]) = longComment :=
    List.take_left' length_longComment
  have hfurther : furtherLines (longComment ++ [122, LF]) = [[122, LF]] := by
    rw [furtherLines, List.drop_left' length_longComment]
    rfl
  have hnone : parserulefile regcomp (longComment ++ [122, LF]) = none := by
    rw [refused_iff, physicalLines_longComment]
    refine ⟨_, List.mem_singleton_self _, .error, ?_, rfl⟩
    rw [parsedPieces, hfurther]
    exact List.mem_cons_of_mem _ (List.mem_singleton_self _)
  refine ⟨hnone, ?_⟩
  intro h
  obtain ⟨l, hl, he⟩ := h.refused.1 hnone
  rw [physicalLines_longComment, List.mem_singleton] at hl
  rw [hl, hcut, longComment, parseline_comment] at he
  cases he

end WooTftpd
