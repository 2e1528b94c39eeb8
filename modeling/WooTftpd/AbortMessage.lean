import WooTftpd.MatchArray

namespace WooTftpd
open Lib
set_option autoImplicit true

/-- The callback of the server, but for the length of `\x` without a buffer. -/
def sizedMacros (peer : SockAddr) : MatchPatternCallback := fun c output =>
  match output with
  | some o => rewriteMacros peer c (some o)
  | none => (((serverTexts peer c).map fun p => (p.length : Int)).getD (-1), none)

theorem rewriteMacros_kept (peer : SockAddr) (c : UInt8) (o : Cursor) :
    o.Kept (rewriteMacros peer c (some o)).2 := by
  have hpoke (p : List UInt8) : o.Kept (some (o.poke p)) :=
    ⟨_, rfl, rfl, Mem.load_store_disjoint _ _ (.inl (by rw [Nat.zero_add]))⟩
  have hsame : o.Kept (some o) := ⟨o, rfl, rfl, rfl⟩
  simp only [rewriteMacros]
  split
  · split
    · exact hpoke _
    · exact hsame
  split
  · exact hpoke _
  · exact hsame

theorem rewriteMacros_length (peer : SockAddr) (c : UInt8) (o : Cursor) :
    (rewriteMacros peer c (some o)).1 =
      ((serverTexts peer c).map fun p => (p.length : Int)).getD (-1) := by
  simp only [rewriteMacros, serverTexts]
  split
  · cases inetNtop peer inet6Addrstrlen with
    | none => rfl
    | some p => rfl
  split
  · rfl
  · rfl

theorem poke_load (o : Cursor) (p : List UInt8) :
    (o.poke (p ++ [NUL])).mem.load o.pos p.length = p := by
  have hle : p.length ≤ (p ++ [NUL]).length := by
    rw [List.length_append]
    exact Nat.le_add_right _ _
  simp only [Cursor.poke]
  rw [Mem.load_store_take _ _ _ hle, List.take_left]

theorem rewriteMacros_text (peer : SockAddr) (h : serverTexts peer c = some p)
    (he : (rewriteMacros peer c (some o)).2 = some o') : o'.mem.load o.pos p.length = p := by
  simp only [rewriteMacros, serverTexts] at h he
  split at h
  · rename_i hc
    cases h
    rw [if_pos hc] at he
    cases hp : inetNtop peer inet6Addrstrlen with
    | none => rfl
    | some q =>
      rw [hp] at he
      cases he
      exact poke_load o q
  split at h
  · rename_i hc hx
    cases h
    rw [if_neg hc, if_pos hx] at he
    cases he
    exact poke_load o _
  · cases h

theorem sizedMacros_obeys (peer : SockAddr) : Obeys (sizedMacros peer) (serverTexts peer) where
  unasked _ := rfl
  kept := rewriteMacros_kept peer
  length := by
    intro c p hp s
    cases s with
    | none => simp only [sizedMacros, hp, Option.map_some, Option.getD_some]
    | some o =>
      have hlen := rewriteMacros_length peer c o
      rw [hp] at hlen
      exact hlen
  text := by
    intro c p hp o o' he
    exact rewriteMacros_text peer hp he
  unknown := by
    intro c hc s
    have hneg : (-1 : Int) < 0 := by decide
    cases s with
    | none =>
      simp only [sizedMacros, hc, Option.map_none, Option.getD_none]
      exact hneg
    | some o =>
      have hlen := rewriteMacros_length peer c o
      rw [hc] at hlen
      exact hlen.trans_lt hneg

section Agreement

variable {callback callback' : MatchPatternCallback} {s : Expansion}

/-- Two callbacks that do the same with a buffer, and keep it. -/
structure AgreeWriting (callback callback' : MatchPatternCallback) : Prop where
  same : ∀ c o, callback c (some o) = callback' c (some o)
  kept : ∀ c o, (callback c (some o)).2.isSome

theorem AgreeWriting.escape (h : AgreeWriting callback callback') (hs : s.string.isSome)
    (input : List UInt8) (pmatch : Fin 10 → Regmatch) (c : UInt8) :
    s.escape callback input pmatch c = s.escape callback' input pmatch c ∧
      (s.escape callback input pmatch c).string.isSome := by
  obtain ⟨o, ho⟩ := Option.isSome_iff_exists.1 hs
  have hemit (s : Expansion) (hs : s.string.isSome) (cs : List UInt8) :
      (s.emit cs).string.isSome := by
    simp only [Expansion.emit, Option.isSome_map]
    exact hs
  simp only [Expansion.escape]
  split
  · refine ⟨rfl, ?_⟩
    simp only [Expansion.reference]
    split
    · exact hemit s hs _
    · exact hs
  split
  · exact ⟨rfl, hs⟩
  split
  · exact ⟨rfl, hs⟩
  split
  · exact ⟨rfl, hs⟩
  · simp only [Expansion.macrosub, ho, h.same c o]
    refine ⟨trivial, ?_⟩
    have hkept := h.kept c o
    rw [h.same c o] at hkept
    split
    · rw [Option.isSome_map]
      exact hkept
    · exact hemit _ hkept _

theorem AgreeWriting.expand (h : AgreeWriting callback callback') (hs : s.string.isSome)
    (input : List UInt8) (pmatch : Fin 10 → Regmatch) (pattern : List UInt8) :
    s.expand callback input pmatch pattern = s.expand callback' input pmatch pattern := by
  induction pattern using hexMacros.induct generalizing s with
  | case1 => rfl
  | case2 c => rfl
  | case3 d pattern ih =>
    obtain ⟨heq, hsome⟩ := h.escape hs input pmatch d
    simp only [Expansion.expand, if_true]
    rw [ih hsome, heq]
  | case4 c d pattern hc ih =>
    have hsome : (s.emit [c]).string.isSome := by
      simp only [Expansion.emit, Option.isSome_map]
      exact hs
    simp only [Expansion.expand, if_neg hc]
    exact ih hsome

end Agreement

theorem rewriteMacros_agree (peer : SockAddr) :
    AgreeWriting (rewriteMacros peer) (sizedMacros peer) where
  same _ _ := rfl
  kept c o := by
    obtain ⟨o', ho', _⟩ := rewriteMacros_kept peer c o
    rw [ho']
    rfl

/-- The writing pass of the server, whose length of `\x` is right. -/
theorem rewriteMacros_writes (peer : SockAddr) (pattern input : List UInt8) (m : MatchOf input)
    (hend : 0 ≤ endbytes input m.pmatch) :
    let out := writtenText (serverTexts peer) input m.pmatch pattern
    ∃ o, (genmatchstring (some (.fresh .zero)) pattern input m.pmatch (rewriteMacros peer)).2 =
      some o ∧ o.mem.load 0 (out.length + 1) = out ++ [NUL] ∧ o.extent = out.length + 1 := by
  have hsame : genmatchstring (some (.fresh .zero)) pattern input m.pmatch (rewriteMacros peer) =
      genmatchstring (some (.fresh .zero)) pattern input m.pmatch (sizedMacros peer) := by
    have hs : ((some (Cursor.fresh .zero)).bind (·.memcpy input (m.pmatch 0).rmSo)).isSome := by
      rw [Option.bind_some, Cursor.memcpy_eq _ _ m.bounds.1]
      rfl
    simp only [genmatchstring]
    rw [(rewriteMacros_agree peer).expand hs]
  obtain ⟨_, o, ho, _, hext⟩ := genmatchstring_passes pattern input m peer .zero hend
  obtain ⟨o', ho', _, hload⟩ :=
    genmatchstring_writes (.fresh .zero) rfl pattern input m (sizedMacros_obeys peer) hend
  rw [← hsame, ho] at ho'
  cases ho'
  exact ⟨o, ho, hload, hext⟩

/-- Without a buffer, no byte is written. -/
theorem expand_silent {callback : MatchPatternCallback} {s : Expansion} (hs : s.string = none)
    (hc : ∀ c, (callback c none).2 = none) (input : List UInt8) (pmatch : Fin 10 → Regmatch)
    (pattern : List UInt8) : (s.expand callback input pmatch pattern).string = none := by
  have hemit {s : Expansion} (hs : s.string = none) (cs : List UInt8) :
      (s.emit cs).string = none := by rw [Expansion.emit, hs, Option.map_none]
  induction pattern using hexMacros.induct generalizing s with
  | case1 => exact hs
  | case2 c => exact hemit hs [c]
  | case3 d pattern ih =>
    have hescape : (s.escape callback input pmatch d).string = none := by
      simp only [Expansion.escape, Expansion.reference, Expansion.macrosub]
      repeat' split
      · exact hemit hs _
      · exact hs
      · exact hs
      · exact hs
      · exact hs
      · rw [hs, hc, Option.map_none]
      · apply hemit
        rw [hs, hc]
    simp only [Expansion.expand, if_true]
    exact ih hescape
  | case4 c d pattern hc ih =>
    simp only [Expansion.expand, if_neg hc]
    exact ih (hemit hs [c])

theorem rewriteMacros_silent (peer : SockAddr) (c : UInt8) : (rewriteMacros peer c none).2 = none := by
  simp only [rewriteMacros]
  split
  · split <;> rfl
  split <;> rfl

/-- The array of a failed match makes a copy of -1 bytes. -/
theorem clearedMatch_undefined (string : Option Cursor) (pattern input : List UInt8)
    (peer : SockAddr) :
    (genmatchstring string pattern input clearedMatch (rewriteMacros peer)).2 = none := by
  have hstart : string.bind (·.memcpy input (clearedMatch 0).rmSo) = none :=
    Option.bind_fun_none string
  simp only [genmatchstring, hstart]
  rw [expand_silent rfl (rewriteMacros_silent peer), Option.bind_none]

theorem ofBytes_terminated (bs rest : List UInt8) :
    CString.ofBytes (bs ++ NUL :: rest) = CString.ofBytes bs := by
  apply CString.ext
  simp only [CString.ofBytes]
  induction bs with
  | nil => rfl
  | cons b bs ih =>
    rw [List.cons_append, List.takeWhile_cons, List.takeWhile_cons, ih]

/-- The text of the pattern of a rule for a match, with what stands around the match. -/
def expanded (peer : SockAddr) (r : Rule ρ) (c : CString) (m : MatchOf c.bytes) : CString :=
  .ofBytes (writtenText (serverTexts peer) c.bytes m.pmatch r.pattern.bytes)

namespace RewriteCall

variable {ρ : Type} {env : RewriteCall ρ} {rules rs rest : List (Rule ρ)} {r : Rule ρ}

/-- There is room for a string exactly if `tfmalloc` has memory for the characters that are counted,
and it is enough for those that are written. -/
theorem fits_iff (he : env.macrosub = rewriteMacros peer) (p c : CString) (m : MatchOf c.bytes) :
    let n := (writtenText (serverTexts peer) c.bytes m.pmatch p.bytes).length
    env.Fits p c m.pmatch ↔ 0 ≤ endbytes c.bytes m.pmatch ∧ ∃ room,
      env.malloc.room (sizeT (int32 (n - ((hexAddress peer).length * hexMacros p.bytes : Nat) + 1))) =
        some room ∧ n + 1 ≤ room := by
  intro n
  by_cases hend : 0 ≤ endbytes c.bytes m.pmatch
  · obtain ⟨hlen, o, ho, _, hext⟩ := genmatchstring_passes p.bytes c.bytes m peer .zero hend
    simp only [Fits, he, hlen, int32_add, ho, Option.some.injEq, hend, true_and]
    constructor
    · rintro ⟨room, o', hroom, rfl, hle⟩
      exact ⟨room, hroom, hext ▸ hle⟩
    · rintro ⟨room, hroom, hle⟩
      exact ⟨room, o, hroom, rfl, hext ▸ hle⟩
  · constructor
    · rintro ⟨room, o, _, ho, _⟩
      rw [he, genmatchstring_undefined _ _ _ _ hend] at ho
      cases ho
    · rintro ⟨h, _⟩
      exact absurd h hend

/-- A pattern without `\x` has room if its text can be counted by an `int`, and there is memory. -/
theorem fits_of_counted (he : env.macrosub = rewriteMacros peer) (m : MatchOf c.bytes)
    (hx : hexMacros p.bytes = 0)
    (hlen : (substitution (serverTexts peer) c.bytes m.pmatch p.bytes).length + 1 < 2 ^ 31)
    (hroom : (env.malloc.room
      ((substitution (serverTexts peer) c.bytes m.pmatch p.bytes).length + 1)).isSome) :
    env.Fits p c m.pmatch := by
  have hrest : (c.bytes.drop (m.pmatch 0).rmEo.toNat).length < 2 ^ 31 := by
    simp only [substitution, submatch_zero, List.length_append] at hlen
    omega
  obtain ⟨room, hr⟩ := Option.isSome_iff_exists.1 hroom
  apply (fits_iff he p c m).2
  rw [writtenText_eq _ m _ hrest]
  constructor
  · rw [endbytes_eq m hrest]
    exact Int.natCast_nonneg _
  · refine ⟨room, ?_, env.malloc.enough _ _ hr⟩
    have hint := (int32_nat_iff _).2 hlen
    have hsize (n : Nat) (hn : n < 2 ^ 31) : sizeT n = n := by
      rw [sizeT]
      omega
    rw [hx, Nat.mul_zero, Int.natCast_zero, Int.sub_zero]
    rw [Int.natCast_add, Int.natCast_one] at hint
    rw [hint, ← Int.natCast_one, ← Int.natCast_add, hsize _ hlen]
    exact hr

theorem composed_eq (he : env.macrosub = rewriteMacros peer) (r : Rule ρ) (c : CString)
    (m : MatchOf c.bytes) (hend : 0 ≤ endbytes c.bytes m.pmatch) :
    env.composed r.pattern c m.pmatch = expanded peer r c m := by
  obtain ⟨o, ho, hload, hext⟩ := rewriteMacros_writes peer r.pattern.bytes c.bytes m hend
  simp only [composed, he, ho, hext, hload]
  exact ofBytes_terminated _ _

/-- A rule that has fired without a match does not come to a new string. -/
theorem newstr_match (he : env.macrosub = rewriteMacros peer) (hf : env.firing r c = some pmatch)
    (hn : env.newstr r.pattern c pmatch = .text s) :
    ∃ m, env.regexec r.rx c = .found m ∧ r.inverse = false ∧ pmatch = m.pmatch := by
  rw [firing] at hf
  cases hr : env.regexec r.rx c with
  | found m =>
    cases hi : r.inverse with
    | false =>
      simp only [hr, hi, Bool.false_eq_true, if_false, Option.some.injEq] at hf
      exact ⟨m, rfl, rfl, hf.symm⟩
    | true =>
      simp only [hr, hi, if_true] at hf
      cases hf
  | noMatch =>
    simp only [hr] at hf
    split at hf
    · cases hf
      obtain ⟨_, o, _, ho, _⟩ := fits_of_newstr hn
      rw [he, clearedMatch_undefined] at ho
      cases ho
    · cases hf
  | failed =>
    simp only [hr] at hf
    cases hf

theorem outcome_abort {n : Newstr} (h : n.outcome abort = .abort (some msg)) :
    n = .text msg ∧ abort = true := by
  cases n with
  | text s =>
    cases abort with
    | false => cases h
    | true =>
      cases h
      exact ⟨rfl, rfl⟩
  | exits => cases h
  | undefined => cases h

/-- The evaluation comes to an abort rule with this string, and the rule fires with this message. -/
def AbortsWith (env : RewriteCall ρ) (rules : List (Rule ρ)) (input : CString)
    (errmsg : Option CString) : Prop :=
  ∃ r c, Tries env rules input r c ∧ env.attempt r c = .abort errmsg

theorem attempt_abort_iff (he : env.macrosub = rewriteMacros peer) :
    env.attempt r c = .abort (some msg) ↔ ∃ m, env.regexec r.rx c = .found m ∧
      r.inverse = false ∧ r.abort = true ∧ r.pattern.bytes ≠ [] ∧ env.Fits r.pattern c m.pmatch ∧
      msg = expanded peer r c m := by
  constructor
  · intro h
    cases hf : env.firing r c with
    | none =>
      rw [attempt_idle hf] at h
      cases h
    | some pmatch =>
      cases hs : r.substitutes with
      | false =>
        rw [attempt_plain hf hs] at h
        split at h
        · cases h
        · cases h
      | true =>
        rw [attempt_passed (passedMatch_substitutes hf hs)] at h
        obtain ⟨hn, ha⟩ := outcome_abort h
        obtain ⟨m, hr, hi, rfl⟩ := newstr_match he hf hn
        have hfits := fits_of_newstr hn
        rw [newstr_fits hfits, composed_eq he r c m ((fits_iff he _ _ m).1 hfits).1] at hn
        simp only [Rule.substitutes, ha, if_true, decide_eq_true_eq] at hs
        exact ⟨m, hr, hi, ha, hs, hfits, (Newstr.text.inj hn).symm⟩
  · rintro ⟨m, hr, hi, ha, hp, hfits, rfl⟩
    have hf : env.firing r c = some m.pmatch := by
      simp only [firing, hr, hi, Bool.false_eq_true, if_false]
    have hs : r.substitutes = true := by
      simp only [Rule.substitutes, ha, if_true, decide_eq_true_eq]
      exact hp
    rw [attempt_passed (passedMatch_substitutes hf hs), newstr_fits hfits,
      composed_eq he r c m ((fits_iff he _ _ m).1 hfits).1, ha]
    rfl

theorem Reaches.trans (h : Reaches env rules d rs c d' rs' c')
    (h' : Reaches env rules d' rs' c' d'' rs'' c'') : Reaches env rules d rs c d'' rs'' c'' := by
  induction h with
  | refl => exact h'
  | step hn hv _ ih => exact .step hn hv (ih h')

theorem Tries.of_repeatRule (ht : Tries env rules input r c)
    (h : env.repeatRule r fuel was c = some (.ends res)) :
    ∃ errmsg, res = .null errmsg ∧ AbortsWith env rules input errmsg := by
  induction fuel generalizing was c with
  | zero => cases h
  | succ fuel ih =>
    rcases repeatRule_cases h with ⟨_, he⟩ | ⟨errmsg, ha, he⟩ | ⟨c', _, _, he⟩ | ⟨c', ha, hg, h⟩
    · cases he
    · cases he
      exact ⟨errmsg, rfl, r, c, ht, ha⟩
    · cases he
    · exact ih ⟨ht.1, .again ht.2 ha hg⟩ h

theorem ends_of_visit (h : env.visit rules fuel r rest c = some (.ends (.null errmsg))) :
    env.repeatRule r fuel false c = some (.ends (.null errmsg)) := by
  rcases visit_cases h with ⟨res, hr, hv⟩ | ⟨was, c', _, hv | hv | hv⟩
  · cases hv
    exact hr
  · cases hv
  · cases hv
  · cases hv

theorem Evaluates.null (hcopy : env.Copies input)
    (hr : Reaches env rules deadmanMaxSteps rules input d rs c)
    (h : Evaluates env rules d rs c (.null errmsg)) :
    errmsg = some tableFailure ∨ AbortsWith env rules input errmsg := by
  induction d generalizing rs c with
  | zero =>
    cases hn : env.next rs with
    | nil => cases (evaluates_nil_iff hn _ _ _).1 h
    | cons r rest =>
      cases (evaluates_zero_iff hn _ _).1 h
      exact .inl rfl
  | succ d ih =>
    cases hn : env.next rs with
    | nil => cases (evaluates_nil_iff hn _ _ _).1 h
    | cons r rest =>
      obtain ⟨v, hv⟩ := h.visits hn
      cases v with
      | goesOn rs' c' =>
        exact ih (hr.trans (.step hn hv .refl)) ((evaluates_goesOn hn hv _ _).1 h)
      | ends res =>
        cases (evaluates_ends hn hv _ _).1 h
        obtain ⟨fuel, hvisit⟩ := hv
        obtain ⟨e, he, habort⟩ := Tries.of_repeatRule ⟨hcopy, .first hr hn⟩ (ends_of_visit hvisit)
        cases he
        exact .inr habort

/-- `rewrite_string` gives no other messages than its own and those of abort rules. -/
theorem aborts_of_null (h : env.rewriteString rules fuel input = some (.null errmsg)) :
    errmsg = some tableFailure ∨ AbortsWith env rules input errmsg := by
  obtain ⟨hcopy, he⟩ := (rewriteString_iff env rules input _).1 ⟨fuel, h⟩
  exact he.null hcopy .refl

/-- A string that is tried again comes from the first pass over the rule. -/
theorem TriesFrom.firstPass (h : TriesFrom env rules d rs c₀ r c) :
    ∃ d' rs' rest c' was, Reaches env rules d rs c₀ (d' + 1) rs' c' ∧
      env.next rs' = r :: rest ∧ ∀ fuel res, env.repeatRule r fuel was c = some (.ends res) →
        ∃ fuel', env.repeatRule r fuel' false c' = some (.ends res) := by
  induction h with
  | first hr hn => exact ⟨_, _, _, _, false, hr, hn, fun fuel _ h => ⟨fuel, h⟩⟩
  | again _ ha hg ih =>
    obtain ⟨d', rs', rest, c', was, hr, hn, hback⟩ := ih
    refine ⟨d', rs', rest, c', true, hr, hn, ?_⟩
    intro fuel res h
    apply hback (fuel + 1)
    rw [repeatRule_again ha hg]
    exact h

theorem AbortsWith.returns (h : AbortsWith env rules input errmsg) :
    ∃ fuel, env.rewriteString rules fuel input = some (.null errmsg) := by
  obtain ⟨r, c, ⟨hcopy, ht⟩, ha⟩ := h
  obtain ⟨d, rs, rest, c₀, was, hr, hn, hback⟩ := ht.firstPass
  have hends := repeatRule_abort ha 0 was
  obtain ⟨fuel, hfuel⟩ := hback 1 _ hends
  have hv : Visits env rules r rest c₀ (.ends (.null errmsg)) := by
    refine ⟨fuel, ?_⟩
    rw [visit, hfuel]
  apply (rewriteString_iff env rules input _).2
  exact ⟨hcopy, (hr.evaluates_iff _).2 ((evaluates_ends hn hv _ _).2 rfl)⟩

end RewriteCall

end WooTftpd
