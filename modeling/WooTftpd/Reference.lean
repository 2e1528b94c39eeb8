import WooTftpd.MatchArray

namespace WooTftpd
open Lib
set_option autoImplicit true

namespace RewriteCall

variable {ρ : Type}

def Fires (env : RewriteCall ρ) (r : Rule ρ) (c : CString) : Prop :=
  if r.inverse then env.regexec r.rx c = .noMatch else ∃ m, env.regexec r.rx c = .found m

/-- What a rule composes for a match, in a memory without end. -/
def substituted (env : RewriteCall ρ) (r : Rule ρ) (c : CString) (m : MatchOf c.bytes) : CString :=
  env.composed r.pattern c m.pmatch

/-- A string is rewritten by a rule as long as the rule fires. -/
inductive RewritesAll (env : RewriteCall ρ) (r : Rule ρ) : CString → CString → Prop where
  | stop : ¬ env.Fires r c → RewritesAll env r c c
  | again : env.regexec r.rx c = .found m → RewritesAll env r (env.substituted r c m) c' →
      RewritesAll env r c c'

/-- What a rule that fires makes of the string. -/
inductive Makes (env : RewriteCall ρ) (r : Rule ρ) : CString → CString → Prop where
  | same : r.rewrite = false → Makes env r c c
  | once : r.rewrite = true → r.global = false → env.regexec r.rx c = .found m →
      Makes env r c (env.substituted r c m)
  | all : r.global = true → RewritesAll env r c c' → Makes env r c c'

/-- The message of an abort rule that fires. -/
inductive Message (env : RewriteCall ρ) (r : Rule ρ) (c : CString) : Option CString → Prop where
  | none : r.pattern.bytes = [] → Message env r c none
  | expanded : r.pattern.bytes ≠ [] → env.regexec r.rx c = .found m →
      Message env r c (some (env.substituted r c m))

/-- The rules one after the other, with `d` steps for those that apply. -/
inductive Reference (env : RewriteCall ρ) :
    Nat → List (Rule ρ) → CString → Rewritten → Prop where
  | done : Reference env d [] c (.returned c)
  | hidden : env.applies r = false → Reference env d rest c res →
      Reference env d (r :: rest) c res
  | cutOff : env.applies r = true → Reference env 0 (r :: rest) c (.null (some tableFailure))
  | idle : env.applies r = true → ¬ env.Fires r c → Reference env d rest c res →
      Reference env (d + 1) (r :: rest) c res
  | abort : env.applies r = true → env.Fires r c → r.abort = true → Message env r c errmsg →
      Reference env (d + 1) (r :: rest) c (.null errmsg)
  | exit : env.applies r = true → env.Fires r c → r.abort = false → Makes env r c c' →
      r.exit = true → Reference env (d + 1) (r :: rest) c (.returned c')
  | next : env.applies r = true → env.Fires r c → r.abort = false → Makes env r c c' →
      r.exit = false → Reference env d rest c' res → Reference env (d + 1) (r :: rest) c res

/-- Each global rule that the outer loop comes to stops rewriting the string. -/
def GlobalsStop (env : RewriteCall ρ) (rules : List (Rule ρ)) (d : Nat) (rs : List (Rule ρ))
    (c : CString) : Prop :=
  ∀ d' rs' c' r rest, Reaches env rules d rs c (d' + 1) rs' c' → env.next rs' = r :: rest →
    r.global = true → r.abort = false → ∃ c'', RewritesAll env r c' c''

/-- Each string that the evaluation composes fits into the memory that it is given. -/
def TextsFit (env : RewriteCall ρ) (rules : List (Rule ρ)) (d : Nat) (rs : List (Rule ρ))
    (c : CString) : Prop :=
  ∀ r c' pmatch, TriesFrom env rules d rs c r c' → env.passedMatch r c' = some pmatch →
    env.Fits r.pattern c' pmatch

variable {env : RewriteCall ρ} {rules rs rest : List (Rule ρ)} {r : Rule ρ}

theorem fires_inverse (hi : r.inverse = true) :
    env.Fires r c ↔ env.regexec r.rx c = .noMatch := by
  rw [Fires, if_pos hi]

theorem fires_plain (hi : r.inverse = false) :
    env.Fires r c ↔ ∃ m, env.regexec r.rx c = .found m := by
  rw [Fires, hi]
  simp only [Bool.false_eq_true, if_false]

/-- A rule that rewrites is not inverted, so it fires on a match. -/
theorem Fires.found (h : env.Fires r c) (hw : r.rewrite = true) :
    ∃ m, env.regexec r.rx c = .found m := by
  cases hi : r.inverse with
  | false => exact (fires_plain hi).1 h
  | true => exact absurd ⟨hi, hw⟩ r.notInverted

theorem firing_found (hr : env.regexec r.rx c = .found m) (hi : r.inverse = false) :
    env.firing r c = some m.pmatch := by
  simp only [firing, hr, hi, Bool.false_eq_true, if_false]

theorem firing_noMatch (hr : env.regexec r.rx c = .noMatch) (hi : r.inverse = true) :
    env.firing r c = some clearedMatch := by
  simp only [firing, hr, hi, if_true]

theorem attempt_not_fires (h : ¬ env.Fires r c) : env.attempt r c = .noMatch := by
  apply attempt_idle
  cases hi : r.inverse with
  | false =>
    rw [fires_plain hi] at h
    cases hr : env.regexec r.rx c with
    | found m => exact absurd ⟨m, hr⟩ h
    | noMatch => simp only [firing, hr, hi, Bool.false_eq_true, if_false]
    | failed => simp only [firing, hr]
  | true =>
    rw [fires_inverse hi] at h
    cases hr : env.regexec r.rx c with
    | found m => simp only [firing, hr, hi, if_true]
    | noMatch => exact absurd hr h
    | failed => simp only [firing, hr]

theorem Fires.firing (h : env.Fires r c) : ∃ pmatch, env.firing r c = some pmatch := by
  cases hi : r.inverse with
  | false =>
    obtain ⟨m, hr⟩ := (fires_plain hi).1 h
    exact ⟨_, firing_found hr hi⟩
  | true => exact ⟨_, firing_noMatch ((fires_inverse hi).1 h) hi⟩

/-- A rule that fires and composes a string for which there is room. -/
theorem attempt_fits (hf : env.firing r c = some pmatch) (hs : r.substitutes = true)
    (hfit : ∀ pmatch, env.passedMatch r c = some pmatch → env.Fits r.pattern c pmatch) :
    env.attempt r c =
      if r.abort then .abort (some (env.composed r.pattern c pmatch))
      else .matched (env.composed r.pattern c pmatch) := by
  have hp := passedMatch_substitutes hf hs
  rw [attempt_passed hp, newstr_fits (hfit _ hp)]
  rfl

theorem attempt_rewrite (hr : env.regexec r.rx c = .found m) (ha : r.abort = false)
    (hw : r.rewrite = true)
    (hfit : ∀ pmatch, env.passedMatch r c = some pmatch → env.Fits r.pattern c pmatch) :
    env.attempt r c = .matched (env.substituted r c m) := by
  have hi : r.inverse = false := by
    rw [← Bool.not_eq_true]
    intro hi
    exact r.notInverted ⟨hi, hw⟩
  have hs : r.substitutes = true := by
    simp only [Rule.substitutes, ha, hw, Bool.false_eq_true, if_false]
  rw [attempt_fits (firing_found hr hi) hs hfit, ha]
  rfl

theorem attempt_same (h : env.Fires r c) (ha : r.abort = false) (hw : r.rewrite = false) :
    env.attempt r c = .matched c := by
  obtain ⟨pmatch, hf⟩ := h.firing
  have hs : r.substitutes = false := by
    simp only [Rule.substitutes, ha, hw, Bool.false_eq_true, if_false]
  rw [attempt_plain hf hs, ha]
  rfl

theorem attempt_abort (h : env.Fires r c) (ha : r.abort = true) (hm : Message env r c errmsg)
    (hi : r.inverse = true → r.pattern.bytes = [])
    (hfit : ∀ pmatch, env.passedMatch r c = some pmatch → env.Fits r.pattern c pmatch) :
    env.attempt r c = .abort errmsg := by
  cases hm with
  | none hp =>
    obtain ⟨pmatch, hf⟩ := h.firing
    have hs : r.substitutes = false := by
      simp only [Rule.substitutes, ha, hp, if_true, ne_eq, not_true_eq_false, decide_false]
    rw [attempt_plain hf hs, ha]
    rfl
  | expanded hp hr =>
    have hplain : r.inverse = false := by
      rw [← Bool.not_eq_true]
      intro h
      exact hp (hi h)
    have hs : r.substitutes = true := by
      simp only [Rule.substitutes, ha, if_true, decide_eq_true_eq]
      exact hp
    rw [attempt_fits (firing_found hr hplain) hs hfit, ha]
    rfl

theorem TextsFit.tried (h : TextsFit env rules d rs c) (ht : TriesFrom env rules d rs c r c') :
    ∀ pmatch, env.passedMatch r c' = some pmatch → env.Fits r.pattern c' pmatch :=
  fun pmatch => h r c' pmatch ht

theorem RewritesAll.repeatRule (h : RewritesAll env r c c') (hg : r.global = true)
    (ha : r.abort = false) (hfit : TextsFit env rules d rs c₀)
    (ht : TriesFrom env rules d rs c₀ r c) :
    ∃ fuel, env.repeatRule r fuel true c = some (.leaves true c') := by
  induction h with
  | stop hn => exact ⟨1, repeatRule_noMatch (attempt_not_fires hn) 0 true⟩
  | again hr _ ih =>
    have hat := attempt_rewrite hr ha (r.rewriteOfGlobal hg) (hfit.tried ht)
    obtain ⟨fuel, hf⟩ := ih (.again ht hat hg)
    refine ⟨fuel + 1, ?_⟩
    rw [repeatRule_again hat hg]
    exact hf

theorem Makes.repeatRule (h : Makes env r c c') (hf : env.Fires r c) (ha : r.abort = false)
    (hfit : TextsFit env rules d rs c₀) (ht : TriesFrom env rules d rs c₀ r c) :
    ∃ fuel, env.repeatRule r fuel false c = some (.leaves true c') := by
  cases h with
  | same hw =>
    have hg : r.global = false := by
      rw [← Bool.not_eq_true]
      intro hg
      rw [r.rewriteOfGlobal hg] at hw
      cases hw
    exact ⟨1, repeatRule_once (attempt_same hf ha hw) hg 0 false⟩
  | once hw hg hr =>
    exact ⟨1, repeatRule_once (attempt_rewrite hr ha hw (hfit.tried ht)) hg 0 false⟩
  | all hg hall =>
    have hw := r.rewriteOfGlobal hg
    cases hall with
    | stop hn => exact absurd hf hn
    | again hr hall =>
      have hat := attempt_rewrite hr ha hw (hfit.tried ht)
      obtain ⟨fuel, hrep⟩ := hall.repeatRule hg ha hfit (.again ht hat hg)
      refine ⟨fuel + 1, ?_⟩
      rw [repeatRule_again hat hg]
      exact hrep

theorem visits_abort (h : env.attempt r c = .abort errmsg) :
    Visits env rules r rest c (.ends (.null errmsg)) := by
  refine ⟨1, ?_⟩
  simp only [visit, repeatRule_abort h]

theorem visits_exit (h : env.repeatRule r fuel false c = some (.leaves true c'))
    (he : r.exit = true) : Visits env rules r rest c (.ends (.returned c')) := by
  refine ⟨fuel, ?_⟩
  simp only [visit, h, he, if_true]

theorem visits_next (h : env.repeatRule r fuel false c = some (.leaves true c'))
    (he : r.exit = false) (hs : r.restart = false) :
    Visits env rules r rest c (.goesOn rest c') := by
  refine ⟨fuel, ?_⟩
  simp only [visit, h, he, hs, Bool.false_eq_true, if_false, if_true]

theorem Evaluates.unique (h : Evaluates env rules d rs c res)
    (h' : Evaluates env rules d rs c res') : res = res' := by
  obtain ⟨fuel, h⟩ := h
  obtain ⟨fuel', h'⟩ := h'
  have hm := evaluate_mono h (Nat.le_max_left fuel fuel')
  have hm' := evaluate_mono h' (Nat.le_max_right fuel fuel')
  exact Option.some.inj (hm.symm.trans hm')

/-- What an applicable rule at the head of the list is tried on. -/
theorem triesFrom_head (ha : env.applies r = true) :
    TriesFrom env rules (d + 1) (r :: rest) c r c :=
  .first .refl (next_cons ha)

/-- A rule that does not apply is passed over. -/
theorem reaches_hidden (ha : env.applies r = false) (hr : Reaches env rules d rest c d' rs' c')
    (hn : env.next rs' = r' :: rest') :
    ∃ rs'', Reaches env rules d (r :: rest) c d' rs'' c' ∧ env.next rs'' = r' :: rest' := by
  have hnext : env.next (r :: rest) = env.next rest := next_cons_other ha
  cases hr with
  | refl => exact ⟨_, .refl, hnext.trans hn⟩
  | step hn' hv hr => exact ⟨_, .step (hnext.trans hn') hv hr, hn⟩

theorem TriesFrom.hidden (h : TriesFrom env rules d rest c r' c') (ha : env.applies r = false) :
    TriesFrom env rules d (r :: rest) c r' c' := by
  induction h with
  | first hr hn =>
    obtain ⟨rs', hr', hn'⟩ := reaches_hidden ha hr hn
    exact .first hr' hn'
  | again _ hat hg ih => exact .again ih hat hg

theorem TriesFrom.visited (h : TriesFrom env rules d rs c' r' c'') (ha : env.applies r = true)
    (hv : Visits env rules r rest c (.goesOn rs c')) :
    TriesFrom env rules (d + 1) (r :: rest) c r' c'' := by
  induction h with
  | first hr hn => exact .first (.step (next_cons ha) hv hr) hn
  | again _ hat hg ih => exact .again ih hat hg

theorem TextsFit.hidden (h : TextsFit env rules d (r :: rest) c) (ha : env.applies r = false) :
    TextsFit env rules d rest c :=
  fun r' c' pmatch ht => h r' c' pmatch (ht.hidden ha)

theorem TextsFit.visited (h : TextsFit env rules (d + 1) (r :: rest) c)
    (ha : env.applies r = true) (hv : Visits env rules r rest c (.goesOn rs c')) :
    TextsFit env rules d rs c' :=
  fun r' c'' pmatch ht => h r' c'' pmatch (ht.visited ha hv)

/-- The outer loop comes to what the reference says, as long as each string fits. -/
theorem Reference.evaluates (h : Reference env d rs c res) (hs : ∀ r ∈ rs, r.restart = false)
    (hm : ∀ r ∈ rs, r.inverse = true → r.abort = true → r.pattern.bytes = [])
    (hfit : TextsFit env rules d rs c) : Evaluates env rules d rs c res := by
  induction h with
  | done => exact (evaluates_nil_iff rfl _ _ _).2 rfl
  | hidden ha _ ih =>
    rw [evaluates_congr (next_cons_other ha)]
    exact ih (fun r hr => hs r (List.mem_cons_of_mem _ hr))
      (fun r hr => hm r (List.mem_cons_of_mem _ hr)) (hfit.hidden ha)
  | cutOff ha => exact (evaluates_zero_iff (next_cons ha) _ _).2 rfl
  | @idle r c d rest res ha hn _ ih =>
    have hv : Visits env rules r rest c (.goesOn rest c) := visits_noMatch (attempt_not_fires hn)
    rw [evaluates_goesOn (next_cons ha) hv]
    exact ih (fun r hr => hs r (List.mem_cons_of_mem _ hr))
      (fun r hr => hm r (List.mem_cons_of_mem _ hr)) (hfit.visited ha hv)
  | abort ha hf hab hmsg =>
    have hat := attempt_abort hf hab hmsg (fun hi => hm _ List.mem_cons_self hi hab)
      (hfit.tried (triesFrom_head ha))
    exact (evaluates_ends (next_cons ha) (visits_abort hat) _ _).2 rfl
  | exit ha hf hab hmakes he =>
    obtain ⟨fuel, hrep⟩ := hmakes.repeatRule hf hab hfit (triesFrom_head ha)
    exact (evaluates_ends (next_cons ha) (visits_exit hrep he) _ _).2 rfl
  | @next r c c' d rest res ha hf hab hmakes he _ ih =>
    obtain ⟨fuel, hrep⟩ := hmakes.repeatRule hf hab hfit (triesFrom_head ha)
    have hv : Visits env rules r rest c (.goesOn rest c') :=
      visits_next hrep he (hs r List.mem_cons_self)
    rw [evaluates_goesOn (next_cons ha) hv]
    exact ih (fun r hr => hs r (List.mem_cons_of_mem _ hr))
      (fun r hr => hm r (List.mem_cons_of_mem _ hr)) (hfit.visited ha hv)

theorem Fires.message (h : env.Fires r c)
    (hm : r.inverse = true → r.pattern.bytes = []) : ∃ errmsg, Message env r c errmsg := by
  by_cases hp : r.pattern.bytes = []
  · exact ⟨_, .none hp⟩
  · cases hi : r.inverse with
    | false =>
      obtain ⟨m, hr⟩ := (fires_plain hi).1 h
      exact ⟨_, .expanded hp hr⟩
    | true => exact absurd (hm hi) hp

theorem Fires.makes (h : env.Fires r c) (hg : r.global = true → ∃ c', RewritesAll env r c c') :
    ∃ c', Makes env r c c' := by
  cases hw : r.rewrite with
  | false => exact ⟨c, .same hw⟩
  | true =>
    cases hgl : r.global with
    | false =>
      obtain ⟨m, hr⟩ := h.found hw
      exact ⟨_, .once hw hgl hr⟩
    | true =>
      obtain ⟨c', hc⟩ := hg hgl
      exact ⟨c', .all hgl hc⟩

theorem GlobalsStop.first (h : GlobalsStop env rules (d + 1) (r :: rest) c)
    (ha : env.applies r = true) (hg : r.global = true) (hab : r.abort = false) :
    ∃ c', RewritesAll env r c c' :=
  h d (r :: rest) c r rest .refl (next_cons ha) hg hab

theorem GlobalsStop.hidden (h : GlobalsStop env rules d (r :: rest) c)
    (ha : env.applies r = false) : GlobalsStop env rules d rest c := by
  intro d' rs' c' r' rest' hr hn
  obtain ⟨rs'', hr', hn'⟩ := reaches_hidden ha hr hn
  exact h d' rs'' c' r' rest' hr' hn'

theorem GlobalsStop.visited (h : GlobalsStop env rules (d + 1) (r :: rest) c)
    (ha : env.applies r = true) (hv : Visits env rules r rest c (.goesOn rs c')) :
    GlobalsStop env rules d rs c' := by
  intro d' rs' c'' r' rest' hr
  exact h d' rs' c'' r' rest' (.step (next_cons ha) hv hr)

theorem visits_rest (h : Visits env rules r rest c (.goesOn rs c')) :
    rs = rest ∨ rs = rules.tail := by
  obtain ⟨fuel, h⟩ := h
  rcases visit_cases h with ⟨res, _, hv⟩ | ⟨was, c'', _, hv | hv | hv⟩
  · cases hv
  · cases hv
  · cases hv
    exact .inr rfl
  · cases hv
    exact .inl rfl

theorem cons_subset (h : env.next rs = r :: rest) : r :: rest ⊆ rs := by
  rw [← h]
  exact (List.dropWhile_sublist _).subset

/-- The outer loop comes to no rules but those of the list. -/
theorem Reaches.subset (h : Reaches env rules d rs c d' rs' c') (hs : rs ⊆ rules) :
    rs' ⊆ rules := by
  induction h with
  | refl => exact hs
  | step hn hv _ ih =>
    apply ih
    rcases visits_rest hv with rfl | rfl
    · intro r' hr'
      exact hs (cons_subset hn (List.mem_cons_of_mem _ hr'))
    · exact (List.tail_sublist rules).subset

theorem GlobalsStop.of_rules (h : ∀ r ∈ rules, r.global = true → ∀ c, ∃ c', RewritesAll env r c c')
    (d : Nat) (c : CString) : GlobalsStop env rules d rules c := by
  intro d' rs' c' r rest hr hn hg _
  have hmem : r ∈ rs' := cons_subset hn List.mem_cons_self
  exact h r (hr.subset (List.Subset.refl rules) hmem) hg c'

/-- There is a result by the reference for every list and string. -/
theorem exists_reference (hs : ∀ r ∈ rs, r.restart = false)
    (hm : ∀ r ∈ rs, r.inverse = true → r.abort = true → r.pattern.bytes = [])
    (hg : GlobalsStop env rules d rs c) (hfit : TextsFit env rules d rs c) :
    ∃ res, Reference env d rs c res := by
  induction rs generalizing d c with
  | nil => exact ⟨_, .done⟩
  | cons r rest ih =>
    have ih' {d c} := ih (d := d) (c := c) (fun r hr => hs r (List.mem_cons_of_mem _ hr))
      (fun r hr => hm r (List.mem_cons_of_mem _ hr))
    cases ha : env.applies r with
    | false =>
      obtain ⟨res, hres⟩ := ih' (hg.hidden ha) (hfit.hidden ha)
      exact ⟨res, .hidden ha hres⟩
    | true =>
      cases d with
      | zero => exact ⟨_, .cutOff ha⟩
      | succ d =>
        by_cases hf : env.Fires r c
        · cases hab : r.abort with
          | true =>
            obtain ⟨errmsg, hmsg⟩ := hf.message fun hi => hm r List.mem_cons_self hi hab
            exact ⟨_, .abort ha hf hab hmsg⟩
          | false =>
            obtain ⟨c', hc⟩ := hf.makes fun hgl => hg.first ha hgl hab
            cases he : r.exit with
            | true => exact ⟨_, .exit ha hf hab hc he⟩
            | false =>
              obtain ⟨fuel, hrep⟩ := hc.repeatRule hf hab hfit (triesFrom_head ha)
              have hv : Visits env rules r rest c (.goesOn rest c') :=
                visits_next hrep he (hs r List.mem_cons_self)
              obtain ⟨res, hres⟩ := ih' (hg.visited ha hv) (hfit.visited ha hv)
              exact ⟨res, .next ha hf hab hc he hres⟩
        · have hv : Visits env rules r rest c (.goesOn rest c) :=
            visits_noMatch (attempt_not_fires hf)
          obtain ⟨res, hres⟩ := ih' (hg.visited ha hv) (hfit.visited ha hv)
          exact ⟨res, .idle ha hf hres⟩

theorem TriesFrom.settles (h : TriesFrom env rules d rs c r c')
    (he : EachSettles env rules d rs c) : Settles env r c' := by
  induction h with
  | first hr hn => exact he _ _ _ _ _ hr hn
  | again _ hat hg ih =>
    cases ih with
    | noMatch h => rw [h] at hat; cases hat
    | abort h => rw [h] at hat; cases hat
    | once _ h => rw [hg] at h; cases h
    | again h _ hs =>
      rw [h] at hat
      cases hat
      exact hs

theorem Settles.defined (h : Settles env r c) :
    env.attempt r c ≠ .exits ∧ env.attempt r c ≠ .undefined := by
  cases h with
  | noMatch h | abort h | once h | again h =>
    rw [h]
    exact ⟨nofun, nofun⟩

/-- A string that was composed had room. -/
theorem Settles.fits (h : Settles env r c) (hp : env.passedMatch r c = some pmatch) :
    env.Fits r.pattern c pmatch := by
  have hat := attempt_passed hp
  cases hn : env.newstr r.pattern c pmatch with
  | text s => exact fits_of_newstr hn
  | exits =>
    rw [hn] at hat
    exact absurd hat h.defined.1
  | undefined =>
    rw [hn] at hat
    exact absurd hat h.defined.2

/-- Without restarts, `rewrite_string` returns what the reference says, and nothing else, exactly if
it can copy the string and each string that it composes fits into its memory. -/
theorem rewriteString_iff_reference (env : RewriteCall ρ) (rules : List (Rule ρ)) (input : CString)
    (hs : ∀ r ∈ rules, r.restart = false)
    (hm : ∀ r ∈ rules, r.inverse = true → r.abort = true → r.pattern.bytes = [])
    (hg : GlobalsStop env rules deadmanMaxSteps rules input) :
    ((∃ fuel res, env.rewriteString rules fuel input = some res) ∧
      ∀ res, (∃ fuel, env.rewriteString rules fuel input = some res) ↔
        Reference env deadmanMaxSteps rules input res) ↔
    env.Copies input ∧ ∀ r c pmatch, Tries env rules input r c →
      env.passedMatch r c = some pmatch → env.Fits r.pattern c pmatch := by
  constructor
  · rintro ⟨⟨fuel, res, he⟩, -⟩
    obtain ⟨hcopy, heval⟩ := (rewriteString_iff env rules input res).1 ⟨fuel, he⟩
    refine ⟨hcopy, ?_⟩
    rintro r c pmatch ⟨-, ht⟩ hp
    exact (ht.settles heval.eachSettles).fits hp
  · rintro ⟨hcopy, hfit⟩
    have hfit : TextsFit env rules deadmanMaxSteps rules input :=
      fun r c pmatch ht => hfit r c pmatch ⟨hcopy, ht⟩
    obtain ⟨res, href⟩ := exists_reference hs hm hg hfit
    have heval : Evaluates env rules deadmanMaxSteps rules input res := href.evaluates hs hm hfit
    constructor
    · obtain ⟨fuel, he⟩ := (rewriteString_iff env rules input res).2 ⟨hcopy, heval⟩
      exact ⟨fuel, res, he⟩
    · intro res'
      rw [rewriteString_iff]
      constructor
      · rintro ⟨-, he⟩
        rw [← heval.unique he]
        exact href
      · intro h
        exact ⟨hcopy, h.evaluates hs hm hfit⟩

/-- The inner loop comes to no rules but those of the list. -/
theorem TriesFrom.mem (h : TriesFrom env rules d rs c r c') (hs : rs ⊆ rules) : r ∈ rules := by
  induction h with
  | first hr hn => exact hr.subset hs (cons_subset hn List.mem_cons_self)
  | again _ _ _ ih => exact ih

end RewriteCall

/-- The rule `rg ^x$ y`. -/
def repeatedExact : Rule (List UInt8) :=
  { exactRule false 120 121 with global := true, rewriteOfGlobal := fun _ => rfl }

/-- The rule `~a ^y$`. -/
def onlyExact : Rule (List UInt8) := { onlyRule with rx := [121], pattern := .ofBytes [] }

theorem repeatedExact_passedMatch (h : exactCall.passedMatch repeatedExact c = some pmatch) :
    c = .ofBytes [120] ∧ pmatch = (wholeMatch [120]).pmatch := by
  by_cases hc : c.bytes = [120]
  · obtain rfl : c = .ofBytes [120] := CString.ext hc
    cases h
    exact ⟨rfl, rfl⟩
  · have hr : exactCall.regexec [120] c = .noMatch := if_neg hc
    have hf : exactCall.firing repeatedExact c = none := by
      have hi : repeatedExact.inverse = false := rfl
      have hx : repeatedExact.rx = [120] := rfl
      simp only [RewriteCall.firing, hx, hr, hi, Bool.false_eq_true, if_false]
    have hp : exactCall.passedMatch repeatedExact c = none := by
      rw [RewriteCall.passedMatch, hf, ite_self]
    rw [hp] at h
    cases h

theorem repeatedExact_stops (h : c.bytes ≠ [120]) : ¬ exactCall.Fires repeatedExact c := by
  rintro ⟨m, hr⟩
  have hn : exactCall.regexec [120] c = .noMatch := if_neg h
  have he : Regexec.noMatch = Regexec.found m := hn.symm.trans hr
  cases he

theorem repeatedExact_rewritesAll (c : CString) :
    ∃ c', exactCall.RewritesAll repeatedExact c c' := by
  by_cases h : c.bytes = [120]
  · obtain rfl : c = .ofBytes [120] := CString.ext h
    exact ⟨_, .again rfl (.stop (repeatedExact_stops (by decide)))⟩
  · exact ⟨c, .stop (repeatedExact_stops h)⟩

/-- The rules `rg ^x$ y` and `~a ^y$` on the string `x`. -/
theorem repeatedExact_returned :
    let rules := [repeatedExact, onlyExact]
    parserulefile exactRegcomp [114, 103, 32, 94, 120, 36, 32, 121, 10,
        126, 97, 32, 94, 121, 36, 10] = some rules ∧
      ∃ fuel, exactCall.rewriteString rules fuel (.ofBytes [120]) =
        some (.returned (.ofBytes [121])) := by
  intro rules
  have hx : exactCall.Fires repeatedExact (.ofBytes [120]) := ⟨wholeMatch [120], rfl⟩
  have hy : ¬ exactCall.Fires repeatedExact (.ofBytes [121]) := repeatedExact_stops (by decide)
  have hd : ¬ exactCall.Fires onlyExact (.ofBytes [121]) := by
    intro hr
    cases hr
  have href : exactCall.Reference RewriteCall.deadmanMaxSteps rules (.ofBytes [120])
      (.returned (.ofBytes [121])) :=
    .next rfl hx rfl (.all rfl (.again rfl (.stop hy))) rfl (.idle rfl hd .done)
  have hfit : exactCall.Fits (.ofBytes [121]) (.ofBytes [120]) (wholeMatch [120]).pmatch :=
    ⟨2, _, rfl, rfl, by decide⟩
  refine ⟨rfl, ?_⟩
  apply (((RewriteCall.rewriteString_iff_reference exactCall rules _ ?_ ?_ ?_).2 ?_).2 _).2 href
  · intro r hr
    simp only [rules, List.mem_cons, List.not_mem_nil, or_false] at hr
    rcases hr with rfl | rfl <;> rfl
  · intro r hr hi _
    simp only [rules, List.mem_cons, List.not_mem_nil, or_false] at hr
    rcases hr with rfl | rfl
    · cases hi
    · rfl
  · apply RewriteCall.GlobalsStop.of_rules
    intro r hr hg
    simp only [rules, List.mem_cons, List.not_mem_nil, or_false] at hr
    rcases hr with rfl | rfl
    · exact repeatedExact_rewritesAll
    · cases hg
  · refine ⟨rfl, ?_⟩
    rintro r c pmatch ⟨-, ht⟩ hp
    have hr := ht.mem (List.Subset.refl rules)
    simp only [rules, List.mem_cons, List.not_mem_nil, or_false] at hr
    rcases hr with rfl | rfl
    · obtain ⟨rfl, rfl⟩ := repeatedExact_passedMatch hp
      exact hfit
    · cases hp

/-- The rule `r .* \x\x\x\x`. -/
def hexRule : Rule Unit where
  rewrite := true
  global := false
  exit := false
  restart := false
  abort := false
  inverse := false
  mode := none
  rx := ()
  pattern := .ofBytes [92, 120, 92, 120, 92, 120, 92, 120]
  rewriteOfGlobal := fun _ => rfl
  notInverted := notInverted_false true

/-- Calls for a client at 127.0.0.1 whose only regular expression is `.*`. -/
def hexCall : RewriteCall Unit where
  regexec := fun _ s => .found (wholeMatch s.bytes)
  mode := 71
  macrosub := rewriteMacros (.inet fun n => if n.val = 0 then 127 else if n.val = 3 then 1 else 0)
  malloc := exactMalloc

/-- The rule `r .* \x\x\x\x` on the string `a`: the 33 bytes of the new string are written into
the one byte that is allocated. -/
theorem hexRule_overruns :
    let rules := [hexRule]
    let hex : List UInt8 := [55, 70, 48, 48, 48, 48, 48, 49]
    parserulefile (fun _ _ => some ()) [114, 32, 46, 42, 32, 92, 120, 92, 120, 92, 120, 92, 120, 10] =
        some rules ∧
      (∀ r ∈ rules, r.restart = false) ∧
      (∀ r ∈ rules, r.inverse = true → r.abort = true → r.pattern.bytes = []) ∧
      hexCall.GlobalsStop rules RewriteCall.deadmanMaxSteps rules (.ofBytes [97]) ∧
      hexCall.Reference RewriteCall.deadmanMaxSteps rules (.ofBytes [97])
        (.returned (.ofBytes (hex ++ hex ++ hex ++ hex))) ∧
      ¬ ∃ fuel res, hexCall.rewriteString rules fuel (.ofBytes [97]) = some res := by
  intro rules hex
  have ha : hexCall.attempt hexRule (.ofBytes [97]) = .undefined := rfl
  have hn : hexCall.next rules = [hexRule] := rfl
  have hsub : hexCall.substituted hexRule (.ofBytes [97]) (wholeMatch [97]) =
      .ofBytes (hex ++ hex ++ hex ++ hex) := CString.ext (by decide)
  have hmakes : hexCall.Makes hexRule (.ofBytes [97]) (.ofBytes (hex ++ hex ++ hex ++ hex)) := by
    rw [← hsub]
    exact .once rfl rfl rfl
  refine ⟨rfl, ?_, ?_, ?_, ?_, ?_⟩
  · rintro r hr
    obtain rfl := List.mem_singleton.1 hr
    rfl
  · rintro r hr hi
    obtain rfl := List.mem_singleton.1 hr
    cases hi
  · apply RewriteCall.GlobalsStop.of_rules
    rintro r hr hg
    obtain rfl := List.mem_singleton.1 hr
    cases hg
  · exact .next rfl ⟨_, rfl⟩ rfl hmakes rfl .done
  · rintro ⟨fuel, res, h⟩
    obtain ⟨-, fuel, h⟩ := (RewriteCall.rewriteString_iff _ _ _ res).1 ⟨fuel, h⟩
    rw [RewriteCall.deadmanMaxSteps, RewriteCall.evaluate_succ hn, RewriteCall.visit] at h
    cases fuel with
    | zero => cases h
    | succ fuel =>
      rw [RewriteCall.repeatRule, ha] at h
      cases h

end WooTftpd
