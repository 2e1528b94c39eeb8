import Mathlib.Algebra.GroupWithZero.Nat
import WooTftpd.Address
import WooTftpd.Getopt

namespace WooTftpd
open Lib
set_option autoImplicit true

variable {optstring : List UInt8} {longopts : List LongOption} {a : Argv} {s s' : Getopt}

namespace Argv

theorem text_eq (h : a.words[i]? = some w) : a.text i = w.bytes := by
  rw [text, h]
  rfl

theorem text_ne_nil (h : a.text i ≠ []) : i < a.argc := by
  by_contra hn
  have hnone : a.words[i]? = none := List.getElem?_eq_none (Nat.le_of_not_lt hn)
  rw [text, hnone] at h
  exact h rfl

theorem exists_word (h : i < a.argc) : ∃ w, a.words[i]? = some w ∧ a.text i = w.bytes :=
  ⟨a.words[i], List.getElem?_eq_getElem h, text_eq (List.getElem?_eq_getElem h)⟩

theorem nul_notMem (a : Argv) (i : Nat) : 0 ∉ a.text i := by
  by_cases h : i < a.argc
  · obtain ⟨w, -, hw⟩ := exists_word h
    rw [hw]
    exact w.nulFree
  · intro hm
    exact h (text_ne_nil (List.ne_nil_of_mem hm))

theorem char_append (h : a.text i = pre ++ c :: post) : a.char ⟨i, pre.length⟩ = c := by
  rw [char, h, List.getElem?_append_right (Nat.le_refl _), Nat.sub_self]
  rfl

/-- Only behind a word there is a NUL. -/
theorem char_eq_zero_iff (h : a.text i = pre ++ post) : a.char ⟨i, pre.length⟩ = 0 ↔ post = [] := by
  cases post with
  | nil =>
    refine iff_of_true ?_ rfl
    rw [List.append_nil] at h
    rw [char, h, List.getElem?_eq_none (Nat.le_refl _)]
    rfl
  | cons c post =>
    refine iff_of_false ?_ (List.cons_ne_nil c post)
    rw [char_append h]
    rintro rfl
    apply a.nul_notMem i
    rw [h]
    exact List.mem_append_right _ List.mem_cons_self

/-- A place in or right behind one of the words. -/
def Inside (a : Argv) (p : Place) : Prop := p.word < a.argc ∧ p.off ≤ (a.text p.word).length

theorem stale_none (h : i < a.argc) : a.stale none i = true := by
  obtain ⟨w, hw, ht⟩ := exists_word h
  obtain ⟨hpos, hlt⟩ := a.inRange i w hw
  have hlen : (a.text i).length = w.length := congrArg List.length ht
  simp only [stale, pointer, hlen, Nat.zero_add, decide_eq_true_eq]
  rw [Nat.mod_eq_of_lt (by omega)]
  omega

theorem stale_same (h : i < a.argc) (hoff : off ≤ (a.text i).length) :
    a.stale (some ⟨i, off⟩) i = false := by
  obtain ⟨w, hw, ht⟩ := exists_word h
  obtain ⟨hpos, hlt⟩ := a.inRange i w hw
  have hlen : (a.text i).length = w.length := congrArg List.length ht
  have hdiff : a.address i + off + (2 ^ 64 - a.address i) = off + 2 ^ 64 := by omega
  simp only [stale, pointer, decide_eq_false_iff_not, hdiff, Nat.add_mod_right]
  rw [Nat.mod_eq_of_lt (by omega)]
  omega

/-- A pointer into another word is told from one into this word. -/
theorem stale_other {p : Place} (h : i < a.argc) (hp : a.Inside p) (hne : p.word ≠ i) :
    a.stale (some p) i = true := by
  obtain ⟨w, hw, ht⟩ := exists_word h
  obtain ⟨v, hv, htv⟩ := exists_word hp.1
  obtain ⟨hpos, hlt⟩ := a.inRange i w hw
  obtain ⟨hposv, hltv⟩ := a.inRange p.word v hv
  have hlen : (a.text i).length = w.length := congrArg List.length ht
  have hlenv : (a.text p.word).length = v.length := congrArg List.length htv
  have hoff := hp.2
  have hapart : a.address p.word + v.length < a.address i ∨
      a.address i + w.length < a.address p.word := by
    rcases Nat.lt_or_gt_of_ne hne with hlt | hgt
    · exact a.apart _ _ v w hv hw hlt
    · exact (a.apart _ _ w v hw hv hgt).symm
  simp only [stale, pointer, hlen, decide_eq_true_eq]
  rcases hapart with hbelow | habove
  · rw [Nat.mod_eq_of_lt (by omega)]
    omega
  · have hdiff : a.address p.word + p.off + (2 ^ 64 - a.address i) =
        (a.address p.word + p.off - a.address i) + 2 ^ 64 := by omega
    rw [hdiff, Nat.add_mod_right, Nat.mod_eq_of_lt (by omega)]
    omega

end Argv

/-- The variables between two words: the next one is word `i`. -/
structure Between (a : Argv) (s : Getopt) (i : Nat) : Prop where
  optind : s.optind = i
  pos : 1 ≤ i
  optptr : ∀ p, s.optptr = some p → a.Inside p ∧ p.word < i

/-- The next character is the one at place `off` of word `i`. -/
structure Within (a : Argv) (s : Getopt) (i off : Nat) : Prop where
  optind : s.optind = i
  pos : 1 ≤ i
  optptr : (off = 1 ∧ ∀ p, s.optptr = some p → a.Inside p ∧ p.word < i) ∨
    (s.optptr = some ⟨i, off⟩ ∧ off ≤ (a.text i).length)

theorem Between.within (h : Between a s i) : Within a s i 1 :=
  ⟨h.optind, h.pos, .inl ⟨rfl, h.optptr⟩⟩

theorem Within.resumes (h : Within a s i off) (hi : i < a.argc) :
    (if a.stale s.optptr s.optind then ⟨s.optind, 1⟩ else s.optptr.getD ⟨s.optind, 1⟩) =
      (⟨i, off⟩ : Place) := by
  rw [h.optind]
  rcases h.optptr with ⟨rfl, hp⟩ | ⟨hp, hoff⟩
  · cases ho : s.optptr with
    | none => rw [Argv.stale_none hi, if_pos rfl]
    | some p =>
      obtain ⟨hin, hlt⟩ := hp p ho
      rw [Argv.stale_other hi hin (Nat.ne_of_lt hlt), if_pos rfl]
  · rw [hp, Argv.stale_same hi hoff, if_neg Bool.false_ne_true, Option.getD_some]

/-- What `getopt_long` knows of the option character `c`: whether it takes an argument. -/
def shortKind (optstring : List UInt8) (c : UInt8) : Option Bool :=
  if c = colonSign then none else (strchr c optstring).map fun t => t[1]? = some colonSign

/-- A word of short options: a hyphen alone in front of them. -/
structure ShortWord (a : Argv) (i : Nat) : Prop where
  head : (a.text i).head? = some hyphen
  single : (a.text i)[1]? ≠ some hyphen
  long : 2 ≤ (a.text i).length

theorem ShortWord.lt (h : ShortWord a i) : i < a.argc := by
  apply Argv.text_ne_nil
  intro hn
  have hlen := h.long
  rw [hn] at hlen
  exact absurd hlen (by decide)

theorem isOption_of (hh : w.head? = some hyphen) (hl : 2 ≤ w.length) : isOption w = true := by
  rw [isOption, decide_eq_true_iff]
  refine ⟨hh, ?_⟩
  intro ht
  have hlen := congrArg List.length ht
  rw [List.length_tail, List.length_nil] at hlen
  omega

/-- After the first call there is nothing to set up. -/
theorem getoptLong_started (optstring : List UInt8) (longopts : List LongOption)
    (hpos : 1 ≤ s.optind) (hle : s.optind ≤ a.argc) :
    getoptLong optstring longopts a s =
      if ¬ isOption (a.text s.optind) then (none, s)
      else if (a.text s.optind)[1]? = some hyphen then getoptLongWord longopts a s
      else getoptShort optstring a s := by
  have hno : ¬ (s.optind < 1 ∨ a.argc < s.optind) := by omega
  simp only [getoptLong, if_neg hno]

theorem Within.getoptLong (h : Within a s i off) (hw : ShortWord a i) (optstring : List UInt8)
    (longopts : List LongOption) :
    getoptLong optstring longopts a s = getoptShort optstring a s := by
  have hlt := hw.lt
  rw [getoptLong_started _ _ (h.optind ▸ h.pos) (h.optind ▸ Nat.le_of_lt hlt), h.optind,
    if_neg (not_not.2 (isOption_of hw.head hw.long)), if_neg hw.single]

theorem shortKind_eq_some (h : shortKind optstring c = some takes) :
    ¬ c = colonSign ∧ ∃ t, strchr c optstring = some t ∧ (t[1]? = some colonSign ↔ takes = true) := by
  simp only [shortKind] at h
  split at h
  · cases h
  · rename_i hc
    obtain ⟨t, ht, hd⟩ := Option.map_eq_some_iff.1 h
    exact ⟨hc, t, ht, by rw [← hd, decide_eq_true_iff]⟩

theorem inside_next (hw : ShortWord a i) (ht : a.text i = pre ++ c :: post) :
    a.Inside ⟨i, pre.length + 1⟩ := by
  refine ⟨hw.lt, ?_⟩
  dsimp only
  rw [ht, List.length_append, List.length_cons]
  omega

theorem char_next (ht : a.text i = pre ++ c :: post) :
    a.char ⟨i, pre.length + 1⟩ = 0 ↔ post = [] := by
  rw [List.append_cons] at ht
  have h := Argv.char_eq_zero_iff ht
  rwa [List.length_append] at h

/-- An option without an argument: the next one is in the same word, or in the next. -/
theorem getoptLong_flag (h : Within a s i pre.length) (hw : ShortWord a i)
    (ht : a.text i = pre ++ c :: post) (hc : shortKind optstring c = some false)
    (longopts : List LongOption) :
    ∃ s', getoptLong optstring longopts a s = (some c.toNat, s') ∧
      (post = [] → Between a s' (i + 1)) ∧ (post ≠ [] → Within a s' i (pre.length + 1)) := by
  obtain ⟨hcolon, t, hfind, htakes⟩ := shortKind_eq_some hc
  have hno : ¬ t[1]? = some colonSign := by
    rw [htakes]
    exact Bool.false_ne_true
  have hin := inside_next hw ht
  rw [h.getoptLong hw, getoptShort, h.resumes hw.lt]
  simp only [Argv.char_append ht, if_neg hcolon, hfind, if_neg hno]
  refine ⟨_, rfl, ?_, ?_⟩
  · intro hp
    refine ⟨?_, Nat.succ_le_succ (Nat.zero_le i), ?_⟩
    · simp only [if_pos ((char_next ht).2 hp), h.optind]
    · rintro p ⟨⟩
      exact ⟨hin, Nat.lt_succ_self i⟩
  · intro hp
    refine ⟨?_, h.pos, .inr ⟨rfl, hin.2⟩⟩
    simp only [if_neg (mt (char_next ht).1 hp), h.optind]

theorem getoptLong_attached (h : Within a s i pre.length) (hw : ShortWord a i)
    (ht : a.text i = pre ++ c :: post) (hc : shortKind optstring c = some true)
    (hp : post ≠ []) (longopts : List LongOption) :
    ∃ s', getoptLong optstring longopts a s = (some c.toNat, s') ∧
      s'.optarg.map a.string = some post ∧ Between a s' (i + 1) := by
  obtain ⟨hcolon, t, hfind, htakes⟩ := shortKind_eq_some hc
  rw [h.getoptLong hw, getoptShort, h.resumes hw.lt]
  simp only [Argv.char_append ht, if_neg hcolon, hfind, htakes, if_true,
    ne_eq, mt (char_next ht).1 hp, not_false_eq_true]
  refine ⟨_, rfl, ?_, ?_⟩
  · have hlen : pre.length + 1 = (pre ++ [c]).length := by
      rw [List.length_append, List.length_singleton]
    rw [Option.map_some, Argv.string, ht, List.append_cons]
    dsimp only
    rw [hlen, List.drop_left]
  · refine ⟨?_, Nat.succ_le_succ (Nat.zero_le i), ?_⟩
    · simp only [h.optind]
    · rintro p ⟨⟩
      exact ⟨inside_next hw ht, Nat.lt_succ_self i⟩

theorem getoptLong_separate (h : Within a s i pre.length) (hw : ShortWord a i)
    (ht : a.text i = pre ++ [c]) (hc : shortKind optstring c = some true)
    (hi : i + 1 < a.argc) (longopts : List LongOption) :
    ∃ s', getoptLong optstring longopts a s = (some c.toNat, s') ∧
      s'.optarg.map a.string = some (a.text (i + 1)) ∧ Between a s' (i + 2) := by
  obtain ⟨hcolon, t, hfind, htakes⟩ := shortKind_eq_some hc
  rw [h.getoptLong hw, getoptShort, h.resumes hw.lt]
  simp only [Argv.char_append ht, if_neg hcolon, hfind, htakes, if_true, h.optind, hi,
    ne_eq, (char_next ht).2, not_true_eq_false, if_false]
  refine ⟨_, rfl, ?_, ?_⟩
  · rfl
  · refine ⟨rfl, Nat.succ_le_succ (Nat.zero_le _), ?_⟩
    rintro p ⟨⟩
    exact ⟨inside_next hw ht, Nat.lt_succ_of_lt (Nat.lt_succ_self i)⟩

theorem optionMatches_name (hn : equalsSign ∉ optName) :
    optionMatches optName optName = some optName.length ∧
      ∀ arg, optionMatches (optName ++ equalsSign :: arg) optName = some optName.length := by
  induction optName with
  | nil => exact ⟨rfl, fun _ => rfl⟩
  | cons c optName ih =>
    rw [List.mem_cons, not_or] at hn
    obtain ⟨hself, harg⟩ := ih hn.2
    have hc : ¬ c = equalsSign := fun he => hn.1 he.symm
    constructor
    · rw [optionMatches, if_neg hc, if_pos rfl, hself]
      rfl
    · intro arg
      rw [List.cons_append, optionMatches, if_neg hc, if_pos rfl, harg]
      rfl

/-- A name is matched by itself only, up to an equals sign. -/
theorem optionMatches_eq_some (h : optionMatches arg optName = some n) (hn : equalsSign ∉ optName) :
    n = optName.length ∧ (arg = optName ∨ ∃ rest, arg = optName ++ equalsSign :: rest) := by
  induction arg generalizing optName n with
  | nil =>
    rw [optionMatches] at h
    obtain ⟨rfl, hz⟩ := Option.ite_none_right_eq_some.1 h
    cases hz
    exact ⟨rfl, .inl rfl⟩
  | cons c arg ih =>
    cases optName with
    | nil =>
      rw [optionMatches] at h
      split at h
      · rename_i hc
        cases h
        exact ⟨rfl, .inr ⟨arg, by rw [hc, List.nil_append]⟩⟩
      · cases h
    | cons d optName =>
      rw [optionMatches] at h
      split at h
      · cases h
      · obtain ⟨rfl, hm⟩ := Option.ite_none_right_eq_some.1 h
        obtain ⟨m, hrest, rfl⟩ := Option.map_eq_some_iff.1 hm
        obtain ⟨hlen, harg⟩ := ih hrest fun hmem => hn (List.mem_cons_of_mem _ hmem)
        refine ⟨by rw [hlen, List.length_cons], ?_⟩
        rcases harg with rfl | ⟨rest, rfl⟩
        · exact .inl rfl
        · exact .inr ⟨rest, rfl⟩

/-- The option is the first one of its name. -/
structure Listed (longopts : List LongOption) (lo : LongOption) : Prop where
  found : longopts.find? (fun o => o.name = lo.name) = some lo
  nonempty : lo.name ≠ []
  names : ∀ o ∈ longopts, equalsSign ∉ o.name

theorem Listed.lookup (h : Listed longopts lo) (hm : ∀ o ∈ longopts,
    optionMatches arg o.name = if o.name = lo.name then some lo.name.length else none) :
    lookupLong longopts arg = some (lo, lo.name.length) := by
  have hfound := h.found
  clear h
  induction longopts with
  | nil => cases hfound
  | cons o longopts ih =>
    rw [lookupLong, List.findSome?_cons, hm o List.mem_cons_self]
    rw [List.find?_cons] at hfound
    by_cases he : o.name = lo.name
    · rw [decide_eq_true he] at hfound
      cases hfound
      rw [if_pos rfl]
      rfl
    · rw [decide_eq_false he] at hfound
      rw [if_neg he]
      exact ih (fun o' ho' => hm o' (List.mem_cons_of_mem _ ho')) hfound

theorem Listed.mem (h : Listed longopts lo) : lo ∈ longopts := List.mem_of_find?_eq_some h.found

theorem Listed.lookup_name (h : Listed longopts lo) :
    lookupLong longopts lo.name = some (lo, lo.name.length) := by
  have hlo := h.names lo h.mem
  apply h.lookup
  intro o ho
  split
  · rename_i he
    rw [he]
    exact (optionMatches_name hlo).1
  · rename_i hne
    apply Option.eq_none_iff_forall_ne_some.2
    intro n hn
    rcases (optionMatches_eq_some hn (h.names o ho)).2 with he | ⟨rest, he⟩
    · exact hne he.symm
    · apply hlo
      rw [he]
      exact List.mem_append_right _ List.mem_cons_self

theorem takeWhile_equals (hn : equalsSign ∉ optName) (rest : List UInt8) :
    (optName ++ equalsSign :: rest).takeWhile (· ≠ equalsSign) = optName := by
  rw [List.takeWhile_append_of_pos]
  · rw [List.takeWhile_cons_of_neg (by simp), List.append_nil]
  · intro c hc
    rw [decide_eq_true_iff]
    rintro rfl
    exact hn hc

theorem Listed.lookup_argument (h : Listed longopts lo) (arg : List UInt8) :
    lookupLong longopts (lo.name ++ equalsSign :: arg) = some (lo, lo.name.length) := by
  have hlo := h.names lo h.mem
  apply h.lookup
  intro o ho
  split
  · rename_i he
    rw [he]
    exact (optionMatches_name hlo).2 arg
  · rename_i hne
    apply Option.eq_none_iff_forall_ne_some.2
    intro n hn
    rcases (optionMatches_eq_some hn (h.names o ho)).2 with he | ⟨rest, he⟩
    · apply h.names o ho
      rw [← he]
      exact List.mem_append_right _ List.mem_cons_self
    · have ht := congrArg (List.takeWhile (· ≠ equalsSign)) he
      rw [takeWhile_equals hlo, takeWhile_equals (h.names o ho)] at ht
      exact hne ht.symm

/-- A word that begins with two hyphens, and is not the two of them. -/
theorem Between.getoptLong (h : Between a s i) (ht : a.text i = hyphen :: hyphen :: arg)
    (optstring : List UInt8) (longopts : List LongOption) :
    getoptLong optstring longopts a s = getoptLongWord longopts a s := by
  have hlt : i < a.argc := by
    apply Argv.text_ne_nil
    rw [ht]
    exact List.cons_ne_nil _ _
  have hopt : isOption (a.text i) = true := by
    rw [ht]
    exact isOption_of rfl (Nat.le_add_left _ _)
  have hsecond : (a.text i)[1]? = some hyphen := by
    rw [ht]
    rfl
  rw [getoptLong_started _ _ (h.optind ▸ h.pos) (h.optind ▸ Nat.le_of_lt hlt), h.optind,
    if_neg (not_not.2 hopt), if_pos hsecond]

theorem Between.advance (h : Between a s i) (hs : s'.optptr = s.optptr) (hi : s'.optind = j)
    (hij : i ≤ j) : Between a s' j := by
  refine ⟨hi, Nat.le_trans h.pos hij, ?_⟩
  rw [hs]
  intro p hp
  obtain ⟨hin, hlt⟩ := h.optptr p hp
  exact ⟨hin, Nat.lt_of_lt_of_le hlt hij⟩

theorem getoptLong_long (h : Between a s i) (hl : Listed longopts lo)
    (ht : a.text i = hyphen :: hyphen :: lo.name) (hno : lo.hasArg ≠ 1)
    (optstring : List UInt8) :
    ∃ s', getoptLong optstring longopts a s = (some lo.val, s') ∧ Between a s' (i + 1) := by
  have hend : ¬ lo.name[lo.name.length]? = some equalsSign := by
    rw [List.getElem?_eq_none (Nat.le_refl _)]
    exact nofun
  rw [h.getoptLong ht]
  simp only [getoptLongWord, h.optind, ht, List.drop_succ_cons, List.drop_zero,
    if_neg hl.nonempty, hl.lookup_name, if_neg hend, if_neg hno]
  exact ⟨_, rfl, h.advance rfl rfl (Nat.le_succ i)⟩

theorem getoptLong_longAttached (h : Between a s i) (hl : Listed longopts lo)
    (ht : a.text i = hyphen :: hyphen :: (lo.name ++ equalsSign :: arg)) (harg : lo.hasArg ≠ 0)
    (optstring : List UInt8) :
    ∃ s', getoptLong optstring longopts a s = (some lo.val, s') ∧
      s'.optarg.map a.string = some arg ∧ Between a s' (i + 1) := by
  have hne : lo.name ++ equalsSign :: arg ≠ [] := List.append_ne_nil_of_left_ne_nil hl.nonempty _
  have hend : (lo.name ++ equalsSign :: arg)[lo.name.length]? = some equalsSign := by
    rw [List.getElem?_append_right (Nat.le_refl _), Nat.sub_self]
    rfl
  rw [h.getoptLong ht]
  simp only [getoptLongWord, h.optind, ht, List.drop_succ_cons, List.drop_zero,
    if_neg hne, hl.lookup_argument, if_pos hend, if_pos harg]
  refine ⟨_, rfl, ?_, h.advance rfl rfl (Nat.le_succ i)⟩
  have hlen : 2 + lo.name.length + 1 = (lo.name ++ [equalsSign]).length + 1 + 1 := by
    rw [List.length_append, List.length_singleton]
    omega
  rw [Option.map_some, Argv.string, ht, List.append_cons]
  dsimp only
  rw [hlen, List.drop_succ_cons, List.drop_succ_cons, List.drop_left]

theorem getoptLong_longSeparate (h : Between a s i) (hl : Listed longopts lo)
    (ht : a.text i = hyphen :: hyphen :: lo.name) (harg : lo.hasArg = 1)
    (hi : i + 1 < a.argc) (optstring : List UInt8) :
    ∃ s', getoptLong optstring longopts a s = (some lo.val, s') ∧
      s'.optarg.map a.string = some (a.text (i + 1)) ∧ Between a s' (i + 2) := by
  have hend : ¬ lo.name[lo.name.length]? = some equalsSign := by
    rw [List.getElem?_eq_none (Nat.le_refl _)]
    exact nofun
  rw [h.getoptLong ht]
  simp only [getoptLongWord, h.optind, ht, List.drop_succ_cons, List.drop_zero,
    if_neg hl.nonempty, hl.lookup_name, if_neg hend, if_pos harg, if_pos hi]
  exact ⟨_, rfl, rfl, h.advance rfl rfl (Nat.le_add_right i 2)⟩

/-- What a user writes: a word of options without arguments, possibly with one that takes its
argument from the rest of the word or from the next one, or a long option in one of its forms. -/
inductive Given where
  | flags (cs : List UInt8)
  | short (cs : List UInt8) (c : UInt8) (arg : List UInt8) (attached : Bool)
  | long (lo : LongOption)
  | longArg (lo : LongOption) (arg : List UInt8) (attached : Bool)

namespace Given

def words : Given → List (List UInt8)
  | flags cs => [hyphen :: cs]
  | short cs c arg true => [hyphen :: (cs ++ c :: arg)]
  | short cs c arg false => [hyphen :: (cs ++ [c]), arg]
  | long lo => [hyphen :: hyphen :: lo.name]
  | longArg lo arg true => [hyphen :: hyphen :: (lo.name ++ equalsSign :: arg)]
  | longArg lo arg false => [hyphen :: hyphen :: lo.name, arg]

def flagResults (cs : List UInt8) : List (Nat × Option (List UInt8)) :=
  cs.map fun c => (c.toNat, none)

/-- What the program is told: the options in their order, with the arguments of those that take
one. -/
def results : Given → List (Nat × Option (List UInt8))
  | flags cs => flagResults cs
  | short cs c arg _ => flagResults cs ++ [(c.toNat, some arg)]
  | long lo => [(lo.val, none)]
  | longArg lo arg _ => [(lo.val, some arg)]

def AreFlags (optstring : List UInt8) (cs : List UInt8) : Prop :=
  ∀ c ∈ cs, c ≠ hyphen ∧ shortKind optstring c = some false

def Valid (optstring : List UInt8) (longopts : List LongOption) : Given → Prop
  | flags cs => cs ≠ [] ∧ AreFlags optstring cs
  | short cs c arg attached => AreFlags optstring cs ∧ c ≠ hyphen ∧
      shortKind optstring c = some true ∧ (attached = true → arg ≠ [])
  | long lo => Listed longopts lo ∧ lo.hasArg ≠ 1
  | longArg lo _ attached => Listed longopts lo ∧ if attached then lo.hasArg ≠ 0 else lo.hasArg = 1

end Given

/-- The program is told `e` by a call with the result `r`: an argument is looked at only where the
option takes one. -/
def Tells (r e : Nat × Option (List UInt8)) : Prop :=
  r.1 = e.1 ∧ ∀ arg, e.2 = some arg → r.2 = some arg

/-- Calls in a row, none of which returns -1, and what they tell. -/
inductive Parses (optstring : List UInt8) (longopts : List LongOption) (a : Argv) :
    Getopt → List (Nat × Option (List UInt8)) → Getopt → Prop where
  | nil : Parses optstring longopts a u [] u
  | cons (h : getoptLong optstring longopts a u = (some c, u₁))
      (ht : Tells (c, u₁.optarg.map a.string) e) (hs : Parses optstring longopts a u₁ es u₂) :
      Parses optstring longopts a u (e :: es) u₂

theorem Parses.append (h : Parses optstring longopts a s es s')
    (h' : Parses optstring longopts a s' es' u) :
    Parses optstring longopts a s (es ++ es') u := by
  induction h with
  | nil => exact h'
  | cons hc ht hs ih => exact .cons hc ht (ih h')

theorem tells_flag (c : Nat) (o : Option (List UInt8)) : Tells (c, o) (c, none) := ⟨rfl, nofun⟩

theorem tells_argument (c : Nat) (arg : List UInt8) : Tells (c, some arg) (c, some arg) :=
  ⟨rfl, fun _ h => h⟩

/-- Options without arguments that something follows in their word. -/
theorem parses_within (hw : ShortWord a i) (hf : Given.AreFlags optstring cs)
    (pre : List UInt8) (h : Within a s i pre.length) (ht : a.text i = pre ++ (cs ++ post)) (hp : post ≠ []) :
    ∃ s', Parses optstring longopts a s (Given.flagResults cs) s' ∧
      Within a s' i (pre ++ cs).length := by
  induction cs generalizing pre s with
  | nil =>
    rw [List.append_nil]
    exact ⟨s, .nil, h⟩
  | cons c cs ih =>
    obtain ⟨s₁, hcall, -, hwithin⟩ :=
      getoptLong_flag h hw ht (hf c List.mem_cons_self).2 longopts
    have hnext := hwithin (List.append_ne_nil_of_right_ne_nil cs hp)
    have hlen : pre.length + 1 = (pre ++ [c]).length := by
      rw [List.length_append, List.length_singleton]
    rw [hlen] at hnext
    have ht' : a.text i = (pre ++ [c]) ++ (cs ++ post) := by
      rw [ht, List.append_assoc]
      rfl
    obtain ⟨s', hparses, hwithin'⟩ := ih (fun d hd => hf d (List.mem_cons_of_mem c hd)) _ hnext ht'
    refine ⟨s', .cons hcall (tells_flag _ _) hparses, ?_⟩
    rw [List.append_assoc] at hwithin'
    exact hwithin'

theorem Given.AreFlags.single (h : Given.AreFlags optstring cs) (hc : c ≠ hyphen) :
    (hyphen :: (cs ++ c :: post))[1]? ≠ some hyphen := by
  cases cs with
  | nil =>
    intro he
    exact hc (Option.some.inj he)
  | cons d cs =>
    intro he
    exact (h d List.mem_cons_self).1 (Option.some.inj he)

/-- A word of short options, up to its last option. -/
theorem parses_word (h : Between a s i) (hf : Given.AreFlags optstring cs) (hc : c ≠ hyphen)
    (ht : a.text i = hyphen :: (cs ++ c :: post)) (longopts : List LongOption) :
    ShortWord a i ∧ ∃ s', Parses optstring longopts a s (Given.flagResults cs) s' ∧
      Within a s' i (hyphen :: cs).length := by
  have hw : ShortWord a i := by
    constructor
    · rw [ht]
      rfl
    · rw [ht]
      exact hf.single hc
    · rw [ht, List.length_cons, List.length_append, List.length_cons]
      omega
  exact ⟨hw, parses_within hw hf [hyphen] h.within ht (List.cons_ne_nil c post)⟩

/-- The words from number `i` on begin with `ws`. -/
def WordsAt (a : Argv) (i : Nat) (ws : List (List UInt8)) : Prop :=
  ws <+: (a.words.map CString.bytes).drop i

theorem WordsAt.text (h : WordsAt a i (w :: ws)) : a.text i = w ∧ i < a.argc := by
  obtain ⟨rest, hr⟩ := h
  have hget : (a.words.map CString.bytes)[i]? = some w := by
    have hz := congrArg (·[0]?) hr
    simp only [List.cons_append, List.getElem?_cons_zero, List.getElem?_drop, Nat.add_zero] at hz
    exact hz.symm
  rw [List.getElem?_map] at hget
  constructor
  · rw [Argv.text, hget]
    rfl
  · obtain ⟨v, hv, -⟩ := Option.map_eq_some_iff.1 hget
    exact (List.getElem?_eq_some_iff.1 hv).1

theorem WordsAt.tail (h : WordsAt a i (w :: ws)) : WordsAt a (i + 1) ws := by
  obtain ⟨rest, hr⟩ := h
  refine ⟨rest, ?_⟩
  rw [← List.drop_drop, ← hr]
  rfl

/-- What was given is told, whichever way it was written. -/
theorem Given.parses (g : Given) (hg : g.Valid optstring longopts) (h : Between a s i)
    (hws : WordsAt a i g.words) :
    ∃ s', Parses optstring longopts a s g.results s' ∧ Between a s' (i + g.words.length) := by
  cases g with
  | flags cs =>
    obtain ⟨hne, hf⟩ := hg
    obtain ⟨cs, c, rfl⟩ : ∃ cs' c, cs = cs' ++ [c] :=
      ⟨cs.dropLast, cs.getLast hne, (List.dropLast_append_getLast hne).symm⟩
    have hc := hf c (List.mem_append_right _ (List.mem_singleton_self c))
    have hf' : AreFlags optstring cs := fun d hd => hf d (List.mem_append_left _ hd)
    obtain ⟨hw, s₁, hparses, hwithin⟩ := parses_word h hf' hc.1 hws.text.1 longopts
    obtain ⟨s', hcall, hend, -⟩ :=
      getoptLong_flag hwithin hw hws.text.1 hc.2 longopts
    refine ⟨s', ?_, hend rfl⟩
    rw [results, flagResults, List.map_append]
    exact hparses.append (.cons hcall (tells_flag _ _) .nil)
  | short cs c arg attached =>
    obtain ⟨hf, hc, hkind, harg⟩ := hg
    cases attached with
    | true =>
      obtain ⟨hw, s₁, hparses, hwithin⟩ := parses_word h hf hc hws.text.1 longopts
      obtain ⟨s', hcall, ho, hend⟩ :=
        getoptLong_attached hwithin hw hws.text.1 hkind (harg rfl) longopts
      refine ⟨s', hparses.append (.cons hcall ?_ .nil), hend⟩
      rw [ho]
      exact tells_argument _ _
    | false =>
      obtain ⟨hw, s₁, hparses, hwithin⟩ := parses_word h hf hc hws.text.1 longopts
      obtain ⟨s', hcall, ho, hend⟩ :=
        getoptLong_separate hwithin hw hws.text.1 hkind hws.tail.text.2 longopts
      refine ⟨s', hparses.append (.cons hcall ?_ .nil), hend⟩
      rw [ho, hws.tail.text.1]
      exact tells_argument _ _
  | long lo =>
    obtain ⟨hl, hno⟩ := hg
    obtain ⟨s', hcall, hend⟩ :=
      getoptLong_long h hl hws.text.1 hno optstring
    exact ⟨s', .cons hcall (tells_flag _ _) .nil, hend⟩
  | longArg lo arg attached =>
    obtain ⟨hl, harg⟩ := hg
    cases attached with
    | true =>
      obtain ⟨s', hcall, ho, hend⟩ :=
        getoptLong_longAttached h hl hws.text.1 harg optstring
      refine ⟨s', .cons hcall ?_ .nil, hend⟩
      rw [ho]
      exact tells_argument _ _
    | false =>
      obtain ⟨s', hcall, ho, hend⟩ :=
        getoptLong_longSeparate h hl hws.text.1 harg hws.tail.text.2 optstring
      refine ⟨s', .cons hcall ?_ .nil, hend⟩
      rw [ho, hws.tail.text.1]
      exact tells_argument _ _

/-- What is left to read from word `i` on. -/
def Argv.rest (a : Argv) (i : Nat) : Nat := ((a.words.drop i).map fun w => w.length + 1).sum

theorem Argv.rest_succ (h : i < a.argc) : a.rest i = (a.text i).length + 1 + a.rest (i + 1) := by
  obtain ⟨w, hw, ht⟩ := exists_word h
  obtain ⟨hlt, hget⟩ := List.getElem?_eq_some_iff.1 hw
  rw [rest, List.drop_eq_getElem_cons hlt, List.map_cons, List.sum_cons, hget, ht]
  rfl

theorem Argv.rest_anti (a : Argv) (i : Nat) : a.rest (i + 1) ≤ a.rest i := by
  by_cases h : i < a.argc
  · rw [rest_succ h]
    exact Nat.le_add_left _ _
  · have hnil : a.words.drop (i + 1) = [] :=
      List.drop_eq_nil_of_le (Nat.le_succ_of_le (Nat.le_of_not_lt h))
    rw [rest, hnil]
    exact Nat.zero_le _

/-- Where the variables stand before a call, with at most `n` characters left to read. -/
inductive Reads (a : Argv) (s : Getopt) (n : Nat) : Prop where
  | between (h : Between a s i) (hi : i ≤ a.argc) (hn : a.rest i ≤ n)
  | within (h : Within a s i off) (hw : ShortWord a i) (hoff : off < (a.text i).length)
      (hn : a.rest i ≤ n + off)

/-- The next option of a word: the word is read on, or left. -/
theorem getoptShort_reads (h : Within a s i off) (hw : ShortWord a i)
    (hoff : off < (a.text i).length) (hn : a.rest i ≤ n + 1 + off) (optstring : List UInt8) :
    ∃ c s', getoptShort optstring a s = (some c, s') ∧ Reads a s' n := by
  have hrest := Argv.rest_succ hw.lt
  have hanti : a.rest (i + 2) ≤ a.rest (i + 1) := a.rest_anti (i + 1)
  have hin : a.Inside ⟨i, off + 1⟩ := ⟨hw.lt, hoff⟩
  have hleave (s' : Getopt) (hp : s'.optptr = some ⟨i, off + 1⟩) (j : Nat) (hj : s'.optind = j)
      (hij : j = i + 1 ∨ (j = i + 2 ∧ i + 1 < a.argc)) : Reads a s' n := by
    have hlt := hw.lt
    refine .between (i := j) ⟨hj, by omega, ?_⟩ (by omega) ?_
    · intro p ho
      rw [hp] at ho
      cases ho
      refine ⟨hin, ?_⟩
      dsimp only
      omega
    · rcases hij with rfl | ⟨rfl, -⟩
      · omega
      · omega
  have hstay (s' : Getopt) (hp : s'.optptr = some ⟨i, off + 1⟩)
      (hj : s'.optind = if a.char ⟨i, off + 1⟩ = 0 then i + 1 else i) : Reads a s' n := by
    by_cases hz : a.char ⟨i, off + 1⟩ = 0
    · rw [if_pos hz] at hj
      exact hleave s' hp _ hj (.inl rfl)
    · rw [if_neg hz] at hj
      refine .within ⟨hj, h.pos, .inr ⟨hp, hoff⟩⟩ hw ?_ (by omega)
      apply Nat.lt_of_not_le
      intro hle
      apply hz
      rw [Argv.char, List.getElem?_eq_none hle]
      rfl
  rw [getoptShort, h.resumes hw.lt, h.optind]
  dsimp only
  split
  · exact ⟨_, _, rfl, hstay _ rfl rfl⟩
  · split
    · split
      · exact ⟨_, _, rfl, hleave _ rfl _ rfl (.inl rfl)⟩
      · split
        · rename_i hlt
          exact ⟨_, _, rfl, hleave _ rfl _ rfl (.inr ⟨rfl, hlt⟩)⟩
        · exact ⟨_, _, rfl, hleave _ rfl _ rfl (.inl rfl)⟩
    · exact ⟨_, _, rfl, hstay _ rfl rfl⟩

theorem getoptLongWord_reads (h : Between a s i) (hi : i < a.argc) (hn : a.rest i ≤ n + 1)
    (hc : getoptLongWord longopts a s = (some c, s')) : Reads a s' n := by
  have hrest := Argv.rest_succ hi
  have hanti : a.rest (i + 2) ≤ a.rest (i + 1) := a.rest_anti (i + 1)
  have hleave (u : Getopt) (hp : u.optptr = s.optptr) (j : Nat) (hj : u.optind = j)
      (hij : j = i + 1 ∨ (j = i + 2 ∧ i + 1 < a.argc)) : Reads a u n := by
    refine .between (i := j) (h.advance hp hj (by omega)) (by omega) ?_
    rcases hij with rfl | ⟨rfl, -⟩
    · omega
    · omega
  simp only [getoptLongWord, h.optind] at hc
  split at hc
  · cases hc
  split at hc
  · cases hc
    exact hleave _ rfl _ rfl (.inl rfl)
  split at hc
  · split at hc
    · cases hc
      exact hleave _ rfl _ rfl (.inl rfl)
    · cases hc
      exact hleave _ rfl _ rfl (.inl rfl)
  split at hc
  · split at hc
    · rename_i hlt
      cases hc
      exact hleave _ rfl _ rfl (.inr ⟨rfl, hlt⟩)
    · cases hc
      exact hleave _ rfl _ rfl (.inl rfl)
  · cases hc
    exact hleave _ rfl _ rfl (.inl rfl)

/-- Each call that does not return -1 reads something. -/
theorem getoptLong_reads (h : Reads a s n) (optstring : List UInt8) (longopts : List LongOption) :
    (getoptLong optstring longopts a s).1 = none ∨
      ∃ c s' m, getoptLong optstring longopts a s = (some c, s') ∧ n = m + 1 ∧ Reads a s' m := by
  cases h with
  | @between i h hi hn =>
    rw [getoptLong_started _ _ (h.optind ▸ h.pos) (h.optind ▸ hi), h.optind]
    by_cases ho : isOption (a.text i) = true
    · rw [if_neg (not_not.2 ho)]
      rw [isOption, decide_eq_true_iff] at ho
      have hlt : i < a.argc := by
        apply Argv.text_ne_nil
        intro hnil
        rw [hnil] at ho
        exact ho.2 rfl
      have hrest := Argv.rest_succ hlt
      obtain ⟨m, rfl⟩ : ∃ m, n = m + 1 := ⟨n - 1, by omega⟩
      split
      · cases hc : getoptLongWord longopts a s with
        | mk r s' =>
          cases r with
          | none => exact .inl rfl
          | some c => exact .inr ⟨c, s', m, rfl, rfl, getoptLongWord_reads h hlt hn hc⟩
      · rename_i hsingle
        have hlen : 2 ≤ (a.text i).length := by
          have hpos := List.length_pos_iff.2 ho.2
          rw [List.length_tail] at hpos
          omega
        obtain ⟨c, s', hc, hr⟩ := getoptShort_reads h.within ⟨ho.1, hsingle, hlen⟩ hlen
          (Nat.le_succ_of_le hn) optstring
        exact .inr ⟨c, s', m, hc, rfl, hr⟩
    · rw [if_pos ho]
      exact .inl rfl
  | @within i off h hw hoff hn =>
    rw [h.getoptLong hw]
    have hrest := Argv.rest_succ hw.lt
    obtain ⟨m, rfl⟩ : ∃ m, n = m + 1 := ⟨n - 1, by omega⟩
    obtain ⟨c, s', hc, hr⟩ := getoptShort_reads h hw hoff hn optstring
    exact .inr ⟨c, s', m, hc, rfl, hr⟩

/-- The loop ends: a larger bound on the number of calls changes nothing. -/
theorem getoptRun_fuel (h : Reads a s n) (optstring : List UInt8) (longopts : List LongOption) :
    getoptRun optstring longopts a (n + 2) s = getoptRun optstring longopts a (n + 1) s := by
  induction n generalizing s with
  | zero =>
    rcases getoptLong_reads h optstring longopts with hn | ⟨c, s', m, -, hm, -⟩
    · cases hc : getoptLong optstring longopts a s with
      | mk r s' =>
        rw [hc] at hn
        cases hn
        simp only [getoptRun, hc]
    · cases hm
  | succ n ih =>
    rcases getoptLong_reads h optstring longopts with hn | ⟨c, s', m, hc, hm, hr⟩
    · cases hc : getoptLong optstring longopts a s with
      | mk r s' =>
        rw [hc] at hn
        cases hn
        simp only [getoptRun, hc]
    · cases hm
      rw [getoptRun, getoptRun, hc]
      dsimp only
      rw [ih hr]

theorem getoptRun_enough (h : Reads a s n) (hm : n < m) (optstring : List UInt8)
    (longopts : List LongOption) :
    getoptRun optstring longopts a m s = getoptRun optstring longopts a (n + 1) s := by
  obtain ⟨k, rfl⟩ := Nat.exists_eq_add_of_lt hm
  induction k with
  | zero => rfl
  | succ k ih =>
    have hk : Reads a s (n + k) := by
      cases h with
      | between h hi hn => exact .between h hi (by omega)
      | within h hw hoff hn => exact .within h hw hoff (by omega)
    have hfuel := getoptRun_fuel hk optstring longopts
    have harith : n + (k + 1) + 1 = n + k + 2 := by omega
    rw [harith, hfuel]
    exact ih (by omega)

theorem Parses.run (h : Parses optstring longopts a s es s')
    (hend : (getoptLong optstring longopts a s').1 = none) (hn : es.length < n) :
    List.Forall₂ Tells (getoptRun optstring longopts a n s).1 es ∧
      (getoptRun optstring longopts a n s).2 = (getoptLong optstring longopts a s').2 := by
  induction h generalizing n with
  | nil =>
    obtain ⟨n, rfl⟩ := Nat.exists_eq_succ_of_ne_zero (Nat.ne_of_gt hn)
    cases hc : getoptLong optstring longopts a _ with
    | mk r u =>
      rw [hc] at hend
      cases hend
      simp only [getoptRun, hc]
      exact ⟨.nil, trivial⟩
  | cons hc ht hs ih =>
    obtain ⟨n, rfl⟩ := Nat.exists_eq_succ_of_ne_zero (Nat.ne_of_gt (Nat.zero_lt_of_lt hn))
    obtain ⟨htells, hlast⟩ := ih hend (Nat.lt_of_succ_lt_succ hn)
    simp only [getoptRun, hc]
    exact ⟨.cons ht htells, hlast⟩

/-- The words behind the options: the operands, after two hyphens or without them. -/
inductive Ending where
  | plain (operands : List (List UInt8)) (h : ∀ w ∈ operands.head?, isOption w = false)
  | hyphens (operands : List (List UInt8))

namespace Ending

def operands : Ending → List (List UInt8)
  | plain ws _ => ws
  | hyphens ws => ws

def words : Ending → List (List UInt8)
  | plain ws _ => ws
  | hyphens ws => [hyphen, hyphen] :: ws

/-- The call that returns -1 leaves `optind` at the first operand. -/
theorem stops (e : Ending) (h : Between a s i) (hi : i ≤ a.argc)
    (hws : (a.words.map CString.bytes).drop i = e.words) (optstring : List UInt8)
    (longopts : List LongOption) :
    (getoptLong optstring longopts a s).1 = none ∧
      (a.words.map CString.bytes).drop (getoptLong optstring longopts a s).2.optind =
        e.operands := by
  cases e with
  | hyphens ws =>
    have hat : WordsAt a i ([hyphen, hyphen] :: ws) := by
      rw [WordsAt, hws]
      exact List.prefix_refl _
    rw [h.getoptLong hat.text.1]
    simp only [getoptLongWord, h.optind, hat.text.1, List.drop_succ_cons, List.drop_zero, if_true]
    refine ⟨trivial, ?_⟩
    rw [← List.drop_drop, hws]
    rfl
  | plain ws hplain =>
    have hno : isOption (a.text i) = false := by
      by_cases hlt : i < a.argc
      · obtain ⟨w, hw, ht⟩ := Argv.exists_word hlt
        rw [ht]
        apply hplain
        have hhead := congrArg List.head? hws
        rw [List.head?_drop, List.getElem?_map, hw] at hhead
        rw [← show some w.bytes = ws.head? from hhead]
        rfl
      · have hnil : a.text i = [] := by
          by_contra hne
          exact hlt (Argv.text_ne_nil hne)
        rw [hnil]
        rfl
    rw [getoptLong_started _ _ (h.optind ▸ h.pos) (h.optind ▸ hi), h.optind, hno,
      if_pos Bool.false_ne_true]
    refine ⟨rfl, ?_⟩
    rw [h.optind]
    exact hws

end Ending

theorem parses_all (gs : List Given) (hgs : ∀ g ∈ gs, g.Valid optstring longopts)
    (h : Between a s i) (hws : WordsAt a i (gs.flatMap Given.words)) :
    ∃ s', Parses optstring longopts a s (gs.flatMap Given.results) s' ∧
      Between a s' (i + (gs.flatMap Given.words).length) := by
  induction gs generalizing s i with
  | nil => exact ⟨s, .nil, h⟩
  | cons g gs ih =>
    rw [List.flatMap_cons] at hws
    have hg : WordsAt a i g.words := (List.prefix_append _ _).trans hws
    obtain ⟨s₁, hp, hb⟩ := g.parses (hgs g List.mem_cons_self) h hg
    have hrest : WordsAt a (i + g.words.length) (gs.flatMap Given.words) := by
      obtain ⟨rest, hr⟩ := hws
      refine ⟨rest, ?_⟩
      rw [← List.drop_drop, ← hr, List.append_assoc, List.drop_left]
    obtain ⟨s', hp', hb'⟩ := ih (fun g' hg' => hgs g' (List.mem_cons_of_mem g hg')) hb hrest
    rw [List.flatMap_cons, List.flatMap_cons, List.length_append, ← Nat.add_assoc]
    exact ⟨s', hp.append hp', hb'⟩

def Getopt.first : Getopt := ⟨1, none, none, 0⟩

/-- The first call sets the variables up. -/
theorem getoptLong_start (optstring : List UInt8) (longopts : List LongOption)
    (h : 1 ≤ a.argc) :
    getoptLong optstring longopts a .start = getoptLong optstring longopts a .first := by
  have hno : ¬ (Getopt.first.optind < 1 ∨ a.argc < Getopt.first.optind) := by
    rintro (hlt | hlt)
    · exact absurd hlt (Nat.lt_irrefl 1)
    · exact absurd hlt (Nat.not_lt_of_le h)
  have hyes : Getopt.start.optind < 1 ∨ a.argc < Getopt.start.optind := .inl Nat.one_pos
  rw [getoptLong, getoptLong, if_pos hyes, if_neg hno]
  rfl

theorem getoptRun_start (optstring : List UInt8) (longopts : List LongOption) (h : 1 ≤ a.argc)
    (n : Nat) : getoptRun optstring longopts a (n + 1) .start =
      getoptRun optstring longopts a (n + 1) .first := by
  rw [getoptRun, getoptRun, getoptLong_start _ _ h]

theorem between_first (a : Argv) : Between a .first 1 := ⟨rfl, Nat.le_refl 1, nofun⟩

/-- `getopt_long` inverts the writing of a command line. Whatever options were given, in words of
several letters, with their arguments in the same word or in the next one, or by their long names:
the calls up to the one that returns -1 tell them in their order with their arguments, and leave
`optind` at the operands. There is such a call: whatever the words are, no more calls are made than
there are characters. -/
theorem getoptRun_given (optstring : List UInt8) (longopts : List LongOption) (a : Argv)
    (prog : List UInt8) (gs : List Given) (e : Ending)
    (hgs : ∀ g ∈ gs, g.Valid optstring longopts)
    (ha : a.words.map CString.bytes = prog :: (gs.flatMap Given.words ++ e.words))
    (hn : a.rest 1 < n) :
    let r := getoptRun optstring longopts a n .start
    List.Forall₂ Tells r.1 (gs.flatMap Given.results) ∧
      (a.words.map CString.bytes).drop r.2.optind = e.operands ∧
      ∀ m, n ≤ m → getoptRun optstring longopts a m .start = r := by
  intro r
  have hargc : a.argc = (gs.flatMap Given.words ++ e.words).length + 1 := by
    rw [Argv.argc, ← List.length_map (f := CString.bytes), ha, List.length_cons]
  have hone : 1 ≤ a.argc := by omega
  have hreads : Reads a .first (a.rest 1) := .between (between_first a) hone (Nat.le_refl _)
  have hws : WordsAt a 1 (gs.flatMap Given.words) := by
    rw [WordsAt, ha]
    exact List.prefix_append _ _
  obtain ⟨s', hparses, hb⟩ := parses_all gs hgs (between_first a) hws
  have hlast : (a.words.map CString.bytes).drop (1 + (gs.flatMap Given.words).length) =
      e.words := by
    rw [ha, Nat.add_comm, List.drop_succ_cons, List.drop_left]
  have hle : 1 + (gs.flatMap Given.words).length ≤ a.argc := by
    rw [hargc, List.length_append]
    omega
  obtain ⟨hend, hops⟩ := e.stops hb hle hlast optstring longopts
  have hrun (m : Nat) (hm : n ≤ m) : getoptRun optstring longopts a m .start =
      getoptRun optstring longopts a (a.rest 1 + 1) .first := by
    obtain ⟨k, rfl⟩ := Nat.exists_eq_succ_of_ne_zero (by omega : m ≠ 0)
    rw [getoptRun_start _ _ hone]
    exact getoptRun_enough hreads (by omega) optstring longopts
  have hbig := getoptRun_enough hreads
    (m := a.rest 1 + 1 + (gs.flatMap Given.results).length) (by omega) optstring longopts
  obtain ⟨htells, hind⟩ := hparses.run hend
    (n := a.rest 1 + 1 + (gs.flatMap Given.results).length) (by omega)
  rw [hbig] at htells hind
  have hr : r = getoptRun optstring longopts a (a.rest 1 + 1) .first := hrun n (Nat.le_refl n)
  refine ⟨?_, ?_, ?_⟩
  · rw [hr]
    exact htells
  · rw [hr, hind]
    exact hops
  · intro m hm
    rw [hrun m hm, hr]

theorem sum_take_add_le {xs : List α} (f : α → Nat) (h : xs[i]? = some x) (hij : i < j) :
    ((xs.take i).map f).sum + f x ≤ ((xs.take j).map f).sum := by
  obtain ⟨rest, hr⟩ : xs.take (i + 1) <+: xs.take j := List.take_prefix_take_left hij
  rw [← hr, List.take_add_one, h, List.map_append, List.map_append, List.sum_append,
    List.sum_append]
  exact Nat.le_add_right _ _

/-- The words one behind the other, as a program finds them when it starts. -/
def Argv.laidOut (base : Nat) (words : List CString) (hpos : 0 < base)
    (h : base + (words.map fun w => w.length + 1).sum < 2 ^ 64) : Argv where
  words := words
  address := fun i => base + ((words.take i).map fun w => w.length + 1).sum
  inRange := by
    intro i w hw
    have hle := sum_take_add_le (fun w => w.length + 1) hw (List.getElem?_eq_some_iff.1 hw).1
    rw [List.take_length] at hle
    omega
  apart := by
    intro i j v w hv hw hij
    left
    have hle := sum_take_add_le (fun w => w.length + 1) hv hij
    omega

/-- `tftpd -ls -B 1024 --verbosity=3 /tftp` -/
theorem getoptRun_commandLine :
    let optstring := ascii ['l', 's', 'B', ':']
    let longopts := [⟨ascii ['v', 'e', 'r', 'b', 'o', 's', 'i', 't', 'y'], 1, 256⟩]
    let words := [ascii ['t', 'f', 't', 'p', 'd'], ascii ['-', 'l', 's'], ascii ['-', 'B'],
      ascii ['1', '0', '2', '4'],
      ascii ['-', '-', 'v', 'e', 'r', 'b', 'o', 's', 'i', 't', 'y', '=', '3'],
      ascii ['/', 't', 'f', 't', 'p']].map CString.ofBytes
    let a := Argv.laidOut 4096 words (by decide) (by decide)
    let r := getoptRun optstring longopts a 33 .start
    List.Forall₂ Tells r.1 [(108, none), (115, none), (66, some (ascii ['1', '0', '2', '4'])),
      (256, some [51])] ∧
      (a.words.map CString.bytes).drop r.2.optind = [ascii ['/', 't', 'f', 't', 'p']] ∧
      ∀ m, 33 ≤ m → getoptRun optstring longopts a m .start = r := by
  intro optstring longopts words a
  let gs : List Given := [.flags [108, 115], .short [] 66 (ascii ['1', '0', '2', '4']) false,
    .longArg ⟨ascii ['v', 'e', 'r', 'b', 'o', 's', 'i', 't', 'y'], 1, 256⟩ [51] true]
  have hgs : ∀ g ∈ gs, g.Valid optstring longopts := by
    intro g hg
    rcases List.mem_cons.1 hg with rfl | hg
    · refine ⟨List.cons_ne_nil _ _, List.forall_mem_cons.2 ⟨by decide, ?_⟩⟩
      exact List.forall_mem_singleton.2 (by decide)
    · rcases List.mem_cons.1 hg with rfl | hg
      · exact ⟨nofun, by decide, by decide, fun _ => by decide⟩
      · cases List.mem_singleton.1 hg
        exact ⟨⟨by decide, by decide, by decide⟩, Nat.one_ne_zero⟩
  have hres : gs.flatMap Given.results = [(108, none), (115, none),
      (66, some (ascii ['1', '0', '2', '4'])), (256, some [51])] := by decide
  have h := getoptRun_given optstring longopts a (ascii ['t', 'f', 't', 'p', 'd']) gs
    (.plain [ascii ['/', 't', 'f', 't', 'p']] (by decide)) hgs (by decide)
    (by decide : a.rest 1 < 33)
  rw [hres] at h
  exact h

end WooTftpd
