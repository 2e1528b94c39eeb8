import WooTftpd.StartUp

namespace WooTftpd
open Lib
set_option autoImplicit true

/-- The arguments of `-r`, from what the calls of `getopt_long` told. -/
def refusals (rs : List (Nat × Option (List UInt8))) : List (List UInt8) :=
  rs.filterMap fun r => if Switch.ofVal r.1 = some .refuse then r.2 else none

/-- The name is one of the arguments, in upper or lower case. -/
def Named (args : List (List UInt8)) (name : List UInt8) : Prop :=
  ∃ s ∈ args, strcaseEq s name = true

instance (args : List (List UInt8)) (name : List UInt8) : Decidable (Named args name) :=
  inferInstanceAs (Decidable (∃ s ∈ args, strcaseEq s name = true))

theorem strcaseEq_iff : strcaseEq s t = true ↔ s.map tolower = t.map tolower :=
  decide_eq_true_iff

theorem strcaseEq_trans (h : strcaseEq s t = true) (h' : strcaseEq t u = true) :
    strcaseEq s u = true :=
  strcaseEq_iff.2 ((strcaseEq_iff.1 h).trans (strcaseEq_iff.1 h'))

theorem strcaseEq_comm (h : strcaseEq s t = true) : strcaseEq t s = true :=
  strcaseEq_iff.2 (strcaseEq_iff.1 h).symm

theorem text_injective (o p : OptionName) (h : strcaseEq o.text p.text = true) : o = p := by
  revert h
  cases o <;> cases p <;> decide

theorem text_ne_nil (o : OptionName) : o.text ≠ [] := by
  cases o <;> decide

/-- The arguments of `-r` that the server accepts, in their order: each is the name of an option
that none of those before it names, or is empty and not the first one. -/
inductive Refusable : List (List UInt8) → Prop where
  | nil : Refusable []
  | empty (h : Refusable args) (hne : args ≠ []) : Refusable (args ++ [[]])
  | option (h : Refusable args) (o : OptionName) (hs : strcaseEq s o.text = true)
      (ho : ¬ Named args o.text) : Refusable (args ++ [s])

/-- What is refused after some arguments of `-r`, all of which were accepted. -/
structure Refused (args : List (List UInt8)) (cfg : OptionConfig) : Prop where
  refusable : Refusable args
  named : ∀ o, cfg.refused o = true ↔ Named args o.text

theorem refused_nil {cfg : OptionConfig} (h : ∀ o, cfg.refused o = false) : Refused [] cfg where
  refusable := .nil
  named := by
    intro o
    rw [h o]
    exact iff_of_false Bool.false_ne_true fun ⟨s, hs, _⟩ => List.not_mem_nil hs

theorem named_concat (args : List (List UInt8)) (s name : List UInt8) :
    Named (args ++ [s]) name ↔ Named args name ∨ strcaseEq s name = true := by
  simp only [Named, List.mem_append, List.mem_singleton, or_and_right, exists_or, exists_eq_left]

/-- The option that one `-r` finds: its name is empty if it is refused. -/
theorem refuse_found {cfg cfg' : OptionConfig} (h : cfg.refuse s = some cfg') :
    ∃ p, cfg' = { cfg with refused := Function.update cfg.refused p true } ∧
      if cfg.refused p then s = [] else strcaseEq s p.text = true := by
  obtain ⟨p, hp, rfl⟩ := Option.map_eq_some_iff.1 h
  have hs := List.find?_some hp
  refine ⟨p, rfl, ?_⟩
  rw [OptionConfig.name] at hs
  split
  · rename_i hr
    rw [if_pos hr] at hs
    exact List.map_eq_nil_iff.1 (strcaseEq_iff.1 hs)
  · rename_i hr
    rwa [if_neg hr] at hs

theorem Refused.refuse {cfg cfg' : OptionConfig} (h : Refused args cfg)
    (hr : cfg.refuse s = some cfg') : Refused (args ++ [s]) cfg' := by
  obtain ⟨p, rfl, hp⟩ := refuse_found hr
  by_cases hwas : cfg.refused p = true
  · rw [if_pos hwas] at hp
    subst hp
    have hno (o : OptionName) : ¬ strcaseEq [] o.text = true := by
      cases o <;> decide
    refine ⟨.empty h.refusable ?_, ?_⟩
    · rintro rfl
      obtain ⟨s, hs, -⟩ := (h.named p).1 hwas
      cases hs
    · intro o
      rw [named_concat, or_iff_left (hno o), ← h.named o]
      dsimp only
      by_cases he : o = p
      · rw [he, hwas, Function.update_self]
      · rw [Function.update_of_ne he]
  · rw [if_neg hwas] at hp
    refine ⟨.option h.refusable p hp fun hn => hwas ((h.named p).2 hn), ?_⟩
    intro o
    rw [named_concat, ← h.named o]
    dsimp only
    by_cases he : o = p
    · rw [he, Function.update_self]
      exact iff_of_true rfl (.inr hp)
    · rw [Function.update_of_ne he, or_iff_left]
      intro hs
      exact he (text_injective o p (strcaseEq_trans (strcaseEq_comm hs) hp))

section Loop

variable {v v' : Variables}

theorem bind_eq_ok {x : Except Halt α} {f : α → Except Halt β} (h : x.bind f = .ok y) :
    ∃ z, x = .ok z ∧ f z = .ok y := by
  cases x with
  | ok z => exact ⟨z, rfl, h⟩
  | error e => cases h

theorem map_eq_ok {x : Except Halt α} {f : α → β} (h : x.map f = .ok y) :
    ∃ z, x = .ok z ∧ f z = y := by
  cases x with
  | ok z => exact ⟨z, rfl, Except.ok.inj h⟩
  | error e => cases h

theorem orUsage_eq_ok {x : Option α} (h : orUsage x = .ok y) : x = some y := by
  cases x with
  | some z => exact congrArg some (Except.ok.inj h)
  | none => cases h

theorem derefArg_eq_ok {optarg : Option (List UInt8)} (h : derefArg optarg = .ok s) :
    optarg = some s := by
  cases optarg with
  | some t => exact congrArg some (Except.ok.inj h)
  | none => cases h

/-- The other options leave it alone which options are refused. -/
theorem applySwitch_refused (h : applySwitch v optarg o = .ok v') (ho : o ≠ .refuse) :
    v'.options.refused = v.options.refused := by
  cases o with
  | refuse => exact absurd rfl ho
  | version => cases h
  | mapFile =>
    simp only [applySwitch] at h
    split at h
    · cases h
    · cases h
      rfl
  | verbosity | timeout =>
    obtain ⟨s, -, rfl⟩ := map_eq_ok h
    rfl
  | blocksize =>
    obtain ⟨s, -, hs⟩ := bind_eq_ok h
    obtain ⟨cfg, hc, rfl⟩ := map_eq_ok hs
    have hsize := orUsage_eq_ok hc
    simp only [blocksizeOption] at hsize
    split at hsize
    · cases hsize
    · cases hsize
      rfl
  | retransmit | portRange | umask =>
    obtain ⟨s, -, hs⟩ := bind_eq_ok h
    obtain ⟨x, -, rfl⟩ := map_eq_ok hs
    rfl
  | _ =>
    cases h
    rfl

theorem applyOption_refused (hr : Refused (refusals rs) v.options)
    (h : applyOption v r = .ok v') : Refused (refusals (rs ++ [r])) v'.options := by
  rw [refusals, List.filterMap_append, List.filterMap_cons, List.filterMap_nil]
  rw [applyOption] at h
  by_cases ho : Switch.ofVal r.1 = some .refuse
  · rw [ho] at h
    obtain ⟨s, hs, hs'⟩ := bind_eq_ok h
    obtain ⟨cfg, hc, rfl⟩ := map_eq_ok hs'
    rw [if_pos ho, derefArg_eq_ok hs]
    exact hr.refuse (orUsage_eq_ok hc)
  · rw [if_neg ho, List.append_nil]
    have hsame : v'.options.refused = v.options.refused := by
      split at h
      · cases h
        rfl
      · rename_i o hval
        apply applySwitch_refused h
        rintro rfl
        exact ho hval
    refine ⟨hr.refusable, ?_⟩
    rw [hsame]
    exact hr.named

theorem applyOptions_refused (rs rs' : List (Nat × Option (List UInt8)))
    (hr : Refused (refusals rs) v.options) (h : rs'.foldlM applyOption v = .ok v') :
    Refused (refusals (rs ++ rs')) v'.options := by
  induction rs' generalizing v rs with
  | nil =>
    rw [List.append_nil]
    cases h
    exact hr
  | cons r rs' ih =>
    rw [List.foldlM_cons] at h
    obtain ⟨u, hu, hrest⟩ := bind_eq_ok h
    have hnext := ih (rs ++ [r]) (applyOption_refused hr hu) hrest
    rwa [List.append_assoc] at hnext

theorem mainStart_refused {host : Host ρ} (h : mainStart host a = .ok s) :
    Refused (refusals (optionLoop a).1) s.vars.options := by
  obtain ⟨v, hv, hc⟩ := bind_eq_ok h
  have hr := applyOptions_refused [] (optionLoop a).1 (refused_nil fun _ => rfl) hv
  split at hc
  · cases hc
  obtain ⟨_, -, hc⟩ := bind_eq_ok hc
  obtain ⟨user, -, hc⟩ := bind_eq_ok hc
  split at hc
  · cases hc
  obtain ⟨rules, -, rfl⟩ := map_eq_ok hc
  exact hr

end Loop

section Requests

variable {args : List (List UInt8)} {cfg : OptionConfig} {opt val : CString} {v v' : View}

/-- The same options, none of which is refused. -/
def OptionConfig.unrefusing (cfg : OptionConfig) : OptionConfig :=
  { cfg with refused := fun _ => false }

def ServerConfig.unrefusing (cfg : ServerConfig) : ServerConfig :=
  { cfg with options := cfg.options.unrefusing }

theorem supported_named (h : Refused args cfg) (hn : Named args opt.bytes) :
    supported cfg opt = none := by
  apply List.find?_eq_none.2
  intro name _ hname
  rw [Bool.and_eq_true, Bool.not_eq_true'] at hname
  obtain ⟨s, hs, hso⟩ := hn
  have hr := (h.named name).2 ⟨s, hs, strcaseEq_trans hso (strcaseEq_comm hname.2)⟩
  rw [hname.1] at hr
  cases hr

theorem supported_unnamed (h : Refused args cfg) (hn : ¬ Named args opt.bytes) :
    supported cfg opt = supported cfg.unrefusing opt := by
  have hp : (fun name : OptionName => !cfg.refused name && strcaseEq name.text opt.bytes) =
      fun name => !cfg.unrefusing.refused name && strcaseEq name.text opt.bytes := by
    funext name
    cases hname : strcaseEq name.text opt.bytes with
    | false => rw [Bool.and_false, Bool.and_false]
    | true =>
      have hr : cfg.refused name = false := by
        rw [Bool.eq_false_iff]
        intro hr
        obtain ⟨s, hs, hso⟩ := (h.named name).1 hr
        exact hn ⟨s, hs, strcaseEq_trans hso hname⟩
      rw [hr]
      rfl
  rw [supported, hp, supported]

theorem doOpt_named (h : Refused args cfg) (hn : Named args opt.bytes) (val : CString)
    (n : Negotiated) (o : Oack) : doOpt cfg opt val n o = .returned n.unset o := by
  apply doOpt_ignored
  rw [recognized, supported_named h hn]

theorem doOpt_unnamed (h : Refused args cfg) (hn : ¬ Named args opt.bytes) (val : CString)
    {n n' : Negotiated} (hu : n.unset = n'.unset) (o : Oack) :
    doOpt cfg opt val n o = doOpt cfg.unrefusing opt val n' o := by
  have hrec : recognized cfg opt val = recognized cfg.unrefusing opt val := by
    rw [recognized, supported_unnamed h hn, recognized]
  rw [doOpt_eq, doOpt_eq, hrec, hu]
  rfl

/-- Two requests have come to the same, but for the flag that each call of `do_opt` sets anew. -/
structure View.Same (v v' : View) : Prop where
  convert : v.convert = v'.convert
  fs : v.fs = v'.fs
  negotiated : v.negotiated.unset = v'.negotiated.unset
  oack : v.oack = v'.oack
  calls : v.calls = v'.calls

inductive Handled.Same : Handled → Handled → Prop where
  | stop (o : Outcome) (h : u.Same u') : Handled.Same (.stop o u) (.stop o u')
  | go (h : u.Same u') : Handled.Same (.go u) (.go u')

theorem Handled.Same.andThen {x x' : Handled} (h : x.Same x') {f f' : View → Handled}
    (hf : ∀ v v', v.Same v' → (f v).Same (f' v')) : (x.andThen f).Same (x'.andThen f') := by
  cases h with
  | stop o h => exact .stop o h
  | go h => exact hf _ _ h

theorem Handled.Same.conclude {x x' : Handled} (h : x.Same x') :
    x.conclude.1 = x'.conclude.1 ∧ x.conclude.2.Same x'.conclude.2 := by
  rw [conclude_snd, conclude_snd]
  cases h with
  | stop o h => exact ⟨rfl, h⟩
  | @go u u' h =>
    refine ⟨?_, h⟩
    simp only [Handled.conclude, h.convert, h.oack]
    cases u'.convert <;> rfl

theorem handleOption_named (h : Refused args cfg) (hn : Named args opt.bytes) (val : CString)
    (hv : v.Same v') : Handled.Same (handleOption cfg opt val v) (.go v') := by
  simp only [handleOption, doOpt_named h hn]
  exact .go ⟨hv.convert, hv.fs, hv.negotiated, hv.oack, hv.calls⟩

theorem handleOption_unnamed (h : Refused args cfg) (hn : ¬ Named args opt.bytes) (val : CString)
    (hv : v.Same v') :
    (handleOption cfg opt val v).Same (handleOption cfg.unrefusing opt val v') := by
  simp only [handleOption, doOpt_unnamed h hn val hv.negotiated, hv.oack]
  cases doOpt cfg.unrefusing opt val v'.negotiated v'.oack with
  | nak error msg => exact .stop _ ⟨hv.convert, hv.fs, hv.negotiated, rfl, hv.calls⟩
  | returned n o => exact .go ⟨hv.convert, hv.fs, rfl, rfl, hv.calls⟩

/-- A server that refuses options comes to the same as one that does not, and is not asked for
them. -/
theorem handlePairs_refused (h : Refused args cfg) (opts : List (CString × CString))
    (hv : v.Same v') : (handlePairs cfg opts v).Same
      (handlePairs cfg.unrefusing (opts.filter fun p => ¬ Named args p.1.bytes) v') := by
  induction opts generalizing v v' with
  | nil => exact .go hv
  | cons p opts ih =>
    by_cases hn : Named args p.1.bytes
    · have hrest := (handleOption_named h hn p.2 hv).andThen fun _ _ hsame => ih hsame
      rw [List.filter_cons_of_neg (by simp only [hn, not_true, decide_false, not_false_eq_true,
        Bool.false_eq_true])]
      exact hrest
    · rw [List.filter_cons_of_pos (by simp only [hn, not_false_eq_true, decide_true])]
      exact (handleOption_unnamed h hn p.2 hv).andThen fun _ _ hsame => ih hsame

theorem requestMeaning_refused {cfg : ServerConfig} (h : Refused args cfg.options) (k : Kernel)
    (opcode : UInt16) (name mode : CString) (opts : List (CString × CString)) (fs : FileSystem) :
    let r := requestMeaning cfg k opcode name mode opts fs
    let r' := requestMeaning cfg.unrefusing k opcode name mode
      (opts.filter fun p => ¬ Named args p.1.bytes) fs
    r.1 = r'.1 ∧ r.2.Same r'.2 := by
  simp only [requestMeaning]
  cases formatNamed mode with
  | none => exact ⟨rfl, rfl, rfl, rfl, rfl, rfl⟩
  | some convert =>
    dsimp only [ServerConfig.unrefusing]
    cases cfg.rewriteAccess name opcode with
    | error msg => exact ⟨rfl, rfl, rfl, rfl, rfl, rfl⟩
    | ok filename =>
      dsimp only [startView]
      cases (validateAccess cfg.access k opcode convert filename fs).result with
      | denied ecode msg => exact ⟨rfl, rfl, rfl, rfl, rfl, rfl⟩
      | exits => exact ⟨rfl, rfl, rfl, rfl, rfl, rfl⟩
      | granted tsize tsizeOk =>
        exact (handlePairs_refused h opts ⟨rfl, rfl, rfl, rfl, rfl⟩).conclude

end Requests

/-- What `-r` does: each of its arguments names another option, and a request is answered by the
server as one that does not come with these options is answered by a server that refuses none:
they are not acknowledged, and change nothing. -/
theorem refused_ignored (host : Host ρ) (a : Argv) (hm : mainStart host a = .ok s) :
    let args := refusals (optionLoop a).1
    Refusable args ∧ ∀ rewriteAccess k fs (m m' : Mem) opcode name mode opts tail,
      name ≠ .empty → mode ≠ .empty → (∀ p ∈ opts, p.1 ≠ .empty ∧ p.2 ≠ .empty) →
      (∀ opt, tail = .dangling opt → opt ≠ .empty) →
      let cfg := s.config rewriteAccess
      let bs := encodeRequest opcode name mode opts tail
      let bs' := encodeRequest opcode name mode (opts.filter fun p => ¬ Named args p.1.bytes) tail
      let r := handleRequest cfg k (m.store 0 bs) bs.length fs
      let r' := handleRequest cfg.unrefusing k (m'.store 0 bs') bs'.length fs
      r.1 = r'.1 ∧ r.2.Same r'.2 := by
  intro args
  have hr := mainStart_refused hm
  refine ⟨hr.refusable, ?_⟩
  intro rewriteAccess k fs m m' opcode name mode opts tail hname hmode hopts htail cfg bs bs' r r'
  have hr₁ : r = requestMeaning cfg k opcode name mode opts fs :=
    handleRequest_encodeRequest cfg k fs m opcode name mode opts tail hname hmode hopts htail
  have hr₂ : r' = requestMeaning cfg.unrefusing k opcode name mode
      (opts.filter fun p => ¬ Named args p.1.bytes) fs :=
    handleRequest_encodeRequest cfg.unrefusing k fs m' opcode name mode _ tail hname hmode
      (fun p hp => hopts p (List.mem_of_mem_filter hp)) htail
  rw [hr₁, hr₂]
  exact requestMeaning_refused hr k opcode name mode opts fs

/-- `tftpd -r BlkSize -s /tftp` -/
def refusingCommand : Argv :=
  .laidOut 8192 ([ascii ['t', 'f', 't', 'p', 'd'], ascii ['-', 'r'],
    ascii ['B', 'l', 'k', 'S', 'i', 'z', 'e'], ascii ['-', 's'],
    ascii ['/', 't', 'f', 't', 'p']].map CString.ofBytes) (by decide) (by decide)

theorem refusingCommand_ignored :
    ∃ s, mainStart plainHost refusingCommand = .ok s ∧ ∀ rewriteAccess k fs (m : Mem),
      let bs := encodeRequest RRQ fileName octetMode [blksizeOption 1024] .nothing
      let bs' := encodeRequest RRQ fileName octetMode [] .nothing
      let cfg := s.config rewriteAccess
      (handleRequest cfg k (m.store 0 bs) bs.length fs).1 =
        (handleRequest cfg.unrefusing k (m.store 0 bs') bs'.length fs).1 := by
  have hk : (mainStart plainHost refusingCommand).toOption.isSome = true := by decide +kernel
  cases hm : mainStart plainHost refusingCommand with
  | error e =>
    rw [hm] at hk
    cases hk
  | ok s =>
    refine ⟨s, rfl, ?_⟩
    intro rewriteAccess k fs m
    have hargs : refusals (optionLoop refusingCommand).1 =
        [ascii ['B', 'l', 'k', 'S', 'i', 'z', 'e']] := by decide +kernel
    obtain ⟨-, hr⟩ := refused_ignored plainHost refusingCommand hm
    rw [hargs] at hr
    have hnamed : Named [ascii ['B', 'l', 'k', 'S', 'i', 'z', 'e']] (blksizeOption 1024).1.bytes := by
      decide
    have hone := hr rewriteAccess k fs m m RRQ fileName octetMode [blksizeOption 1024] .nothing
      (by decide) (by decide) (by decide +kernel) nofun
    rw [List.filter_cons_of_neg (by simp only [hnamed, not_true, decide_false, not_false_eq_true,
      Bool.false_eq_true]), List.filter_nil] at hone
    exact hone.1

end WooTftpd
