import WooTftpd.BlockSize
import WooTftpd.CommandLine
import WooTftpd.ErrorPackets
import WooTftpd.PortSearch
import WooTftpd.RequestBytes

namespace WooTftpd
open Lib
set_option autoImplicit true

/-- The start of the server goes on with a value of which `P` holds, or exits. -/
def Proceeds (P : α → Prop) : Except Halt α → Prop
  | .ok x => P x
  | .error e => e ≠ .fault

namespace Proceeds

variable {P : α → Prop} {Q : β → Prop} {x : Except Halt α}

theorem bind (h : Proceeds P x) {f : α → Except Halt β} (hf : ∀ y, P y → Proceeds Q (f y)) :
    Proceeds Q (x.bind f) := by
  cases x with
  | ok y => exact hf y h
  | error e => exact h

theorem map (h : Proceeds P x) {f : α → β} (hf : ∀ y, P y → Q (f y)) : Proceeds Q (x.map f) := by
  cases x with
  | ok y => exact hf y h
  | error e => exact h

theorem orUsage {o : Option α} (h : ∀ y, o = some y → P y) : Proceeds P (orUsage o) := by
  cases o with
  | some y => exact h y rfl
  | none => exact Halt.noConfusion

theorem derefArg {o : Option (List UInt8)} (h : o.isSome) :
    Proceeds (fun s => o = some s) (derefArg o) := by
  cases o with
  | some s => rfl
  | none => cases h

theorem foldlM {f : α → γ → Except Halt α} (rs : List γ) {y : α} (hy : P y)
    (hf : ∀ y, ∀ r ∈ rs, P y → Proceeds P (f y r)) : Proceeds P (rs.foldlM f y) := by
  induction rs generalizing y with
  | nil => exact hy
  | cons r rs ih =>
    rw [List.foldlM_cons]
    refine (hf y r List.mem_cons_self hy).bind ?_
    intro z hz
    exact ih hz fun y' r' hr' => hf y' r' (List.mem_cons_of_mem r hr')

end Proceeds

/-- What holds of the variables whatever options were given. -/
structure Variables.Sound (v : Variables) : Prop where
  low : 512 ≤ v.options.maxBlksize
  high : v.options.maxBlksize ≤ maxSegsize
  settings : ∀ cfg, Settings cfg v.negotiated
  segsize : v.negotiated.segsize = 512
  ports : ∀ r, v.portrange = some r → r.1 ≤ r.2 ∧ r.2 < 65535
  user : v.user.isSome
  foreground : v.nodaemon → v.standalone

theorem Variables.Sound.initial : Variables.initial.Sound where
  low := by decide
  high := Nat.le_refl _
  settings := fun _ => .default
  segsize := rfl
  ports := nofun
  user := rfl
  foreground := id

theorem blocksizeOption_bounds {cfg cfg' : OptionConfig}
    (h : blocksizeOption optarg cfg = some cfg') :
    512 ≤ cfg'.maxBlksize ∧ cfg'.maxBlksize ≤ maxSegsize := by
  simp only [blocksizeOption] at h
  split at h
  · cases h
  · rename_i hr
    rw [not_or, not_or] at hr
    cases h
    exact ⟨Nat.le_of_not_lt hr.1, Nat.le_of_not_lt hr.2.1⟩

theorem rangeOption_bounds (h : rangeOption optarg = some r) : r.1 ≤ r.2 ∧ r.2 < 65535 := by
  simp only [rangeOption] at h
  split at h
  · cases h
  · split at h
    · cases h
    · rename_i hr
      rw [not_or] at hr
      cases h
      exact ⟨Nat.le_of_not_lt hr.1, Nat.lt_of_not_le hr.2⟩

theorem rexmtOption_segsize {n n' : Negotiated} (h : rexmtOption optarg n = some n') :
    n'.segsize = n.segsize := by
  simp only [rexmtOption] at h
  split at h
  · cases h
  · cases h
    rfl

theorem refuse_maxBlksize {cfg cfg' : OptionConfig} (h : cfg.refuse optarg = some cfg') :
    cfg'.maxBlksize = cfg.maxBlksize := by
  obtain ⟨o, -, rfl⟩ := Option.map_eq_some_iff.1 h
  rfl

/-- An option that has its argument keeps the variables sound, or ends the server. -/
theorem applySwitch_sound (h : v.Sound) (o : Switch) (ho : o.hasArg = true → optarg.isSome) :
    Proceeds Variables.Sound (applySwitch v optarg o) := by
  cases o with
  | ipv4 => exact { h with }
  | ipv6 => exact { h with }
  | create => exact { h with }
  | secure => exact { h with }
  | permissive => exact { h with }
  | verbose => exact { h with }
  | address => exact { h with }
  | pidfile => exact { h with }
  | version => exact Halt.noConfusion
  | listen => exact { h with foreground := fun _ => rfl }
  | foreground => exact { h with foreground := fun _ => rfl }
  | user => exact { h with user := ho rfl }
  | mapFile =>
    simp only [applySwitch]
    split
    · exact Halt.noConfusion
    · exact { h with }
  | verbosity => exact (Proceeds.derefArg (ho rfl)).map fun s _ => { h with }
  | timeout => exact (Proceeds.derefArg (ho rfl)).map fun s _ => { h with }
  | umask =>
    refine (Proceeds.derefArg (ho rfl)).bind fun s _ => ?_
    exact (Proceeds.orUsage fun m hm => hm).map fun m _ => { h with }
  | blocksize =>
    refine (Proceeds.derefArg (ho rfl)).bind fun s _ => ?_
    refine (Proceeds.orUsage fun cfg hc => blocksizeOption_bounds hc).map fun cfg hc => ?_
    exact { h with low := hc.1, high := hc.2 }
  | retransmit =>
    refine (Proceeds.derefArg (ho rfl)).bind fun s _ => ?_
    refine (Proceeds.orUsage fun n hn => hn).map fun n hn => ?_
    exact { h with
      settings := fun cfg => .commandLine (h.settings cfg) hn
      segsize := (rexmtOption_segsize hn).trans h.segsize }
  | portRange =>
    refine (Proceeds.derefArg (ho rfl)).bind fun s _ => ?_
    refine (Proceeds.orUsage fun r hr => rangeOption_bounds hr).map fun r hr => ?_
    refine { h with ports := ?_ }
    rintro _ ⟨⟩
    exact hr
  | refuse =>
    refine (Proceeds.derefArg (ho rfl)).bind fun s _ => ?_
    refine (Proceeds.orUsage fun cfg hc => refuse_maxBlksize hc).map fun cfg hc => ?_
    exact { h with low := hc.symm ▸ h.low, high := hc.symm ▸ h.high }

theorem Switch.ofVal_val (o : Switch) : ofVal o.val = some o := by
  cases o <;> rfl

section Calls

variable {a : Argv} {s s' : Getopt}

/-- What a call returned is an option with its argument, if it is one that takes an argument. -/
def Supplied (c : Nat) (optarg : Option Place) : Prop :=
  ∀ o, Switch.ofVal c = some o → o.hasArg = true → optarg.isSome

theorem Supplied.some (c : Nat) (p : Place) : Supplied c (some p) := fun _ _ _ => rfl

theorem Supplied.unknown (optarg : Option Place) : Supplied questionMark optarg := by
  intro o ho
  cases ho

theorem Supplied.flag (h : (Switch.ofVal c).all fun o => !o.hasArg) (optarg : Option Place) :
    Supplied c optarg := by
  intro o ho harg
  rw [ho, Option.all_some, harg] at h
  cases h

theorem longOptions_flag (h : lo ∈ longOptions) (hn : lo.hasArg ≠ 1) (optarg : Option Place) :
    lo.hasArg = 0 ∧ Supplied lo.val optarg := by
  obtain ⟨o, -, rfl⟩ := List.mem_map.1 h
  cases ho : o.hasArg with
  | true => exact absurd (if_pos ho) hn
  | false =>
    refine ⟨rfl, Supplied.flag ?_ optarg⟩
    rw [Switch.ofVal_val, Option.all_some, ho]
    rfl

theorem shortOptions_flag (hc : c ≠ colonSign) (h : strchr c shortOptions = some t)
    (ht : t[1]? ≠ some colonSign) (optarg : Option Place) : Supplied c.toNat optarg := by
  have hall : ∀ c ∈ shortOptions, c ≠ colonSign →
      (strchr c shortOptions).any (fun t => t[1]? ≠ some colonSign) →
        (Switch.ofVal c.toNat).all fun o => !o.hasArg :=
    List.forall_iff_forall_mem.1 (by decide)
  have hmem : c ∈ shortOptions := by
    by_contra hno
    have hdrop : shortOptions.dropWhile (· ≠ c) = [] := by
      rw [List.dropWhile_eq_nil_iff]
      intro x hx
      rw [decide_eq_true_iff]
      rintro rfl
      exact hno hx
    rw [strchr, hdrop] at h
    cases h
  refine Supplied.flag (hall c hmem hc ?_) optarg
  rw [h, Option.any_some, decide_eq_true_iff]
  exact ht

theorem getoptShort_supplied (hc : getoptShort shortOptions a s = (some c, s')) :
    Supplied c s'.optarg := by
  simp only [getoptShort] at hc
  generalize (if a.stale s.optptr s.optind = true then (⟨s.optind, 1⟩ : Place)
    else s.optptr.getD ⟨s.optind, 1⟩) = p at hc
  split at hc
  · cases hc
    exact .unknown _
  · rename_i t ht
    obtain ⟨hcolon, hfind⟩ : ¬ a.char p = colonSign ∧ strchr (a.char p) shortOptions = some t := by
      split at ht
      · cases ht
      · rename_i hno
        exact ⟨hno, ht⟩
    split at hc
    · split at hc
      · cases hc
        exact .some _ _
      · split at hc
        · cases hc
          exact .some _ _
        · cases hc
          exact .unknown _
    · rename_i hkind
      cases hc
      exact shortOptions_flag hcolon hfind hkind _

theorem getoptLongWord_supplied (hc : getoptLongWord longOptions a s = (some c, s')) :
    Supplied c s'.optarg := by
  simp only [getoptLongWord] at hc
  split at hc
  · cases hc
  split at hc
  · cases hc
    exact .unknown _
  rename_i lo n hl
  have hmem : lo ∈ longOptions := by
    obtain ⟨lo', hlo', hm⟩ := List.exists_of_findSome?_eq_some hl
    obtain ⟨n', -, he⟩ := Option.map_eq_some_iff.1 hm
    cases he
    exact hlo'
  split at hc
  · split at hc
    · cases hc
      exact .some _ _
    · cases hc
      exact .unknown _
  split at hc
  · split at hc
    · cases hc
      exact .some _ _
    · cases hc
      exact .unknown _
  · rename_i hkind
    cases hc
    exact (longOptions_flag hmem hkind _).2

theorem getoptLong_supplied (hc : getoptLong shortOptions longOptions a s = (some c, s')) :
    Supplied c s'.optarg := by
  simp only [getoptLong] at hc
  generalize (if s.optind < 1 ∨ a.argc < s.optind then { s with optind := 1, optptr := none }
    else s) = u at hc
  split at hc
  · cases hc
  split at hc
  · exact getoptLongWord_supplied hc
  · exact getoptShort_supplied hc

theorem getoptRun_supplied (n : Nat) (s : Getopt) :
    ∀ r ∈ (getoptRun shortOptions longOptions a n s).1, ∀ o, Switch.ofVal r.1 = some o →
      o.hasArg = true → r.2.isSome := by
  induction n generalizing s with
  | zero => exact List.forall_mem_nil _
  | succ n ih =>
    rw [getoptRun]
    split
    · exact List.forall_mem_nil _
    · rename_i c s' hc
      rw [List.forall_mem_cons]
      refine ⟨?_, ih s'⟩
      intro o ho harg
      rw [Option.isSome_map]
      exact getoptLong_supplied hc o ho harg

/-- The variable `optind` is never more than `argc`. -/
theorem Reads.optind_le (h : Reads a s n) : s.optind ≤ a.argc := by
  cases h with
  | between h hi hn => exact h.optind ▸ hi
  | within h hw hoff hn => exact h.optind ▸ Nat.le_of_lt hw.lt

theorem getoptShort_ne_none (optstring : List UInt8) (a : Argv) (s : Getopt) :
    (getoptShort optstring a s).1 ≠ none := by
  simp only [getoptShort]
  repeat' split
  all_goals exact Option.some_ne_none _

theorem getoptLongWord_none (hc : getoptLongWord longopts a s = (none, s')) :
    s'.optind = s.optind + 1 := by
  simp only [getoptLongWord] at hc
  repeat' split at hc
  all_goals cases hc
  rfl

/-- The call that returns -1 does not go beyond the last word. -/
theorem getoptLong_none (h : Reads a s n) (hc : getoptLong optstring longopts a s = (none, s')) :
    s'.optind ≤ a.argc := by
  cases h with
  | within h hw hoff =>
    rw [h.getoptLong hw] at hc
    exact absurd (congrArg Prod.fst hc) (getoptShort_ne_none _ _ _)
  | @between i h hi =>
    rw [getoptLong_started _ _ (h.optind ▸ h.pos) (h.optind ▸ hi), h.optind] at hc
    split at hc
    · cases hc
      exact h.optind ▸ hi
    split at hc
    · rename_i hlong
      have hlt : i < a.argc := by
        apply Argv.text_ne_nil
        intro hnil
        rw [hnil] at hlong
        cases hlong
      rw [getoptLongWord_none hc, h.optind]
      exact hlt
    · exact absurd (congrArg Prod.fst hc) (getoptShort_ne_none _ _ _)

theorem getoptRun_optind_le (h : Reads a s n) (optstring : List UInt8)
    (longopts : List LongOption) (m : Nat) :
    (getoptRun optstring longopts a m s).2.optind ≤ a.argc := by
  induction m generalizing s n with
  | zero => exact h.optind_le
  | succ m ih =>
    rw [getoptRun]
    cases hcall : getoptLong optstring longopts a s with
    | mk r s' =>
      cases r with
      | none => exact getoptLong_none h hcall
      | some c =>
        rcases getoptLong_reads h optstring longopts with hn | ⟨c', u, k, hc, -, hr⟩
        · rw [hcall] at hn
          cases hn
        · rw [hcall] at hc
          cases hc
          exact ih hr

end Calls

theorem optionLoop_reads (h : 1 ≤ a.argc) :
    (optionLoop a).2.optind ≤ a.argc ∧
      ∀ r ∈ (optionLoop a).1, ∀ o, Switch.ofVal r.1 = some o → o.hasArg = true → r.2.isSome := by
  have hreads : Reads a .first (a.rest 1) := .between (between_first a) h (Nat.le_refl _)
  refine ⟨?_, getoptRun_supplied _ _⟩
  rw [optionLoop, getoptRun_start _ _ h]
  exact getoptRun_optind_le hreads _ _ _

/-- A server that was started: the variables are sound, and what its user asked for was there. -/
structure Started.Sound (host : Host ρ) (s : Started ρ) : Prop where
  vars : s.vars.Sound
  secured : s.vars.secure → ∃ d, s.dirs = [d] ∧ host.chdir d.bytes
  user : ∃ u, s.vars.user = some u ∧ host.knowsUser u
  rules : s.rules.isSome = s.vars.rewriteFile.isSome
  pidfile : s.vars.pidfile.isSome → s.vars.standalone

theorem enterDirectory_secured (host : Host ρ) (v : Variables) (dirs : List CString) :
    Proceeds (fun _ => v.secure → ∃ d, dirs = [d] ∧ host.chdir d.bytes)
      (enterDirectory host v dirs) := by
  unfold enterDirectory
  by_cases hs : v.secure
  · rw [if_pos hs]
    match dirs with
    | [] => exact Halt.noConfusion
    | _ :: _ :: _ => exact Halt.noConfusion
    | [d] =>
      dsimp only
      by_cases hd : host.chdir d.bytes
      · rw [if_pos hd]
        exact fun _ => ⟨d, rfl, hd⟩
      · rw [if_neg hd]
        exact Halt.noConfusion
  · rw [if_neg hs]
    exact fun h => absurd h hs

theorem readRules_given (host : Host ρ) (file : Option (List UInt8)) :
    Proceeds (fun rules => rules.isSome = file.isSome) (readRules host file) := by
  cases file with
  | none => exact rfl
  | some file =>
    rw [readRules]
    split
    · exact Halt.noConfusion
    · exact rfl

theorem checkStart_sound (host : Host ρ) (h : v.Sound) (dirs : List CString) :
    Proceeds (Started.Sound host) (checkStart host v dirs) := by
  refine (enterDirectory_secured host v dirs).bind fun _ hs => ?_
  refine (Proceeds.derefArg h.user).bind fun user hu => ?_
  split
  · exact Halt.noConfusion
  · rename_i hknown
    rw [Bool.not_eq_true, Bool.not_eq_false'] at hknown
    refine (readRules_given host v.rewriteFile).map fun rules hr => ?_
    refine ⟨{ h with }, hs, ⟨user, hu, hknown⟩, hr, ?_⟩
    intro hp
    by_contra hno
    dsimp only at hp hno
    rw [if_neg hno] at hp
    cases hp

theorem mainStart_proceeds (host : Host ρ) (a : Argv) (h : 1 ≤ a.argc) :
    Proceeds (Started.Sound host) (mainStart host a) := by
  obtain ⟨hle, hsupplied⟩ := optionLoop_reads h
  have hvars : Proceeds Variables.Sound ((optionLoop a).1.foldlM applyOption .initial) := by
    apply Proceeds.foldlM _ Variables.Sound.initial
    intro v r hr hv
    rw [applyOption]
    split
    · exact hv
    · rename_i o ho
      exact applySwitch_sound hv o (hsupplied r hr o ho)
  refine hvars.bind fun v hv => ?_
  rw [if_neg (Nat.not_lt_of_le hle)]
  exact checkStart_sound host hv _

theorem started_sound (h : 1 ≤ a.argc) (hm : mainStart host a = .ok s) : s.Sound host := by
  have hp := mainStart_proceeds host a h
  rw [hm] at hp
  exact hp

/-- Whatever the command line is, the start of the server does not go through a null pointer or
past the last word, and the server that comes out of it is sound. -/
theorem mainStart_sound (host : Host ρ) (a : Argv) (h : 1 ≤ a.argc) :
    mainStart host a ≠ .error .fault ∧ ∀ s, mainStart host a = .ok s → s.Sound host := by
  refine ⟨?_, fun s hm => started_sound h hm⟩
  intro hm
  have hp := mainStart_proceeds host a h
  rw [hm] at hp
  exact hp rfl

def Started.portRange (s : Started ρ) : Nat × Nat := s.vars.portrange.getD (0, 0)

/-- A host with one directory and one user, and without a map file. -/
def plainHost : Host Unit where
  chdir := fun d => d = ascii ['/', 't', 'f', 't', 'p']
  knowsUser := fun u => u = ascii ['n', 'o', 'b', 'o', 'd', 'y']
  map := fun _ => .error EX_NOINPUT

/-- `tftpd -ls -B 1024 --port-range=4000:4010 /tftp` -/
def plainCommand : Argv :=
  .laidOut 4096 ([ascii ['t', 'f', 't', 'p', 'd'], ascii ['-', 'l', 's'], ascii ['-', 'B'],
    ascii ['1', '0', '2', '4'],
    ascii ['-', '-', 'p', 'o', 'r', 't', '-', 'r', 'a', 'n', 'g', 'e', '=', '4', '0', '0', '0', ':',
      '4', '0', '1', '0'],
    ascii ['/', 't', 'f', 't', 'p']].map CString.ofBytes) (by decide) (by decide)

theorem plainCommand_started : ∃ s, mainStart plainHost plainCommand = .ok s ∧
    s.vars.options.maxBlksize = 1024 ∧ s.portRange = (4000, 4010) := by
  have hk : (mainStart plainHost plainCommand).toOption.map
      (fun s => (s.vars.options.maxBlksize, s.portRange)) = some (1024, 4000, 4010) := by
    decide +kernel
  cases hm : mainStart plainHost plainCommand with
  | error e =>
    rw [hm] at hk
    cases hk
  | ok s =>
    rw [hm] at hk
    have hp : (s.vars.options.maxBlksize, s.portRange) = (1024, 4000, 4010) := Option.some.inj hk
    exact ⟨s, rfl, congrArg Prod.fst hp, congrArg Prod.snd hp⟩

theorem plainCommand_sound :
    ∃ s, mainStart plainHost plainCommand = .ok s ∧ s.Sound plainHost := by
  obtain ⟨s, hm, -⟩ := plainCommand_started
  exact ⟨s, hm, (mainStart_sound plainHost plainCommand (by decide)).2 s hm⟩

section Requests

variable {cfg : ServerConfig} {P : View → Prop}

def Handled.view : Handled → View
  | .stop _ v => v
  | .go v => v

theorem Handled.view_andThen {x : Handled} (h : P x.view) {f : View → Handled}
    (hf : ∀ v, P v → P (f v).view) : P (x.andThen f).view := by
  cases x with
  | stop o v => exact h
  | go v => exact hf v h

theorem Handled.conclude_snd (x : Handled) : x.conclude.2 = x.view := by
  cases x with
  | stop o v => rfl
  | go v =>
    simp only [Handled.conclude, Handled.view]
    cases v.convert <;> rfl

theorem view_finish (cut : Bool) (v : View) : (finish cut v).view = v := by
  cases cut <;> rfl

theorem handleOptions_view {options : OptionConfig}
    (hopt : ∀ opt val v, P v → P (handleOption options opt val v).view)
    (pending : Option CString) (ss : List CString) (v : View) (hv : P v) :
    P (handleOptions options pending ss v).view := by
  induction ss generalizing pending v with
  | nil =>
    cases pending <;> exact hv
  | cons s ss ih =>
    cases pending with
    | none => exact ih (some s) v hv
    | some opt => exact Handled.view_andThen (hopt opt s v hv) (ih none)

/-- What holds when a request comes in, and is kept by its mode and by each of its options, holds
when it has been handled. -/
theorem handleRequest_view (k : Kernel) (buf : Mem) (size : Nat) (fs : FileSystem)
    (hs : P (startView cfg fs))
    (hmode : ∀ name mode : CString,
      mappedName buf size = (selectFormat (mode.bytes.map tolower)).map (fun _ => name) →
      P (handleMode cfg k (thOpcode buf) name mode (startView cfg fs)).view)
    (hopt : ∀ opt val v, P v → P (handleOption cfg.options opt val v).view) :
    P (handleRequest cfg k buf size fs).2 := by
  obtain ⟨ss, cut, hscan⟩ := exists_scanned buf size 2
  rw [handleRequest_strings cfg k fs hscan, Handled.conclude_snd]
  apply Handled.view_andThen
  · match ss with
    | [] => exact hs
    | [_] => exact hs
    | name :: mode :: ss =>
      exact Handled.view_andThen (hmode name mode hscan.mappedName)
        (handleOptions_view hopt none ss)
  · intro v hv
    rwa [view_finish]

/-- The parameters of a request that have come about under the options of the server. -/
structure Permitted (cfg : OptionConfig) (v : View) : Prop where
  segsize : SegsizeBound cfg v.negotiated
  settings : Settings cfg v.negotiated

theorem Permitted.option (hmax : 8 ≤ cfg.options.maxBlksize) (opt val : CString) (v : View)
    (h : Permitted cfg.options v) :
    Permitted cfg.options (handleOption cfg.options opt val v).view := by
  simp only [handleOption]
  cases hd : doOpt cfg.options opt val v.negotiated v.oack with
  | nak error msg => exact ⟨h.segsize, h.settings⟩
  | returned n o =>
    have hds : doOpts cfg.options [(opt, val)] v.negotiated v.oack = .returned n o := by
      simp only [doOpts, hd]
    exact ⟨doOpts_segsize_bound hmax [(opt, val)] h.segsize hds, .option h.settings hd⟩

theorem Permitted.mode (k : Kernel) (opcode : UInt16) (name mode : CString) (v : View)
    (h : Permitted cfg.options v) :
    Permitted cfg.options (handleMode cfg k opcode name mode v).view := by
  simp only [handleMode]
  repeat' split
  all_goals try exact ⟨h.segsize, h.settings⟩
  exact ⟨⟨h.segsize.low, h.segsize.high⟩, .file h.settings _ _⟩

theorem handleDatagram_permitted (hc : SegsizeBound cfg.options cfg.negotiated)
    (hs : Settings cfg.options cfg.negotiated) (k : Kernel) (buf : Mem) (n : Nat)
    (fs : FileSystem) : Permitted cfg.options (handleDatagram cfg k buf n fs).2 := by
  have hstart : Permitted cfg.options (startView cfg fs) := ⟨hc, hs⟩
  have hmax : 8 ≤ cfg.options.maxBlksize := Nat.le_trans hc.low hc.high
  rw [handleDatagram]
  split
  · exact handleRequest_view k buf n fs hstart
      (fun name mode _ => Permitted.mode k _ name mode _ hstart) (Permitted.option hmax)
  · exact hstart

end Requests

section Ports

theorem nextPort_inside (h : low ≤ high) (hp : low ≤ port) :
    low ≤ nextPort low high port ∧ nextPort low high port ≤ high := by
  rw [nextPort]
  split
  · exact ⟨Nat.le_refl _, h⟩
  · omega

theorem mem_port (hmax : high < 65535) (hp : low ≤ port ∧ port ≤ high) :
    ∀ p ∈ [UInt16.ofNat port], low ≤ p.toNat ∧ p.toNat ≤ high := by
  intro p hmem
  have hlt : port < UInt16.size := Nat.lt_of_le_of_lt hp.2 (Nat.lt_succ_of_lt hmax)
  rw [List.mem_singleton.1 hmem, UInt16.toNat_ofNat_of_lt' hlt]
  exact hp

theorem bindPorts_inside (bind : UInt16 → Bind) (portRange : Bool) (first fuel : Nat)
    (h : low ≤ high) (hmax : high < 65535) (hp : low ≤ port ∧ port ≤ high)
    (hb : bindPorts bind portRange low high first fuel port = some (ports, result)) :
    ∀ p ∈ ports, low ≤ p.toNat ∧ p.toNat ≤ high := by
  induction fuel generalizing port ports result with
  | zero => cases hb
  | succ fuel ih =>
    simp only [bindPorts] at hb
    split at hb
    · cases hb
      exact mem_port hmax hp
    split at hb
    · cases hb
      exact mem_port hmax hp
    split at hb
    · cases hb
      exact mem_port hmax hp
    · obtain ⟨r, hr, he⟩ := Option.map_eq_some_iff.1 hb
      cases he
      have hrest := ih (nextPort_inside h hp.1) hr
      exact List.forall_mem_cons.2 ⟨mem_port hmax hp _ List.mem_cons_self, hrest⟩

theorem bindPorts_single {bind : UInt16 → Bind}
    (hb : bindPorts bind false low high first fuel port = some (ports, result)) :
    ports = [.ofNat port] := by
  cases fuel with
  | zero => cases hb
  | succ fuel =>
    simp only [bindPorts, Bool.false_and, Bool.not_false, if_true] at hb
    split at hb
    · cases hb
      rfl
    · cases hb
      rfl

/-- The ports of the range are tried, or port 0 if the range does not begin above it. -/
theorem pickPortBind_inside (bind : UInt16 → Bind) (rand fuel : Nat) (h : low ≤ high)
    (hmax : high < 65535) (hb : pickPortBind bind rand low high fuel = some (ports, result)) :
    ∀ p ∈ ports, if low = 0 then p = 0 else low ≤ p.toNat ∧ p.toNat ≤ high := by
  rw [pickPortBind] at hb
  by_cases hz : low = 0
  · have hrange : decide (low ≠ 0 ∧ high ≠ 0) = false := decide_eq_false fun hr => hr.1 hz
    rw [hrange, if_neg Bool.false_ne_true] at hb
    intro p hp
    rw [bindPorts_single hb] at hp
    rw [if_pos hz, List.mem_singleton.1 hp]
    rfl
  · have hrange : decide (low ≠ 0 ∧ high ≠ 0) = true := decide_eq_true (by omega)
    rw [hrange, if_pos rfl] at hb
    have hfirst := walkPort_bounds (x := rand) h 0
    simp only [if_neg hz]
    exact bindPorts_inside bind true _ fuel h hmax hfirst hb

end Ports

theorem Started.Sound.portRange (h : Started.Sound host s) :
    s.portRange.1 ≤ s.portRange.2 ∧ s.portRange.2 < 65535 := by
  rw [Started.portRange]
  cases hr : s.vars.portrange with
  | none => decide
  | some r => exact h.vars.ports r hr

theorem Started.Sound.permitted (h : Started.Sound host s)
    (rewriteAccess : CString → UInt16 → Except (Option String) CString) (k : Kernel) (buf : Mem)
    (n : Nat) (fs : FileSystem) :
    Permitted s.vars.options (handleDatagram (s.config rewriteAccess) k buf n fs).2 :=
  have hbound : SegsizeBound (s.config rewriteAccess).options (s.config rewriteAccess).negotiated :=
    ⟨h.vars.segsize ▸ by decide, h.vars.segsize ▸ h.vars.low⟩
  handleDatagram_permitted hbound (h.vars.settings _) k buf n fs

/-- Whatever a client asks for, it is served within the limits of the command line: blocks of 8
bytes up to the size of `-B`, an interval as the retry budget knows it, and a port of the range
of `-R`. -/
theorem mainStart_requests (host : Host ρ) (a : Argv) (h : 1 ≤ a.argc)
    (hm : mainStart host a = .ok s) :
    (∀ rewriteAccess k buf n fs,
      let v := (handleDatagram (s.config rewriteAccess) k buf n fs).2
      8 ≤ v.negotiated.segsize ∧ v.negotiated.segsize ≤ s.vars.options.maxBlksize ∧
        s.vars.options.maxBlksize ≤ maxSegsize ∧ v.negotiated.HasInterval) ∧
      ∀ bind rand fuel ports result,
        pickPortBind bind rand s.portRange.1 s.portRange.2 fuel = some (ports, result) →
        ∀ p ∈ ports, if s.portRange.1 = 0 then p = 0
          else s.portRange.1 ≤ p.toNat ∧ p.toNat ≤ s.portRange.2 := by
  have hsound := started_sound h hm
  constructor
  · intro rewriteAccess k buf n fs
    have hp := hsound.permitted rewriteAccess k buf n fs
    exact ⟨hp.segsize.low, hp.segsize.high, hsound.vars.high, hp.settings.interval⟩
  · intro bind rand fuel ports result hb
    obtain ⟨hle, hmax⟩ := hsound.portRange
    exact pickPortBind_inside bind rand fuel hle hmax hb

theorem plainCommand_requests : ∃ s, mainStart plainHost plainCommand = .ok s ∧
    (∀ rewriteAccess k buf n fs,
      (handleDatagram (s.config rewriteAccess) k buf n fs).2.negotiated.segsize ≤ 1024) ∧
    ∀ bind rand fuel ports result,
      pickPortBind bind rand 4000 4010 fuel = some (ports, result) →
      ∀ p ∈ ports, 4000 ≤ p.toNat ∧ p.toNat ≤ 4010 := by
  obtain ⟨s, hm, hb, hr⟩ := plainCommand_started
  obtain ⟨hreq, hports⟩ := mainStart_requests plainHost plainCommand (by decide) hm
  rw [hr] at hports
  refine ⟨s, hm, ?_, hports⟩
  intro rewriteAccess k buf n fs
  rw [← hb]
  exact (hreq rewriteAccess k buf n fs).2.1

end WooTftpd
