import WooTftpd.AbortMessage
import WooTftpd.Recvfile
import WooTftpd.Reference
import WooTftpd.RequestParse
import WooTftpd.Sendfile

namespace WooTftpd
open Lib
set_option autoImplicit true

def EUNDEF : Nat := 0

def errmsgs : List String :=
  ["Undefined error code", "File not found", "Access denied", "Disk full or allocation exceeded",
    "Illegal TFTP operation", "Unknown transfer ID", "File already exists", "No such user",
    "Failure to negotiate RFC2347 options"]

/-- A message as the string of C that it stands for: each character is one byte. -/
def messageText (msg : String) : CString := .ofBytes (msg.toList.map Char.toUInt8)

def messageOf (s : CString) : String := .ofList (s.bytes.map Char.ofUInt8)

/-- The packet of `nak`: a code from 100 on is that of an error of the system. -/
def nak (strerror : Nat → CString) (error : Nat) (msg : Option String) : List UInt8 :=
  let r : Nat × CString :=
    if 100 ≤ error then (EUNDEF, (msg.map messageText).getD (strerror (error - 100)))
    else
      let error := if errmsgs.length ≤ error then EUNDEF else error
      (error, messageText (msg.getD (errmsgs.getD error "")))
  tftphdr ERROR (.ofNat r.1) ++ r.2.bytes ++ [NUL]

/-- An ERROR packet as it should be, which fits into `buf`. -/
structure GoodError (p : List UInt8) : Prop where
  wellFormed : ∃ (code : Nat) (text : CString), code ≤ 8 ∧
    p = tftphdr ERROR (.ofNat code) ++ text.bytes ++ [NUL]
  fits : p.length ≤ pktsize

def Brief (msg : Option String) : Prop := ∀ m, msg = some m → (messageText m).length ≤ pktsize - 5

theorem messageText_messageOf (s : CString) : messageText (messageOf s) = s := by
  have hbytes : (s.bytes.map Char.ofUInt8).map Char.toUInt8 = s.bytes := by
    rw [List.map_map]
    exact List.map_id'' (fun b => UInt8.toUInt8_toUInt32 b) _
  rw [messageText, messageOf, String.toList_ofList, hbytes]
  exact CString.ofBytes_bytes s

theorem errmsgs_brief (h : error < errmsgs.length) :
    (messageText (errmsgs.getD error "")).length ≤ pktsize - 5 := by
  have hall : ∀ m ∈ errmsgs, (messageText m).length ≤ pktsize - 5 := by decide
  rw [List.getD_eq_getElem _ _ h]
  exact hall _ (List.getElem_mem h)

theorem length_nak (code : UInt16) (text : CString) :
    (tftphdr ERROR code ++ text.bytes ++ [NUL]).length ≤ pktsize ↔ text.length ≤ pktsize - 5 := by
  rw [List.length_append, List.length_append, length_tftphdr, List.length_singleton]
  change 4 + text.length + 1 ≤ 65468 ↔ text.length ≤ 65463
  omega

/-- The packet is always well formed; it fits if a message of its own does. -/
theorem nak_good_iff (strerror : Nat → CString) (hs : ∀ e, (strerror e).length < 1024)
    (error : Nat) (msg : Option String) : GoodError (nak strerror error msg) ↔ Brief msg := by
  have hform (code : Nat) (text : CString) (hcode : code ≤ 8)
      (hbrief : text.length ≤ pktsize - 5 ↔ Brief msg) :
      GoodError (tftphdr ERROR (.ofNat code) ++ text.bytes ++ [NUL]) ↔ Brief msg := by
    constructor
    · intro h
      exact hbrief.1 ((length_nak _ text).1 h.fits)
    · intro h
      exact ⟨⟨code, text, hcode, rfl⟩, (length_nak _ text).2 (hbrief.2 h)⟩
  have hsome (m : String) : (messageText m).length ≤ pktsize - 5 ↔ Brief (some m) := by
    constructor
    · rintro h _ ⟨⟩
      exact h
    · intro h
      exact h m rfl
  have hnone (text : CString) (h : text.length ≤ pktsize - 5) :
      text.length ≤ pktsize - 5 ↔ Brief none := iff_of_true h nofun
  simp only [nak]
  split
  · apply hform _ _ (Nat.zero_le 8)
    cases msg with
    | none =>
      have hle : 1024 ≤ pktsize - 5 := by decide
      exact hnone _ (Nat.le_of_lt (Nat.lt_of_lt_of_le (hs _) hle))
    | some m => exact hsome m
  · have hlt : (if errmsgs.length ≤ error then EUNDEF else error) < errmsgs.length := by
      split
      · decide
      · exact Nat.lt_of_not_le ‹_›
    apply hform _ _ (Nat.le_of_lt_succ hlt)
    cases msg with
    | none => exact hnone _ (errmsgs_brief hlt)
    | some m => exact hsome m

theorem brief_none : Brief none := nofun

theorem brief_some (h : (messageText m).length ≤ pktsize - 5) : Brief (some m) := by
  rintro _ ⟨⟩
  exact h

theorem doOpt_brief (h : doOpt cfg opt val n o = .nak error msg) :
    Brief (some msg) := by
  simp only [doOpt] at h
  repeat' split at h
  all_goals cases h
  · exact brief_some (by decide)
  · exact brief_some (by decide)

theorem nameError_brief (h : nameError cfg filename = some msg) : Brief (some msg) := by
  simp only [nameError] at h
  repeat' split at h
  all_goals cases h
  · exact brief_some (by decide)
  · exact brief_some (by decide)
  · exact brief_some (by decide)

theorem validateAccess_brief
    (h : (validateAccess cfg k mode convert filename fs).result = .denied ecode msg) :
    Brief msg := by
  simp only [validateAccess, accessFile, checkFile] at h
  repeat' split at h
  all_goals cases h
  · exact nameError_brief ‹_›
  · exact brief_none
  · exact brief_some (by decide)
  · exact brief_some (by decide)
  · exact brief_some (by decide)

section Request

variable {cfg : ServerConfig} {k : Kernel} {buf : Mem} {size : Nat} {fs : FileSystem}

/-- The name that the mapping rules are evaluated for: that of a request whose mode is known. -/
def mappedName (buf : Mem) (size : Nat) : Option CString :=
  match requestHead buf size with
  | none => none
  | some (name, mode) => (selectFormat (mode.map tolower)).map fun _ => name

theorem exists_scanned (buf : Mem) (size cp : Nat) : ∃ ss cut, Scanned buf size cp ss cut := by
  induction hn : size - cp using Nat.strong_induction_on generalizing cp with
  | _ n ih =>
    by_cases hc : cp < size ∧ buf cp ≠ 0
    · by_cases hs : buf (scanString buf (size - (cp + 1)) (cp + 1)) = 0
      · have hstop : stringEnd buf size cp =
            some (scanString buf (size - (cp + 1)) (cp + 1)) := by
          simp only [stringEnd, hs, if_true]
          exact if_pos hc
        obtain ⟨hlt, _⟩ := lt_stringEnd hstop
        have hless : size - (scanString buf (size - (cp + 1)) (cp + 1) + 1) < n := by omega
        obtain ⟨ss, cut, hss⟩ := ih _ hless _ rfl
        exact ⟨_, cut, .string hstop hss⟩
      · exact ⟨[], true, .unterminated hc hs⟩
    · exact ⟨[], false, .done hc⟩

theorem Scanned.stringEnd_none (h : Scanned buf size cp [] cut) : stringEnd buf size cp = none := by
  cases h with
  | done hd => exact if_neg hd
  | unterminated hc hs =>
    simp only [stringEnd, if_neg hs]
    exact ite_self _

/-- The name and the mode are the first two strings. -/
theorem Scanned.mappedName (h : Scanned buf size 2 ss cut) :
    mappedName buf size =
      match ss with
      | name :: mode :: _ => (selectFormat (mode.bytes.map tolower)).map fun _ => name
      | _ => none := by
  cases ss with
  | nil => simp only [WooTftpd.mappedName, requestHead, h.stringEnd_none]
  | cons name ss =>
    cases h with
    | string hstop hs =>
      cases ss with
      | nil => simp only [WooTftpd.mappedName, requestHead, hstop, hs.stringEnd_none]
      | cons mode ss =>
        cases hs with
        | string hstop' hs' =>
          simp only [WooTftpd.mappedName, requestHead, hstop, hstop', stringAt_bytes hstop']

/-- The messages of the calls of `nak` that this may be. -/
def Handled.Naks (x : Handled) (P : Option String → Prop) : Prop :=
  ∀ error msg v, x = .stop (.nak error msg) v → P msg

theorem Handled.Naks.andThen {x : Handled} (h : x.Naks P) (hf : ∀ v, (f v).Naks P) :
    (x.andThen f).Naks P := by
  cases x with
  | stop o v => exact h
  | go v => exact hf v

theorem handleOptions_brief (cfg : OptionConfig) (pending : Option CString) (ss : List CString)
    (v : View) : (handleOptions cfg pending ss v).Naks Brief := by
  induction ss generalizing pending v with
  | nil =>
    intro error msg v' h
    cases h
  | cons s ss ih =>
    cases pending with
    | none => exact ih _ _
    | some opt =>
      apply Handled.Naks.andThen
      · intro error msg v' h
        simp only [handleOption] at h
        split at h
        · rename_i hd
          cases h
          exact doOpt_brief hd
        · cases h
      · exact ih _

theorem handleMode_naks (cfg : ServerConfig) (k : Kernel) (opcode : UInt16) (name mode : CString)
    (v : View) :
    (handleMode cfg k opcode name mode v).Naks fun msg => Brief msg ∨
      (selectFormat (mode.bytes.map tolower)).isSome ∧
        cfg.rewriteAccess name opcode = .error msg := by
  intro error msg v' h
  simp only [handleMode] at h
  split at h
  · cases h
    exact .inl (brief_some (by decide))
  · rename_i hf
    split at h
    · rename_i hr
      cases h
      exact .inr ⟨Option.isSome_of_eq_some hf, hr⟩
    · split at h
      · rename_i hv
        cases h
        exact .inl (validateAccess_brief hv)
      · cases h
      · cases h

theorem handleMode_denied {mode : CString} (hf : (selectFormat (mode.bytes.map tolower)).isSome)
    (hr : cfg.rewriteAccess name opcode = .error msg) (v : View) :
    handleMode cfg k opcode name mode v = .stop (.nak EACCESS msg) v := by
  obtain ⟨convert, hc⟩ := Option.isSome_iff_exists.1 hf
  simp only [handleMode, hc, hr]

theorem tftp_strings (cfg : ServerConfig) (k : Kernel) (fs : FileSystem)
    (h : Scanned buf size 2 ss cut) :
    (tftp cfg k buf size fs).1 =
      ((handleStrings cfg k (thOpcode buf) ss (startView cfg fs)).andThen
        (finish cut)).conclude.1 :=
  congrArg Prod.fst (handleRequest_strings cfg k fs h)

theorem finish_brief (cut : Bool) (v : View) : (finish cut v).Naks Brief := by
  intro error msg v' h
  simp only [finish] at h
  split at h
  · cases h
    exact brief_some (by decide)
  · cases h

theorem conclude_nak {x : Handled} (h : x.conclude.1 = .nak error msg) :
    Brief msg ∨ ∃ v, x = .stop (.nak error msg) v := by
  cases x with
  | stop o v =>
    have ho : o = .nak error msg := h
    exact .inr ⟨v, by rw [ho]⟩
  | go v =>
    simp only [Handled.conclude] at h
    split at h
    · cases h
      exact .inl (brief_some (by decide))
    · cases h

/-- Any message but those of the mapping rules is short. -/
theorem tftp_nak (h : (tftp cfg k buf size fs).1 = .nak error msg) :
    Brief msg ∨ ∃ name, mappedName buf size = some name ∧
      cfg.rewriteAccess name (thOpcode buf) = .error msg := by
  obtain ⟨ss, cut, hs⟩ := exists_scanned buf size 2
  rw [tftp_strings cfg k fs hs] at h
  rcases conclude_nak h with hb | ⟨v, hx⟩
  · exact .inl hb
  have hfinish (x : View) : (finish cut x).Naks fun msg => Brief msg ∨
      ∃ name, mappedName buf size = some name ∧
        cfg.rewriteAccess name (thOpcode buf) = .error msg :=
    fun e m v' he => .inl (finish_brief cut x e m v' he)
  rw [hs.mappedName] at hfinish ⊢
  match ss with
  | [] => exact hfinish _ _ _ _ hx
  | [name] => exact hfinish _ _ _ _ hx
  | name :: mode :: ss =>
    refine Handled.Naks.andThen (Handled.Naks.andThen ?_ ?_) hfinish error msg v hx
    · intro e m v' he
      rcases handleMode_naks cfg k _ name mode _ e m v' he with hb | ⟨hf, hr⟩
      · exact .inl hb
      · obtain ⟨convert, hc⟩ := Option.isSome_iff_exists.1 hf
        refine .inr ⟨name, ?_, hr⟩
        dsimp only
        rw [hc]
        rfl
    · intro v' e m v'' he
      exact .inl (handleOptions_brief cfg.options none ss v' e m v'' he)

theorem tftp_denied (hn : mappedName buf size = some name)
    (hr : cfg.rewriteAccess name (thOpcode buf) = .error msg) :
    (tftp cfg k buf size fs).1 = .nak EACCESS msg := by
  obtain ⟨ss, cut, hs⟩ := exists_scanned buf size 2
  rw [hs.mappedName] at hn
  rw [tftp_strings cfg k fs hs]
  match ss with
  | [] => cases hn
  | [name'] => cases hn
  | name' :: mode :: ss =>
    obtain ⟨convert, hc, hname⟩ := Option.map_eq_some_iff.1 hn
    subst hname
    rw [handleStrings, handleMode_denied (Option.isSome_of_eq_some hc) hr]
    rfl

end Request

/-- The calls of `nak` for a request, and for the transfer that follows it. -/
inductive Raised (cfg : ServerConfig) (k : Kernel) (buf : Mem) (size : Nat) (fs : FileSystem)
    (t : Transfer) : Nat → Option String → Prop where
  | request : (tftp cfg k buf size fs).1 = .nak error msg → Raised cfg k buf size fs t error msg
  | send : (tftp cfg k buf size fs).1 = .serve convert oack →
      .nak error ∈ ((tftpSendfile t oack ackbuf f).run es).log.map Prod.snd →
      Raised cfg k buf size fs t error none
  | recv : (tftp cfg k buf size fs).1 = .serve convert oack →
      .nak error ∈ ((tftpRecvfile t oack ackbuf).run es).log.map Prod.snd →
      Raised cfg k buf size fs t error none

/-- What `rewrite_access` makes of the result of `rewrite_string`. -/
def Rewritten.access : Rewritten → Except (Option String) CString
  | .returned current => .ok current
  | .null errmsg => .error (errmsg.map messageOf)

def accessCall (regexec : ρ → (s : CString) → Regexec s) (malloc : Malloc) (peer : SockAddr)
    (opcode : UInt16) : RewriteCall ρ :=
  ⟨regexec, if opcode ≠ RRQ then 80 else 71, rewriteMacros peer, malloc⟩

/-- The server maps names by these rules. -/
structure MapsBy (cfg : ServerConfig) (call : UInt16 → RewriteCall ρ) (rules : List (Rule ρ)) :
    Prop where
  result : ∀ name opcode fuel res, (call opcode).rewriteString rules fuel name = some res →
    cfg.rewriteAccess name opcode = res.access
  denied : ∀ name opcode msg, cfg.rewriteAccess name opcode = .error msg →
    ∃ fuel res, (call opcode).rewriteString rules fuel name = some res ∧ res.access = .error msg

/-- The expanded message of every abort rule that fires for this name, if there is memory for it,
leaves room for the header and the NUL. -/
def ShortMessages (call : RewriteCall ρ) (peer : SockAddr) (rules : List (Rule ρ))
    (name : CString) : Prop :=
  ∀ r c m, call.Tries rules name r c → call.regexec r.rx c = .found m → r.inverse = false →
    r.abort = true → r.pattern.bytes ≠ [] → call.Fits r.pattern c m.pmatch →
      (expanded peer r c m).length ≤ pktsize - 5

theorem tableFailure_length : tableFailure.length ≤ pktsize - 5 := by decide

theorem brief_messageOf (s : CString) : Brief (some (messageOf s)) ↔ s.length ≤ pktsize - 5 := by
  constructor
  · intro h
    have hm := h _ rfl
    rwa [messageText_messageOf] at hm
  · intro h
    apply brief_some
    rwa [messageText_messageOf]

section Remap

variable {ρ : Type} {cfg : ServerConfig} {regexec : ρ → (s : CString) → Regexec s}
  {malloc : Malloc} {peer : SockAddr} {rules : List (Rule ρ)}

theorem MapsBy.brief (hm : MapsBy cfg (accessCall regexec malloc peer) rules)
    (h : ShortMessages (accessCall regexec malloc peer opcode) peer rules name)
    (hr : cfg.rewriteAccess name opcode = .error msg) : Brief msg := by
  obtain ⟨fuel, res, he, hres⟩ := hm.denied _ _ _ hr
  cases res with
  | returned current => cases hres
  | null errmsg =>
    cases hres
    rcases RewriteCall.aborts_of_null he with rfl | ⟨r, c, ht, ha⟩
    · exact (brief_messageOf _).2 tableFailure_length
    · cases errmsg with
      | none => exact brief_none
      | some e =>
        obtain ⟨m, hf, hi, hab, hp, hfits, rfl⟩ := (RewriteCall.attempt_abort_iff rfl).1 ha
        exact (brief_messageOf _).2 (h r c m ht hf hi hab hp hfits)

theorem MapsBy.aborts (hm : MapsBy cfg (accessCall regexec malloc peer) rules)
    (ht : (accessCall regexec malloc peer opcode).Tries rules name r c)
    (ha : (accessCall regexec malloc peer opcode).attempt r c = .abort (some e)) :
    cfg.rewriteAccess name opcode = .error (some (messageOf e)) := by
  have hab : (accessCall regexec malloc peer opcode).AbortsWith rules name (some e) := ⟨r, c, ht, ha⟩
  obtain ⟨fuel, hf⟩ := hab.returns
  exact hm.result _ _ fuel _ hf

/-- Every ERROR packet of a request is well formed and fits if and only if the message of no
abort rule is too long for `buf`. -/
theorem tftp_errorPackets_iff (strerror : Nat → CString) (hs : ∀ e, (strerror e).length < 1024)
    (hm : MapsBy cfg (accessCall regexec malloc peer) rules) (k : Kernel) (buf : Mem) (size : Nat)
    (fs : FileSystem) (t : Transfer) :
    (∀ error msg, Raised cfg k buf size fs t error msg → GoodError (nak strerror error msg)) ↔
      ∀ name, mappedName buf size = some name →
        ShortMessages (accessCall regexec malloc peer (thOpcode buf)) peer rules name := by
  constructor
  · intro h name hn r c m ht hf hi hab hp hfits
    have ha : (accessCall regexec malloc peer (thOpcode buf)).attempt r c =
        .abort (some (expanded peer r c m)) :=
      (RewriteCall.attempt_abort_iff rfl).2 ⟨m, hf, hi, hab, hp, hfits, rfl⟩
    have hnak : (tftp cfg k buf size fs).1 = _ := tftp_denied hn (hm.aborts ht ha)
    have hgood := h _ _ (.request hnak)
    exact (brief_messageOf _).1 ((nak_good_iff strerror hs _ _).1 hgood)
  · intro h error msg hr
    apply (nak_good_iff strerror hs error msg).2
    cases hr with
    | request hnak =>
      rcases tftp_nak hnak with hb | ⟨name, hn, hacc⟩
      · exact hb
      · exact hm.brief (h name hn) hacc
    | send _ _ => exact brief_none
    | recv _ _ => exact brief_none

end Remap

def anyRegcomp : CString → Bool → Option (List UInt8) := fun regex _ => some regex.bytes

/-- Matches the whole string, as `.*` does. -/
def anyRegexec : List UInt8 → (s : CString) → Regexec s := fun _ s => .found (wholeMatch s.bytes)

theorem notGlobal (b : Bool) (h : false = true) : b = true := absurd h Bool.false_ne_true

/-- The rule `a .* \0\0`. -/
def twiceRule : Rule (List UInt8) where
  rewrite := false
  global := false
  exit := false
  restart := false
  abort := true
  inverse := false
  mode := none
  rx := [46, 42]
  pattern := .ofBytes [92, 48, 92, 48]
  rewriteOfGlobal := notGlobal false
  notInverted := notInverted_plain false

def localhost : SockAddr := .inet fun _ => 127

def twiceCall : UInt16 → RewriteCall (List UInt8) := accessCall anyRegexec exactMalloc localhost

def twiceServer : ServerConfig :=
  { plainServer with
    rewriteAccess := fun name opcode =>
      match (twiceCall opcode).rewriteString [twiceRule] 1 name with
      | some res => res.access
      | none => .ok name }

theorem twiceRule_text (texts : MacroTexts) (name : CString) :
    substitution texts name.bytes (wholeMatch name.bytes).pmatch twiceRule.pattern.bytes =
      name.bytes ++ name.bytes := by
  have hpat : twiceRule.pattern.bytes = [92, 48, 92, 48] := by decide
  have hgroup : (groupText name.bytes (submatch (wholeMatch name.bytes).pmatch 0)).map
      Xform.null.apply = name.bytes := by rw [groupText_whole, map_null]
  have hdrop : name.bytes.drop name.bytes.length = [] := List.drop_length
  rw [hpat]
  change [] ++ ((groupText name.bytes (submatch (wholeMatch name.bytes).pmatch 0)).map
    Xform.null.apply ++ ((groupText name.bytes (submatch (wholeMatch name.bytes).pmatch 0)).map
      Xform.null.apply ++ [])) ++ name.bytes.drop name.bytes.length = _
  rw [hgroup, hdrop, List.append_nil, List.append_nil, List.nil_append]

theorem twiceRule_expanded (name : CString) :
    expanded localhost twiceRule name (wholeMatch name.bytes) =
      .ofBytes (name.bytes ++ name.bytes) := by
  have hrest : (name.bytes.drop ((wholeMatch name.bytes).pmatch 0).rmEo.toNat).length < 2 ^ 31 := by
    have hdrop : name.bytes.drop ((wholeMatch name.bytes).pmatch 0).rmEo.toNat = [] :=
      List.drop_length
    rw [hdrop]
    decide
  rw [expanded, writtenText_eq _ _ _ hrest, twiceRule_text]

theorem twiceRule_fits (h : name.length + name.length + 1 < 2 ^ 31) :
    (twiceCall opcode).Fits twiceRule.pattern name (wholeMatch name.bytes).pmatch := by
  have hlen : (substitution (serverTexts localhost) name.bytes (wholeMatch name.bytes).pmatch
      twiceRule.pattern.bytes).length = name.length + name.length := by
    rw [twiceRule_text, List.length_append]
    rfl
  have hx : hexMacros twiceRule.pattern.bytes = 0 := by decide
  refine RewriteCall.fits_of_counted rfl (wholeMatch name.bytes) hx ?_ ?_
  · rw [hlen]
    exact h
  · have hroom : (twiceCall opcode).malloc.room (name.length + name.length + 1) =
        some (name.length + name.length + 1) := if_pos (by omega)
    rw [hlen, hroom]
    rfl

theorem twiceCall_aborts (opcode : UInt16) (h : name.length + name.length + 1 < 2 ^ 31) :
    (twiceCall opcode).AbortsWith [twiceRule] name
      (some (.ofBytes (name.bytes ++ name.bytes))) := by
  have hnext : (twiceCall opcode).next [twiceRule] = [twiceRule] := rfl
  have hsub : (twiceCall opcode).macrosub = rewriteMacros localhost := rfl
  have hcopy : (twiceCall opcode).Copies name := by
    have hroom : (twiceCall opcode).malloc.room (name.length + 1) = some (name.length + 1) :=
      if_pos (by omega)
    rw [RewriteCall.Copies, hroom]
    rfl
  refine ⟨twiceRule, name, ⟨hcopy, .first .refl hnext⟩, (RewriteCall.attempt_abort_iff hsub).2 ?_⟩
  exact ⟨wholeMatch name.bytes, rfl, rfl, rfl, by decide, twiceRule_fits h,
    (twiceRule_expanded name).symm⟩

theorem twiceCall_attempt (opcode : UInt16) (c : CString) :
    (twiceCall opcode).attempt twiceRule c =
      ((twiceCall opcode).newstr twiceRule.pattern c (wholeMatch c.bytes).pmatch).outcome true :=
  RewriteCall.attempt_passed rfl

/-- The rule is tried once, and nothing comes after it. -/
theorem twiceCall_visit (h : (twiceCall opcode).visit rules fuel twiceRule rest c = some v) :
    (∃ res, v = .ends res) ∧ (twiceCall opcode).visit rules 1 twiceRule rest c = some v := by
  cases fuel with
  | zero => cases h
  | succ fuel =>
    simp only [RewriteCall.visit, RewriteCall.repeatRule, twiceCall_attempt] at h ⊢
    cases hn : (twiceCall opcode).newstr twiceRule.pattern c (wholeMatch c.bytes).pmatch with
    | text s =>
      rw [hn] at h
      cases h
      exact ⟨⟨_, rfl⟩, rfl⟩
    | exits =>
      rw [hn] at h
      cases h
    | undefined =>
      rw [hn] at h
      cases h

theorem twiceCall_onePass (h : (twiceCall opcode).rewriteString [twiceRule] fuel name = some res) :
    (twiceCall opcode).rewriteString [twiceRule] 1 name = some res := by
  have hnext : (twiceCall opcode).next [twiceRule] = [twiceRule] := rfl
  by_cases hcopy : (twiceCall opcode).Copies name
  · rw [RewriteCall.rewriteString, if_pos hcopy] at h ⊢
    obtain ⟨v, hv⟩ := RewriteCall.visit_of_evaluate hnext h
    obtain ⟨⟨res', rfl⟩, hone⟩ := twiceCall_visit hv
    rw [RewriteCall.deadmanMaxSteps, RewriteCall.evaluate_succ hnext, hv] at h
    rw [RewriteCall.deadmanMaxSteps, RewriteCall.evaluate_succ hnext, hone]
    exact h
  · rw [RewriteCall.rewriteString, if_neg hcopy] at h
    cases h

theorem twiceServer_maps : MapsBy twiceServer twiceCall [twiceRule] where
  result := by
    intro name opcode fuel res h
    have hone := twiceCall_onePass h
    simp only [twiceServer, hone]
  denied := by
    intro name opcode msg h
    simp only [twiceServer] at h
    split at h
    · rename_i res hone
      exact ⟨1, res, hone, h⟩
    · cases h

theorem letters_nulFree (n : Nat) : NUL ∉ List.replicate n (97 : UInt8) := by
  intro h
  exact absurd (List.eq_of_mem_replicate h) (by decide)

def letters (n : Nat) : CString := ⟨List.replicate n 97, letters_nulFree n⟩

def readLetters (n : Nat) : List UInt8 := encodeRequest RRQ (letters n) octetMode [] .nothing

theorem readLetters_length (n : Nat) : (readLetters n).length = n + 9 := by
  have hn : (letters n).bytes.length = n := List.length_replicate
  have hb : (Mem.be16 RRQ).length = 2 := rfl
  have hs : (encodeStrings [octetMode] ++ RequestTail.nothing.bytes).length = 6 := by decide
  have hr : readLetters n = Mem.be16 RRQ ++ ((letters n).bytes ++
      0 :: (encodeStrings [octetMode] ++ RequestTail.nothing.bytes)) := by
    rw [readLetters, encodeRequest, encodeStrings_cons, List.append_assoc]
    rfl
  rw [hr, List.length_append, List.length_append, List.length_cons, hb, hn, hs]
  omega

theorem readLetters_mappedName (n : Nat) (hn : 0 < n) :
    mappedName (Mem.zero.store 0 (readLetters n)) (readLetters n).length = some (letters n) := by
  have hload : (Mem.zero.store 0 (readLetters n)).load 2 ((readLetters n).length - 2) =
      encodeStrings [letters n, octetMode] ++ [] := by
    have hdrop := Mem.load_store_drop Mem.zero 0 2 (readLetters n)
    rwa [Nat.zero_add] at hdrop
  have hletters : letters n ≠ .empty := by
    intro h
    have hl := congrArg CString.length h
    have hlen : (letters n).length = n := List.length_replicate
    rw [hlen] at hl
    exact absurd hl (Nat.ne_of_gt hn)
  have hmode : octetMode ≠ .empty := by
    intro h
    exact absurd (congrArg CString.length h) (by decide)
  have hne : ∀ s ∈ [letters n, octetMode], s ≠ .empty := by
    rw [List.forall_mem_cons, List.forall_mem_singleton]
    exact ⟨hletters, hmode⟩
  rw [(Scanned.of_closed hne hload nofun).mappedName]
  rfl

theorem twice_length (n : Nat) :
    (CString.ofBytes ((letters n).bytes ++ (letters n).bytes)).length = n + n := by
  have htwice : (letters n).bytes ++ (letters n).bytes = (letters (n + n)).bytes :=
    List.replicate_append_replicate
  rw [htwice, CString.ofBytes_bytes]
  exact List.length_replicate

/-- The message for a name of `n` letters is twice as long as the name. -/
theorem readLetters_raised (n : Nat) (hn : 0 < n) (hl : n + n + 1 < 2 ^ 31) :
    ∃ msg, Raised twiceServer goodKernel (Mem.zero.store 0 (readLetters n)) (readLetters n).length
      oneFile octetTransfer EACCESS (some msg) ∧ (messageText msg).length = n + n := by
  have hlen : (letters n).length + (letters n).length + 1 < 2 ^ 31 := by
    have hn : (letters n).length = n := List.length_replicate
    rwa [hn]
  have hacc (opcode : UInt16) : twiceServer.rewriteAccess (letters n) opcode =
      .error (some (messageOf (.ofBytes ((letters n).bytes ++ (letters n).bytes)))) := by
    obtain ⟨fuel, hf⟩ := (twiceCall_aborts opcode hlen).returns
    exact twiceServer_maps.result _ _ fuel _ hf
  refine ⟨_, .request (tftp_denied (readLetters_mappedName n hn) (hacc _)), ?_⟩
  rw [messageText_messageOf]
  exact twice_length n

def successText : Nat → CString := fun _ => .ofBytes (ascii ['S', 'u', 'c', 'c', 'e', 's', 's'])

theorem successText_length (e : Nat) : (successText e).length < 1024 := by
  have hl : (CString.ofBytes (ascii ['S', 'u', 'c', 'c', 'e', 's', 's'])).length = 7 := by decide
  exact Nat.lt_of_le_of_lt (Nat.le_of_eq hl) (by decide)

theorem twiceCall_tries (h : (twiceCall opcode).Tries [twiceRule] name r c) :
    r = twiceRule ∧ c = name := by
  obtain ⟨-, h⟩ := h
  induction h with
  | first hr hn =>
    cases hr with
    | refl =>
      cases hn
      exact ⟨rfl, rfl⟩
    | step hn' hv _ =>
      cases hn'
      obtain ⟨fuel, hv⟩ := hv
      obtain ⟨⟨res, hres⟩, -⟩ := twiceCall_visit hv
      cases hres
  | again _ _ hg ih =>
    obtain ⟨rfl, rfl⟩ := ih
    cases hg

/-- The message for a name of three letters has six. -/
theorem threeLetters_fits :
    mappedName (Mem.zero.store 0 (readLetters 3)) (readLetters 3).length = some (letters 3) ∧
      ∀ error msg, Raised twiceServer goodKernel (Mem.zero.store 0 (readLetters 3))
        (readLetters 3).length oneFile octetTransfer error msg →
        GoodError (nak successText error msg) := by
  have hname := readLetters_mappedName 3 (by decide)
  refine ⟨hname, ?_⟩
  refine (tftp_errorPackets_iff successText successText_length twiceServer_maps goodKernel _ _
    oneFile octetTransfer).2 ?_
  intro name hn r c m ht hf _ _ _
  obtain ⟨rfl, rfl⟩ := twiceCall_tries ht
  have hm : m = wholeMatch c.bytes := by
    cases hf
    rfl
  have hc : letters 3 = c := Option.some.inj (hname.symm.trans hn)
  intro _
  rw [hm, twiceRule_expanded, ← hc, twice_length]
  decide

/-- The message for a name of 32732 letters is one byte too long. -/
theorem longName_overflows :
    parserulefile anyRegcomp [97, 32, 46, 42, 32, 92, 48, 92, 48, 10] = some [twiceRule] ∧
      (readLetters 32732).length ≤ pktsize ∧
      ¬ ∀ error msg, Raised twiceServer goodKernel (Mem.zero.store 0 (readLetters 32732))
        (readLetters 32732).length oneFile octetTransfer error msg →
        GoodError (nak successText error msg) := by
  refine ⟨rfl, ?_, ?_⟩
  · rw [readLetters_length]
    decide
  · intro h
    obtain ⟨msg, hr, hl⟩ := readLetters_raised 32732 (by decide) (by decide)
    have hbrief := (nak_good_iff successText successText_length _ _).1 (h _ _ hr) msg rfl
    rw [hl] at hbrief
    exact absurd hbrief (by decide)

end WooTftpd
