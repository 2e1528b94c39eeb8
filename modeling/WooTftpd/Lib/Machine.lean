import Mathlib.Data.List.Basic
import Mathlib.Data.List.Induction

namespace Lib
set_option autoImplicit true

/-- A process that is blocked between events and answers each event with a list of actions. -/
structure Machine (σ ε α : Type) where
  start : σ × List α
  step : σ → ε → σ × List α

/-- A state with the actions taken so far. Each action carries the event it answers;
the actions taken before the first event carry none. -/
structure Config (σ ε α : Type) where
  state : σ
  log : List (Option ε × α)

namespace Machine

def init (M : Machine σ ε α) : Config σ ε α :=
  ⟨M.start.1, M.start.2.map fun a => (none, a)⟩

def next (M : Machine σ ε α) (c : Config σ ε α) (e : ε) : Config σ ε α :=
  ⟨(M.step c.state e).1, c.log ++ (M.step c.state e).2.map fun a => (some e, a)⟩

def run (M : Machine σ ε α) (es : List ε) : Config σ ε α := es.foldl M.next M.init

@[simp] theorem run_concat (M : Machine σ ε α) (es : List ε) (e : ε) :
    M.run (es ++ [e]) = M.next (M.run es) e := by
  simp only [run, List.foldl_append, List.foldl_cons, List.foldl_nil]

theorem next_idle {M : Machine σ ε α} {c : Config σ ε α} (h : M.step c.state e = (c.state, [])) :
    M.next c e = c := by
  rw [next, h]
  exact congrArg (Config.mk c.state) (List.append_nil c.log)

/-- What holds at the start and is preserved by every event holds after every run. -/
theorem run_induction (M : Machine σ ε α) {P : List ε → Config σ ε α → Prop}
    (h₀ : P [] M.init)
    (hs : ∀ es e, P es (M.run es) → P (es ++ [e]) (M.next (M.run es) e)) (es : List ε) :
    P es (M.run es) := by
  induction es using List.reverseRecOn with
  | nil => exact h₀
  | append_singleton es e ih =>
    rw [run_concat]
    exact hs es e ih

end Machine

def Config.observe (f : α → Option β) (c : Config σ ε α) : List (Option ε × β) :=
  c.log.filterMap fun p => (f p.2).map fun b => (p.1, b)

theorem filterMap_tag (f : α → Option β) (o : γ) (as : List α) :
    ((as.map fun a => (o, a)).filterMap fun p => (f p.2).map fun b => (p.1, b)) =
      (as.filterMap f).map fun b => (o, b) := by
  induction as with
  | nil => rfl
  | cons a as ih => cases h : f a <;> simp [h, ih]

theorem Config.observe_snd (f : α → Option β) (c : Config σ ε α) :
    (c.observe f).map Prod.snd = (c.log.map Prod.snd).filterMap f := by
  simp only [observe, List.map_filterMap, List.filterMap_map, Option.map_map]
  congr 1
  funext p
  cases h : f p.2 <;> simp [h]

namespace Machine

theorem observe_init (M : Machine σ ε α) (f : α → Option β) :
    M.init.observe f = (M.start.2.filterMap f).map fun b => (none, b) :=
  filterMap_tag f none _

theorem observe_next (M : Machine σ ε α) (f : α → Option β) (c : Config σ ε α) (e : ε) :
    (M.next c e).observe f =
      c.observe f ++ ((M.step c.state e).2.filterMap f).map fun b => (some e, b) := by
  simp only [Config.observe, next, List.filterMap_append]
  rw [filterMap_tag]

theorem log_init (M : Machine σ ε α) : M.init.log.map Prod.snd = M.start.2 := by
  simp only [init, List.map_map]
  exact List.map_id _

theorem log_next (M : Machine σ ε α) (c : Config σ ε α) (e : ε) :
    (M.next c e).log.map Prod.snd = c.log.map Prod.snd ++ (M.step c.state e).2 := by
  simp only [next, List.map_append, List.map_map, List.append_cancel_left_eq]
  exact List.map_id _

theorem log_cause (M : Machine σ ε α) (es : List ε) (h : (some e, a) ∈ (M.run es).log) :
    e ∈ es := by
  revert h
  refine M.run_induction (P := fun es c => (some e, a) ∈ c.log → e ∈ es) ?_ ?_ es
  · intro h
    obtain ⟨_, _, h⟩ := List.mem_map.1 h
    cases h
  · intro es e' ih h
    rcases List.mem_append.1 h with h | h
    · exact List.mem_append_left _ (ih h)
    · obtain ⟨_, _, h⟩ := List.mem_map.1 h
      cases h
      exact List.mem_append_right _ (List.mem_singleton_self _)

theorem observe_cause (M : Machine σ ε α) (f : α → Option β) (es : List ε)
    (h : (some e, b) ∈ (M.run es).observe f) : e ∈ es := by
  obtain ⟨⟨o, a⟩, hmem, hp⟩ := List.mem_filterMap.1 h
  obtain ⟨_, _, hp⟩ := Option.map_eq_some_iff.1 hp
  cases hp
  exact M.log_cause es hmem

/-- If no event is answered by more than one observed action, then the observed actions
answer distinct events, in the order in which the events arrive. -/
theorem observe_causes (M : Machine σ ε α) (f : α → Option β)
    (h₀ : (M.start.2.filterMap f).length ≤ 1)
    (h : ∀ s e, ((M.step s e).2.filterMap f).length ≤ 1) (es : List ε) :
    (((M.run es).observe f).map Prod.fst).Sublist (none :: es.map some) := by
  have hmap (o : Option ε) {bs : List β} (hb : bs.length ≤ 1) :
      ((bs.map fun b => (o, b)).map Prod.fst).Sublist [o] := by
    match bs, hb with
    | [], _ => exact List.nil_sublist _
    | [b], _ => exact List.Sublist.refl _
  refine M.run_induction
    (P := fun es c => ((c.observe f).map Prod.fst).Sublist (none :: es.map some)) ?_ ?_ es
  · rw [observe_init]
    exact hmap none h₀
  · intro es e ih
    rw [observe_next, List.map_append, List.map_append]
    exact ih.append (hmap (some e) (h _ e))

end Machine

structure System (σ ε : Type) where
  init : σ → Prop
  next : σ → ε → Option σ

namespace System

/-- The states reached by runs all of whose steps satisfy `ok`. -/
inductive Reach (S : System σ ε) (ok : σ → ε → Prop) : σ → Prop where
  | init : S.init s → Reach S ok s
  | step : Reach S ok s → ok s e → S.next s e = some s' → Reach S ok s'

def Reachable (S : System σ ε) : σ → Prop := S.Reach fun _ _ => True

theorem Reach.invariant {S : System σ ε} {ok : σ → ε → Prop} {P : σ → Prop}
    (h : S.Reach ok s) (h₀ : ∀ s, S.init s → P s)
    (hs : ∀ s e s', P s → ok s e → S.next s e = some s' → P s') : P s := by
  induction h with
  | init hi => exact h₀ _ hi
  | step _ hok hn ih => exact hs _ _ _ ih hok hn

def exec (S : System σ ε) : σ → List ε → Option σ
  | s, [] => some s
  | s, e :: es => (S.next s e).bind fun s' => S.exec s' es

theorem exec_cons {S : System σ ε} (h : S.next s e = some s') (es : List ε) :
    S.exec s (e :: es) = S.exec s' es := by
  rw [exec, h, Option.bind_some]

theorem Reach.exec {S : System σ ε} {ok : σ → ε → Prop} (h : S.Reach ok s)
    (hok : ∀ e ∈ es, ∀ s, ok s e) (he : S.exec s es = some s') : S.Reach ok s' := by
  induction es generalizing s with
  | nil =>
    cases he
    exact h
  | cons e es ih =>
    obtain ⟨hok, hoks⟩ := List.forall_mem_cons.1 hok
    obtain ⟨t, ht, hr⟩ := Option.bind_eq_some_iff.1 he
    exact ih (.step h (hok s) ht) hoks hr

theorem exec_append (S : System σ ε) (s : σ) (es es' : List ε) :
    S.exec s (es ++ es') = (S.exec s es).bind fun t => S.exec t es' := by
  induction es generalizing s with
  | nil => rfl
  | cons e es ih =>
    rw [List.cons_append, exec, exec, Option.bind_assoc]
    congr 1
    funext t
    exact ih t

/-- What holds of a state and is preserved by every step holds after every run from there, of the
events and the state that they have led to. -/
theorem exec_induction {S : System σ ε} {P : List ε → σ → Prop} (h₀ : P [] s)
    (hs : ∀ es t e t', P es t → S.next t e = some t' → P (es ++ [e]) t')
    (h : S.exec s es = some t) : P es t := by
  induction es using List.reverseRecOn generalizing t with
  | nil =>
    cases h
    exact h₀
  | append_singleton es e ih =>
    rw [exec_append] at h
    obtain ⟨u, hu, hn⟩ := Option.bind_eq_some_iff.1 h
    obtain ⟨t', ht, hr⟩ := Option.bind_eq_some_iff.1 hn
    cases hr
    exact hs es u e t (ih hu) ht

end System

end Lib
