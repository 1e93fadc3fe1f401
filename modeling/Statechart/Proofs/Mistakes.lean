import Mathlib.Data.List.Induction
import Statechart.Proofs.Linked
import Statechart.Proofs.PriorityText

/-
  Mistakes in drafting. `Call.Refused` says which calls are mistakes, given the chart at the time,
  and what each is blamed for. A draft goes on after a mistake, so its chart stays linked, and it
  keeps the first one (`fault_call`): finishing reports the mistake of the first call that was one,
  and gives the chart if none was (`drafts_keep_links_and_first_mistake`).
-/

namespace Statechart

variable {V : Type}

/-! ## What is a mistake -/

/-- The text of an order gives its numbers. -/
def Priority.Readable (text : String) : Prop :=
  ∃ ns, Priority.InLimits ns ∧ Priority.Dotted text.toList ns

/-- An order among the clauses cannot be read, and the first such is blamed. -/
def Clause.Misorders (clauses : List (Clause V)) (error : ModelError) : Prop :=
  ∃ before text after, clauses = before ++ .order text :: after ∧ ¬ Priority.Readable text ∧
    (∀ earlier, .order earlier ∈ before → Priority.Readable earlier) ∧
    error = .invalidPriority text

/-- The call is a mistake if it is made while the chart is `c`, and this is what is wrong with it: a
table is full, a number is not that of a node, or an order cannot be read. Of several things the one
that is noticed first counts. -/
def Draft.Call.Refused (c : Chart V) (error : ModelError) : Draft.Call V → Prop
  | .event _ => maxNodes ≤ c.events.size ∧ error = .tooMany .event
  | .state _ parent =>
    maxNodes ≤ c.states.size ∧ error = .tooMany .state ∨
      c.states.size < maxNodes ∧ c.states.size ≤ parent ∧ error = .unknownId .state parent
  | .pseudostate container _ _ =>
    maxNodes ≤ c.pseudostates.size ∧ error = .tooMany .pseudostate ∨
      c.pseudostates.size < maxNodes ∧ c.states.size ≤ container ∧
        error = .unknownId .state container
  | .branch p clauses =>
    c.pseudostates.size ≤ p ∧ error = .unknownId .pseudostate p ∨
      p < c.pseudostates.size ∧ Clause.Misorders clauses error
  | .behavior s _ clauses =>
    c.states.size ≤ s ∧ error = .unknownId .state s ∨
      s < c.states.size ∧ Clause.Misorders clauses error
  | .on s e clauses =>
    c.events.size ≤ e ∧ error = .unknownId .event e ∨
      e < c.events.size ∧ (c.states.size ≤ s ∧ error = .unknownId .state s ∨
        s < c.states.size ∧ Clause.Misorders clauses error)

/-- The call with number `i` was a mistake when it was made. -/
def Draft.RefusedAt (name : String) (calls : List (Draft.Call V)) (i : Nat) (error : ModelError) :
    Prop :=
  ∃ call, calls[i]? = some call ∧ call.Refused (Draft.ofCalls name (calls.take i)).chart error

/-! ## What one call notes -/

theorem Priority.parse_eq_error_iff_not_readable {text : String} {error : ModelError} :
    parse text = .error error ↔ ¬ Readable text ∧ error = .invalidPriority text := by
  rw [parse_eq_error_iff, and_comm]
  unfold Readable
  simp

/-- Only an order that cannot be read is at fault. -/
theorem Clause.fault_eq_some_iff {clause : Clause V} {error : ModelError} :
    clause.fault = some error ↔
      ∃ text, clause = .order text ∧ ¬ Priority.Readable text ∧ error = .invalidPriority text := by
  cases clause with
  | order text =>
    have hfault : (Clause.order text : Clause V).fault = some error ↔
        Priority.parse text = .error error := by
      cases hparse : Priority.parse text <;> simp [fault, hparse]
    rw [hfault, Priority.parse_eq_error_iff_not_readable]
    constructor
    · intro h
      exact ⟨text, rfl, h⟩
    · intro ⟨text', heq, h⟩
      obtain rfl := Clause.order.inj heq
      exact h
  | _ => simp [fault]

theorem Clause.findSome?_fault_eq_some_iff {clauses : List (Clause V)} {error : ModelError} :
    clauses.findSome? fault = some error ↔ Misorders clauses error := by
  have hnone : ∀ before : List (Clause V), (∀ x ∈ before, x.fault = none) ↔
      ∀ earlier, .order earlier ∈ before → Priority.Readable earlier := by
    intro before
    simp only [Option.eq_none_iff_forall_ne_some, Ne, fault_eq_some_iff]
    constructor
    · intro h earlier hmem
      by_contra hbad
      exact h _ hmem _ ⟨earlier, rfl, hbad, rfl⟩
    · intro h clause hmem error ⟨text, hclause, hbad, _⟩
      exact hbad (h text (hclause ▸ hmem))
  rw [List.findSome?_eq_some_iff]
  simp only [fault_eq_some_iff, hnone]
  constructor
  · intro ⟨before, clause, after, hsplit, ⟨text, hclause, hbad, herror⟩, hbefore⟩
    exact ⟨before, text, after, hclause ▸ hsplit, hbad, hbefore, herror⟩
  · intro ⟨before, text, after, hsplit, hbad, hbefore, herror⟩
    exact ⟨before, _, after, hsplit, ⟨text, rfl, hbad, herror⟩, hbefore⟩

namespace Draft

/-- A call notes its own mistake unless there was one before. -/
theorem fault_call (d : Draft V) (call : Call V) :
    (d.call call).fault = (d.fault <|> (({ chart := d.chart } : Draft V).call call).fault) := by
  cases call with
  | event name =>
    simp only [Draft.call, event, note]
    split <;> simp
  | state name parent =>
    simp only [Draft.call, state, note]
    split
    · simp
    · split <;> simp
  | pseudostate container kind name =>
    simp only [Draft.call, pseudostate, note]
    split
    · simp
    · split <;> simp
  | branch p clauses =>
    simp only [Draft.call, branch, noteAll, note]
    split <;> simp
  | behavior s trigger clauses =>
    simp only [Draft.call, behavior, noteAll, note]
    split <;> simp
  | on s e clauses =>
    simp only [Draft.call, on, behavior, noteAll, note]
    split <;> split <;> simp

theorem fault_behavior_eq_some_iff {c : Chart V} {s : StateId} {trigger : Trigger}
    {clauses : List (Clause V)} {error : ModelError} :
    (({ chart := c } : Draft V).behavior s trigger clauses).fault = some error ↔
      c.states.size ≤ s ∧ error = .unknownId .state s ∨
        s < c.states.size ∧ Clause.Misorders clauses error := by
  by_cases hs : s < c.states.size
  · simp [behavior, noteAll, Clause.findSome?_fault_eq_some_iff, hs, Nat.not_le.2 hs]
  · simp [behavior, noteAll, note, hs, Nat.not_lt.1 hs, eq_comm]

/-- On a draft without a mistake a call notes just what it is refused for. -/
theorem fault_call_eq_some_iff {c : Chart V} {call : Call V} {error : ModelError} :
    (({ chart := c } : Draft V).call call).fault = some error ↔ call.Refused c error := by
  cases call with
  | event name =>
    by_cases hfull : maxNodes ≤ c.events.size
    · simp [Draft.call, event, note, Call.Refused, hfull, eq_comm]
    · simp [Draft.call, event, Call.Refused, hfull]
  | state name parent =>
    by_cases hfull : maxNodes ≤ c.states.size
    · simp [Draft.call, state, note, Call.Refused, hfull, Nat.not_lt.2 hfull, eq_comm]
    · by_cases hp : parent < c.states.size
      · simp [Draft.call, state, Call.Refused, hfull, hp, Nat.not_le.2 hp]
      · simp [Draft.call, state, note, Call.Refused, hfull, hp, Nat.not_le.1 hfull,
          Nat.not_lt.1 hp, eq_comm]
  | pseudostate container kind name =>
    by_cases hfull : maxNodes ≤ c.pseudostates.size
    · simp [Draft.call, pseudostate, note, Call.Refused, hfull, Nat.not_lt.2 hfull, eq_comm]
    · by_cases hq : container < c.states.size
      · simp [Draft.call, pseudostate, Call.Refused, hfull, hq, Nat.not_le.2 hq]
      · simp [Draft.call, pseudostate, note, Call.Refused, hfull, hq, Nat.not_le.1 hfull,
          Nat.not_lt.1 hq, eq_comm]
  | branch p clauses =>
    by_cases hp : p < c.pseudostates.size
    · simp [Draft.call, branch, noteAll, Call.Refused, Clause.findSome?_fault_eq_some_iff, hp,
        Nat.not_le.2 hp]
    · simp [Draft.call, branch, noteAll, note, Call.Refused, hp, Nat.not_lt.1 hp, eq_comm]
  | behavior s trigger clauses => exact fault_behavior_eq_some_iff
  | on s e clauses =>
    by_cases he : e < c.events.size
    · have hon : ({ chart := c } : Draft V).call (.on s e clauses) =
          ({ chart := c } : Draft V).behavior s (.event e) clauses := by
        simp [Draft.call, on, he]
      rw [hon, fault_behavior_eq_some_iff]
      simp [Call.Refused, he, Nat.not_le.2 he]
    · -- The event is noted before the behavior is looked at.
      have hfault : (({ chart := c } : Draft V).call (.on s e clauses)).fault =
          some (.unknownId .event e) := by
        have hon : ({ chart := c } : Draft V).call (.on s e clauses) =
            (({ chart := c } : Draft V).note (.unknownId .event e)).call
              (.behavior s (.event e) clauses) := by
          simp [Draft.call, on, he]
        rw [hon, fault_call]
        rfl
      rw [hfault]
      simp [Call.Refused, he, Nat.not_lt.1 he, eq_comm]

/-! ## The first mistake -/

section First

variable {name : String} {calls : List (Call V)} {i : Nat} {error : ModelError}

theorem ofCalls_concat (name : String) (calls : List (Call V)) (call : Call V) :
    ofCalls name (calls ++ [call]) = (ofCalls name calls).call call :=
  List.foldl_concat ..

theorem RefusedAt.lt (h : RefusedAt name calls i error) : i < calls.length := by
  obtain ⟨call, hcall, -⟩ := h
  exact (List.getElem?_eq_some_iff.1 hcall).1

theorem RefusedAt.unique {error' : ModelError} (h : RefusedAt name calls i error)
    (h' : RefusedAt name calls i error') : error = error' := by
  obtain ⟨call, hcall, hrefused⟩ := h
  obtain ⟨call', hcall', hrefused'⟩ := h'
  obtain rfl := Option.some.inj (hcall.symm.trans hcall')
  rw [← fault_call_eq_some_iff] at hrefused hrefused'
  exact Option.some.inj (hrefused.symm.trans hrefused')

/-- One more call does not change what the earlier ones were. -/
theorem refusedAt_concat_iff {call : Call V} (hi : i < calls.length) :
    RefusedAt name (calls ++ [call]) i error ↔ RefusedAt name calls i error := by
  unfold RefusedAt
  rw [List.getElem?_append_left hi, List.take_append_of_le_length (Nat.le_of_lt hi)]

theorem refusedAt_length_iff {call : Call V} :
    RefusedAt name (calls ++ [call]) calls.length error ↔
      call.Refused (ofCalls name calls).chart error := by
  unfold RefusedAt
  simp

/-- The call with number `i` is the first mistake. -/
def FirstRefused (name : String) (calls : List (Call V)) (i : Nat) (error : ModelError) : Prop :=
  RefusedAt name calls i error ∧ ∀ j < i, ∀ e, ¬ RefusedAt name calls j e

/-- A draft is at fault for its first mistake, if there is one. -/
theorem fault_ofCalls (name : String) (calls : List (Call V)) :
    ((ofCalls name calls).fault = none ∧ ∀ i error, ¬ RefusedAt name calls i error) ∨
      ∃ i error, (ofCalls name calls).fault = some error ∧ FirstRefused name calls i error := by
  induction calls using List.reverseRecOn with
  | nil => exact .inl ⟨rfl, fun i error h => Nat.not_lt_zero i h.lt⟩
  | append_singleton calls call ih =>
    rw [ofCalls_concat, fault_call]
    rcases ih with ⟨hfault, hnone⟩ | ⟨i, error, hfault, hrefused, hfirst⟩
    · -- The new call is the first mistake, or there is still none.
      rw [hfault, Option.orElse_eq_orElse, Option.orElse_none]
      have hearlier : ∀ j < calls.length, ∀ e, ¬ RefusedAt name (calls ++ [call]) j e :=
        fun j hj e h => hnone j e ((refusedAt_concat_iff hj).1 h)
      cases hcall : (({ chart := (ofCalls name calls).chart } : Draft V).call call).fault with
      | none =>
        refine .inl ⟨rfl, fun j e h => ?_⟩
        have hj := h.lt
        rw [List.length_append, List.length_singleton] at hj
        rcases Nat.lt_succ_iff_lt_or_eq.1 hj with hlt | rfl
        · exact hearlier j hlt e h
        · rw [refusedAt_length_iff, ← fault_call_eq_some_iff, hcall] at h
          cases h
      | some error =>
        exact .inr ⟨calls.length, error, rfl,
          refusedAt_length_iff.2 (fault_call_eq_some_iff.1 hcall), hearlier⟩
    · have hi := hrefused.lt
      refine .inr ⟨i, error, by rw [hfault]; rfl, (refusedAt_concat_iff hi).2 hrefused, ?_⟩
      intro j hj e h
      exact hfirst j hj e ((refusedAt_concat_iff (Nat.lt_trans hj hi)).1 h)

theorem FirstRefused.unique {i' : Nat} {error' : ModelError} (h : FirstRefused name calls i error)
    (h' : FirstRefused name calls i' error') : error = error' := by
  obtain ⟨hrefused, hfirst⟩ := h
  obtain ⟨hrefused', hfirst'⟩ := h'
  rcases Nat.lt_trichotomy i i' with hlt | rfl | hlt
  · exact absurd hrefused (hfirst' i hlt error)
  · exact hrefused.unique hrefused'
  · exact absurd hrefused' (hfirst i' hlt error')

theorem finish_eq_error_iff :
    (ofCalls name calls).finish = .error error ↔ ∃ i, FirstRefused name calls i error := by
  unfold finish
  rcases fault_ofCalls name calls with ⟨hfault, hnone⟩ | ⟨i, e, hfault, hfirst⟩
  · rw [hfault]
    constructor
    · intro h
      cases h
    · intro ⟨i, h⟩
      exact absurd h.1 (hnone i error)
  · rw [hfault]
    constructor
    · intro h
      exact ⟨i, Except.error.inj h ▸ hfirst⟩
    · intro ⟨i', h⟩
      rw [hfirst.unique h]

theorem finish_eq_ok_iff {c : Chart V} :
    (ofCalls name calls).finish = .ok c ↔
      c = (ofCalls name calls).chart ∧ ∀ i error, ¬ RefusedAt name calls i error := by
  unfold finish
  rcases fault_ofCalls name calls with ⟨hfault, hnone⟩ | ⟨i, e, hfault, hfirst⟩
  · rw [hfault]
    constructor
    · intro h
      exact ⟨(Except.ok.inj h).symm, hnone⟩
    · intro ⟨hc, _⟩
      rw [hc]
  · rw [hfault]
    constructor
    · intro h
      cases h
    · intro ⟨_, hnone⟩
      exact absurd hfirst.1 (hnone i e)

end First

/-! ## The root keeps its name -/

theorem label_behavior (d : Draft V) (t : StateId) (trigger : Trigger) (clauses : List (Clause V))
    (s : StateId) : (d.behavior t trigger clauses).chart.label s = d.chart.label s := by
  unfold behavior
  rw [chart_noteAll]
  split
  · rw [Chart.label_eq, Chart.label_eq, Array.getElem?_modify]
    split
    · rw [Option.map_map]
      rfl
    · rfl
  · rfl

/-- A declared state keeps its name. -/
theorem label_call {d : Draft V} {s : StateId} (hs : s < d.chart.states.size) (call : Call V) :
    (d.call call).chart.label s = d.chart.label s := by
  cases call with
  | event name =>
    simp only [Draft.call, event]
    split <;> rfl
  | state name parent =>
    simp only [Draft.call, state]
    split
    · rfl
    · split
      · exact d.chart.label_addState name parent hs
      · rfl
  | pseudostate container kind name =>
    simp only [Draft.call, pseudostate]
    split
    · rfl
    · split
      · exact d.chart.label_addPseudostate container kind name s
      · rfl
  | branch p clauses =>
    simp only [Draft.call, branch, chart_noteAll]
    split <;> rfl
  | behavior t trigger clauses => exact label_behavior d t trigger clauses s
  | on t e clauses =>
    simp only [Draft.call, on]
    split <;> exact label_behavior _ t (.event e) clauses s

theorem label_root_ofCalls (name : String) (calls : List (Call V)) :
    (ofCalls name calls).chart.label rootState = "ROOT" := by
  induction calls using List.reverseRecOn with
  | nil => rfl
  | append_singleton calls call ih =>
    have hlinked : (ofCalls name calls).chart.Linked := linked_foldl_call (linked_new name) calls
    rw [ofCalls_concat]
    exact (label_call hlinked.nonempty call).trans ih

/-- Whatever is asked of a draft, its chart stays linked under the root. It is finished with the
mistake of the first call that was refused at its time, and with the chart just if none was. -/
theorem drafts_keep_links_and_first_mistake (name : String) (calls : List (Call V)) :
    (ofCalls name calls).chart.Linked ∧
      (ofCalls name calls).chart.label rootState = "ROOT" ∧
      ((∃ error, (ofCalls name calls).finish = .error error) ↔
        ∃ i error, RefusedAt name calls i error) ∧
      (∀ error, (ofCalls name calls).finish = .error error ↔
        ∃ i, FirstRefused name calls i error) ∧
      ∀ c, (ofCalls name calls).finish = .ok c ↔
        c = (ofCalls name calls).chart ∧ ∀ i error, ¬ RefusedAt name calls i error := by
  refine ⟨linked_foldl_call (linked_new name) calls, label_root_ofCalls name calls, ?_,
    fun error => finish_eq_error_iff, fun c => finish_eq_ok_iff⟩
  constructor
  · intro ⟨error, h⟩
    obtain ⟨i, hfirst⟩ := finish_eq_error_iff.1 h
    exact ⟨i, error, hfirst.1⟩
  · intro ⟨i, error, h⟩
    rcases fault_ofCalls name calls with ⟨_, hnone⟩ | ⟨j, e, _, hfirst⟩
    · exact absurd h (hnone i error)
    · exact ⟨e, finish_eq_error_iff.2 ⟨j, hfirst⟩⟩

-- The second call is the first mistake: its parent is declared only afterwards.
example : (ofCalls "late" [.state "A" rootState, .state "B" 2, .state "C" rootState,
    .on 1 9 [.order "1..2"]] : Draft Nat).fault = some (.unknownId .state 2) := by
  decide

end Draft

end Statechart
