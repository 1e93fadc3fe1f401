import Statechart.Machine.Watched
import Statechart.Proofs.Commands

/-
  Watching does not change what a machine does. With a watcher that hands on every outcome it is
  given (`Watcher.Faithful`), the watched machine does, function by function, what the machine does
  by itself, and the watcher is told all that happens, in order (`perform_eq`). What a tracer writes
  and a recorder keeps can then be read off the journal (`log_advance`, `messages_advance`), and two
  watched machines stay in step, whoever watches them (`exists_performEach`,
  `watching_changes_nothing`).
-/

namespace Statechart

variable {V T : Type}

/-- Hands on the outcome of every guard as it is. -/
def Watcher.Faithful (w : Watcher T) : Prop :=
  ∀ t text passed, (w.traceGuard t text passed).2.2 = passed

/-- The machine has become `m`, and the watcher was told what happened. -/
def Watched.advance (w : Watcher T) (p : Program V) (s : Watched V T) (m : Machine V)
    (journal : Journal V) : Watched V T :=
  { journal.foldl (w.tell p) s with machine := m }

namespace Watched

variable {w : Watcher T} {p : Program V} {s : Watched V T} {m m' : Machine V}
  {first rest : Journal V}

@[simp] theorem machine_advance : (s.advance w p m first).machine = m := rfl

@[simp] theorem advance_nil : s.advance w p s.machine [] = s := rfl

/-- What the watcher is told does not hang on the machine. -/
theorem foldl_tell_withMachine (journal : Journal V) :
    journal.foldl (w.tell p) { s with machine := m } =
      { journal.foldl (w.tell p) s with machine := m } := by
  induction journal generalizing s with
  | nil => rfl
  | cons o journal ih => exact ih (s := w.tell p s o)

@[simp] theorem advance_advance :
    (s.advance w p m first).advance w p m' rest = s.advance w p m' (first ++ rest) := by
  simp only [advance, foldl_tell_withMachine, List.foldl_append]

@[simp] theorem withMachine_advance :
    { s.advance w p m first with machine := m' } = s.advance w p m' first := rfl

theorem tell_eq (o : Occurrence V) : w.tell p s o = s.advance w p s.machine [o] := rfl

end Watched

/-! ## A watched machine does what the machine does -/

namespace Watcher.Faithful

variable {w : Watcher T} (hw : w.Faithful) (p : Program V)

include hw

theorem testGuard_eq (site : Site) (guard : Option (Guard V)) (s : Watched V T) :
    w.testGuard p site guard s =
      (s.advance w p s.machine (Statechart.testGuard site guard s.machine.vars).2,
        (Statechart.testGuard site guard s.machine.vars).1) := by
  cases guard with
  | none => rfl
  | some g => exact Prod.ext rfl (hw _ _ _)

omit hw in
theorem runAction_eq (site : Site) (action : Option (Action V)) (s : Watched V T) :
    w.runAction p site action s =
      s.advance w p { s.machine with vars := (Statechart.runAction site action s.machine.vars).1 }
        (Statechart.runAction site action s.machine.vars).2 := by
  cases action <;> rfl

theorem runBoundary_eq (x : StateId) (b : Boundary) (rows : List (GuardedAction V))
    (s : Watched V T) :
    w.runBoundary p x b rows s =
      s.advance w p { s.machine with vars := (Statechart.runBoundary x b rows s.machine.vars).1 }
        (Statechart.runBoundary x b rows s.machine.vars).2 := by
  induction rows generalizing s with
  | nil => rfl
  | cons r rows ih =>
    rw [Watcher.runBoundary, hw.testGuard_eq, ih, Statechart.runBoundary]
    cases hopen : (Statechart.testGuard (.boundary x b) r.guard s.machine.vars).1 with
    | false => simp [hopen]
    | true => simp [hopen, runAction_eq]

theorem enter_eq (s : Watched V T) (x : StateId) :
    w.enter p s x = (p.enter s.machine x).map fun r => s.advance w p r.1 r.2 := by
  simp only [Watcher.enter, Program.enter, Option.bind_eq_bind, Option.map_bind]
  cases p.states[x]? with
  | none => rfl
  | some row =>
    cases p.handlerRow? x with
    | none => rfl
    | some handlers =>
      simp only [Option.bind_some, Function.comp, hw.runBoundary_eq, Watched.tell_eq,
        Watched.machine_advance]
      cases s.machine.table.install? handlers with
      | none => rfl
      | some table => simp [Watched.withMachine_advance]

theorem exit_eq (s : Watched V T) (x : StateId) :
    w.exit p s x = (p.exit s.machine x).map fun r => s.advance w p r.1 r.2 := by
  simp only [Watcher.exit, Program.exit, Option.bind_eq_bind, Option.map_bind]
  cases p.states[x]? with
  | none => rfl
  | some row =>
    simp only [Option.bind_some, Function.comp, hw.runBoundary_eq, Watched.tell_eq,
      Watched.machine_advance, Watched.advance_advance]
    cases row.parent with
    | none => rfl
    | some q =>
      dsimp only
      cases p.handlerRow? q with
      | none => rfl
      | some handlers =>
        simp only [Option.bind_some]
        cases s.machine.table.install? handlers <;> rfl

theorem enterAll_eq (s : Watched V T) (path : List StateId) :
    w.enterAll p s path = (p.enterAll s.machine path).map fun r => s.advance w p r.1 r.2 := by
  induction path generalizing s with
  | nil => rfl
  | cons x path ih =>
    simp only [Watcher.enterAll, Program.enterAll, hw.enter_eq, Option.bind_eq_bind,
      Option.map_bind]
    cases p.enter s.machine x with
    | none => rfl
    | some entered =>
      simp only [Option.map_some, Option.bind_some, Function.comp, ih, Watched.machine_advance]
      cases p.enterAll entered.1 path with
      | none => rfl
      | some rest => simp

theorem exitWithin_eq (turn : StateId) (n : Nat) (s : Watched V T) :
    w.exitWithin p turn n s =
      (p.exitWithin turn n s.machine).map fun r => s.advance w p r.1 r.2 := by
  induction n generalizing s with
  | zero => rfl
  | succ n ih =>
    rw [Watcher.exitWithin, Program.exitWithin]
    cases s.machine.table.active with
    | none => rfl
    | some x =>
      by_cases hx : x = turn
      · simp [hx]
      · simp only [if_neg hx, hw.exit_eq, Option.bind_eq_bind, Option.map_bind]
        cases p.exit s.machine x with
        | none => rfl
        | some left =>
          simp only [Option.map_some, Option.bind_some, Function.comp, ih,
            Watched.machine_advance]
          cases p.exitWithin turn n left.1 with
          | none => rfl
          | some rest => simp

theorem branchOpen_eq (r : PseudoId) (s : Watched V T) (guard : BranchGuard V) :
    w.branchOpen p r s guard =
      (s.advance w p s.machine (Program.branchOpen r s.machine guard).2,
        (Program.branchOpen r s.machine guard).1) := by
  cases guard with
  | always => rfl
  | when g => exact hw.testGuard_eq p (.pseudo r) (some g) s
  | historyIs h value => rfl

theorem firstOpen_eq (r : PseudoId) (branches : List (BranchRow V)) (i : Nat) (s : Watched V T) :
    w.firstOpen p r branches i s =
      (s.advance w p s.machine (Program.firstOpen r s.machine branches i).2,
        (Program.firstOpen r s.machine branches i).1) := by
  induction branches generalizing i s with
  | nil => rfl
  | cons b branches ih =>
    rw [Watcher.firstOpen, Program.firstOpen, hw.branchOpen_eq]
    cases hopen : (Program.branchOpen r s.machine b.guard).1 with
    | false => simp [hopen, ih]
    | true => simp [hopen]

theorem select_eq (s : Watched V T) (r : PseudoId) :
    w.select p s r =
      (p.select s.machine r).map fun x => (s.advance w p s.machine x.2, x.1) := by
  simp only [Watcher.select, Program.select, Option.bind_eq_bind, Option.map_bind]
  cases p.pseudostates[r]? with
  | none => rfl
  | some row =>
    simp only [Option.bind_some, Function.comp, hw.firstOpen_eq]
    rcases Program.firstOpen r s.machine row.branches 0 with ⟨found, tested⟩
    cases found <;> simp [Watched.tell_eq]

theorem runPlan_eq (s : Watched V T) (q : PlanId) :
    w.runPlan p s q =
      (p.runPlan s.machine q).map fun r => (s.advance w p r.1 r.2.1, r.2.2) := by
  simp only [Watcher.runPlan, Program.runPlan, Option.bind_eq_bind, Option.map_bind]
  cases p.plans[q]? with
  | none => rfl
  | some plan =>
    -- However many states were left, the action and the entries follow in the same way.
    have hinto : ∀ left : Machine V × Journal V,
        w.enterAll p (w.runAction p (.plan q) plan.action (s.advance w p left.1 left.2))
          plan.enter =
        (p.enterAll
          { left.1 with vars := (Statechart.runAction (.plan q) plan.action left.1.vars).1 }
          plan.enter).map fun into => s.advance w p into.1
            (left.2 ++ (Statechart.runAction (.plan q) plan.action left.1.vars).2 ++ into.2) := by
      intro left
      rw [runAction_eq, hw.enterAll_eq]
      simp
    simp only [Option.bind_some, Function.comp]
    cases plan.exitTo with
    | none =>
      have h := hinto (s.machine, [])
      rw [Watched.advance_nil] at h
      simp only [h]
      cases p.enterAll _ plan.enter <;> rfl
    | some turn =>
      simp only [Watcher.exitUpTo, Program.exitUpTo, hw.exitWithin_eq]
      cases p.exitWithin turn (p.states.size + 1) s.machine with
      | none => rfl
      | some left =>
        simp only [Option.map_some, Option.bind_some, hinto]
        cases p.enterAll _ plan.enter <;> rfl

theorem executeWithin_eq (n : Nat) (s : Watched V T) (q : PlanId) :
    w.executeWithin p n s q =
      (p.executeWithin n s.machine q).map fun r => s.advance w p r.1 r.2 := by
  induction n generalizing s q with
  | zero => rfl
  | succ n ih =>
    simp only [Watcher.executeWithin, Program.executeWithin, hw.runPlan_eq, Option.bind_eq_bind,
      Option.map_bind]
    cases p.runPlan s.machine q with
    | none => rfl
    | some ran =>
      obtain ⟨m, journal, next⟩ := ran
      simp only [Option.map_some, Option.bind_some, Function.comp]
      cases next with
      | settle x => simp [Watched.tell_eq]
      | pseudo r =>
        simp only [hw.select_eq, Watched.machine_advance, Option.map_bind]
        cases p.select m r with
        | none => rfl
        | some selected =>
          simp only [Option.map_some, Option.bind_some, Function.comp, ih,
            Watched.machine_advance]
          cases p.executeWithin n m selected.1 with
          | none => rfl
          | some rest => simp

theorem execute_eq (s : Watched V T) (q : PlanId) :
    w.execute p s q = (p.execute s.machine q).map fun r => s.advance w p r.1 r.2 :=
  hw.executeWithin_eq p _ s q

theorem start_eq (s : Watched V T) :
    w.start p s = (p.start s.machine).map fun r => s.advance w p r.1 r.2 := by
  simp only [Watcher.start, Program.start, Watched.tell_eq, Watched.withMachine_advance,
    hw.enter_eq, Watched.machine_advance, Option.bind_eq_bind, Option.map_bind]
  cases p.enter { s.machine with table := s.machine.table.reset } rootState with
  | none => rfl
  | some entered =>
    simp only [Option.map_some, Option.bind_some, Function.comp, hw.select_eq,
      Watched.machine_advance, Option.map_bind]
    cases p.select entered.1 p.rootInitial with
    | none => rfl
    | some selected =>
      simp only [Option.map_some, Option.bind_some, hw.execute_eq, Watched.machine_advance]
      cases p.execute entered.1 selected.1 with
      | none => rfl
      | some rest => simp

theorem runBehaviors_eq (x : StateId) (e : EventId) (behaviors : List (BehaviorRow V))
    (s : Watched V T) (result : SendResult) (consumed : Bool) :
    w.runBehaviors p x e behaviors s result consumed =
      (p.runBehaviors x e behaviors s.machine result consumed).map fun r =>
        (s.advance w p r.1 r.2.1, r.2.2) := by
  induction behaviors generalizing s result consumed with
  | nil => rfl
  | cons b behaviors ih =>
    rw [Watcher.runBehaviors, Program.runBehaviors, hw.testGuard_eq]
    rcases Statechart.testGuard (.behavior x e) b.guard s.machine.vars with ⟨passed, tested⟩
    cases passed with
    | false =>
      simp only [ih, Watched.machine_advance]
      cases p.runBehaviors x e behaviors s.machine result consumed with
      | none => rfl
      | some rest => simp
    | true =>
      cases b.effect with
      | transition q =>
        simp only [Watched.tell_eq, hw.execute_eq, Watched.machine_advance]
        cases p.execute s.machine q with
        | none => rfl
        | some moved => simp
      | internal action consume =>
        simp only [Watched.tell_eq, runAction_eq, Watcher.consult, Program.consult, ih,
          Watched.machine_advance]
        cases p.runBehaviors x e behaviors _ _ _ with
        | none => rfl
        | some rest => simp

theorem handle_eq (x : StateId) (e : EventId) (s : Watched V T) (result : SendResult) :
    w.handle p x e s result =
      (p.handle x e s.machine result).map fun r => (s.advance w p r.1 r.2.1, r.2.2) := by
  simp only [Watcher.handle, Program.handle, hw.runBehaviors_eq, Option.bind_eq_bind,
    Option.map_bind]
  cases p.nextAncestor? x e with
  | none => rfl
  | some next =>
    cases p.behaviors? x e with
    | none => rfl
    | some behaviors =>
      simp only [Option.bind_some, Function.comp]
      cases p.runBehaviors x e behaviors s.machine result false <;> rfl

theorem bubble_eq (e : EventId) (n : Nat) (next : Option StateId) (s : Watched V T)
    (result : SendResult) :
    w.bubble p e n next s result =
      (p.bubble e n next s.machine result).map fun r => (s.advance w p r.1 r.2.1, r.2.2) := by
  induction n generalizing next s result with
  | zero => cases next <;> rfl
  | succ n ih =>
    cases next with
    | none => rfl
    | some x =>
      simp only [Watcher.bubble, Program.bubble, hw.handle_eq, Option.bind_eq_bind,
        Option.map_bind]
      cases p.handle x e s.machine result with
      | none => rfl
      | some handled =>
        obtain ⟨m, journal, result, verdict⟩ := handled
        simp only [Option.map_some, Option.bind_some, Function.comp]
        cases verdict with
        | consumed => rfl
        | bubble next =>
          simp only [ih, Watched.machine_advance]
          cases p.bubble e n next m result with
          | none => rfl
          | some rest => simp

theorem dispatch_eq (s : Watched V T) (e : EventId) :
    w.dispatch p s e =
      (p.dispatch s.machine e).map fun r => (s.advance w p r.1 r.2.1, r.2.2) := by
  simp only [Watcher.dispatch, Program.dispatch, Watched.tell_eq, hw.bubble_eq,
    Watched.machine_advance, Option.bind_eq_bind, Option.map_bind]
  cases p.bubble e p.states.size (s.machine.table.handler e) s.machine .noMatch with
  | none => rfl
  | some handled => simp

/-- A faithful watcher is told what the machine does, and that is all. -/
theorem perform_eq (s : Watched V T) (command : Command V) :
    w.perform p s command =
      (p.perform s.machine command).map fun r => (s.advance w p r.1 r.2.1, r.2.2) := by
  cases command with
  | start =>
    simp only [Watcher.perform, Program.perform, hw.start_eq]
    cases p.start s.machine <;> rfl
  | dispatch e =>
    simp only [Watcher.perform, Program.perform, hw.dispatch_eq]
    cases p.dispatch s.machine e <;> rfl
  | clearHistory => rfl
  | assign change => rfl

end Watcher.Faithful

/-! ## Logs and recorders -/

def LogLine.isHost : LogLine → Bool
  | tracer _ => false
  | host _ => true

theorem hear_tracer (tracer : Tracer) (t : Unit) (message : Option Message) :
    (tracer.watcher.hear t message).2.1 = (message.bind tracer.line).toList := by
  rcases message with _ | (_ | _) <;> rfl

theorem hear_recorder (r : Recorder) (message : Option Message) :
    (Recorder.watcher.hear r message).1.messages =
      r.messages ++ (message.bind Tracer.recording.line).toList := by
  rcases message with _ | (_ | _) <;>
    simp [Watcher.hear, Recorder.watcher, Recorder.keep, Recorder.messages]

namespace Watched

variable {w : Watcher T} {p : Program V} {m : Machine V}

theorem advance_cons (s : Watched V T) (o : Occurrence V) (journal : Journal V) :
    s.advance w p m (o :: journal) = (w.tell p s o).advance w p m journal := rfl

theorem journal_advance (s : Watched V T) (journal : Journal V) :
    (s.advance w p m journal).journal = s.journal ++ journal := by
  induction journal generalizing s with
  | nil => exact (List.append_nil _).symm
  | cons o journal ih =>
    rw [advance_cons, ih, Watcher.tell, Watcher.note, List.append_assoc, List.singleton_append]

/-- Without the lines of the watcher the log holds what the host remarks. -/
theorem filter_log_advance (s : Watched V T) (journal : Journal V) :
    (s.advance w p m journal).log.filter (·.isHost) =
      s.log.filter (·.isHost) ++ journal.flatMap (·.remarks.map .host) := by
  induction journal generalizing s with
  | nil => exact (List.append_nil _).symm
  | cons o journal ih =>
    have htell : (w.tell p s o).log.filter (·.isHost) =
        s.log.filter (·.isHost) ++ o.remarks.map .host := by
      simp [Watcher.tell, Watcher.note, LogLine.isHost, List.filter_map, Function.comp_def]
    rw [advance_cons, ih, htell, List.append_assoc, List.flatMap_cons]

/-- A tracer that watches writes the log that its lines make of the journal. -/
theorem log_advance (tracer : Tracer) (s : Watched V Unit) (journal : Journal V) :
    (s.advance tracer.watcher p m journal).log = s.log ++ p.log tracer journal := by
  induction journal generalizing s with
  | nil => exact (List.append_nil _).symm
  | cons o journal ih =>
    have htell : (tracer.watcher.tell p s o).log = s.log ++ p.logOf tracer o := by
      rw [Watcher.tell, Watcher.note, hear_tracer, Program.logOf, Program.traceLine,
        Option.toList_map]
    rw [advance_cons, ih, htell, List.append_assoc, Program.log, Program.log, List.flatMap_cons]

/-- A recorder that watches keeps the lines that are recorded of the journal. -/
theorem messages_advance (s : Watched V Recorder) (journal : Journal V) :
    (s.advance Recorder.watcher p m journal).watcher.messages =
      (s.watcher.record p journal).messages := by
  rw [Recorder.messages_record]
  induction journal generalizing s with
  | nil => exact (List.append_nil _).symm
  | cons o journal ih =>
    have htell : (Recorder.watcher.tell p s o).watcher.messages =
        s.watcher.messages ++ (p.traceLine .recording o).toList :=
      hear_recorder _ _
    rw [advance_cons, ih, htell, List.append_assoc, List.filterMap_cons]
    cases p.traceLine .recording o <;> rfl

end Watched

/-! ## Watched runs -/

namespace Watcher

/-- The watched machine after each command, with what came of it. -/
def performEach (w : Watcher T) (p : Program V) :
    Watched V T → List (Command V) → Option (List (Watched V T × Option SendResult))
  | _, [] => some []
  | s, command :: commands => do
    let (s, result) ← w.perform p s command
    let rest ← performEach w p s commands
    return (s, result) :: rest

/-- The watchers there are: one that writes the lines of a tracer, the recorder, and whatever
treats guards like everything else. -/
inductive Provided : {T : Type} → Watcher T → Prop
  | tracer (tracer : Tracer) : Provided tracer.watcher
  | recorder : Provided Recorder.watcher
  | ofTrace {T : Type} (trace : T → String → T × List String) : Provided (.ofTrace trace)

theorem Provided.faithful {w : Watcher T} (h : w.Provided) : w.Faithful := by
  cases h with
  | tracer tracer => exact fun _ _ _ => rfl
  | recorder => exact fun _ _ _ => rfl
  | ofTrace trace => exact fun _ _ _ => rfl

end Watcher

variable {T₁ T₂ : Type}

/-- The machines have gone through the same. -/
structure Watched.Agrees (s₁ : Watched V T₁) (s₂ : Watched V T₂) : Prop where
  machine : s₁.machine = s₂.machine
  journal : s₁.journal = s₂.journal

/-- The machines have gone through the same, and the log of the first is that of the second without
the lines of the watcher. -/
structure Watched.Mutes (s₁ : Watched V T₁) (s₂ : Watched V T₂) : Prop extends s₁.Agrees s₂ where
  log : s₁.log = s₂.log.filter (·.isHost)

namespace Watched

variable {p : Program V}

theorem Agrees.advance {w₁ : Watcher T₁} {w₂ : Watcher T₂} {s₁ : Watched V T₁}
    {s₂ : Watched V T₂} (h : s₁.Agrees s₂) (m : Machine V) (journal : Journal V) :
    (s₁.advance w₁ p m journal).Agrees (s₂.advance w₂ p m journal) :=
  ⟨rfl, by rw [journal_advance, journal_advance, h.journal]⟩

theorem log_silent (p : Program V) (journal : Journal V) :
    p.log .silent journal = journal.flatMap (·.remarks.map .host) := by
  have hline : ∀ o, p.logOf .silent o = o.remarks.map .host := by
    intro o
    have hnone : p.traceLine .silent o = none := Option.bind_fun_none _
    rw [Program.logOf, hnone]
    exact List.append_nil _
  rw [Program.log, funext hline]

theorem Mutes.advance {w : Watcher T} {quiet : Watched V Unit} {s : Watched V T}
    (h : quiet.Mutes s) (m : Machine V) (journal : Journal V) :
    (quiet.advance Tracer.silent.watcher p m journal).Mutes (s.advance w p m journal) :=
  ⟨h.toAgrees.advance m journal, by
    rw [log_advance, log_silent, filter_log_advance, h.log]⟩

end Watched

/-- Two watched machines stay in step: what holds of both, and goes on to hold when both watchers
are told the same, holds after each command. -/
theorem Program.Sound.exists_performEach {p : Program V} (hp : p.Sound) {w₁ : Watcher T₁}
    {w₂ : Watcher T₂} (h₁ : w₁.Faithful) (h₂ : w₂.Faithful)
    (R : Watched V T₁ → Watched V T₂ → Prop)
    (hmachine : ∀ {s₁ s₂}, R s₁ s₂ → s₁.machine = s₂.machine)
    (hadvance : ∀ {s₁ s₂}, R s₁ s₂ → ∀ m journal,
      R (s₁.advance w₁ p m journal) (s₂.advance w₂ p m journal))
    (s₁ : Watched V T₁) (s₂ : Watched V T₂) (hR : R s₁ s₂) (hm : s₁.machine.Resting p)
    (commands : List (Command V)) :
    ∃ steps₁ steps₂, w₁.performEach p s₁ commands = some steps₁ ∧
      w₂.performEach p s₂ commands = some steps₂ ∧
      List.Forall₂ (fun x₁ x₂ => x₁.2 = x₂.2 ∧ R x₁.1 x₂.1) steps₁ steps₂ := by
  induction commands generalizing s₁ s₂ with
  | nil => exact ⟨[], [], rfl, rfl, .nil⟩
  | cons command commands ih =>
    obtain ⟨m, journal, result, hperform⟩ := hp.exists_perform_of_resting hm command
    obtain ⟨rest₁, rest₂, hrest₁, hrest₂, hsteps⟩ :=
      ih _ _ (hadvance hR m journal) (hp.performs hm hperform).2
    -- Both do what the machine does that they have in common.
    have hperform₁ := h₁.perform_eq p s₁ command
    have hperform₂ := h₂.perform_eq p s₂ command
    rw [hperform] at hperform₁
    rw [← hmachine hR, hperform] at hperform₂
    exact ⟨(s₁.advance w₁ p m journal, result) :: rest₁,
      (s₂.advance w₂ p m journal, result) :: rest₂,
      by simp [Watcher.performEach, hperform₁, hrest₁],
      by simp [Watcher.performEach, hperform₂, hrest₂], .cons ⟨rfl, hadvance hR m journal⟩ hsteps⟩

namespace Chart

variable {c : Chart V} {p : Program V}

/-- Whoever watches, a machine does the same: two runs agree command by command on the results, the
variables, the histories and the tables, and on every guard tested and action run. An unwatched run
logs what the watched one does, but for the lines of the watcher. -/
theorem watching_changes_nothing (hc : c.Drafted) (h : c.compile = .ok p) {w₁ : Watcher T₁}
    {w₂ : Watcher T₂} (h₁ : w₁.Provided) (h₂ : w₂.Provided) (t₁ : T₁) (t₂ : T₂) (vars : V)
    (commands : List (Command V)) :
    ∃ quiet steps₁ steps₂,
      Tracer.silent.watcher.performEach p (p.watched () vars) commands = some quiet ∧
      w₁.performEach p (p.watched t₁ vars) commands = some steps₁ ∧
      w₂.performEach p (p.watched t₂ vars) commands = some steps₂ ∧
      List.Forall₂ (fun x₁ x₂ => x₁.2 = x₂.2 ∧ x₁.1.Agrees x₂.1) steps₁ steps₂ ∧
      List.Forall₂ (fun x₀ x₁ => x₀.2 = x₁.2 ∧ x₀.1.Mutes x₁.1) quiet steps₁ := by
  have hp := hc.linked.sound_of_compile h
  have hsilent : Tracer.silent.watcher.Faithful := (Watcher.Provided.tracer .silent).faithful
  obtain ⟨steps₁, steps₂, hrun₁, hrun₂, hagree⟩ := hp.exists_performEach h₁.faithful h₂.faithful
    Watched.Agrees (fun hs => hs.machine) Watched.Agrees.advance (p.watched t₁ vars)
    (p.watched t₂ vars) ⟨rfl, rfl⟩ (p.resting_machine vars) commands
  obtain ⟨quiet, steps₁', hquiet, hrun₁', hmutes⟩ := hp.exists_performEach hsilent h₁.faithful
    Watched.Mutes (fun hs => hs.machine) Watched.Mutes.advance (p.watched () vars)
    (p.watched t₁ vars) ⟨⟨rfl, rfl⟩, rfl⟩ (p.resting_machine vars) commands
  obtain rfl : steps₁ = steps₁' := Option.some.inj (hrun₁.symm.trans hrun₁')
  exact ⟨quiet, steps₁, steps₂, hquiet, hrun₁, hrun₂, hagree, hmutes⟩

theorem relay_watching_changes_nothing :
    ∃ p quiet steps₁ steps₂, relay.compile = .ok p ∧
      Tracer.silent.watcher.performEach p (p.watched () 0)
        [.start, .dispatch 1, .dispatch 1, .assign (· + 1), .dispatch 1] = some quiet ∧
      Recorder.watcher.performEach p (p.watched {} 0)
        [.start, .dispatch 1, .dispatch 1, .assign (· + 1), .dispatch 1] = some steps₁ ∧
      Tracer.headed.watcher.performEach p (p.watched () 0)
        [.start, .dispatch 1, .dispatch 1, .assign (· + 1), .dispatch 1] = some steps₂ ∧
      List.Forall₂ (fun x₁ x₂ => x₁.2 = x₂.2 ∧ x₁.1.Agrees x₂.1) steps₁ steps₂ ∧
      List.Forall₂ (fun x₀ x₁ => x₀.2 = x₁.2 ∧ x₀.1.Mutes x₁.1) quiet steps₁ := by
  obtain ⟨p, hp⟩ := exists_ok_of_isOk relay_compile_isOk
  obtain ⟨quiet, steps₁, steps₂, hquiet, hrun₁, hrun₂, hagree, hmutes⟩ :=
    watching_changes_nothing relay_drafted hp .recorder (.tracer .headed) {} () 0
      [.start, .dispatch 1, .dispatch 1, .assign (· + 1), .dispatch 1]
  exact ⟨p, quiet, steps₁, steps₂, hp, hquiet, hrun₁, hrun₂, hagree, hmutes⟩

/-- A watcher that meddles does change the run: handed an open guard, the machine takes the other
branch. -/
example :
    (do
      let p ← relay.compile.toOption
      let meddling : Watcher Unit := ⟨fun _ _ => ((), []), fun _ _ _ => ((), [], true)⟩
      let quiet ← Tracer.silent.watcher.performEach p (p.watched () 0) [.start, .dispatch 1]
      let steps ← meddling.performEach p (p.watched () 0) [.start, .dispatch 1]
      return (quiet.map (·.1.machine.table.settled), steps.map (·.1.machine.table.settled))) =
      some ([some 1, some 4], [some 1, some 3]) := by decide +kernel

end Chart

end Statechart
