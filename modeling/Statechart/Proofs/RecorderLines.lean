import Statechart.Proofs.Watching

/-
  Which lines a recorder gives out as transitions. It tells them by their first word, and the line
  of a guard begins with the name of a state, which may be anything. The lines given out are those
  of the states entered, left and settled in, and with them those of the guards whose line opens
  like one of these (`Program.misread`, `Recorded.transitions_eq`): the name opens with one of the
  words and a blank, or it is one of the words and a blank comes after it. Names that do neither
  keep the lines apart (`misread_eq_false`); a state called `enter A` does not.
-/

namespace Statechart

variable {V : Type}

/-! ## First words -/

namespace Recorder

/-- The words that the lines of states entered, left and settled in begin with. -/
def firstWords : List String := ["enter", "exit", "settle"]

/-- A text that begins with one of the words and a blank. -/
def opensAsTransition (text : String) : Bool :=
  firstWords.any fun word => (word ++ " ").toList.isPrefixOf text.toList

/-- Followed by `sep`, the name opens a line like a transition. -/
def misreads (name : String) (sep : Char) : Bool :=
  opensAsTransition name || sep == ' ' && firstWords.contains name

theorem transitions_eq_filter (r : Recorder) :
    r.transitions = r.messages.filter opensAsTransition := by
  refine congrArg (r.messages.filter ·) (funext fun m => ?_)
  simp [opensAsTransition, firstWords, Bool.or_assoc]

/-- A word and a blank open a text that goes on with `sep` after `name` if they open the name, or
if the name is the word and `sep` the blank. -/
theorem prefix_append_cons_iff {word name rest : List Char} {sep : Char} (hsep : sep ∉ word) :
    word ++ [' '] <+: name ++ sep :: rest ↔ word ++ [' '] <+: name ∨ name = word ∧ sep = ' ' := by
  induction word generalizing name with
  | nil => cases name <;> simp [eq_comm]
  | cons w word ih =>
    rw [List.mem_cons, not_or] at hsep
    obtain ⟨hw, hword⟩ := hsep
    cases name with
    | nil => simp [Ne.symm hw]
    | cons c name =>
      simp only [List.cons_append, List.cons_prefix_cons, ih hword, List.cons.injEq]
      grind

/-- A text that goes on with a colon or a blank after a name opens as the name makes it. -/
theorem opensAsTransition_eq {text name : String} {sep : Char} {rest : List Char}
    (hsep : sep = ':' ∨ sep = ' ') (htext : text.toList = name.toList ++ sep :: rest) :
    opensAsTransition text = misreads name sep := by
  have hword : ∀ word ∈ firstWords, sep ∉ word.toList := by
    rcases hsep with rfl | rfl <;> decide
  rw [Bool.eq_iff_iff]
  simp only [opensAsTransition, misreads, Bool.or_eq_true, Bool.and_eq_true, beq_iff_eq,
    List.any_eq_true, List.contains_iff_mem, List.isPrefixOf_iff_prefix, htext,
    String.toList_append]
  constructor
  · rintro ⟨word, hmem, hopens⟩
    rcases (prefix_append_cons_iff (hword word hmem)).1 hopens with hname | ⟨hname, hblank⟩
    · exact .inl ⟨word, hmem, hname⟩
    · obtain rfl := String.toList_inj.1 hname
      exact .inr ⟨hblank, hmem⟩
  · rintro (⟨word, hmem, hname⟩ | ⟨hblank, hmem⟩)
    · exact ⟨word, hmem, (prefix_append_cons_iff (hword word hmem)).2 (.inl hname)⟩
    · exact ⟨name, hmem, (prefix_append_cons_iff (hword name hmem)).2 (.inr ⟨rfl, hblank⟩)⟩

end Recorder

/-! ## The lines of a journal -/

/-- A state was entered or left, or settled in. -/
def Occurrence.isTransition : Occurrence V → Bool
  | .entered _ => true
  | .exited _ => true
  | .settled _ => true
  | _ => false

namespace Program

variable (p : Program V)

/-- The name that the line of a guard begins with, and what comes after the name. -/
def guardHead : Site → String × Char
  | .behavior s _ => (p.label s, ':')
  | .boundary s _ => (p.label s, ' ')
  | .pseudo r => ((p.pseudostates[r]?.map fun row => p.label row.container).getD "?", ' ')
  | .plan _ => ("?", ' ')

/-- A guard was tested, and its line reads like that of a transition. -/
def misread : Occurrence V → Bool
  | .tested site _ _ _ => Recorder.misreads (p.guardHead site).1 (p.guardHead site).2
  | _ => false

theorem guardHead_snd (site : Site) :
    (p.guardHead site).2 = ':' ∨ (p.guardHead site).2 = ' ' := by
  cases site <;> simp [guardHead]

theorem exists_toList_guardText (site : Site) :
    ∃ rest, (p.guardText site).toList =
      (p.guardHead site).1.toList ++ (p.guardHead site).2 :: rest := by
  cases site with
  | behavior s e =>
    exact ⟨(" " ++ p.eventName e ++ " guard").toList, by simp [guardText, guardHead]⟩
  | boundary s b => exact ⟨(b.word ++ " guard").toList, by simp [guardText, guardHead]⟩
  | pseudo r =>
    cases hrow : p.pseudostates[r]? with
    | none => exact ⟨"guard".toList, by simp [guardText, guardHead, hrow]⟩
    | some row =>
      exact ⟨(row.kind.label ++ " guard").toList, by simp [guardText, guardHead, hrow]⟩
  | plan q => exact ⟨"guard".toList, by simp [guardText, guardHead]⟩

/-- The lines of transitions open as such, those of starts and dispatches do not, and those of
guards as the names make them. -/
theorem opensAsTransition_traceLine {o : Occurrence V} {line : String}
    (h : p.traceLine .recording o = some line) :
    Recorder.opensAsTransition line = (o.isTransition || p.misread o) := by
  -- All lines but those of guards begin with a word of their own.
  have hplain : ∀ word name, p.report o = some (.plain (word ++ " " ++ name)) →
      Recorder.opensAsTransition line = Recorder.misreads word ' ' := by
    intro word name hreport
    obtain rfl : word ++ " " ++ name = line := by
      simpa [traceLine, hreport, Tracer.recording] using h
    exact Recorder.opensAsTransition_eq (.inr rfl) (by simp : _ = _ ++ ' ' :: name.toList)
  cases o with
  | started => exact hplain "start" p.name rfl
  | dispatched e => exact hplain "dispatch" (p.eventName e) rfl
  | entered s => exact hplain "enter" (p.label s) rfl
  | exited s => exact hplain "exit" (p.label s) rfl
  | settled s => exact hplain "settle" (p.label s) rfl
  | tested site g passed remarks =>
    obtain ⟨rest, htext⟩ := p.exists_toList_guardText site
    have hline : line.toList = (p.guardText site).toList ++ (" = " ++ Text.bool passed).toList := by
      obtain rfl : p.guardText site ++ " = " ++ Text.bool passed = line := Option.some.inj h
      simp
    rw [htext, List.append_assoc] at hline
    exact Recorder.opensAsTransition_eq (p.guardHead_snd site) hline
  | consulted => cases h
  | acted => cases h
  | fired => cases h
  | passed => cases h

theorem exists_traceLine_of_misread {o : Occurrence V} (h : p.misread o) :
    ∃ line, p.traceLine .recording o = some line := by
  cases o with
  | tested site g passed remarks => exact ⟨_, rfl⟩
  | _ => cases h

/-- Guards are no transitions. -/
theorem isTransition_of_misread {o : Occurrence V} (h : p.misread o) : o.isTransition = false := by
  cases o with
  | tested site g passed remarks => rfl
  | _ => cases h

/-- No guard is misread where no state is called one of the words, or something that opens with
one. -/
theorem misread_eq_false (hnames : ∀ row ∈ p.states, Recorder.misreads row.name ' ' = false)
    (o : Occurrence V) : p.misread o = false := by
  have hunknown : Recorder.misreads "?" ' ' = false := by decide
  have hlabel : ∀ s, Recorder.misreads (p.label s) ' ' = false := by
    intro s
    rw [label]
    split
    next row hrow => exact hnames row (Array.mem_of_getElem? hrow)
    next => exact hunknown
  cases o with
  | tested site g passed remarks =>
    cases site with
    | behavior s e =>
      have hopens := (Bool.or_eq_false_iff.1 (hlabel s)).1
      simp [misread, guardHead, Recorder.misreads, hopens]
    | boundary s b => exact hlabel s
    | pseudo r =>
      rw [misread, guardHead]
      cases p.pseudostates[r]? with
      | none => exact hunknown
      | some row => exact hlabel row.container
    | plan q => exact hunknown
  | _ => rfl

end Program

/-! ## What is given out -/

/-- The recorder has kept the lines of all that the machine went through. -/
def Watched.Recorded (p : Program V) (s : Watched V Recorder) : Prop :=
  s.watcher.messages = s.journal.filterMap (p.traceLine .recording)

namespace Watched.Recorded

variable {p : Program V} {s : Watched V Recorder}

theorem advance (h : s.Recorded p) (m : Machine V) (journal : Journal V) :
    (s.advance Recorder.watcher p m journal).Recorded p := by
  rw [Recorded, messages_advance, Recorder.messages_record, h, journal_advance,
    List.filterMap_append]

theorem transitions_eq (h : s.Recorded p) :
    s.watcher.transitions =
      (s.journal.filter fun o => o.isTransition || p.misread o).filterMap
        (p.traceLine .recording) := by
  rw [Recorder.transitions_eq_filter, h, List.filter_filterMap, List.filterMap_filter]
  refine List.filterMap_congr fun o _ => ?_
  cases hline : p.traceLine .recording o with
  | none => simp
  | some line => simp [Option.filter, p.opensAsTransition_traceLine hline]

/-- Only the lines of transitions are given out exactly if no guard is misread. -/
theorem transitions_eq_iff (h : s.Recorded p) :
    s.watcher.transitions =
        (s.journal.filter (·.isTransition)).filterMap (p.traceLine .recording) ↔
      ∀ o ∈ s.journal, p.misread o = false := by
  rw [h.transitions_eq]
  induction s.journal with
  | nil => simp
  | cons o journal ih =>
    cases hmisread : p.misread o with
    | true =>
      -- The line of a misread guard makes the list longer.
      obtain ⟨line, hline⟩ := p.exists_traceLine_of_misread hmisread
      have hsublist := List.monotone_filter_right journal
        (p := (·.isTransition)) (q := fun o => o.isTransition || p.misread o)
        fun _ ho => Bool.or_eq_true_iff.2 (.inl ho)
      have hlength := (hsublist.filterMap (p.traceLine .recording)).length_le
      have hne : ∀ {lines lines' : List String}, lines'.length ≤ lines.length →
          line :: lines ≠ lines' := by
        rintro lines _ hle rfl
        simp at hle
      simp [hmisread, hline, p.isTransition_of_misread hmisread, hne hlength]
    | false =>
      cases ho : o.isTransition with
      | true => cases hline : p.traceLine .recording o <;> simp [hmisread, ho, hline, ih]
      | false => simp [hmisread, ho, ih]

end Watched.Recorded

/-- Whatever a machine at rest is told, the recorder that watches it from then on has the lines of
all that happens. -/
theorem Program.Sound.exists_recorded {p : Program V} (hp : p.Sound) {m : Machine V}
    (hm : m.Resting p) (commands : List (Command V)) :
    ∃ steps, Recorder.watcher.performEach p { machine := m, watcher := {} } commands = some steps ∧
      ∀ x ∈ steps, x.1.Recorded p := by
  have hfaithful := Watcher.Provided.recorder.faithful
  obtain ⟨steps, steps', hrun, hrun', hrecorded⟩ := hp.exists_performEach hfaithful hfaithful
    (fun s s' => s = s' ∧ s.Recorded p) (fun hs => hs.1 ▸ rfl)
    (fun hs m journal => ⟨hs.1 ▸ rfl, hs.2.advance m journal⟩)
    { machine := m, watcher := {} } { machine := m, watcher := {} } ⟨rfl, rfl⟩ hm commands
  obtain rfl : steps = steps' := Option.some.inj (hrun.symm.trans hrun')
  exact ⟨steps, hrun, fun x hx => (List.forall₂_same.1 hrecorded x hx).2.2⟩

namespace Chart

variable {c : Chart V} {p : Program V}

/-- After each command of a run that a fresh recorder watches, the transitions it gives out are, in
order, the lines of the states entered, left and settled in and of the guards that are misread. They
are the first alone exactly if none is, as when no name of a state gives cause for it. -/
theorem transitions_are_told_by_name (hc : c.Drafted) (h : c.compile = .ok p) (vars : V)
    (before commands : List (Command V)) :
    ∃ m steps, p.performAll (p.machine vars) before = some m ∧
      Recorder.watcher.performEach p { machine := m, watcher := {} } commands = some steps ∧
      ∀ x ∈ steps,
        x.1.watcher.messages = x.1.journal.filterMap (p.traceLine .recording) ∧
        x.1.watcher.transitions =
          (x.1.journal.filter fun o => o.isTransition || p.misread o).filterMap
            (p.traceLine .recording) ∧
        (x.1.watcher.transitions =
            (x.1.journal.filter (·.isTransition)).filterMap (p.traceLine .recording) ↔
          ∀ o ∈ x.1.journal, p.misread o = false) ∧
        ((∀ row ∈ p.states, Recorder.misreads row.name ' ' = false) →
          ∀ o ∈ x.1.journal, p.misread o = false) := by
  have hp := hc.linked.sound_of_compile h
  obtain ⟨m, journal, hrecord⟩ := hp.exists_recordAll (p.resting_machine vars) before
  have hbefore : p.performAll (p.machine vars) before = some m := by
    rw [Program.performAll_eq, hrecord, Option.map_some]
  obtain ⟨steps, hrun, hrecorded⟩ := hp.exists_recorded (hp.exists_performsAll hbefore).2 commands
  refine ⟨m, steps, hbefore, hrun, fun x hx => ⟨hrecorded x hx, ?_, ?_, ?_⟩⟩
  · exact (hrecorded x hx).transitions_eq
  · exact (hrecorded x hx).transitions_eq_iff
  · exact fun hnames o _ => p.misread_eq_false hnames o

/-- A guarded behavior of a state whose name opens with one of the words. -/
def gatehouseCalls : List (Draft.Call Nat) :=
  [.event "E", .state "enter A" rootState, .pseudostate rootState .initial none,
    .branch 0 [.to (.state 1)],
    .on 1 1 [.when ⟨fun _ => true, fun _ => []⟩, .action ⟨id, fun _ => []⟩]]

def gatehouse : Chart Nat := (Draft.ofCalls "gatehouse" gatehouseCalls).chart

theorem gatehouse_drafted : gatehouse.Drafted := ⟨"gatehouse", gatehouseCalls, rfl⟩

theorem gatehouse_compile_isOk : gatehouse.compile.isOk := by decide +kernel

theorem gatehouse_transitions_are_told_by_name :
    ∃ p m steps, gatehouse.compile = .ok p ∧ p.performAll (p.machine 0) [] = some m ∧
      Recorder.watcher.performEach p { machine := m, watcher := {} } [.start, .dispatch 1] =
        some steps ∧
      ∀ x ∈ steps,
        x.1.watcher.messages = x.1.journal.filterMap (p.traceLine .recording) ∧
        x.1.watcher.transitions =
          (x.1.journal.filter fun o => o.isTransition || p.misread o).filterMap
            (p.traceLine .recording) ∧
        (x.1.watcher.transitions =
            (x.1.journal.filter (·.isTransition)).filterMap (p.traceLine .recording) ↔
          ∀ o ∈ x.1.journal, p.misread o = false) ∧
        ((∀ row ∈ p.states, Recorder.misreads row.name ' ' = false) →
          ∀ o ∈ x.1.journal, p.misread o = false) := by
  obtain ⟨p, hp⟩ := exists_ok_of_isOk gatehouse_compile_isOk
  obtain ⟨m, steps, hbefore, hrun, hsteps⟩ :=
    transitions_are_told_by_name gatehouse_drafted hp 0 [] [.start, .dispatch 1]
  exact ⟨p, m, steps, hp, hbefore, hrun, hsteps⟩

/-- The guard of the state `enter A` is tested, and its line is given out as a transition. -/
theorem gatehouse_guard_among_transitions :
    (do
      let p ← gatehouse.compile.toOption
      let steps ← Recorder.watcher.performEach p (p.watched {} 0) [.start, .dispatch 1]
      let s ← steps.getLast?
      return (s.1.watcher.transitions,
        (s.1.journal.filter (·.isTransition)).filterMap (p.traceLine .recording))) =
      some (["enter ROOT", "enter enter A", "settle enter A", "enter A: E guard = true"],
        ["enter ROOT", "enter enter A", "settle enter A"]) := by decide +kernel

end Chart

end Statechart
