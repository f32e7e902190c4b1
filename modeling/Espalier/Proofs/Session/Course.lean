import Espalier.Session
import Mathlib.Data.List.Infix

/-!
# Sessions in the course of events

What a session shows is derived from its input, from the place of the cursor and from the settings,
but every event renews only some of it. `Session.Consistent` says how all of it belongs together;
each event keeps it (`Session.Consistent.after`), so it holds in the course of all events
(`Session.consistent_course`). The shortcut runs the transform on the input that is accepted then,
except where that input has just been found to be no program (`Session.shortcut_runs_transform`).
-/

namespace Espalier.Session

/-- Something that happens to a session. -/
inductive Event
  | changeInput (text : String) (now : Nat)
  | poll (now : Nat)
  | changeCode (code : String)
  | pressKey (key : KeyEvent) (now : Nat)
  | moveCaret (caret : Caret)
  | runNow

/-- A session after an event. -/
def after (s : Session) : Event → Session
  | .changeInput text now => s.changeInput text now
  | .poll now => (s.poll now).1
  | .changeCode code => s.changeCode code
  | .pressKey key now => (s.pressKey key now).1
  | .moveCaret caret => s.moveCaret caret
  | .runNow => s.runNow

section

variable (settings : Settings) (input code : String)

/-- The session to which events have led. -/
def course (events : List Event) : Session := events.foldl after (start settings input code)

/-- The inputs that were the accepted ones, the latest first: at the start and after each event. -/
def acceptedInputs (events : List Event) : List String :=
  (events.inits.map fun es => (course settings input code es).accepted).reverse

variable {settings input code}

/-- One more event is taken at the end. -/
theorem course_append (events : List Event) (e : Event) :
    course settings input code (events ++ [e]) = (course settings input code events).after e := by
  rw [course, List.foldl_append]
  rfl

/-- And with it one more input is told. -/
theorem acceptedInputs_append (events : List Event) (e : Event) :
    acceptedInputs settings input code (events ++ [e]) =
      ((course settings input code events).after e).accepted ::
        acceptedInputs settings input code events := by
  simp [acceptedInputs, List.inits_append, course_append]

end

/-! ### Single operations -/

variable {settings : Settings} {accepted : List String} {s : Session}

/-- The program that an input is, if it is one. -/
def parsed? (settings : Settings) (input : String) : Option SyntaxTree :=
  (SyntaxTree.parse input settings.parser).toOption

/-- Why an input is no program, if it is none. -/
def refusal? (settings : Settings) (input : String) : Option ParseError :=
  match SyntaxTree.parse input settings.parser with
  | .ok _ => none
  | .error e => some e

/-- The outline of a program. -/
def outlined (settings : Settings) (active : Option String) (ast : SyntaxTree) : Outline :=
  Outline.ofTree settings.outlineOptions active ast.index ast.program.tree

/-- Running changes output and console alone. -/
theorem runNow_eq (s : Session) :
    ∃ output console, s.runNow = { s with output, console } := by
  unfold runNow
  split
  · exact ⟨s.output, s.console, rfl⟩
  · exact ⟨_, _, rfl⟩

/-- Only decorations are changed. If the session knows the numbers of all of them, they are replaced
by those of what is to be highlighted. -/
theorem redecorate_eq (s : Session) :
    ∃ host decorations, s.redecorate = { s with host, decorations } ∧
      (s.host.live.map (·.1) = s.decorations →
        host.live.unzip = (decorations, s.highlighted)) := by
  unfold redecorate
  split
  · -- with nothing to show and nothing shown, the host is not asked
    next hnone =>
    rw [Bool.and_eq_true, List.isEmpty_iff, List.isEmpty_iff] at hnone
    obtain ⟨hranges, hids⟩ := hnone
    refine ⟨s.host, s.decorations, rfl, fun h => ?_⟩
    rw [hids, List.map_eq_nil_iff] at h
    rw [h, hids, hranges]
    rfl
  · refine ⟨_, _, rfl, fun h => ?_⟩
    -- all that is live belongs to this session, so all of it is taken away
    have hmem : ∀ d ∈ s.host.live, d.1 ∈ s.decorations := fun d hd => h ▸ List.mem_map_of_mem hd
    dsimp only
    rw [List.filter_eq_nil_iff.mpr ?gone, List.nil_append, List.unzip_eq_map]
    case gone =>
      intro d hd
      simpa using hmem d hd
    refine Prod.ext rfl ?_
    show List.map Prod.snd (List.map _ _) = _
    rw [List.map_map]
    exact List.zipIdx_map_fst 0 s.highlighted

/-! ### What belongs together -/

/-- What a session holds belongs together: the outline is that of its program, the program is the
latest of the accepted inputs that is one, the accepted input now is refused for the reason that is
shown, and the decorations of the editor are those of the session, on what is to be highlighted. -/
structure Consistent (settings : Settings) (accepted : List String) (s : Session) : Prop where
  settings_eq : s.settings = settings
  outline_eq : s.outline = s.ast.map (outlined settings s.active)
  accepted_eq : accepted.head? = some s.accepted
  ast_eq : s.ast = accepted.findSome? (parsed? settings)
  parseError_eq : s.parseError = refusal? settings s.accepted
  live_eq : s.host.live.unzip = (s.decorations, s.highlighted)

namespace Consistent

/-- The host shows the decorations that the session knows. -/
theorem ids_eq (h : Consistent settings accepted s) :
    s.host.live.map (·.1) = s.decorations := by
  have hlive := h.live_eq
  rw [List.unzip_eq_map] at hlive
  exact congrArg Prod.fst hlive

/-- An input may be counted as accepted once more. -/
theorem again (h : Consistent settings accepted s) :
    Consistent settings (s.accepted :: accepted) s := by
  obtain ⟨rest, rfl⟩ := List.head?_eq_some_iff.mp h.accepted_eq
  refine { h with accepted_eq := rfl, ast_eq := ?_ }
  rw [h.ast_eq]
  cases hparsed : parsed? settings s.accepted with
  | none => simp only [List.findSome?_cons, hparsed]
  | some ast => simp only [List.findSome?_cons, hparsed]

/-- Running keeps what is derived. -/
theorem runNow (h : Consistent settings accepted s) : Consistent settings accepted s.runNow := by
  obtain ⟨output, console, heq⟩ := s.runNow_eq
  rw [heq]
  exact ⟨h.1, h.2, h.3, h.4, h.5, h.6⟩

/-- The outline and the decorations are made anew after what they are made of has changed. -/
theorem moveCaret (h : Consistent settings accepted s) (caret : Caret) :
    Consistent settings accepted (s.moveCaret caret) := by
  unfold Session.moveCaret
  dsimp only
  split
  · exact h
  · obtain ⟨host, decorations, heq, hlive⟩ :=
      redecorate_eq (reproject { s with active := caret.locate? s.code })
    rw [heq]
    refine ⟨h.settings_eq, ?_, h.accepted_eq, h.ast_eq, h.parseError_eq, hlive h.ids_eq⟩
    show s.ast.map _ = s.ast.map _
    rw [← h.settings_eq]
    rfl

/-- The input is accepted. If it is a program, that takes the place of the one before; else the
program stays. -/
theorem flush (h : Consistent settings accepted s) :
    Consistent settings (s.input :: accepted) s.flush := by
  obtain ⟨r, hr⟩ : ∃ r, r = Session.reparse { s with accepted := s.input } := ⟨_, rfl⟩
  -- reading again takes over the input and all that is derived from it
  have hids : r.host.live.map (·.1) = r.decorations ∧
      r.settings = settings ∧ r.accepted = s.input ∧ r.parseError = refusal? settings s.input ∧
      r.ast = (s.input :: accepted).findSome? (parsed? settings) ∧
      r.outline = r.ast.map (outlined settings r.active) := by
    rw [List.findSome?_cons, parsed?, refusal?, ← h.settings_eq, hr]
    unfold Session.reparse
    dsimp only
    cases SyntaxTree.parse s.input s.settings.parser with
    | ok ast => exact ⟨h.ids_eq, rfl, rfl, rfl, rfl, rfl⟩
    | error e =>
      refine ⟨h.ids_eq, rfl, rfl, rfl, ?_, ?_⟩
      · rw [h.settings_eq]
        exact h.ast_eq
      · rw [h.settings_eq]
        exact h.outline_eq
  obtain ⟨hids, hsettings, haccepted, herror, hast, houtline⟩ := hids
  obtain ⟨host, decorations, heq, hlive⟩ := r.redecorate_eq
  have hread : Consistent settings (s.input :: accepted) r.redecorate := by
    rw [heq]
    refine ⟨hsettings, houtline, ?_, hast, ?_, hlive hids⟩
    · exact congrArg some haccepted.symm
    · show r.parseError = refusal? settings r.accepted
      rw [haccepted]
      exact herror
  unfold Session.flush
  rw [← hr]
  dsimp only
  split
  · exact hread.runNow
  · exact hread

/-- A new input is not read before the next flush. -/
theorem changeInput (h : Consistent settings accepted s) (text : String) (now : Nat) :
    Consistent settings accepted (s.changeInput text now) :=
  ⟨h.1, h.2, h.3, h.4, h.5, h.6⟩

/-- A new code is not run before the next flush. -/
theorem changeCode (h : Consistent settings accepted s) (code : String) :
    Consistent settings accepted (s.changeCode code) :=
  ⟨h.1, h.2, h.3, h.4, h.5, h.6⟩

/-- A look at the timer accepts the input or does nothing. -/
theorem poll (h : Consistent settings accepted s) (now : Nat) :
    Consistent settings ((s.poll now).1.accepted :: accepted) (s.poll now).1 := by
  unfold Session.poll
  split
  · next timer _ =>
    have htimer : Consistent settings accepted { s with timer } := ⟨h.1, h.2, h.3, h.4, h.5, h.6⟩
    have hflush := htimer.flush
    have haccepted := hflush.accepted_eq
    rw [List.head?_cons, Option.some_inj] at haccepted
    rw [← haccepted]
    exact hflush
  · exact h.again

/-- A key press does what a look at the timer does, and may run the transform. -/
theorem pressKey (h : Consistent settings accepted s) (key : KeyEvent) (now : Nat) :
    Consistent settings ((s.pressKey key now).1.accepted :: accepted) (s.pressKey key now).1 := by
  unfold Session.pressKey
  split
  · have hpoll := h.poll now
    split
    · next r heq =>
      rw [heq] at hpoll
      exact hpoll
    · next r heq =>
      rw [heq] at hpoll
      have hrun := hpoll.runNow
      have haccepted := hrun.accepted_eq
      rw [List.head?_cons, Option.some_inj] at haccepted
      rw [haccepted] at hrun
      exact hrun
  · exact h.again

/-- The next thing that happens leaves together what belongs together. -/
theorem after (h : Consistent settings accepted s) (e : Event) :
    Consistent settings ((s.after e).accepted :: accepted) (s.after e) := by
  cases e with
  | changeInput text now => exact (h.changeInput text now).again
  | poll now => exact h.poll now
  | changeCode code => exact (h.changeCode code).again
  | pressKey key now => exact h.pressKey key now
  | moveCaret caret => exact (h.moveCaret caret).again
  | runNow => exact h.runNow.again

end Consistent

/-- A new session is like one of which the input has been accepted. -/
theorem consistent_start (settings : Settings) (input code : String) :
    Consistent settings [input] (start settings input code) := by
  -- a session starts with its input read
  have hnew : Consistent settings [input]
      (reparse
        { settings, timer := { delay := settings.delay }, input, accepted := input, code }) := by
    unfold reparse
    dsimp only
    cases hparse : SyntaxTree.parse input settings.parser with
    | ok ast =>
      refine ⟨rfl, rfl, rfl, ?_, ?_, rfl⟩
      · simp only [List.findSome?_cons, parsed?, hparse]
        rfl
      · show none = refusal? settings input
        rw [refusal?, hparse]
    | error e =>
      refine ⟨rfl, rfl, rfl, ?_, ?_, rfl⟩
      · simp only [List.findSome?_cons, parsed?, hparse]
        rfl
      · show some e = refusal? settings input
        rw [refusal?, hparse]
  exact hnew.runNow

/-- What belongs together is together in the course of all events. -/
theorem consistent_course (settings : Settings) (input code : String) (events : List Event) :
    Consistent settings (acceptedInputs settings input code events)
      (course settings input code events) := by
  induction events using List.reverseRecOn with
  | nil =>
    have h := consistent_start settings input code
    have haccepted := h.accepted_eq
    rw [List.head?_cons, Option.some_inj] at haccepted
    have hone :
        acceptedInputs settings input code [] = [(start settings input code).accepted] := rfl
    rw [hone, ← haccepted]
    exact h
  | append_singleton events e ih =>
    rw [acceptedInputs_append, course_append]
    exact ih.after e

/-- After any events there is an outline just if there is a program, and then it is that of the
program; the program is the latest accepted input that is one; an error is shown just if the input
that is accepted now is no program; and the editor shows the decorations of the session, one on each
place of the nodes that are to be highlighted. -/
theorem derived_in_course (settings : Settings) (input code : String) (events : List Event) :
    let s := course settings input code events
    s.outline.isSome = s.ast.isSome ∧
    (s.outline = s.ast.map fun ast =>
      Outline.ofTree settings.outlineOptions s.active ast.index ast.program.tree) ∧
    (s.ast = (acceptedInputs settings input code events).findSome? fun text =>
      (SyntaxTree.parse text settings.parser).toOption) ∧
    (s.parseError.isSome ↔ ¬ ∃ ast, SyntaxTree.parse s.accepted settings.parser = .ok ast) ∧
    s.host.live.unzip = (s.decorations,
      match s.active, s.ast with
      | some name, some ast => (Highlight.ofName ast (some name)).ranges
      | _, _ => []) := by
  intro s
  have h : Consistent settings (acceptedInputs settings input code events) s :=
    consistent_course settings input code events
  refine ⟨?_, h.outline_eq, h.ast_eq, ?_, h.live_eq⟩
  · rw [h.outline_eq, Option.isSome_map]
  · -- a refusal is shown exactly as long as the accepted input is refused
    rw [h.parseError_eq, refusal?]
    cases SyntaxTree.parse s.accepted settings.parser with
    | ok ast => exact ⟨nofun, fun hnone => absurd ⟨ast, rfl⟩ hnone⟩
    | error e => exact ⟨fun _ => nofun, fun _ => rfl⟩

/-! ### The shortcut -/

/-- The result of the transform on a text. -/
def outcome (s : Session) (text : String) : TransformResult :=
  (Transform.run s.settings.transformOptions text s.code).result

/-- A session with a code shows what comes of it. -/
theorem runNow_output (s : Session) (hcode : Text.isBlank s.code = false) :
    s.runNow.output = some (s.outcome s.accepted) := by
  unfold runNow
  rw [if_neg (by rw [hcode]; nofun)]
  rfl

/-- The transform is run on the input as it is now, unless that is no program and has to be one. -/
theorem flush_output (s : Session) (hcode : Text.isBlank s.code = false) :
    s.flush.accepted = s.input ∧
      s.flush.output =
        if (refusal? s.settings s.input).isSome ∧ s.settings.mode ≠ .directCode then s.output
        else some (s.outcome s.input) := by
  obtain ⟨r, hr⟩ : ∃ r, r = Session.reparse { s with accepted := s.input } := ⟨_, rfl⟩
  have hread : r.accepted = s.input ∧ r.settings = s.settings ∧ r.code = s.code ∧
      r.output = s.output ∧ r.parseError = refusal? s.settings s.input := by
    rw [hr, refusal?]
    unfold Session.reparse
    dsimp only
    cases SyntaxTree.parse s.input s.settings.parser with
    | ok ast => exact ⟨rfl, rfl, rfl, rfl, rfl⟩
    | error e => exact ⟨rfl, rfl, rfl, rfl, rfl⟩
  obtain ⟨haccepted, hsettings, hrcode, houtput, herror⟩ := hread
  obtain ⟨host, decorations, heq, -⟩ := r.redecorate_eq
  have hflush : s.flush = if r.parseError.isNone || r.settings.mode == .directCode then
      Session.runNow { r with host, decorations } else { r with host, decorations } := by
    unfold Session.flush
    rw [← hr]
    dsimp only
    rw [heq]
  rw [hflush, ← herror, ← hsettings]
  split
  · next hrun =>
    obtain ⟨output, console, hnow⟩ := Session.runNow_eq { r with host, decorations }
    refine ⟨by rw [hnow]; exact haccepted, ?_⟩
    rw [runNow_output _ (by rw [← hcode, ← hrcode]), if_neg]
    · rw [outcome, outcome, ← hsettings, ← hrcode, ← haccepted]
    · rintro ⟨hsome, hmode⟩
      -- the transform runs when the input was read, or when it does not need it read
      rcases Bool.or_eq_true_iff.mp hrun with hnone | hdirect
      · rw [Option.isNone_iff_eq_none.mp hnone] at hsome
        exact absurd hsome nofun
      · exact hmode (eq_of_beq hdirect)
  · next hrun =>
    rw [Bool.not_eq_true, Bool.or_eq_false_iff] at hrun
    refine ⟨haccepted, ?_⟩
    rw [if_pos]
    · exact houtput
    · exact ⟨by simpa [Option.isSome_iff_ne_none] using hrun.1, by simpa using hrun.2⟩

/-- The shortcut leaves the transform run on the input that is accepted then: the input as it is now
if it is time to accept that, or else the one accepted before. The one exception is an input that
has to be a program and, now that it is accepted, turns out to be none: then the output stays the
one there was. -/
theorem shortcut_runs_transform (settings : Settings) (input code : String) (events : List Event)
    (key : KeyEvent) (now : Nat)
    (hcode : Text.isBlank (course settings input code events).code = false)
    (hkey : settings.shortcut.accepts key = true) :
    let s := course settings input code events
    let s' := (s.pressKey key now).1
    s'.accepted = (if s.timer.isDue now then s.input else s.accepted) ∧
    s'.output =
      if s.timer.isDue now ∧ settings.mode ≠ .directCode ∧
          (SyntaxTree.parse s.input settings.parser).isOk = false then s.output
      else some (Transform.run settings.transformOptions s'.accepted s.code).result := by
  intro s s'
  have hsettings : s.settings = settings :=
    (consistent_course settings input code events).settings_eq
  -- a poll that is due takes over the input, and otherwise the transform runs on what there was
  have hs' : s' = if s.timer.isDue now then Session.flush { s with timer := s.timer.disarm }
      else s.runNow := by
    show (s.pressKey key now).1 = _
    rw [Session.pressKey, if_pos (by rw [hsettings]; exact hkey), Session.poll, Timer.takeDue]
    cases s.timer.isDue now with
    | false => rfl
    | true => rfl
  cases hdue : s.timer.isDue now with
  | false =>
    rw [hdue, if_neg nofun] at hs'
    obtain ⟨output, console, hnow⟩ := s.runNow_eq
    have haccepted : s'.accepted = s.accepted := by rw [hs', hnow]
    refine ⟨haccepted, ?_⟩
    rw [if_neg (fun h => absurd h.1 nofun), haccepted, hs', s.runNow_output hcode, outcome,
      hsettings]
  | true =>
    rw [hdue, if_pos rfl] at hs'
    obtain ⟨haccepted, houtput⟩ :=
      flush_output { s with timer := s.timer.disarm } hcode
    rw [← hs'] at haccepted houtput
    refine ⟨haccepted, ?_⟩
    rw [houtput, haccepted, outcome, hsettings, refusal?]
    dsimp only
    cases SyntaxTree.parse s.input settings.parser with
    | ok ast =>
      rw [if_neg (fun h => absurd h.1 nofun), if_neg (fun h => absurd h.2.2 nofun)]
    | error e =>
      -- only a refused input in the mode that needs a program leaves the output alone
      cases settings.mode with
      | directCode => rw [if_neg (fun h => h.2 rfl), if_neg (fun h => h.2.1 rfl)]
      | astMutation => rw [if_pos ⟨rfl, nofun⟩, if_pos ⟨rfl, nofun, rfl⟩]

/-- The shortcut runs the transform on an input of which it is time to accept it. -/
theorem shortcut_runs_overdue_input :
    let s := course {} "" "1" [.changeInput "a;" 0]
    let s' := (s.pressKey { code := "Enter", shift := true } 1000).1
    s'.accepted = "a;" ∧
    s'.output = some (Transform.run (Settings.transformOptions {}) "a;" "1").result := by
  have h := shortcut_runs_transform {} "" "1" [.changeInput "a;" 0]
    { code := "Enter", shift := true } 1000 (by decide +kernel) (by decide +kernel)
  refine ⟨h.1.trans (by decide +kernel), ?_⟩
  rw [h.2, if_neg (by decide +kernel), h.1]
  decide +kernel

end Espalier.Session
