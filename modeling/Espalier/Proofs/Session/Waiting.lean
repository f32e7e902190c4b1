import Espalier.Proofs.Session.Course

/-!
# Changes of the input that wait

A change of the input waits until the timer is looked at late enough, and another change before that
takes its place (`Session.Waits`). The timer shows what waits (`Session.waits_iff`), whatever the
order of the events and of their times. So the input is accepted at a look, and just if a change
waits and its delay is over; it is accepted as the latest change has left it, at most once for each
change; and what is derived from it stays as it is in between (`Session.accepts_latest_change`).
-/

namespace Espalier.Session

/-- The time of a look at the timer. -/
def Event.look? (shortcut : KeyChord) : Event → Option Nat
  | .poll now => some now
  | .pressKey key now => if shortcut.accepts key then some now else none
  | .changeInput .. | .changeCode _ | .moveCaret _ | .runNow => none

/-- The text and the time of a change of the input. -/
def Event.change? : Event → Option (String × Nat)
  | .changeInput text now => some (text, now)
  | .poll _ | .changeCode _ | .pressKey .. | .moveCaret _ | .runNow => none

/-- Whether an event moves the cursor, which makes the outline anew. -/
def Event.movesCaret : Event → Bool
  | .moveCaret _ => true
  | .changeInput .. | .poll _ | .changeCode _ | .pressKey .. | .runNow => false

/-- Whether the input is accepted in an event. -/
def accepts (s : Session) : Event → Bool
  | .poll now => (s.poll now).2
  | .pressKey key now => s.settings.shortcut.accepts key && (s.poll now).2
  | .changeInput .. | .changeCode _ | .moveCaret _ | .runNow => false

/-- The events, each with the session that it comes to. -/
def steps (s : Session) : List Event → List (Session × Event)
  | [] => []
  | e :: events => (s, e) :: steps (s.after e) events

/-- Whether the input is accepted in none of the events. -/
def Rests (s : Session) (events : List Event) : Prop :=
  ∀ step ∈ s.steps events, step.1.accepts step.2 = false

/-- How often the input is accepted in the course of the events. -/
def acceptances (s : Session) (events : List Event) : Nat :=
  (s.steps events).countP fun step => step.1.accepts step.2

/-- The steps of two courses, one after the other. -/
theorem steps_append (s : Session) (events more : List Event) :
    s.steps (events ++ more) = s.steps events ++ (events.foldl after s).steps more := by
  induction events generalizing s with
  | nil => rfl
  | cons e events ih => exact congrArg (List.cons (s, e)) (ih (s.after e))

theorem rests_nil (s : Session) : s.Rests [] := fun _ h => absurd h List.not_mem_nil

/-- A session rests when it accepts nothing now and rests from then on. -/
theorem rests_cons {s : Session} {e : Event} {events : List Event} :
    s.Rests (e :: events) ↔ s.accepts e = false ∧ (s.after e).Rests events :=
  List.forall_mem_cons

theorem rests_append {s : Session} {events more : List Event} :
    s.Rests (events ++ more) ↔ s.Rests events ∧ (events.foldl after s).Rests more := by
  rw [Rests, steps_append, List.forall_mem_append]
  rfl

section

variable (settings : Settings) (input code : String)

/-- After the events, the change to a text at a time waits: it is the latest change, and since then
the input has not been accepted. -/
def Waits (events : List Event) (text : String) (time : Nat) : Prop :=
  ∃ before later, events = before ++ .changeInput text time :: later ∧
    (∀ e ∈ later, e.change? = none) ∧
    (course settings input code (before ++ [.changeInput text time])).Rests later

end

/-! ### Single events -/

variable {settings : Settings} {input code : String} {s : Session}

/-- Reading again touches only what is derived from the input. -/
theorem reparse_eq (s : Session) :
    ∃ ast outline parseError, s.reparse = { s with ast, outline, parseError } := by
  unfold reparse
  split
  · exact ⟨_, _, _, rfl⟩
  · exact ⟨s.ast, s.outline, _, rfl⟩

/-- Moving the caret touches neither input nor timer. -/
theorem moveCaret_eq (s : Session) (caret : Caret) :
    ∃ active outline host decorations,
      s.moveCaret caret = { s with active, outline, host, decorations } := by
  unfold moveCaret
  dsimp only
  split
  · exact ⟨s.active, s.outline, s.host, s.decorations, rfl⟩
  · obtain ⟨host, decorations, heq, -⟩ :=
      redecorate_eq (reproject { s with active := caret.locate? s.code })
    exact ⟨_, _, host, decorations, heq⟩

/-- The input is accepted as it is now, and neither it nor the timer is changed by that. -/
theorem flush_frame (s : Session) :
    s.flush.accepted = s.input ∧ s.flush.input = s.input ∧ s.flush.timer = s.timer := by
  obtain ⟨ast, outline, parseError, hread⟩ := reparse_eq { s with accepted := s.input }
  obtain ⟨host, decorations, hdecorated, -⟩ := redecorate_eq
    { s with accepted := s.input, ast, outline, parseError }
  unfold flush
  rw [hread, hdecorated]
  dsimp only
  split
  · obtain ⟨output, console, hrun⟩ := runNow_eq
      { s with accepted := s.input, ast, outline, parseError, host, decorations }
    rw [hrun]
    exact ⟨rfl, rfl, rfl⟩
  · exact ⟨rfl, rfl, rfl⟩

/-- A poll accepts exactly when the timer is due. -/
theorem poll_accepts (s : Session) (now : Nat) : (s.poll now).2 = s.timer.isDue now := by
  unfold poll Timer.takeDue
  cases s.timer.isDue now with
  | true => rfl
  | false => rfl

/-- The input is accepted at a look at a timer that fires. -/
theorem accepts_iff_isDue (s : Session) (e : Event) :
    s.accepts e = true ↔ ∃ now, e.look? s.settings.shortcut = some now ∧ s.timer.isDue now := by
  cases e with
  | poll now => simp [accepts, Event.look?, poll_accepts]
  | pressKey key now =>
    cases hkey : s.settings.shortcut.accepts key with
    | true => simp [accepts, Event.look?, poll_accepts, hkey]
    | false => simp [accepts, Event.look?, hkey]
  | changeInput | changeCode | moveCaret | runNow => simp [accepts, Event.look?]

/-- Where the input is accepted, the timer is disarmed and nothing else happens. -/
theorem after_of_accepts {e : Event} (h : s.accepts e = true) :
    s.after e = flush { s with timer := s.timer.disarm } := by
  obtain ⟨now, hlook, hdue⟩ := (s.accepts_iff_isDue e).mp h
  have hpoll : s.poll now = (flush { s with timer := s.timer.disarm }, true) := by
    unfold poll Timer.takeDue
    rw [if_pos hdue]
  cases e with
  | poll time =>
    cases hlook
    rw [after, hpoll]
  | pressKey key time =>
    rw [Event.look?, Option.ite_none_right_eq_some, Option.some_inj] at hlook
    obtain ⟨hkey, rfl⟩ := hlook
    rw [after, pressKey, if_pos hkey, hpoll]
  | changeInput | changeCode | moveCaret | runNow => cases hlook

/-- An event in which the input is neither changed nor accepted leaves it, the timer and what has
been read as they are. -/
theorem after_of_not_accepts {e : Event} (hchange : e.change? = none) (h : s.accepts e = false) :
    ∃ code active outline host decorations output console,
      s.after e = { s with code, active, outline, host, decorations, output, console } ∧
        (e.movesCaret = false → outline = s.outline) := by
  -- a poll that is not due does nothing
  have hpoll (now : Nat) (hnot : (s.poll now).2 = false) : s.poll now = (s, false) := by
    rw [poll_accepts] at hnot
    unfold poll Timer.takeDue
    rw [hnot]
    rfl
  obtain ⟨output, console, hrun⟩ := s.runNow_eq
  cases e with
  | changeInput text now => cases hchange
  | poll now =>
    rw [after, hpoll now h]
    exact ⟨s.code, s.active, s.outline, s.host, s.decorations, s.output, s.console, rfl,
      fun _ => rfl⟩
  | pressKey key now =>
    rw [after, pressKey]
    split
    · next hkey =>
      rw [accepts, hkey, Bool.true_and] at h
      rw [hpoll now h]
      exact ⟨s.code, s.active, s.outline, s.host, s.decorations, output, console, hrun,
        fun _ => rfl⟩
    · exact ⟨s.code, s.active, s.outline, s.host, s.decorations, s.output, s.console, rfl,
        fun _ => rfl⟩
  | changeCode code =>
    exact ⟨code, s.active, s.outline, s.host, s.decorations, s.output, s.console, rfl, fun _ => rfl⟩
  | moveCaret caret =>
    obtain ⟨active, outline, host, decorations, hmove⟩ := s.moveCaret_eq caret
    exact ⟨s.code, active, outline, host, decorations, s.output, s.console, hmove,
      fun hcaret => Bool.noConfusion hcaret⟩
  | runNow =>
    exact ⟨s.code, s.active, s.outline, s.host, s.decorations, output, console, hrun, fun _ => rfl⟩

/-- Where the input is not accepted, what has been read stays as it is, and the outline too unless
the cursor is moved. -/
theorem read_of_not_accepts {e : Event} (h : s.accepts e = false) :
    (s.after e).accepted = s.accepted ∧ (s.after e).ast = s.ast ∧
      (s.after e).parseError = s.parseError ∧
      (e.movesCaret = false → (s.after e).outline = s.outline) := by
  cases hchange : e.change? with
  | some change =>
    cases e with
    | changeInput text now => exact ⟨rfl, rfl, rfl, fun _ => rfl⟩
    | poll | pressKey | changeCode | moveCaret | runNow => cases hchange
  | none =>
    obtain ⟨_, _, outline, _, _, _, _, heq, houtline⟩ := after_of_not_accepts hchange h
    rw [heq]
    exact ⟨rfl, rfl, rfl, houtline⟩

/-- A session starts with nothing scheduled. -/
theorem start_timer (settings : Settings) (input code : String) :
    (start settings input code).timer = { delay := settings.delay } := by
  obtain ⟨_, _, _, hread⟩ := reparse_eq
    { settings, timer := { delay := settings.delay }, input, accepted := input, code }
  unfold start
  dsimp only
  rw [hread]
  obtain ⟨_, _, hrun⟩ := runNow_eq (reparse
    { settings, timer := { delay := settings.delay }, input, accepted := input, code })
  rw [← hread, hrun, hread]

/-- What happens to the input and to the timer in an event: a change arms the timer, the input is
accepted and that disarms it, or they stay as they are. -/
theorem timer_after (s : Session) (e : Event) :
    (∃ text now, e = .changeInput text now ∧ (s.after e).input = text ∧
        (s.after e).timer = s.timer.schedule now) ∨
      (e.change? = none ∧ s.accepts e = true ∧ (s.after e).timer = s.timer.disarm) ∨
      (e.change? = none ∧ s.accepts e = false ∧ (s.after e).input = s.input ∧
        (s.after e).timer = s.timer) := by
  -- a change schedules, an acceptance disarms, everything else leaves the timer alone
  cases hchange : e.change? with
  | some change =>
    cases e with
    | changeInput text now => exact .inl ⟨text, now, rfl, rfl, rfl⟩
    | poll | pressKey | changeCode | moveCaret | runNow => cases hchange
  | none =>
    cases haccepts : s.accepts e with
    | true =>
      rw [after_of_accepts haccepts]
      exact .inr (.inl ⟨rfl, rfl, (flush_frame _).2.2⟩)
    | false =>
      obtain ⟨_, _, _, _, _, _, _, heq, -⟩ := after_of_not_accepts hchange haccepts
      rw [heq]
      exact .inr (.inr ⟨rfl, rfl, rfl, rfl⟩)

/-- The delay never changes. -/
theorem delay_course (settings : Settings) (input code : String) (events : List Event) :
    (course settings input code events).timer.delay = settings.delay := by
  induction events using List.reverseRecOn with
  | nil => exact congrArg Timer.delay (start_timer settings input code)
  | append_singleton events e ih =>
    rw [course_append, ← ih]
    rcases timer_after (course settings input code events) e with
      ⟨_, _, _, _, htimer⟩ | ⟨_, _, htimer⟩ | ⟨_, _, _, htimer⟩
    · rw [htimer, Timer.schedule]
    · rw [htimer, Timer.disarm]
    · rw [htimer]

/-- An armed timer has been armed at some time. -/
theorem exists_of_deadline (settings : Settings) (input code : String) (events : List Event) :
    ∀ deadline ∈ (course settings input code events).timer.deadline,
      ∃ time, deadline = time + settings.delay := by
  induction events using List.reverseRecOn with
  | nil =>
    have hdeadline : (course settings input code []).timer.deadline = none :=
      congrArg Timer.deadline (start_timer settings input code)
    rw [hdeadline]
    exact nofun
  | append_singleton events e ih =>
    rw [course_append]
    rcases timer_after (course settings input code events) e with
      ⟨_, now, _, _, htimer⟩ | ⟨_, _, htimer⟩ | ⟨_, _, _, htimer⟩
    · rw [htimer, Timer.schedule, delay_course]
      exact fun deadline h => ⟨now, (Option.some_inj.mp h).symm⟩
    · rw [htimer, Timer.disarm]
      exact nofun
    · rw [htimer]
      exact ih

/-! ### What waits -/

/-- A course that is taken further. -/
theorem foldl_course (events more : List Event) :
    more.foldl after (course settings input code events) =
      course settings input code (events ++ more) := by
  rw [course, course, List.foldl_append]

/-- A change waits from its event on, and as long as nothing else is to be read and it is not
accepted. -/
theorem waits_append {events : List Event} {e : Event} {text : String} {time : Nat} :
    Waits settings input code (events ++ [e]) text time ↔
      e = .changeInput text time ∨
        Waits settings input code events text time ∧ e.change? = none ∧
          (course settings input code events).accepts e = false := by
  constructor
  · rintro ⟨before, later, heq, hlater, hrests⟩
    -- either the last event is the change itself, or the change waited already before it
    rcases later.eq_nil_or_concat with rfl | ⟨later, last, rfl⟩
    · have hlast := (List.append_inj' heq rfl).2
      exact .inl (List.singleton_inj.mp hlast)
    · rw [List.concat_eq_append, ← List.cons_append, ← List.append_assoc] at heq
      obtain ⟨rfl, hlast⟩ := List.append_inj' heq rfl
      obtain rfl := List.singleton_inj.mp hlast
      rw [List.concat_eq_append, List.forall_mem_append, List.forall_mem_singleton] at hlater
      rw [List.concat_eq_append, rests_append, foldl_course, List.append_assoc,
        List.singleton_append, rests_cons] at hrests
      exact .inr ⟨⟨before, later, rfl, hlater.1, hrests.1⟩, hlater.2, hrests.2.1⟩
  · rintro (rfl | ⟨⟨before, later, rfl, hlater, hrests⟩, hchange, hnot⟩)
    · exact ⟨events, [], rfl, fun _ h => absurd h List.not_mem_nil, rests_nil _⟩
    · refine ⟨before, later ++ [e], by simp, ?_, ?_⟩
      · rw [List.forall_mem_append, List.forall_mem_singleton]
        exact ⟨hlater, hchange⟩
      · rw [rests_append, foldl_course, List.append_assoc, List.singleton_append, rests_cons]
        exact ⟨hrests, hnot, rests_nil _⟩

/-- What waits is the input as it is now, and the timer fires when its delay is over. -/
theorem waits_iff (settings : Settings) (input code : String) (events : List Event)
    (text : String) (time : Nat) :
    Waits settings input code events text time ↔
      (course settings input code events).input = text ∧
        (course settings input code events).timer.deadline = some (time + settings.delay) := by
  -- the timer tells of the last change as long as it has not been accepted
  induction events using List.reverseRecOn with
  | nil =>
    have hdeadline : (course settings input code []).timer.deadline = none :=
      congrArg Timer.deadline (start_timer settings input code)
    rw [hdeadline]
    constructor
    · rintro ⟨before, later, heq, -⟩
      cases before with
      | nil => nomatch heq
      | cons => nomatch heq
    · rintro ⟨-, h⟩
      nomatch h
  | append_singleton events e ih =>
    rw [waits_append, ih, course_append, ← delay_course settings input code events]
    rcases timer_after (course settings input code events) e with
      ⟨new, now, rfl, hinput, htimer⟩ | ⟨hchange, haccepts, htimer⟩ |
        ⟨hchange, haccepts, hinput, htimer⟩
    · rw [hinput, htimer, Timer.schedule, Option.some_inj, Nat.add_right_cancel_iff,
        Event.changeInput.injEq]
      exact or_iff_left fun h => nomatch h.2.1
    · rw [htimer, haccepts, Timer.disarm]
      refine ⟨fun h => ?_, fun h => nomatch h.2⟩
      rcases h with rfl | h
      · nomatch hchange
      · nomatch h.2.2
    · rw [hinput, htimer]
      refine ⟨fun h => ?_, fun h => .inr ⟨h, hchange, haccepts⟩⟩
      rcases h with rfl | h
      · nomatch hchange
      · exact h.1

/-- The settings never change. -/
theorem settings_course (settings : Settings) (input code : String) (events : List Event) :
    (course settings input code events).settings = settings :=
  (consistent_course settings input code events).settings_eq

/-- The input is accepted just at a look at the timer, if a change waits and its delay is over. -/
theorem accepts_iff_waits (settings : Settings) (input code : String) (events : List Event)
    (e : Event) :
    (course settings input code events).accepts e = true ↔
      ∃ now text time, e.look? settings.shortcut = some now ∧
        Waits settings input code events text time ∧ time + settings.delay ≤ now := by
  rw [accepts_iff_isDue, settings_course]
  constructor
  · rintro ⟨now, hlook, hdue⟩
    rw [Timer.isDue, Option.any_eq_true] at hdue
    obtain ⟨deadline, hdeadline, hle⟩ := hdue
    obtain ⟨time, rfl⟩ := exists_of_deadline settings input code events deadline hdeadline
    exact ⟨now, _, time, hlook,
      (waits_iff settings input code events _ time).mpr ⟨rfl, hdeadline⟩, of_decide_eq_true hle⟩
  · rintro ⟨now, text, time, hlook, hwaits, hle⟩
    refine ⟨now, hlook, ?_⟩
    rw [Timer.isDue, ((waits_iff settings input code events text time).mp hwaits).2]
    exact decide_eq_true hle

/-- The input is accepted as the change that waits has left it. -/
theorem accepted_of_waits {events : List Event} {e : Event} {text : String} {time : Nat}
    (hwaits : Waits settings input code events text time)
    (h : (course settings input code events).accepts e = true) :
    ((course settings input code events).after e).accepted = text := by
  rw [after_of_accepts h, (flush_frame _).1]
  exact ((waits_iff settings input code events text time).mp hwaits).1

/-! ### In the course of events -/

/-- Without a change there is at most one time to accept the input, and none if the timer is not
armed. -/
theorem acceptances_le (s : Session) (events : List Event) (h : ∀ e ∈ events, e.change? = none) :
    s.acceptances events ≤ if s.timer.isArmed then 1 else 0 := by
  induction events generalizing s with
  | nil => exact Nat.zero_le _
  | cons e events ih =>
    obtain ⟨hchange, hrest⟩ := List.forall_mem_cons.mp h
    have hle := ih (s.after e) hrest
    unfold acceptances at hle ⊢
    rw [steps, List.countP_cons]
    dsimp only
    rcases timer_after s e with
      ⟨_, _, rfl, _⟩ | ⟨_, haccepts, htimer⟩ | ⟨_, haccepts, _, htimer⟩
    · nomatch hchange
    · -- an acceptance disarms the timer, and no change arms it again
      obtain ⟨_, _, hdue⟩ := (s.accepts_iff_isDue e).mp haccepts
      have harmed : s.timer.isArmed = true := by
        obtain ⟨_, hdeadline, -⟩ := (Option.any_eq_true _ _).mp hdue
        rw [Timer.isArmed, hdeadline]
        rfl
      have hdisarmed : (s.after e).timer.isArmed = false := by
        rw [htimer]
        rfl
      rw [hdisarmed, if_neg nofun] at hle
      rw [haccepts, harmed, if_pos rfl]
      exact Nat.succ_le_succ hle
    · rw [htimer] at hle
      rw [haccepts, if_neg nofun]
      exact hle

/-- As long as the input is not accepted, what has been read stays as it is, and the outline too
unless the cursor is moved. -/
theorem read_of_rests (s : Session) (events : List Event) (h : s.Rests events) :
    let s' := events.foldl after s
    s'.accepted = s.accepted ∧ s'.ast = s.ast ∧ s'.parseError = s.parseError ∧
      ((∀ e ∈ events, e.movesCaret = false) → s'.outline = s.outline) := by
  induction events generalizing s with
  | nil => exact ⟨rfl, rfl, rfl, fun _ => rfl⟩
  | cons e events ih =>
    obtain ⟨hnot, hrest⟩ := rests_cons.mp h
    obtain ⟨haccepted, hast, herror, houtline⟩ := read_of_not_accepts hnot
    obtain ⟨haccepted', hast', herror', houtline'⟩ := ih (s.after e) hrest
    refine ⟨haccepted'.trans haccepted, hast'.trans hast, herror'.trans herror, fun hcaret => ?_⟩
    obtain ⟨hmoves, hcaret⟩ := List.forall_mem_cons.mp hcaret
    exact (houtline' hcaret).trans (houtline hmoves)

/-- Whatever has happened to a session, the input is accepted in an event just if that is a look at
the timer (not a change of the input), a change waits and its delay is over by then. The input is
then accepted as that change, the latest one, has left it. Until the next change it is accepted at
most once; and as long as it is not, the accepted input, the program, the error and, unless the
cursor is moved, the outline stay as they are. -/
theorem accepts_latest_change (settings : Settings) (input code : String) (events : List Event) :
    let s := course settings input code events
    (∀ e, s.accepts e = true ↔
      ∃ now text time, e.look? settings.shortcut = some now ∧
        Waits settings input code events text time ∧ time + settings.delay ≤ now) ∧
    (∀ e text time, Waits settings input code events text time → s.accepts e = true →
      (s.after e).accepted = text) ∧
    (∀ text time later, (∀ e ∈ later, e.change? = none) →
      (s.after (.changeInput text time)).acceptances later ≤ 1) ∧
    (∀ later, s.Rests later →
      let s' := course settings input code (events ++ later)
      s'.accepted = s.accepted ∧ s'.ast = s.ast ∧ s'.parseError = s.parseError ∧
        ((∀ e ∈ later, e.movesCaret = false) → s'.outline = s.outline)) := by
  intro s
  refine ⟨accepts_iff_waits settings input code events,
    fun e text time hwaits h => accepted_of_waits hwaits h,
    fun text time later hlater => acceptances_le _ later hlater,
    fun later hrests => ?_⟩
  rw [← foldl_course]
  exact read_of_rests s later hrests

/-- Of two changes the later one is accepted, when its own delay is over and not before. -/
theorem accepts_second_change :
    let events : List Event := [.changeInput "b;" 0, .changeInput "c;" 200]
    let s := course {} "a;" "" events
    s.accepts (.poll 600) = false ∧ s.accepts (.poll 700) = true ∧
      (s.after (.poll 700)).accepted = "c;" ∧ (s.after (.poll 600)).ast = s.ast := by
  intro events s
  have h := accepts_latest_change {} "a;" "" events
  have hwaits : Waits {} "a;" "" events "c;" 200 :=
    ⟨[.changeInput "b;" 0], [], rfl, fun _ h => absurd h List.not_mem_nil, rests_nil _⟩
  have hdue : s.accepts (.poll 700) = true :=
    (h.1 (.poll 700)).mpr ⟨700, "c;", 200, rfl, hwaits, by decide⟩
  have hearly : s.accepts (.poll 600) = false := by decide +kernel
  refine ⟨hearly, hdue, h.2.1 _ _ _ hwaits hdue, ?_⟩
  exact (h.2.2.2 [.poll 600] (rests_cons.mpr ⟨hearly, rests_nil _⟩)).2.1

/-- A change by itself does not have anything accepted, even where there is no delay: after two of
them, both the first one, before the second, and the second, after it, wait and are late enough. -/
theorem change_accepts_nothing :
    let settings : Settings := { delay := 0 }
    let s := course settings "a;" "" [.changeInput "b;" 0]
    let s' := s.after (.changeInput "c;" 1)
    Waits settings "a;" "" [.changeInput "b;" 0] "b;" 0 ∧ 0 + settings.delay ≤ 1 ∧
      Waits settings "a;" "" [.changeInput "b;" 0, .changeInput "c;" 1] "c;" 1 ∧
      1 + settings.delay ≤ 1 ∧ s'.accepted = "a;" := by
  intro settings s s'
  refine ⟨⟨[], [], rfl, fun _ h => absurd h List.not_mem_nil, rests_nil _⟩, by decide,
    ⟨[.changeInput "b;" 0], [], rfl, fun _ h => absurd h List.not_mem_nil, rests_nil _⟩,
    by decide, ?_⟩
  decide +kernel

end Espalier.Session

/-!
## Inputs that cannot be read

An input that turns out to be no program is accepted all the same, and the decorations are made anew
as if it had been one. But they are made of the program that there was before, so they come to the
same ranges under other numbers (`Session.flush_of_refusal`). Where inputs have to be programs
nothing else happens: the program and all that has been made of it stay
(`Session.keeps_program_of_refused_input`).
-/

namespace Espalier.Session

variable {settings : Settings} {accepted : List String} {s : Session} {e : ParseError}

/-- What is shown is read off the decorations. -/
theorem ranges_of_unzip {host : Host} {numbers : List Nat} {ranges : List SourceRange}
    (h : host.live.unzip = (numbers, ranges)) : host.ranges = ranges := by
  rw [List.unzip_eq_map] at h
  exact congrArg Prod.snd h

theorem exists_error_of_isNone {α β : Type} {x : Except α β} (h : x.toOption.isNone = true) :
    ∃ e, x = .error e := by
  cases x with
  | ok a => cases h
  | error e => exact ⟨e, rfl⟩

/-- A refused input leaves tree and outline as they were. -/
theorem reparse_of_refusal (hparse : SyntaxTree.parse s.accepted s.settings.parser = .error e) :
    s.reparse = { s with parseError := some e } := by
  unfold reparse
  rw [hparse]

/-- An input is accepted that has to be a program and is none. -/
theorem flush_of_refusal (h : Consistent settings accepted s)
    (hmode : settings.mode = .astMutation)
    (hparse : SyntaxTree.parse s.input settings.parser = .error e) :
    ∃ host decorations,
      s.flush = { s with accepted := s.input, parseError := some e, host, decorations } ∧
        host.ranges = s.host.ranges := by
  obtain ⟨host, decorations, hdecorated, hlive⟩ :=
    redecorate_eq { s with accepted := s.input, parseError := some e }
  refine ⟨host, decorations, ?_, ?_⟩
  · have hread : reparse { s with accepted := s.input } =
        { s with accepted := s.input, parseError := some e } :=
      reparse_of_refusal (by rw [h.settings_eq]; exact hparse)
    have hrun : (s.settings.mode == .directCode) = false := by rw [h.settings_eq, hmode]; rfl
    unfold flush
    rw [hread, hdecorated]
    dsimp only
    rw [hrun]
    rfl
  · -- What is to be highlighted does not depend on the input or on the error.
    have hranges : host.ranges = s.highlighted := ranges_of_unzip (hlive h.ids_eq)
    rw [hranges, ranges_of_unzip h.live_eq]

/-- Whatever has happened to a session, if a look at the timer has an input accepted that has to be
a program and is none, then the input becomes the accepted one, the reason is shown, the timer is
disarmed, and the same ranges are decorated as before. The program, its outline, the output, the
name of the nodes that are highlighted, the code, the console and all else stay as they are. -/
theorem keeps_program_of_refused_input (settings : Settings) (input code : String)
    (events : List Event) (now : Nat) (e : ParseError) (hmode : settings.mode = .astMutation) :
    let s := course settings input code events
    (s.poll now).2 = true → SyntaxTree.parse s.input settings.parser = .error e →
    ∃ host decorations,
      (s.poll now).1 =
        { s with
          accepted := s.input
          parseError := some e
          timer := s.timer.disarm
          host, decorations } ∧
      host.ranges = s.host.ranges ∧ host.live.map (·.1) = decorations := by
  intro s hpoll hparse
  have h : Consistent settings _ s := consistent_course settings input code events
  have hafter : (s.poll now).1 = flush { s with timer := s.timer.disarm } :=
    after_of_accepts (e := .poll now) hpoll
  have htimer : Consistent settings (acceptedInputs settings input code events)
      { s with timer := s.timer.disarm } := ⟨h.1, h.2, h.3, h.4, h.5, h.6⟩
  obtain ⟨host, decorations, heq, hranges⟩ := flush_of_refusal htimer hmode hparse
  have hnumbers := htimer.flush.ids_eq
  rw [heq] at hnumbers
  exact ⟨host, decorations, hafter.trans heq, hranges, hnumbers⟩

/-- The program and the highlighted identifiers of an input stay when that is changed to an opening
parenthesis. -/
theorem keeps_program_of_refused_input_paren :
    let s := course {} "a; b;" "visitor: \x7b Identifier"
      [.moveCaret ⟨1, 22⟩, .changeInput "(" 0]
    let s' := (s.poll 500).1
    s'.accepted = "(" ∧ s'.parseError.isSome = true ∧ s'.ast = s.ast ∧ s'.outline = s.outline ∧
      s'.output = s.output ∧ s'.active = s.active ∧ s'.host.ranges = s.host.ranges := by
  intro s s'
  have hwaits : Waits {} "a; b;" "visitor: \x7b Identifier"
      [.moveCaret ⟨1, 22⟩, .changeInput "(" 0] "(" 0 :=
    ⟨[.moveCaret ⟨1, 22⟩], [], rfl, fun _ h => absurd h List.not_mem_nil, rests_nil _⟩
  have hpoll : (s.poll 500).2 = true :=
    (accepts_iff_waits {} "a; b;" "visitor: \x7b Identifier" _ (.poll 500)).mpr
      ⟨500, "(", 0, rfl, hwaits, by decide⟩
  have hinput : s.input = "(" := rfl
  obtain ⟨e, hparse⟩ : ∃ e, SyntaxTree.parse "(" {} = .error e :=
    exists_error_of_isNone (by decide +kernel)
  obtain ⟨host, decorations, heq, hranges, -⟩ :=
    keeps_program_of_refused_input {} "a; b;" "visitor: \x7b Identifier"
      [.moveCaret ⟨1, 22⟩, .changeInput "(" 0] 500 e rfl hpoll hparse
  have hs' : s' = _ := heq
  rw [hs']
  exact ⟨hinput, rfl, rfl, rfl, rfl, rfl, hranges⟩

end Espalier.Session
