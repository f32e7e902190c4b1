import Espalier.Proofs.Print.Layout
import Espalier.Proofs.Spacing

/-!
# Indentation

Where the lines that the printer indents start between tokens, indentation is only layout: the text
that is printed with any blanks as the unit is parsed as the one that is printed without
(`Program.parse_print_indented`). The blanks that a layout puts in are a spacing of the text without
them (`Layout.spacing`).
-/

namespace Espalier

open Token Text

namespace Print

theorem newline_empty (depth : Nat) : newline "" depth = "\n" := by
  have hjoin : String.join (List.replicate depth "") = "" := by
    induction depth with
    | zero => rfl
    | succ depth ih => rw [List.replicate_succ, String.join_cons, ih]; rfl
  unfold newline
  rw [hjoin]
  rfl

namespace Layout

variable {unit : String} {l : Layout} {pos n : Nat}

/-- The blanks that stand in front of a place of the text that is rendered without indentation,
where that text starts at `pos`. -/
def blanks (unit : String) : Layout → Nat → Nat → List Char
  | [], _, _ => []
  | .text chars :: l, pos, n => blanks unit l (pos + chars.utf8ByteSize) n
  | .line depth :: l, pos, n =>
    if n = pos + 1 then (String.join (List.replicate depth unit)).toList
    else blanks unit l (pos + 1) n

/-- What is put in by a layout is blank if the unit is. -/
theorem isBlankText_blanks (hunit : IsBlankText unit.toList) (l : Layout) (pos n : Nat) :
    IsBlankText (l.blanks unit pos n) := by
  induction l generalizing pos with
  | nil => exact nofun
  | cons p l ih =>
    cases p with
    | text chars => exact ih _
    | line depth =>
      rw [blanks]
      split
      · exact isBlank_of_mem_indentation hunit depth
      · exact ih _

/-- Blanks stand only behind the line breaks of a layout that start an indented line. -/
theorem exists_of_blanks (h : l.blanks unit pos n ≠ []) :
    ∃ (before : Layout) (depth : Nat) (after : Layout), l = before ++ .line (depth + 1) :: after ∧
      n = pos + (before.render "").utf8ByteSize + 1 := by
  -- over the pieces, with the place where each one starts
  induction l generalizing pos with
  | nil => exact absurd rfl h
  | cons p l ih =>
    cases p with
    | text chars =>
      obtain ⟨before, depth, after, rfl, hn⟩ := ih (show Layout.blanks unit l _ n ≠ [] from h)
      refine ⟨.text chars :: before, depth, after, rfl, ?_⟩
      rw [hn, render_cons, String.utf8ByteSize_append, ← Nat.add_assoc]
      rfl
    | line depth =>
      rw [blanks] at h
      split at h
      · next hn =>
        cases depth with
        | zero => exact absurd rfl h
        | succ depth => exact ⟨[], depth, l, rfl, hn⟩
      · obtain ⟨before, depth', after, rfl, hn⟩ := ih h
        refine ⟨.line depth :: before, depth', after, rfl, ?_⟩
        have hsize : (Piece.render "" (.line depth)).utf8ByteSize = 1 := by
          rw [Piece.render, newline_empty]
          rfl
        rw [hn, render_cons, String.utf8ByteSize_append, hsize]
        omega

/-- Blanks stand behind a line feed, so never where a layout starts. -/
theorem lt_of_blanks (h : l.blanks unit pos n ≠ []) : pos < n := by
  obtain ⟨before, depth, after, -, hn⟩ := exists_of_blanks h
  omega

/-- A layout is rendered with a unit as the text without indentation in which its blanks are put. -/
theorem inner_render {w : Spacing} (hw : ∀ n, pos < n → w.blanks n = l.blanks unit pos n) :
    w.inner pos (l.render "").toList = (l.render unit).toList := by
  induction l generalizing pos with
  | nil => rfl
  | cons p l ih =>
    rw [render_cons, render_cons, String.toList_append, String.toList_append]
    cases p with
    | text chars =>
      -- inside a text nothing is put in
      have hclear (n : Nat) (hlt : pos < n) (hle : n ≤ pos + bytes chars.toList) :
          w.blanks n = [] := by
        rw [hw n hlt]
        refine Decidable.byContradiction fun hn => ?_
        have hlt' := lt_of_blanks (show Layout.blanks unit l _ n ≠ [] from hn)
        rw [bytes_toList] at hle
        omega
      show w.inner pos (chars.toList ++ _) = chars.toList ++ _
      rw [w.inner_append_of_clear hclear, ih]
      intro n hlt
      rw [bytes_toList]
      rw [bytes_toList] at hlt
      exact hw n (by omega)
    | line depth =>
      have hline : (Piece.render "" (.line depth)).toList = ['\n'] := by
        rw [Piece.render, newline_empty]
        rfl
      have hsize : '\n'.utf8Size = 1 := rfl
      -- behind a line feed its indentation is put in, and nothing else before the next one
      have hindent : w.blanks (pos + 1) = (String.join (List.replicate depth unit)).toList :=
        (hw _ (Nat.lt_succ_self pos)).trans (if_pos rfl)
      rw [hline, List.singleton_append, w.inner_cons, hsize, hindent, ih]
      · rw [Piece.render, newline, String.toList_append, List.append_assoc]
        rfl
      · intro n hlt
        exact (hw n (by omega)).trans (if_neg (by omega))

/-- The blanks that a layout puts into the text without indentation. -/
def spacing (l : Layout) (hunit : IsBlankText unit.toList) : Spacing :=
  ⟨l.blanks unit 0, l.isBlankText_blanks hunit 0⟩

theorem respace_spacing (l : Layout) (hunit : IsBlankText unit.toList) :
    (l.spacing hunit).respace 0 (l.render "").toList = (l.render unit).toList := by
  have hstart : (l.spacing hunit).blanks 0 = [] :=
    Decidable.byContradiction fun h => absurd (lt_of_blanks h) (Nat.lt_irrefl 0)
  rw [Spacing.respace_eq, hstart, List.nil_append]
  exact inner_render fun _ _ => rfl

end Layout

end Print

namespace Program

/-- At a place of the text that is printed without indentation, the printer starts an indented
line. -/
def IndentsAt (p : Program) (n : Nat) : Prop :=
  ∃ (before after : String → String) (depth : Nat), n = (before "").utf8ByteSize + 1 ∧
    ∀ unit, p.print unit = before unit ++ Print.newline unit (depth + 1) ++ after unit

/-- The text of a program is laid out: the unit occurs in its indentation only. -/
theorem isLaidOut_print (p : Program) : Print.IsLaidOut fun unit => p.print unit :=
  (Print.areLaidOut_stmts 0 p.body).intercalate "\n"

/-- **Indentation.** If the text that a program is printed as without indentation is accepted, and
none of its tokens holds a place where the printer indents a line, then any blanks may be the unit
of indentation, and the text is accepted as the same program but for its spans. -/
theorem parse_print_indented {p q : Program} {options : ParserOptions} {unit : String}
    (hunit : ∀ c ∈ unit.toList, c = ' ' ∨ c = '\t')
    (h : Program.parse (p.print "") options = .ok q)
    (houtside : ∀ n, p.IndentsAt n → ∀ t ∈ Parse.statements.tokensLeft (p.print "") options,
      ¬(t.span.start < n ∧ n < t.span.stop)) :
    ∃ q', Program.parse (p.print unit) options = .ok q' ∧ q'.withoutSpans = q.withoutSpans := by
  obtain ⟨l, hl⟩ := p.isLaidOut_print
  dsimp only at hl
  refine parse_respace (w := l.spacing hunit) ?_ h fun n hn => .inr ?_
  · rw [hl, hl, l.respace_spacing hunit]
  obtain ⟨before, depth, after, rfl, hplace⟩ := Print.Layout.exists_of_blanks hn
  rw [Nat.zero_add] at hplace
  -- the place where blanks are put in lies behind a line feed of the printer
  have hprint (unit : String) : p.print unit =
      before.render unit ++ Print.newline unit (depth + 1) ++ after.render unit := by
    rw [hl, Print.Layout.render_append, Print.Layout.render_cons, String.append_assoc]
    rfl
  refine ⟨⟨(before.render "").toList, (Print.Layout.render after "").toList, ?_, ?_⟩, ?_⟩
  · rw [hprint, Print.newline_empty, String.toList_append, String.toList_append,
      List.append_assoc]
    rfl
  · rw [hplace, bytes_toList]
  · exact houtside n ⟨before.render, after.render, depth, hplace, hprint⟩

/-- A block with a statement, in a line of its own. -/
theorem parse_print_indented_block :
    ∃ p q q' : Program, p.print "\t" = "\x7b\n\ta;\n\x7d" ∧ p.IndentsAt 2 ∧
      Program.parse (p.print "") = .ok q ∧ Program.parse (p.print "\t") = .ok q' ∧
      q'.withoutSpans = q.withoutSpans := by
  let body : Block := ⟨[.expr .forgotten (.ident ⟨"a", .forgotten⟩)], .forgotten⟩
  let p : Program := ⟨[.block body], .script, .forgotten⟩
  have hindents : p.IndentsAt 2 := by
    refine ⟨fun _ => "\x7b", fun unit => "a;" ++ Print.newline unit 0 ++ "\x7d", 0, rfl, ?_⟩
    intro unit
    have hline : p.print unit = "\n".intercalate ["\x7b" ++
        String.join [Print.newline unit 1 ++ "a;"] ++ Print.newline unit 0 ++ "\x7d"] := rfl
    rw [hline, String.intercalate_singleton, String.join_cons]
    simp only [String.join_nil, String.append_assoc, String.append_empty]
  have haccepts : (Program.parse (p.print "")).toOption.isSome := by decide +kernel
  -- no token is long enough to have a place inside
  have hshort : ∀ t ∈ Parse.statements.tokensLeft (p.print "") {},
      t.span.stop ≤ t.span.start + 1 := by
    decide +kernel
  obtain ⟨q, h⟩ := exists_ok_of_isSome haccepts
  have houtside (n : Nat) (t : Token) (ht : t ∈ Parse.statements.tokensLeft (p.print "") {}) :
      ¬(t.span.start < n ∧ n < t.span.stop) := by
    have hstop := hshort t ht
    omega
  obtain ⟨q', hq', heq⟩ : ∃ q', Program.parse (p.print "\t") = .ok q' ∧
      q'.withoutSpans = q.withoutSpans :=
    parse_print_indented (by simp) h fun n _ => houtside n
  exact ⟨p, q, q', by decide +kernel, hindents, h, hq', heq⟩

end Program

end Espalier
