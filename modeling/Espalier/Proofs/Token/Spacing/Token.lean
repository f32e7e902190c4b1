import Espalier.Proofs.Token.Spacing.Literal
import Espalier.Proofs.Token.Spacing.Number
import Mathlib.Data.List.Infix

/-!
# Tokens with blanks around them

The next token of a text is the same where blanks are put behind it, or anywhere later, or in the
gap in front of it, at the start of that or behind its line breaks (`keeps_scan`). The one exception
is the sign `?` in front of a number that starts with its point: the blanks may not divide that
number, or `?.` would be read.
-/

namespace Espalier.Token

open Text Cursor

variable {r r' : List Char}

/-! ### Signs -/

/-- A text without blanks that the second of two texts starts with, the first one starts with
too. -/
theorem Respaced.isPrefix {text cs ds : List Char} (h : Respaced cs ds)
    (htext : ' ' ∉ text ∧ '\t' ∉ text) (hds : text <+: ds) : text <+: cs := by
  induction h generalizing text with
  | same => exact hds
  | blank hc cs ds =>
    cases text with
    | nil => exact List.nil_prefix
    | cons d text =>
      obtain ⟨rfl, -⟩ := List.cons_prefix_cons.mp hds
      rcases hc with rfl | rfl
      · exact absurd List.mem_cons_self htext.1
      · exact absurd List.mem_cons_self htext.2
  | cons c h ih =>
    cases text with
    | nil => exact List.nil_prefix
    | cons d text =>
      obtain ⟨rfl, hmore⟩ := List.cons_prefix_cons.mp hds
      refine List.cons_prefix_cons.mpr ⟨rfl, ih ⟨?_, ?_⟩ hmore⟩
      · exact fun hmem => htext.1 (List.mem_cons_of_mem _ hmem)
      · exact fun hmem => htext.2 (List.mem_cons_of_mem _ hmem)

/-- A point with a digit behind it is not divided from it where it follows a question mark. -/
def Undivided (k : Kind) (r r' : List Char) : Prop :=
  k = .punct .question → r.head? = some '.' → r'.head? = some '.' →
    r.tail.head?.any Char.isDigit = true → r'.tail.head?.any Char.isDigit = true

/-- A sign stands at the start of a text if the text starts with its characters, and `?.` only if
no digit follows. -/
theorem startsAt_iff {p : Punct} {cs : List Char} : p.startsAt cs = true ↔
    p.text.toList <+: cs ∧
      (p = .questionDot → cs.tail.tail.head?.any Char.isDigit = false) := by
  unfold Punct.startsAt
  split
  · next c rest =>
    rw [Bool.not_eq_true']
    exact ⟨fun h => ⟨⟨c :: rest, rfl⟩, fun _ => h⟩, fun h => h.2 rfl⟩
  · next hno =>
    rw [List.isPrefixOf_iff_prefix]
    refine ⟨fun h => ⟨h, ?_⟩, fun h => h.1⟩
    rintro rfl
    obtain ⟨rest, rfl⟩ := h
    cases rest with
    | nil => rfl
    | cons c rest => exact (hno c rest rfl rfl).elim

/-- The signs that may stand where a question mark and a point stand. -/
theorem eq_of_isPrefix_questionDot {p : Punct} {cs : List Char}
    (h : p.text.toList <+: '?' :: '.' :: cs) : p = .question ∨ p = .questionDot := by
  have hstart : p.text.toList.take 2 <+: ['?', '.'] := List.IsPrefix.take h 2
  revert hstart
  clear h
  cases p <;> decide

/-- No punctuation holds a blank. -/
theorem notMem_text (p : Punct) : ' ' ∉ p.text.toList ∧ '\t' ∉ p.text.toList := by
  cases p <;> decide

/-- Blanks behind punctuation do not make it longer. -/
theorem read?_respaced {p : Punct} (hr : Respaced r r')
    (hp : Punct.read? (p.text.toList ++ r) = some p) (hpoint : Undivided (.punct p) r r') :
    Punct.read? (p.text.toList ++ r') = some p := by
  obtain ⟨hstarts, before, after, hall, hbefore⟩ := List.find?_eq_some_iff_append.mp hp
  refine List.find?_eq_some_iff_append.mpr ⟨?_, before, after, hall, fun q hq => ?_⟩
  · refine startsAt_iff.mpr ⟨List.prefix_append _ _, ?_⟩
    rintro rfl
    exact hr.any_head? separates_isDigit ((startsAt_iff.mp hstarts).2 rfl)
  · have hno := hbefore q hq
    rw [Bool.not_eq_true', ← Bool.not_eq_true, startsAt_iff] at hno ⊢
    rintro ⟨hopens, hdigit⟩
    have hopens' := (hr.append p.text.toList).isPrefix (notMem_text q) hopens
    refine hno ⟨hopens', ?_⟩
    rintro rfl
    -- both signs stand at the start of the text, and it is not `?.` that is read there
    obtain ⟨rest, hrest⟩ := hopens'
    have heq : p.text.toList ++ r = '?' :: '.' :: rest := hrest.symm
    obtain rfl : p = .question := by
      refine (eq_of_isPrefix_questionDot (show _ <+: '?' :: '.' :: rest from ?_)).resolve_right ?_
      · rw [← heq]
        exact List.prefix_append _ _
      · rintro rfl
        exact hno ⟨List.prefix_append _ _, fun _ => (startsAt_iff.mp hstarts).2 rfl⟩
    obtain rfl : r = '.' :: rest := (List.cons.inj heq).2
    have hpoint' : r'.head? = some '.' := by
      obtain ⟨more, hmore⟩ := hopens
      obtain rfl : '.' :: more = r' := (List.cons.inj hmore).2
      rfl
    refine (Bool.not_eq_true _).mp fun hd => ?_
    have hd' : r'.tail.head?.any Char.isDigit = true := hpoint rfl rfl hpoint' hd
    rw [show (Punct.question.text.toList ++ r').tail.tail = r'.tail from rfl, hd'] at hdigit
    cases hdigit rfl

/-! ### Tokens -/

/-- A token that starts at a place, and whose text is not empty. -/
theorem agrees_scanKind (hr : Respaced r r') {c : Char} {text : List Char} {pos : Nat} (pos' : Nat)
    (hk : (scanKind ⟨pos, c :: (text ++ r)⟩).1.IsSolid)
    (hpoint : Undivided (scanKind ⟨pos, c :: (text ++ r)⟩).1 r r') :
    Agrees r r' (scanKind ⟨pos, c :: (text ++ r)⟩) (scanKind ⟨pos', c :: (text ++ r')⟩) := by
  intro hrest
  unfold scanKind at hk hpoint hrest ⊢
  dsimp only at hk hpoint hrest ⊢
  by_cases hname : startsName c = true
  · rw [if_pos hname] at hrest ⊢
    rw [if_pos hname]
    exact steady_scanName.agrees hr (c :: text) pos pos' (by rwa [if_pos hname] at hk) hrest
  rw [if_neg hname] at hk hpoint hrest ⊢
  rw [if_neg hname]
  by_cases hdigit : c.isDigit = true
  · rw [if_pos hdigit] at hk hrest ⊢
    rw [if_pos hdigit]
    exact agrees_scanNumeral hr (c :: text) pos pos' hk hrest
  rw [if_neg hdigit] at hk hpoint hrest ⊢
  rw [if_neg hdigit]
  by_cases hquote : (c == '"' || c == '\'') = true
  · rw [if_pos hquote] at hk hrest ⊢
    rw [if_pos hquote]
    have hsize : c.utf8Size = 1 := by
      rw [Bool.or_eq_true, beq_iff_eq, beq_iff_eq] at hquote
      rcases hquote with rfl | rfl <;> rfl
    exact agrees_scanString hsize hk hrest
  rw [if_neg hquote] at hk hpoint hrest ⊢
  rw [if_neg hquote]
  by_cases htick : (c == '\x60') = true
  · rw [if_pos htick] at hk hrest ⊢
    rw [if_pos htick]
    exact agrees_scanTemplatePart hk hrest
  rw [if_neg htick] at hk hpoint hrest ⊢
  rw [if_neg htick]
  by_cases hescape : (c == '\\') = true
  · rw [if_pos hescape] at hk
    exact hk.elim
  rw [if_neg hescape] at hk hpoint hrest ⊢
  rw [if_neg hescape]
  by_cases hfraction : (c == '.' && (text ++ r).head?.any Char.isDigit) = true
  · rw [if_pos hfraction] at hrest ⊢
    obtain rfl : c = '.' := eq_of_beq ((Bool.and_eq_true _ _).mp hfraction).1
    have hdigit : (text ++ r).head?.any Char.isDigit = true := hfraction
    cases text with
    | nil =>
      -- the first digit is read, so it is no part of what is left
      have hstop : r.head?.any Char.isDigit = false := (head?_of_digitRun hrest).1
      rw [List.nil_append, hstop] at hdigit
      cases hdigit
    | cons d text =>
      have hfraction' : ('.' == '.' && (d :: text ++ r').head?.any Char.isDigit) = true := hdigit
      rw [if_pos hfraction']
      exact agrees_scanFraction hr (d :: text) pos pos' hrest
  have hfraction' : ¬(c == '.' && (text ++ r').head?.any Char.isDigit) = true := by
    rw [Bool.not_eq_true, Bool.and_eq_false_iff] at hfraction ⊢
    exact hfraction.imp id ((hr.append text).any_head? separates_isDigit)
  rw [if_neg hfraction] at hk hpoint hrest ⊢
  rw [if_neg hfraction']
  cases hread : Punct.read? (c :: (text ++ r)) with
  | none =>
    rw [hread] at hk
    exact hk.elim
  | some p =>
    rw [hread] at hpoint hrest
    dsimp only at hpoint hrest ⊢
    obtain ⟨more, hmore⟩ := Punct.eq_append_of_read? hread
    have hmore' : more = r := by
      rw [hmore, String.length_toList.symm, List.drop_left] at hrest
      exact hrest
    subst hmore'
    have htext : c :: text = p.text.toList :=
      List.append_cancel_right (show c :: text ++ more = _ from hmore)
    have hread' : Punct.read? (c :: (text ++ r')) = some p := by
      rw [← List.cons_append, htext]
      refine read?_respaced hr ?_ hpoint
      rw [← hmore, hread]
    rw [hread']
    refine ⟨rfl, ?_⟩
    show (c :: text ++ r').drop p.text.length = r'
    rw [htext, String.length_toList.symm, List.drop_left]

/-- No comment starts here. -/
def NoComment (cs : List Char) : Prop :=
  cs.head? = some '/' → cs.tail.head? ≠ some '/' ∧ cs.tail.head? ≠ some '*'

/-- Blanks open no comment. -/
theorem NoComment.respaced (h : NoComment r) (hr : Respaced r r') : NoComment r' := by
  intro hslash
  cases hr with
  | same => exact h hslash
  | blank hc => rcases hc with rfl | rfl <;> cases hslash
  | cons c hr =>
    have hno := h hslash
    rw [List.tail_cons] at hno ⊢
    rcases hr.head? with heq | heq | heq <;> rw [heq]
    · exact hno
    · exact ⟨nofun, nofun⟩
    · exact ⟨nofun, nofun⟩

/-- No gap starts where neither a blank nor a comment stands. -/
theorem gap_of_head? {cs : List Char} (hblank : cs.head?.any isBlank = false) (hno : NoComment cs)
    (newline : Bool) (pos : Nat) : gap .blank newline pos cs = ⟨newline, ⟨pos, cs⟩, false⟩ := by
  cases cs with
  | nil => rfl
  | cons c cs =>
    have hblank : isBlank c = false := hblank
    rw [gap.eq_def]
    dsimp only
    rw [hblank, if_neg Bool.false_ne_true]
    split
    · next hslash =>
      obtain rfl : c = '/' := eq_of_beq hslash
      have hno := hno rfl
      split
      · exact absurd rfl hno.1
      · exact absurd rfl hno.2
      · rfl
    · rfl

/-- Blanks are passed over in front of a token and in a comment that is still open behind them. -/
theorem gap_blanks {blanks : List Char} (h : IsBlankText blanks) (part : GapPart)
    (hpart : part ≠ .lineComment) (newline : Bool) (pos : Nat) (cs : List Char) :
    gap part newline pos (blanks ++ cs) = gap part newline (pos + bytes blanks) cs := by
  induction blanks generalizing pos with
  | nil => rfl
  | cons c blanks ih =>
    have hstep : gap part newline pos (c :: (blanks ++ cs)) =
        gap part newline (pos + c.utf8Size) (blanks ++ cs) := by
      rw [gap.eq_def]
      cases part with
      | lineComment => exact absurd rfl hpart
      | blank | blockComment =>
        rcases h c List.mem_cons_self with rfl | rfl <;> cases newline <;> rfl
    rw [List.cons_append, hstep, ih fun d hd => h d (List.mem_cons_of_mem c hd), bytes_cons,
      Nat.add_assoc]

/-- A gap that is like another one, in front of the given rest. -/
structure Gap.IsLike (g' g : Gap) (rest : List Char) : Prop where
  newline_eq : g'.newline = g.newline
  rest_eq : g'.after.rest = rest
  closed : g'.unclosed = false

section

variable (w : Spacing)

/-- The blanks behind a character of a gap are passed over. -/
theorem exists_gap_respace (part : GapPart) {c : Char} {t : List Char} {pos : Nat}
    (hlines : w.StartsLines pos (c :: t)) (hpart : c = '\n' → part ≠ .lineComment)
    (newline : Bool) (pos' : Nat) (cs : List Char) :
    ∃ pos₁, gap part newline pos' (w.respace (pos + c.utf8Size) cs) =
      gap part newline pos₁ (w.inner (pos + c.utf8Size) cs) := by
  by_cases hc : c = '\n'
  · rw [w.respace_eq]
    exact ⟨_, gap_blanks (w.isBlank _) part (hpart hc) newline pos' _⟩
  · rw [hlines.respace_eq_inner hc]
    exact ⟨pos', rfl⟩

/-- No blanks are put in between two signs, nor behind them. -/
theorem inner_pair {c d : Char} {t : List Char} {pos : Nat}
    (hlines : w.StartsLines pos (c :: d :: t)) (hc : c ≠ '\n') (hd : d ≠ '\n') (ds : List Char) :
    w.inner pos (c :: d :: ds) = c :: d :: w.inner (pos + c.utf8Size + d.utf8Size) ds := by
  rw [Spacing.inner, hlines.respace_eq_inner hc, Spacing.inner, hlines.tail.respace_eq_inner hd]

/-- What lies in front of a token is read as before if blanks are put in behind its line breaks. -/
theorem gap_inner {part : GapPart} {newline : Bool} {pos : Nat} {text r : List Char}
    (hlines : w.StartsLines pos text)
    (hclosed : (gap part newline pos (text ++ r)).unclosed = false)
    (hrest : (gap part newline pos (text ++ r)).after.rest = r) (pos' : Nat) :
    (gap part newline pos' (w.inner pos (text ++ r))).IsLike (gap part newline pos (text ++ r))
      (w.inner (pos + bytes text) r) := by
  generalize hcs : text ++ r = cs at hclosed hrest ⊢
  -- the induction follows the reader over the text before the blanks
  fun_induction gap part newline pos cs generalizing text pos' with
  | case1 part newline pos =>
    obtain ⟨rfl, rfl⟩ := List.append_eq_nil_iff.mp hcs
    exact ⟨rfl, rfl, hclosed⟩
  | case2 newline pos c cs hblank ih =>
    obtain ⟨t, ht⟩ := append_of_reaches (reaches_gap _ _ _ _) hrest
    obtain rfl := eq_cons_of_append hcs ht
    obtain ⟨pos₁, hpos₁⟩ := exists_gap_respace w .blank hlines (fun _ => by decide)
      (newline || endsLine c) (pos' + c.utf8Size) cs
    rw [Spacing.inner, gap.eq_def]
    dsimp only
    rw [if_pos hblank, hpos₁, bytes_cons, ← Nat.add_assoc]
    exact ih hlines.tail _ ht.symm hclosed hrest
  | case3 newline pos c hblank hslash ds ih =>
    obtain ⟨t, ht⟩ := append_of_reaches (reaches_gap _ _ _ _) hrest
    obtain rfl := eq_cons_of_append hcs (t := '/' :: t) (by rw [ht]; rfl)
    obtain rfl : c = '/' := eq_of_beq hslash
    rw [inner_pair w hlines (by decide) (by decide), gap.eq_def, bytes_cons, bytes_cons,
      ← Nat.add_assoc, ← Nat.add_assoc]
    exact ih hlines.tail.tail _ ht.symm hclosed hrest
  | case4 newline pos c hblank hslash ds ih =>
    obtain ⟨t, ht⟩ := append_of_reaches (reaches_gap _ _ _ _) hrest
    obtain rfl := eq_cons_of_append hcs (t := '*' :: t) (by rw [ht]; rfl)
    obtain rfl : c = '/' := eq_of_beq hslash
    rw [inner_pair w hlines (by decide) (by decide), gap.eq_def, bytes_cons, bytes_cons,
      ← Nat.add_assoc, ← Nat.add_assoc]
    exact ih hlines.tail.tail _ ht.symm hclosed hrest
  | case5 newline pos c cs hblank hslash hline hblock =>
    have hrest : c :: cs = r := hrest
    obtain rfl : text = [] := List.append_left_eq_self.mp (hcs.trans hrest)
    have hno : NoComment (c :: cs) := by
      refine fun _ => ⟨fun h => ?_, fun h => ?_⟩
      · obtain ⟨ds, hds⟩ := List.head?_eq_some_iff.mp h
        exact hline ds hds
      · obtain ⟨ds, hds⟩ := List.head?_eq_some_iff.mp h
        exact hblock ds hds
    have hblank' : (w.inner pos (c :: cs)).head?.any isBlank = false :=
      (Bool.not_eq_true _).mp hblank
    rw [gap_of_head? hblank' (hno.respaced (w.respaced_inner _ _)), ← hrest]
    exact ⟨rfl, rfl, rfl⟩
  | case6 newline pos c cs hblank hslash =>
    have hrest : c :: cs = r := hrest
    obtain rfl : text = [] := List.append_left_eq_self.mp (hcs.trans hrest)
    have hno : NoComment (c :: cs) := fun h =>
      absurd (beq_iff_eq.mpr (Option.some.inj h)) hslash
    have hblank' : (w.inner pos (c :: cs)).head?.any isBlank = false :=
      (Bool.not_eq_true _).mp hblank
    rw [gap_of_head? hblank' (hno.respaced (w.respaced_inner _ _)), ← hrest]
    exact ⟨rfl, rfl, rfl⟩
  | case7 newline pos c cs hline ih =>
    obtain ⟨t, ht⟩ := append_of_reaches (reaches_gap _ _ _ _) hrest
    obtain rfl := eq_cons_of_append hcs ht
    obtain rfl : c = '\n' := eq_of_beq hline
    obtain ⟨pos₁, hpos₁⟩ := exists_gap_respace w .blank hlines (fun _ => by decide) true
      (pos' + 1) cs
    rw [Spacing.inner, gap.eq_def]
    dsimp only
    rw [if_pos hline, hpos₁, bytes_cons, ← Nat.add_assoc]
    exact ih hlines.tail _ ht.symm hclosed hrest
  | case8 newline pos c cs hline ih =>
    obtain ⟨t, ht⟩ := append_of_reaches (reaches_gap _ _ _ _) hrest
    obtain rfl := eq_cons_of_append hcs ht
    have hc : c ≠ '\n' := fun hc => hline (beq_iff_eq.mpr hc)
    rw [Spacing.inner, gap.eq_def]
    dsimp only
    rw [if_neg hline, hlines.respace_eq_inner hc, bytes_cons, ← Nat.add_assoc]
    exact ih hlines.tail _ ht.symm hclosed hrest
  | case9 newline pos c hstar ds ih =>
    obtain ⟨t, ht⟩ := append_of_reaches (reaches_gap _ _ _ _) hrest
    obtain rfl := eq_cons_of_append hcs (t := '/' :: t) (by rw [ht]; rfl)
    obtain rfl : c = '*' := eq_of_beq hstar
    rw [inner_pair w hlines (by decide) (by decide), gap.eq_def, bytes_cons, bytes_cons,
      ← Nat.add_assoc, ← Nat.add_assoc]
    exact ih hlines.tail.tail _ ht.symm hclosed hrest
  | case10 newline pos c hstar cs hno ih =>
    obtain ⟨t, ht⟩ := append_of_reaches (reaches_gap _ _ _ _) hrest
    obtain rfl := eq_cons_of_append hcs ht
    obtain rfl : c = '*' := eq_of_beq hstar
    rw [Spacing.inner, hlines.respace_eq_inner (by decide), gap.eq_def, bytes_cons,
      ← Nat.add_assoc]
    dsimp only
    rw [if_pos hstar]
    split
    · next ds heq =>
      cases cs with
      | nil => cases heq
      | cons d cs => exact (hno cs (congrArg (· :: cs) (List.cons.inj heq).1)).elim
    · exact ih hlines.tail _ ht.symm hclosed hrest
  | case11 newline pos c cs hstar ih =>
    obtain ⟨t, ht⟩ := append_of_reaches (reaches_gap _ _ _ _) hrest
    obtain rfl := eq_cons_of_append hcs ht
    obtain ⟨pos₁, hpos₁⟩ := exists_gap_respace w .blockComment hlines
      (fun _ => by decide) (newline || c == '\n') (pos' + c.utf8Size) cs
    rw [Spacing.inner, gap.eq_def]
    dsimp only
    rw [if_neg hstar, hpos₁, bytes_cons, ← Nat.add_assoc]
    exact ih hlines.tail _ ht.symm hclosed hrest

end

/-- A token that has a text does not follow an open comment. -/
theorem closed_of_isSolid {place : Cursor} (h : (scan place).token.kind.IsSolid) :
    (gap .blank false place.pos place.rest).unclosed = false := by
  refine (Bool.not_eq_true _).mp fun hopen => ?_
  rw [scan_eq_unclosedComment hopen] at h
  exact h

/-- A question mark and a number that starts with its point are divided only between them, unless
blanks are put in behind the point. -/
theorem undivided_respace (w : Spacing) {k : Kind} {pos : Nat} {r : List Char}
    (h : k = .punct .question → r.head? = some '.' → r.tail.head?.any Char.isDigit = true →
      w.blanks (pos + 1) = []) : Undivided k r (w.respace pos r) := by
  intro hk hpoint hpoint' hdigit
  obtain ⟨ds, rfl⟩ := List.head?_eq_some_iff.mp hpoint
  have hsize : '.'.utf8Size = 1 := rfl
  have hmore : w.respace (pos + '.'.utf8Size) ds = w.inner (pos + '.'.utf8Size) ds := by
    rw [w.respace_eq, hsize, h hk hpoint hdigit, List.nil_append]
  cases hblanks : w.blanks pos with
  | nil =>
    rw [Spacing.respace, hblanks, hmore]
    show (w.inner _ ds).head?.any Char.isDigit = true
    rwa [w.head?_inner]
  | cons c more =>
    rw [w.respace_eq, hblanks] at hpoint'
    obtain rfl : c = '.' := Option.some.inj hpoint'
    rcases w.isBlank pos '.' (hblanks ▸ List.mem_cons_self) with heq | heq <;> cases heq

/-- What is read at a place of a text and at the place that corresponds to it after blanks are put
in. -/
structure Spacing.Keeps (w : Spacing) (c c' : Scanned) : Prop where
  kind_eq : c'.token.kind = c.token.kind
  newline_eq : c'.token.newlineBefore = c.token.newlineBefore
  first : c'.first.rest = w.inner c.first.pos c.first.rest
  after (hk : c.token.kind.IsSolid) : c'.after.rest = w.respace c.after.pos c.after.rest

section

variable {w : Spacing} {c c' : Cursor} {text : List Char}

/-- The gap in front of a token is read as before. -/
theorem gap_respace (hc' : c'.rest = w.respace c.pos c.rest) (hreads : c.Reads text (scan c).first)
    (hlines : w.StartsLines c.pos text)
    (hclosed : (gap .blank false c.pos c.rest).unclosed = false) :
    (gap .blank false c'.pos c'.rest).IsLike (gap .blank false c.pos c.rest)
      (w.inner (scan c).first.pos (scan c).first.rest) := by
  have hrest : (gap .blank false c.pos c.rest).after.rest = (scan c).first.rest := by
    rw [scan_eq_ofKind hclosed]
    rfl
  rw [hc', w.respace_eq, gap_blanks (w.isBlank _) .blank nofun, hreads.pos_eq]
  rw [hreads.rest_eq] at hclosed hrest ⊢
  exact gap_inner w hlines hclosed hrest _

/-- **Blanks between tokens.** The next token of a text is the same where blanks are put in, in
front of it at the start of the gap or of its lines, or behind it. -/
theorem keeps_scan (hc' : c'.rest = w.respace c.pos c.rest) (hreads : c.Reads text (scan c).first)
    (hlines : w.StartsLines c.pos text) (hk : (scan c).token.kind.IsSolid)
    (hclear : ∀ n, (scan c).first.pos < n → n < (scan c).after.pos → w.blanks n = [])
    (hpoint : Undivided (scan c).token.kind (scan c).after.rest
      (w.respace (scan c).after.pos (scan c).after.rest)) : w.Keeps (scan c) (scan c') := by
  have hclosed := closed_of_isSolid hk
  obtain ⟨hnewline, hfirst, hclosed'⟩ := gap_respace hc' hreads hlines hclosed
  obtain ⟨-, read, hread, hspells⟩ := isRead_scan c
  obtain ⟨d, ds, rfl⟩ := List.exists_cons_of_ne_nil (hspells.ne_nil hk)
  have hclear' : ∀ n, (scan c).first.pos < n → n < (scan c).first.pos + bytes (d :: ds) →
      w.blanks n = [] := fun n hlt hlt' => hclear n hlt (by rwa [hread.pos_eq])
  have hfirst' := hfirst
  rw [hread.rest_eq, w.inner_of_clear (List.cons_ne_nil d ds) hclear', ← hread.pos_eq] at hfirst'
  have hrest := hread.rest_eq
  -- the text of the token moves as one piece
  generalize hafter : (scan c).after = after at hread hclear hpoint hfirst' hrest
  rw [scan_eq_ofKind hclosed] at hk hpoint hafter hrest hfirst ⊢
  rw [scan_eq_ofKind hclosed']
  dsimp only [Scanned.ofKind] at hk hpoint hafter hrest hfirst ⊢
  cases hgap : (gap .blank false c.pos c.rest).after with
  | mk p cs =>
    cases hgap' : (gap .blank false c'.pos c'.rest).after with
    | mk p' cs' =>
      rw [hgap] at hk hpoint hafter hrest hfirst
      rw [hgap'] at hfirst hfirst'
      obtain rfl : cs = d :: (ds ++ after.rest) := hrest
      obtain rfl : cs' = d :: (ds ++ w.respace after.pos after.rest) := hfirst'
      obtain ⟨hkind, hleft⟩ := agrees_scanKind (w.respaced_respace after.pos after.rest) p' hk
        hpoint (congrArg Cursor.rest hafter)
      refine ⟨hkind, hnewline, hfirst, fun _ => ?_⟩
      dsimp only
      rw [hafter]
      exact hleft

/-- The end of a text stays its end. -/
theorem keeps_scan_eof (hc' : c'.rest = w.respace c.pos c.rest)
    (hreads : c.Reads text (scan c).first) (hlines : w.StartsLines c.pos text)
    (hk : (scan c).token.kind = .eof) : w.Keeps (scan c) (scan c') := by
  have hclosed : (gap .blank false c.pos c.rest).unclosed = false := by
    refine (Bool.not_eq_true _).mp fun hopen => ?_
    rw [scan_eq_unclosedComment hopen] at hk
    cases hk
  obtain ⟨hnewline, hfirst, hclosed'⟩ := gap_respace hc' hreads hlines hclosed
  have hnil := (scan_of_eof hk).2
  have hnil' : (gap .blank false c'.pos c'.rest).after.rest = [] := by
    rw [hfirst, hnil]
    rfl
  refine ⟨?_, ?_, ?_, fun hsolid => ?_⟩
  · rw [hk, scan_eq_ofKind hclosed', scanKind_of_nil hnil']
    rfl
  · rw [scan_eq_ofKind hclosed', scan_eq_ofKind hclosed]
    exact hnewline
  · rw [scan_eq_ofKind hclosed']
    exact hfirst
  · rw [hk] at hsolid
    exact hsolid.elim

end

end Espalier.Token
