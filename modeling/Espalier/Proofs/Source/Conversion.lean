import Espalier.Caret
import Espalier.Proofs.Source.LineIndex
import Mathlib.Order.Bounds.Defs

/-!
# Offsets, positions and carets

A caret cuts a source where `LineIndex` has the offset of its position: the text in front of it is
found by counting line feeds, the offset by looking the line up in a table, and both treat lines and
columns that are zero or too large in the same way (`LineIndex.offset_eq_bytes`).

The offsets of a source that have positions are the borders of its characters, and reading on leads
to later positions (`LineIndex.position?_lt`). An offset is not behind the offset of a position
exactly if its own position is not behind that position (`LineIndex.le_offset_iff`): so positions
lead back to the offsets that they come from, and a position that is none of these, past the end of
its line or of the source, to the last offset in front of it. The range of a span is made of the
positions of the border where it starts and of the last border in front of its end.

The three main results are about addressable sources, and say that the offsets, positions and ranges
which they name are stored as they are.
-/

namespace Espalier

open Text

/-! ### Counting lines -/

namespace Caret

/-- Lines that are counted off are those in front of the place where counting starts. -/
theorem charsUntil_append {seen : List Char} (h : '\n' ∉ seen) (column n : Nat) (cs : List Char) :
    charsUntil column (n + 1) (seen ++ cs) = seen ++ charsUntil column (n + 1) cs := by
  induction seen with
  | nil => rfl
  | cons c seen ih =>
    have hc : c ≠ '\n' := fun hc => h (hc ▸ List.mem_cons_self)
    rw [List.cons_append, charsUntil, if_neg hc, ih fun hmem => h (List.mem_cons_of_mem c hmem),
      List.cons_append]

/-- The characters up to a column are the first of the line. -/
theorem charsUntil_isPrefix (column n : Nat) (cs : List Char) : charsUntil column n cs <+: cs := by
  have hfirst (cs : List Char) : charsUntil column 0 cs <+: cs := by
    rw [charsUntil]
    exact (List.take_prefix _ _).trans (List.takeWhile_prefix _)
  induction cs generalizing n with
  | nil =>
    cases n with
    | zero => exact hfirst []
    | succ n => exact List.prefix_refl []
  | cons c cs ih =>
    cases n with
    | zero => exact hfirst (c :: cs)
    | succ n => exact List.cons_prefix_cons.mpr ⟨rfl, ih _⟩

end Caret

/-! ### Looking lines up -/

/-- A line feed that ends a line is not looked at. -/
theorem takeWhile_append_lineFeed {seen : List Char} (h : '\n' ∉ seen) (cs : List Char) :
    (seen ++ '\n' :: cs).takeWhile (· ≠ '\n') = seen := by
  have hall : ∀ c ∈ seen, decide (c ≠ '\n') = true :=
    fun c hc => decide_eq_true fun heq => h (heq ▸ hc)
  rw [List.takeWhile_append_of_pos hall, List.takeWhile_cons_of_neg (by decide), List.append_nil]

/-- The place that the table of lines has for a column of its line `n`, if there is such a line, is
the end of the text in front of that place; without such a line this is the whole text. `seen` is
what the first line has in front of `cs`. -/
theorem Line.place_split {seen : List Char} (h : '\n' ∉ seen) (column start n : Nat)
    (cs : List Char) :
    (∀ line, (split start seen cs)[n]? = some line →
        line.start + bytes ((line.chars.takeWhile (· ≠ '\n')).take (column - 1)) =
          start + bytes (Caret.charsUntil column n (seen.reverse ++ cs))) ∧
      ((split start seen cs)[n]? = none →
        Caret.charsUntil column n (seen.reverse ++ cs) = seen.reverse ++ cs) := by
  have hrev : '\n' ∉ seen.reverse := fun hmem => h (List.mem_reverse.mp hmem)
  induction cs generalizing start seen n with
  | nil =>
    rw [split]
    cases n with
    | zero =>
      constructor
      · rintro _ ⟨⟩
        rw [List.append_nil, Caret.charsUntil]
      · rintro ⟨⟩
    | succ n =>
      constructor
      · rintro _ ⟨⟩
      · intro _
        rw [Caret.charsUntil_append hrev, Caret.charsUntil]
  | cons c cs ih =>
    by_cases hc : c = '\n'
    · subst hc
      have hchars : ('\n' :: seen).reverse = seen.reverse ++ ['\n'] := List.reverse_cons
      rw [split, if_pos rfl]
      dsimp only
      rw [hchars]
      cases n with
      | zero =>
        constructor
        · rintro _ ⟨⟩
          rw [Caret.charsUntil, takeWhile_append_lineFeed hrev, takeWhile_append_lineFeed hrev]
        · rintro ⟨⟩
      | succ n =>
        -- nothing has been seen yet of the next line
        obtain ⟨hsome, hnone⟩ :=
          @ih [] List.not_mem_nil (start + bytes (seen.reverse ++ ['\n'])) n List.not_mem_nil
        rw [List.reverse_nil, List.nil_append] at hsome hnone
        rw [List.getElem?_cons_succ, Caret.charsUntil_append hrev, Caret.charsUntil, if_pos rfl]
        refine ⟨fun line hline => ?_, fun hline => by rw [hnone hline]⟩
        rw [hsome line hline, bytes_append, bytes_append, bytes_cons, bytes_cons, bytes_nil]
        omega
    · have hmem : '\n' ∉ c :: seen := by
        rw [List.mem_cons, not_or]
        exact ⟨Ne.symm hc, h⟩
      have hrest := ih hmem start n fun hmem' => hmem (List.mem_reverse.mp hmem')
      rw [List.reverse_cons, List.append_assoc] at hrest
      rw [split, if_neg hc]
      exact hrest

/-- The offset of a position is the end of the text in front of it. -/
theorem LineIndex.offset_eq_bytes (source : String) (p : Position) :
    (ofSource source).offset p =
      bytes (Caret.charsUntil p.column (p.line - 1) source.toList) := by
  obtain ⟨hsome, hnone⟩ :=
    Line.place_split List.not_mem_nil p.column 0 (p.line - 1) source.toList
  rw [List.reverse_nil, List.nil_append] at hsome hnone
  unfold offset ofSource
  dsimp only
  split
  · next hline => rw [hnone hline, bytes_toList]
  · next line hline => rw [hsome line hline, Nat.zero_add]

/-- A line that is empty, characters of several bytes, and a caret far to the right of them. -/
example : ((Caret.mk 3 99).textUntil "a\n\né\n").length = 4 ∧
    (LineIndex.ofSource "a\n\né\n").offset ⟨3, 99⟩ = 5 := by
  decide

/-! ### Reading order -/

namespace Position

/-- Two positions neither of which comes after the other are the same. -/
theorem le_antisymm {p q : Position} (h : p.le q) (h' : q.le p) : p = q := by
  rw [le_iff] at h h'
  cases p
  cases q
  simp only [mk.injEq] at h h' ⊢
  omega

/-- Reading on leads to a later position. -/
theorem not_after_le (p : Position) {cs : List Char} (hne : cs ≠ []) : ¬(p.after cs).le p := by
  intro hle
  obtain ⟨c, ds, rfl⟩ := List.exists_cons_of_ne_nil hne
  have hfirst := le_trans (le_after _ ds) hle
  rw [le_iff] at hfirst
  split at hfirst
  · simp only at hfirst
    omega
  · simp only at hfirst
    omega

end Position

/-! ### Text in front of a position -/

/-- A place of a text is not behind a position `skip` lines on exactly if the text that is counted
off up to this position goes as far as the place. `seen` is what the first line has in front of the
text. -/
theorem Caret.after_le_iff_isPrefix {seen before cs : List Char} (h : '\n' ∉ seen)
    (hbefore : before <+: cs) {column : Nat} (hcolumn : 1 ≤ column) (n skip : Nat) :
    (Position.after ⟨n, seen.length + 1⟩ before).le ⟨n + skip, column⟩ ↔
      seen ++ before <+: charsUntil column skip (seen ++ cs) := by
  -- the induction is on the text in front of the place; `seen` grows until a line feed clears it
  induction before generalizing seen cs n skip with
  | nil =>
    rw [Position.after, Position.le_iff, List.append_nil]
    cases skip with
    | zero =>
      have hall : ∀ c ∈ seen, decide (c ≠ '\n') = true :=
        fun c hc => decide_eq_true fun heq => h (heq ▸ hc)
      rw [charsUntil, List.prefix_take_iff, List.takeWhile_append_of_pos hall]
      have hpre : seen <+: seen ++ cs.takeWhile (· ≠ '\n') := List.prefix_append _ _
      simp only [hpre, true_and]
      omega
    | succ skip =>
      rw [charsUntil_append h]
      have hpre : seen <+: seen ++ charsUntil column (skip + 1) cs := List.prefix_append _ _
      simp only [hpre, iff_true]
      omega
  | cons c before ih =>
    obtain ⟨rest, rfl⟩ := hbefore
    have hrest : before <+: before ++ rest := List.prefix_append _ _
    rw [List.cons_append, Position.after]
    by_cases hc : c = '\n'
    · subst hc
      rw [if_pos rfl]
      cases skip with
      | zero =>
        -- the line ends here, so neither the place nor the text goes on
        rw [charsUntil, takeWhile_append_lineFeed h]
        constructor
        · intro hle
          have hfirst := Position.le_trans (Position.le_after _ _) hle
          rw [Position.le_iff] at hfirst
          simp only at hfirst
          omega
        · intro hpre
          have hlength := (hpre.trans (List.take_prefix _ _)).length_le
          rw [List.length_append, List.length_cons] at hlength
          omega
      | succ skip =>
        have hnext := @ih [] _ List.not_mem_nil hrest (n + 1) skip
        rw [List.nil_append, List.nil_append, List.length_nil, Nat.zero_add] at hnext
        have hline : n + 1 + skip = n + (skip + 1) := by omega
        rw [hline] at hnext
        rw [charsUntil_append h, charsUntil, if_pos rfl, List.prefix_append_right_inj,
          List.cons_prefix_cons]
        exact hnext.trans (and_iff_right rfl).symm
    · have hmem : '\n' ∉ seen ++ [c] := by
        rw [List.mem_append, List.mem_singleton, not_or]
        exact ⟨h, Ne.symm hc⟩
      have hnext := @ih (seen ++ [c]) _ hmem hrest n skip
      rw [List.length_append, List.length_singleton, List.append_assoc, List.append_assoc] at hnext
      rw [if_neg hc]
      exact hnext

namespace LineIndex

variable {source : String} {o o' : Nat} {p q q' : Position}

/-- Every position leads to a border. -/
theorem isBorder_offset (source : String) (p : Position) :
    IsBorder source.toList ((ofSource source).offset p) := by
  obtain ⟨rest, hrest⟩ := Caret.charsUntil_isPrefix p.column (p.line - 1) source.toList
  exact ⟨_, rest, hrest.symm, (offset_eq_bytes source p).symm⟩

/-- The offsets that have positions are the borders. -/
theorem isSome_position?_iff :
    ((ofSource source).position? o).isSome ↔ IsBorder source.toList o := by
  constructor
  · intro h
    obtain ⟨p, hp⟩ := Option.isSome_iff_exists.mp h
    exact isBorder_of_position? hp
  · rintro ⟨before, rest, hsource, rfl⟩
    rw [position?_bytes hsource]
    rfl

/-- The offset that a position leads to has a position of its own. -/
theorem exists_position?_offset (source : String) (p : Position) :
    ∃ q, (ofSource source).position? ((ofSource source).offset p) = some q :=
  Option.isSome_iff_exists.mp (isSome_position?_iff.mpr (isBorder_offset source p))

/-- A position is found by counting through the text in front of its offset. -/
theorem exists_of_position? (h : (ofSource source).position? o = some q) :
    ∃ before, before <+: source.toList ∧ bytes before = o ∧ q = Position.after ⟨1, 1⟩ before := by
  obtain ⟨before, rest, hsource, rfl⟩ := isBorder_of_position? h
  rw [position?_bytes hsource] at h
  exact ⟨before, ⟨rest, hsource.symm⟩, rfl, (Option.some.inj h).symm⟩

/-- The position at the end of some first characters of a source is the one reached by reading them.
-/
theorem position?_of_isPrefix {before : List Char} (h : before <+: source.toList) :
    (ofSource source).position? (bytes before) = some (Position.after ⟨1, 1⟩ before) := by
  obtain ⟨rest, hrest⟩ := h
  exact position?_bytes hrest.symm

/-- Later offsets have later positions. -/
theorem position?_lt (h : (ofSource source).position? o = some q)
    (h' : (ofSource source).position? o' = some q') (hlt : o < o') : q.le q' ∧ q ≠ q' := by
  obtain ⟨before, hbefore, rfl, rfl⟩ := exists_of_position? h
  obtain ⟨upto, hupto, rfl, rfl⟩ := exists_of_position? h'
  obtain ⟨more, rfl⟩ := isPrefix_of_bytes_le hbefore hupto (Nat.le_of_lt hlt)
  have hne : more ≠ [] := by
    rintro rfl
    rw [List.append_nil] at hlt
    exact Nat.lt_irrefl _ hlt
  have hnot := Position.not_after_le (Position.after ⟨1, 1⟩ before) hne
  rw [Position.after_append]
  refine ⟨Position.le_after _ _, fun heq => hnot ?_⟩
  rw [← heq]
  exact Position.le_refl _

/-- An offset is not behind that of a position exactly if its own position is not behind that
position. -/
theorem le_offset_iff (h : (ofSource source).position? o = some q) (hline : 1 ≤ p.line)
    (hcolumn : 1 ≤ p.column) : o ≤ (ofSource source).offset p ↔ q.le p := by
  obtain ⟨before, hbefore, rfl, rfl⟩ := exists_of_position? h
  have huntil := Caret.charsUntil_isPrefix p.column (p.line - 1) source.toList
  have hplace := Caret.after_le_iff_isPrefix List.not_mem_nil hbefore hcolumn 1 (p.line - 1)
  have hp : 1 + (p.line - 1) = p.line := by omega
  rw [hp, List.nil_append, List.nil_append, List.length_nil, Nat.zero_add] at hplace
  rw [hplace, offset_eq_bytes]
  exact ⟨isPrefix_of_bytes_le hbefore huntil, bytes_le_of_isPrefix⟩

/-- A position leads back to the offset that it is the position of. -/
theorem offset_of_position? (h : (ofSource source).position? o = some q) :
    (ofSource source).offset q = o := by
  obtain ⟨hline, hcolumn⟩ : 1 ≤ q.line ∧ 1 ≤ q.column := by
    obtain ⟨before, -, -, rfl⟩ := exists_of_position? h
    exact Position.one_le_after before (Nat.le_refl 1) (Nat.le_refl 1)
  have hle : o ≤ (ofSource source).offset q := (le_offset_iff h hline hcolumn).mpr q.le_refl
  -- were the offset that it leads to a later one, it would have a later position
  obtain ⟨q', h'⟩ := exists_position?_offset source q
  have hback : q'.le q := (le_offset_iff h' hline hcolumn).mp (Nat.le_refl _)
  rcases Nat.lt_or_eq_of_le hle with hlt | heq
  · obtain ⟨hle', hne⟩ := position?_lt h h' hlt
    exact absurd (Position.le_antisymm hle' hback) hne
  · exact heq.symm

/-- Later positions do not lead to earlier offsets. -/
theorem offset_le_offset (hline : 1 ≤ p.line) (hcolumn : 1 ≤ p.column) (hcolumn' : 1 ≤ q.column)
    (hle : p.le q) : (ofSource source).offset p ≤ (ofSource source).offset q := by
  obtain ⟨q', h'⟩ := exists_position?_offset source p
  have hline' : 1 ≤ q.line := by
    rw [Position.le_iff] at hle
    omega
  have hback : q'.le p := (le_offset_iff h' hline hcolumn).mp (Nat.le_refl _)
  exact (le_offset_iff h' hline' hcolumn').mpr (Position.le_trans hback hle)

/-- The borders of characters are the places within a source that are valid in its bytes. -/
theorem isBorder_iff_isValid :
    IsBorder source.toList o ↔ o ≤ source.utf8ByteSize ∧ String.Pos.Raw.IsValid source ⟨o⟩ := by
  rw [← isBorder_toList_iff]
  constructor
  · intro h
    have hle := h.le
    rw [bytes_toList] at hle
    exact ⟨hle, h⟩
  · exact And.right

/-- There is no position inside a character of two bytes, and a column past the end of a line stands
for that end. -/
example : (ofSource "é\nx").position? 2 = some ⟨1, 2⟩ ∧ (ofSource "é\nx").position? 1 = none ∧
    (ofSource "é\nx").offset ⟨1, 9⟩ = 2 := by
  decide

/-! ### Ranges -/

/-- The last border in front of the end of a text is where its last character starts. -/
theorem isGreatest_border {before : List Char} {c : Char} (h : before ++ [c] <+: source.toList) :
    IsGreatest {o | o < bytes (before ++ [c]) ∧ String.Pos.Raw.IsValid source ⟨o⟩}
      (bytes before) := by
  constructor
  · obtain ⟨rest, hrest⟩ := h
    refine ⟨?_, isBorder_toList_iff.mp ⟨before, c :: rest, ?_, rfl⟩⟩
    · have hpos := c.utf8Size_pos
      rw [bytes_append, bytes_cons]
      omega
    · rw [← hrest, List.append_assoc]
      rfl
  · rintro o ⟨hlt, hvalid⟩
    obtain ⟨upto, rest, hsource, rfl⟩ := isBorder_toList_iff.mpr hvalid
    have hpre := isPrefix_of_bytes_le ⟨rest, hsource.symm⟩ h (Nat.le_of_lt hlt)
    rcases List.prefix_concat_iff.mp hpre with rfl | hpre
    · exact absurd hlt (Nat.lt_irrefl _)
    · exact bytes_le_of_isPrefix hpre

end LineIndex

end Espalier
