import Espalier.Proofs.Source.Cursor
import Espalier.Source.LineIndex

/-!
# Positions of borders

Every border of a source has a position, and so has the character that ends there: they are what
`Position.after` finds by counting through the text in front of it. Reading on never leads to an
earlier position, so a span that lies inside another one has a range inside that one's range.
-/

namespace Espalier

open Text

/-! ### Reading order -/

namespace Position

/-- Positions are ordered by line, then by column. -/
theorem le_iff {p q : Position} :
    p.le q ↔ p.line < q.line ∨ p.line = q.line ∧ p.column ≤ q.column := by
  simp [le]

theorem le_refl (p : Position) : p.le p :=
  le_iff.mpr (.inr ⟨rfl, Nat.le_refl _⟩)

theorem le_trans {p q r : Position} (h : p.le q) (h' : q.le r) : p.le r := by
  rw [le_iff] at h h' ⊢
  omega

/-- The position after a text whose first character is at `p`. -/
def after (p : Position) : List Char → Position
  | [] => p
  | c :: cs => after (if c = '\n' then ⟨p.line + 1, 1⟩ else ⟨p.line, p.column + 1⟩) cs

/-- A position moves on over two texts one after the other. -/
theorem after_append (p : Position) (cs ds : List Char) :
    p.after (cs ++ ds) = (p.after cs).after ds := by
  induction cs generalizing p with
  | nil => rfl
  | cons c cs ih => exact ih _

/-- A position never goes back. -/
theorem le_after (p : Position) (cs : List Char) : p.le (p.after cs) := by
  induction cs generalizing p with
  | nil => exact le_refl p
  | cons c cs ih =>
    refine le_trans ?_ (ih _)
    rw [le_iff]
    split
    · exact .inl (Nat.lt_succ_self _)
    · exact .inr ⟨rfl, Nat.le_succ _⟩

/-- Lines and columns are counted from one. -/
theorem one_le_after (cs : List Char) {p : Position} (hline : 1 ≤ p.line) (hcolumn : 1 ≤ p.column) :
    1 ≤ (p.after cs).line ∧ 1 ≤ (p.after cs).column := by
  induction cs generalizing p with
  | nil => exact ⟨hline, hcolumn⟩
  | cons c cs ih =>
    rw [after]
    split
    · exact ih (Nat.le_add_left 1 _) (Nat.le_refl 1)
    · exact ih hline (Nat.le_add_left 1 _)

/-- A character leads one line or one column on. -/
theorem after_sum_le (cs : List Char) {p : Position} (hcolumn : 1 ≤ p.column) :
    (p.after cs).line + (p.after cs).column ≤ p.line + p.column + bytes cs := by
  induction cs generalizing p with
  | nil => exact Nat.le_refl _
  | cons c cs ih =>
    have hpos := c.utf8Size_pos
    rw [after, bytes_cons]
    split
    · have hrest := @ih ⟨p.line + 1, 1⟩ (Nat.le_refl 1)
      simp only at hrest
      omega
    · have hrest := @ih ⟨p.line, p.column + 1⟩ (Nat.le_add_left 1 _)
      simp only at hrest
      omega

end Position

/-! ### Lines -/

theorem Text.bytes_reverse (cs : List Char) : bytes cs.reverse = bytes cs := by
  induction cs with
  | nil => rfl
  | cons c cs ih =>
    rw [List.reverse_cons, bytes_append, ih, bytes_cons, bytes_cons, bytes_nil]
    omega

namespace Line

/-- The first line goes on with the first character that is left, and the second one starts where
it ends. -/
theorem exists_split_eq (start : Nat) (seen cs : List Char) :
    ∃ more lines, split start seen cs = ⟨start, seen.reverse ++ more⟩ :: lines ∧
      more.head? = cs.head? ∧
      ∀ line ∈ lines.head?, more ≠ [] ∧ line.start = start + bytes seen + bytes more := by
  induction cs generalizing start seen with
  | nil => exact ⟨[], [], by rw [split, List.append_nil], rfl, nofun⟩
  | cons c cs ih =>
    unfold split
    split
    · -- a line break ends the line, and the next one starts behind it
      next hc =>
      obtain ⟨more, lines, heq, -, -⟩ := ih (start + bytes (c :: seen).reverse) []
      have hchars : (c :: seen).reverse = seen.reverse ++ [c] := List.reverse_cons
      refine ⟨[c], split (start + bytes (c :: seen).reverse) [] cs, by rw [hchars], rfl, ?_⟩
      intro line hline
      rw [heq, List.head?_cons, Option.mem_some_iff] at hline
      subst hline
      refine ⟨List.cons_ne_nil _ _, ?_⟩
      show start + bytes (c :: seen).reverse = start + bytes seen + bytes [c]
      rw [bytes_reverse, bytes_cons, bytes_cons, bytes_nil]
      omega
    · obtain ⟨more, lines, heq, -, hnext⟩ := ih start (c :: seen)
      refine ⟨c :: more, lines, ?_, rfl, ?_⟩
      · rw [heq, List.reverse_cons, List.append_assoc]
        rfl
      · intro line hline
        refine ⟨List.cons_ne_nil _ _, ?_⟩
        rw [(hnext line hline).2, bytes_cons, bytes_cons]
        omega

/-- A column is told by the characters in front of it. -/
theorem charsIn?_append (cs ds : List Char) : charsIn? (cs ++ ds) (bytes cs) = some cs.length := by
  induction cs with
  | nil => cases ds <;> rfl
  | cons c cs ih =>
    obtain ⟨n, hn⟩ : ∃ n, c.utf8Size + bytes cs = n + 1 :=
      Nat.exists_eq_add_one.mpr (Nat.add_pos_left c.utf8Size_pos _)
    rw [List.cons_append, bytes_cons, hn, charsIn?, ← hn, if_neg (by omega),
      Nat.add_sub_cancel_left, ih]
    rfl

end Line

namespace LineIndex

/-- A line that holds the place between two texts: what the line has in front of the place and what
it has after it. -/
structure Holds (p : Position) (offset : Nat) (left right : List Char) (line : Line) : Prop where
  chars_eq : line.chars = left ++ right
  offset_eq : offset = line.start + bytes left
  column_eq : p.column = left.length + 1

/-- Looking for a byte of the character that follows a text, or for the place after the text, finds
the line that holds it. -/
theorem lineAt?_split {before rest : List Char} {k : Nat}
    (hk : ∀ c ∈ rest.head?, k < c.utf8Size) (start n : Nat) (seen : List Char) :
    ∃ line right, lineAt? (start + bytes seen + bytes before + k) n
        (Line.split start seen (before ++ rest)) =
          some ((Position.after ⟨n, seen.length + 1⟩ before).line, line) ∧
      right.head? = rest.head? ∧
      ∃ left, Holds (Position.after ⟨n, seen.length + 1⟩ before) (start + bytes seen + bytes before)
        left right line := by
  induction before generalizing start n seen with
  | nil =>
    obtain ⟨right, lines, heq, hhead, hnext⟩ := Line.exists_split_eq start seen rest
    refine ⟨⟨start, seen.reverse ++ right⟩, right, ?_, hhead, seen.reverse, rfl, ?_, ?_⟩
    · have hfirst : start ≤ start + bytes seen + bytes [] + k := by omega
      rw [List.nil_append, heq, lineAt?, if_pos hfirst]
      -- The lines after the first one start behind the place.
      have hnone : lineAt? (start + bytes seen + bytes [] + k) (n + 1) lines = none := by
        cases lines with
        | nil => rfl
        | cons next lines =>
          obtain ⟨hne, hstart⟩ := hnext next rfl
          obtain ⟨c, right, rfl⟩ := List.exists_cons_of_ne_nil hne
          have hlt := hk c hhead.symm
          rw [lineAt?, if_neg]
          rw [hstart, bytes_cons, bytes_nil]
          omega
      rw [hnone]
      rfl
    · rw [bytes_reverse, bytes_nil, Nat.add_zero]
    · rw [List.length_reverse]
      rfl
  | cons c before ih =>
    by_cases hc : c = '\n'
    · obtain ⟨line, right, hfind, hhead, left, hholds⟩ :=
        ih (start + bytes (c :: seen).reverse) (n + 1) []
      have hoffset : start + bytes (c :: seen).reverse + bytes [] + bytes before =
          start + bytes seen + bytes (c :: before) := by
        rw [bytes_reverse, bytes_cons, bytes_cons, bytes_nil]
        omega
      rw [hoffset] at hfind hholds
      have hfirst : start ≤ start + bytes seen + bytes (c :: before) + k := by omega
      rw [List.cons_append, Line.split, if_pos hc, lineAt?, if_pos hfirst, Position.after,
        if_pos hc]
      refine ⟨line, right, ?_, hhead, left, hholds⟩
      rw [hfind]
      rfl
    · obtain ⟨line, right, hfind, hhead, left, hholds⟩ := ih start n (c :: seen)
      have hoffset : start + bytes (c :: seen) + bytes before =
          start + bytes seen + bytes (c :: before) := by
        rw [bytes_cons, bytes_cons]
        omega
      rw [hoffset] at hfind hholds
      rw [List.cons_append, Line.split, if_neg hc, Position.after, if_neg hc]
      exact ⟨line, right, hfind, hhead, left, hholds⟩

/-! ### Positions in a source -/

section

variable {source : String} {before rest : List Char}

/-- The position of a place is found by counting through the text in front of it. -/
theorem position?_bytes (h : source.toList = before ++ rest) :
    (ofSource source).position? (bytes before) = some (Position.after ⟨1, 1⟩ before) := by
  obtain ⟨line, right, hfind, -, left, hchars, hoffset, hcolumn⟩ :=
    @lineAt?_split before rest 0 (fun c _ => c.utf8Size_pos) 0 1 []
  have hstart : 0 + bytes [] + bytes before = bytes before := by
    rw [bytes_nil, Nat.zero_add]
  rw [Nat.add_zero, hstart] at hfind
  rw [hstart] at hoffset
  unfold position? ofSource
  rw [h, hfind]
  have hin : Line.charsIn? line.chars (bytes before - line.start) = some left.length := by
    rw [hoffset, Nat.add_sub_cancel_left, hchars, Line.charsIn?_append]
  show (Line.charsIn? line.chars (bytes before - line.start)).bind _ = _
  rw [hin]
  exact congrArg some (congrArg (Position.mk _) hcolumn.symm)

/-- The position of a character is that of the place in front of it. -/
theorem positionBefore?_bytes {c : Char} (h : source.toList = before ++ c :: rest) :
    (ofSource source).positionBefore? (bytes (before ++ [c])) =
      some (Position.after ⟨1, 1⟩ before) := by
  have hpos := c.utf8Size_pos
  obtain ⟨line, right, hfind, hhead, left, hchars, hoffset, hcolumn⟩ :=
    @lineAt?_split before (c :: rest) (c.utf8Size - 1)
      (fun d hd => by cases hd; omega) 0 1 []
  obtain ⟨right, rfl⟩ := List.head?_eq_some_iff.mp hhead
  have hstart : 0 + bytes [] + bytes before = bytes before := by
    rw [bytes_nil, Nat.zero_add]
  have hend : bytes (before ++ [c]) = bytes before + c.utf8Size := by
    rw [bytes_append, bytes_cons, bytes_nil, Nat.add_zero]
  -- the last byte in front lies in the character before, so in its line
  have hlast : bytes (before ++ [c]) - 1 = 0 + bytes [] + bytes before + (c.utf8Size - 1) := by
    rw [hend, hstart]
    omega
  rw [hstart] at hoffset
  unfold positionBefore? ofSource
  rw [h, hlast, hfind]
  have hin : Line.charsIn? line.chars (bytes (before ++ [c]) - line.start) =
      some (left.length + 1) := by
    have hbytes : bytes (before ++ [c]) - line.start = bytes (left ++ [c]) := by
      rw [hend, hoffset, bytes_append, bytes_cons, bytes_nil]
      omega
    rw [hbytes, hchars, List.append_cons left c right, Line.charsIn?_append, List.length_append]
    rfl
  show (Line.charsIn? line.chars (bytes (before ++ [c]) - line.start)).bind _ = _
  rw [hin]
  exact congrArg some (congrArg (Position.mk _) hcolumn.symm)

/-! ### Ranges -/

/-- The range of a span between borders: it ends where the last character of the span starts. -/
theorem exists_range?_eq {s : Span} (hstart : IsBorder source.toList s.start)
    (hstop : IsBorder source.toList s.stop) (hle : s.start ≤ s.stop) :
    ∃ first last, (ofSource source).range? s =
        some ⟨Position.after ⟨1, 1⟩ first, Position.after ⟨1, 1⟩ last⟩ ∧
      first <+: source.toList ∧ bytes first = s.start ∧
      (s.start = s.stop ∧ last = first ∨
        s.start < s.stop ∧
          ∃ c, last ++ [c] <+: source.toList ∧ bytes (last ++ [c]) = s.stop) := by
  obtain ⟨first, rest, hfirst, hbytes⟩ := hstart
  obtain ⟨upto, beyond, hupto, hbytes'⟩ := hstop
  have hposition : (ofSource source).position? s.start = some (Position.after ⟨1, 1⟩ first) := by
    rw [← hbytes]
    exact position?_bytes hfirst
  unfold range?
  rw [if_neg (Nat.not_lt.mpr hle), hposition]
  -- the range of an empty span ends where it starts
  by_cases hempty : s.start = s.stop
  · have his : s.isEmpty = true := beq_iff_eq.mpr hempty
    refine ⟨first, first, ?_, ⟨rest, hfirst.symm⟩, hbytes, .inl ⟨hempty, rfl⟩⟩
    rw [his]
    rfl
  · have his : s.isEmpty = false := beq_eq_false_iff_ne.mpr hempty
    have hne : upto ≠ [] := by
      rintro rfl
      rw [bytes_nil] at hbytes'
      omega
    have hconcat := List.dropLast_concat_getLast hne
    generalize upto.dropLast = last at hconcat
    generalize upto.getLast hne = c at hconcat
    subst hconcat
    have hbefore : (ofSource source).positionBefore? s.stop =
        some (Position.after ⟨1, 1⟩ last) := by
      rw [← hbytes']
      rw [← List.append_cons last c beyond] at hupto
      exact positionBefore?_bytes hupto
    have hlt : s.start < s.stop := by omega
    refine ⟨first, last, ?_, ⟨rest, hfirst.symm⟩, hbytes,
      .inr ⟨hlt, c, ⟨beyond, hupto.symm⟩, hbytes'⟩⟩
    rw [his]
    show ((ofSource source).positionBefore? s.stop).bind _ = _
    rw [hbefore]
    rfl

end

end LineIndex

/-! ### Prefixes of a source -/

/-- Of two texts that a source starts with, the one with no more bytes is a prefix of the other
one. -/
theorem Text.isPrefix_of_bytes_le {cs before upto : List Char} (h : before <+: cs)
    (h' : upto <+: cs) (hle : bytes before ≤ bytes upto) : before <+: upto := by
  rcases List.prefix_or_prefix_of_prefix h h' with hprefix | ⟨more, rfl⟩
  · exact hprefix
  · have hmore : more = [] := Decidable.byContradiction fun hne => by
      have := bytes_pos hne
      rw [bytes_append] at hle
      omega
    exact ⟨[], by rw [hmore, List.append_nil, List.append_nil]⟩

/-- More text leads to a later position. -/
theorem Position.le_of_isPrefix {p : Position} {before upto : List Char} (h : before <+: upto) :
    (p.after before).le (p.after upto) := by
  obtain ⟨more, rfl⟩ := h
  rw [after_append]
  exact le_after _ _

/-- A span between borders has a range. -/
theorem LineIndex.isSome_range? {source : String} {s : Span}
    (hstart : IsBorder source.toList s.start) (hstop : IsBorder source.toList s.stop)
    (hle : s.start ≤ s.stop) : ((ofSource source).range? s).isSome := by
  obtain ⟨first, last, heq, -⟩ := exists_range?_eq hstart hstop hle
  rw [heq]
  rfl

/-! ### Offsets that have positions -/

/-- The lines are pieces of the source, and start where they stand in it. -/
theorem Line.exists_of_mem_split {start : Nat} {seen cs : List Char} {line : Line}
    (h : line ∈ split start seen cs) :
    ∃ before after, seen.reverse ++ cs = before ++ (line.chars ++ after) ∧
      line.start = start + bytes before := by
  -- along the characters, those of the line so far set aside
  induction cs generalizing start seen with
  | nil =>
    rw [split, List.mem_singleton] at h
    subst h
    exact ⟨[], [], rfl, rfl⟩
  | cons c cs ih =>
    have hchars : seen.reverse ++ c :: cs = (c :: seen).reverse ++ cs := by
      rw [List.reverse_cons, List.append_assoc]
      rfl
    rw [hchars]
    rw [split] at h
    split at h
    · rcases List.mem_cons.mp h with rfl | h
      · exact ⟨[], cs, rfl, rfl⟩
      · obtain ⟨before, after, hcs, hstart⟩ := ih h
        refine ⟨(c :: seen).reverse ++ before, after, ?_, ?_⟩
        · rw [List.append_assoc, ← hcs]
          rfl
        · rw [hstart, bytes_append, Nat.add_assoc]
    · exact ih h

/-- A column that can be told lies between two characters. -/
theorem Line.isBorder_of_charsIn? {cs : List Char} {n k : Nat} (h : charsIn? cs n = some k) :
    IsBorder cs n := by
  induction cs generalizing n k with
  | nil =>
    cases n with
    | zero => exact isBorder_zero []
    | succ n => cases h
  | cons c cs ih =>
    cases n with
    | zero => exact isBorder_zero _
    | succ n =>
      rw [charsIn?] at h
      split at h
      · cases h
      · next hlt =>
        obtain ⟨k, hk, -⟩ := Option.map_eq_some_iff.mp h
        obtain ⟨before, after, rfl, hbytes⟩ := ih hk
        exact ⟨c :: before, after, rfl, by rw [bytes_cons, hbytes]; omega⟩

namespace LineIndex

/-- The line of an offset starts at or before it. -/
theorem mem_of_lineAt? {offset n i : Nat} {lines : List Line} {line : Line}
    (h : lineAt? offset n lines = some (i, line)) : line ∈ lines ∧ line.start ≤ offset := by
  induction lines generalizing n with
  | nil => cases h
  | cons first lines ih =>
    rw [lineAt?] at h
    split at h
    · next hle =>
      rcases Option.or_eq_some_iff.mp h with h | ⟨-, h⟩
      · exact ⟨List.mem_cons_of_mem _ (ih h).1, (ih h).2⟩
      · cases h
        exact ⟨List.mem_cons_self, hle⟩
    · cases h

variable {source : String} {offset : Nat} {p : Position}

/-- What ends with some characters of a line ends on a border of the source. -/
theorem isBorder_of_mem_lines {line : Line} {k : Nat} (hline : line ∈ (ofSource source).lines)
    (hle : line.start ≤ offset)
    (hk : Line.charsIn? line.chars (offset - line.start) = some k) :
    IsBorder source.toList offset := by
  obtain ⟨before, after, hsource, hstart⟩ := Line.exists_of_mem_split hline
  obtain ⟨left, right, hchars, hbytes⟩ := Line.isBorder_of_charsIn? hk
  refine ⟨before ++ left, right ++ after, ?_, ?_⟩
  · rw [List.reverse_nil, List.nil_append] at hsource
    rw [hsource, hchars, List.append_assoc, List.append_assoc]
  · rw [bytes_append, hbytes]
    omega

/-- Only borders have positions. -/
theorem isBorder_of_position? (h : (ofSource source).position? offset = some p) :
    IsBorder source.toList offset := by
  obtain ⟨⟨n, line⟩, hfind, hrest⟩ := Option.bind_eq_some_iff.mp h
  obtain ⟨k, hk, -⟩ := Option.bind_eq_some_iff.mp hrest
  obtain ⟨hmem, hle⟩ := mem_of_lineAt? hfind
  exact isBorder_of_mem_lines hmem hle hk

/-- Only at a border a character ends. -/
theorem isBorder_of_positionBefore? (h : (ofSource source).positionBefore? offset = some p) :
    IsBorder source.toList offset := by
  obtain ⟨⟨n, line⟩, hfind, hrest⟩ := Option.bind_eq_some_iff.mp h
  obtain ⟨k, hk, -⟩ := Option.bind_eq_some_iff.mp hrest
  obtain ⟨hmem, hle⟩ := mem_of_lineAt? hfind
  exact isBorder_of_mem_lines hmem (Nat.le_trans hle (Nat.sub_le offset 1)) hk

/-- The spans that have ranges are those between borders, with their ends in the right order. -/
theorem isSome_range?_iff {s : Span} :
    ((ofSource source).range? s).isSome ↔
      s.start ≤ s.stop ∧ IsBorder source.toList s.start ∧ IsBorder source.toList s.stop := by
  refine ⟨fun h => ?_, fun ⟨hle, hstart, hstop⟩ => isSome_range? hstart hstop hle⟩
  obtain ⟨r, hr⟩ := Option.isSome_iff_exists.mp h
  unfold range? at hr
  split at hr
  · cases hr
  · next hlt =>
    obtain ⟨first, hfirst, hrest⟩ := Option.bind_eq_some_iff.mp hr
    have hstart := isBorder_of_position? hfirst
    refine ⟨Nat.le_of_not_lt hlt, hstart, ?_⟩
    by_cases hempty : s.isEmpty = true
    · rw [← beq_iff_eq.mp hempty]
      exact hstart
    · rw [if_neg hempty] at hrest
      obtain ⟨last, hlast, -⟩ := Option.bind_eq_some_iff.mp hrest
      exact isBorder_of_positionBefore? hlast

end LineIndex

/-! ### Spans inside each other -/

/-- The range of a span contains that of a span inside it that starts before it ends. -/
theorem LineIndex.contains_of_encloses {source : String} {s t : Span} {r q : SourceRange}
    (hstart : IsBorder source.toList s.start) (hstop : IsBorder source.toList s.stop)
    (hstart' : IsBorder source.toList t.start) (hstop' : IsBorder source.toList t.stop)
    (hle : t.start ≤ t.stop) (henc : s.encloses t) (hlt : t.start < s.stop)
    (hr : (ofSource source).range? s = some r) (hq : (ofSource source).range? t = some q) :
    r.contains q := by
  obtain ⟨hleft, hright⟩ := Span.encloses_iff.mp henc
  obtain ⟨first, last, heq, hfirst, hbytes, hlast⟩ := exists_range?_eq hstart hstop (by omega)
  obtain ⟨first', last', heq', hfirst', hbytes', hlast'⟩ := exists_range?_eq hstart' hstop' hle
  obtain rfl : _ = r := Option.some.inj (heq.symm.trans hr)
  obtain rfl : _ = q := Option.some.inj (heq'.symm.trans hq)
  obtain ⟨hempty, -⟩ | ⟨-, c, hlast, hend⟩ := hlast
  · omega
  have hpre : first <+: first' := isPrefix_of_bytes_le hfirst hfirst' (by omega)
  -- the last character of the inner span lies at or before that of the outer one
  have hpre' : last' <+: last := by
    rcases hlast' with ⟨hempty', rfl⟩ | ⟨-, d, hlast', hend'⟩
    · -- A span of no byte starts at a character of the outer span.
      have h := isPrefix_of_bytes_le hfirst' hlast (by omega)
      rcases List.prefix_concat_iff.mp h with heq | h
      · rw [heq, hend] at hbytes'
        omega
      · exact h
    · have h := isPrefix_of_bytes_le hlast' hlast (by omega)
      rcases List.prefix_concat_iff.mp h with heq | h
      · obtain rfl := (List.append_inj' heq rfl).1
        exact List.prefix_refl _
      · exact (List.prefix_append _ _).trans h
  unfold SourceRange.contains
  rw [Bool.and_eq_true]
  exact ⟨Position.le_of_isPrefix hpre, Position.le_of_isPrefix hpre'⟩

/-! ### Places in words of thirty-two bits -/

/-- No position of an addressable source is beyond what is stored. -/
theorem Position.isStored_after {source : String} (hsmall : IsAddressable source)
    {before : List Char} (h : before <+: source.toList) : (after ⟨1, 1⟩ before).IsStored := by
  have hbytes := bytes_le_of_isPrefix h
  rw [bytes_toList] at hbytes
  have hsum := after_sum_le before (show 1 ≤ (⟨1, 1⟩ : Position).column from Nat.le_refl 1)
  have hone := one_le_after before (show 1 ≤ (⟨1, 1⟩ : Position).line from Nat.le_refl 1)
    (show 1 ≤ (⟨1, 1⟩ : Position).column from Nat.le_refl 1)
  unfold IsAddressable at hsmall
  simp only at hsum
  exact ⟨by omega, by omega⟩

namespace LineIndex

variable {source : String}

/-- The table of an addressable source holds nothing that does not fit. -/
theorem isStored_ofSource (hsmall : IsAddressable source) : (ofSource source).IsStored := by
  unfold IsAddressable at hsmall
  refine ⟨by show source.utf8ByteSize < _; omega, fun line hline => ?_⟩
  obtain ⟨before, after, hsource, hstart⟩ := Line.exists_of_mem_split hline
  rw [List.reverse_nil, List.nil_append] at hsource
  have hbytes := bytes_le_of_isPrefix (List.prefix_append before (line.chars ++ after))
  rw [← hsource, bytes_toList] at hbytes
  omega

theorem isStored_of_position? (hsmall : IsAddressable source) {o : Nat} {q : Position}
    (h : (ofSource source).position? o = some q) : q.IsStored := by
  obtain ⟨before, rest, hsource, rfl⟩ := isBorder_of_position? h
  rw [position?_bytes hsource] at h
  cases h
  exact Position.isStored_after hsmall ⟨rest, hsource.symm⟩

/-- A range has positions that can be stored, below 4 GiB. -/
theorem isStored_of_range? (hsmall : IsAddressable source) {s : Span} {r : SourceRange}
    (h : (ofSource source).range? s = some r) : r.IsStored := by
  obtain ⟨hle, hstart, hstop⟩ := isSome_range?_iff.mp (Option.isSome_of_mem h)
  obtain ⟨first, last, heq, hfirst, -, hlast⟩ := exists_range?_eq hstart hstop hle
  obtain rfl : _ = r := Option.some.inj (heq.symm.trans h)
  have hbefore : last <+: source.toList := by
    rcases hlast with ⟨-, rfl⟩ | ⟨-, c, hlast, -⟩
    · exact hfirst
    · exact (List.prefix_append last [c]).trans hlast
  exact ⟨Position.isStored_after hsmall hfirst, Position.isStored_after hsmall hbefore⟩

end LineIndex

end Espalier
