import Espalier.Proofs.Token.Lexeme
import Espalier.Text.Letter

/-!
# The tokens of a source

Reading one token after the other from the start of a source comes to the end of the source. On the
way every token is read from a place behind the one before it, the spans lie in the source and do
not overlap, and between the tokens there is nothing but blanks and comments (`IsGap`). A block
comment that is not closed is the one exception: it makes a token without a text at the end.
-/

namespace Espalier.Token

open Text Cursor

/-! ### Gaps -/

/-- The text consists of blanks and comments, with `follow` behind it; `outside` are those of its
characters that are in no comment. A line comment goes on to the next line feed, or to the end of
the source. In an open gap the last comment is a block comment that nothing closes. -/
inductive IsGap : (isOpen : Bool) → (text outside follow : List Char) → Prop
  | nil (follow : List Char) : IsGap false [] [] follow
  | blank {isOpen : Bool} {c : Char} {text outside follow : List Char}
      (hc : isWhite c = true ∨ c = '\ufeff') (rest : IsGap isOpen text outside follow) :
      IsGap isOpen (c :: text) (c :: outside) follow
  | lineComment {isOpen : Bool} (body : List Char) {text outside follow : List Char}
      (hbody : '\n' ∉ body) (hend : ∀ c ∈ (text ++ follow).head?, c = '\n')
      (rest : IsGap isOpen text outside follow) :
      IsGap isOpen ('/' :: '/' :: (body ++ text)) outside follow
  | blockComment {isOpen : Bool} (body : List Char) {text outside follow : List Char}
      (hbody : ¬ ['*', '/'] <:+: body) (rest : IsGap isOpen text outside follow) :
      IsGap isOpen ('/' :: '*' :: (body ++ '*' :: '/' :: text)) outside follow
  | openComment (body : List Char) (hbody : ¬ ['*', '/'] <:+: body) :
      IsGap true ('/' :: '*' :: body) [] []

/-- A line ends in a gap: at a line feed, or at a separator of lines or paragraphs that is in no
comment. -/
def EndsLineIn (text outside : List Char) : Prop :=
  '\n' ∈ text ∨ '\u2028' ∈ outside ∨ '\u2029' ∈ outside

/-- The blanks between tokens are white, apart from the byte order mark. -/
theorem isWhite_of_isBlank {c : Char} (h : isBlank c = true) : isWhite c = true ∨ c = '\ufeff' := by
  have hwide : wideBlanks.all (fun d => isWhite d || d == '\ufeff') = true := by decide +kernel
  by_cases hc : c.toNat < 128
  · left
    unfold isBlank at h
    rw [if_pos hc] at h
    unfold isWhite
    rw [if_pos hc]
    exact h
  · have hmem := List.all_eq_true.mp hwide c (mem_wideBlanks h hc)
    rwa [Bool.or_eq_true, beq_iff_eq] at hmem

/-- The slash of a comment is no blank. -/
theorem not_isWhite_slash : ¬ (isWhite '/' = true ∨ '/' = '\ufeff') := by decide

variable {isOpen : Bool} {text outside follow : List Char} {c : Char}

/-- A line comment with one more character in front. -/
theorem IsGap.lineComment_cons (h : IsGap isOpen ('/' :: '/' :: text) outside follow)
    (hc : c ≠ '\n') : IsGap isOpen ('/' :: '/' :: c :: text) outside follow := by
  generalize hall : '/' :: '/' :: text = all at h
  cases h with
  | nil => cases hall
  | blank hwhite =>
    cases hall
    exact absurd hwhite not_isWhite_slash
  | lineComment body hbody hend rest =>
    cases hall
    exact .lineComment (c :: _) (List.not_mem_cons_of_ne_of_not_mem hc.symm hbody) hend rest
  | blockComment => cases hall
  | openComment => cases hall

/-- The end of a comment begins with the first of two characters only if the second one closes. -/
theorem not_isInfix_cons {body : List Char} (more : List Char) (hbody : ¬ ['*', '/'] <:+: body)
    (hc : c = '*' → (body ++ more).head? ≠ some '/') : ¬ ['*', '/'] <:+: c :: body := by
  rw [List.infix_cons_iff]
  rintro (hstart | hin)
  · obtain ⟨hstar, hslash⟩ := List.cons_prefix_cons.mp hstart
    obtain ⟨rest, rfl⟩ := hslash
    exact hc hstar.symm rfl
  · exact hbody hin

/-- A block comment with one more character in front. -/
theorem IsGap.blockComment_cons (h : IsGap isOpen ('/' :: '*' :: text) outside follow)
    (hc : c = '*' → text.head? ≠ some '/') :
    IsGap isOpen ('/' :: '*' :: c :: text) outside follow := by
  generalize hall : '/' :: '*' :: text = all at h
  cases h with
  | nil => cases hall
  | blank hwhite =>
    cases hall
    exact absurd hwhite not_isWhite_slash
  | lineComment => cases hall
  | blockComment body hbody rest =>
    cases hall
    exact .blockComment (c :: _) (not_isInfix_cons _ hbody hc) rest
  | openComment body hbody =>
    cases hall
    refine .openComment _ (not_isInfix_cons [] hbody ?_)
    rwa [List.append_nil]

/-- How a part of a gap is opened. -/
def GapPart.opening : GapPart → List Char
  | blank => []
  | lineComment => ['/', '/']
  | blockComment => ['/', '*']

theorem endsLineIn_nil : ¬ EndsLineIn [] [] := by
  rintro (h | h | h) <;> cases h

/-- A character in a comment. -/
theorem endsLineIn_cons : EndsLineIn (c :: text) outside ↔ c = '\n' ∨ EndsLineIn text outside := by
  unfold EndsLineIn
  rw [List.mem_cons, or_assoc, eq_comm]

/-- A blank. -/
theorem endsLineIn_blank :
    EndsLineIn (c :: text) (c :: outside) ↔ endsLine c = true ∨ EndsLineIn text outside := by
  unfold EndsLineIn endsLine
  simp only [List.mem_cons, Bool.or_eq_true, beq_iff_eq, @eq_comm _ _ c, or_assoc, or_left_comm]

/-- What is skipped from a place on is a gap, if it is put behind what opens the part of the gap
that the place is in. -/
theorem isGap_gap (part : GapPart) (newline : Bool) (pos : Nat) (cs : List Char) :
    ∃ text outside, Reads ⟨pos, cs⟩ text (gap part newline pos cs).after ∧
      IsGap (gap part newline pos cs).unclosed (part.opening ++ text) outside
        (gap part newline pos cs).after.rest ∧
      ((gap part newline pos cs).newline = true ↔ newline = true ∨ EndsLineIn text outside) := by
  -- the induction follows the reader, one case for each state and next character
  fun_induction gap part newline pos cs with
  | case1 part newline pos =>
    refine ⟨[], [], .refl _, ?_, by simp [endsLineIn_nil]⟩
    cases part with
    | blank => exact .nil _
    | lineComment => exact .lineComment [] List.not_mem_nil (by simp) (.nil _)
    | blockComment => exact .openComment [] (by simp)
  | case2 newline pos c cs hblank ih =>
    obtain ⟨text, outside, hreads, hgap, hline⟩ := ih
    refine ⟨c :: text, c :: outside, hreads.cons, .blank (isWhite_of_isBlank hblank) hgap, ?_⟩
    rw [hline, endsLineIn_blank, Bool.or_eq_true, or_assoc]
  | case3 newline pos c hblank hslash ds ih =>
    obtain ⟨text, outside, hreads, hgap, hline⟩ := ih
    obtain rfl : c = '/' := eq_of_beq hslash
    refine ⟨'/' :: '/' :: text, outside, .cons (.cons hreads), hgap, ?_⟩
    rw [hline, endsLineIn_cons, endsLineIn_cons]
    simp
  | case4 newline pos c hblank hslash ds ih =>
    obtain ⟨text, outside, hreads, hgap, hline⟩ := ih
    obtain rfl : c = '/' := eq_of_beq hslash
    refine ⟨'/' :: '*' :: text, outside, .cons (.cons hreads), hgap, ?_⟩
    rw [hline, endsLineIn_cons, endsLineIn_cons]
    simp
  | case5 => exact ⟨[], [], .refl _, .nil _, by simp [endsLineIn_nil]⟩
  | case6 => exact ⟨[], [], .refl _, .nil _, by simp [endsLineIn_nil]⟩
  | case7 newline pos c cs hfeed ih =>
    obtain ⟨text, outside, hreads, hgap, hline⟩ := ih
    obtain rfl : c = '\n' := eq_of_beq hfeed
    have hrest := IsGap.blank (c := '\n') (.inl rfl) hgap
    refine ⟨'\n' :: text, '\n' :: outside, hreads.cons, ?_, ?_⟩
    · exact .lineComment [] List.not_mem_nil (fun c hc => (Option.some.inj hc).symm) hrest
    · rw [hline, endsLineIn_blank]
      simp [endsLine]
  | case8 newline pos c cs hfeed ih =>
    obtain ⟨text, outside, hreads, hgap, hline⟩ := ih
    have hc : c ≠ '\n' := fun hc => hfeed (beq_iff_eq.mpr hc)
    refine ⟨c :: text, outside, hreads.cons, hgap.lineComment_cons hc, ?_⟩
    rw [hline, endsLineIn_cons, or_iff_right hc]
  | case9 newline pos c hstar ds ih =>
    obtain ⟨text, outside, hreads, hgap, hline⟩ := ih
    obtain rfl : c = '*' := eq_of_beq hstar
    refine ⟨'*' :: '/' :: text, outside, .cons (.cons hreads),
      .blockComment [] (by simp) hgap, ?_⟩
    rw [hline, endsLineIn_cons, endsLineIn_cons]
    simp
  | case10 newline pos c hstar cs hopen ih =>
    obtain ⟨text, outside, hreads, hgap, hline⟩ := ih
    obtain rfl : c = '*' := eq_of_beq hstar
    refine ⟨'*' :: text, outside, hreads.cons, hgap.blockComment_cons fun _ hslash => ?_, ?_⟩
    · -- a slash after the star would have closed the comment
      obtain ⟨more, rfl⟩ := List.head?_eq_some_iff.mp hslash
      exact hopen (more ++ (gap .blockComment newline (pos + 1) cs).after.rest) hreads.rest_eq
    · rw [hline, endsLineIn_cons]
      simp
  | case11 newline pos c cs hstar ih =>
    obtain ⟨text, outside, hreads, hgap, hline⟩ := ih
    have hc : c ≠ '*' := fun hc => hstar (beq_iff_eq.mpr hc)
    refine ⟨c :: text, outside, hreads.cons, hgap.blockComment_cons fun h => absurd h hc, ?_⟩
    rw [hline, endsLineIn_cons, Bool.or_eq_true, beq_iff_eq, or_assoc]

/-- Behind an open gap nothing is left, and it is not empty. -/
theorem IsGap.of_isOpen (h : IsGap true text outside follow) : text ≠ [] ∧ follow = [] := by
  refine ⟨?_, ?_⟩
  · cases h <;> exact List.cons_ne_nil _ _
  · generalize hopen : true = isOpen at h
    induction h with
    | nil => cases hopen
    | openComment => rfl
    | blank _ _ ih => exact ih hopen
    | lineComment _ _ _ _ ih => exact ih hopen
    | blockComment _ _ _ ih => exact ih hopen

/-! ### One token -/

/-- Where a character is left and no blank or comment starts, a token that is not empty is read. -/
theorem passes_scanKind {place : Cursor} (h : place.rest ≠ []) :
    place.Passes (scanKind place).2 := by
  obtain ⟨pos, rest⟩ := place
  obtain ⟨d, cs, rfl⟩ := List.exists_cons_of_ne_nil h
  exact (reads_scanKind pos d cs).2

/-- At the end of the source nothing is read. -/
theorem scanKind_of_nil {place : Cursor} (h : place.rest = []) :
    scanKind place = (.eof, place) := by
  unfold scanKind
  rw [h]

/-- The end of the source is told where nothing is left, and nowhere else. -/
theorem scanKind_eq_eof_iff {place : Cursor} : (scanKind place).1 = .eof ↔ place.rest = [] := by
  constructor
  · intro heof
    refine Decidable.byContradiction fun hrest => ?_
    obtain ⟨text, hreads, hspells⟩ := isReadAt_scanKind place
    have hnil : text = [] := by rwa [heof] at hspells
    have hpos := (passes_scanKind hrest).pos_lt
    rw [hreads.pos_eq, hnil] at hpos
    exact Nat.lt_irrefl _ hpos
  · intro hrest
    rw [scanKind_of_nil hrest]

/-- The token that `scan` reads, where every comment is closed. -/
theorem scan_eq_ofKind {place : Cursor}
    (h : (gap .blank false place.pos place.rest).unclosed = false) :
    scan place = .ofKind (gap .blank false place.pos place.rest).newline
      (gap .blank false place.pos place.rest).after
      (scanKind (gap .blank false place.pos place.rest).after) := by
  unfold scan
  dsimp only
  rw [h]
  rfl

/-- The token that `scan` reads, where a comment is open at the end. -/
theorem scan_eq_unclosedComment {place : Cursor}
    (h : (gap .blank false place.pos place.rest).unclosed = true) :
    scan place = .ofKind (gap .blank false place.pos place.rest).newline
      (gap .blank false place.pos place.rest).after
      (.invalid .unclosedComment, (gap .blank false place.pos place.rest).after) := by
  unfold scan
  dsimp only
  rw [h]
  rfl

/-- What lies in front of the next token is a gap, which tells whether a line ended. An open comment
makes a token at the end of the source. -/
theorem isGap_scan (place : Cursor) :
    ∃ isOpen text outside, place.Reads text (scan place).first ∧
      IsGap isOpen text outside (scan place).first.rest ∧
      ((scan place).token.newlineBefore = true ↔ EndsLineIn text outside) ∧
      (isOpen = true → (scan place).token.kind = .invalid .unclosedComment ∧
        (scan place).after = (scan place).first ∧ text ≠ [] ∧ (scan place).first.rest = []) := by
  obtain ⟨text, outside, hreads, hgap, hline⟩ := isGap_gap .blank false place.pos place.rest
  rw [or_iff_right Bool.false_ne_true] at hline
  refine ⟨_, text, outside, hreads, hgap, hline, fun hopen => ?_⟩
  rw [scan_eq_unclosedComment hopen]
  rw [hopen] at hgap
  exact ⟨rfl, rfl, hgap.of_isOpen⟩

/-- Unless the source ends there, the next token ends behind the place from which it is looked
for. -/
theorem passes_scan {place : Cursor} (h : (scan place).token.kind ≠ .eof) :
    place.Passes (scan place).after := by
  obtain ⟨text, outside, hreads, hgap, -⟩ := isGap_gap .blank false place.pos place.rest
  cases hopen : (gap .blank false place.pos place.rest).unclosed with
  | true =>
    rw [hopen] at hgap
    rw [scan_eq_unclosedComment hopen]
    exact ⟨text, hgap.of_isOpen.1, hreads⟩
  | false =>
    rw [scan_eq_ofKind hopen] at h ⊢
    exact .of_reaches hreads.reaches (passes_scanKind (mt scanKind_eq_eof_iff.mpr h))

/-- The token at the end of the source is empty and has nothing behind it. -/
theorem scan_of_eof {place : Cursor} (h : (scan place).token.kind = .eof) :
    (scan place).after = (scan place).first ∧ (scan place).first.rest = [] := by
  cases hopen : (gap .blank false place.pos place.rest).unclosed with
  | true =>
    rw [scan_eq_unclosedComment hopen] at h
    cases h
  | false =>
    rw [scan_eq_ofKind hopen] at h ⊢
    have hrest := scanKind_eq_eof_iff.mp h
    rw [scanKind_of_nil hrest]
    exact ⟨rfl, hrest⟩

/-! ### All tokens -/

/-- The place where the first `k` tokens of a source have been read. -/
def placeAfter (source : String) : Nat → Cursor
  | 0 => .ofSource source
  | k + 1 => (scan (placeAfter source k)).after

/-- The token of a source that `k` tokens precede. -/
def tokenAt (source : String) (k : Nat) : Token := (scan (placeAfter source k)).token

variable (source : String)

/-- A token ends behind its first character. -/
theorem reaches_scan_after (place : Cursor) : (scan place).first.Reaches (scan place).after := by
  obtain ⟨-, text, hreads, -⟩ := isRead_scan place
  exact hreads.reaches

/-- Every place between tokens is reached from the start of the source. -/
theorem reaches_placeAfter (k : Nat) : (Cursor.ofSource source).Reaches (placeAfter source k) := by
  induction k with
  | zero => exact .refl _
  | succ k ih => exact ih.trans ((reaches_scan _).trans (reaches_scan_after _))

/-- A token that is not the end of the source leaves less behind it. -/
theorem length_rest_placeAfter_lt {k : Nat} (h : (tokenAt source k).kind ≠ .eof) :
    (placeAfter source (k + 1)).rest.length < (placeAfter source k).rest.length := by
  obtain ⟨text, hne, hreads⟩ := passes_scan h
  have hlength := congrArg List.length hreads.rest_eq
  have htext := List.length_pos_iff.mpr hne
  rw [List.length_append] at hlength
  show (scan (placeAfter source k)).after.rest.length < _
  omega

/-- From every place on there are only finitely many tokens up to the end of the source. -/
theorem exists_eof_from (k : Nat) :
    ∃ n, k ≤ n ∧ (tokenAt source n).kind = .eof ∧
      ∀ j, k ≤ j → j < n → (tokenAt source j).kind ≠ .eof := by
  -- by induction on the number of characters that are left
  generalize hleft : (placeAfter source k).rest.length = left
  induction left using Nat.strongRecOn generalizing k with
  | ind left ih =>
    subst hleft
    by_cases heof : (tokenAt source k).kind = .eof
    · exact ⟨k, Nat.le_refl k, heof, fun j hkj hjk => absurd hjk (Nat.not_lt_of_le hkj)⟩
    · obtain ⟨n, hkn, hn, hbefore⟩ := ih _ (length_rest_placeAfter_lt source heof) (k + 1) rfl
      refine ⟨n, Nat.le_of_succ_le hkn, hn, fun j hkj hjn => ?_⟩
      rcases Nat.eq_or_lt_of_le hkj with rfl | hkj
      · exact heof
      · exact hbefore j hkj hjn

/-- A place with nothing behind it is the end of the source. -/
theorem pos_of_rest_nil {place : Cursor} (h : (Cursor.ofSource source).Reaches place)
    (hrest : place.rest = []) : place.pos = source.utf8ByteSize := by
  obtain ⟨text, hreads⟩ := h
  have hall : source.toList = text := by
    rw [← List.append_nil text, ← hrest]
    exact hreads.rest_eq
  rw [hreads.pos_eq, ← hall, bytes_toList]
  exact Nat.zero_add _

/-- A place that is reached from the start of a source lies in it, at the border of a character. -/
theorem isValid_of_reaches {place : Cursor} (h : (Cursor.ofSource source).Reaches place) :
    String.Pos.Raw.IsValid source ⟨place.pos⟩ ∧ place.pos ≤ source.utf8ByteSize := by
  have hborder : IsBorder source.toList place.pos := h.isBorder
  exact ⟨isBorder_toList_iff.mp hborder, bytes_toList source ▸ hborder.le⟩

/-- A token that is looked for from a place of a source on: it lies in the source between borders of
characters, and between the place and the token there are only blanks and comments, in which a line
ended if the token says so. A gap that a comment leaves open is followed by an empty token. -/
structure Follows (place : Nat) (t : Token) (isOpen : Bool) : Prop where
  gap : ∃ before text outside after, source.toList = before ++ (text ++ after) ∧
    bytes before = place ∧ bytes before + bytes text = t.span.start ∧
    IsGap isOpen text outside after ∧ (t.newlineBefore = true ↔ EndsLineIn text outside)
  start_le_stop : t.span.start ≤ t.span.stop
  stop_le : t.span.stop ≤ source.utf8ByteSize
  isValid_start : String.Pos.Raw.IsValid source ⟨t.span.start⟩
  isValid_stop : String.Pos.Raw.IsValid source ⟨t.span.stop⟩
  unclosed : isOpen = true →
    t.kind = .invalid .unclosedComment ∧ t.span = .empty source.utf8ByteSize

/-- The next token after a place of the source. -/
theorem follows_scan {place : Cursor} (h : (Cursor.ofSource source).Reaches place) :
    ∃ isOpen, Follows source place.pos (scan place).token isOpen ∧
      (isOpen = true → (scan place).after.rest = []) := by
  obtain ⟨isOpen, text, outside, hreads, hgap, hline, hopen⟩ := isGap_scan place
  obtain ⟨before, hbefore⟩ := id h
  have hfirst := h.trans hreads.reaches
  have hafter := hfirst.trans (reaches_scan_after place)
  have hspan := (isRead_scan place).span_eq
  have hplace : place.pos = bytes before := hbefore.pos_eq.trans (Nat.zero_add _)
  -- an open comment is one invalid token, empty at the end of the source
  have hclose (h : isOpen = true) :
      (scan place).token.kind = .invalid .unclosedComment ∧
        (scan place).token.span = .empty source.utf8ByteSize := by
    obtain ⟨hkind, hsame, -, hnil⟩ := hopen h
    have hend := pos_of_rest_nil source hfirst hnil
    rw [hspan, hsame, hend]
    exact ⟨hkind, rfl⟩
  refine ⟨isOpen, ⟨?_, ?_, ?_, ?_, ?_, hclose⟩, fun h => ?_⟩
  · refine ⟨before, text, outside, (scan place).first.rest, ?_, hplace.symm, ?_, hgap, hline⟩
    · rw [← hreads.rest_eq]
      exact hbefore.rest_eq
    · rw [hspan, ← hplace]
      exact hreads.pos_eq.symm
  · rw [hspan]
    exact (reaches_scan_after place).pos_le
  · rw [hspan]
    exact (isValid_of_reaches source hafter).2
  · rw [hspan]
    exact (isValid_of_reaches source hfirst).1
  · rw [hspan]
    exact (isValid_of_reaches source hafter).1
  · obtain ⟨-, hsame, -, hnil⟩ := hopen h
    rw [hsame, hnil]

/-- Reading one token after the other comes to the end of the source. Until then every token takes
the scanner further, and each token follows the one before it. A comment that is left open makes the
last token before the end. -/
theorem tokens_cover_source :
    ∃ n, (tokenAt source n).kind = .eof ∧ (tokenAt source n).span = .empty source.utf8ByteSize ∧
      (∀ k < n, (tokenAt source k).kind ≠ .eof ∧
        (placeAfter source k).pos < (placeAfter source (k + 1)).pos) ∧
      ∀ k ≤ n, (tokenAt source k).span.stop = (placeAfter source (k + 1)).pos ∧
        ∃ isOpen, Follows source (placeAfter source k).pos (tokenAt source k) isOpen ∧
          (isOpen = true → k + 1 = n) := by
  obtain ⟨n, -, hn, hbefore⟩ := exists_eof_from source 0
  have hreaches := reaches_placeAfter source
  have hspan (k : Nat) := (isRead_scan (placeAfter source k)).span_eq
  obtain ⟨hsame, hnil⟩ := scan_of_eof hn
  refine ⟨n, hn, ?_, fun k hk => ?_, fun k hk => ⟨?_, ?_⟩⟩
  · have hend := pos_of_rest_nil source ((hreaches n).trans (reaches_scan _)) hnil
    show (scan _).token.span = _
    rw [hspan, hsame, hend]
    rfl
  · have hkind := hbefore k (Nat.zero_le k) hk
    exact ⟨hkind, (passes_scan hkind).pos_lt⟩
  · show (scan _).token.span.stop = _
    rw [hspan]
    rfl
  · obtain ⟨isOpen, hfollows, hrest⟩ := follows_scan source (hreaches k)
    refine ⟨isOpen, hfollows, fun hopen => ?_⟩
    -- the open comment is no end of the source, and nothing is left behind it for another token
    have hk : k < n := by
      refine Nat.lt_of_le_of_ne hk fun hkn => ?_
      subst hkn
      rw [show (tokenAt source k).kind = _ from (hfollows.unclosed hopen).1] at hn
      cases hn
    refine Nat.le_antisymm hk (Nat.le_of_not_lt fun hlt => ?_)
    have hless := length_rest_placeAfter_lt source (hbefore (k + 1) (Nat.zero_le _) hlt)
    rw [show (placeAfter source (k + 1)).rest = [] from hrest hopen] at hless
    exact Nat.not_lt_zero _ hless

end Espalier.Token
