import Espalier.Token.Scan
import Espalier.Proofs.Source.Cursor

/-!
# Tokens lie in the source

Every scanner ends at a place that is reached by reading from the place where it starts, and the
token that it gives spells what was read: a name or sign its own text, a piece of a template its
quotes and braces. So the tokens of a source follow each other, none of them overlaps the next, and
their ends are borders of characters.
-/

namespace Espalier

open Text Cursor

/-! ### Signs -/

namespace Punct

/-- A sign is written in characters of one byte. -/
theorem bytes_text (p : Punct) : bytes p.text.toList = p.text.length := by cases p <;> decide

theorem text_ne_nil (p : Punct) : p.text.toList ≠ [] := by cases p <;> decide

/-- A text starts with the sign that is read there. -/
theorem eq_append_of_read? {cs : List Char} {p : Punct} (h : read? cs = some p) :
    ∃ rest, cs = p.text.toList ++ rest := by
  have hstarts : p.startsAt cs = true := by
    unfold read? at h
    simpa using List.find?_some h
  unfold startsAt at hstarts
  split at hstarts
  · next c rest => exact ⟨c :: rest, rfl⟩
  · obtain ⟨rest, hrest⟩ := List.isPrefixOf_iff_prefix.mp hstarts
    exact ⟨rest, hrest.symm⟩

end Punct

namespace Token

/-! ### Runs of characters -/

/-- A run reads on. -/
theorem reaches_run (p : Char → Bool) (acc : List Char) (pos : Nat) (cs : List Char) :
    Reaches ⟨pos, cs⟩ (run p acc pos cs).2 := by
  induction cs generalizing acc pos with
  | nil => exact .refl _
  | cons c cs ih =>
    unfold run
    split
    · exact (ih _ _).cons
    · exact .refl _

/-- A run gives the characters that it reads. -/
theorem reads_run (p : Char → Bool) (acc : List Char) (pos : Nat) (cs : List Char) :
    ∃ text, (run p acc pos cs).1 = acc.reverse ++ text ∧
      Reads ⟨pos, cs⟩ text (run p acc pos cs).2 := by
  induction cs generalizing acc pos with
  | nil => exact ⟨[], (List.append_nil _).symm, .refl _⟩
  | cons c cs ih =>
    unfold run
    split
    · obtain ⟨text, htext, hreads⟩ := ih (c :: acc) (pos + c.utf8Size)
      refine ⟨c :: text, ?_, hreads.cons⟩
      rw [htext, List.reverse_cons, List.append_assoc]
      rfl
    · exact ⟨[], (List.append_nil _).symm, .refl _⟩

theorem reaches_digitRun (p : Char → Bool) (acc : List Char) (pos : Nat) (cs : List Char) :
    Reaches ⟨pos, cs⟩ (digitRun p acc pos cs).2 := by
  induction cs generalizing acc pos with
  | nil => exact .refl _
  | cons c cs ih =>
    unfold digitRun
    split
    · exact (ih _ _).cons
    · split
      · next h =>
        have hc : c = '_' := eq_of_beq ((Bool.and_eq_true _ _).mp h).1
        subst hc
        exact (ih acc (pos + 1)).cons
      · exact .refl _

/-- A run of digits that starts with a digit is not empty. -/
theorem passes_digitRun {p : Char → Bool} {c : Char} (h : p c = true) (acc : List Char) (pos : Nat)
    (cs : List Char) : Passes ⟨pos, c :: cs⟩ (digitRun p acc pos (c :: cs)).2 := by
  unfold digitRun
  rw [if_pos h]
  exact .of_cons (reaches_digitRun _ _ _ _)

/-- A digit is one byte long, in every base. -/
theorem utf8Size_of_digitValue? {base : Nat} {c : Char} {d : Nat}
    (h : digitValue? base c = some d) : c.utf8Size = 1 := by
  unfold digitValue? at h
  by_cases hdigit : c.isDigit = true
  · exact utf8Size_of_isDigit hdigit
  by_cases hlower : 'a' ≤ c ∧ c ≤ 'z'
  · exact utf8Size_of_le hlower.2 (by decide)
  by_cases hupper : 'A' ≤ c ∧ c ≤ 'Z'
  · exact utf8Size_of_le hupper.2 (by decide)
  rw [if_neg hdigit, if_neg hlower, if_neg hupper] at h
  cases h

theorem reaches_hexRun (value pos limit : Nat) (cs : List Char) :
    Reaches ⟨pos, cs⟩ (hexRun value pos limit cs).2 := by
  induction limit generalizing value pos cs with
  | zero => exact .refl _
  | succ n ih =>
    cases cs with
    | nil => exact .refl _
    | cons c cs =>
      unfold hexRun
      split
      · next h =>
        have hsize := utf8Size_of_digitValue? h
        exact .cons (hsize ▸ ih _ _ _)
      · exact .refl _

/-! ### Numbers -/

/-- An exponent is read as a whole or not at all. -/
theorem reaches_scanExponent (c : Cursor) : c.Reaches (scanExponent c).2 := by
  obtain ⟨pos, rest⟩ := c
  unfold scanExponent
  dsimp only
  split
  · exact .refl _
  · next d cs =>
    split
    · exact .refl _
    · next hd =>
      have hcases : d = 'e' ∨ d = 'E' := by simpa [Decidable.or_iff_not_imp_left] using hd
      have hsize : d.utf8Size = 1 := by rcases hcases with rfl | rfl <;> rfl
      -- behind the letter come a sign or digits, or it does not belong to the number
      have hone : Reaches ⟨pos, d :: cs⟩ ⟨pos + 1, cs⟩ := .cons (hsize ▸ .refl _)
      split
      · split
        · exact .refl _
        · exact hone.trans (.cons (reaches_digitRun _ _ _ _))
      · split
        · exact .refl _
        · exact hone.trans (.cons (reaches_digitRun _ _ _ _))
      · split
        · exact .refl _
        · exact hone.trans (reaches_digitRun _ _ _ _)

/-- A number takes at least its first digit. -/
theorem passes_scanNumber {d : Char} (h : d.isDigit = true) (pos : Nat) (cs : List Char) :
    Passes ⟨pos, d :: cs⟩ (scanNumber ⟨pos, d :: cs⟩).2 := by
  have hwhole := passes_digitRun h [] pos cs
  unfold scanNumber
  dsimp only
  generalize digitRun Char.isDigit [] pos (d :: cs) = whole at hwhole
  obtain ⟨ds, k⟩ := whole
  dsimp only
  split
  · next hn => exact .trans_reaches hwhole (reads_step_of_head? (eq_of_beq hn)).reaches
  · generalize hexponent : scanExponent _ = exponent
    -- fraction and exponent may be missing
    have hpoint : k.Reaches exponent.2 := by
      rw [← hexponent]
      refine .trans ?_ (reaches_scanExponent _)
      obtain ⟨pos, rest⟩ := k
      dsimp only
      split
      · exact .cons (reaches_digitRun _ _ _ _)
      · exact .refl _
    have hend := hwhole.trans_reaches hpoint
    split
    · next d ds hrest =>
      split
      · exact hend.trans_reaches (reads_step hrest).reaches
      · exact hend
    · exact hend

/-- A number with a radix mark is read forward. -/
theorem reaches_scanRadix (radix : Nat) (mark : List Char) (c : Cursor) :
    c.Reaches (scanRadix radix mark c).2 := by
  have hdigits := reaches_digitRun (fun c => (digitValue? radix c).isSome) [] c.pos c.rest
  unfold scanRadix
  dsimp only
  split
  · exact hdigits
  · split
    · next hn => exact .trans hdigits (reads_step_of_head? (eq_of_beq hn)).reaches
    · exact hdigits

/-- So is the letter of a radix. -/
theorem utf8Size_of_radixOf? {c : Char} {radix : Nat} (h : radixOf? c = some radix) :
    c.utf8Size = 1 := by
  have hletter {d e : Char} (h : (c == d || c == e) = true) : c = d ∨ c = e := by
    simpa only [Bool.or_eq_true, beq_iff_eq] using h
  unfold radixOf? at h
  split at h
  · next hc => rcases hletter hc with rfl | rfl <;> rfl
  · split at h
    · next hc => rcases hletter hc with rfl | rfl <;> rfl
    · split at h
      · next hc => rcases hletter hc with rfl | rfl <;> rfl
      · cases h

/-- Any numeral takes at least its first digit. -/
theorem passes_scanNumeral {d : Char} (h : d.isDigit = true) (pos : Nat) (cs : List Char) :
    Passes ⟨pos, d :: cs⟩ (scanNumeral ⟨pos, d :: cs⟩).2 := by
  unfold scanNumeral
  dsimp only
  split
  · next e es heq =>
    cases heq
    split
    · next hradix =>
      have hsize := utf8Size_of_radixOf? hradix
      have htwo : Passes ⟨pos, '0' :: e :: es⟩ ⟨pos + 2, es⟩ :=
        .of_cons (.cons (hsize ▸ .refl _))
      exact htwo.trans_reaches (reaches_scanRadix _ _ _)
    · exact passes_scanNumber h _ _
  · exact passes_scanNumber h _ _

theorem passes_scanFraction (pos : Nat) (cs : List Char) :
    Passes ⟨pos, '.' :: cs⟩ (scanFraction ⟨pos, '.' :: cs⟩).2 :=
  .of_cons (reaches_digitRun _ _ _ _)

/-- The kinds of tokens of which it only matters that they have a text. -/
def Kind.IsPlain : Kind → Prop
  | number _ | bigint _ | string _ | regex _ _ | invalid _ => True
  | _ => False

theorem isPlain_scanRadix (radix : Nat) (mark : List Char) (c : Cursor) :
    (scanRadix radix mark c).1.IsPlain := by
  unfold scanRadix
  dsimp only
  split
  · trivial
  · split <;> trivial

/-- A number is scanned into a number or an error. -/
theorem isPlain_scanNumber (c : Cursor) : (scanNumber c).1.IsPlain := by
  unfold scanNumber
  dsimp only
  split
  · trivial
  · split
    · split <;> trivial
    · trivial

theorem isPlain_scanNumeral (c : Cursor) : (scanNumeral c).1.IsPlain := by
  unfold scanNumeral
  split
  · split
    · exact isPlain_scanRadix _ _ _
    · exact isPlain_scanNumber c
  · exact isPlain_scanNumber c

/-! ### Strings, templates and regular expressions -/

/-- An escape reads on, whatever stands behind the backslash. -/
theorem reaches_scanEscape (pos : Nat) (cs : List Char) :
    Reaches ⟨pos, cs⟩ (scanEscape pos cs).2 := by
  unfold scanEscape
  split
  · exact .refl _
  · exact .cons (.refl _)
  · exact .cons (.refl _)
  · exact .cons (.refl _)
  · exact .cons (.refl _)
  · exact .cons (.refl _)
  · exact .cons (.refl _)
  · exact .cons (.refl _)
  · exact .cons (reaches_hexRun _ _ _ _)
  · next cs =>
    have hdigits := reaches_hexRun 0 (pos + 2) cs.length cs
    have hstart : Reaches ⟨pos, 'u' :: '\x7b' :: cs⟩ ⟨pos + 2, cs⟩ := .cons (.cons (.refl _))
    dsimp only
    split
    · next hclose =>
      exact hstart.trans (hdigits.trans (reads_step_of_head? (eq_of_beq hclose)).reaches)
    · exact hstart.trans hdigits
  · exact .cons (reaches_hexRun _ _ _ _)
  · exact .cons (.cons (.refl _))
  · exact .cons (.refl _)
  · exact .cons (.refl _)
  · exact .cons (.refl _)

/-- A string reads on, up to its quote or to where it breaks off. -/
theorem reaches_scanString (quote : Char) (hquote : quote.utf8Size = 1) (acc : List Char)
    (pos : Nat) (cs : List Char) : Reaches ⟨pos, cs⟩ (scanString quote acc pos cs).2 := by
  fun_induction scanString quote acc pos cs with
  | case1 acc pos => exact .refl _
  | case2 acc pos c cs hc =>
    have hc : c = quote := eq_of_beq hc
    subst hc
    exact .cons (hquote ▸ .refl _)
  | case3 acc pos c cs hc hline => exact .refl _
  | case4 acc pos c cs hc hline hslash _ escape ih =>
    have hslash : c = '\\' := eq_of_beq hslash
    subst hslash
    exact .cons ((reaches_scanEscape _ _).trans ih)
  | case5 acc pos c cs hc hline hslash ih => exact .cons ih

theorem isPlain_scanString (quote : Char) (acc : List Char) (pos : Nat) (cs : List Char) :
    (scanString quote acc pos cs).1.IsPlain := by
  fun_induction scanString quote acc pos cs with
  | case1 => trivial
  | case2 => trivial
  | case3 => trivial
  | case4 _ _ _ _ _ _ _ _ _ ih => exact ih
  | case5 _ _ _ _ _ _ _ ih => exact ih

/-- What ends the first piece of a template or a later one: the quote that closes the template, or
the start of a substitution. -/
def IsTemplateEnd : (first : Bool) → Kind → List Char → Prop
  | true, .templateWhole _, text | false, .templateTail _, text => text = ['\x60']
  | true, .templateHead _, text | false, .templateMiddle _, text => text = ['$', '\x7b']
  | _, .invalid _, _ => True
  | _, _, _ => False

/-- A piece of a template ends with what ends it. -/
theorem reads_scanTemplatePart (first : Bool) (acc : List Char) (pos : Nat) (cs : List Char) :
    ∃ text close, Reads ⟨pos, cs⟩ (text ++ close) (scanTemplatePart first acc pos cs).2 ∧
      IsTemplateEnd first (scanTemplatePart first acc pos cs).1 close := by
  -- the end, the two delimiters, then escape, line characters and any other character
  fun_induction scanTemplatePart first acc pos cs with
  | case1 acc pos => exact ⟨[], [], .refl _, by cases first <;> trivial⟩
  | case2 acc pos cs =>
    refine ⟨[], ['\x60'], .single pos '\x60' cs, ?_⟩
    cases first <;> rfl
  | case3 acc pos cs =>
    refine ⟨[], ['$', '\x7b'], .append pos ['$', '\x7b'] cs, ?_⟩
    cases first <;> rfl
  | case4 acc pos cs _ escape ih =>
    obtain ⟨text, close, hreads, hend⟩ := ih
    obtain ⟨skipped, hskipped⟩ := reaches_scanEscape (pos + 1) cs
    refine ⟨'\\' :: (skipped ++ text), close, ?_, hend⟩
    rw [List.cons_append, List.append_assoc]
    exact .cons (hskipped.trans hreads)
  | case5 acc pos cs ih =>
    obtain ⟨text, close, hreads, hend⟩ := ih
    exact ⟨'\r' :: '\n' :: text, close, .cons (.cons hreads), hend⟩
  | case6 acc pos cs _ ih =>
    obtain ⟨text, close, hreads, hend⟩ := ih
    exact ⟨'\r' :: text, close, .cons hreads, hend⟩
  | case7 acc pos c cs _ _ _ _ _ ih =>
    obtain ⟨text, close, hreads, hend⟩ := ih
    exact ⟨c :: text, close, .cons hreads, hend⟩

/-- The pattern of a regular expression ends in front of a slash, if it ends. -/
theorem reaches_regexBody (bracket : Bool) (acc : List Char) (pos : Nat) (cs : List Char) :
    Reaches ⟨pos, cs⟩ (regexBody bracket acc pos cs).2 ∧
      ((regexBody bracket acc pos cs).1.isSome →
        (regexBody bracket acc pos cs).2.rest.head? = some '/') := by
  fun_induction regexBody bracket acc pos cs with
  | case1 bracket acc pos => exact ⟨.refl _, nofun⟩
  | case2 bracket acc pos c cs hslash =>
    have hc : c = '/' := eq_of_beq ((Bool.and_eq_true _ _).mp hslash).1
    exact ⟨.refl _, fun _ => congrArg some hc⟩
  | case3 bracket acc pos c cs hslash hline => exact ⟨.refl _, nofun⟩
  | case4 bracket acc pos c hslash hline hescape =>
    have hc : c = '\\' := eq_of_beq hescape
    subst hc
    exact ⟨.cons (.refl _), nofun⟩
  | case5 bracket acc pos c hslash hline hescape d ds ih =>
    have hc : c = '\\' := eq_of_beq hescape
    subst hc
    exact ⟨.cons (.cons ih.1), ih.2⟩
  | case6 bracket acc pos c cs hslash hline hescape ih => exact ⟨.cons ih.1, ih.2⟩

/-- A literal takes at least its slash. -/
theorem passes_scanRegexBody {c : Cursor} (h : c.rest ≠ []) : c.Passes (scanRegexBody c).2 := by
  obtain ⟨pos, rest⟩ := c
  cases rest with
  | nil => exact absurd rfl h
  | cons d ds =>
    have hbody := reaches_regexBody false [] (pos + d.utf8Size) ds
    unfold scanRegexBody
    rw [step_cons]
    dsimp only
    generalize regexBody false [] (pos + d.utf8Size) ds = body at hbody
    obtain ⟨pattern?, slash⟩ := body
    cases pattern? with
    | none => exact .of_cons hbody.1
    | some pattern =>
      have hflags := reaches_run Char.isAlpha [] slash.step.pos slash.step.rest
      have hslash := (reads_step_of_head? (hbody.2 rfl)).reaches
      have hend := hbody.1.trans (hslash.trans hflags)
      dsimp only
      split <;> exact .of_cons hend

theorem isPlain_scanRegexBody (c : Cursor) : (scanRegexBody c).1.IsPlain := by
  unfold scanRegexBody
  dsimp only
  split
  · trivial
  · split <;> trivial

/-! ### Blanks and comments -/

/-- A gap reads on, through blanks and comments. -/
theorem reaches_gap (part : GapPart) (newline : Bool) (pos : Nat) (cs : List Char) :
    Reaches ⟨pos, cs⟩ (gap part newline pos cs).after := by
  fun_induction gap part newline pos cs with
  | case1 => exact .refl _
  | case2 newline pos c cs hblank ih => exact .cons ih
  | case3 newline pos c hblank hslash ds ih =>
    have hc : c = '/' := eq_of_beq hslash
    subst hc
    exact .cons (.cons ih)
  | case4 newline pos c hblank hslash ds ih =>
    have hc : c = '/' := eq_of_beq hslash
    subst hc
    exact .cons (.cons ih)
  | case5 => exact .refl _
  | case6 => exact .refl _
  | case7 newline pos c cs hline ih =>
    have hc : c = '\n' := eq_of_beq hline
    subst hc
    exact .cons ih
  | case8 newline pos c cs hline ih => exact .cons ih
  | case9 newline pos c hstar ds ih =>
    have hc : c = '*' := eq_of_beq hstar
    subst hc
    exact .cons (.cons ih)
  | case10 newline pos c hstar cs _ ih =>
    have hc : c = '*' := eq_of_beq hstar
    subst hc
    exact .cons ih
  | case11 newline pos c cs hstar ih => exact .cons ih

/-! ### Names -/

/-- A character that starts a name may also go on with one. -/
theorem continuesName_of_startsName {c : Char} (h : startsName c = true) :
    continuesName c = true := by
  have hletter (hl : isLetter c = true) : isLetterOrNumeral c = true := by
    unfold isLetter at hl
    unfold isLetterOrNumeral
    split at hl
    · next hlt => rw [if_pos hlt, Char.isAlphanum, hl, Bool.true_or]
    · next hlt => rw [if_neg hlt, hl, Bool.true_or]
  unfold startsName at h
  unfold continuesName
  rw [Bool.or_eq_true] at h ⊢
  rcases h with h | h
  · exact .inl h
  · exact .inr (hletter h)

/-! ### Tokens -/

/-- What a token of a kind is written as. -/
def Kind.Spells : Kind → List Char → Prop
  | eof, text => text = []
  | invalid _, _ => True
  | name word, text => text = word.toList ∧ text ≠ []
  | keyword k, text => text = k.text.toList
  | punct p, text => text = p.text.toList
  | templateWhole _, text => ∃ body, text = '\x60' :: (body ++ ['\x60'])
  | templateHead _, text => ∃ body, text = '\x60' :: (body ++ ['$', '\x7b'])
  | templateMiddle _, text => ∃ body, text = '\x7d' :: (body ++ ['$', '\x7b'])
  | templateTail _, text => ∃ body, text = '\x7d' :: (body ++ ['\x60'])
  | number _, text | bigint _, text | string _, text | regex _ _, text => text ≠ []

/-- A scanner that starts at a place has read a text that its token spells. -/
def IsReadAt (c : Cursor) (read : Kind × Cursor) : Prop :=
  ∃ text, c.Reads text read.2 ∧ read.1.Spells text

/-- A plain token spells whatever it passes. -/
theorem IsReadAt.of_isPlain {c : Cursor} {read : Kind × Cursor} (hkind : read.1.IsPlain)
    (h : c.Passes read.2) : IsReadAt c read := by
  obtain ⟨k, after⟩ := read
  obtain ⟨text, hne, hreads⟩ := h
  refine ⟨text, hreads, ?_⟩
  cases k with
  | number _ | bigint _ | string _ | regex _ _ => exact hne
  | invalid _ => trivial
  | _ => exact hkind.elim

theorem reads_of_isPlain {c : Cursor} {read : Kind × Cursor} (hkind : read.1.IsPlain)
    (h : c.Passes read.2) : IsReadAt c read ∧ c.Passes read.2 :=
  ⟨.of_isPlain hkind h, h⟩

/-- A name is read whole, and a keyword is the name that spells it. -/
theorem isReadAt_scanName {d : Char} (h : startsName d = true) (pos : Nat) (cs : List Char) :
    IsReadAt ⟨pos, d :: cs⟩ (scanName ⟨pos, d :: cs⟩) := by
  obtain ⟨text, htext, hreads⟩ := reads_run continuesName [] pos (d :: cs)
  -- the letter the name starts with goes on a name, so the run is not empty
  have hne : text ≠ [] := by
    rintro rfl
    unfold run at htext
    rw [if_pos (continuesName_of_startsName h)] at htext
    obtain ⟨more, hmore, -⟩ := reads_run continuesName [d] (pos + d.utf8Size) cs
    rw [hmore] at htext
    cases htext
  refine ⟨text, hreads, ?_⟩
  unfold scanName
  dsimp only
  rw [htext, List.reverse_nil, List.nil_append]
  cases hword : Keyword.ofText? (String.ofList text) with
  | none => exact ⟨String.toList_ofList.symm, hne⟩
  | some k =>
    show text = k.text.toList
    rw [Keyword.text_of_ofText? hword]
    exact String.toList_ofList.symm

/-- A part of a template spells its token from the mark that opens it. -/
theorem isReadAt_scanTemplatePart {open_ : Char} {first : Bool}
    (h : open_ = if first then '\x60' else '\x7d') (pos : Nat) (cs : List Char) :
    IsReadAt ⟨pos, open_ :: cs⟩ (scanTemplatePart first [] (pos + 1) cs) := by
  obtain ⟨body, close, hreads, hend⟩ := reads_scanTemplatePart first [] (pos + 1) cs
  generalize scanTemplatePart first [] (pos + 1) cs = read at hreads hend
  obtain ⟨k, after⟩ := read
  have hsize : open_.utf8Size = 1 := by cases first <;> rw [h] <;> rfl
  refine ⟨open_ :: (body ++ close), .cons (hsize ▸ hreads), ?_⟩
  subst h
  cases first <;> cases k <;> first | trivial | exact hend.elim | exact ⟨body, by rw [hend]; rfl⟩

/-- Where a character is left and no blank or comment starts, a token is read, and it is not empty:
not even one that is refused, which may spell anything. -/
theorem reads_scanKind (pos : Nat) (d : Char) (cs : List Char) :
    IsReadAt ⟨pos, d :: cs⟩ (scanKind ⟨pos, d :: cs⟩) ∧
      Passes ⟨pos, d :: cs⟩ (scanKind ⟨pos, d :: cs⟩).2 := by
  unfold scanKind
  dsimp only
  -- one case for each start of a token, in the order the scanner asks for them
  split
  · next h =>
    refine ⟨isReadAt_scanName h pos cs, ?_⟩
    unfold scanName run
    rw [if_pos (continuesName_of_startsName h)]
    exact .of_cons (reaches_run _ _ _ _)
  split
  · next h => exact reads_of_isPlain (isPlain_scanNumeral _) (passes_scanNumeral h pos cs)
  split
  · next h =>
    have hcases : d = '"' ∨ d = '\'' := by simpa only [Bool.or_eq_true, beq_iff_eq] using h
    have hsize : d.utf8Size = 1 := by rcases hcases with rfl | rfl <;> rfl
    have hclose := reaches_scanString d hsize [] (pos + 1) cs
    exact reads_of_isPlain (isPlain_scanString _ _ _ _) (.of_cons (hsize ▸ hclose))
  split
  · next h =>
    obtain rfl : d = '\x60' := eq_of_beq h
    obtain ⟨text, close, hreads, -⟩ := reads_scanTemplatePart true [] (pos + 1) cs
    exact ⟨@isReadAt_scanTemplatePart _ true rfl pos cs, .of_cons hreads.reaches⟩
  split
  · exact reads_of_isPlain trivial (.of_cons (.refl _))
  split
  · next h =>
    obtain rfl : d = '.' := eq_of_beq ((Bool.and_eq_true _ _).mp h).1
    exact reads_of_isPlain trivial (passes_scanFraction pos cs)
  split
  · next p h =>
    obtain ⟨more, hmore⟩ := Punct.eq_append_of_read? h
    have hreads : Reads ⟨pos, d :: cs⟩ p.text.toList
        ⟨pos + p.text.length, (d :: cs).drop p.text.length⟩ := by
      refine ⟨?_, ?_⟩
      · rw [hmore, String.length_toList.symm, List.drop_left]
      · rw [Punct.bytes_text]
    exact ⟨⟨_, hreads, rfl⟩, _, p.text_ne_nil, hreads⟩
  · exact reads_of_isPlain trivial (.of_cons (.refl _))

/-- Where no blank or comment starts, a token is read. -/
theorem isReadAt_scanKind (c : Cursor) : IsReadAt c (scanKind c) := by
  obtain ⟨pos, rest⟩ := c
  cases rest with
  | nil => exact ⟨[], .refl _, rfl⟩
  | cons d cs => exact (reads_scanKind pos d cs).1

/-- A token with the place where it starts and the place where it ends. -/
structure Scanned.IsRead (s : Scanned) : Prop where
  span_eq : s.token.span = ⟨s.first.pos, s.after.pos⟩
  reads : IsReadAt s.first (s.token.kind, s.after)

theorem isRead_ofKind (newline : Bool) {c : Cursor} {read : Kind × Cursor} (h : IsReadAt c read) :
    (Scanned.ofKind newline c read).IsRead :=
  ⟨rfl, h⟩

/-- The next token after a place starts where the gap there ends. -/
theorem reaches_scan (place : Cursor) : place.Reaches (scan place).first :=
  reaches_gap .blank false place.pos place.rest

/-- Every scanned token spells what was read of it. -/
theorem isRead_scan (place : Cursor) : (scan place).IsRead := by
  unfold scan
  dsimp only
  split
  · exact isRead_ofKind _ ⟨[], .refl _, trivial⟩
  · exact isRead_ofKind _ (isReadAt_scanKind _)

/-- So does a regular expression read again from its slash. -/
theorem isRead_scanRegex (newline : Bool) {place : Cursor} (h : place.rest ≠ []) :
    (scanRegex newline place).IsRead :=
  isRead_ofKind newline (.of_isPlain (isPlain_scanRegexBody place) (passes_scanRegexBody h))

/-- So does a template part read again from its brace. -/
theorem isRead_scanTemplate (newline : Bool) {place : Cursor}
    (h : place.rest.head? = some '\x7d') : (scanTemplate newline place).IsRead := by
  obtain ⟨pos, rest⟩ := place
  obtain ⟨cs, hcs⟩ := List.head?_eq_some_iff.mp h
  cases hcs
  have hsize : '\x7d'.utf8Size = 1 := rfl
  unfold scanTemplate
  rw [step_cons, hsize]
  exact isRead_ofKind newline (@isReadAt_scanTemplatePart _ false rfl pos cs)

/-! ### Tokens that have a text -/

/-- The kinds of tokens that stand for a stretch of the source. -/
def Kind.IsSolid : Kind → Prop
  | eof | invalid _ => False
  | _ => True

/-- A solid token has text. -/
theorem Kind.Spells.ne_nil {k : Kind} {text : List Char} (h : k.Spells text) (hk : k.IsSolid) :
    text ≠ [] := by
  cases k with
  | eof | invalid => exact hk.elim
  | name => exact h.2
  | number | bigint | string | regex => exact h
  | keyword k =>
    rw [show text = k.text.toList from h]
    cases k <;> decide
  | punct p =>
    rw [show text = p.text.toList from h]
    exact p.text_ne_nil
  | templateWhole | templateHead | templateMiddle | templateTail =>
    obtain ⟨body, rfl⟩ := h
    exact List.cons_ne_nil _ _

/-- Punctuation is solid, and so are keywords and names. -/
theorem Kind.isSolid_of_isPunct {k : Kind} {p : Punct} (h : k.isPunct p = true) : k.IsSolid := by
  cases k with
  | punct => trivial
  | _ => cases h

theorem Kind.isSolid_of_isKey {k : Kind} {word : Keyword} (h : k.isKey word = true) :
    k.IsSolid := by
  cases k with
  | keyword => trivial
  | _ => cases h

theorem Kind.isSolid_of_isName {k : Kind} {word : String} (h : k.isName word = true) :
    k.IsSolid := by
  cases k with
  | name => trivial
  | _ => cases h

end Token

end Espalier
