import Espalier.Proofs.Source.LineIndex
import Espalier.Proofs.Spacing.Twin
import Espalier.Proofs.Token.Spacing.Token

/-!
# Blanks between tokens

Blanks are put into a source at places that its tokens admit: right behind one of those that are
left in it, or behind a line break between two of them. Then every token is read as before
(`Leads.keeps`), also where one is read again, so the states in which the source starts to be read
without the blanks and with them are twins (`twin_of_leads`).
-/

namespace Espalier

open Token Text Cursor

namespace Parse

variable {cs : List Char} {s s' s₁ : State} {t : Token} {ts : List Token} {mode : Mode}

/-! ### Where tokens end -/

/-- A regular expression goes on behind its opening slash. -/
theorem passes_step_scanRegexBody {c : Cursor} (h : (scanRegexBody c).1.IsSolid) :
    c.step.Passes (scanRegexBody c).2 := by
  have hbody := reaches_regexBody false [] c.step.pos c.step.rest
  unfold scanRegexBody at h ⊢
  dsimp only at h ⊢
  generalize regexBody false [] c.step.pos c.step.rest = body at h hbody
  obtain ⟨pattern?, slash⟩ := body
  cases pattern? with
  | none => exact h.elim
  | some pattern =>
    have hflags := reaches_run Char.isAlpha [] slash.step.pos slash.step.rest
    have hslash := reads_step_of_head? (hbody.2 rfl)
    have hend : c.step.Passes (Token.run Char.isAlpha [] slash.step.pos slash.step.rest).2 :=
      .of_reaches hbody.1 (.trans_reaches ⟨['/'], List.cons_ne_nil _ _, hslash⟩ hflags)
    dsimp only
    split <;> exact hend

/-- A token ends where the cursor behind it stands. -/
theorem State.IsIn.stop_eq (h : s.IsIn cs) : s.current.token.span.stop = s.current.after.pos := by
  rw [h.isRead.span_eq]

/-- Reading a token again does not move its start. -/
theorem State.first_as (s : State) (mode : Mode) :
    (s.as mode).current.first = s.current.first := by
  cases mode <;> rfl

/-- Reading a token again leaves the state in the source. -/
theorem State.IsIn.as (h : s.IsIn cs) (hfits : mode.Fits s.current.token.kind) :
    (s.as mode).IsIn cs := by
  cases mode with
  | plain => exact h
  | regex => rcases hfits with hk | hk <;> exact h.reread_regex hk
  | template =>
    refine h.reread_template ?_
    rw [show s.current.token.kind = .punct .rightBrace from hfits]
    rfl

/-- A slash ends in front of the end of the regular expression that it opens. -/
theorem stop_le_scanRegex {c : Scanned} (hread : c.IsRead)
    (hk : c.token.kind = .punct .slash ∨ c.token.kind = .punct .slashAssign)
    (hsolid : (scanRegexBody c.first).1.IsSolid) :
    c.after.pos ≤ (scanRegexBody c.first).2.pos := by
  obtain ⟨text, hreads, hspells⟩ := hread.reads
  have htext : ∃ more, text = '/' :: more ∧ bytes text ≤ 2 := by
    rcases hk with hk | hk <;> rw [hk] at hspells <;> obtain rfl := hspells
    · exact ⟨[], rfl, by decide⟩
    · exact ⟨['='], rfl, by decide⟩
  obtain ⟨more, rfl, hbytes⟩ := htext
  have hrest : c.first.rest = '/' :: (more ++ c.after.rest) := hreads.rest_eq
  have hstep := (reads_step hrest).pos_eq
  have hlt := (passes_step_scanRegexBody hsolid).pos_lt
  have hend : c.after.pos = _ := hreads.pos_eq
  have hslash : bytes ['/'] = 1 := rfl
  omega

/-- A token that is read again does not become shorter. -/
theorem State.IsIn.stop_le_as (h : s.IsIn cs) (hfits : mode.Fits s.current.token.kind)
    (hsolid : (s.as mode).current.token.kind.IsSolid) :
    s.current.token.span.stop ≤ (s.as mode).current.token.span.stop := by
  have hstop := h.stop_eq
  cases mode with
  | plain => exact Nat.le_refl _
  | regex =>
    rw [hstop]
    exact stop_le_scanRegex h.isRead hfits hsolid
  | template =>
    have hlt := (h.as hfits).pos_lt_stop hsolid
    rw [(h.as hfits).pos_eq] at hlt
    obtain ⟨text, hreads, hspells⟩ := h.isRead.reads
    rw [show s.current.token.kind = .punct .rightBrace from hfits] at hspells
    have hend : s.current.after.pos = s.current.first.pos + bytes text := hreads.pos_eq
    rw [show text = ['\x7d'] from hspells] at hend
    rw [hstop, hend]
    exact hlt

/-- Tokens end one after the other. -/
theorem State.IsIn.stop_le_next (h : s.IsIn cs) :
    s.current.token.span.stop ≤ s.next.current.token.span.stop := by
  have hle : s.current.token.span.stop ≤ s.next.current.token.span.start := h.next.prevEnd_le
  obtain ⟨text, hreads, -⟩ := h.next.isRead.reads
  have hpos := hreads.pos_le
  rw [h.next.isRead.span_eq] at hle ⊢
  exact Nat.le_trans hle hpos

/-- No token that is still to be left ends in front of the end of the current one. -/
theorem Leads.stop_le (h : Leads s ts s') (hs : s.IsIn cs) (ht : t ∈ ts) :
    s.current.token.span.stop ≤ t.span.stop := by
  induction h with
  | refl s => cases ht
  | leave mode hfits hsolid h ih =>
    refine Nat.le_trans (hs.stop_le_as hfits hsolid) ?_
    rcases List.mem_cons.mp ht with rfl | ht
    · exact Nat.le_refl _
    · exact Nat.le_trans (hs.as hfits).stop_le_next (ih (hs.as hfits).next ht)

/-! ### Places of a source -/

/-- A place behind a line break. -/
def FollowsLine (cs : List Char) (n : Nat) : Prop :=
  ∃ before after, cs = before ++ '\n' :: after ∧ n = bytes before + 1

/-- A place where blanks may be put while the given tokens are still to be left: right behind one of
them, or behind a line break and inside of none of them. -/
def Admits (cs : List Char) (ts : List Token) (n : Nat) : Prop :=
  (∃ t ∈ ts, t.span.stop = n) ∨
    FollowsLine cs n ∧ ∀ t ∈ ts, ¬(t.span.start < n ∧ n < t.span.stop)

variable {n : Nat}

/-- What a line starts behind is a line feed. -/
theorem FollowsLine.eq_lineFeed {before after : List Char} {ch : Char} (h : FollowsLine cs n)
    (hcs : cs = before ++ ch :: after) (hn : n = bytes before + ch.utf8Size) : ch = '\n' := by
  obtain ⟨before', after', hcs', hn'⟩ := h
  have hsize : '\n'.utf8Size = 1 := rfl
  have hprefix : before ++ [ch] <+: cs := ⟨after, by rw [hcs, List.append_assoc]; rfl⟩
  have hprefix' : before' ++ ['\n'] <+: cs := ⟨after', by rw [hcs', List.append_assoc]; rfl⟩
  have hbytes : bytes (before ++ [ch]) = bytes (before' ++ ['\n']) := by
    rw [bytes_append, bytes_append, bytes_cons, bytes_cons, bytes_nil]
    omega
  have hle := isPrefix_of_bytes_le hprefix hprefix' hbytes.le
  have hge := isPrefix_of_bytes_le hprefix' hprefix hbytes.ge
  have heq : before ++ [ch] = before' ++ ['\n'] :=
    hle.eq_of_length (Nat.le_antisymm hle.length_le hge.length_le)
  exact (List.cons.inj (List.append_inj' heq rfl).2).1

/-- Behind the first token, it does not matter for blanks. -/
theorem Admits.tail (h : Admits cs (t :: ts) n) (hlt : t.span.stop < n) : Admits cs ts n := by
  rcases h with ⟨u, hu, rfl⟩ | ⟨hline, hout⟩
  · rcases List.mem_cons.mp hu with rfl | hu
    · exact absurd hlt (Nat.lt_irrefl _)
    · exact .inl ⟨u, hu, rfl⟩
  · exact .inr ⟨hline, fun u hu => hout u (List.mem_cons_of_mem _ hu)⟩

/-- Blanks are not put into the token that is left next. -/
theorem Admits.not_inside (hs : s.IsIn cs) (hfits : mode.Fits s.current.token.kind)
    (h : Leads (s.as mode).next ts s') (hn : Admits cs ((s.as mode).current.token :: ts) n) :
    ¬((s.as mode).current.first.pos < n ∧ n < (s.as mode).current.after.pos) := by
  have hin := hs.as hfits
  have hstop := hin.stop_eq
  rintro ⟨hlt, hlt'⟩
  rcases hn with ⟨t, ht, rfl⟩ | ⟨-, hout⟩
  · rcases List.mem_cons.mp ht with rfl | ht
    · omega
    · have hle := h.stop_le hin.next ht
      have hnext := hin.stop_le_next
      omega
  · have hspan := hin.isRead.span_eq
    refine hout _ List.mem_cons_self ?_
    rw [hspan]
    exact ⟨hlt, hlt'⟩

/-- In front of the current token, blanks are put only behind line breaks. -/
theorem Admits.followsLine (hs : s.IsIn cs) (h : Leads s ts s') (hn : Admits cs ts n)
    (hle : n ≤ s.current.first.pos) : FollowsLine cs n := by
  refine hn.elim (fun ⟨t, ht, hstop⟩ => ?_) And.left
  have hk : s.current.token.kind.IsSolid := by
    cases h with
    | refl => cases ht
    | leave mode hfits => exact hfits.isSolid
  have hlt := hs.pos_lt_stop hk
  have hle' : s.next.prevEnd ≤ t.span.stop := h.stop_le hs ht
  rw [hs.pos_eq] at hlt
  omega

/-! ### The next token -/

variable {w : Spacing} {c c' : Cursor}

/-- In the gap in front of the current token, blanks are put only behind line breaks. -/
theorem Leads.startsLines {text : List Char} (h : Leads s ts s') (hs : s.IsIn cs)
    (hc : Reaches ⟨0, cs⟩ c) (hreads : c.Reads text s.current.first)
    (hplaces : ∀ n, c.pos < n → w.blanks n ≠ [] → Admits cs ts n) :
    w.StartsLines c.pos text := by
  intro before ch after htext hch
  by_contra hblanks
  obtain ⟨start, hstart⟩ := hc
  have hpos := hreads.pos_eq
  have hsize := ch.utf8Size_pos
  rw [htext, bytes_append, bytes_cons] at hpos
  rw [bytes_append, bytes_cons, bytes_nil] at hblanks
  have hline := (hplaces _ (by omega) hblanks).followsLine hs h (by omega)
  have hstartPos : c.pos = 0 + bytes start := hstart.pos_eq
  have hcs : cs = (start ++ before) ++ ch :: (after ++ s.current.first.rest) := by
    rw [show cs = start ++ c.rest from hstart.rest_eq, hreads.rest_eq, htext]
    simp only [List.append_assoc, List.cons_append]
  refine hch (hline.eq_lineFeed hcs ?_)
  rw [bytes_append]
  omega

/-- A number that starts with its point goes on behind that. -/
theorem pos_lt_scan_fraction {pos : Nat} {cs : List Char} (h : cs.head?.any Char.isDigit = true) :
    pos + 1 < (scan ⟨pos, '.' :: cs⟩).after.pos := by
  obtain ⟨d, ds, rfl⟩ : ∃ d ds, cs = d :: ds := by
    cases cs with
    | nil => cases h
    | cons d ds => exact ⟨d, ds, rfl⟩
  have hgap : gap .blank false pos ('.' :: d :: ds) = ⟨false, ⟨pos, '.' :: d :: ds⟩, false⟩ :=
    gap_of_head? rfl (fun hslash => by cases hslash) false pos
  have hscan : (scan ⟨pos, '.' :: d :: ds⟩).after = (scanKind ⟨pos, '.' :: d :: ds⟩).2 := by
    unfold scan
    rw [hgap]
    rfl
  -- a point with a digit behind it starts a number
  have hkind : scanKind ⟨pos, '.' :: d :: ds⟩ = scanFraction ⟨pos, '.' :: d :: ds⟩ := by
    unfold scanKind
    dsimp only
    rw [if_neg (by decide), if_neg (by decide), if_neg (by decide), if_neg (by decide),
      if_neg (by decide), if_pos]
    exact h
  rw [hscan, hkind]
  exact (passes_digitRun (show d.isDigit = true from h) [] (pos + 1) ds).pos_lt

/-- A number that starts with its point is left behind a question mark, so no blanks are put in
behind its point. -/
theorem Leads.blanks_eq_nil (h : Leads s ts s') (hs : s.IsIn cs)
    (hplaces : ∀ n, s.current.first.pos < n → w.blanks n ≠ [] → Admits cs ts n)
    (hk : s.current.token.kind = .punct .question)
    (hpoint : s.current.after.rest.head? = some '.')
    (hdigit : s.current.after.rest.tail.head?.any Char.isDigit = true) :
    w.blanks (s.current.after.pos + 1) = [] := by
  by_contra hblanks
  obtain ⟨rest, hrest⟩ := List.head?_eq_some_iff.mp hpoint
  have hafter : s.current.after = ⟨s.current.after.pos, '.' :: rest⟩ := by rw [← hrest]
  rw [hrest, List.tail_cons] at hdigit
  -- the next token is a number that goes beyond the place, so nothing may be put in there
  have hend : s.current.after.pos + 1 < s.next.current.after.pos := by
    show _ < (scan s.current.after).after.pos
    rw [hafter]
    exact pos_lt_scan_fraction hdigit
  have hstart : s.current.first.pos ≤ s.current.after.pos := by
    obtain ⟨text, hreads, -⟩ := hs.isRead.reads
    exact hreads.pos_le
  obtain ⟨start, hstart₁⟩ := hs.reaches_after
  have hstartPos : s.current.after.pos = 0 + bytes start := hstart₁.pos_eq
  have hcs : cs = start ++ '.' :: rest := hrest ▸ hstart₁.rest_eq
  rcases hplaces _ (by omega) hblanks with ⟨t, ht, hstop⟩ | ⟨hline, -⟩
  · cases h with
    | refl => cases ht
    | leave mode hfits hsolid h =>
      obtain rfl : mode = .plain := by
        cases mode with
        | plain => rfl
        | regex => rcases hfits with heq | heq <;> cases hk.symm.trans heq
        | template => cases hk.symm.trans hfits
      rcases List.mem_cons.mp ht with rfl | ht
      · have hstop' := hs.stop_eq
        change s.current.token.span.stop = _ at hstop
        omega
      · have hle := h.stop_le hs.next ht
        have hle : s.next.current.token.span.stop ≤ t.span.stop := hle
        rw [hs.next.stop_eq] at hle
        omega
  · -- nor does a line start there
    have hsize : '.'.utf8Size = 1 := rfl
    have heq := hline.eq_lineFeed hcs (by omega)
    cases heq

/-- The current token is read as before if blanks are put in at places that it admits. -/
theorem Leads.keeps (h : Leads s ts s') (hend : s'.current.token.kind = .eof) (hs : s.IsIn cs)
    (hc : Reaches ⟨0, cs⟩ c) (hcurrent : s.current = scan c)
    (hc' : c'.rest = w.respace c.pos c.rest)
    (hplaces : ∀ n, c.pos < n → w.blanks n ≠ [] → Admits cs ts n) :
    w.Keeps s.current (scan c') := by
  obtain ⟨text, hreads⟩ := reaches_scan c
  rw [← hcurrent] at hreads
  have hlines := h.startsLines hs hc hreads hplaces
  have hle := hreads.pos_le
  have hplaces' (n : Nat) (hlt : s.current.first.pos < n) (hn : w.blanks n ≠ []) :
      Admits cs ts n := hplaces n (by omega) hn
  -- blanks must not part `?.` from a digit, which would then be read otherwise
  have hquestion := h.blanks_eq_nil hs hplaces'
  rw [hcurrent] at hreads hquestion ⊢
  cases h with
  | refl => exact keeps_scan_eof hc' hreads hlines (hcurrent ▸ hend)
  | leave mode hfits hsolid h =>
    refine keeps_scan hc' hreads hlines (hcurrent ▸ hfits.isSolid) (fun n hlt hlt' => ?_)
      (undivided_respace w hquestion)
    by_contra hn
    rw [← hcurrent] at hlt hlt'
    have hstop := hs.stop_le_as hfits hsolid
    rw [hs.stop_eq, (hs.as hfits).stop_eq] at hstop
    refine (hplaces' n hlt hn).not_inside hs hfits h ⟨?_, by omega⟩
    rwa [s.first_as]

/-! ### Tokens that are read again -/

/-- What reads the same in front of respaced texts reads the same after blanks are put in. -/
theorem respace_of_agrees {α : Type} (read : Cursor → α × Cursor)
    (hc' : c'.rest = w.inner c.pos c.rest) (hpasses : c.Passes (read c).2)
    (hclear : ∀ n, c.pos < n → n < (read c).2.pos → w.blanks n = [])
    (hagrees : ∀ {r r' text}, Respaced r r' → text ≠ [] → c.rest = text ++ r →
      c'.rest = text ++ r' → Agrees r r' (read c) (read c')) :
    (read c').1 = (read c).1 ∧ (read c').2.rest = w.respace (read c).2.pos (read c).2.rest := by
  obtain ⟨text, hne, hreads⟩ := hpasses
  rw [hreads.rest_eq, w.inner_of_clear hne (hreads.pos_eq ▸ hclear), ← hreads.pos_eq] at hc'
  exact hagrees (w.respaced_respace _ _) hne hreads.rest_eq hc' rfl

/-- A literal read again from its `/` is the same when blanks come behind it. -/
theorem agrees_regex {r r' text : List Char} (hk : (scanRegexBody c).1.IsSolid)
    (hr : Respaced r r') (htext : text ≠ []) (hc : c.rest = text ++ r)
    (hc' : c'.rest = text ++ r') : Agrees r r' (scanRegexBody c) (scanRegexBody c') := by
  obtain ⟨ch, text, rfl⟩ := List.exists_cons_of_ne_nil htext
  obtain ⟨pos, rest⟩ := c
  obtain ⟨pos', rest'⟩ := c'
  cases hc
  cases hc'
  exact agrees_scanRegexBody hr hk

/-- So is a piece of a template read again from its brace. -/
theorem agrees_template {r r' text : List Char}
    (hk : (scanTemplatePart false [] c.step.pos c.step.rest).1.IsSolid) (htext : text ≠ [])
    (hc : c.rest = text ++ r) (hc' : c'.rest = text ++ r') :
    Agrees r r' (scanTemplatePart false [] c.step.pos c.step.rest)
      (scanTemplatePart false [] c'.step.pos c'.step.rest) := by
  obtain ⟨ch, text, rfl⟩ := List.exists_cons_of_ne_nil htext
  obtain ⟨pos, rest⟩ := c
  obtain ⟨pos', rest'⟩ := c'
  cases hc
  cases hc'
  exact agrees_scanTemplatePart hk

/-- A token is read again as before. -/
theorem keeps_as (h : w.Keeps s.current s'.current) (hs : s.IsIn cs)
    (hfits : mode.Fits s.current.token.kind) (hsolid : (s.as mode).current.token.kind.IsSolid)
    (hclear : ∀ n, s.current.first.pos < n → n < (s.as mode).current.after.pos →
      w.blanks n = []) : w.Keeps (s.as mode).current (s'.as mode).current := by
  obtain ⟨text, hreads, hspells⟩ := (hs.as hfits).isRead.reads
  have hpasses : (s.as mode).current.first.Passes (s.as mode).current.after :=
    ⟨text, hspells.ne_nil hsolid, hreads⟩
  cases mode with
  | plain => exact h
  | regex =>
    obtain ⟨hkind, hafter⟩ := respace_of_agrees scanRegexBody h.first hpasses hclear
      (agrees_regex hsolid)
    exact ⟨hkind, h.newline_eq, h.first, fun _ => hafter⟩
  | template =>
    obtain ⟨hkind, hafter⟩ := respace_of_agrees
      (fun c => scanTemplatePart false [] c.step.pos c.step.rest) h.first hpasses hclear
      fun _ => agrees_template hsolid
    exact ⟨hkind, h.newline_eq, h.first, fun _ => hafter⟩

/-! ### Twins -/

/-- The insertion of blanks into a source. -/
def Insertion.ofSpacing (w : Spacing) (cs : List Char) : Insertion :=
  ⟨bytes cs, w.move cs 0, w.strictMono_move cs 0⟩

/-- Where a token starts after the insertion. -/
theorem pos_eq_move (hc : Reaches ⟨0, cs⟩ c) (hc' : Reaches ⟨0, w.respace 0 cs⟩ c')
    (h : c'.rest = w.inner c.pos c.rest) : c'.pos = w.move cs 0 c.pos := by
  obtain ⟨text, hreads⟩ := hc
  obtain ⟨text', hreads'⟩ := hc'
  have hcs : cs = text ++ c.rest := hreads.rest_eq
  have hpos : c.pos = bytes text := hreads.pos_eq.trans (Nat.zero_add _)
  have hpos' : c'.pos = bytes text' := hreads'.pos_eq.trans (Nat.zero_add _)
  have hcs' : w.respace 0 text ++ w.inner c.pos c.rest = text' ++ w.inner c.pos c.rest := by
    rw [← h, ← show w.respace 0 cs = text' ++ c'.rest from hreads'.rest_eq, h, hpos]
    conv_rhs => rw [hcs, w.respace_append, Nat.zero_add]
  rw [hpos', ← List.append_cancel_right hcs', hcs, hpos, w.move_bytes]

/-- Two states that correspond to each other are twins. -/
theorem twin_of_leads (h : Leads s ts s₁) (hend : s₁.current.token.kind = .eof) (hs : s.IsIn cs)
    (hs' : s'.IsIn (w.respace 0 cs)) (hkeeps : w.Keeps s.current s'.current)
    (hplaces : ∀ n, s.current.first.pos < n → w.blanks n ≠ [] → Admits cs ts n) :
    Twin (.ofSpacing w cs) ts s s' := by
  induction h generalizing s' with
  | refl s =>
    exact .atEnd ⟨hkeeps.kind_eq, hkeeps.newline_eq⟩
      (pos_eq_move hs.reaches hs'.reaches hkeeps.first) hend
  | @leave s s₁ ts mode hfits hsolid h ih =>
    have hin := hs.as hfits
    have hin' : (s'.as mode).IsIn _ := hs'.as (hkeeps.kind_eq ▸ hfits)
    have hle : s.current.first.pos ≤ (s.as mode).current.after.pos := by
      obtain ⟨text, hreads, -⟩ := hin.isRead.reads
      rw [← s.first_as mode]
      exact hreads.pos_le
    -- no blanks lie inside the token, so it is read again alike
    have hkeeps' : w.Keeps (s.as mode).current (s'.as mode).current := by
      refine keeps_as hkeeps hs hfits hsolid fun n hlt hlt' => ?_
      by_contra hn
      refine (hplaces n hlt hn).not_inside hs hfits h ⟨?_, hlt'⟩
      rwa [s.first_as]
    have hplaces' (n : Nat) (hlt : (s.as mode).current.after.pos < n) (hn : w.blanks n ≠ []) :
        Admits cs ts n := by
      refine (hplaces n (Nat.lt_of_le_of_lt hle hlt) hn).tail ?_
      rwa [hin.stop_eq]
    -- and so is the token behind it
    have hnext : w.Keeps (s.as mode).next.current (s'.as mode).next.current :=
      h.keeps hend hin.next hin.reaches_after rfl (hkeeps'.after hsolid) hplaces'
    refine .leave mode ⟨hkeeps.kind_eq, hkeeps.newline_eq⟩
      (pos_eq_move hs.reaches hs'.reaches hkeeps.first) hfits
      ⟨hkeeps'.kind_eq, hkeeps'.newline_eq⟩ hsolid
      (ih hend hin.next hin'.next hnext fun n hlt => hplaces' n (Nat.lt_of_le_of_lt ?_ hlt))
    exact (reaches_scan _).pos_le

end Parse

end Espalier
