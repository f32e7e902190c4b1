import Espalier.Proofs.Token.Spacing.Text

/-!
# Literals with blanks behind them

Strings, pieces of templates and patterns of regular expressions end with a character of their own.
Whatever stands behind it makes no difference to them, not even to the escapes in them.
-/

namespace Espalier.Token

open Text Cursor

variable {r r' : List Char}

/-! ### Escapes -/

/-- A run of hexadecimal digits ends at its limit or at another character. -/
theorem hexRun_of_head? {cs : List Char} {limit : Nat}
    (h : limit = 0 ∨ ∀ c ∈ cs.head?, digitValue? 16 c = none) (value pos : Nat) :
    hexRun value pos limit cs = (value, ⟨pos, cs⟩) := by
  cases limit with
  | zero => cases cs <;> rfl
  | succ n =>
    cases cs with
    | nil => rfl
    | cons c cs =>
      have hc : digitValue? 16 c = none := (h.resolve_left (Nat.succ_ne_zero n)) c rfl
      rw [hexRun, hc]

/-- Hexadecimal digits of which none is read. -/
theorem head?_of_hexRun {cs : List Char} {limit value pos : Nat}
    (h : (hexRun value pos limit cs).2.rest = cs) :
    limit = 0 ∨ ∀ c ∈ cs.head?, digitValue? 16 c = none := by
  cases limit with
  | zero => exact .inl rfl
  | succ n =>
    refine .inr fun c hc => ?_
    obtain ⟨cs, rfl⟩ := List.head?_eq_some_iff.mp hc
    rw [hexRun] at h
    split at h
    · exact absurd h (rest_ne_of_reaches _ (reaches_hexRun _ _ _ _))
    · next hnone => exact hnone

/-- The hexadecimal digits of an escape. What follows them starts alike, and there is a limit to
their number or room for all of them. -/
theorem agrees_hexRun (hhead : r'.head? = r.head?) (text : List Char)
    (value pos pos' limit limit' : Nat)
    (hlimit : limit' = limit ∨ (text ++ r).length ≤ limit ∧ (text ++ r').length ≤ limit') :
    Agrees r r' (hexRun value pos limit (text ++ r)) (hexRun value pos' limit' (text ++ r')) := by
  induction text generalizing value pos pos' limit limit' with
  | nil =>
    rw [List.nil_append, List.nil_append] at *
    intro hrest
    have hstop := head?_of_hexRun hrest
    have hstop' : limit' = 0 ∨ ∀ c ∈ r'.head?, digitValue? 16 c = none := by
      rw [hhead]
      rcases hstop with hzero | hstop
      · rcases hlimit with heq | ⟨hle, -⟩
        · exact .inl (heq.trans hzero)
        · rw [hzero] at hle
          rw [List.length_eq_zero_iff.mp (Nat.le_zero.mp hle)]
          exact .inr nofun
      · exact .inr hstop
    rw [hexRun_of_head? hstop, hexRun_of_head? hstop']
    exact ⟨rfl, rfl⟩
  | cons c text ih =>
    intro hrest
    rw [List.cons_append] at hrest hlimit ⊢
    rw [List.cons_append] at hlimit ⊢
    cases limit with
    | zero => exact absurd hrest (cons_append_ne c text)
    | succ n =>
      -- a limit that held with the old text still has room with the new one
      obtain ⟨n', rfl⟩ : ∃ n', limit' = n' + 1 := by
        refine Nat.exists_eq_add_one.mpr ?_
        rw [List.length_cons, List.length_cons] at hlimit
        omega
      rw [hexRun] at hrest ⊢
      rw [hexRun]
      split at hrest
      · next d hd =>
        refine ih _ _ _ _ _ ?_ hrest
        rw [List.length_cons, List.length_cons] at hlimit
        omega
      · exact absurd hrest (cons_append_ne c text)

/-- An escape without braces reads four digits at most. -/
theorem scanEscape_unicode {cs : List Char} (h : cs.head? ≠ some '\x7b') (pos : Nat) :
    scanEscape pos ('u' :: cs) =
      (some (charOfCode (hexRun 0 (pos + 1) 4 cs).1), (hexRun 0 (pos + 1) 4 cs).2) := by
  rw [scanEscape]
  rintro more rfl
  exact h rfl

/-- A carriage return that no line feed follows is a line continuation alone. -/
theorem scanEscape_return {cs : List Char} (h : cs.head? ≠ some '\n') (pos : Nat) :
    scanEscape pos ('\r' :: cs) = (none, ⟨pos + 1, cs⟩) := by
  rw [scanEscape]
  rintro more rfl
  exact h rfl

theorem head?_append (hhead : r'.head? = r.head?) (text : List Char) :
    (text ++ r').head? = (text ++ r).head? := by
  cases text with
  | nil => exact hhead
  | cons => rfl

/-- What has been read behind a first character. -/
theorem eq_cons_of_append {text t cs : List Char} {c : Char} (h : text ++ r = c :: cs)
    (hcs : cs = t ++ r) : text = c :: t := by
  rw [hcs] at h
  exact List.append_cancel_right h

/-- An escape that ends in front of a text in the middle of a literal. -/
theorem agrees_scanEscape (hhead : r'.head? = r.head?) (text : List Char) (pos pos' : Nat) :
    Agrees r r' (scanEscape pos (text ++ r)) (scanEscape pos' (text ++ r')) := by
  intro hrest
  have hdigits (value at_ limit : Nat) (cs : List Char) {t : List Char}
      (hcs : (hexRun value at_ limit cs).2.rest = t ++ r) : ∃ ds, cs = (ds ++ t) ++ r := by
    obtain ⟨ds, hread, -⟩ := reaches_hexRun value at_ limit cs
    refine ⟨ds, ?_⟩
    rw [List.append_assoc, ← hcs]
    exact hread
  generalize hcs : text ++ r = cs at hrest ⊢
  fun_cases scanEscape pos cs with
  | case1 =>
    obtain ⟨rfl, rfl⟩ := List.append_eq_nil_iff.mp hcs
    rw [List.head?_eq_none_iff.mp hhead]
    exact ⟨rfl, rfl⟩
  | case2 cs | case3 cs | case4 cs | case5 cs | case6 cs | case7 cs | case14 cs =>
    obtain rfl := eq_cons_of_append hcs (t := []) hrest
    exact ⟨rfl, rfl⟩
  | case8 cs =>
    have hr : cs = r := hrest
    obtain rfl := eq_cons_of_append hcs (t := []) hr
    subst hr
    rw [← hhead]
    exact ⟨rfl, rfl⟩
  | case9 cs n after heq =>
    rw [scanEscape, heq] at hrest
    obtain ⟨ds, hds⟩ := hdigits 0 (pos + 1) 2 cs (t := []) (by rw [heq]; exact hrest)
    rw [List.append_nil] at hds
    obtain rfl := eq_cons_of_append hcs hds
    have hagrees := agrees_hexRun hhead ds 0 (pos + 1) (pos' + 1) 2 2 (.inl rfl)
    rw [← hds, heq] at hagrees
    obtain ⟨hvalue, hleft⟩ := hagrees hrest
    rw [List.cons_append, scanEscape]
    exact ⟨congrArg (some ∘ charOfCode) hvalue, hleft⟩
  | case10 cs n after heq =>
    rw [scanEscape, heq] at hrest
    dsimp only at hrest ⊢
    -- the digits end in front of the brace, if there is one
    obtain ⟨close, hclose, hafter⟩ :
        ∃ close, (close = [] ∧ (r.head? == some '\x7d') = false ∨ close = ['\x7d']) ∧
          after.rest = close ++ r := by
      split at hrest
      · next hhead =>
        obtain ⟨ds, hds⟩ := List.head?_eq_some_iff.mp (eq_of_beq hhead)
        refine ⟨['\x7d'], .inr rfl, ?_⟩
        rw [Cursor.step, hds] at hrest
        rw [hds, show ds = r from hrest]
        rfl
      · next hhead =>
        rw [hrest] at hhead
        exact ⟨[], .inl ⟨rfl, (Bool.not_eq_true _).mp hhead⟩, hrest⟩
    obtain ⟨ds, hds⟩ := hdigits 0 (pos + 2) cs.length cs (t := close) (by rw [heq]; exact hafter)
    obtain rfl := eq_cons_of_append hcs (t := '\x7b' :: (ds ++ close)) (by rw [hds]; rfl)
    have hhead' : (close ++ r').head? = (close ++ r).head? := by
      rcases hclose with ⟨rfl, -⟩ | rfl
      · exact hhead
      · rfl
    have hagrees := agrees_hexRun hhead' ds 0 (pos + 2) (pos' + 2) (ds ++ (close ++ r)).length
      (ds ++ (close ++ r')).length (.inr ⟨Nat.le_refl _, Nat.le_refl _⟩)
    rw [← List.append_assoc, ← List.append_assoc, ← hds, heq] at hagrees
    obtain ⟨hvalue, hleft⟩ := hagrees hafter
    rw [List.cons_append, List.cons_append, scanEscape]
    dsimp only
    refine ⟨congrArg (some ∘ charOfCode) hvalue, ?_⟩
    rw [hleft]
    rcases hclose with ⟨rfl, hnone⟩ | rfl
    · rw [List.nil_append, hhead, hnone, if_neg Bool.false_ne_true]
      exact hleft
    · rw [Cursor.step, hleft]
      rfl
  | case11 cs hbrace n after heq =>
    have hbrace : cs.head? ≠ some '\x7b' := fun h =>
      (List.head?_eq_some_iff.mp h).elim fun more => hbrace more
    rw [scanEscape_unicode hbrace] at hrest
    obtain ⟨ds, hds⟩ := hdigits 0 (pos + 1) 4 cs (t := []) hrest
    rw [List.append_nil] at hds
    obtain rfl := eq_cons_of_append hcs hds
    have hagrees := agrees_hexRun hhead ds 0 (pos + 1) (pos' + 1) 4 4 (.inl rfl)
    rw [← hds] at hagrees
    obtain ⟨hvalue, hleft⟩ := hagrees hrest
    rw [hds, ← head?_append hhead] at hbrace
    rw [List.cons_append, scanEscape_unicode hbrace, hvalue, heq]
    exact ⟨rfl, hleft⟩
  | case12 cs =>
    obtain rfl := eq_cons_of_append hcs (t := ['\n']) (by rw [show cs = r from hrest]; rfl)
    exact ⟨rfl, rfl⟩
  | case13 cs hfeed =>
    have hfeed : cs.head? ≠ some '\n' := fun h =>
      (List.head?_eq_some_iff.mp h).elim fun more => hfeed more
    rw [scanEscape_return hfeed] at hrest
    obtain rfl := eq_cons_of_append hcs (t := []) hrest
    rw [show cs = r from hrest, ← hhead] at hfeed
    rw [List.singleton_append, scanEscape_return hfeed]
    exact ⟨rfl, rfl⟩
  | case15 c cs hn hr ht hb hf hv hzero hx hbrace hu hfeed hreturn hline =>
    have hother (more : List Char) (at_ : Nat) :
        scanEscape at_ (c :: more) = (some c, ⟨at_ + c.utf8Size, more⟩) := by
      rw [scanEscape]
      all_goals first
        | assumption
        | exact fun _ h => absurd h hu
        | exact fun _ h => absurd h hreturn
    rw [hother] at hrest
    obtain rfl := eq_cons_of_append hcs (t := []) hrest
    rw [List.singleton_append, hother]
    exact ⟨rfl, rfl⟩

/-- An escape in front of the rest of its literal. -/
theorem agrees_escape {cs more : List Char} {pos : Nat} (hmore : more ≠ [])
    (hrest : (scanEscape pos cs).2.rest = more ++ r) (r' : List Char) (pos' : Nat) :
    ∃ text, cs = text ++ (more ++ r) ∧
      (scanEscape pos' (text ++ (more ++ r'))).1 = (scanEscape pos cs).1 ∧
      (scanEscape pos' (text ++ (more ++ r'))).2.rest = more ++ r' := by
  obtain ⟨text, htext, -⟩ := reaches_scanEscape pos cs
  rw [hrest] at htext
  have htext : cs = text ++ (more ++ r) := htext
  subst htext
  have hhead : (more ++ r').head? = (more ++ r).head? := by
    obtain ⟨c, cs, rfl⟩ := List.exists_cons_of_ne_nil hmore
    rfl
  exact ⟨text, rfl, agrees_scanEscape hhead text pos pos' hrest⟩

/-! ### Strings, templates and regular expressions -/

/-- A string that is closed has been read past its quote. -/
theorem rest_scanString_ne {quote : Char} (hquote : quote.utf8Size = 1) {acc cs : List Char}
    {pos : Nat} (hk : (scanString quote acc pos cs).1.IsSolid) :
    (scanString quote acc pos cs).2.rest ≠ cs := by
  cases cs with
  | nil =>
    rw [scanString] at hk
    exact hk.elim
  | cons c cs =>
    rw [scanString] at hk ⊢
    split at hk
    · next hc =>
      rw [if_pos hc]
      exact (List.cons_ne_self c cs).symm
    · next hc =>
      rw [if_neg hc]
      split at hk
      · exact hk.elim
      · next hline =>
        rw [if_neg hline]
        split
        · exact rest_ne_of_reaches (pos + 1)
            ((reaches_scanEscape _ _).trans (reaches_scanString quote hquote _ _ _))
        · exact rest_ne_of_reaches _ (reaches_scanString quote hquote _ _ _)

/-- A string that is closed is the same whatever stands behind it. -/
theorem agrees_scanString {quote : Char} (hquote : quote.utf8Size = 1) {text acc : List Char}
    {pos pos' : Nat} (hk : (scanString quote acc pos (text ++ r)).1.IsSolid) :
    Agrees r r' (scanString quote acc pos (text ++ r))
      (scanString quote acc pos' (text ++ r')) := by
  intro hrest
  generalize hcs : text ++ r = cs at hk hrest ⊢
  fun_induction scanString quote acc pos cs generalizing text pos' with
  | case1 => exact hk.elim
  | case2 acc pos c cs hc =>
    obtain rfl := eq_cons_of_append hcs (t := []) hrest
    rw [List.singleton_append, scanString, if_pos hc]
    exact ⟨rfl, rfl⟩
  | case3 => exact hk.elim
  | case4 acc pos c cs hc hline hescape _ escape =>
    rename_i ih
    obtain ⟨more, hmore, -⟩ :=
      reaches_scanString quote hquote (escape.1.toList ++ acc) escape.2.pos escape.2.rest
    rw [hrest] at hmore
    -- the string is closed, so something stands behind the escape
    have hne : more ≠ [] := by
      rintro rfl
      exact rest_scanString_ne hquote hk (hrest.trans hmore.symm)
    obtain ⟨t, ht, hvalue, hleft⟩ := agrees_escape hne hmore r' (pos' + 1)
    obtain rfl := eq_cons_of_append hcs (t := t ++ more) (by rw [ht, List.append_assoc])
    rw [List.cons_append, List.append_assoc, scanString, if_neg hc, if_neg hline, if_pos hescape]
    dsimp only
    rw [hvalue, hleft]
    exact ih hmore.symm hk hrest
  | case5 acc pos c cs hc hline hescape ih =>
    obtain ⟨t, ht, -⟩ := reaches_scanString quote hquote (c :: acc) (pos + c.utf8Size) cs
    rw [hrest] at ht
    obtain rfl := eq_cons_of_append hcs ht
    rw [List.cons_append, scanString, if_neg hc, if_neg hline, if_neg hescape]
    exact ih ht.symm hk hrest

/-- A template part is read forward. -/
theorem reaches_scanTemplatePart (first : Bool) (acc : List Char) (pos : Nat) (cs : List Char) :
    Reaches ⟨pos, cs⟩ (scanTemplatePart first acc pos cs).2 := by
  obtain ⟨text, close, hreads, -⟩ := reads_scanTemplatePart first acc pos cs
  exact hreads.reaches

theorem IsTemplateEnd.ne_nil {first : Bool} {k : Kind} {text : List Char}
    (h : IsTemplateEnd first k text) (hk : k.IsSolid) : text ≠ [] := by
  rintro rfl
  cases k <;> cases first <;> first | exact h.elim | exact hk.elim | cases h

/-- A piece of a template that is closed has been read past what ends it. -/
theorem rest_scanTemplatePart_ne {first : Bool} {acc cs : List Char} {pos : Nat}
    (hk : (scanTemplatePart first acc pos cs).1.IsSolid) :
    (scanTemplatePart first acc pos cs).2.rest ≠ cs := by
  obtain ⟨text, close, ⟨hread, -⟩, hend⟩ := reads_scanTemplatePart first acc pos cs
  intro hrest
  rw [hrest] at hread
  have hnil : text ++ close = [] := List.append_left_eq_self.mp hread.symm
  exact hend.ne_nil hk (List.append_eq_nil_iff.mp hnil).2

/-- A piece of a template that is closed is the same whatever stands behind it. -/
theorem agrees_scanTemplatePart {first : Bool} {text acc : List Char} {pos pos' : Nat}
    (hk : (scanTemplatePart first acc pos (text ++ r)).1.IsSolid) :
    Agrees r r' (scanTemplatePart first acc pos (text ++ r))
      (scanTemplatePart first acc pos' (text ++ r')) := by
  intro hrest
  generalize hcs : text ++ r = cs at hk hrest ⊢
  -- something is left of the piece wherever its end has not been read
  have hleft {acc cs : List Char} {pos : Nat} (hk : (scanTemplatePart first acc pos cs).1.IsSolid)
      (hrest : (scanTemplatePart first acc pos cs).2.rest = r) :
      ∃ t, t ≠ [] ∧ cs = t ++ r ∧ (t ++ r').head? = cs.head? := by
    obtain ⟨t, ht, -⟩ := reaches_scanTemplatePart first acc pos cs
    rw [hrest] at ht
    have ht : cs = t ++ r := ht
    cases t with
    | nil => exact absurd (hrest.trans ht.symm) (rest_scanTemplatePart_ne hk)
    | cons d t =>
      rw [ht]
      exact ⟨d :: t, List.cons_ne_nil d t, rfl, rfl⟩
  fun_induction scanTemplatePart first acc pos cs generalizing text pos' with
  | case1 => exact hk.elim
  | case2 acc pos cs =>
    obtain rfl := eq_cons_of_append hcs (t := []) hrest
    rw [List.singleton_append, scanTemplatePart]
    exact ⟨rfl, rfl⟩
  | case3 acc pos cs =>
    obtain rfl := eq_cons_of_append hcs (t := ['\x7b']) (by rw [show cs = r from hrest]; rfl)
    rw [List.cons_append, List.singleton_append, scanTemplatePart]
    exact ⟨rfl, rfl⟩
  | case4 acc pos cs _ escape =>
    rename_i ih
    obtain ⟨more, hne, hmore, -⟩ := hleft hk hrest
    obtain ⟨t, ht, hvalue, hafter⟩ := agrees_escape hne hmore r' (pos' + 1)
    obtain rfl := eq_cons_of_append hcs (t := t ++ more) (by rw [ht, List.append_assoc])
    rw [List.cons_append, List.append_assoc, scanTemplatePart, hvalue, hafter]
    exact ih hmore.symm hk hrest
  | case5 acc pos cs ih =>
    obtain ⟨t, -, ht, -⟩ := hleft hk hrest
    obtain rfl := eq_cons_of_append hcs (t := '\n' :: t) (by rw [ht]; rfl)
    rw [List.cons_append, List.cons_append, scanTemplatePart]
    exact ih ht.symm hk hrest
  | case6 acc pos cs hfeed ih =>
    obtain ⟨t, -, ht, hhead⟩ := hleft hk hrest
    obtain rfl := eq_cons_of_append hcs ht
    rw [List.cons_append, scanTemplatePart]
    · exact ih ht.symm hk hrest
    · intro more hmore
      rw [hmore] at hhead
      obtain ⟨cs', hcs'⟩ := List.head?_eq_some_iff.mp hhead.symm
      exact hfeed cs' hcs'
  | case7 acc pos c cs htick hdollar hescape hreturn hreturn' ih =>
    obtain ⟨t, -, ht, hhead⟩ := hleft hk hrest
    obtain rfl := eq_cons_of_append hcs ht
    rw [List.cons_append, scanTemplatePart]
    · exact ih ht.symm hk hrest
    · exact htick
    · intro more hc hmore
      rw [hmore] at hhead
      obtain ⟨cs', hcs'⟩ := List.head?_eq_some_iff.mp hhead.symm
      exact hdollar cs' hc hcs'
    · exact hescape
    · exact fun _ hc => absurd hc hreturn'
    · exact hreturn'

/-- The pattern of a regular expression that is closed is the same whatever stands behind the slash
that closes it. -/
theorem agrees_regexBody {bracket : Bool} {text acc pattern : List Char} {pos pos' : Nat}
    (hpattern : (regexBody bracket acc pos (text ++ r)).1 = some pattern)
    (hr : r'.head? = r.head?) :
    Agrees r r' (regexBody bracket acc pos (text ++ r))
      (regexBody bracket acc pos' (text ++ r')) := by
  intro hrest
  generalize hcs : text ++ r = cs at hpattern hrest ⊢
  -- in step with the scanner, which ends at the slash of the first case
  fun_induction regexBody bracket acc pos cs generalizing text pos' with
  | case1 => cases hpattern
  | case2 bracket acc pos c cs hslash =>
    have hr' : text = [] := by
      refine List.append_left_eq_self.mp (hcs.trans ?_)
      exact hrest
    subst hr'
    obtain ⟨cs', rfl⟩ : ∃ cs', r' = c :: cs' := by
      refine List.head?_eq_some_iff.mp ?_
      rw [hr, show r = c :: cs from hcs]
      rfl
    rw [List.nil_append, regexBody.eq_def]
    dsimp only
    rw [if_pos hslash]
    exact ⟨rfl, rfl⟩
  | case3 => cases hpattern
  | case4 => cases hpattern
  | case5 bracket acc pos c hslash hline hescape d ds ih =>
    obtain ⟨t, ht, -⟩ := (reaches_regexBody bracket (d :: c :: acc) (pos + 1 + d.utf8Size) ds).1
    rw [hrest] at ht
    obtain rfl := eq_cons_of_append hcs (t := d :: t) (by rw [show ds = t ++ r from ht]; rfl)
    rw [List.cons_append, List.cons_append, regexBody.eq_def]
    dsimp only
    rw [if_neg hslash, if_neg hline, if_pos hescape]
    exact ih ht.symm hpattern hrest
  | case6 bracket acc pos c cs hslash hline hescape ih =>
    obtain ⟨t, ht, -⟩ := (reaches_regexBody
      (if c == '[' then true else if c == ']' then false else bracket) (c :: acc)
      (pos + c.utf8Size) cs).1
    rw [hrest] at ht
    obtain rfl := eq_cons_of_append hcs ht
    rw [List.cons_append, regexBody.eq_def]
    dsimp only
    rw [if_neg hslash, if_neg hline, if_neg hescape]
    exact ih ht.symm hpattern hrest

/-- A regular expression that is closed, from its first slash on. -/
theorem agrees_scanRegexBody (hr : Respaced r r') {c : Char} {text : List Char} {pos pos' : Nat}
    (hk : (scanRegexBody ⟨pos, c :: (text ++ r)⟩).1.IsSolid) :
    Agrees r r' (scanRegexBody ⟨pos, c :: (text ++ r)⟩)
      (scanRegexBody ⟨pos', c :: (text ++ r')⟩) := by
  intro hrest
  have hbody := reaches_regexBody false [] (pos + c.utf8Size) (text ++ r)
  unfold scanRegexBody at hk hrest ⊢
  rw [step_cons] at hk hrest ⊢
  rw [step_cons]
  dsimp only at hk hrest ⊢
  cases heq : regexBody false [] (pos + c.utf8Size) (text ++ r) with
  | mk pattern? slash =>
    rw [heq] at hbody hk hrest
    cases pattern? with
    | none => exact hk.elim
    | some pattern =>
      dsimp only at hk hrest ⊢
      -- the body ends at a slash, and the flags are the letters behind it
      obtain ⟨ds, hds⟩ := List.head?_eq_some_iff.mp (hbody.2 rfl)
      have hleft : (run Char.isAlpha [] slash.step.pos slash.step.rest).2.rest = r := by
        split at hrest <;> exact hrest
      rw [show slash.step.rest = ds by rw [Cursor.step, hds]] at hleft ⊢
      obtain ⟨flags, rfl⟩ := append_of_reaches (reaches_run _ _ _ _) hleft
      obtain ⟨t, rfl⟩ := exists_of_reaches hbody.1 (show slash.rest = ('/' :: flags) ++ r from hds)
      rw [List.append_assoc] at heq ⊢
      have hpattern : Agrees ('/' :: flags ++ r) ('/' :: flags ++ r') _
          (regexBody false [] (pos' + c.utf8Size) (t ++ ('/' :: flags ++ r'))) :=
        agrees_regexBody (congrArg Prod.fst heq) rfl
      rw [heq] at hpattern
      obtain ⟨hpattern, hslash⟩ := hpattern hds
      cases heq' : regexBody false [] (pos' + c.utf8Size) (t ++ ('/' :: flags ++ r')) with
      | mk pattern?' slash' =>
        rw [heq'] at hpattern hslash
        obtain rfl : pattern?' = some pattern := hpattern
        dsimp only
        rw [show slash'.step.rest = flags ++ r' by rw [Cursor.step, hslash]; rfl]
        obtain ⟨hflags, hafter⟩ :=
          agrees_run separates_isAlpha hr flags [] slash.step.pos slash'.step.pos hleft
        rw [hflags]
        split <;> exact ⟨rfl, hafter⟩

end Espalier.Token
