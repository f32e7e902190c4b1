import Espalier.Print
import Espalier.Proofs.Token.Lexeme

/-!
# Printed templates read again

A piece of a template is printed up to a quote or the start of a substitution, and read up to there:
every character comes back as it was, except that the carriage returns, which are printed as they
are, end lines for a reader and come back as line feeds (`lineFeeds`). The braces behind the
substitutions are read as braces first and then again as the starts of the next pieces
(`templateTokens`), as it is when a program is read.

**Main result**: `templateTokens_template`. The tokens of a printed template whose substitutions are
names are those names and, around them, the pieces of the template. Their values are the printed
ones if and only if there is no carriage return in them.
-/

namespace Espalier

open Text Token

/-! ### The characters of a piece -/

namespace Print

/-- A text with its line ends as a template has them: no carriage returns, and one line feed for a
carriage return and the line feed behind it. -/
def lineFeeds : List Char → List Char
  | '\r' :: '\n' :: cs => '\n' :: lineFeeds cs
  | '\r' :: cs => '\n' :: lineFeeds cs
  | c :: cs => c :: lineFeeds cs
  | [] => []

/-- A text has the line ends of a template just if there is no carriage return in it. -/
theorem lineFeeds_eq_self_iff (cs : List Char) : lineFeeds cs = cs ↔ '\r' ∉ cs := by
  fun_induction lineFeeds cs with
  | case1 cs ih => simp
  | case2 cs hline ih => simp
  | case3 c cs hpair hreturn ih =>
    have hne : '\r' ≠ c := fun heq => hreturn heq.symm
    simp [ih, hne]
  | case4 => simp

/-- What may stand behind a piece of a template: the quote that closes the template or the start of
a substitution. -/
def EndsPiece (close : List Char) : Prop :=
  (∃ rest, close = '\x60' :: rest) ∨ ∃ rest, close = '$' :: '\x7b' :: rest

/-- What stands for the characters of a piece starts with the first of them or with a backslash. -/
theorem head?_templateChars {d : Char} (hd : d ≠ '\\') {cs close : List Char}
    (hcs : cs.head? ≠ some d) (hclose : close.head? ≠ some d) :
    (templateChars cs ++ close).head? ≠ some d := by
  cases cs with
  | nil => exact hclose
  | cons c cs =>
    rw [templateChars]
    split
    · intro heq
      exact hd (Option.some.inj heq).symm
    · exact hcs

/-- What ends a piece is no line feed and no brace. -/
theorem EndsPiece.head?_ne {close : List Char} (h : EndsPiece close) :
    close.head? ≠ some '\n' ∧ close.head? ≠ some '\x7b' := by
  rcases h with ⟨rest, rfl⟩ | ⟨rest, rfl⟩
  · exact ⟨by simp, by simp⟩
  · exact ⟨by simp, by simp⟩

/-- The characters of a piece that are printed with a backslash. -/
theorem scanTemplatePart_escape {c : Char} (h : c = '\\' ∨ c = '\x60' ∨ c = '$') (first : Bool)
    (acc : List Char) (pos : Nat) (more : List Char) :
    scanTemplatePart first acc pos ('\\' :: c :: more) =
      scanTemplatePart first (c :: acc) (pos + bytes ['\\', c]) more := by
  rcases h with rfl | rfl | rfl
  · rw [scanTemplatePart]
    rfl
  · rw [scanTemplatePart]
    rfl
  · rw [scanTemplatePart]
    rfl

/-- The characters of a piece that are printed as they are, but for carriage returns. -/
theorem scanTemplatePart_plain {c : Char} {more : List Char} (hslash : c ≠ '\\')
    (hquote : c ≠ '\x60') (hdollar : c = '$' → more.head? ≠ some '\x7b') (hreturn : c ≠ '\r')
    (first : Bool) (acc : List Char) (pos : Nat) :
    scanTemplatePart first acc pos (c :: more) =
      scanTemplatePart first (c :: acc) (pos + c.utf8Size) more := by
  rw [scanTemplatePart]
  · exact hquote
  · rintro tail rfl rfl
    exact hdollar rfl rfl
  · exact hslash
  · rintro tail rfl
    exact absurd rfl hreturn
  · exact hreturn

/-- A carriage return alone is read as a line feed. -/
theorem scanTemplatePart_return {more : List Char} (h : more.head? ≠ some '\n') (first : Bool)
    (acc : List Char) (pos : Nat) :
    scanTemplatePart first acc pos ('\r' :: more) =
      scanTemplatePart first ('\n' :: acc) (pos + 1) more := by
  rw [scanTemplatePart]
  rintro tail rfl
  exact h rfl

/-- The characters that stand for those of a piece are read as these, line ends apart. -/
theorem scanTemplatePart_templateChars {close : List Char} (hclose : EndsPiece close) (first : Bool)
    (cs acc : List Char) (pos : Nat) :
    scanTemplatePart first acc pos (templateChars cs ++ close) =
      scanTemplatePart first ((lineFeeds cs).reverse ++ acc) (pos + bytes (templateChars cs))
        close := by
  obtain ⟨hcloseLine, hcloseBrace⟩ := hclose.head?_ne
  -- a pair of line characters, a carriage return alone, any other character, and the end
  fun_induction lineFeeds cs generalizing acc pos with
  | case1 cs ih =>
    have hchars : templateChars ('\r' :: '\n' :: cs) = '\r' :: '\n' :: templateChars cs := rfl
    rw [hchars, List.cons_append, List.cons_append, scanTemplatePart, ih, List.reverse_cons,
      List.append_assoc, bytes_cons, bytes_cons, ← Nat.add_assoc, ← Nat.add_assoc]
    rfl
  | case2 cs hline ih =>
    have hchars : templateChars ('\r' :: cs) = '\r' :: templateChars cs := rfl
    have hhead : cs.head? ≠ some '\n' := by
      intro heq
      obtain ⟨tail, rfl⟩ := List.head?_eq_some_iff.mp heq
      exact hline tail rfl
    have hmore := head?_templateChars (by decide) hhead hcloseLine
    rw [hchars, List.cons_append, scanTemplatePart_return hmore, ih, List.reverse_cons,
      List.append_assoc, bytes_cons, ← Nat.add_assoc]
    rfl
  | case3 c cs hpair hreturn ih =>
    rw [templateChars]
    split
    · next hescaped =>
      have hc : c = '\\' ∨ c = '\x60' ∨ c = '$' := by
        simp only [Bool.or_eq_true, Bool.and_eq_true, beq_iff_eq] at hescaped
        rcases hescaped with (hslash | hquote) | ⟨hdollar, -⟩
        · exact .inl hslash
        · exact .inr (.inl hquote)
        · exact .inr (.inr hdollar)
      have hbytes : pos + bytes ['\\', c] + bytes (templateChars cs) =
          pos + bytes ('\\' :: c :: templateChars cs) := by
        simp only [bytes_cons, bytes_nil, Nat.add_zero, Nat.add_assoc]
      rw [List.cons_append, List.cons_append, scanTemplatePart_escape hc, ih, hbytes,
        List.reverse_cons, List.append_assoc]
      rfl
    · next hplain =>
      simp only [Bool.or_eq_true, Bool.and_eq_true, beq_iff_eq, not_or, not_and] at hplain
      obtain ⟨⟨hslash, hquote⟩, hdollar⟩ := hplain
      -- a dollar sign is left plain only where no brace follows
      have hmore : c = '$' → (templateChars cs ++ close).head? ≠ some '\x7b' := by
        intro hc
        exact head?_templateChars (by decide) (hdollar hc) hcloseBrace
      rw [List.cons_append, scanTemplatePart_plain hslash hquote hmore hreturn, ih,
        List.reverse_cons, List.append_assoc, bytes_cons, ← Nat.add_assoc]
      rfl
  | case4 => rfl

/-- The value that is read where a text has been printed as a piece of a template. -/
def pieceValue (cooked : String) : String := String.ofList (lineFeeds cooked.toList)

/-- A piece is read back exactly if it holds no carriage return. -/
theorem pieceValue_eq_self_iff (cooked : String) :
    pieceValue cooked = cooked ↔ '\r' ∉ cooked.toList := by
  unfold pieceValue
  rw [← lineFeeds_eq_self_iff, ← String.toList_inj, String.toList_ofList]

/-- A piece that ends the template. -/
theorem scanTemplatePart_last (first : Bool) (cooked : String) (pos : Nat) (rest : List Char) :
    scanTemplatePart first [] pos (templateChars cooked.toList ++ '\x60' :: rest) =
      (if first then .templateWhole (pieceValue cooked) else .templateTail (pieceValue cooked),
        ⟨pos + bytes (templateChars cooked.toList) + 1, rest⟩) := by
  rw [scanTemplatePart_templateChars (.inl ⟨rest, rfl⟩), scanTemplatePart, List.append_nil,
    List.reverse_reverse]
  rfl

/-- A piece with a substitution behind it. -/
theorem scanTemplatePart_again (first : Bool) (cooked : String) (pos : Nat) (rest : List Char) :
    scanTemplatePart first [] pos (templateChars cooked.toList ++ '$' :: '\x7b' :: rest) =
      (if first then .templateHead (pieceValue cooked) else .templateMiddle (pieceValue cooked),
        ⟨pos + bytes (templateChars cooked.toList) + 2, rest⟩) := by
  rw [scanTemplatePart_templateChars (.inr ⟨rest, rfl⟩), scanTemplatePart, List.append_nil,
    List.reverse_reverse]
  rfl

end Print

/-! ### The tokens of a template -/

namespace Token

/-- The tokens of a template with `n` substitutions that are names, from its first piece on, and the
place behind them. As when a program is read, the brace behind a name is read again as the start of
the next piece. -/
def templateTokens : (n : Nat) → (piece : Scanned) → List Kind × Cursor
  | 0, piece => ([piece.token.kind], piece.after)
  | n + 1, piece =>
    let name := scan piece.after
    let brace := scan name.after
    if brace.token.isPunct .rightBrace then
      let later := templateTokens n (scanTemplate brace.token.newlineBefore brace.first)
      (piece.token.kind :: name.token.kind :: later.1, later.2)
    else ([piece.token.kind, name.token.kind, brace.token.kind], brace.after)

/-- The kinds of the tokens of a template with the given values and the given names between them. -/
def templateKinds : (first : Bool) → (values names : List String) → List Kind
  | first, v :: vs, n :: ns =>
    (if first then .templateHead v else .templateMiddle v) :: wordKind n ::
      templateKinds false vs ns
  | first, v :: _, [] => [if first then .templateWhole v else .templateTail v]
  | _, [], _ => []

/-- Templates with the same tokens have the same values. -/
theorem templateKinds_inj {first : Bool} {vs ws ns : List String} (hvs : vs.length = ns.length + 1)
    (hws : ws.length = ns.length + 1) (h : templateKinds first vs ns = templateKinds first ws ns) :
    vs = ws := by
  induction ns generalizing first vs ws with
  | nil =>
    obtain ⟨v, rfl⟩ := List.length_eq_one_iff.mp hvs
    obtain ⟨w, rfl⟩ := List.length_eq_one_iff.mp hws
    cases first <;> simpa [templateKinds] using h
  | cons n ns ih =>
    obtain ⟨v, vs, rfl⟩ := List.exists_cons_of_length_eq_add_one hvs
    obtain ⟨w, ws, rfl⟩ := List.exists_cons_of_length_eq_add_one hws
    rw [templateKinds, templateKinds, List.cons.injEq, List.cons.injEq] at h
    obtain ⟨hfirst, -, hlater⟩ := h
    have hhead : v = w := by
      cases first <;> simpa using hfirst
    rw [hhead, ih (Nat.succ.inj hvs) (Nat.succ.inj hws) hlater]

/-- Where a word ends. -/
theorem after_scan_word {word : String} {k : List Char} (h : isWord word = true) (hk : EndsName k)
    (pos : Nat) : (scan ⟨pos, word.toList ++ k⟩).after = ⟨pos + bytes word.toList, k⟩ := by
  obtain ⟨-, -, hrest⟩ := scansTo_word h hk pos
  obtain ⟨read, hread, -⟩ := (isRead_scan ⟨pos, word.toList ++ k⟩).reads
  obtain ⟨text, htext, hpos⟩ := (reaches_scan ⟨pos, word.toList ++ k⟩).trans hread.reaches
  -- What has been read is the word, as the same text is left behind both.
  have hword : text = word.toList := by
    rw [hrest] at htext
    exact (List.append_cancel_right htext).symm
  rw [hword] at hpos
  exact (Cursor.mk.injEq ..).mpr ⟨hpos, hrest⟩

/-- The first piece of a template. -/
theorem scan_templatePart (pos : Nat) (k : List Char) :
    scan ⟨pos, '\x60' :: k⟩ =
      .ofKind false ⟨pos, '\x60' :: k⟩ (scanTemplatePart true [] (pos + 1) k) := by
  rw [scan_of_scanKind (by decide) (absurd · (by decide))]
  rfl

/-- The brace behind a substitution. -/
theorem scan_rightBrace (pos : Nat) (k : List Char) :
    scan ⟨pos, '\x7d' :: k⟩ =
      .ofKind false ⟨pos, '\x7d' :: k⟩ (.punct .rightBrace, ⟨pos + 1, k⟩) := by
  rw [scan_of_scanKind (by decide) (absurd · (by decide))]
  rfl

end Token

namespace Print

/-- The text of the first piece and expression, and of all behind them. -/
theorem toList_templateBody_cons (cooked name : String) (later names : List String) :
    (templateBody (cooked :: later) (name :: names)).toList =
      templateChars cooked.toList ++
        '$' :: '\x7b' :: (name.toList ++ '\x7d' :: (templateBody later names).toList) := by
  rw [templateBody]
  simp only [String.toList_append, String.toList_ofList, List.append_assoc]
  rfl

/-- A piece of a template and what follows it. -/
theorem templateTokens_templateBody {first : Bool} {cooked names : List String}
    (hlength : cooked.length = names.length + 1) (hnames : ∀ n ∈ names, isWord n = true)
    {piece : Scanned} {pos : Nat} {rest : List Char}
    (hpiece : (piece.token.kind, piece.after) =
      scanTemplatePart first [] pos ((templateBody cooked names).toList ++ '\x60' :: rest)) :
    templateTokens names.length piece =
      (templateKinds first (cooked.map pieceValue) names,
        ⟨pos + bytes (templateBody cooked names).toList + 1, rest⟩) := by
  induction names generalizing first cooked piece pos with
  | nil =>
    obtain ⟨c, rfl⟩ := List.length_eq_one_iff.mp hlength
    have hbody : (templateBody [c] []).toList = templateChars c.toList := by
      rw [templateBody, templateBody, String.append_empty, String.toList_ofList]
    rw [hbody, scanTemplatePart_last] at hpiece
    obtain ⟨hkind, hafter⟩ := Prod.mk.inj hpiece
    rw [List.length_nil, templateTokens, hkind, hafter, hbody]
    rfl
  | cons n names ih =>
    cases cooked with
    | nil => cases hlength
    | cons c cooked =>
      have hn := hnames n List.mem_cons_self
      have hlater : ∀ m ∈ names, isWord m = true := fun m hm => hnames m (List.mem_cons_of_mem n hm)
      obtain ⟨body, hbody⟩ : ∃ body, body = (templateBody cooked names).toList ++ '\x60' :: rest :=
        ⟨_, rfl⟩
      have hends : EndsName ('\x7d' :: body) := by
        intro d hd
        obtain rfl := Option.some.inj hd
        decide
      rw [toList_templateBody_cons, List.append_assoc, List.cons_append, List.cons_append,
        List.append_assoc, List.cons_append, ← hbody, scanTemplatePart_again] at hpiece
      obtain ⟨hkind, hafter⟩ := Prod.mk.inj hpiece
      have hword := scansTo_word hn hends (pos + bytes (templateChars c.toList) + 2)
      have hbehind := after_scan_word hn hends (pos + bytes (templateChars c.toList) + 2)
      -- behind the brace the next piece is scanned as the first one was
      have hnext : ∀ pos, templateTokens names.length (scanTemplate false ⟨pos, '\x7d' :: body⟩) =
          (templateKinds false (cooked.map pieceValue) names,
            ⟨pos + 1 + bytes (templateBody cooked names).toList + 1, rest⟩) := by
        intro pos
        refine ih (Nat.succ.inj hlength) hlater ?_
        rw [← hbody]
        rfl
      -- the bytes of the piece, of the delimiters and of the name add up
      have hbytes : pos + bytes (templateChars c.toList) + 2 + bytes n.toList + 1 +
          bytes (templateBody cooked names).toList + 1 =
            pos + bytes (templateBody (c :: cooked) (n :: names)).toList + 1 := by
        rw [toList_templateBody_cons]
        simp only [bytes_append, bytes_cons]
        have hascii : '$'.utf8Size = 1 ∧ '\x7b'.utf8Size = 1 ∧ '\x7d'.utf8Size = 1 := by decide
        omega
      rw [List.length_cons, templateTokens]
      dsimp only
      rw [hafter, hbehind, scan_rightBrace, hkind, hword.1]
      rw [if_pos (by rfl), ← hbytes]
      dsimp only [Scanned.ofKind]
      rw [hnext]
      rfl

/-- Names are printed as they are. -/
theorem substitutions_ident (unit : String) (depth : Nat) (names : List Ident) :
    substitutions unit depth (names.map .ident) = names.map (·.name) := by
  induction names with
  | nil => rfl
  | cons i names ih => exact congrArg (i.name :: ·) ih

/-- All pieces are read back exactly if none holds a carriage return. -/
theorem map_pieceValue_eq_self_iff (cooked : List String) :
    cooked.map pieceValue = cooked ↔ ∀ c ∈ cooked, '\r' ∉ c.toList := by
  induction cooked with
  | nil => simp
  | cons c cooked ih => rw [List.map_cons, List.cons.injEq, ih, pieceValue_eq_self_iff,
      List.forall_mem_cons]

/-- The tokens of a printed template whose substitutions are names, and the place behind it: around
the names, there is a token for every piece. The values of these tokens are the printed ones if and
only if there is no carriage return in them; a carriage return comes back as a line feed, also
together with the line feed behind it. -/
theorem templateTokens_template (unit : String) (depth : Nat) (span : Span)
    {quasis : List TemplateElement} {names : List Ident}
    (hlength : quasis.length = names.length + 1) (hnames : ∀ i ∈ names, isWord i.name = true)
    (pos : Nat) (rest : List Char) :
    let text := template unit depth ⟨quasis, names.map .ident, span⟩
    let cooked := quasis.map (·.cooked)
    templateTokens names.length (scan ⟨pos, text.toList ++ rest⟩) =
        (templateKinds true (cooked.map pieceValue) (names.map (·.name)),
          ⟨pos + text.utf8ByteSize, rest⟩) ∧
      (templateKinds true (cooked.map pieceValue) (names.map (·.name)) =
          templateKinds true cooked (names.map (·.name)) ↔
        ∀ c ∈ cooked, '\r' ∉ c.toList) := by
  dsimp only
  have hcount : (quasis.map (·.cooked)).length = (names.map (·.name)).length + 1 := by
    rw [List.length_map, List.length_map, hlength]
  constructor
  · have hbody : (template unit depth ⟨quasis, names.map .ident, span⟩).toList =
        '\x60' :: ((templateBody (quasis.map (·.cooked)) (names.map (·.name))).toList ++
          ['\x60']) := by
      rw [template, substitutions_ident]
      simp only [String.toList_append, List.append_assoc]
      rfl
    have hbytes : (template unit depth ⟨quasis, names.map .ident, span⟩).utf8ByteSize =
        1 + bytes (templateBody (quasis.map (·.cooked)) (names.map (·.name))).toList + 1 := by
      rw [← bytes_toList, hbody, bytes_cons, bytes_append]
      rfl
    have hwords : ∀ n ∈ names.map (·.name), isWord n = true := List.forall_mem_map.mpr hnames
    rw [hbody, hbytes, List.cons_append, List.append_assoc, ← Nat.add_assoc, ← Nat.add_assoc,
      ← List.length_map (f := (·.name)), templateTokens_templateBody hcount hwords ?_]
    rw [List.singleton_append, scan_templatePart]
    rfl
  · -- the tokens tell the pieces, so equal tokens come from equal pieces
    have hinj : templateKinds true ((quasis.map (·.cooked)).map pieceValue) (names.map (·.name)) =
        templateKinds true (quasis.map (·.cooked)) (names.map (·.name)) ↔
          (quasis.map (·.cooked)).map pieceValue = quasis.map (·.cooked) := by
      constructor
      · exact templateKinds_inj (by rw [List.length_map, hcount]) hcount
      · exact fun heq => by rw [heq]
    rw [hinj, map_pieceValue_eq_self_iff]

/-- A piece that ends with a dollar sign in front of a substitution, and one with a line end. -/
theorem templateTokens_template_of_price :
    let at_ : Span := ⟨0, 0⟩
    let price : Template := ⟨[⟨"$", false, at_⟩, ⟨"\n\x60", true, at_⟩], [.ident ⟨"x", at_⟩], at_⟩
    [Ident.mk "x" at_].all (fun i => isWord i.name) = true ∧
      templateTokens 1 (scan ⟨0, (template "" 0 price).toList ++ [';']⟩) =
        ([.templateHead "$", .name "x", .templateTail "\n\x60"],
          ⟨(template "" 0 price).utf8ByteSize, [';']⟩) := by
  intro at_ price
  have hword : [Ident.mk "x" at_].all (fun i => isWord i.name) = true := by decide
  have hlength : price.quasis.length = [Ident.mk "x" at_].length + 1 := rfl
  obtain ⟨htokens, hvalues⟩ :=
    templateTokens_template "" 0 at_ hlength (List.all_eq_true.mp hword) 0 [';']
  have hreturns : ∀ c ∈ ["$", "\n\x60"], '\r' ∉ c.toList := by decide
  rw [hvalues.mpr hreturns, Nat.zero_add] at htokens
  exact ⟨hword, htokens⟩

end Print

end Espalier
