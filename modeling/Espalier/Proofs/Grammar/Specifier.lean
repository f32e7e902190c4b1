import Espalier.Proofs.Grammar.Formula
import Espalier.Proofs.Print.Quoted

/-!
# Lists of imported and exported names

`{ a, b as c } from "m"` behind `import` or `export`: names between braces, each with another name
after `as` or without one. `Program.parse_specifiers` says what is made of such a list: behind
`export` the names in their order, whatever the list, and behind `import` so too, except that the
empty list is refused, as its `from` is not looked for.
-/

namespace Espalier

open Token Parse

/-! ### Refusals -/

namespace Parse

variable {α β σ : Type} {cause : SyntaxCause} {env : Env} {st st₁ : State} {k : Kind}
  {ks : List Kind}

/-- A reader refuses what stands there, for the given reason. -/
def Refuses (cause : SyntaxCause) (p : Parse α) (env : Env) (st : State) : Prop :=
  ∃ span, p env st = .error ⟨cause, span⟩

namespace Refuses

variable {p : Parse α} {f : α → Parse β}

theorem bind (h : Refuses cause p env st) : Refuses cause (p >>= f) env st := by
  obtain ⟨span, heq⟩ := h
  refine ⟨span, ?_⟩
  have hbind : (p >>= f) env st = (p env st).bind fun x => f x.1 env x.2 := rfl
  rw [hbind, heq]
  rfl

/-- A step that goes well leaves the refusal to what follows. -/
theorem step {a : α} (h : p env st = .ok (a, st₁)) (hf : Refuses cause (f a) env st₁) :
    Refuses cause (p >>= f) env st := by
  obtain ⟨span, heq⟩ := hf
  exact ⟨span, by rw [bind_eq h, heq]⟩

/-- What is found first does not matter. -/
theorem after {P : α → State → Prop} (h : Finds False p env st P)
    (hf : ∀ a st', P a st' → Refuses cause (f a) env st') : Refuses cause (p >>= f) env st := by
  unfold Finds at h
  cases hp : p env st with
  | error e =>
    rw [hp] at h
    exact h.2.elim
  | ok x =>
    rw [hp] at h
    exact step hp (hf x.1 x.2 h)

/-- A repetition is refused with its first round. -/
theorem firstRound {round : σ → Parse (Round σ)} {s : σ} (h : Refuses cause (round s) env st) :
    Refuses cause (repeatFrom round s) env st := by
  obtain ⟨span, heq⟩ := h
  refine ⟨span, ?_⟩
  rw [repeatFrom, heq]

end Refuses

/-- A reader is run on a source that it refuses. -/
theorem run_refuses {p : Parse α} {source : String} {options : ParserOptions}
    (hscans : Scans source.toList ks)
    (hp : ∀ env st, env.options = options → Ahead env st ks → Refuses cause p env st) :
    ∃ f, p.run source options = .error f ∧ f.cause = cause := by
  obtain ⟨span, heq⟩ := hp _ _ rfl (ahead_initial hscans options)
  refine ⟨.ofSyntaxError (.ofSource source) ⟨cause, span⟩, ?_, rfl⟩
  unfold Parse.run
  dsimp only
  rw [heq]

end Parse

/-! ### How the lists are written -/

/-- A name in a list with the blanks in front of it and the name after `as`, if there is one. -/
structure SpecifierText where
  before : List Char
  name : String
  other : Option String

namespace SpecifierText

/-- The characters. -/
def text (s : SpecifierText) : List Char :=
  s.before ++ (s.name.toList ++ s.other.elim [] fun other => " as ".toList ++ other.toList)

/-- The tokens. -/
def kinds (s : SpecifierText) : List Kind :=
  wordKind s.name :: s.other.elim [] fun other => [.name "as", wordKind other]

/-- The second name: the one after `as`, or else the first one again. -/
def second (s : SpecifierText) : String := s.other.getD s.name

/-- Both names are words. -/
structure IsWritten (s : SpecifierText) : Prop where
  isBlank_before : ∀ c ∈ s.before, isBlank c = true
  name : isWord s.name = true
  other : ∀ other ∈ s.other, isWord other = true

/-- Whether a comma stands behind a name in front of the others. -/
def commaBefore (trailing : Bool) (ss : List SpecifierText) : Bool := trailing || !ss.isEmpty

/-- The characters of some names with commas between them and, if it is trailing, one behind. -/
def texts (trailing : Bool) : List SpecifierText → List Char
  | [] => []
  | s :: ss => s.text ++ ((if commaBefore trailing ss then [','] else []) ++ texts trailing ss)

/-- The tokens of some names with commas between them. -/
def allKinds (trailing : Bool) : List SpecifierText → List Kind
  | [] => []
  | s :: ss =>
    s.kinds ++ ((if commaBefore trailing ss then [.punct .comma] else []) ++ allKinds trailing ss)

/-- The list behind the first word of a declaration, with the source from which it is. -/
def declaration (trailing : Bool) (close : List Char) (ss : List SpecifierText)
    (source : String) : String :=
  String.ofList (Punct.leftBrace.text.toList ++ (texts trailing ss ++ (close ++
    Punct.rightBrace.text.toList))) ++ " from \"" ++ source ++ "\";"

variable {s : SpecifierText} {ss : List SpecifierText} {trailing : Bool} {close k : List Char}
  {ks : List Kind} {u : Kind}

theorem mindsLine_wordKind (word : String) : (wordKind word).mindsLine = false := by
  unfold wordKind
  cases Keyword.ofText? word <;> rfl

theorem isSolid_wordKind (word : String) : (wordKind word).IsSolid := by
  unfold wordKind
  cases Keyword.ofText? word <;> trivial

/-- A specifier is scanned into its words, with `as` between two of them. -/
theorem IsWritten.scans (h : s.IsWritten) (hk : EndsName k) (hscans : Scans k ks) :
    Scans (s.text ++ k) (s.kinds ++ ks) := by
  have hnames : Scans (s.name.toList ++ ((s.other.elim [] fun other =>
      " as ".toList ++ other.toList) ++ k)) (s.kinds ++ ks) := by
    unfold kinds
    cases hother : s.other with
    | none => exact .cons (scansTo_word h.name hk) hscans
    | some other =>
      have hwrites := ((writes_word (h.other other hother)).afterWord "as" (by decide)).blank
      have hwrites' := (writes_word h.name).append hwrites ⟨' ', _, rfl, by decide⟩
      have hscans' := hwrites' k ks hk hscans
      rw [List.append_assoc] at hscans'
      exact hscans'
  unfold text
  rw [List.append_assoc, List.append_assoc]
  exact hnames.whites h.isBlank_before (mindsLine_wordKind s.name)

/-- The text between the braces is scanned into the tokens of its items. -/
theorem scans_texts (trailing : Bool) (hss : ∀ s ∈ ss, s.IsWritten) (hk : EndsName k)
    (hscans : Scans k ks) :
    Scans (texts trailing ss ++ k) (allKinds trailing ss ++ ks) := by
  induction ss with
  | nil => exact hscans
  | cons s ss ih =>
    obtain ⟨hs, hss⟩ := List.forall_mem_cons.mp hss
    have hrest := ih hss
    unfold texts allKinds
    rw [List.append_assoc, List.append_assoc, List.append_assoc, List.append_assoc]
    -- a comma stands behind each item but perhaps the last
    cases hcomma : commaBefore trailing ss with
    | true =>
      have hcommaScans : Scans (',' :: (texts trailing ss ++ k))
          (.punct .comma :: (allKinds trailing ss ++ ks)) :=
        closes_whole (p := .comma) rfl _ _ hrest
      refine hs.scans ?_ hcommaScans
      rintro c ⟨⟩
      decide
    | false =>
      cases ss with
      | nil => exact hs.scans hk hrest
      | cons t ss => simp [commaBefore] at hcomma

end SpecifierText

/-! ### How the lists are read -/

namespace Grammar

open SpecifierText

variable {α : Type} {deep : Prop} {env : Env} {st : State} {k : Kind} {ks : List Kind}
  {s : SpecifierText} {ss : List SpecifierText} {trailing : Bool}

/-- One name or two, where `q` reads the second one. -/
theorem finds_specifier {q : Parse Ident} (make : Span → Ident → Ident → α)
    (hq : ∀ other ∈ s.other, ∀ st, Ahead env st (wordKind other :: k :: ks) →
      q env st = .ok (⟨other, st.current.token.span⟩, st.next))
    (hahead : Ahead env st (s.kinds ++ k :: ks)) (hk : k.isName "as" = false) :
    Finds deep (do
      let start ← start
      let first ← identifierName
      let second ← (do if ← eatName "as" then q else return first : Parse Ident)
      return make (← finish start) first second) env st fun a st' =>
        (∃ span first second, a = make span first second ∧ first.name = s.name ∧
          second.name = s.second) ∧ st' = st.past s.kinds := by
  refine .step rfl (.step hahead.identifierName (.bind ?_))
  unfold SpecifierText.kinds SpecifierText.second at *
  -- the second word is there when `as` is
  cases hother : s.other with
  | none =>
    rw [hother] at hahead
    refine .no (hahead.next.eatName_no hk) (.ret (.step rfl (.ret ⟨⟨_, _, _, rfl, rfl, rfl⟩, rfl⟩)))
  | some other =>
    rw [hother] at hahead
    have hsecond := hq other hother _ hahead.next.next
    refine .yes hahead.next.eatName (.gives hsecond ?_)
    exact .step rfl (.ret ⟨⟨_, _, _, rfl, rfl, rfl⟩, rfl⟩)

/-- Names with commas between them are read up to the brace that closes their list. -/
theorem finds_specifiers {item : Parse α} {P : SpecifierText → α → Prop}
    (hitem : ∀ s ∈ ss, ∀ st k ks, Ahead env st (s.kinds ++ k :: ks) → k.isName "as" = false →
      Finds deep item env st fun a st' => P s a ∧ st' = st.past s.kinds)
    (hahead : Ahead env st (allKinds trailing ss ++ .punct .rightBrace :: ks)) :
    Finds deep (itemsBefore .rightBrace (do return (← item, false))) env st fun as st' =>
      List.Forall₂ P ss as ∧ st' = st.past (allKinds trailing ss) := by
  have hrounds : ∀ done : List α, Finds deep (repeatFrom (fun items => do
      if ← isPunct .rightBrace then return .last items
      else
        let next ← (do return (← item, false) : Parse (α × Bool))
        if next.2 then return .last (next.1 :: items)
        else if ← eat .comma then return .again (next.1 :: items)
        else return .last (next.1 :: items)) done) env st fun items st' =>
          ∃ as, items.reverse = done.reverse ++ as ∧ List.Forall₂ P ss as ∧
            st' = st.past (allKinds trailing ss) := by
    induction ss generalizing st with
    | nil =>
      intro done
      have hclose : Ahead env st (.punct .rightBrace :: ks) := hahead
      exact .repeat (.yes (hclose.isPunct _) (.ret ⟨[], (List.append_nil _).symm, .nil, rfl⟩))
    | cons s ss ih =>
      intro done
      obtain ⟨hs, hss⟩ := List.forall_mem_cons.mp hitem
      have hword : (wordKind s.name).isPunct .rightBrace = false := by
        unfold wordKind
        cases Keyword.ofText? s.name <;> rfl
      have hfirst : Ahead env st (s.kinds ++ ((if commaBefore trailing ss then [.punct .comma]
          else []) ++ (allKinds trailing ss ++ .punct .rightBrace :: ks))) := by
        unfold allKinds at hahead
        rw [List.append_assoc, List.append_assoc] at hahead
        exact hahead
      refine .repeat (.no ((hfirst.isPunct _).trans (by rw [hword])) (.bind (.bind ?_)))
      cases hcomma : commaBefore trailing ss with
      | true =>
        rw [hcomma, if_pos rfl] at hfirst
        refine (hs st (.punct .comma) _ hfirst rfl).mono ?_
        rintro a _ ⟨ha, rfl⟩
        refine (finds_comma hfirst.past).mono ?_
        rintro _ _ ⟨rfl, rfl⟩
        have hnext : Ahead env st ((s.kinds ++ [.punct .comma]) ++
            (allKinds trailing ss ++ .punct .rightBrace :: ks)) := by
          rw [List.append_assoc]
          exact hfirst
        refine ⟨hnext.goesOn (isSolid_wordKind s.name), ?_⟩
        refine (ih hss hnext.past (a :: done)).mono ?_
        rintro items _ ⟨as, heq, has, rfl⟩
        refine ⟨a :: as, ?_, .cons ha has, ?_⟩
        · rw [heq, List.reverse_cons, List.append_assoc]
          rfl
        · rw [allKinds, hcomma, if_pos rfl, ← State.past_append, List.append_assoc]
      | false =>
        -- Only behind the last name is there no comma.
        obtain rfl : ss = [] := by
          cases ss with
          | nil => rfl
          | cons t ss => simp [commaBefore] at hcomma
        rw [hcomma, if_neg Bool.false_ne_true] at hfirst
        refine (hs st (.punct .rightBrace) ks hfirst rfl).mono ?_
        rintro a _ ⟨ha, rfl⟩
        refine (finds_comma hfirst.past).mono ?_
        rintro _ _ ⟨rfl, rfl⟩
        refine ⟨[a], List.reverse_cons, .cons ha .nil, ?_⟩
        rw [allKinds, hcomma, if_neg Bool.false_ne_true, allKinds, List.append_nil, List.append_nil]
  exact .bind ((hrounds []).mono fun items st' ⟨as, heq, has, hst⟩ => .ret ⟨by rwa [heq], hst⟩)

/-! ### The declarations -/

/-- The tokens behind the first word of a declaration. -/
def listKinds (trailing : Bool) (ss : List SpecifierText) (source : String) : List Kind :=
  .punct .leftBrace :: (allKinds trailing ss ++
    [.punct .rightBrace, .name "from", .string source, .punct .semicolon])

/-- An import binds the second name to what the first one names. -/
def Imports (s : SpecifierText) (a : ImportSpecifier) : Prop :=
  ∃ span imported binding, a = .named span imported binding ∧ imported.name = s.name ∧
    binding.name = s.second

/-- An export names the first name by the second one. -/
def Exports (s : SpecifierText) (a : ExportSpecifier) : Prop :=
  a.binding.name = s.name ∧ a.exported.name = s.second

theorem requireModule_eq (h : env.options.isModule = true) :
    requireModule env st = .ok ((), st) := by
  have heq : requireModule env st = (if env.options.isModule = true then (pure () : Parse Unit)
      else failHere .moduleOnly) env st :=
    rfl
  rw [heq, if_pos h]
  rfl

/-- An import specifier binds its second word, which is no keyword. -/
theorem finds_importSpecifier (hs : ∀ other ∈ s.other, Keyword.ofText? other = none)
    (hahead : Ahead env st (s.kinds ++ k :: ks)) (hk : k.isName "as" = false) :
    Finds deep importSpecifier env st fun a st' => Imports s a ∧ st' = st.past s.kinds := by
  refine finds_specifier ImportSpecifier.named (fun other hother st hahead => ?_) hahead hk
  rw [wordKind, hs other hother] at hahead
  exact hahead.bindingName

/-- An export specifier takes any two words. -/
theorem finds_exportSpecifier (hahead : Ahead env st (s.kinds ++ k :: ks))
    (hk : k.isName "as" = false) :
    Finds deep exportSpecifier env st fun a st' => Exports s a ∧ st' = st.past s.kinds := by
  refine (finds_specifier ExportSpecifier.mk (fun other _ st hahead => hahead.identifierName)
    hahead hk).mono ?_
  rintro _ _ ⟨⟨span, binding, exported, rfl, hbinding, hexported⟩, hst⟩
  exact ⟨⟨hbinding, hexported⟩, hst⟩

/-- The specifiers between braces, with or without a comma at the end. -/
theorem finds_importSpecifiers (hss : ∀ s ∈ ss, ∀ other ∈ s.other, Keyword.ofText? other = none)
    (hahead : Ahead env st
      (.punct .leftBrace :: (allKinds trailing ss ++ .punct .rightBrace :: ks))) :
    Finds deep importSpecifiers env st fun as st' => List.Forall₂ Imports ss as ∧
      st' = st.past (.punct .leftBrace :: (allKinds trailing ss ++ [.punct .rightBrace])) := by
  refine .step rfl ?_
  rw [hahead.kind]
  refine .step rfl (.no (hahead.eat_no rfl) (.yes (hahead.eat rfl) (.bind ?_)))
  refine (finds_specifiers (fun s hs st k ks => finds_importSpecifier (hss s hs))
    hahead.next).mono ?_
  rintro as _ ⟨has, rfl⟩
  refine .step hahead.next.past.expect (.ret ⟨has, ?_⟩)
  show _ = st.next.past _
  rw [State.past_append]
  rfl

/-- An import with one specifier or more. -/
theorem finds_importDeclaration {source : String} (hmodule : env.options.isModule = true)
    (hne : ss ≠ []) (hss : ∀ s ∈ ss, ∀ other ∈ s.other, Keyword.ofText? other = none)
    (hahead : Ahead env st (.keyword .importKw :: listKinds trailing ss source ++ ks)) :
    Finds deep importDeclaration env st fun a st' =>
      (∃ span as t, a = .importDecl span as (.string t source) ∧ List.Forall₂ Imports ss as) ∧
        st' = st.past (.keyword .importKw :: listKinds trailing ss source) := by
  have hlist : Ahead env st.next ((.punct .leftBrace :: (allKinds trailing ss ++
      [.punct .rightBrace])) ++ (.name "from" :: .string source :: .punct .semicolon :: ks)) := by
    simpa [listKinds] using hahead.next
  have hbraces : Ahead env st.next (.punct .leftBrace :: (allKinds trailing ss ++
      .punct .rightBrace :: (.name "from" :: .string source :: .punct .semicolon :: ks))) := by
    simpa using hlist
  refine .step rfl (.step (requireModule_eq hmodule) (.step hahead.expectKey (.bind ?_)))
  refine (finds_importSpecifiers hss hbraces).mono ?_
  rintro as _ ⟨has, rfl⟩
  -- `from` is asked for only when a specifier was read
  have hempty : as.isEmpty = false := by
    cases has with
    | nil => exact absurd rfl hne
    | cons _ _ => rfl
  have hfrom := hlist.past
  rw [hempty]
  refine .step hfrom.expectName (.step hfrom.next.stringLiteral ?_)
  refine .bind (.yes (hfrom.next.next.eat rfl) (.ret (.step rfl (.ret ⟨⟨_, _, _, rfl, has⟩, ?_⟩))))
  simp [listKinds, State.past]

/-- An export from a module, with any number of specifiers. -/
theorem finds_exportDeclaration {g : Grammar} {source : String}
    (hmodule : env.options.isModule = true)
    (hahead : Ahead env st (.keyword .exportKw :: listKinds trailing ss source ++ ks)) :
    Finds deep (exportDeclaration g) env st fun a st' =>
      (∃ span as t, a = .exportNamed span none as (some (.string t source)) ∧
        List.Forall₂ Exports ss as) ∧
        st' = st.past (.keyword .exportKw :: listKinds trailing ss source) := by
  have hbraces : Ahead env st.next.next (allKinds trailing ss ++
      .punct .rightBrace :: (.name "from" :: .string source :: .punct .semicolon :: ks)) := by
    simpa [listKinds] using hahead.next.next
  refine .step rfl (.step (requireModule_eq hmodule) (.step hahead.expectKey (.step rfl ?_)))
  rw [hahead.next.kind]
  refine .step rfl (.bind ?_)
  refine (finds_specifiers (fun s hs st k ks => finds_exportSpecifier) hbraces).mono ?_
  rintro as _ ⟨has, rfl⟩
  have hclose := hbraces.past
  refine .step hclose.expect (.bind (.yes hclose.next.eatName ?_))
  refine .step hclose.next.next.stringLiteral (.ret ?_)
  refine .bind (.yes (hclose.next.next.next.eat rfl) (.ret (.step rfl (.ret ?_))))
  refine ⟨⟨_, _, _, rfl, has⟩, ?_⟩
  simp [listKinds, State.past]

theorem refuses_stringLiteral {word : String} (hahead : Ahead env st (.name word :: ks)) :
    Refuses .unexpectedToken stringLiteral env st := by
  refine .step rfl ?_
  rw [hahead.kind]
  refine .step rfl ?_
  rw [hahead.kind]
  exact ⟨_, rfl⟩

/-- Behind the empty list of an import the source has to follow at once. -/
theorem refuses_importDeclaration (hmodule : env.options.isModule = true)
    (hahead : Ahead env st (.keyword .importKw :: .punct .leftBrace :: .punct .rightBrace ::
      .name "from" :: ks)) :
    Refuses .unexpectedToken importDeclaration env st := by
  have hbraces : Ahead env st.next (.punct .leftBrace ::
      (allKinds false [] ++ .punct .rightBrace :: .name "from" :: ks)) :=
    hahead.next
  have hfound : Finds False importSpecifiers env st.next fun as st' =>
      List.Forall₂ Imports [] as ∧
        st' = st.next.past [.punct .leftBrace, .punct .rightBrace] :=
    finds_importSpecifiers nofun hbraces
  refine .step rfl (.step (requireModule_eq hmodule) (.step hahead.expectKey ?_))
  refine .after hfound ?_
  rintro as _ ⟨has, rfl⟩
  cases has
  exact .bind (refuses_stringLiteral hahead.next.next.next)

/-! ### Sources -/

/-- A source is refused when its first statement is, for the same cause. -/
theorem refuses_oneStatement {cause : SyntaxCause} (hk : k.IsSolid)
    (hstatement : Refuses cause full.statement env st) (hahead : Ahead env st (k :: ks)) :
    Refuses cause statements env st := by
  refine .bind (.firstRound (.step rfl ?_))
  rw [hahead.kind, isEof_of_isSolid hk]
  exact .bind hstatement

/-- `import` before a brace is a declaration. -/
theorem anyStatement_import {g : Grammar}
    (hahead : Ahead env st (.keyword .importKw :: .punct .leftBrace :: ks)) :
    anyStatement g env st = importDeclaration env st := by
  have hnext : (scan st.current.after).token.kind = .punct .leftBrace := hahead.peek_kind
  unfold anyStatement
  rw [bind_eq (show token env st = .ok (st.current.token, st) from rfl), hahead.kind]
  dsimp only
  rw [bind_eq (show peek env st = .ok ((scan st.current.after).token, st) from rfl)]
  unfold Token.isPunct
  rw [hnext]
  rfl

theorem anyStatement_export {g : Grammar}
    (hahead : Ahead env st (.keyword .exportKw :: ks)) :
    anyStatement g env st = exportDeclaration g env st := by
  unfold anyStatement
  rw [bind_eq (show token env st = .ok (st.current.token, st) from rfl), hahead.kind]

end Grammar

namespace SpecifierText

variable {ss : List SpecifierText} {trailing : Bool} {close : List Char} {source : String}

/-- A text that may stand between double quotes as it is. -/
def IsPlain (source : String) : Prop :=
  ∀ c ∈ source.toList, c ≠ '"' ∧ c ≠ '\\' ∧ c ≠ '\n' ∧ c ≠ '\r'

/-- A plain text is scanned up to the quote that closes it. -/
theorem scanString_plain_append {cs : List Char}
    (h : ∀ c ∈ cs, c ≠ '"' ∧ c ≠ '\\' ∧ c ≠ '\n' ∧ c ≠ '\r') (acc : List Char) (pos : Nat)
    (k : List Char) : ∃ pos', scanString '"' acc pos (cs ++ '"' :: k) =
      (.string (String.ofList (acc.reverse ++ cs)), ⟨pos', k⟩) := by
  induction cs generalizing acc pos with
  | nil =>
    refine ⟨pos + 1, ?_⟩
    rw [List.nil_append, scanString, if_pos (beq_self_eq_true _), List.append_nil]
  | cons c cs ih =>
    obtain ⟨⟨hquote, hslash, hline, hreturn⟩, hcs⟩ := List.forall_mem_cons.mp h
    obtain ⟨pos', heq⟩ := ih hcs (c :: acc) (pos + c.utf8Size)
    refine ⟨pos', ?_⟩
    rw [List.cons_append, scanString_plain hquote hslash hline hreturn, heq, List.reverse_cons,
      List.append_assoc]
    rfl

/-- A plain text in quotes is one string token. -/
theorem scansTo_plain (h : IsPlain source) (k : List Char) :
    ScansTo ('"' :: (source.toList ++ '"' :: k)) (.string source) k := by
  intro pos
  obtain ⟨pos', heq⟩ := scanString_plain_append h [] (pos + 1) k
  have hkind : scanKind ⟨pos, '"' :: (source.toList ++ '"' :: k)⟩ =
      scanString '"' [] (pos + 1) (source.toList ++ '"' :: k) :=
    rfl
  rw [scan_of_scanKind (by decide) (absurd · (by decide)), hkind, heq, List.reverse_nil,
    List.nil_append, String.ofList_toList]
  exact ⟨rfl, nofun, rfl⟩

/-- What follows the first word is scanned into its tokens. -/
theorem scans_declaration (trailing : Bool) (hss : ∀ s ∈ ss, s.IsWritten)
    (hclose : ∀ c ∈ close, isBlank c = true) (hsource : IsPlain source) :
    Scans (declaration trailing close ss source).toList
      (Grammar.listKinds trailing ss source ++ [.eof]) := by
  have hend : Scans [';'] [.punct .semicolon, .eof] :=
    closes_whole (p := .semicolon) rfl _ _ scans_eof
  have hstring := (Scans.cons (scansTo_plain hsource [';']) hend).blank
  have hfrom : Scans ("from".toList ++ (' ' :: '"' :: (source.toList ++ ['"', ';'])))
      [.name "from", .string source, .punct .semicolon, .eof] := by
    have hword : isWord "from" = true := by decide
    refine .cons (scansTo_word hword ?_) hstring
    rintro c ⟨⟩
    decide
  have hbrace := closes_whole (p := .rightBrace) rfl _ _ hfrom.blank
  -- in front of the brace there is a blank or the brace itself
  have hends : EndsName (close ++ (Punct.rightBrace.text.toList ++ (' ' :: ("from".toList ++
      (' ' :: '"' :: (source.toList ++ ['"', ';'])))))) := by
    cases close with
    | nil =>
      rintro c ⟨⟩
      decide
    | cons c close =>
      rintro d ⟨⟩
      exact (continuesName_of_isBlank (hclose c List.mem_cons_self)).1
  have hlist := scans_texts trailing hss hends (hbrace.whites hclose rfl)
  have hopen := closes_whole (p := .leftBrace) rfl _ _ hlist
  simpa [declaration, Grammar.listKinds] using hopen

end SpecifierText

namespace Program

open SpecifierText

variable {ss : List SpecifierText} {trailing : Bool} {close : List Char} {source : String}
  {options : ParserOptions}

/-- A source is parsed as one statement, if a statement is found that takes all its tokens. -/
theorem parse_oneStatement {P : Stmt → Prop} {k : Kind} {us : List Kind}
    (hscans : Scans source.toList (k :: us ++ [.eof])) (hk : k.IsSolid)
    (hstatement : ∀ env st, env.options = options → Ahead env st (k :: us ++ [.eof]) →
      Finds False Grammar.full.statement env st fun a st' => P a ∧ st' = st.past (k :: us)) :
    ∃ p, Program.parse source options = .ok p ∧ ∃ a, p.body = [a] ∧ P a := by
  have hrun := run_finds_with hscans fun env st henv hahead =>
    Grammar.finds_oneStatement hk (hstatement env st henv hahead) hahead
  unfold Program.parse
  cases heq : statements.run source options with
  | error f =>
    rw [heq] at hrun
    exact hrun.2.elim
  | ok body =>
    rw [heq] at hrun
    exact ⟨_, rfl, hrun⟩

/-- An import list with at least one specifier is accepted. -/
theorem parse_import (hmodule : options.isModule = true) (hss : ∀ s ∈ ss, s.IsWritten)
    (hclose : ∀ c ∈ close, isBlank c = true) (hsource : IsPlain source)
    (hnames : ∀ s ∈ ss, Keyword.ofText? s.second = none) (hne : ss ≠ []) :
    ∃ p, Program.parse ("import " ++ declaration trailing close ss source) options = .ok p ∧
      ∃ a, p.body = [a] ∧ ∃ span as t, a = .importDecl span as (.string t source) ∧
        List.Forall₂ Grammar.Imports ss as := by
  have hword : isWord "import" = true := by decide
  have hscans := closes_word hword _ _
    (scans_declaration trailing hss hclose hsource)
  -- a second word given by `as` is the local name
  have hothers : ∀ s ∈ ss, ∀ other ∈ s.other, Keyword.ofText? other = none := by
    intro s hs other hother
    have hsecond : s.second = other := by
      unfold SpecifierText.second
      rw [hother]
      rfl
    rw [← hsecond]
    exact hnames s hs
  have hkinds : Scans ("import " ++ declaration trailing close ss source).toList
      (.keyword .importKw :: Grammar.listKinds trailing ss source ++ [.eof]) := by
    rw [String.toList_append]
    exact hscans
  refine parse_oneStatement hkinds trivial fun env st henv hahead => ?_
  have heq : Grammar.full.statement env st = Grammar.importDeclaration env st :=
    Grammar.anyStatement_import hahead
  unfold Finds
  rw [heq]
  exact Grammar.finds_importDeclaration (henv ▸ hmodule) hne hothers hahead

/-- An export list is accepted, the empty one included. -/
theorem parse_export (hmodule : options.isModule = true) (hss : ∀ s ∈ ss, s.IsWritten)
    (hclose : ∀ c ∈ close, isBlank c = true) (hsource : IsPlain source) :
    ∃ p, Program.parse ("export " ++ declaration trailing close ss source) options = .ok p ∧
      ∃ a, p.body = [a] ∧ ∃ span as t, a = .exportNamed span none as (some (.string t source)) ∧
        List.Forall₂ Grammar.Exports ss as := by
  have hword : isWord "export" = true := by decide
  have hscans := closes_word hword _ _
    (scans_declaration trailing hss hclose hsource)
  have hkinds : Scans ("export " ++ declaration trailing close ss source).toList
      (.keyword .exportKw :: Grammar.listKinds trailing ss source ++ [.eof]) := by
    rw [String.toList_append]
    exact hscans
  refine parse_oneStatement hkinds trivial fun env st henv hahead => ?_
  have heq : Grammar.full.statement env st =
      Grammar.exportDeclaration (Grammar.ofDepth 127) env st :=
    Grammar.anyStatement_export hahead
  unfold Finds
  rw [heq]
  exact Grammar.finds_exportDeclaration (henv ▸ hmodule) hahead

/-- The import list without specifiers is refused. -/
theorem parse_import_nil (hmodule : options.isModule = true)
    (hclose : ∀ c ∈ close, isBlank c = true) (hsource : IsPlain source) :
    ∃ f, Program.parse ("import " ++ declaration trailing close [] source) options = .error f ∧
      f.cause = .unexpectedToken := by
  have hword : isWord "import" = true := by decide
  have hss : ∀ s ∈ ([] : List SpecifierText), s.IsWritten := nofun
  have hscans := closes_word hword _ _
    (scans_declaration trailing hss hclose hsource)
  have hkinds : Scans ("import " ++ declaration trailing close [] source).toList
      (.keyword .importKw :: Grammar.listKinds trailing [] source ++ [.eof]) := by
    rw [String.toList_append]
    exact hscans
  -- without specifiers, `from` is taken for the module name
  have hrefuses : ∀ env st, env.options = options →
      Ahead env st (.keyword .importKw :: Grammar.listKinds trailing [] source ++ [.eof]) →
      Refuses .unexpectedToken statements env st := by
    intro env st henv hahead
    have heq : Grammar.full.statement env st = Grammar.importDeclaration env st :=
      Grammar.anyStatement_import hahead
    have hrefuses : Refuses .unexpectedToken Grammar.full.statement env st := by
      unfold Refuses
      rw [heq]
      exact Grammar.refuses_importDeclaration (henv ▸ hmodule) hahead
    exact Grammar.refuses_oneStatement (k := .keyword .importKw) trivial hrefuses hahead
  obtain ⟨f, hrun, hf⟩ := run_refuses hkinds hrefuses
  refine ⟨f, ?_, hf⟩
  unfold Program.parse
  rw [hrun]
  rfl

/-- **Lists of specifiers are parsed as they are written.** Behind `export` every list is, with or
without a comma at its end, and behind `import` every list that is not empty. An import with the
empty list is refused: no `from` is expected behind it. -/
theorem parse_specifiers (hmodule : options.isModule = true)
    (hss : ∀ s ∈ ss, s.IsWritten) (hclose : ∀ c ∈ close, isBlank c = true)
    (hsource : IsPlain source) :
    ((∀ s ∈ ss, Keyword.ofText? s.second = none) → ss ≠ [] →
      ∃ p, Program.parse ("import " ++ declaration trailing close ss source) options = .ok p ∧
        ∃ a, p.body = [a] ∧ ∃ span as t, a = .importDecl span as (.string t source) ∧
          List.Forall₂ Grammar.Imports ss as) ∧
    (∃ f, Program.parse ("import " ++ declaration trailing close [] source) options = .error f ∧
      f.cause = .unexpectedToken) ∧
    ∃ p, Program.parse ("export " ++ declaration trailing close ss source) options = .ok p ∧
      ∃ a, p.body = [a] ∧ ∃ span as t, a = .exportNamed span none as (some (.string t source)) ∧
        List.Forall₂ Grammar.Exports ss as :=
  ⟨parse_import hmodule hss hclose hsource, parse_import_nil hmodule hclose hsource,
    parse_export hmodule hss hclose hsource⟩

/-- Reserved words and the words of the syntax are names like others, except as what is bound. -/
theorem parse_specifiers_of_words :
    let ss : List SpecifierText :=
      [⟨[], "default", some "x"⟩, ⟨[' '], "as", some "as"⟩, ⟨['\n', '\t'], "from", none⟩]
    ((∀ s ∈ ss, s.IsWritten) ∧ (∀ s ∈ ss, Keyword.ofText? s.second = none) ∧ IsPlain "m") ∧
    (∃ p, Program.parse "import \x7bdefault as x, as as as,\n\tfrom,\n\x7d from \"m\";" = .ok p ∧
      ∃ a, p.body = [a] ∧ ∃ span as t, a = .importDecl span as (.string t "m") ∧
        List.Forall₂ Grammar.Imports ss as) ∧
    (∃ f, Program.parse "import \x7b\n\x7d from \"m\";" = .error f ∧ f.cause = .unexpectedToken) ∧
    ∃ p, Program.parse "export \x7bdefault as x, as as as,\n\tfrom,\n\x7d from \"m\";" = .ok p ∧
      ∃ a, p.body = [a] ∧ ∃ span as t, a = .exportNamed span none as (some (.string t "m")) ∧
        List.Forall₂ Grammar.Exports ss as := by
  intro ss
  have hss : ∀ s ∈ ss, s.IsWritten := by
    have hall : ∀ s ∈ ss, s.before.all isBlank = true ∧ isWord s.name = true ∧
        ∀ other ∈ s.other, isWord other = true := by decide +kernel
    intro s hs
    obtain ⟨hblank, hname, hother⟩ := hall s hs
    exact ⟨List.all_eq_true.mp hblank, hname, hother⟩
  have hnames : ∀ s ∈ ss, Keyword.ofText? s.second = none := by decide +kernel
  have hclose : ∀ c ∈ ['\n'], isBlank c = true := List.forall_mem_singleton.mpr rfl
  have hsource : IsPlain "m" := by
    have hchars : "m".toList = ['m'] := by decide +kernel
    unfold IsPlain
    rw [hchars]
    exact List.forall_mem_singleton.mpr (by decide)
  have htext : declaration true ['\n'] ss "m" =
      "\x7bdefault as x, as as as,\n\tfrom,\n\x7d from \"m\";" := by decide +kernel
  have hempty : declaration true ['\n'] [] "m" = "\x7b\n\x7d from \"m\";" := by decide +kernel
  obtain ⟨himport, hrefused, hexport⟩ :=
    @parse_specifiers ss true ['\n'] "m" {} rfl hss hclose hsource
  have himport' := himport hnames nofun
  rw [htext] at himport' hexport
  rw [hempty] at hrefused
  exact ⟨⟨hss, hnames, hsource⟩, himport', hrefused, hexport⟩

end Program

end Espalier
