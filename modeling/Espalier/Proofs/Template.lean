import Espalier.Print
import Espalier.Proofs.Growth.Statement
import Espalier.Proofs.Node.Pairing

/-!
# Templates in programs

All templates of an accepted source are paired and mark their tail, since the grammar makes no other
ones (`Tree.templateGrowth`). An edit changes the texts of pieces and puts expressions in place of
others, but takes none out, so templates stay paired through any number of edits
(`Program.allPaired_of_edits`).

A template is printed piece by piece, with a substitution behind each piece as long as there is one,
so what is behind the last piece would be lost. **Main result**: `Program.templates_stay_paired`. In
an accepted program, and in all that edits make of it, all substitutions of a template are printed.
-/

namespace Espalier

open Relation (ReflTransGen)

/-! ### Templates that have been read -/

namespace Template

/-- What a reader sees of two templates tells whether they have the same pieces and equally many
substitutions. -/
theorem quasis_eq_of_tree_eq {s t : Template} (h : s.tree = t.tree) :
    s.quasis = t.quasis ∧ s.expressions.length = t.expressions.length := by
  obtain ⟨quasis, es, span⟩ := s
  obtain ⟨quasis', es', span'⟩ := t
  have hpiece : Function.Injective TemplateElement.tree := by
    rintro ⟨cooked, tail, span⟩ ⟨cooked', tail', span'⟩ h
    cases h
    rfl
  simp only [tree, exprTrees_eq_map, Tree.mk.injEq, List.cons.injEq, TreeField.list.injEq,
    true_and, and_true] at h
  refine ⟨hpiece.list_map h.2.1, ?_⟩
  simpa using congrArg List.length h.2.2

end Template

namespace Tree

/-- A node is, if it is a template, one as the grammar makes it. -/
def IsFresh (t : Tree) : Prop :=
  t.type = .templateLiteral → ∃ s : Template, s.IsPaired ∧ s.MarksTail ∧ s.tree = t

/-- A template is fresh if it has one piece more than expressions and its last piece alone is
marked. -/
theorem isFresh_template {t : Template} : t.tree.IsFresh ↔ t.IsPaired ∧ t.MarksTail := by
  constructor
  · intro h
    obtain ⟨s, hpaired, htail, htree⟩ := h (by cases t; rfl)
    obtain ⟨hquasis, hlength⟩ := Template.quasis_eq_of_tree_eq htree
    rw [Template.IsPaired, Template.MarksTail, ← hquasis, ← hlength]
    exact ⟨hpaired, htail⟩
  · rintro ⟨hpaired, htail⟩ -
    exact ⟨t, hpaired, htail, rfl⟩

/-- What is fresh everywhere is paired everywhere. -/
theorem Everywhere.allPaired {t : Tree} (h : t.Everywhere IsFresh) : t.AllPaired := by
  intro path u hu ht
  obtain ⟨s, hpaired, -, rfl⟩ := h u (reaches_of_descend? hu) ht
  exact Template.isPaired_tree.mpr hpaired ht

/-- A node that is no template adds none to those below it. -/
theorem everywhere_isFresh {t : Tree} (ht : t.type ≠ .templateLiteral)
    (h : ∀ u ∈ t.parts, u.Everywhere IsFresh) : t.Everywhere IsFresh :=
  everywhere_of_parts (fun htype => absurd htype ht) h

/-- That templates are as the grammar makes them is handed on by its readers. -/
def templateGrowth : Growth where
  Holds _ _ t := t.Everywhere IsFresh
  Stands _ _ t := t.Everywhere IsFresh
  slack := 0
  methodSlack := 0
  slack_le := Nat.le_add_left 0 1
  mono h _ := h
  widen h := h
  stands h := h
  parts h _ := h.parts
  places {_ _ type _ _} htype h := by
    refine everywhere_isFresh ?_ fun u hu => ?_
    · rintro rfl
      cases htype
    · obtain ⟨f, hf, hu⟩ := List.mem_flatMap.mp hu
      simpa using h f hf u hu
  construct htype h := by
    refine everywhere_isFresh ?_ h
    rintro rfl
    simp at htype
  template hpaired htail h := everywhere_of_parts (isFresh_template.mpr ⟨hpaired, htail⟩) h
  await _ h := everywhere_isFresh nofun (by simpa [Expr.tree, parts] using h)
  yield _ h := everywhere_isFresh nofun (by simpa [Expr.tree, parts] using h)
  returns _ h := everywhere_isFresh nofun (by simpa [Stmt.tree, parts] using h)
  forOf _ hleft hright hbody :=
    everywhere_isFresh nofun (by simp [Stmt.tree, parts, hleft, hright, hbody])
  declarator {_ _ d} _ h := by
    obtain ⟨id, init, span⟩ := d
    exact everywhere_isFresh nofun h
  handler {_ _ c} _ h := by
    obtain ⟨param, body, span⟩ := c
    cases param <;> exact everywhere_isFresh nofun h
  assign _ _ htarget hright :=
    everywhere_isFresh nofun (by simp [Expr.tree, parts, htarget, hright])
  func {_ _ f type} htype hid _ h := by
    obtain ⟨id, params, body, isAsync, isGenerator, span⟩ := f
    refine everywhere_isFresh ?_ ?_
    · rintro rfl
      simp at htype
    · simpa [parts, Func.tree] using List.forall_mem_append.mpr ⟨hid, h⟩
  arrow _ _ _ hparams hbody :=
    everywhere_isFresh nofun
      (by simpa [parts, Arrow.tree, or_imp, forall_and, hbody] using hparams)
  objectMethod {_ _ span key kind f} hkey _ h := by
    obtain ⟨id, params, body, isAsync, isGenerator, span'⟩ := f
    exact everywhere_isFresh nofun (by simpa [parts, Property.tree, Func.fields, hkey] using h)
  classMethod {_ _ span key kind isStatic f} hkey _ h := by
    obtain ⟨id, params, body, isAsync, isGenerator, span'⟩ := f
    exact everywhere_isFresh nofun (by simpa [parts, ClassMember.tree, Func.fields, hkey] using h)

end Tree

/-! ### Expressions that the parser makes -/

/-- The parser has made an expression: it is a whole source or part of one, or part of a program. -/
inductive Expr.IsParsed (e : Expr) : Prop
  | ofSource {source : String} {whole : Expr} {path : List Step}
    (h : Expr.parse source = .ok whole)
    (he : (Node.ofExpr whole).descend? path = some (.ofExpr e)) : IsParsed e
  | ofProgram {source : String} {options : ParserOptions} {p : Program} {path : List Step}
    (h : Program.parse source options = .ok p) (he : p.nodeAt? path = some (.ofExpr e)) : IsParsed e

/-- What was parsed is paired. -/
theorem Expr.IsParsed.allPaired {e : Expr} (h : e.IsParsed) : e.tree.AllPaired := by
  cases h with
  | @ofSource _ whole _ h he =>
    have hread := Node.descend?_tree (Node.isProper_ofExpr whole) he
    rw [Node.tree_ofExpr, Node.tree_ofExpr] at hread
    exact (Tree.templateGrowth.of_parse_expr h).allPaired.below hread
  | ofProgram h he =>
    have hread := Program.descend?_of_nodeAt? he
    rw [Node.tree_ofExpr] at hread
    exact (Tree.templateGrowth.of_parse h).allPaired.below hread

/-! ### Edits, one after the other -/

namespace Program

/-- A program becomes another one by an edit that succeeds. -/
inductive EditsTo (p p' : Program) : Prop
  | value {path : List Step} {field : String} {v : Scalar}
    (h : p.setScalarAt? path field v = some (.ok p'))
  | removal {path : List Step} {field : String} {i : Nat}
    (h : p.removeAt? path field i = some (.ok p'))
  | replacement {path : List Step} {e : Expr} (he : e.IsParsed)
    (h : p.replaceAt? path e = some (.ok p'))

variable {p p' : Program}

/-- Edits keep all templates paired. -/
theorem EditsTo.allPaired (h : p.EditsTo p') (hp : p.tree.AllPaired) : p'.tree.AllPaired := by
  cases h with
  | value h => exact allPaired_setScalarAt? h hp
  | removal h => exact allPaired_removeAt? h hp
  | replacement he h => exact allPaired_replaceAt? h hp he.allPaired

/-- Any number of edits leaves templates paired. -/
theorem allPaired_of_edits (h : ReflTransGen EditsTo p p') (hp : p.tree.AllPaired) :
    p'.tree.AllPaired := by
  induction h with
  | refl => exact hp
  | tail _ hedit ih => exact hedit.allPaired ih

end Program

/-! ### Printed templates -/

namespace Print

/-- The text of a piece as it is printed. -/
def pieceText (q : TemplateElement) : String := String.ofList (templateChars q.cooked.toList)

/-- A substitution as it is printed, with the piece behind it. -/
def substitutionText (unit : String) (depth : Nat) (e : Expr) (q : TemplateElement) : String :=
  "$\x7b" ++ expr unit depth 0 e ++ "\x7d" ++ pieceText q

/-- The first piece is printed and then each substitution with the piece behind it, if there are as
many. -/
theorem templateBody_eq (unit : String) (depth : Nat) (first : TemplateElement)
    {es : List Expr} {later : List TemplateElement} (h : later.length = es.length) :
    templateBody ((first :: later).map (·.cooked)) (substitutions unit depth es) =
      pieceText first ++ String.join (List.zipWith (substitutionText unit depth) es later) := by
  induction es generalizing first later with
  | nil =>
    obtain rfl := List.eq_nil_of_length_eq_zero h
    rfl
  | cons e es ih =>
    -- the substitution takes the piece behind it along
    obtain ⟨q, later, rfl⟩ := List.exists_cons_of_length_eq_add_one h
    have htail := ih q (Nat.succ.inj h)
    rw [List.map_cons] at htail
    rw [substitutions, List.map_cons, List.map_cons, templateBody, htail]
    simp [substitutionText, pieceText, String.append_assoc]

end Print

namespace Template

open Print

/-- Of a template that is paired all substitutions are printed, in their order. -/
theorem IsPaired.print_eq {t : Template} (h : t.IsPaired) :
    ∃ first later, t.quasis = first :: later ∧ later.length = t.expressions.length ∧
      ∀ unit depth, template unit depth t =
        "\x60" ++ pieceText first ++
          String.join (List.zipWith (substitutionText unit depth) t.expressions later) ++
        "\x60" := by
  obtain ⟨quasis, es, span⟩ := t
  obtain ⟨first, later, rfl⟩ := List.exists_cons_of_length_eq_add_one h
  have hlength : later.length = es.length := Nat.succ.inj h
  refine ⟨first, later, rfl, hlength, fun unit depth => ?_⟩
  rw [template, templateBody_eq unit depth first hlength, ← String.append_assoc]

end Template

/-! ### Templates before and after edits -/

namespace Node

/-- The template that a node is. -/
def template? : Node → Option Template
  | .template t => some t
  | _ => none

theorem eq_template {n : Node} {t : Template} (h : n.template? = some t) : n = .template t := by
  cases n <;> cases h
  rfl

theorem eq_of_ofExpr_eq {e : Expr} {t : Template} (h : ofExpr e = .template t) :
    e = .template t := by
  have hexpr := toExpr?_ofExpr e
  rw [h] at hexpr
  exact (Option.some.inj hexpr).symm

end Node

/-- A template to which a path leads from a node below which all is as the grammar makes it. -/
theorem Node.isPaired_marksTail_of_descend? {n : Node} (hn : n.IsProper)
    (h : n.tree.Everywhere Tree.IsFresh) {path : List Step} {t : Template}
    (ht : n.descend? path = some (.template t)) : t.IsPaired ∧ t.MarksTail :=
  Tree.isFresh_template.mp (h t.tree (Tree.reaches_of_descend? (descend?_tree hn ht)))

namespace Program

open Print

/-- **Templates stay paired.** In an accepted source, an expression or a program, each template has
one piece more than it has substitutions, and of its pieces the last one is marked as the tail and
no other one. After any number of edits of a program, of values, of lists and of nodes in place of
which expressions from the parser are put, each template still has one piece more; so all its
substitutions are printed, each in front of the piece that follows it. -/
theorem templates_stay_paired (source : String) :
    (∀ e, Expr.parse source = .ok e →
      ∀ path t, (Node.ofExpr e).descend? path = some (.template t) → t.IsPaired ∧ t.MarksTail) ∧
    ∀ options p, Program.parse source options = .ok p →
      (∀ path t, p.nodeAt? path = some (.template t) → t.IsPaired ∧ t.MarksTail) ∧
      ∀ p', ReflTransGen EditsTo p p' → ∀ path t, p'.nodeAt? path = some (.template t) →
        t.IsPaired ∧ ∃ first later, t.quasis = first :: later ∧
          later.length = t.expressions.length ∧ ∀ unit depth, template unit depth t =
            "\x60" ++ pieceText first ++
              String.join (List.zipWith (substitutionText unit depth) t.expressions later) ++
            "\x60" := by
  refine ⟨fun e he path t ht => ?_, fun options p hp => ⟨fun path t ht => ?_, ?_⟩⟩
  · -- what is parsed is fresh everywhere, edits only keep it paired
    have hfresh : (Node.ofExpr e).tree.Everywhere Tree.IsFresh := by
      rw [Node.tree_ofExpr]
      exact Tree.templateGrowth.of_parse_expr he
    exact Node.isPaired_marksTail_of_descend? (Node.isProper_ofExpr e) hfresh ht
  · have hroot : (Node.program p).IsProper := trivial
    exact Node.isPaired_marksTail_of_descend? hroot (Tree.templateGrowth.of_parse hp) ht
  · intro p' hedits path t ht
    have hall : p'.tree.AllPaired :=
      allPaired_of_edits hedits (Tree.templateGrowth.of_parse hp).allPaired
    have hpaired : t.IsPaired :=
      Template.isPaired_tree.mp (hall path t.tree (descend?_of_nodeAt? ht))
    exact ⟨hpaired, hpaired.print_eq⟩

/-- A test that an edit passes shows that it found its place and was carried out. -/
theorem exists_some_ok_of_any {ε α : Type} {x : Option (Except ε α)} {f : α → Bool}
    (h : x.any (·.toOption.any f) = true) : ∃ a, x = some (.ok a) ∧ f a = true := by
  obtain ⟨result, rfl, hresult⟩ := (Option.any_eq_true _ _).mp h
  obtain ⟨a, rfl, ha⟩ := exists_ok_of_toOption_any hresult
  exact ⟨a, rfl, ha⟩

/-- The same of a node that is a template. -/
theorem exists_template_of_any {x : Option Node} {f : Template → Bool}
    (h : (x.bind Node.template?).any f = true) : ∃ t, x = some (.template t) ∧ f t = true := by
  obtain ⟨t, ht, hf⟩ := (Option.any_eq_true _ _).mp h
  obtain ⟨n, rfl, hn⟩ := Option.bind_eq_some_iff.mp ht
  obtain rfl := Node.eq_template hn
  exact ⟨t, rfl, hf⟩

/-- The first piece of a template gets another text, the statement behind the template is taken out,
and in place of the first substitution another template is put, which has a substitution itself. -/
theorem templates_stay_paired_of_three_edits :
    ∃ p p₁ p₂ p₃ s t u,
      let outer : List Step := [⟨"body", some 0⟩, ⟨"expression", none⟩]
      Program.parse "\x60a$\x7bb\x7dc$\x7b\x60d\x60\x7df\x60; g(x)" = .ok p ∧
      p.nodeAt? outer = some (.template s) ∧ s.IsPaired ∧ s.MarksTail ∧
      Expr.parse "\x60h$\x7b1\x7d\x60" = .ok (.template u) ∧ u.IsPaired ∧ u.MarksTail ∧
      p.setScalarAt? (outer ++ [⟨"quasis", some 0⟩]) "value" (.string "z") = some (.ok p₁) ∧
      p₁.removeAt? [] "body" 1 = some (.ok p₂) ∧
      p₂.replaceAt? (outer ++ [⟨"expressions", some 0⟩]) (.template u) = some (.ok p₃) ∧
      p₃.nodeAt? outer = some (.template t) ∧ t.IsPaired ∧
      template "" 0 t = "\x60z$\x7b\x60h$\x7b1\x7d\x60\x7dc$\x7b\x60d\x60\x7df\x60" := by
  let outer : List Step := [⟨"body", some 0⟩, ⟨"expression", none⟩]
  have h : ((Program.parse "\x60a$\x7bb\x7dc$\x7b\x60d\x60\x7df\x60; g(x)").toOption.any fun p =>
      (Expr.parse "\x60h$\x7b1\x7d\x60").toOption.any fun e =>
        ((p.nodeAt? outer).bind Node.template?).any fun _ =>
          ((some (Node.ofExpr e)).bind Node.template?).any fun _ =>
            (p.setScalarAt? (outer ++ [⟨"quasis", some 0⟩]) "value" (.string "z")).any
              (·.toOption.any fun p₁ => (p₁.removeAt? [] "body" 1).any (·.toOption.any fun p₂ =>
                (p₂.replaceAt? (outer ++ [⟨"expressions", some 0⟩]) e).any (·.toOption.any fun p₃ =>
                  ((p₃.nodeAt? outer).bind Node.template?).any (template "" 0 · ==
                    "\x60z$\x7b\x60h$\x7b1\x7d\x60\x7dc$\x7b\x60d\x60\x7df\x60"))))) = true := by
    decide +kernel
  obtain ⟨p, hp, h⟩ := exists_ok_of_toOption_any h
  obtain ⟨e, he, h⟩ := exists_ok_of_toOption_any h
  obtain ⟨s, hs, h⟩ := exists_template_of_any h
  obtain ⟨u, hu, h⟩ := exists_template_of_any h
  obtain rfl : e = .template u := Node.eq_of_ofExpr_eq (Option.some.inj hu)
  obtain ⟨p₁, hset, h⟩ := exists_some_ok_of_any h
  obtain ⟨p₂, hremove, h⟩ := exists_some_ok_of_any h
  obtain ⟨p₃, hreplace, h⟩ := exists_some_ok_of_any h
  obtain ⟨t, ht, htext⟩ := exists_template_of_any h
  have hwhole : (Node.ofExpr (.template u)).descend? [] = some (.template u) := rfl
  have hparsed : (Expr.template u).IsParsed := .ofSource he hwhole
  -- a value, a removal and a replacement, one after the other
  have hedits : ReflTransGen EditsTo p p₃ :=
    .head (.value hset) (.head (.removal hremove) (.single (.replacement hparsed hreplace)))
  obtain ⟨hfresh, hedited⟩ := (templates_stay_paired _).2 _ p hp
  obtain ⟨hsPaired, hsTail⟩ := hfresh outer s hs
  obtain ⟨huPaired, huTail⟩ := (templates_stay_paired _).1 _ he [] u hwhole
  exact ⟨p, p₁, p₂, p₃, s, t, u, hp, hs, hsPaired, hsTail, he, huPaired, huTail, hset, hremove,
    hreplace, ht, (hedited p₃ hedits outer t ht).1, eq_of_beq htext⟩

end Program

end Espalier
