import Espalier.Proofs.Grammar.Span
import Espalier.Proofs.Node.Walk
import Mathlib.Data.List.Pairwise

/-!
# What is highlighted

The ranges of the nodes that a key asks for come in the order of their starts, and those with the
same start in the order of the walk. Nothing is left out but nodes of which the span does not fit
the source, and these are counted. Nothing at all is left out in a program as it was parsed.
-/

namespace Espalier

/-! ### Sorting -/

/-- Sorting leaves the order of elements as it is that are all as great as each other. -/
theorem filter_mergeSort {α : Type} {le : α → α → Bool}
    (trans : ∀ a b c, le a b = true → le b c = true → le a c = true)
    (total : ∀ a b, (le a b || le b a) = true) {p : α → Bool}
    (hp : ∀ a b, p a = true → p b = true → le a b = true) (as : List α) :
    (as.mergeSort le).filter p = as.filter p := by
  have hequal : (as.filter p).Pairwise (le · ·) :=
    List.pairwise_of_forall_mem_list fun a ha b hb =>
      hp a b (List.mem_filter.mp ha).2 (List.mem_filter.mp hb).2
  -- they are sorted as they stand, and sorting keeps such a sublist
  have hsub := (List.sublist_mergeSort trans total hequal List.filter_sublist).filter p
  rw [List.filter_filter] at hsub
  simp only [Bool.and_self] at hsub
  exact (hsub.eq_of_length ((List.mergeSort_perm as le).filter p).length_eq.symm).symm

/-- Of two positions one is not behind the other, so sorting by position is total. -/
theorem Position.le_total (p q : Position) : (p.le q || q.le p) = true := by
  rw [Bool.or_eq_true, le_iff, le_iff]
  omega

/-! ### The nodes of a walk -/

/-- The nodes of a program that a key asks for, in the order of the walk. -/
def VisitorKey.nodes (key : VisitorKey) (p : Program) : List Tree :=
  p.tree.preorder.filter (key.covers ·.type)

/-- Both ends of a span are borders of characters of a source, in the right order. -/
structure Span.FitsIn (s : Span) (source : String) : Prop where
  start_le : s.start ≤ s.stop
  isValid_start : String.Pos.Raw.IsValid source ⟨s.start⟩
  isValid_stop : String.Pos.Raw.IsValid source ⟨s.stop⟩

/-- A span has a range exactly if it fits into the source. -/
theorem LineIndex.isSome_range?_iff_fitsIn {source : String} {s : Span} :
    ((ofSource source).range? s).isSome ↔ s.FitsIn source := by
  rw [isSome_range?_iff, isBorder_toList_iff, isBorder_toList_iff]
  exact ⟨fun ⟨hle, hstart, hstop⟩ => ⟨hle, hstart, hstop⟩,
    fun ⟨hle, hstart, hstop⟩ => ⟨hle, hstart, hstop⟩⟩

/-- Every node of a program as it was parsed has a range. -/
theorem SyntaxTree.exists_range? {source : String} (hsmall : IsAddressable source)
    {options : ParserOptions} {ast : SyntaxTree}
    (h : SyntaxTree.parse source options = .ok ast) :
    ∀ t ∈ ast.program.tree.preorder, ∃ r, ast.index.range? t.span = some r ∧ r.IsStored := by
  unfold SyntaxTree.parse at h
  cases hp : Program.parse source options with
  | error e =>
    rw [hp] at h
    cases h
  | ok p =>
    rw [hp] at h
    cases h
    intro t ht
    have hn := (Program.nests_of_parse hp).2.of_reaches (Tree.mem_preorder_iff.mp ht)
    obtain ⟨r, hr⟩ := Option.isSome_iff_exists.mp
      (LineIndex.isSome_range? hn.isBorder_start hn.isBorder_stop hn.start_le)
    exact ⟨r, hr, LineIndex.isStored_of_range? hsmall hr⟩

namespace Highlight

variable (ast : SyntaxTree) (key : VisitorKey)

/-- The ranges are those of the nodes of the type, sorted by where they start. -/
theorem ranges_ofKey :
    (ofKey ast key).ranges =
      ((key.nodes ast.program).filterMap (ast.index.range? ·.span)).mergeSort
        fun r s => r.first.le s.first := by
  unfold ofKey
  dsimp only
  rw [List.filterMap_map]
  rfl

/-- The nodes counted as skipped are those without a range. -/
theorem skipped_ofKey :
    (ofKey ast key).skipped =
      (key.nodes ast.program).countP fun t => (ast.index.range? t.span).isNone :=
  List.countP_map

end Highlight

end Espalier
