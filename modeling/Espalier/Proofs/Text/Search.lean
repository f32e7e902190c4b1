import Espalier.Text.Find
import Espalier.Text.Match
import Mathlib.Data.List.Infix
import Mathlib.Order.Bounds.Basic

/-!
# Places of a pattern and the parts between them

Looking from a start on finds the least place of a pattern that is not in front of it
(`isLeast_of_findFrom?`), and the last place is the greatest of all (`findLastFrom?_cases`). A text
is cut where the pattern stands in it for the first time (`cut?_eq_some_iff`). The
places that do not overlap, each being the first one behind the one before, leave parts of the text
between them: `Parts` says so without searching. A text has its parts in one way, they are the gaps
between the matches (`parts_gaps`), and with the pattern between them they are the text again
(`Parts.intercalate`).
-/

namespace Espalier.Text

variable {pat cs before after : List Char} {ps : List (List Char)} {start pos i j : Nat}

/-! ### The first place -/

/-- Where the pattern stands, no later place is found. -/
theorem findFrom?_le (h : findFrom? pat pos cs = some i) (hj : pat <+: cs.drop j) :
    i ≤ pos + j := by
  -- along the text, where the first place is found first
  induction cs generalizing pos j with
  | nil =>
    rw [findFrom?] at h
    split at h
    · cases h
      exact Nat.le_add_right _ _
    · cases h
  | cons c cs ih =>
    rw [findFrom?] at h
    split at h
    · cases h
      exact Nat.le_add_right _ _
    · next hfirst =>
      cases j with
      | zero => exact absurd (List.isPrefixOf_iff_prefix.mpr hj) hfirst
      | succ j =>
        have hrest := ih h hj
        omega

/-- Nothing is found exactly if the pattern stands nowhere. -/
theorem findFrom?_eq_none_iff : findFrom? pat pos cs = none ↔ ¬pat <:+: cs := by
  induction cs generalizing pos with
  | nil =>
    rw [findFrom?, List.infix_nil]
    cases pat with
    | nil => simp
    | cons d pat => simp
  | cons c cs ih =>
    rw [findFrom?, List.infix_cons_iff, not_or, ← List.isPrefixOf_iff_prefix]
    by_cases hfirst : pat.isPrefixOf (c :: cs) = true
    · simp [hfirst]
    · rw [if_neg hfirst, ih]
      exact (and_iff_right hfirst).symm

/-- `before` and `after` lie around the first place of a pattern in a text. -/
structure Cuts (pat cs before after : List Char) : Prop where
  eq_append : cs = before ++ (pat ++ after)
  length_le : ∀ left right, cs = left ++ (pat ++ right) → before.length ≤ left.length

/-- A text is cut in one way. -/
theorem Cuts.unique {left right : List Char} (h : Cuts pat cs before after)
    (h' : Cuts pat cs left right) : before = left ∧ after = right := by
  have hlength : before.length = left.length :=
    Nat.le_antisymm (h.length_le _ _ h'.eq_append) (h'.length_le _ _ h.eq_append)
  obtain ⟨hbefore, hrest⟩ := List.append_inj (h.eq_append.symm.trans h'.eq_append) hlength
  exact ⟨hbefore, List.append_cancel_left hrest⟩

/-- A text that was cut was cut at the first place. -/
theorem cuts_of_cut? (h : cut? pat cs = some (before, after)) : Cuts pat cs before after := by
  have heq := eq_append_of_cut? h
  rw [List.append_assoc] at heq
  obtain ⟨i, hi, hpair⟩ := Option.map_eq_some_iff.mp h
  have hbefore : cs.take i = before := congrArg Prod.fst hpair
  refine ⟨heq, fun left right hleft => ?_⟩
  have hplace : pat <+: cs.drop left.length := by
    rw [hleft, List.drop_left]
    exact List.prefix_append _ _
  have hle := findFrom?_le hi hplace
  have hlength := List.length_take_le i cs
  rw [hbefore] at hlength
  omega

/-- A text is not cut exactly if the pattern occurs nowhere. -/
theorem cut?_eq_none_iff : cut? pat cs = none ↔ ¬pat <:+: cs := by
  rw [← @findFrom?_eq_none_iff pat cs 0]
  exact Option.map_eq_none_iff

/-- A text is cut at the first place of the pattern. -/
theorem cut?_eq_some_iff : cut? pat cs = some (before, after) ↔ Cuts pat cs before after := by
  constructor
  · exact cuts_of_cut?
  · intro h
    cases hfound : cut? pat cs with
    | none =>
      have hplace : pat <:+: cs := ⟨before, after, by rw [List.append_assoc, h.eq_append]⟩
      exact absurd hplace (cut?_eq_none_iff.mp hfound)
    | some pair =>
      obtain ⟨left, right⟩ := pair
      obtain ⟨rfl, rfl⟩ := h.unique (cuts_of_cut? hfound)
      rfl

/-! ### The first and the last place as slices tell them -/

/-- A pattern stands where the slice of its length is the pattern. -/
theorem slice_eq_iff : slice cs j (j + pat.length) = pat ↔ pat <+: cs.drop j := by
  unfold slice
  rw [Nat.add_sub_cancel_left, List.prefix_iff_eq_take]
  exact eq_comm

/-- What is found is the least place that is not in front of the start. -/
theorem isLeast_of_findFrom? (h : findFrom? pat start (cs.drop start) = some i) :
    IsLeast {j | start ≤ j ∧ pat <+: cs.drop j} i := by
  obtain ⟨hle, hplace⟩ := findFrom?_eq_some h
  rw [List.drop_drop, Nat.add_sub_cancel' hle] at hplace
  refine ⟨⟨hle, hplace⟩, ?_⟩
  rintro j ⟨hj, hjplace⟩
  have hrest : pat <+: (cs.drop start).drop (j - start) := by
    rwa [List.drop_drop, Nat.add_sub_cancel' hj]
  have hmin := findFrom?_le h hrest
  omega

/-- When nothing is found from a place on, there is no place behind it. -/
theorem not_prefix_of_findFrom? (h : findFrom? pat start (cs.drop start) = none) (hj : start ≤ j) :
    ¬pat <+: cs.drop j := by
  intro hplace
  have hsuffix : cs.drop j <:+ cs.drop start := by
    rw [← Nat.add_sub_cancel' hj, ← List.drop_drop]
    exact List.drop_suffix _ _
  exact findFrom?_eq_none_iff.mp h (hplace.isInfix.trans hsuffix.isInfix)

/-- The last place is the greatest one, if there is any. -/
theorem findLastFrom?_cases (pat : List Char) (pos : Nat) (last : Option Nat) (cs : List Char) :
    (∃ i, IsGreatest {j | j ≤ cs.length ∧ pat <+: cs.drop j} i ∧
        findLastFrom? pat pos last cs = some (pos + i)) ∨
      (∀ j ≤ cs.length, ¬pat <+: cs.drop j) ∧ findLastFrom? pat pos last cs = last := by
  induction cs generalizing pos last with
  | nil =>
    rw [findLastFrom?]
    cases pat with
    | nil =>
      left
      exact ⟨0, ⟨⟨Nat.le_refl _, List.nil_prefix⟩, fun j hj => hj.1⟩, rfl⟩
    | cons c pat =>
      right
      refine ⟨fun j hj hplace => ?_, rfl⟩
      rw [List.drop_nil, List.prefix_nil] at hplace
      cases hplace
  | cons c cs ih =>
    rw [findLastFrom?]
    rcases ih (pos + 1) (if pat.isPrefixOf (c :: cs) then some pos else last) with
      ⟨i, ⟨⟨hi, hplace⟩, hmax⟩, heq⟩ | ⟨hnone, heq⟩
    · -- a later place is greater than any place here
      left
      refine ⟨i + 1, ⟨⟨Nat.succ_le_succ hi, hplace⟩, ?_⟩, ?_⟩
      · rintro j ⟨hj, hjplace⟩
        cases j with
        | zero => omega
        | succ j => exact Nat.succ_le_succ (hmax ⟨Nat.le_of_succ_le_succ hj, hjplace⟩)
      · rw [heq]
        congr 1
        omega
    · by_cases hhere : pat <+: c :: cs
      · left
        refine ⟨0, ⟨⟨Nat.zero_le _, hhere⟩, ?_⟩, ?_⟩
        · rintro j ⟨hj, hjplace⟩
          cases j with
          | zero => exact Nat.le_refl _
          | succ j => exact absurd hjplace (hnone j (Nat.le_of_succ_le_succ hj))
        · rw [heq, if_pos (List.isPrefixOf_iff_prefix.mpr hhere)]
          rfl
      · right
        constructor
        · intro j hj hjplace
          cases j with
          | zero => exact hhere hjplace
          | succ j => exact hnone j (Nat.le_of_succ_le_succ hj) hjplace
        · rw [heq, if_neg fun h => hhere (List.isPrefixOf_iff_prefix.mp h)]

/-! ### Parts -/

/-- The parts of a text between the places of a pattern, each place being the first one behind the
one before. -/
inductive Parts (pat : List Char) : List Char → List (List Char) → Prop
  | last {cs : List Char} (h : ¬pat <:+: cs) : Parts pat cs [cs]
  | cut {cs before after : List Char} {ps : List (List Char)} (h : Cuts pat cs before after)
      (rest : Parts pat after ps) : Parts pat cs (before :: ps)

/-- A text that is cut holds the pattern. -/
theorem Cuts.isInfix (h : Cuts pat cs before after) : pat <:+: cs :=
  ⟨before, after, by rw [List.append_assoc, h.eq_append]⟩

/-- What follows is shorter, unless the pattern is empty. -/
theorem Cuts.length_lt (h : Cuts pat cs before after) (hpat : pat ≠ []) :
    after.length < cs.length := by
  have hpos := List.length_pos_iff.mpr hpat
  rw [h.eq_append, List.length_append, List.length_append]
  omega

/-- A text in which a pattern stands is cut at the first place. -/
theorem exists_cuts (h : pat <:+: cs) : ∃ before after, Cuts pat cs before after := by
  cases hcut : cut? pat cs with
  | none => exact absurd h (cut?_eq_none_iff.mp hcut)
  | some pair => exact ⟨pair.1, pair.2, cuts_of_cut? hcut⟩

/-- Every text has parts, by induction on its length. -/
theorem Parts.exists (hpat : pat ≠ []) (cs : List Char) : ∃ ps, Parts pat cs ps := by
  by_cases h : pat <:+: cs
  · obtain ⟨before, after, hcuts⟩ := exists_cuts h
    have hlt := hcuts.length_lt hpat
    obtain ⟨ps, hps⟩ := Parts.exists hpat after
    exact ⟨before :: ps, .cut hcuts hps⟩
  · exact ⟨[cs], .last h⟩
termination_by cs.length

/-- A text has its parts in one way. -/
theorem Parts.unique {qs : List (List Char)} (h : Parts pat cs ps) (h' : Parts pat cs qs) :
    ps = qs := by
  induction h generalizing qs with
  | last hno =>
    cases h' with
    | last => rfl
    | cut hcuts => exact absurd hcuts.isInfix hno
  | cut hcuts _ ih =>
    cases h' with
    | last hno => exact absurd hcuts.isInfix hno
    | cut hcuts' hrest =>
      obtain ⟨rfl, rfl⟩ := hcuts.unique hcuts'
      rw [ih hrest]

/-- There is always a last part. -/
theorem Parts.ne_nil (h : Parts pat cs ps) : ps ≠ [] := by
  cases h <;> exact List.cons_ne_nil _ _

/-- The parts with the pattern between them are the text. -/
theorem Parts.intercalate (h : Parts pat cs ps) : pat.intercalate ps = cs := by
  induction h with
  | last => exact List.intercalate_singleton
  | cut hcuts hrest ih =>
    rw [List.intercalate_cons_of_ne_nil hrest.ne_nil, ih, hcuts.eq_append, List.append_assoc]

/-! ### The places between parts -/

/-- The places before are put in front of the others. -/
theorem placesFrom_eq_append (pat : List Char) (pos skip : Nat) (found : List Nat)
    (cs : List Char) :
    placesFrom pat pos skip found cs = found.reverse ++ placesFrom pat pos skip [] cs := by
  induction cs generalizing pos skip found with
  | nil =>
    rw [placesFrom, placesFrom]
    split <;> simp
  | cons c cs ih =>
    cases skip with
    | succ skip => exact ih (pos + 1) skip found
    | zero =>
      rw [placesFrom, placesFrom]
      split
      · rw [ih, ih _ _ [pos], List.reverse_cons, List.append_assoc]
        rfl
      · exact ih (pos + 1) 0 found

/-- No place is looked for among the characters of the place before. -/
theorem placesFrom_skip (pat : List Char) (pos : Nat) (found : List Nat) (front cs : List Char) :
    placesFrom pat pos front.length found (front ++ cs) =
      placesFrom pat (pos + front.length) 0 found cs := by
  induction front generalizing pos with
  | nil => rfl
  | cons c front ih =>
    have hrest := ih (pos + 1)
    rw [Nat.add_assoc, Nat.add_comm 1] at hrest
    exact hrest

/-- A pattern that does not occur has no places. -/
theorem placesFrom_of_absent (h : ¬pat <:+: cs) (pos : Nat) :
    placesFrom pat pos 0 [] cs = [] := by
  induction cs generalizing pos with
  | nil =>
    have hpat : pat ≠ [] := fun hnil => h (hnil ▸ List.nil_infix)
    rw [placesFrom, if_neg fun hempty => hpat (List.isEmpty_iff.mp hempty.2)]
    rfl
  | cons c cs ih =>
    rw [List.infix_cons_iff, not_or, ← List.isPrefixOf_iff_prefix] at h
    rw [placesFrom, if_neg h.1]
    exact ih h.2 (pos + 1)

/-- The first place is where the text is cut, and the others are those of what follows it. -/
theorem placesFrom_of_cuts (hpat : pat ≠ []) (h : Cuts pat cs before after) (pos : Nat) :
    placesFrom pat pos 0 [] cs =
      (pos + before.length) :: placesFrom pat (pos + before.length + pat.length) 0 [] after := by
  obtain ⟨p, pat, rfl⟩ := List.exists_cons_of_ne_nil hpat
  induction before generalizing cs pos with
  | nil =>
    have hcs : cs = p :: (pat ++ after) := h.eq_append
    have hhere : (p :: pat).isPrefixOf cs = true :=
      List.isPrefixOf_iff_prefix.mpr ⟨after, hcs.symm⟩
    rw [hcs] at hhere ⊢
    rw [placesFrom, if_pos hhere, List.length_cons, Nat.add_sub_cancel, placesFrom_skip,
      placesFrom_eq_append, List.length_nil, Nat.add_zero, Nat.add_right_comm, Nat.add_assoc pos]
    rfl
  | cons b before ih =>
    have hcs : cs = b :: (before ++ (p :: pat ++ after)) := h.eq_append
    subst hcs
    -- a place here would be in front of the first one
    have hhere : ¬(p :: pat).isPrefixOf (b :: (before ++ (p :: pat ++ after))) = true := by
      intro hprefix
      obtain ⟨right, hright⟩ := List.isPrefixOf_iff_prefix.mp hprefix
      have hlength := h.length_le [] right hright.symm
      cases hlength
    have hrest : Cuts (p :: pat) (before ++ (p :: pat ++ after)) before after := by
      refine ⟨rfl, fun left right hleft => ?_⟩
      have hlength := h.length_le (b :: left) right (congrArg (b :: ·) hleft)
      exact Nat.le_of_succ_le_succ hlength
    have hplaces := ih (pos + 1) hrest
    have hlength : pos + 1 + before.length = pos + (b :: before).length := by
      rw [List.length_cons]
      omega
    rw [placesFrom, if_neg hhere, hplaces, hlength]

/-- The match of a pattern at a place. -/
def matchAt (pat : List Char) (i : Nat) : Match := { start := i, stop := i + pat.length }

/-- The text in front of a match becomes the gap of a piece. -/
theorem next_matchAt (pos : Nat) (before pat after : List Char) (done : List Piece) :
    Cutting.next ⟨pos, before ++ (pat ++ after), done⟩ (matchAt pat (pos + before.length)) =
      ⟨pos + before.length + pat.length, after,
        ⟨before, pos + before.length, pat, []⟩ :: done⟩ := by
  simp [Cutting.next, matchAt]

/-- The pieces of a text that has been cut up to a place. -/
theorem gaps_foldl_of_parts (hpat : pat ≠ []) (h : Parts pat cs ps) (pos : Nat)
    (done : List Piece) :
    let end_ := ((placesFrom pat pos 0 [] cs).map (matchAt pat)).foldl Cutting.next ⟨pos, cs, done⟩
    end_.done.reverse.map (·.gap) ++ [end_.rest] = done.reverse.map (·.gap) ++ ps := by
  induction h generalizing pos done with
  | last hno =>
    rw [placesFrom_of_absent hno]
    rfl
  | @cut cs before after ps hcuts _ ih =>
    -- what follows the first place is cut up with one piece more behind it
    have hrest := ih (pos + before.length + pat.length)
      (⟨before, pos + before.length, pat, []⟩ :: done)
    rw [placesFrom_of_cuts hpat hcuts, List.map_cons, List.foldl_cons]
    rw [hcuts.eq_append, next_matchAt]
    rw [List.reverse_cons, List.map_append, List.append_assoc] at hrest
    exact hrest

/-- What lies between the matches of a pattern are the parts. -/
theorem parts_gaps (hpat : pat ≠ []) (cs : List Char) :
    Parts pat cs (gaps cs (matchesOf pat cs)) := by
  obtain ⟨ps, hps⟩ := Parts.exists hpat cs
  have hgaps : gaps cs (matchesOf pat cs) = ps := gaps_foldl_of_parts hpat hps 0 []
  rw [hgaps]
  exact hps

/-- What lies around the first match of a pattern. -/
theorem gaps_first (h : Cuts pat cs before after) :
    gaps cs ((find? pat cs).map (matchAt pat)).toList = [before, after] := by
  obtain ⟨i, hi, hpair⟩ := Option.map_eq_some_iff.mp (cut?_eq_some_iff.mpr h)
  have hbefore : cs.take i = before := congrArg Prod.fst hpair
  have hplace : pat <+: cs.drop before.length := by
    rw [h.eq_append, List.drop_left]
    exact List.prefix_append _ _
  have hle := findFrom?_le hi hplace
  have hlength := List.length_take_le i cs
  rw [hbefore] at hlength
  have hstart : i = 0 + before.length := by omega
  rw [hi, hstart, Option.map_some, Option.toList_some]
  unfold gaps pieces
  rw [List.foldl_cons, List.foldl_nil]
  rw [h.eq_append, next_matchAt]
  rfl

end Espalier.Text
