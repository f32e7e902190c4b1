import Espalier.Caret
import Espalier.Proofs.Text.Search
import Mathlib.Data.List.TakeWhile

/-!
# The word that a caret is in

A capitalized word is made of humps: a capital letter with letters in lower case or digits after it,
one hump or more (`Caret.IsWord`). `Caret.humps` reads the longest word that a text starts with, and
`Caret.lastWord?` the last one of those that are found from left to right, each as long as it can be
and behind the one before (`Caret.Matches`). The text that is looked through starts behind the first
place where a table of visitors is opened, and ends where another one is opened.
-/

namespace Espalier

open Text

namespace Caret

/-! ### Words -/

/-- A character that goes on with a hump. -/
def goesOn (c : Char) : Bool := c.isLower || c.isDigit

/-- A capital letter, and one or more letters in lower case or digits. -/
def IsHump (cs : List Char) : Prop :=
  ∃ c ds, cs = c :: ds ∧ c.isUpper = true ∧ ds ≠ [] ∧ ∀ d ∈ ds, goesOn d = true

/-- One or more humps. -/
inductive IsWord : List Char → Prop
  | single {hump : List Char} (h : IsHump hump) : IsWord hump
  | append {hump word : List Char} (h : IsHump hump) (hword : IsWord word) : IsWord (hump ++ word)

/-- A capital does not go on with a word. -/
theorem not_goesOn_of_isUpper {c : Char} (h : c.isUpper = true) : goesOn c = false := by
  unfold Char.isUpper at h
  unfold goesOn Char.isLower Char.isDigit
  grind

/-- A word starts with a capital letter. -/
theorem IsWord.exists_cons {word : List Char} (h : IsWord word) :
    ∃ c cs, word = c :: cs ∧ c.isUpper = true := by
  cases h with
  | single h =>
    obtain ⟨c, ds, rfl, hc, -, -⟩ := h
    exact ⟨c, ds, rfl, hc⟩
  | append h =>
    obtain ⟨c, ds, rfl, hc, -, -⟩ := h
    exact ⟨c, _, rfl, hc⟩

/-- A word has at least one character. -/
theorem IsWord.ne_nil {word : List Char} (h : IsWord word) : word ≠ [] := by
  obtain ⟨c, cs, rfl, -⟩ := h.exists_cons
  exact List.cons_ne_nil c cs

/-! ### Reading a word -/

/-- A word takes all that goes on with it. -/
theorem humps_cons {c d : Char} (hc : c.isUpper = true) (hd : goesOn d = true) (ds : List Char) :
    humps (c :: d :: ds) =
      c :: (d :: ds).takeWhile goesOn ++ humps ((d :: ds).dropWhile goesOn) := by
  have hboth : (c.isUpper && (d.isLower || d.isDigit)) = true := by
    rw [Bool.and_eq_true]
    exact ⟨hc, hd⟩
  have hdrop : (d :: ds).drop ((d :: ds).takeWhile goesOn).length = (d :: ds).dropWhile goesOn := by
    calc (d :: ds).drop ((d :: ds).takeWhile goesOn).length
        = ((d :: ds).takeWhile goesOn ++ (d :: ds).dropWhile goesOn).drop
            ((d :: ds).takeWhile goesOn).length := by rw [List.takeWhile_append_dropWhile]
      _ = (d :: ds).dropWhile goesOn := List.drop_left
  rw [humps, if_pos hboth]
  exact congrArg (fun rest => c :: (d :: ds).takeWhile goesOn ++ humps rest) hdrop

/-- A hump is read whole. -/
theorem humps_hump_append {hump : List Char} (h : IsHump hump) (rest : List Char) :
    humps (hump ++ rest) = hump ++ (rest.takeWhile goesOn ++ humps (rest.dropWhile goesOn)) := by
  obtain ⟨c, ds, rfl, hc, hne, hds⟩ := h
  obtain ⟨d, ds, rfl⟩ := List.exists_cons_of_ne_nil hne
  have hd : goesOn d = true := hds d List.mem_cons_self
  rw [List.cons_append, List.cons_append, humps_cons hc hd, ← List.cons_append,
    List.takeWhile_append_of_pos hds, List.dropWhile_append_of_pos hds]
  simp only [List.cons_append, List.append_assoc]

/-- Either no hump starts the text, or one is read and then what follows it. -/
theorem humps_eq_nil_or (cs : List Char) :
    humps cs = [] ∨
      ∃ hump rest, IsHump hump ∧ cs = hump ++ rest ∧ humps cs = hump ++ humps rest := by
  cases cs with
  | nil => exact .inl (by simp [humps])
  | cons c cs =>
    cases cs with
    | nil => exact .inl (by simp [humps])
    | cons d ds =>
      by_cases hboth : (c.isUpper && (d.isLower || d.isDigit)) = true
      · obtain ⟨hc, hd⟩ : c.isUpper = true ∧ goesOn d = true := Bool.and_eq_true_iff.mp hboth
        refine .inr ⟨c :: (d :: ds).takeWhile goesOn, (d :: ds).dropWhile goesOn, ?_, ?_,
          humps_cons hc hd ds⟩
        · refine ⟨c, _, rfl, hc, ?_, fun x hx => List.mem_takeWhile_imp hx⟩
          rw [List.takeWhile_cons_of_pos hd]
          exact List.cons_ne_nil _ _
        · rw [List.cons_append, List.takeWhile_append_dropWhile]
      · exact .inl (by rw [humps, if_neg hboth])

/-- What is read is nothing or a word, and the text starts with it. -/
theorem humps_reads (cs : List Char) :
    humps cs <+: cs ∧ (humps cs = [] ∨ IsWord (humps cs)) := by
  induction hlength : cs.length using Nat.strongRecOn generalizing cs with
  | _ n ih =>
    rcases humps_eq_nil_or cs with hnil | ⟨hump, rest, hhump, rfl, heq⟩
    · rw [hnil]
      exact ⟨List.nil_prefix, .inl rfl⟩
    · have hne : 0 < hump.length := List.length_pos_of_ne_nil (IsWord.single hhump).ne_nil
      have hshorter : rest.length < n := by
        rw [← hlength, List.length_append]
        omega
      obtain ⟨hpre, hword⟩ := ih rest.length hshorter rest rfl
      rw [heq]
      refine ⟨(List.prefix_append_right_inj hump).mpr hpre, .inr ?_⟩
      rcases hword with hnil | hword
      · rw [hnil, List.append_nil]
        exact .single hhump
      · exact .append hhump hword

/-- No longer word starts the text than the one that is read. -/
theorem IsWord.isPrefix_humps {word : List Char} (h : IsWord word) (rest : List Char) :
    word <+: humps (word ++ rest) := by
  induction h with
  | single h =>
    rw [humps_hump_append h]
    exact List.prefix_append _ _
  | @append hump word h hword ih =>
    -- the next hump starts with a capital letter, so the one before ends there
    obtain ⟨c, cs, hcs, hc⟩ := hword.exists_cons
    have hstop : ¬goesOn c = true := by
      rw [not_goesOn_of_isUpper hc]
      exact Bool.false_ne_true
    have htake : (word ++ rest).takeWhile goesOn = [] := by
      rw [hcs, List.cons_append, List.takeWhile_cons_of_neg hstop]
    have hdrop : (word ++ rest).dropWhile goesOn = word ++ rest := by
      rw [hcs, List.cons_append, List.dropWhile_cons_of_neg hstop]
    rw [List.append_assoc, humps_hump_append h, htake, hdrop, List.nil_append]
    exact (List.prefix_append_right_inj hump).mpr ih

/-- Nothing is read exactly if no word starts the text. -/
theorem humps_eq_nil_iff {cs : List Char} : humps cs = [] ↔ ∀ word, IsWord word → ¬word <+: cs := by
  constructor
  · rintro hnil word hword ⟨rest, rfl⟩
    have hpre := hword.isPrefix_humps rest
    rw [hnil, List.prefix_nil] at hpre
    exact hword.ne_nil hpre
  · intro hnone
    obtain ⟨hpre, hnil | hword⟩ := humps_reads cs
    · exact hnil
    · exact absurd hpre (hnone _ hword)

/-! ### Looking for words -/

/-- The words that are found in a text from left to right: a word is looked for at the first place
where one starts, is the longest one that starts there, and the next one is looked for behind it. -/
inductive Matches : List Char → List (List Char) → Prop
  | done {cs : List Char} (hnone : ∀ w, IsWord w → ¬w <:+: cs) : Matches cs []
  | next {gap word rest : List Char} {words : List (List Char)} (hword : IsWord word)
      (hfirst : ∀ w left right, IsWord w → gap ++ (word ++ rest) = left ++ (w ++ right) →
        gap.length ≤ left.length)
      (hlongest : ∀ w, IsWord w → w <+: word ++ rest → w.length ≤ word.length)
      (more : Matches rest words) : Matches (gap ++ (word ++ rest)) (word :: words)

/-- A character where no word starts is passed over. -/
theorem Matches.skip {c : Char} {cs : List Char} {words : List (List Char)}
    (hnone : ∀ w, IsWord w → ¬w <+: c :: cs) (h : Matches cs words) : Matches (c :: cs) words := by
  cases h with
  | done hrest =>
    refine .done fun w hw hplace => ?_
    rcases List.infix_cons_iff.mp hplace with hplace | hplace
    · exact hnone w hw hplace
    · exact hrest w hw hplace
  | @next gap word rest words hword hfirst hlongest more =>
    refine @Matches.next (c :: gap) word rest words hword (fun w left right hw heq => ?_) hlongest
      more
    cases left with
    | nil =>
      have hplace : w <+: c :: (gap ++ (word ++ rest)) := ⟨right, heq.symm⟩
      exact absurd hplace (hnone w hw)
    | cons d left =>
      have hle := hfirst w left right hw (List.cons.inj heq).2
      rw [List.length_cons, List.length_cons]
      omega

/-- A text is looked through in one way. -/
theorem Matches.unique {cs : List Char} {words words' : List (List Char)} (h : Matches cs words)
    (h' : Matches cs words') : words = words' := by
  induction h generalizing words' with
  | done hnone =>
    cases h' with
    | done => rfl
    | @next gap word rest _ hword =>
      have hplace : word <:+: gap ++ (word ++ rest) := ⟨gap, rest, List.append_assoc _ _ _⟩
      exact absurd hplace (hnone word hword)
  | @next gap word rest words hword hfirst hlongest more ih =>
    generalize hcs : gap ++ (word ++ rest) = cs at h'
    cases h' with
    | done hnone =>
      have hplace : word <:+: cs := ⟨gap, rest, by rw [List.append_assoc, hcs]⟩
      exact absurd hplace (hnone word hword)
    | @next gap' word' rest' words' hword' hfirst' hlongest' more' =>
      -- both matchings take the first word, so it starts at the same place
      have hgap : gap.length = gap'.length :=
        Nat.le_antisymm (hfirst _ _ _ hword' hcs) (hfirst' _ _ _ hword hcs.symm)
      obtain ⟨-, hbehind⟩ := List.append_inj hcs hgap
      have hle : word'.length ≤ word.length :=
        hlongest word' hword' ⟨rest', hbehind.symm⟩
      have hle' : word.length ≤ word'.length :=
        hlongest' word hword ⟨rest, hbehind⟩
      obtain ⟨rfl, rfl⟩ := List.append_inj hbehind (Nat.le_antisymm hle' hle)
      rw [ih more']

/-- The last word that is found is taken, or else `last`. -/
theorem exists_matches_of_lastWord? (last : Option (List Char)) (cs : List Char) :
    ∃ words, Matches cs words ∧ lastWord? last cs = words.getLast?.or last := by
  induction last, cs using lastWord?.induct with
  | case1 last =>
    refine ⟨[], .done fun w hw hplace => hw.ne_nil (List.infix_nil.mp hplace), ?_⟩
    rw [lastWord?]
    rfl
  | case2 last c rest hnil ih =>
    obtain ⟨words, hwords, heq⟩ := ih
    refine ⟨words, hwords.skip (humps_eq_nil_iff.mp hnil), ?_⟩
    rw [lastWord?, hnil]
    exact heq
  | case3 last c rest hne ih =>
    obtain ⟨words, hwords, heq⟩ := ih
    have hscan : lastWord? last (c :: rest) = lastWord? (some (humps (c :: rest)))
        (rest.drop ((humps (c :: rest)).length - 1)) := by
      rw [lastWord?]
      split
      · next hnil => exact absurd hnil hne
      · rfl
    obtain ⟨⟨behind, hbehind⟩, hnil | hword⟩ := humps_reads (c :: rest)
    · exact absurd hnil hne
    -- behind a word the scan goes on where the word ends
    have hdrop : rest.drop ((humps (c :: rest)).length - 1) = behind := by
      obtain ⟨d, ds, hds, -⟩ := hword.exists_cons
      rw [hds, List.cons_append] at hbehind
      rw [hds, ← (List.cons.inj hbehind).2, List.length_cons, Nat.add_sub_cancel, List.drop_left]
    -- no longer word starts there, since a word takes all it can
    have hlongest : ∀ w, IsWord w → w <+: humps (c :: rest) ++ behind →
        w.length ≤ (humps (c :: rest)).length := by
      rintro w hw ⟨more, hmore⟩
      rw [hbehind] at hmore
      rw [← hmore]
      exact (hw.isPrefix_humps more).length_le
    rw [hdrop] at hwords hscan heq
    refine ⟨humps (c :: rest) :: words, ?_, ?_⟩
    · have hmatches := @Matches.next [] (humps (c :: rest)) behind words hword
        (fun _ _ _ _ _ => Nat.zero_le _) hlongest hwords
      rw [List.nil_append, hbehind] at hmatches
      exact hmatches
    · rw [hscan, heq, List.getLast?_cons]
      cases words.getLast? <;> rfl

/-- **The name that a caret is in.** There is none if no table of visitors is opened in front of the
caret. Otherwise it is the last of the words that are found, from left to right, behind the first
place where one is opened: up to the caret, or else up to where a second table is opened. -/
theorem locates_last_word (source : String) (caret : Caret) :
    let text := caret.textUntil source
    (¬visitorMarker <:+: text → locate? source caret = none) ∧
      (visitorMarker <:+: text →
        ∃ before after handlers words, Cuts visitorMarker text before after ∧
          (¬visitorMarker <:+: after → handlers = after) ∧
          (visitorMarker <:+: after → ∃ beyond, Cuts visitorMarker after handlers beyond) ∧
          Matches handlers words ∧ (∀ others, Matches handlers others → others = words) ∧
          locate? source caret = words.getLast?.map String.ofList) := by
  intro text
  constructor
  · intro hnone
    unfold locate?
    rw [cut?_eq_none_iff.mpr hnone]
    rfl
  · intro hmarker
    cases hcut : cut? visitorMarker text with
    | none => exact absurd hmarker (cut?_eq_none_iff.mp hcut)
    | some pair =>
      obtain ⟨before, after⟩ := pair
      obtain ⟨words, hwords, heq⟩ :=
        exists_matches_of_lastWord? none ((cut? visitorMarker after).elim after (·.1))
      refine ⟨before, after, _, words, cut?_eq_some_iff.mp hcut, fun hnone => ?_, fun hmore => ?_,
        hwords, fun others hothers => hothers.unique hwords, ?_⟩
      · rw [cut?_eq_none_iff.mpr hnone]
        rfl
      · -- a second marker ends the text that is looked at
        cases hnext : cut? visitorMarker after with
        | none => exact absurd hmore (cut?_eq_none_iff.mp hnext)
        | some pair => exact ⟨pair.2, cut?_eq_some_iff.mp hnext⟩
      · unfold locate?
        rw [hcut]
        show Option.map _ _ = _
        rw [heq, Option.or_none]

/-- A name behind a second table is not found. -/
example : locate? "visitor: \x7b Call() visitor: \x7b This()" ⟨1, 99⟩ = some "Call" := by
  cbv

end Caret

end Espalier
