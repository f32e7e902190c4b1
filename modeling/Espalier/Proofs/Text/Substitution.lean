import Espalier.Script.StringCall

/-!
# What a replacement stands for

A template may refer to the match that it replaces: to its text, to the subject on either side of
it, and to the groups by their numbers. `Text.reference` tells what the rest of a template starts
with and what stands for it, and `Text.substitution` goes on behind it. Expanding a template with
two characters of lookahead gives the same (`expand_eq_substitution`), because each step does
(`expand_cons`). The digits of a reference are where the two differ in form: one looks for the
longest number of a group, the other takes two digits and gives one of them back.
-/

namespace Espalier.Text

variable {matched str : List Char} {position : Nat} {captures : List (Option (List Char))}
variable {f : Found} {c d : Char} {cs ds : List Char}

/-! ### References -/

/-- What a reference by digits stands for: the capture of that number, nothing if the capture took
no part in the match, and the reference itself if there is no such capture. -/
def captureOf (captures : List (Option (List Char))) (digits : List Char) : List Char :=
  if 1 ≤ natOfDigits digits ∧ natOfDigits digits ≤ captures.length then
    captures[natOfDigits digits - 1]?.join.getD []
  else '$' :: digits

/-- The digits of a reference are the first two, or the first alone if no second one follows or the
number of both is greater than that of the captures. -/
def referenceDigits (captures : List (Option (List Char))) (cs : List Char) : List Char :=
  let digits := (cs.take 2).takeWhile Char.isDigit
  if captures.length < natOfDigits digits ∧ digits.length = 2 then digits.take 1 else digits

/-- The reference that the rest of a template starts with, and what stands for it. Whatever is not
a reference stands for itself, one character at a time. -/
def reference (matched str : List Char) (position : Nat) (captures : List (Option (List Char)))
    (rest : List Char) : List Char × List Char :=
  if ['$', '$'] <+: rest then (['$', '$'], ['$'])
  else if ['$', '\x60'] <+: rest then (['$', '\x60'], str.take position)
  else if ['$', '&'] <+: rest then (['$', '&'], matched)
  else if ['$', '\x27'] <+: rest then
    (['$', '\x27'], str.drop (min (position + matched.length) str.length))
  else if ['$'] <+: rest ∧ referenceDigits captures (rest.drop 1) ≠ [] then
    let digits := referenceDigits captures (rest.drop 1)
    ('$' :: digits, captureOf captures digits)
  else if ['$', '<'] <+: rest then (['$', '<'], ['$', '<'])
  else (rest.take 1, rest.take 1)

/-- A template with what its references stand for, read from the start on. -/
def substitution (matched str : List Char) (position : Nat) (captures : List (Option (List Char))) :
    List Char → List Char
  | [] => []
  | c :: cs =>
    let (ref, replacement) := reference matched str position captures (c :: cs)
    replacement ++ substitution matched str position captures (cs.drop (ref.length - 1))
termination_by rest => rest.length
decreasing_by
  rw [List.length_drop, List.length_cons]
  omega

/-! ### Digits -/

/-- A digit has its distance from zero as value. -/
theorem digitValue?_of_isDigit (h : c.isDigit = true) :
    digitValue? 10 c = some (c.toNat - '0'.toNat) := by
  have hlt : c.toNat - '0'.toNat < 10 := by
    obtain ⟨-, hle⟩ := Char.isDigit_iff_toNat.mp h
    have hzero : '0'.toNat = 48 := rfl
    have hnine : '9'.toNat = 57 := rfl
    omega
  unfold digitValue?
  rw [if_pos h, Option.filter_some, if_pos (decide_eq_true hlt)]

/-- A letter is no digit of base ten. -/
theorem digitValue?_eq_none (h : ¬c.isDigit = true) : digitValue? 10 c = none := by
  have hbig (n : Nat) : (some (n + 10)).filter (· < 10) = none := by
    rw [Option.filter_some, if_neg]
    rw [decide_eq_true_eq]
    omega
  unfold digitValue?
  rw [if_neg h]
  split
  · exact hbig _
  · split
    · exact hbig _
    · rfl

/-- Groups are counted from one. -/
theorem group?_eq (f : Found) (i : Nat) :
    f.group? i =
      if 1 ≤ i ∧ i ≤ f.groups.length then some (f.groups[i - 1]?.join.getD []) else none := by
  unfold Found.group?
  by_cases hi : i = 0
  · rw [if_pos hi, if_neg (by omega)]
  · rw [if_neg hi]
    by_cases hle : i ≤ f.groups.length
    · have hlt : i - 1 < f.groups.length := by omega
      rw [if_pos ⟨by omega, hle⟩, List.getElem?_eq_getElem hlt]
      rfl
    · rw [if_neg fun h => hle h.2, List.getElem?_eq_none (by omega)]
      rfl

/-- What a group stands for, or its reference. -/
theorem captureOf_eq (f : Found) (digits : List Char) :
    captureOf f.groups digits = (f.group? (natOfDigits digits)).getD ('$' :: digits) := by
  rw [group?_eq]
  unfold captureOf
  split <;> rfl

/-! ### Steps -/

theorem referenceDigits_of_not_isDigit (h : ¬c.isDigit = true) :
    referenceDigits captures (c :: cs) = [] := by
  unfold referenceDigits
  rw [List.take_succ_cons, List.takeWhile_cons_of_neg h]
  rfl

/-- One digit is taken if no other follows. -/
theorem referenceDigits_single (hc : c.isDigit = true) (h : ∀ d ∈ cs.head?, ¬d.isDigit = true) :
    referenceDigits captures (c :: cs) = [c] := by
  have hdigits : ((c :: cs).take 2).takeWhile Char.isDigit = [c] := by
    rw [List.take_succ_cons, List.takeWhile_cons_of_pos hc]
    cases cs with
    | nil => rfl
    | cons d ds => rw [List.take_succ_cons, List.takeWhile_cons_of_neg (h d rfl)]
  unfold referenceDigits
  rw [hdigits, if_neg]
  rintro ⟨-, hlength⟩
  cases hlength

/-- Two digits are read if there are as many groups, otherwise one. -/
theorem referenceDigits_both (hc : c.isDigit = true) (hd : d.isDigit = true) (ds : List Char) :
    referenceDigits captures (c :: d :: ds) =
      if captures.length < natOfDigits [c, d] then [c] else [c, d] := by
  have hdigits : ((c :: d :: ds).take 2).takeWhile Char.isDigit = [c, d] := by
    rw [List.take_succ_cons, List.take_succ_cons, List.take_zero, List.takeWhile_cons_of_pos hc,
      List.takeWhile_cons_of_pos hd, List.takeWhile_nil]
  unfold referenceDigits
  rw [hdigits]
  simp

/-- A reference by digits. -/
theorem reference_digits (hd : d.isDigit = true) {digits : List Char}
    (hdigits : referenceDigits captures (d :: ds) = digits) (hne : digits ≠ []) :
    reference matched str position captures ('$' :: d :: ds) =
      ('$' :: digits, captureOf captures digits) := by
  have hsymbol {e : Char} (he : ¬e.isDigit = true) : ¬['$', e] <+: '$' :: d :: ds := by
    rw [List.cons_prefix_cons, List.cons_prefix_cons]
    rintro ⟨-, rfl, -⟩
    exact he hd
  unfold reference
  rw [if_neg (hsymbol (by decide)), if_neg (hsymbol (by decide)), if_neg (hsymbol (by decide)),
    if_neg (hsymbol (by decide)), List.drop_one, List.tail_cons, hdigits, if_pos]
  exact ⟨List.cons_prefix_cons.mpr ⟨rfl, List.nil_prefix⟩, hne⟩

/-- Any character but a dollar stands for itself. -/
theorem expand_of_ne (hc : c ≠ '$') (cs : List Char) : expand f (c :: cs) = c :: expand f cs := by
  rw [expand]
  · intro h
    exact absurd h hc
  · intro e es h
    exact absurd h hc

/-- A dollar stands for itself in front of no digit and no symbol. -/
theorem expand_dollar (h1 : d ≠ '$') (h2 : d ≠ '&') (h3 : d ≠ '\x60') (h4 : d ≠ '\x27')
    (hd : ¬d.isDigit = true) : expand f ('$' :: d :: ds) = '$' :: expand f (d :: ds) := by
  rw [expand]
  simp only [beq_iff_eq, h1, h2, h3, h4, if_false, digitValue?_eq_none hd]

/-- One digit is its value. -/
theorem natOfDigits_single (c : Char) : natOfDigits [c] = c.toNat - '0'.toNat := by
  show 10 * 0 + (c.toNat - '0'.toNat) = _
  omega

/-- Two digits are ten times the first and the second. -/
theorem natOfDigits_pair (c d : Char) :
    natOfDigits [c, d] = 10 * natOfDigits [c] + (d.toNat - '0'.toNat) := rfl

/-- A dollar in front of a digit. The digit behind it is taken too if there is a group of that
number. -/
theorem expand_digit (hc : c.isDigit = true) (cs : List Char) :
    expand f ('$' :: c :: cs) =
      match cs with
      | [] => captureOf f.groups [c]
      | d :: ds =>
        match (digitValue? 10 d).bind fun j => f.group? (10 * (c.toNat - '0'.toNat) + j) with
        | some text => text ++ expand f ds
        | none => captureOf f.groups [c] ++ expand f (d :: ds) := by
  have hne {e : Char} (he : ¬e.isDigit = true) : ¬(c == e) = true := by
    rw [beq_iff_eq]
    rintro rfl
    exact he hc
  -- a reference to no group stands for itself
  have hsingle (rest : List Char) :
      (match f.group? (c.toNat - '0'.toNat) with
        | some text => text ++ rest
        | none => '$' :: c :: rest) = captureOf f.groups [c] ++ rest := by
    rw [captureOf_eq, natOfDigits_single]
    cases f.group? (c.toNat - '0'.toNat) <;> rfl
  rw [expand, if_neg (hne (by decide)), if_neg (hne (by decide)), if_neg (hne (by decide)),
    if_neg (hne (by decide)), digitValue?_of_isDigit hc]
  cases cs with
  | nil => exact (hsingle []).trans (List.append_nil _)
  | cons d ds =>
    dsimp only
    cases (digitValue? 10 d).bind fun j => f.group? (10 * (c.toNat - '0'.toNat) + j) with
    | none => exact hsingle (expand f (d :: ds))
    | some text => rfl

/-- A digit that no other follows. -/
theorem expand_single (hc : c.isDigit = true) (h : ∀ d ∈ cs.head?, ¬d.isDigit = true) :
    expand f ('$' :: c :: cs) = captureOf f.groups [c] ++ expand f cs := by
  rw [expand_digit hc]
  cases cs with
  | nil => simp [expand]
  | cons d ds =>
    dsimp only
    rw [digitValue?_eq_none (h d rfl)]
    rfl

/-- Two digits are one number if there is a group of that number. -/
theorem expand_both (hc : c.isDigit = true) (hd : d.isDigit = true) (ds : List Char) :
    expand f ('$' :: c :: d :: ds) =
      match f.group? (natOfDigits [c, d]) with
      | some text => text ++ expand f ds
      | none => captureOf f.groups [c] ++ expand f (d :: ds) := by
  rw [expand_digit hc, natOfDigits_pair, natOfDigits_single]
  dsimp only
  rw [digitValue?_of_isDigit hd]
  rfl

/-- A reference whose first two characters are digits. -/
theorem expand_digits (hc : c.isDigit = true) (hd : d.isDigit = true) (ds : List Char) :
    expand f ('$' :: c :: d :: ds) =
      (reference matched str position f.groups ('$' :: c :: d :: ds)).2 ++
        expand f ((c :: d :: ds).drop
          ((reference matched str position f.groups ('$' :: c :: d :: ds)).1.length - 1)) := by
  rw [expand_both hc hd, group?_eq]
  have hdigits := @referenceDigits_both f.groups c d hc hd ds
  -- too large for two digits: one is read, and the other follows as text
  by_cases hgreater : f.groups.length < natOfDigits [c, d]
  · rw [if_pos hgreater] at hdigits
    rw [if_neg fun h => Nat.not_le_of_gt hgreater h.2,
      reference_digits hc hdigits (List.cons_ne_nil _ _)]
    rfl
  · rw [if_neg hgreater] at hdigits
    rw [reference_digits hc hdigits (List.cons_ne_nil _ _)]
    by_cases hpos : 1 ≤ natOfDigits [c, d]
    · have hgroup : 1 ≤ natOfDigits [c, d] ∧ natOfDigits [c, d] ≤ f.groups.length :=
        ⟨hpos, Nat.le_of_not_lt hgreater⟩
      simp only [captureOf, if_pos hgroup]
      rfl
    · -- both digits are zero, so that no capture is meant and both stand for themselves
      have hfirst : ¬1 ≤ natOfDigits [c] := by
        rw [natOfDigits_pair] at hpos
        omega
      have hplain : d ≠ '$' := by
        rintro rfl
        exact absurd hd (by decide)
      simp only [captureOf, if_neg fun h : 1 ≤ _ ∧ _ => hpos h.1,
        if_neg fun h : 1 ≤ _ ∧ _ => hfirst h.1, expand_of_ne hplain]
      rfl

/-- One more reference, or one more character, is expanded. -/
theorem expand_cons (hbefore : f.before = str.take position)
    (hafter : f.after = str.drop (position + f.text.length)) (c : Char) (cs : List Char) :
    expand f (c :: cs) =
      (reference f.text str position f.groups (c :: cs)).2 ++
        expand f (cs.drop ((reference f.text str position f.groups (c :: cs)).1.length - 1)) := by
  by_cases hdollar : c = '$'
  · subst hdollar
    cases cs with
    | nil => simp [reference, referenceDigits, expand]
    | cons d ds =>
      by_cases hd : d.isDigit = true
      · have hsingle (hhead : ∀ e ∈ ds.head?, ¬e.isDigit = true) :
            expand f ('$' :: d :: ds) = captureOf f.groups [d] ++ expand f ds ∧
              reference f.text str position f.groups ('$' :: d :: ds) =
                (['$', d], captureOf f.groups [d]) :=
          ⟨expand_single hd hhead,
            reference_digits hd (referenceDigits_single hd hhead) (List.cons_ne_nil _ _)⟩
        -- one digit or two
        cases ds with
        | nil =>
          have hhead : ∀ e ∈ ([] : List Char).head?, ¬e.isDigit = true := by simp
          obtain ⟨hexpand, hreference⟩ := hsingle hhead
          rw [hexpand, hreference]
          rfl
        | cons e es =>
          by_cases he : e.isDigit = true
          · exact expand_digits hd he es
          · obtain ⟨hexpand, hreference⟩ := hsingle fun x hx => Option.some.inj hx ▸ he
            rw [hexpand, hreference]
            rfl
      · by_cases h1 : d = '$'
        · simp [h1, reference, expand]
        by_cases h2 : d = '&'
        · simp [h2, reference, expand]
        by_cases h3 : d = '\x60'
        · simp [h3, reference, expand, hbefore]
        by_cases h4 : d = '\x27'
        · simp [h4, reference, expand, hafter]
        rw [expand_dollar h1 h2 h3 h4 hd]
        by_cases h5 : d = '<'
        · subst h5
          rw [expand_of_ne (by decide)]
          simp [reference, referenceDigits]
        · have hnone := @referenceDigits_of_not_isDigit f.groups d ds hd
          simp [reference, hnone, Ne.symm h1, Ne.symm h2, Ne.symm h3, Ne.symm h4, Ne.symm h5]
  · rw [expand_of_ne hdollar]
    simp [reference, Ne.symm hdollar]

/-! ### Templates -/

/-- The templates are expanded as the algorithm tells, by induction on what is left of the
template. -/
theorem expand_eq_substitution (hbefore : f.before = str.take position)
    (hafter : f.after = str.drop (position + f.text.length)) (template : List Char) :
    expand f template = substitution f.text str position f.groups template := by
  match template with
  | [] => rw [expand, substitution]
  | c :: cs =>
    rw [expand_cons hbefore hafter, substitution]
    exact congrArg (_ ++ ·) (expand_eq_substitution hbefore hafter (cs.drop _))
termination_by template.length
decreasing_by
  rw [List.length_drop, List.length_cons]
  omega

/-- A template without a dollar sign stands for itself. -/
theorem expand_plain {template : List Char} (h : '$' ∉ template) :
    expand f template = template := by
  induction template with
  | nil => rw [expand]
  | cons c cs ih =>
    rw [List.mem_cons, not_or] at h
    rw [expand_of_ne (Ne.symm h.1), ih h.2]

end Espalier.Text

namespace Espalier.Script

open Text

/-- **A replacement is the template with its references substituted**, whatever surrounds the match,
and however many groups it has. -/
theorem replacement_eq_substitution (template : String) :
    (∀ f : Found, expand f template.toList =
      substitution f.text (f.before ++ f.text ++ f.after) f.before.length f.groups
        template.toList) ∧
    ∀ (call : Caller) (subject : String) (p : Piece) (m : Machine),
      replacementOf call subject (.string template) p m =
        .ok (String.ofList
          (substitution p.text subject.toList p.start p.groups template.toList)) m := by
  constructor
  · intro f
    apply expand_eq_substitution
    · rw [List.append_assoc, List.take_left]
    · rw [← List.length_append, List.drop_left]
  · intro call subject p m
    rw [← @expand_eq_substitution subject.toList p.start
      ⟨subject.toList.take p.start, p.text, subject.toList.drop (p.start + p.text.length), p.groups⟩
      rfl rfl]
    show (if template.contains '$' then _ else _ : Script String) m = _
    -- without a dollar the template is not scanned at all
    by_cases hdollar : '$' ∈ template.toList
    · rw [if_pos (by rw [String.contains_char_eq]; exact decide_eq_true hdollar)]
      rfl
    · rw [if_neg (by rw [String.contains_char_eq, decide_eq_true_eq]; exact hdollar),
        expand_plain hdollar, String.ofList_toList]
      rfl

end Espalier.Script
