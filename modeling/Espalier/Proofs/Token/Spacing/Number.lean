import Espalier.Proofs.Token.Spacing.Text

/-!
# Names and numbers with blanks behind them

Names and numbers go on for as long as they can, and no blank is a part of them. What might be the
start of an exponent or of a base is looked at three characters ahead.
-/

namespace Espalier.Token

open Text Cursor

variable {r r' : List Char}

/-! ### Names and numbers -/

/-- Blanks behind a name do not change it. -/
theorem steady_scanName : Steady Kind.IsSolid scanName :=
  have hword (cs : List Char) : Steady Kind.IsSolid fun k =>
      ((Keyword.ofText? (String.ofList cs)).elim (.name (String.ofList cs)) .keyword, k) :=
    .ret _
  .bind (steady_run separates_continuesName) hword

/-- A digit in a base is no blank. -/
theorem separates_digitValue? (radix : Nat) : Separates fun c => (digitValue? radix c).isSome := by
  constructor <;> rfl

/-- Nor a number after its radix mark. -/
theorem steady_scanRadix (radix : Nat) (mark : List Char) :
    Steady Kind.IsSolid (scanRadix radix mark) := by
  have hdigits (ds : List Char) : Steady Kind.IsSolid fun k =>
      if ds.isEmpty then (.invalid .noRadixDigit, k)
      else if k.rest.head? == some 'n' then (.bigint (String.ofList (mark ++ ds)), k.step)
      else (.number (radixValue radix ds), k) := by
    split
    · exact .ret _
    · exact .suffix ⟨by decide, by decide⟩ (.ret _) (.ret _)
  exact .bind (steady_digitRun (separates_digitValue? radix)) hdigits

/-- What follows the sign of an exponent, if it has one. -/
def afterSign : List Char → List Char
  | [] => []
  | c :: cs => if c == '+' || c == '-' then cs else c :: cs

theorem afterSign_cons (c : Char) (cs : List Char) :
    afterSign (c :: cs) = if c == '+' || c == '-' then cs else c :: cs := rfl

/-- A sign is one character at most. -/
theorem length_afterSign_le (cs : List Char) : (afterSign cs).length ≤ cs.length := by
  cases cs with
  | nil => exact Nat.le_refl _
  | cons c cs =>
    rw [afterSign_cons]
    split
    · exact Nat.le_succ _
    · exact Nat.le_refl _

/-- An exponent is its sign and a run of digits, or it is none. -/
theorem scanExponent_eq {d : Char} (hd : d = 'e' ∨ d = 'E') (pos : Nat) (cs : List Char) :
    ∃ first, scanExponent ⟨pos, d :: cs⟩ =
      if (digitRun Char.isDigit [] first (afterSign cs)).1.isEmpty then (0, ⟨pos, d :: cs⟩)
      else
        (if cs.head? == some '-' then
            -(natOfDigits (digitRun Char.isDigit [] first (afterSign cs)).1 : Int)
          else natOfDigits (digitRun Char.isDigit [] first (afterSign cs)).1,
          (digitRun Char.isDigit [] first (afterSign cs)).2) := by
  have hd : (d != 'e' && d != 'E') = false := by rcases hd with rfl | rfl <;> rfl
  unfold scanExponent
  dsimp only
  rw [hd, if_neg Bool.false_ne_true]
  -- with either sign the digits start one place further
  split
  · exact ⟨pos + 2, rfl⟩
  · exact ⟨pos + 2, rfl⟩
  · next hplus hminus =>
    cases cs with
    | nil => exact ⟨pos + 1, rfl⟩
    | cons c cs =>
      have hplus : c ≠ '+' := fun h => hplus cs (congrArg (· :: cs) h)
      have hminus : c ≠ '-' := fun h => hminus cs (congrArg (· :: cs) h)
      have hsign : afterSign (c :: cs) = c :: cs := by simp [afterSign, hplus, hminus]
      have hhead : ((c :: cs).head? == some '-') = false := by simp [hminus]
      rw [hsign, hhead]
      exact ⟨pos + 1, rfl⟩

/-- The digits that have been read are not forgotten. -/
theorem length_digitRun (p : Char → Bool) (acc : List Char) (pos : Nat) (cs : List Char) :
    acc.length ≤ (digitRun p acc pos cs).1.length := by
  fun_induction digitRun p acc pos cs with
  | case1 => exact Nat.le_of_eq (List.length_reverse).symm
  | case2 acc pos c cs hc ih => exact Nat.le_of_succ_le ih
  | case3 acc pos c cs hc hjoin ih => exact ih
  | case4 => exact Nat.le_of_eq (List.length_reverse).symm

/-- A run of digits is empty only where none starts. -/
theorem head?_of_isEmpty {p : Char → Bool} {pos : Nat} {cs : List Char}
    (h : (digitRun p [] pos cs).1.isEmpty = true) :
    cs.head?.any p = false ∧ joinsDigits p cs = false := by
  -- a first digit is part of every run
  have hstarts {c : Char} {ds : List Char} {at_ : Nat} (hc : p c = true) :
      (digitRun p [] at_ (c :: ds)).1.isEmpty = false := by
    have hlength := length_digitRun p [c] (at_ + c.utf8Size) ds
    rw [digitRun, if_pos hc]
    exact List.isEmpty_eq_false_iff.mpr (List.length_pos_iff.mp hlength)
  cases cs with
  | nil => exact ⟨rfl, rfl⟩
  | cons c cs =>
    have hc : p c = false := by
      refine (Bool.not_eq_true _).mp fun hc => ?_
      rw [hstarts hc] at h
      cases h
    refine ⟨hc, (Bool.not_eq_true _).mp fun hjoin => ?_⟩
    have hjoin : (c == '_' && cs.head?.any p) = true := hjoin
    obtain ⟨d, hhead, hd⟩ := (Option.any_eq_true _ _).mp ((Bool.and_eq_true _ _).mp hjoin).2
    obtain ⟨ds, rfl⟩ := List.head?_eq_some_iff.mp hhead
    rw [digitRun, hc, if_neg Bool.false_ne_true, if_pos hjoin, hstarts hd] at h
    cases h

/-- No exponent starts here. -/
def NoExponent (cs : List Char) : Prop :=
  ∀ c ∈ cs.head?, c = 'e' ∨ c = 'E' →
    (afterSign cs.tail).head?.any Char.isDigit = false ∧
      joinsDigits Char.isDigit (afterSign cs.tail) = false

/-- Blanks do not make an exponent where there was none. -/
theorem NoExponent.respaced (h : NoExponent r) (hr : Respaced r r') : NoExponent r' := by
  cases hr with
  | same => exact h
  | blank hc =>
    rintro d ⟨⟩ hd
    rcases hc with rfl | rfl <;> rcases hd with hd | hd <;> cases hd
  | @cons c cs ds hr =>
    rintro d ⟨⟩ hd
    have hno := h c rfl hd
    dsimp only [List.tail_cons] at hno ⊢
    have hsign : Respaced (afterSign cs) (afterSign ds) := by
      cases hr with
      | same => exact .same _
      | blank hc => rcases hc with rfl | rfl <;> exact .blank (by decide) _ _
      | cons d hr =>
        rw [afterSign_cons, afterSign_cons]
        split
        · exact hr
        · exact .cons d hr
    exact ⟨hsign.any_head? separates_isDigit hno.1, hsign.joinsDigits separates_isDigit hno.2⟩

/-- Without an exponent the number ends where it stands. -/
theorem scanExponent_of_noExponent {cs : List Char} (h : NoExponent cs) (pos : Nat) :
    scanExponent ⟨pos, cs⟩ = (0, ⟨pos, cs⟩) := by
  cases cs with
  | nil => rfl
  | cons c cs =>
    by_cases hc : c = 'e' ∨ c = 'E'
    · obtain ⟨first, heq⟩ := scanExponent_eq hc pos cs
      have hno := h c rfl hc
      rw [List.tail_cons] at hno
      rw [heq, digitRun_of_head? hno.1 hno.2]
      rfl
    · have hc : (c != 'e' && c != 'E') = true := by simpa [not_or] using hc
      unfold scanExponent
      dsimp only
      rw [if_pos hc]

/-- An exponent that is not read is none. -/
theorem noExponent_of_rest {pos : Nat} {cs : List Char} (h : (scanExponent ⟨pos, cs⟩).2.rest = cs) :
    NoExponent cs := by
  intro c hhead hc
  obtain ⟨ds, rfl⟩ := List.head?_eq_some_iff.mp hhead
  obtain ⟨first, heq⟩ := scanExponent_eq hc pos ds
  rw [heq] at h
  split at h
  · next hempty => exact head?_of_isEmpty hempty
  · obtain ⟨t, ht⟩ := append_of_reaches (reaches_digitRun _ _ _ _) h
    have hlength := congrArg List.length ht
    have hle := length_afterSign_le ds
    rw [List.length_append, List.length_cons] at hlength
    omega

/-- The first character of an exponent may stand there without one. -/
theorem steady_scanExponent : Steady (fun _ => True) scanExponent where
  reaches := reaches_scanExponent
  agrees {r r'} hr text pos pos' _ := by
    intro hrest
    cases text with
    | nil =>
      rw [List.nil_append] at hrest ⊢
      have hno := noExponent_of_rest hrest
      rw [List.nil_append, scanExponent_of_noExponent hno,
        scanExponent_of_noExponent (hno.respaced hr)]
      exact ⟨rfl, rfl⟩
    | cons c text =>
      have hc : c = 'e' ∨ c = 'E' := by
        refine Decidable.byContradiction fun hc => ?_
        have hno : NoExponent (c :: text ++ r) := by
          rintro d ⟨⟩ hd
          exact absurd hd hc
        rw [scanExponent_of_noExponent hno] at hrest
        exact cons_append_ne c text hrest
      rw [List.cons_append] at hrest ⊢
      rw [List.cons_append]
      obtain ⟨first, heq⟩ := scanExponent_eq hc pos (text ++ r)
      obtain ⟨first', heq'⟩ := scanExponent_eq hc pos' (text ++ r')
      rw [heq] at hrest ⊢
      rw [heq']
      split at hrest
      · exact absurd hrest (cons_append_ne c text)
      · next hempty =>
        obtain ⟨more, hmore⟩ := append_of_reaches (reaches_digitRun _ _ _ _) hrest
        obtain ⟨hsign, hhead⟩ : afterSign (text ++ r') = more ++ r' ∧
            (text ++ r').head? = (text ++ r).head? := by
          cases text with
          | nil =>
            -- the digits would be part of what is left
            rw [List.nil_append] at hmore hempty hrest
            have hlength := congrArg List.length hmore
            have hle := length_afterSign_le r
            rw [List.length_append] at hlength
            have hnil : more = [] := List.length_eq_zero_iff.mp (by omega)
            rw [hmore, hnil, List.nil_append] at hempty hrest
            obtain ⟨hstop, hjoin⟩ := head?_of_digitRun hrest
            rw [digitRun_of_head? hstop hjoin] at hempty
            exact absurd rfl hempty
          | cons d text =>
            refine ⟨?_, rfl⟩
            rw [List.cons_append, afterSign_cons] at hmore ⊢
            split at hmore
            · next hsign =>
              rw [if_pos hsign, List.append_cancel_right hmore]
            · next hsign =>
              rw [if_neg hsign, ← @List.append_cancel_right _ (d :: text) _ _ hmore]
              rfl
        rw [hmore] at hempty hrest ⊢
        obtain ⟨hdigits, hafter⟩ := agrees_digitRun separates_isDigit hr more [] first first' hrest
        rw [hsign, hhead, hdigits, if_neg hempty, if_neg hempty]
        exact ⟨rfl, hafter⟩

/-- The point of a fraction and its digits, or nothing. -/
theorem steady_fraction : Steady (fun _ => True) fun k : Cursor =>
    match k.rest with
    | '.' :: cs => digitRun Char.isDigit [] (k.pos + 1) cs
    | _ => ([], k) := by
  -- the match is brought to the form of a test on the next character
  have heq (k : Cursor) :
      (match k.rest with
        | '.' :: cs => digitRun Char.isDigit [] (k.pos + 1) cs
        | _ => ([], k)) =
      if k.rest.head? == some '.' then digitRun Char.isDigit [] k.step.pos k.step.rest
      else ([], k) := by
    split
    · next cs heq =>
      rw [Cursor.step, heq]
      rfl
    · next hno =>
      rw [if_neg]
      intro h
      obtain ⟨cs, hcs⟩ := List.head?_eq_some_iff.mp (eq_of_beq h)
      exact hno cs hcs
  rw [funext heq]
  exact .suffix ⟨by decide, by decide⟩ (steady_digitRun separates_isDigit) (.ret [])

/-- The end of a number, behind which no name may start. -/
theorem steady_numberEnd (value : Float) : Steady Kind.IsSolid fun k : Cursor =>
    match k.rest with
    | c :: _ =>
      if c.isAlpha || c == '_' || c == '$' then (.invalid .nameAfterNumber, k.step)
      else (.number value, k)
    | [] => (.number value, k) := by
  have heq (k : Cursor) :
      (match k.rest with
        | c :: _ =>
          if c.isAlpha || c == '_' || c == '$' then (Kind.invalid .nameAfterNumber, k.step)
          else (.number value, k)
        | [] => (.number value, k)) =
      if k.rest.head?.any fun c => c.isAlpha || c == '_' || c == '$' then
        (.invalid .nameAfterNumber, k.step)
      else (.number value, k) := by
    cases k.rest <;> rfl
  rw [funext heq]
  exact .spoiled ⟨by decide, by decide⟩ _ _ id

/-- A decimal number is steady part by part. -/
theorem steady_scanNumber : Steady Kind.IsSolid scanNumber := by
  have hbigint (digits : String) : Steady Kind.IsSolid fun k => (.bigint digits, k) := .ret _
  exact .bind (steady_digitRun separates_isDigit) fun whole =>
    .suffix (d := 'n') ⟨by decide, by decide⟩ (hbigint (String.ofList whole))
      (.bind steady_fraction fun fraction => .bind steady_scanExponent fun exponent =>
        steady_numberEnd (Number.Numeral.value false ⟨whole, fraction, exponent⟩))

/-- The base that a number announces. -/
def announced? : List Char → Option Nat
  | [] => none
  | c :: cs => if c == '0' then cs.head?.bind radixOf? else none

theorem announced?_cons (c : Char) (cs : List Char) :
    announced? (c :: cs) = if c == '0' then cs.head?.bind radixOf? else none := rfl

/-- An announced radix is read behind its two characters. -/
theorem scanNumeral_of_announced {radix : Nat} {cs : List Char} (h : announced? cs = some radix)
    (pos : Nat) : ∃ c ds, cs = '0' :: c :: ds ∧
      scanNumeral ⟨pos, cs⟩ = scanRadix radix ['0', c] ⟨pos + 2, ds⟩ := by
  unfold announced? at h
  split at h
  · cases h
  · next d cs =>
    split at h
    · next hzero =>
      obtain rfl : d = '0' := eq_of_beq hzero
      obtain ⟨c, hc, hradix⟩ := Option.bind_eq_some_iff.mp h
      obtain ⟨ds, rfl⟩ := List.head?_eq_some_iff.mp hc
      refine ⟨c, ds, rfl, ?_⟩
      unfold scanNumeral
      dsimp only
      split
      · next heq =>
        cases heq
        rw [hradix]
      · next hno => exact (hno c ds rfl).elim
    · cases h

/-- Every other numeral is a decimal number. -/
theorem scanNumeral_of_none {cs : List Char} (h : announced? cs = none) (pos : Nat) :
    scanNumeral ⟨pos, cs⟩ = scanNumber ⟨pos, cs⟩ := by
  unfold scanNumeral
  dsimp only
  split
  · rw [show radixOf? _ = none from h]
  · rfl

/-- Blanks announce no radix. -/
theorem announced?_respaced (hr : Respaced r r') (h : announced? r = none) :
    announced? r' = none := by
  cases hr with
  | same => exact h
  | blank hc => rcases hc with rfl | rfl <;> rfl
  | @cons c cs ds hr =>
    rw [announced?_cons] at h ⊢
    split at h
    · next hzero =>
      rw [if_pos hzero]
      rcases hr.head? with heq | heq | heq <;> rw [heq]
      · exact h
      · rfl
      · rfl
    · next hzero => rw [if_neg hzero]

/-- Blanks behind a numeral do not change it. -/
theorem agrees_scanNumeral (hr : Respaced r r') (text : List Char) (pos pos' : Nat)
    (hk : (scanNumeral ⟨pos, text ++ r⟩).1.IsSolid) :
    Agrees r r' (scanNumeral ⟨pos, text ++ r⟩) (scanNumeral ⟨pos', text ++ r'⟩) := by
  intro hrest
  cases hradix : announced? (text ++ r) with
  | none =>
    rw [scanNumeral_of_none hradix] at hk hrest ⊢
    have hradix' : announced? (text ++ r') = none :=
      announced?_respaced (hr.append text) hradix
    rw [scanNumeral_of_none hradix']
    exact steady_scanNumber.agrees hr text pos pos' hk hrest
  | some radix =>
    obtain ⟨c, ds, hcs, heq⟩ := scanNumeral_of_announced hradix pos
    rw [heq] at hk hrest ⊢
    obtain ⟨t, rfl⟩ := append_of_reaches (reaches_scanRadix _ _ _) hrest
    obtain rfl : text = '0' :: c :: t :=
      List.append_cancel_right (show text ++ r = '0' :: c :: t ++ r from hcs)
    have hradix' : announced? ('0' :: c :: t ++ r') = some radix := hradix
    obtain ⟨c', ds', hcs', heq'⟩ := scanNumeral_of_announced hradix' pos'
    cases hcs'
    rw [heq']
    exact (steady_scanRadix radix ['0', c]).agrees hr t (pos + 2) (pos' + 2) hk hrest

/-- A number that starts with its point. -/
theorem agrees_scanFraction (hr : Respaced r r') (text : List Char) (pos pos' : Nat) :
    Agrees r r' (scanFraction ⟨pos, '.' :: (text ++ r)⟩)
      (scanFraction ⟨pos', '.' :: (text ++ r')⟩) := by
  intro hrest
  obtain ⟨hdigits, hafter⟩ := agrees_digitRun separates_isDigit hr text []
    (step ⟨pos, '.' :: (text ++ r)⟩).pos (step ⟨pos', '.' :: (text ++ r')⟩).pos hrest
  refine ⟨?_, hafter⟩
  unfold scanFraction
  dsimp only
  rw [step_cons, step_cons] at hdigits ⊢
  rw [hdigits]

end Espalier.Token
