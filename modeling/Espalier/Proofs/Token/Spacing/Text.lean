import Espalier.Proofs.Token.Sequence
import Mathlib.Order.Monotone.Basic

/-!
# Texts that differ in blanks

A text is `Respaced` if a blank is put into it somewhere, and whatever else behind that. Scanners
look at characters behind what they read, to know where to stop; but they stop at blanks too, so
they read the same in front of a respaced text (`Agrees`). Scanners of which this holds wherever
they stop (`Steady`) can be put in a row.

A `Spacing` says which blanks are put in, at any number of places of a text.
-/

namespace Espalier.Token

open Text Cursor

/-! ### Texts that start alike -/

/-- Two texts are the same up to some place, and then the second one goes on as the first one does
or with a blank. -/
inductive Respaced : List Char → List Char → Prop
  | same (cs : List Char) : Respaced cs cs
  | blank {c : Char} (hc : c = ' ' ∨ c = '\t') (cs ds : List Char) : Respaced cs (c :: ds)
  | cons (c : Char) {cs ds : List Char} (h : Respaced cs ds) : Respaced (c :: cs) (c :: ds)

/-- Neither spaces nor tabs are among the characters. -/
def Separates (p : Char → Bool) : Prop := p ' ' = false ∧ p '\t' = false

theorem separates_isAlpha : Separates Char.isAlpha := ⟨by decide, by decide⟩

theorem separates_isDigit : Separates Char.isDigit := ⟨by decide, by decide⟩

theorem separates_continuesName : Separates continuesName := ⟨by decide, by decide⟩

namespace Respaced

variable {cs ds : List Char}

/-- What stands before both texts does not count. -/
theorem append (h : Respaced cs ds) (text : List Char) : Respaced (text ++ cs) (text ++ ds) := by
  induction text with
  | nil => exact h
  | cons c text ih => exact .cons c ih

/-- The second text starts as the first one does, or with a blank. -/
theorem head? (h : Respaced cs ds) :
    ds.head? = cs.head? ∨ ds.head? = some ' ' ∨ ds.head? = some '\t' := by
  cases h with
  | same => exact .inl rfl
  | blank hc => exact .inr (hc.imp (congrArg some) (congrArg some))
  | cons => exact .inl rfl

/-- Blanks do not bring up a character that would join. -/
theorem any_head? {p : Char → Bool} (h : Respaced cs ds) (hp : Separates p)
    (hcs : cs.head?.any p = false) : ds.head?.any p = false := by
  rcases h.head? with heq | heq | heq
  · rw [heq, hcs]
  · rw [heq]
    exact hp.1
  · rw [heq]
    exact hp.2

end Respaced

/-! ### Blanks at many places -/

/-- A text of spaces and tabs. -/
def IsBlankText (text : List Char) : Prop := ∀ c ∈ text, c = ' ' ∨ c = '\t'

/-- A text may be given more blanks. -/
theorem Respaced.blanks {blanks cs ds : List Char} (h : Respaced cs ds)
    (hblanks : IsBlankText blanks) : Respaced cs (blanks ++ ds) := by
  cases blanks with
  | nil => exact h
  | cons c blanks => exact .blank (hblanks c List.mem_cons_self) _ _

/-- Blanks that are put into a text, by the place in front of which they are put. -/
structure Spacing where
  blanks : Nat → List Char
  isBlank (n : Nat) : IsBlankText (blanks n)

namespace Spacing

variable (w : Spacing) {pos : Nat} {text cs : List Char}

/-- A text that starts at a place, with the blanks put into it. -/
def respace (pos : Nat) : List Char → List Char
  | [] => w.blanks pos
  | c :: cs => w.blanks pos ++ c :: respace (pos + c.utf8Size) cs

/-- The text without the blanks that are put in front of it. -/
def inner (pos : Nat) : List Char → List Char
  | [] => []
  | c :: cs => c :: w.respace (pos + c.utf8Size) cs

/-- Respacing puts the blanks of a place before the rest. -/
theorem respace_eq (pos : Nat) (cs : List Char) :
    w.respace pos cs = w.blanks pos ++ w.inner pos cs := by
  cases cs with
  | nil => exact (List.append_nil _).symm
  | cons c cs => rfl

theorem inner_cons (pos : Nat) (c : Char) (cs : List Char) :
    w.inner pos (c :: cs) =
      c :: (w.blanks (pos + c.utf8Size) ++ w.inner (pos + c.utf8Size) cs) :=
  congrArg (c :: ·) (w.respace_eq _ cs)

/-- Respacing goes from left to right. -/
theorem respace_append (pos : Nat) (text cs : List Char) :
    w.respace pos (text ++ cs) = w.respace pos text ++ w.inner (pos + bytes text) cs := by
  induction text generalizing pos with
  | nil => exact w.respace_eq pos cs
  | cons c text ih =>
    rw [List.cons_append, respace, respace, ih, bytes_cons, List.append_assoc, List.cons_append,
      Nat.add_assoc]

/-- Where no blanks are put into it or behind it, a text stays as it is. -/
theorem inner_append_of_clear (h : ∀ n, pos < n → n ≤ pos + bytes text → w.blanks n = []) :
    w.inner pos (text ++ cs) = text ++ w.inner (pos + bytes text) cs := by
  induction text generalizing pos with
  | nil => rfl
  | cons c text ih =>
    have hsize := c.utf8Size_pos
    rw [bytes_cons] at h ⊢
    rw [List.cons_append, inner_cons, h _ (by omega) (by omega), List.nil_append,
      ih fun n hlt hle => h n (by omega) (by omega), Nat.add_assoc]
    rfl

/-- Where no blanks are put into a text, these are put behind it. -/
theorem inner_of_clear (hne : text ≠ [])
    (h : ∀ n, pos < n → n < pos + bytes text → w.blanks n = []) :
    w.inner pos (text ++ cs) = text ++ w.respace (pos + bytes text) cs := by
  induction text generalizing pos with
  | nil => exact absurd rfl hne
  | cons c text ih =>
    have hsize := c.utf8Size_pos
    rw [bytes_cons] at h ⊢
    cases text with
    | nil => rfl
    | cons d text =>
      have hbytes : 0 < bytes (d :: text) := bytes_pos (List.cons_ne_nil d text)
      rw [List.cons_append, inner_cons, h _ (by omega) (by omega), List.nil_append,
        ih (List.cons_ne_nil d text) fun n hlt hlt' => h n (by omega) (by omega), Nat.add_assoc]
      rfl

/-- A respaced text differs by blanks alone. -/
theorem respaced_respace (pos : Nat) (cs : List Char) : Respaced cs (w.respace pos cs) := by
  induction cs generalizing pos with
  | nil =>
    rw [respace_eq]
    exact (Respaced.same []).blanks (w.isBlank pos)
  | cons c cs ih =>
    rw [respace_eq]
    exact (Respaced.cons c (ih _)).blanks (w.isBlank pos)

theorem respaced_inner (pos : Nat) (cs : List Char) : Respaced cs (w.inner pos cs) := by
  cases cs with
  | nil => exact .same []
  | cons c cs => exact .cons c (w.respaced_respace _ cs)

/-- The first character stays where no blanks are put before it. -/
theorem head?_inner (pos : Nat) (cs : List Char) : (w.inner pos cs).head? = cs.head? := by
  cases cs <;> rfl

/-- Blanks at one place. -/
def single (place : Nat) {blanks : List Char} (h : IsBlankText blanks) : Spacing where
  blanks n := if n = place then blanks else []
  isBlank n := by
    split
    · exact h
    · exact nofun

section

variable {place : Nat} {blanks : List Char} {h : IsBlankText blanks}

theorem eq_of_blanks_single {n : Nat} (hn : (single place h).blanks n ≠ []) : n = place :=
  Decidable.byContradiction fun hne => hn (if_neg hne)

/-- One place of blanks is an insertion there. -/
theorem respace_single (before after : List Char) (h : IsBlankText blanks) :
    (single (bytes before) h).respace 0 (before ++ after) = before ++ blanks ++ after := by
  have hblanks : (single (bytes before) h).blanks (bytes before) = blanks := if_pos rfl
  have hclear (n : Nat) (hn : n ≠ bytes before) : (single (bytes before) h).blanks n = [] :=
    if_neg hn
  have hafter : (single (bytes before) h).inner (bytes before) after = after := by
    have hmore : (single (bytes before) h).inner (bytes before) (after ++ []) = after ++ [] :=
      inner_append_of_clear _ fun n hlt _ => hclear n (by omega)
    rwa [List.append_nil] at hmore
  cases before with
  | nil =>
    rw [List.nil_append, List.nil_append, respace_eq]
    exact congrArg₂ (· ++ ·) hblanks hafter
  | cons c before =>
    rw [respace_eq, hclear 0 (bytes_pos (List.cons_ne_nil c before)).ne, List.nil_append,
      inner_of_clear _ (List.cons_ne_nil c before) fun n _ hlt => hclear n (by omega),
      Nat.zero_add, respace_eq, hblanks, hafter, List.append_assoc]

end

/-- Where a place of a text is found after the blanks are put in, both counted from the start of
the text. -/
def move : List Char → Nat → Nat → Nat
  | [], pos, n => bytes (w.blanks pos) + n
  | c :: cs, pos, n =>
    bytes (w.blanks pos) +
      if n < c.utf8Size then n
      else c.utf8Size + move cs (pos + c.utf8Size) (n - c.utf8Size)

/-- A place moves to the length of the respaced text before it. -/
theorem move_bytes (text cs : List Char) (pos : Nat) :
    w.move (text ++ cs) pos (bytes text) = bytes (w.respace pos text) := by
  induction text generalizing pos with
  | nil =>
    cases cs with
    | nil => rfl
    | cons c cs =>
      rw [List.nil_append, move, bytes_nil, if_pos c.utf8Size_pos]
      rfl
  | cons c text ih =>
    rw [List.cons_append, move, bytes_cons, if_neg (by omega), Nat.add_sub_cancel_left, ih,
      respace, bytes_append, bytes_cons]

/-- Places keep their order. -/
theorem strictMono_move (cs : List Char) (pos : Nat) : StrictMono (w.move cs pos) := by
  intro m n hlt
  induction cs generalizing pos m n with
  | nil => exact Nat.add_lt_add_left hlt _
  | cons c cs ih =>
    rw [move, move]
    refine Nat.add_lt_add_left ?_ _
    split
    · split <;> omega
    · rw [if_neg (by omega)]
      exact Nat.add_lt_add_left (ih _ (by omega)) _

/-- In a text that starts at a place, blanks are put in behind line breaks only. -/
def StartsLines (pos : Nat) (cs : List Char) : Prop :=
  ∀ before c after, cs = before ++ c :: after → c ≠ '\n' →
    w.blanks (pos + bytes (before ++ [c])) = []

namespace StartsLines

variable {w : Spacing} {pos : Nat} {c : Char} {cs : List Char}

/-- No blanks are put behind a character of a line, its end apart. -/
theorem head (h : w.StartsLines pos (c :: cs)) (hc : c ≠ '\n') :
    w.blanks (pos + c.utf8Size) = [] :=
  h [] c cs rfl hc

/-- No blanks are put in behind a character that ends no line. -/
theorem respace_eq_inner (h : w.StartsLines pos (c :: cs)) (hc : c ≠ '\n') (ds : List Char) :
    w.respace (pos + c.utf8Size) ds = w.inner (pos + c.utf8Size) ds := by
  rw [w.respace_eq, h.head hc, List.nil_append]

theorem tail (h : w.StartsLines pos (c :: cs)) : w.StartsLines (pos + c.utf8Size) cs := by
  intro before d after hcs hd
  have hblanks := h (c :: before) d after (congrArg (c :: ·) hcs) hd
  rwa [List.cons_append, bytes_cons, ← Nat.add_assoc] at hblanks

end StartsLines

end Spacing

/-! ### Readings that agree -/

/-- If one reading ends in front of `r`, another one reads the same in front of `r'`. -/
def Agrees {α : Type} (r r' : List Char) (x x' : α × Cursor) : Prop :=
  x.2.rest = r → x'.1 = x.1 ∧ x'.2.rest = r'

variable {r r' : List Char}

/-- What is left of a text after some reading still ends with what is left at last. -/
theorem exists_of_reaches {pos : Nat} {text more : List Char} {c : Cursor}
    (h : Reaches ⟨pos, text ++ r⟩ c) (hc : c.rest = more ++ r) : ∃ t, text = t ++ more := by
  obtain ⟨t, hread, -⟩ := h
  have htext : text ++ r = t ++ more ++ r := by
    rw [List.append_assoc, ← hc]
    exact hread
  exact ⟨t, List.append_cancel_right htext⟩

/-- What is left ends the text that has been read. -/
theorem append_of_reaches {pos : Nat} {cs left : List Char} {c : Cursor} (h : Reaches ⟨pos, cs⟩ c)
    (hc : c.rest = left) : ∃ t, cs = t ++ left := by
  obtain ⟨t, hread, -⟩ := h
  exact ⟨t, hc ▸ hread⟩

/-- Once a character has been read, less is left. -/
theorem rest_ne_of_reaches (pos : Nat) {c : Char} {cs : List Char} {d : Cursor}
    (h : Reaches ⟨pos, cs⟩ d) : d.rest ≠ c :: cs := by
  obtain ⟨t, hread, -⟩ := h
  have hlength : cs.length = (t ++ d.rest).length := congrArg List.length hread
  intro hrest
  rw [hrest, List.length_append, List.length_cons] at hlength
  omega

/-- A text with something in front of it is another text. -/
theorem cons_append_ne (c : Char) (text : List Char) : c :: (text ++ r) ≠ r := by
  intro h
  have hlength := congrArg List.length h
  rw [List.length_cons, List.length_append] at hlength
  omega

/-! ### Runs of characters -/

/-- A run ends at the first character that does not belong to it. -/
theorem run_of_head? {p : Char → Bool} {cs : List Char} (h : cs.head?.any p = false)
    (acc : List Char) (pos : Nat) : run p acc pos cs = (acc.reverse, ⟨pos, cs⟩) := by
  cases cs with
  | nil => rfl
  | cons c cs =>
    have hc : p c = false := h
    rw [run, hc]
    rfl

/-- A run that reads nothing stops at once. -/
theorem head?_of_run {p : Char → Bool} {acc cs : List Char} {pos : Nat}
    (h : (run p acc pos cs).2.rest = cs) : cs.head?.any p = false := by
  cases cs with
  | nil => rfl
  | cons c cs =>
    refine (Bool.not_eq_true _).mp fun hc : p c = true => ?_
    rw [run, if_pos hc] at h
    exact rest_ne_of_reaches _ (reaches_run _ _ _ _) h

/-- A run of such characters is the same with blanks behind it. -/
theorem agrees_run {p : Char → Bool} (hp : Separates p) (hr : Respaced r r') (text : List Char)
    (acc : List Char) (pos pos' : Nat) :
    Agrees r r' (run p acc pos (text ++ r)) (run p acc pos' (text ++ r')) := by
  induction text generalizing acc pos pos' with
  | nil =>
    rw [List.nil_append, List.nil_append]
    intro hrest
    have hstop := head?_of_run hrest
    rw [run_of_head? hstop, run_of_head? (hr.any_head? hp hstop)]
    exact ⟨rfl, rfl⟩
  | cons c text ih =>
    intro hrest
    rw [List.cons_append, run] at hrest ⊢
    rw [List.cons_append, run]
    split at hrest
    · next hc =>
      rw [if_pos hc, if_pos hc]
      exact ih _ _ _ hrest
    · exact absurd hrest (cons_append_ne c text)

/-- Whether an underscore goes on with a run of digits. -/
def joinsDigits (p : Char → Bool) (cs : List Char) : Bool :=
  cs.head? == some '_' && cs.tail.head?.any p

/-- Blanks do not make a separator join digits. -/
theorem Respaced.joinsDigits {p : Char → Bool} {cs ds : List Char} (h : Respaced cs ds)
    (hp : Separates p) (hcs : joinsDigits p cs = false) : joinsDigits p ds = false := by
  cases h with
  | same => exact hcs
  | blank hc => rcases hc with rfl | rfl <;> rfl
  | cons c h =>
    unfold Token.joinsDigits at hcs ⊢
    rw [Bool.and_eq_false_iff] at hcs ⊢
    exact hcs.imp id (h.any_head? hp)

/-- A run of digits also ends at a separator that joins nothing. -/
theorem digitRun_of_head? {p : Char → Bool} {cs : List Char} (h : cs.head?.any p = false)
    (hjoin : joinsDigits p cs = false) (acc : List Char) (pos : Nat) :
    digitRun p acc pos cs = (acc.reverse, ⟨pos, cs⟩) := by
  cases cs with
  | nil => rfl
  | cons c cs =>
    have hc : p c = false := h
    have hjoin : (c == '_' && cs.head?.any p) = false := hjoin
    rw [digitRun, hc, hjoin]
    rfl

/-- A run of digits that reads nothing stops at once. -/
theorem head?_of_digitRun {p : Char → Bool} {acc cs : List Char} {pos : Nat}
    (h : (digitRun p acc pos cs).2.rest = cs) :
    cs.head?.any p = false ∧ joinsDigits p cs = false := by
  cases cs with
  | nil => exact ⟨rfl, rfl⟩
  | cons c cs =>
    rw [digitRun] at h
    split at h
    · exact absurd h (rest_ne_of_reaches _ (reaches_digitRun _ _ _ _))
    · next hc =>
      split at h
      · exact absurd h (rest_ne_of_reaches _ (reaches_digitRun _ _ _ _))
      · next hjoin => exact ⟨(Bool.not_eq_true _).mp hc, (Bool.not_eq_true _).mp hjoin⟩

/-- And so is a run of digits with separators. -/
theorem agrees_digitRun {p : Char → Bool} (hp : Separates p) (hr : Respaced r r')
    (text : List Char) (acc : List Char) (pos pos' : Nat) :
    Agrees r r' (digitRun p acc pos (text ++ r)) (digitRun p acc pos' (text ++ r')) := by
  induction text generalizing acc pos pos' with
  | nil =>
    rw [List.nil_append, List.nil_append]
    intro hrest
    obtain ⟨hstop, hjoin⟩ := head?_of_digitRun hrest
    rw [digitRun_of_head? hstop hjoin,
      digitRun_of_head? (hr.any_head? hp hstop) (hr.joinsDigits hp hjoin)]
    exact ⟨rfl, rfl⟩
  | cons c text ih =>
    intro hrest
    rw [List.cons_append, digitRun] at hrest ⊢
    rw [List.cons_append, digitRun]
    split at hrest
    · next hc =>
      rw [if_pos hc, if_pos hc]
      exact ih _ _ _ hrest
    · next hc =>
      split at hrest
      · next hjoin =>
        cases text with
        | nil =>
          -- the digit behind the underscore is read too, so it is no part of what is left
          have hstop : r.head?.any p = false := (head?_of_digitRun hrest).1
          rw [List.nil_append, hstop, Bool.and_false] at hjoin
          cases hjoin
        | cons d text =>
          have hjoin' : (c == '_' && (d :: text ++ r').head?.any p) = true := hjoin
          rw [if_neg hc, if_neg hc, if_pos hjoin, if_pos hjoin']
          exact ih _ _ _ hrest
      · exact absurd hrest (cons_append_ne c text)

/-! ### Scanners in a row -/

/-- A scanner whose results do not depend on blanks behind what it reads, as far as they satisfy a
condition. -/
structure Steady {α : Type} (ok : α → Prop) (f : Cursor → α × Cursor) : Prop where
  reaches (c : Cursor) : c.Reaches (f c).2
  agrees {r r' : List Char} (hr : Respaced r r') (text : List Char) (pos pos' : Nat)
    (hok : ok (f ⟨pos, text ++ r⟩).1) : Agrees r r' (f ⟨pos, text ++ r⟩) (f ⟨pos', text ++ r'⟩)

namespace Steady

variable {α β : Type} {ok : β → Prop} {f f' : Cursor → β × Cursor}

/-- A reader that reads nothing is steady. -/
theorem ret (b : β) : Steady ok fun c => (b, c) where
  reaches c := .refl c
  agrees _ text _ _ _ hrest := by
    obtain rfl : text = [] := List.append_left_eq_self.mp hrest
    exact ⟨rfl, rfl⟩

/-- A scanner that goes on where another one stopped. -/
theorem bind {g : Cursor → α × Cursor} {f : α → Cursor → β × Cursor} (hg : Steady (fun _ => True) g)
    (hf : ∀ a, Steady ok (f a)) : Steady ok fun c => f (g c).1 (g c).2 where
  reaches c := (hg.reaches c).trans ((hf _).reaches _)
  agrees {r r'} hr text pos pos' hok hrest := by
    obtain ⟨more, hmore⟩ := append_of_reaches ((hf (g ⟨pos, text ++ r⟩).1).reaches
      ⟨(g ⟨pos, text ++ r⟩).2.pos, (g ⟨pos, text ++ r⟩).2.rest⟩) hrest
    obtain ⟨t, rfl⟩ := exists_of_reaches (hg.reaches _) hmore
    rw [List.append_assoc] at *
    obtain ⟨hvalue, hleft⟩ := hg.agrees (hr.append more) t pos pos' trivial hmore
    rw [List.append_assoc, hvalue]
    cases hk : (g ⟨pos, t ++ (more ++ r)⟩).2 with
    | mk p cs =>
      cases hk' : (g ⟨pos', t ++ (more ++ r')⟩).2 with
      | mk p' cs' =>
        rw [hk] at hmore hok hrest
        rw [hk'] at hleft
        obtain rfl : cs = more ++ r := hmore
        obtain rfl : cs' = more ++ r' := hleft
        exact (hf _).agrees hr more p p' hok hrest

/-- A scanner after a character, if that stands here, and another one if not. -/
theorem suffix {d : Char} (hd : d ≠ ' ' ∧ d ≠ '\t') (hf : Steady ok f) (hf' : Steady ok f') :
    Steady ok fun c => if c.rest.head? == some d then f c.step else f' c where
  reaches c := by
    split
    · next h => exact (reads_step_of_head? (eq_of_beq h)).reaches.trans (hf.reaches _)
    · exact hf'.reaches c
  agrees {r r'} hr text pos pos' hok hrest := by
    cases text with
    | nil =>
      rw [List.nil_append] at hok hrest ⊢
      rw [List.nil_append]
      dsimp only at hok hrest ⊢
      -- had the reader taken the mark, less than `r` would be left
      have hhead : (r.head? == some d) = false := by
        refine (Bool.not_eq_true _).mp fun hhead => ?_
        rw [if_pos hhead] at hrest
        obtain ⟨ds, rfl⟩ := List.head?_eq_some_iff.mp (eq_of_beq hhead)
        exact rest_ne_of_reaches _ (hf.reaches ⟨pos + d.utf8Size, ds⟩) hrest
      have hhead' : (r'.head? == some d) = false := by
        refine beq_false_of_ne fun heq => ?_
        rcases hr.head? with h | h | h <;> rw [h] at heq
        · rw [heq, beq_self_eq_true] at hhead
          cases hhead
        · exact hd.1 (Option.some.inj heq).symm
        · exact hd.2 (Option.some.inj heq).symm
      rw [hhead, if_neg Bool.false_ne_true] at hok hrest ⊢
      rw [hhead', if_neg Bool.false_ne_true]
      exact hf'.agrees hr [] pos pos' hok hrest
    | cons c text =>
      have hhead' : ((c :: text ++ r').head? == some d) = ((c :: text ++ r).head? == some d) := rfl
      dsimp only at hok hrest ⊢
      rw [hhead']
      split at hrest
      · next hhead =>
        rw [if_pos hhead] at hok ⊢
        rw [if_pos hhead]
        exact hf.agrees hr text _ _ hok hrest
      · next hhead =>
        rw [if_neg hhead] at hok ⊢
        rw [if_neg hhead]
        exact hf'.agrees hr (c :: text) pos pos' hok hrest

/-- The end of a scanner, unless a character follows that spoils its result. -/
theorem spoiled {p : Char → Bool} (hp : Separates p) (a b : β) (ha : ¬ok a) :
    Steady ok fun c => if c.rest.head?.any p then (a, c.step) else (b, c) where
  reaches c := by
    split
    · next h =>
      obtain ⟨d, hd, -⟩ := (Option.any_eq_true _ _).mp h
      exact (reads_step_of_head? hd).reaches
    · exact .refl c
  agrees {r r'} hr text pos pos' hok hrest := by
    dsimp only at hok hrest ⊢
    split at hok
    · exact absurd hok ha
    · next hhead =>
      rw [if_neg hhead] at hrest ⊢
      obtain rfl : text = [] := List.append_left_eq_self.mp hrest
      have hhead' : r'.head?.any p = false := hr.any_head? hp ((Bool.not_eq_true _).mp hhead)
      rw [List.nil_append, hhead']
      exact ⟨rfl, rfl⟩

end Steady

theorem steady_run {p : Char → Bool} (hp : Separates p) :
    Steady (fun _ => True) fun c => run p [] c.pos c.rest where
  reaches c := reaches_run p [] c.pos c.rest
  agrees hr text pos pos' _ := agrees_run hp hr text [] pos pos'

theorem steady_digitRun {p : Char → Bool} (hp : Separates p) :
    Steady (fun _ => True) fun c => digitRun p [] c.pos c.rest where
  reaches c := reaches_digitRun p [] c.pos c.rest
  agrees hr text pos pos' _ := agrees_digitRun hp hr text [] pos pos'

end Espalier.Token
