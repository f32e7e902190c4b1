import Espalier.Proofs.Token.Scan

/-!
# Texts written token by token

`Scans text kinds` says that the first tokens of a text have the given kinds and that no line ends
in front of one that minds. A piece of text `Writes` some kinds if it does so whatever follows it,
except that a name may not go on behind it, and it `Closes` with them if it does so whatever follows
it. Pieces are put together from words and signs; a sign may be followed by a blank or, if no longer
sign starts with it, by anything.
-/

namespace Espalier

open Text

/-! ### Words -/

namespace Token

/-- A text that is read as one name or keyword. -/
def isWord (word : String) : Bool :=
  match word.toList with
  | [] => false
  | c :: cs => startsName c && cs.all continuesName

/-- What a word is read as. -/
def wordKind (word : String) : Kind := (Keyword.ofText? word).elim (.name word) .keyword

/-- The text of a keyword is that keyword. -/
theorem wordKind_text (k : Keyword) : wordKind k.text = .keyword k := by
  unfold wordKind
  rw [Keyword.ofText?_text]
  rfl

/-- The blanks beyond ASCII. -/
def wideBlanks : List Char :=
  ['\u0085', '\u00a0', '\u2000', '\u2001', '\u2002', '\u2003', '\u2004', '\u2005', '\u2006',
    '\u2007', '\u2008', '\u2009', '\u200a', '\u2028', '\u2029', '\u202f', '\u205f', '\ufeff']

/-- A property of a run of characters, checked one by one. -/
theorem forall_run {P : Char → Prop} {lo count : Nat} (h : ∀ n < count, P (Char.ofNat (lo + n)))
    {c : Char} (hlo : lo ≤ c.toNat) (hhi : c.toNat < lo + count) : P c := by
  have hc := h (c.toNat - lo) (by omega)
  rwa [Nat.add_sub_cancel' hlo, Char.ofNat_toNat] at hc

/-- The blanks beyond the first 128 characters are the listed ones. -/
theorem mem_wideBlanks {c : Char} (h : isBlank c = true) (hwide : ¬c.toNat < 128) :
    c ∈ wideBlanks := by
  have hrun : ∀ n < 11, Char.ofNat (0x2000 + n) ∈ wideBlanks := by decide
  unfold isBlank at h
  rw [if_neg hwide] at h
  simp only [Bool.or_eq_true, Bool.and_eq_true, beq_iff_eq, decide_eq_true_eq] at h
  rcases h with ((((((rfl | rfl) | ⟨hlo, hhi⟩) | rfl) | rfl) | rfl) | rfl) | rfl
  case inl.inl.inl.inl.inl.inr =>
    -- The only blanks that are given as a run: eleven of them.
    exact forall_run (P := (· ∈ wideBlanks)) hrun hlo (Nat.lt_succ_of_le hhi)
  all_goals decide

/-- Digits are ten characters in a row. -/
theorem toNat_of_isDigit {c : Char} (h : c.isDigit = true) : 48 ≤ c.toNat ∧ c.toNat < 58 := by
  obtain ⟨hlo, hhi⟩ := (Bool.and_eq_true _ _).mp h
  have hlo' : 48 ≤ c.toNat := of_decide_eq_true hlo
  have hhi' : c.toNat ≤ 57 := of_decide_eq_true hhi
  exact ⟨hlo', Nat.lt_succ_of_le hhi'⟩

/-- No name starts with a digit. -/
theorem isDigit_of_startsName {c : Char} (h : startsName c = true) : c.isDigit = false := by
  have hdigits : ∀ n < 10, startsName (Char.ofNat (48 + n)) = false := by decide
  rw [← Bool.not_eq_true]
  intro hdigit
  obtain ⟨hlo, hhi⟩ := toNat_of_isDigit hdigit
  have hno := forall_run (P := fun d => startsName d = false) hdigits hlo hhi
  rw [h] at hno
  cases hno

/-- No name goes on with a blank, and no blank is a digit. -/
theorem continuesName_of_isBlank {c : Char} (h : isBlank c = true) :
    continuesName c = false ∧ c.isDigit = false := by
  have hrun : ∀ n < 5, continuesName (Char.ofNat (9 + n)) = false ∧
      (Char.ofNat (9 + n)).isDigit = false := by decide
  have hwide : wideBlanks.all (fun d => !continuesName d) = true := by decide +kernel
  by_cases hlt : c.toNat < 128
  · unfold isBlank at h
    rw [if_pos hlt, Bool.or_eq_true, Bool.and_eq_true, beq_iff_eq] at h
    rcases h with rfl | ⟨hlo, hhi⟩
    · decide
    · exact forall_run (P := fun d => continuesName d = false ∧ d.isDigit = false) hrun
        (of_decide_eq_true hlo) (Nat.lt_succ_of_le (of_decide_eq_true hhi))
  · have hno := List.all_eq_true.mp hwide c (mem_wideBlanks h hlt)
    exact ⟨by rwa [Bool.not_eq_true'] at hno,
      (Bool.not_eq_true _).mp fun hdigit =>
        hlt (Nat.lt_trans (toNat_of_isDigit hdigit).2 (by decide))⟩

/-- No name starts with a blank, since none goes on with one. -/
theorem isBlank_of_startsName {c : Char} (h : startsName c = true) : isBlank c = false := by
  rw [← Bool.not_eq_true]
  intro hblank
  have hno := (continuesName_of_isBlank hblank).1
  rw [continuesName_of_startsName h] at hno
  cases hno

/-! ### The first tokens of a text -/

/-- A sign that belongs to what stands in front of it unless a line ends between them. -/
def Kind.mindsLine : Kind → Bool
  | .punct .increment | .punct .decrement => true
  | _ => false

/-- A text starts with a token of kind `k`, on the same line if that matters, and `rest` follows
that token. -/
def ScansTo (cs : List Char) (k : Kind) (rest : List Char) : Prop :=
  ∀ pos, (scan ⟨pos, cs⟩).token.kind = k ∧
    (k.mindsLine = true → (scan ⟨pos, cs⟩).token.newlineBefore = false) ∧
    (scan ⟨pos, cs⟩).after.rest = rest

/-- The kinds of the first tokens of a text, if no line ends in front of one that minds. -/
inductive Scans : List Char → List Kind → Prop
  | nil (cs : List Char) : Scans cs []
  | cons {cs rest : List Char} {k : Kind} {ks : List Kind} (head : ScansTo cs k rest)
      (tail : Scans rest ks) : Scans cs (k :: ks)

variable {T T' k : List Char} {us vs ks : List Kind}

/-- Fewer tokens. -/
theorem Scans.front (h : Scans k (us ++ ks)) : Scans k us := by
  induction us generalizing k with
  | nil => exact .nil k
  | cons u us ih =>
    cases h with
    | cons head tail => exact .cons head (ih tail)

/-- Nothing is scanned into the end. -/
theorem scans_eof : Scans [] [.eof] :=
  have hscans : ScansTo [] .eof [] := fun _ => ⟨rfl, nofun, rfl⟩
  .cons hscans (.nil _)

/-- A blank is skipped, and a line break among blanks is noted. -/
theorem gap_cons_of_isBlank {c : Char} (hc : isBlank c = true) (newline : Bool) (pos : Nat)
    (cs : List Char) : gap .blank newline pos (c :: cs) =
      gap .blank (newline || endsLine c) (pos + c.utf8Size) cs := by
  conv =>
    lhs
    unfold gap
  exact if_pos hc

/-- A blank that ends no line. -/
theorem scan_blank {c : Char} (hc : c = ' ' ∨ c = '\t') (pos : Nat) (cs : List Char) :
    scan ⟨pos, c :: cs⟩ = scan ⟨pos + 1, cs⟩ := by
  have hgap : gap .blank false pos (c :: cs) = gap .blank false (pos + 1) cs := by
    rcases hc with rfl | rfl <;> exact gap_cons_of_isBlank rfl false pos cs
  unfold scan
  rw [hgap]

/-- Blanks and tabs in front change nothing. -/
theorem Scans.blanks {blanks : List Char} (hblanks : ∀ c ∈ blanks, c = ' ' ∨ c = '\t')
    (h : Scans k ks) : Scans (blanks ++ k) ks := by
  induction blanks with
  | nil => exact h
  | cons c blanks ih =>
    obtain ⟨hc, hblanks⟩ := List.forall_mem_cons.mp hblanks
    cases ih hblanks with
    | nil => exact .nil _
    | cons head tail =>
      refine .cons (fun pos => ?_) tail
      rw [List.cons_append, scan_blank hc]
      exact head (pos + 1)

theorem Scans.blank (h : Scans k ks) : Scans (' ' :: k) ks := by
  have hblanks : ∀ c ∈ [' '], c = ' ' ∨ c = '\t' := by simp
  exact h.blanks hblanks

/-- That a line has ended is all that a gap keeps of what stands in front of it. -/
theorem gap_newline (part : GapPart) (newline : Bool) (pos : Nat) (cs : List Char) :
    gap part true pos cs = { gap part newline pos cs with newline := true } := by
  -- along the gap, in blanks and in both kinds of comment
  fun_induction gap part newline pos cs with
  | case1 => rfl
  | case2 newline pos c cs hblank ih =>
    rw [gap_cons_of_isBlank hblank, Bool.true_or]
    exact ih
  | case3 newline pos c hblank hslash ds ih | case4 newline pos c hblank hslash ds ih =>
    rw [gap.eq_def]
    dsimp only
    rw [if_neg hblank, if_pos hslash]
    exact ih
  | case5 newline pos c cs hblank hslash hline hblock =>
    rw [gap.eq_def]
    dsimp only
    rw [if_neg hblank, if_pos hslash]
    split
    · exact absurd rfl (hline _)
    · exact absurd rfl (hblock _)
    · rfl
  | case6 newline pos c cs hblank hslash =>
    rw [gap.eq_def]
    dsimp only
    rw [if_neg hblank, if_neg hslash]
  | case7 newline pos c cs hc ih =>
    rw [gap.eq_def]
    exact (if_pos hc).trans ih
  | case8 newline pos c cs hc ih =>
    rw [gap.eq_def]
    exact (if_neg hc).trans ih
  | case9 newline pos c hc ds ih =>
    rw [gap.eq_def]
    exact (if_pos hc).trans ih
  | case10 newline pos c hc ds hclose ih =>
    rw [gap.eq_def]
    dsimp only
    rw [if_pos hc]
    split
    · exact absurd rfl (hclose _)
    · exact ih
  | case11 newline pos c cs hc ih =>
    rw [gap.eq_def]
    exact (if_neg hc).trans ih

/-- Any blank may stand in front of a token that does not mind where lines end. -/
theorem Scans.white {u : Kind} {c : Char} (hc : isBlank c = true) (hu : u.mindsLine = false)
    (h : Scans k (u :: ks)) : Scans (c :: k) (u :: ks) := by
  cases h with
  | cons head tail =>
    refine .cons (fun pos => ?_) tail
    obtain ⟨hkind, -, hrest⟩ := head (pos + c.utf8Size)
    -- a line break in front is noted in the token, which must not mind it
    have hscan : (scan ⟨pos, c :: k⟩).token.kind = (scan ⟨pos + c.utf8Size, k⟩).token.kind ∧
        (scan ⟨pos, c :: k⟩).after = (scan ⟨pos + c.utf8Size, k⟩).after := by
      have hgap := gap_cons_of_isBlank hc false pos k
      rw [Bool.false_or] at hgap
      unfold scan
      rw [hgap]
      cases endsLine c with
      | false => exact ⟨rfl, rfl⟩
      | true =>
        rw [gap_newline .blank false (pos + c.utf8Size) k]
        exact ⟨rfl, rfl⟩
    rw [hscan.1, hscan.2]
    refine ⟨hkind, fun hminds => ?_, hrest⟩
    rw [hu] at hminds
    cases hminds

/-- Blanks of any kind in front of a token that does not mind lines. -/
theorem Scans.whites {u : Kind} {blanks : List Char} (hblanks : ∀ c ∈ blanks, isBlank c = true)
    (hu : u.mindsLine = false) (h : Scans k (u :: ks)) : Scans (blanks ++ k) (u :: ks) := by
  induction blanks with
  | nil => exact h
  | cons c blanks ih =>
    obtain ⟨hc, hblanks⟩ := List.forall_mem_cons.mp hblanks
    exact (ih hblanks).white hc hu

/-- A line may end in front of a token that does not mind. -/
theorem Scans.line {u : Kind} (hu : u.mindsLine = false) (h : Scans k (u :: ks)) :
    Scans ('\n' :: k) (u :: ks) :=
  h.white rfl hu

/-- A token that is read where no blank or comment starts. -/
theorem scan_of_scanKind {c : Char} {cs : List Char} (hblank : isBlank c = false)
    (hslash : c = '/' → ∀ d ∈ cs.head?, d ≠ '/' ∧ d ≠ '*') (pos : Nat) :
    scan ⟨pos, c :: cs⟩ = .ofKind false ⟨pos, c :: cs⟩ (scanKind ⟨pos, c :: cs⟩) := by
  -- no blank and no comment, so the token starts here
  have hgap : gap .blank false pos (c :: cs) = ⟨false, ⟨pos, c :: cs⟩, false⟩ := by
    unfold gap
    dsimp only
    rw [hblank]
    by_cases hc : c = '/'
    · have hd := hslash hc
      subst hc
      cases cs with
      | nil => rfl
      | cons d ds =>
        obtain ⟨hd1, hd2⟩ := hd d rfl
        split
        · next h => cases h
        · simp only [beq_self_eq_true, if_true]
          split
          · next heq => exact absurd (List.cons.inj heq).1 hd1
          · next heq => exact absurd (List.cons.inj heq).1 hd2
          · rfl
    · have hne : (c == '/') = false := beq_false_of_ne hc
      rw [hne]
      rfl
  unfold scan
  rw [hgap]
  rfl

/-! ### Words -/

/-- A name may not go on at the start of the text. -/
def EndsName (k : List Char) : Prop := ∀ c ∈ k.head?, continuesName c = false

/-- A run takes all characters that satisfy its test, and stops at the first that does not. -/
theorem run_append {p : Char → Bool} {cs : List Char} (h : ∀ c ∈ cs, p c = true)
    (hk : ∀ c ∈ k.head?, p c = false) (acc : List Char) (pos : Nat) :
    ∃ pos', run p acc pos (cs ++ k) = (acc.reverse ++ cs, ⟨pos', k⟩) := by
  induction cs generalizing acc pos with
  | nil =>
    refine ⟨pos, ?_⟩
    rw [List.append_nil, List.nil_append]
    cases k with
    | nil => rfl
    | cons c k =>
      rw [run, hk c rfl]
      rfl
  | cons c cs ih =>
    obtain ⟨pos', heq⟩ := ih (fun d hd => h d (List.mem_cons_of_mem c hd)) (c :: acc)
      (pos + c.utf8Size)
    refine ⟨pos', ?_⟩
    rw [List.cons_append, run, if_pos (h c List.mem_cons_self), heq, List.reverse_cons,
      List.append_assoc]
    rfl

/-- A word starts as names do and goes on as they do. -/
theorem exists_cons_of_isWord {word : String} (h : isWord word = true) :
    ∃ c cs, word.toList = c :: cs ∧ startsName c = true ∧ ∀ d ∈ cs, continuesName d = true := by
  unfold isWord at h
  split at h
  · cases h
  · next c cs hword =>
    obtain ⟨hc, hcs⟩ := (Bool.and_eq_true _ _).mp h
    exact ⟨c, cs, hword, hc, List.all_eq_true.mp hcs⟩

/-- A word is scanned into itself when no name goes on behind it. -/
theorem scansTo_word {word : String} (h : isWord word = true) (hk : EndsName k) :
    ScansTo (word.toList ++ k) (wordKind word) k := by
  intro pos
  obtain ⟨c, cs, hword, hc, hcs⟩ := exists_cons_of_isWord h
  have hall : ∀ d ∈ word.toList, continuesName d = true := by
    rw [hword]
    exact List.forall_mem_cons.mpr ⟨continuesName_of_startsName hc, hcs⟩
  obtain ⟨pos', hrun⟩ := run_append hall hk [] pos
  have hname : scanKind ⟨pos, word.toList ++ k⟩ = scanName ⟨pos, word.toList ++ k⟩ := by
    rw [hword]
    unfold scanKind
    dsimp only [List.cons_append]
    rw [if_pos hc]
  have hread : scanName ⟨pos, word.toList ++ k⟩ = (wordKind word, ⟨pos', k⟩) := by
    unfold scanName
    dsimp only
    rw [hrun, List.reverse_nil, List.nil_append, String.ofList_toList]
    rfl
  -- no comment starts with a letter, so the gap is empty
  have hscan : scan ⟨pos, word.toList ++ k⟩ =
      .ofKind false ⟨pos, word.toList ++ k⟩ (scanKind ⟨pos, word.toList ++ k⟩) := by
    rw [hword]
    refine scan_of_scanKind (isBlank_of_startsName hc) (fun hslash => ?_) pos
    rw [hslash] at hc
    exact absurd hc (by decide)
  rw [hscan, hname, hread]
  exact ⟨rfl, fun _ => rfl, rfl⟩

end Token

/-! ### Signs -/

namespace Punct

/-- A character that only a sign starts with. -/
def isSignChar (c : Char) : Bool :=
  !Token.isBlank c && !Token.startsName c && !c.isDigit && !(['"', '\'', '\x60', '\\'].contains c)

/-- Every punctuator starts with a sign; a slash and a point start only a few. -/
theorem exists_cons_text (p : Punct) : ∃ c cs, p.text.toList = c :: cs ∧ isSignChar c = true ∧
    (c = '/' → p = .slash ∨ cs = ['=']) ∧ (c = '.' → p = .dot ∨ cs = ['.', '.']) := by
  cases p <;> exact ⟨_, _, rfl, by decide, by decide, by decide⟩

/-- The characters with which longer signs go on behind a sign. -/
def continuations (p : Punct) : List Char :=
  all.filterMap fun q =>
    if p.text.toList.isPrefixOf q.text.toList then q.text.toList[p.text.toList.length]? else none

/-- Whether a sign, with a character behind it, is the start of a longer sign, of a comment or of a
number. -/
def joins (p : Punct) (c : Char) : Bool :=
  p.continuations.contains c || (p == .slash && (c == '/' || c == '*')) ||
    ((p == .dot || p == .questionDot) && c.isDigit)

theorem joins_eq_false {p : Punct} {c : Char} (hc : c ∉ p.continuations)
    (hp : p ≠ .slash ∧ p ≠ .dot ∧ p ≠ .questionDot) : p.joins c = false := by
  have hcontains : p.continuations.contains c = false := by
    rw [← Bool.not_eq_true, List.contains_iff_mem]
    exact hc
  unfold joins
  rw [hcontains, beq_false_of_ne hp.1, beq_false_of_ne hp.2.1, beq_false_of_ne hp.2.2]
  rfl

/-- Signs go on with characters of signs. -/
theorem exists_mem_text_of_mem_continuations {p : Punct} {c : Char} (h : c ∈ p.continuations) :
    ∃ q : Punct, c ∈ q.text.toList := by
  obtain ⟨q, -, hq⟩ := List.mem_filterMap.mp h
  split at hq
  · exact ⟨q, List.mem_of_getElem? hq⟩
  · cases hq

/-- No blank joins a sign. -/
theorem joins_of_isBlank (p : Punct) {c : Char} (hc : Token.isBlank c = true) :
    p.joins c = false := by
  have htext : ∀ q ∈ all, q.text.toList.all (fun d => !Token.isBlank d) = true := by decide
  have hne (d : Char) (hd : Token.isBlank d = false) : (c == d) = false := by
    refine beq_false_of_ne ?_
    rintro rfl
    rw [hc] at hd
    cases hd
  have hdigit := (Token.continuesName_of_isBlank hc).2
  have hcontains : p.continuations.contains c = false := by
    rw [← Bool.not_eq_true, List.contains_iff_mem]
    intro hmem
    obtain ⟨q, hq⟩ := exists_mem_text_of_mem_continuations hmem
    have hnot := List.all_eq_true.mp (htext q q.mem_all) c hq
    rw [hc] at hnot
    cases hnot
  unfold joins
  rw [hcontains, hne '/' rfl, hne '*' rfl, hdigit]
  simp

theorem joins_blank (p : Punct) : p.joins ' ' = false := p.joins_of_isBlank rfl

/-- Signs that nothing joins. -/
def isWhole : Punct → Bool
  | leftParen | rightParen | leftBracket | rightBracket | leftBrace | rightBrace | comma | semicolon
  | colon | tilde | increment | decrement => true
  | _ => false

/-- A whole punctuator joins with nothing. -/
theorem joins_of_isWhole {p : Punct} (h : p.isWhole = true) (c : Char) : p.joins c = false := by
  cases p <;> first | rfl | cases h

/-- Signs are looked for in an order in which none starts a later one. -/
theorem pairwise_all : all.Pairwise fun q p => ¬q.text.toList <+: p.text.toList := by decide +kernel

/-- A punctuator that starts somewhere is written there. -/
theorem isPrefix_of_startsAt {q : Punct} {cs : List Char} (h : q.startsAt cs = true) :
    q.text.toList <+: cs := by
  unfold startsAt at h
  split at h
  · next c rest => exact ⟨c :: rest, rfl⟩
  · exact List.isPrefixOf_iff_prefix.mp h

/-- A punctuator starts where it is written, if nothing joins it from behind. -/
theorem startsAt_text {p : Punct} {k : List Char} (hk : ∀ c ∈ k.head?, p.joins c = false) :
    p.startsAt (p.text.toList ++ k) = true := by
  unfold startsAt
  split
  · next c rest heq =>
    have heq' : ['?', '.'] ++ k = ['?', '.'] ++ c :: rest := heq
    have hrest : k = c :: rest := List.append_cancel_left heq'
    rw [hrest] at hk
    have hc := hk c rfl
    unfold joins at hc
    rw [Bool.or_eq_false_iff] at hc
    rw [show c.isDigit = false from hc.2]
    rfl
  · exact List.isPrefixOf_iff_prefix.mpr ⟨k, rfl⟩

/-- It is the one read there. -/
theorem read?_text {p : Punct} {k : List Char} (hk : ∀ c ∈ k.head?, p.joins c = false) :
    read? (p.text.toList ++ k) = some p := by
  obtain ⟨before, after, hall⟩ := List.append_of_mem p.mem_all
  refine List.find?_eq_some_iff_append.mpr ⟨startsAt_text hk, before, after, hall, fun q hq => ?_⟩
  rw [Bool.not_eq_true', ← Bool.not_eq_true]
  intro hstarts
  have hstart : q.text.toList <+: p.text.toList ++ k := isPrefix_of_startsAt hstarts
  have hshorter : ¬q.text.toList <+: p.text.toList := by
    have horder := pairwise_all
    rw [hall] at horder
    exact (List.pairwise_append.mp horder).2.2 q hq p List.mem_cons_self
  cases k with
  | nil =>
    rw [List.append_nil] at hstart
    exact hshorter hstart
  | cons c cs =>
    -- `q` is longer than `p`, so it goes on with `c`.
    have hlonger : p.text.toList ++ [c] <+: q.text.toList := by
      have hc : p.text.toList ++ [c] <+: p.text.toList ++ c :: cs :=
        ⟨cs, by rw [List.append_assoc]; rfl⟩
      rcases List.prefix_or_prefix_of_prefix hc hstart with h | h
      · exact h
      · rcases List.prefix_concat_iff.mp h with h | h
        · exact h ▸ List.prefix_refl _
        · exact absurd h hshorter
    obtain ⟨more, hmore⟩ := hlonger
    have hmem : c ∈ p.continuations := by
      refine List.mem_filterMap.mpr ⟨q, q.mem_all, ?_⟩
      rw [← hmore, List.append_assoc, if_pos (List.isPrefixOf_iff_prefix.mpr ⟨_, rfl⟩),
        List.getElem?_append_right (Nat.le_refl _), Nat.sub_self]
      rfl
    have hno := hk c rfl
    unfold joins at hno
    rw [Bool.or_eq_false_iff, Bool.or_eq_false_iff] at hno
    rw [List.contains_iff_mem.mpr hmem] at hno
    cases hno.1.1

end Punct

namespace Token

/-- A punctuator is scanned into itself when nothing joins it from behind. -/
theorem scansTo_sign {p : Punct} (hk : ∀ c ∈ k.head?, p.joins c = false) :
    ScansTo (p.text.toList ++ k) (.punct p) k := by
  intro pos
  obtain ⟨c, cs, htext, hsign, hc1, hc2⟩ := p.exists_cons_text
  simp only [Punct.isSignChar, Bool.and_eq_true, Bool.not_eq_true', List.contains_cons,
    Bool.or_eq_false_iff, List.contains_nil] at hsign
  obtain ⟨⟨⟨hblank, hname⟩, hdigit⟩, hquote, hquote', htemplate, hescape, -⟩ := hsign
  have hscan : scan ⟨pos, p.text.toList ++ k⟩ =
      .ofKind false ⟨pos, p.text.toList ++ k⟩ (scanKind ⟨pos, p.text.toList ++ k⟩) := by
    rw [htext]
    refine scan_of_scanKind hblank (fun hc => ?_) pos
    rcases hc1 hc with hp | rfl
    · subst hp
      cases htext
      intro d hd
      have hjoins := hk d hd
      constructor <;>
        · rintro rfl
          cases hjoins
    · rintro d ⟨⟩
      decide
  -- A point in front of a digit would start a number.
  have hfraction : (c == '.' && (cs ++ k).head?.any Char.isDigit) = false := by
    by_cases hc : c = '.'
    · rcases hc2 hc with hp | rfl
      · subst hp
        cases htext
        cases k with
        | nil => rfl
        | cons d ds =>
          have hjoins := hk d rfl
          unfold Punct.joins at hjoins
          exact (Bool.or_eq_false_iff.mp hjoins).2
      · rw [hc]
        rfl
    · rw [beq_false_of_ne hc, Bool.false_and]
  have hkind : scanKind ⟨pos, p.text.toList ++ k⟩ = (.punct p, ⟨pos + p.text.length, k⟩) := by
    have hdrop : (p.text.toList ++ k).drop p.text.length = k := by
      rw [← String.length_toList, List.drop_left]
    unfold scanKind
    dsimp only
    rw [Punct.read?_text hk]
    dsimp only
    rw [hdrop, htext]
    dsimp only [List.cons_append]
    rw [hname, hdigit, hquote, hquote', htemplate, hescape, hfraction]
    rfl
  rw [hscan, hkind]
  exact ⟨rfl, fun _ => rfl, rfl⟩

/-! ### Pieces of text -/

/-- A piece of text is read as the given tokens, whatever follows it, except that a name may not go
on behind it. -/
def Writes (T : List Char) (us : List Kind) : Prop :=
  ∀ k ks, EndsName k → Scans k ks → Scans (T ++ k) (us ++ ks)

/-- A piece of text that starts with something else than the rest of a name. -/
def Parts (T : List Char) : Prop := ∃ c cs, T = c :: cs ∧ continuesName c = false

/-- Two texts one behind the other are scanned into the tokens of both, if the second parts from the
first. -/
theorem Writes.append (h : Writes T us) (h' : Writes T' vs) (hparts : Parts T') :
    Writes (T ++ T') (us ++ vs) := by
  intro k ks hk hscans
  obtain ⟨c, cs, rfl, hc⟩ := hparts
  rw [List.append_assoc, List.append_assoc]
  refine h _ _ ?_ (h' k ks hk hscans)
  rintro d ⟨⟩
  exact hc

theorem Writes.blank (h : Writes T us) : Writes (' ' :: T) us :=
  fun k ks hk hscans => (h k ks hk hscans).blank

theorem writes_word {word : String} (h : isWord word = true) :
    Writes word.toList [wordKind word] :=
  fun _ _ hk hscans => .cons (scansTo_word h hk) hscans

/-- A word with a blank behind it stands in front of anything. -/
theorem Writes.afterWord (h : Writes T us) (word : String) (hword : isWord word = true) :
    Writes (word.toList ++ ' ' :: T) (wordKind word :: us) :=
  (writes_word hword).append h.blank ⟨' ', T, rfl, by decide⟩

/-- A sign stands in front of a text that does not join it. -/
theorem Writes.afterSign {c : Char} {p : Punct} (h : Writes (c :: T) us)
    (hc : p.joins c = false) : Writes (p.text.toList ++ c :: T) (.punct p :: us) := by
  intro k ks hk hscans
  rw [List.append_assoc]
  refine .cons (scansTo_sign ?_) (h k ks hk hscans)
  rintro d ⟨⟩
  exact hc

/-- A sign with a blank behind it stands in front of anything. -/
theorem Writes.afterSpaced (h : Writes T us) (p : Punct) :
    Writes (p.text.toList ++ ' ' :: T) (.punct p :: us) :=
  h.blank.afterSign p.joins_blank

/-- A sign that nothing joins stands in front of anything. -/
theorem Writes.afterWhole {p : Punct} (h : Writes T us) (hp : p.isWhole = true) :
    Writes (p.text.toList ++ T) (.punct p :: us) := by
  intro k ks hk hscans
  rw [List.append_assoc]
  exact .cons (scansTo_sign fun c _ => Punct.joins_of_isWhole hp c) (h k ks hk hscans)

theorem writes_nil : Writes [] [] := fun _ _ _ hscans => hscans

theorem writes_whole {p : Punct} (hp : p.isWhole = true) : Writes p.text.toList [.punct p] := by
  have h := writes_nil.afterWhole hp
  rw [List.append_nil] at h
  exact h

theorem parts_sign (p : Punct) : Parts p.text.toList := by
  cases p <;> exact ⟨_, _, rfl, by decide⟩

/-- A sign that nothing joins stands behind anything. -/
theorem Writes.beforeWhole {p : Punct} (h : Writes T us) (hp : p.isWhole = true) :
    Writes (T ++ p.text.toList) (us ++ [.punct p]) :=
  h.append (writes_whole hp) (parts_sign p)

/-- A piece of text is read as the given tokens, whatever follows it. -/
def Closes (T : List Char) (us : List Kind) : Prop := ∀ k ks, Scans k ks → Scans (T ++ k) (us ++ ks)

theorem closes_nil : Closes [] [] := fun _ _ hscans => hscans

theorem closes_whole {p : Punct} (hp : p.isWhole = true) : Closes p.text.toList [.punct p] :=
  fun _ _ hscans => .cons (scansTo_sign fun c _ => Punct.joins_of_isWhole hp c) hscans

/-- Texts that close may be put together. -/
theorem Closes.append (h : Closes T us) (h' : Closes T' vs) : Closes (T ++ T') (us ++ vs) := by
  intro k ks hscans
  rw [List.append_assoc, List.append_assoc]
  exact h _ _ (h' k ks hscans)

theorem Closes.blank (h : Closes T us) : Closes (' ' :: T) us :=
  fun k ks hscans => (h k ks hscans).blank

/-- A word with a blank behind it. -/
theorem closes_word {word : String} (h : isWord word = true) :
    Closes (word.toList ++ [' ']) [wordKind word] := by
  intro k ks hscans
  rw [List.append_assoc]
  refine .cons (scansTo_word h ?_) hscans.blank
  rintro c ⟨⟩
  decide

/-- A text that ends in a sign that nothing joins. -/
theorem Writes.closes {p : Punct} (h : Writes T us) (hp : p.isWhole = true) :
    Closes (T ++ p.text.toList) (us ++ [.punct p]) := by
  intro k ks hscans
  obtain ⟨c, cs, htext, hc⟩ := parts_sign p
  rw [List.append_assoc, List.append_assoc]
  refine h _ _ ?_ (closes_whole hp k ks hscans)
  rw [htext]
  rintro d ⟨⟩
  exact hc

/-- A line and blanks in front of a token that does not mind. -/
theorem Closes.line {u : Kind} {blanks : List Char} (hu : u.mindsLine = false)
    (hblanks : ∀ c ∈ blanks, c = ' ' ∨ c = '\t') (h : Closes T (u :: us)) :
    Closes ('\n' :: (blanks ++ T)) (u :: us) := by
  intro k ks hscans
  have hscans' := ((h k ks hscans).blanks hblanks).line hu
  rw [List.cons_append, List.append_assoc]
  exact hscans'

/-- A point in front of a word. -/
theorem writes_point {word : String} (h : isWord word = true) :
    Writes ('.' :: word.toList) [.punct .dot, wordKind word] := by
  obtain ⟨c, cs, hword, hc, -⟩ := exists_cons_of_isWord h
  have hwrites := writes_word h
  have hpoint : (c == '.') = false := by
    refine beq_false_of_ne ?_
    rintro rfl
    exact absurd hc (by decide)
  rw [hword] at hwrites ⊢
  refine hwrites.afterSign (p := .dot) ?_
  show ((c == '.' || false) || false || c.isDigit) = false
  rw [hpoint, isDigit_of_startsName hc]
  rfl

end Token
end Espalier
