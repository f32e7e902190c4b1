import Espalier.Source.Position
import Espalier.Text.Bytes

/-!
# Reading from one place to another

Two cursors belong together if the second one is what is left of the first one after some text has
been read. Whatever a scanner does, the place where it ends is reached in this way from the place
where it starts.
-/

namespace Espalier

open Text

/-- A text that is not empty has bytes. -/
theorem Text.bytes_pos {cs : List Char} (h : cs ≠ []) : 0 < bytes cs := by
  cases cs with
  | nil => exact absurd rfl h
  | cons c cs =>
    rw [bytes_cons]
    have := c.utf8Size_pos
    omega

namespace Cursor

/-- Reading `text` leads from one place to another. -/
structure Reads (c : Cursor) (text : List Char) (d : Cursor) : Prop where
  rest_eq : c.rest = text ++ d.rest
  pos_eq : d.pos = c.pos + bytes text

/-- Reading some text leads from one place to another. -/
def Reaches (c d : Cursor) : Prop := ∃ text, c.Reads text d

/-- Reading at least one character leads from one place to another. -/
def Passes (c d : Cursor) : Prop := ∃ text, text ≠ [] ∧ c.Reads text d

namespace Reads

theorem refl (c : Cursor) : c.Reads [] c := ⟨rfl, rfl⟩

/-- Reading on reads more. -/
theorem trans {c d e : Cursor} {text more : List Char} (h : c.Reads text d) (h' : d.Reads more e) :
    c.Reads (text ++ more) e := by
  refine ⟨?_, ?_⟩
  · rw [h.rest_eq, h'.rest_eq, List.append_assoc]
  · rw [h'.pos_eq, h.pos_eq, bytes_append, Nat.add_assoc]

/-- One character, and what is read after it. -/
theorem cons {pos : Nat} {ch : Char} {cs text : List Char} {d : Cursor}
    (h : Reads ⟨pos + ch.utf8Size, cs⟩ text d) : Reads ⟨pos, ch :: cs⟩ (ch :: text) d := by
  refine ⟨?_, ?_⟩
  · exact congrArg (ch :: ·) h.rest_eq
  · rw [h.pos_eq, bytes_cons, Nat.add_assoc]

theorem single (pos : Nat) (ch : Char) (cs : List Char) :
    Reads ⟨pos, ch :: cs⟩ [ch] ⟨pos + ch.utf8Size, cs⟩ :=
  cons (refl _)

/-- A text at the start of what is left. -/
theorem append (pos : Nat) (text cs : List Char) :
    Reads ⟨pos, text ++ cs⟩ text ⟨pos + bytes text, cs⟩ :=
  ⟨rfl, rfl⟩

/-- Reading never goes back. -/
theorem pos_le {c d : Cursor} {text : List Char} (h : c.Reads text d) : c.pos ≤ d.pos := by
  rw [h.pos_eq]
  exact Nat.le_add_right _ _

end Reads

/-- What is read is reached. -/
theorem Reads.reaches {c d : Cursor} {text : List Char} (h : c.Reads text d) : c.Reaches d :=
  ⟨text, h⟩

namespace Reaches

theorem refl (c : Cursor) : c.Reaches c := (Reads.refl c).reaches

theorem trans {c d e : Cursor} (h : c.Reaches d) (h' : d.Reaches e) : c.Reaches e := by
  obtain ⟨text, h⟩ := h
  obtain ⟨more, h'⟩ := h'
  exact (h.trans h').reaches

theorem cons {pos : Nat} {ch : Char} {cs : List Char} {d : Cursor}
    (h : Reaches ⟨pos + ch.utf8Size, cs⟩ d) : Reaches ⟨pos, ch :: cs⟩ d := by
  obtain ⟨text, h⟩ := h
  exact h.cons.reaches

theorem pos_le {c d : Cursor} (h : c.Reaches d) : c.pos ≤ d.pos := by
  obtain ⟨text, h⟩ := h
  exact h.pos_le

end Reaches

namespace Passes

/-- What is reached from behind a character is passed to. -/
theorem of_cons {pos : Nat} {ch : Char} {cs : List Char} {d : Cursor}
    (h : Reaches ⟨pos + ch.utf8Size, cs⟩ d) : Passes ⟨pos, ch :: cs⟩ d := by
  obtain ⟨text, h⟩ := h
  exact ⟨ch :: text, List.cons_ne_nil _ _, h.cons⟩

/-- Passing after reaching is passing. -/
theorem of_reaches {c d e : Cursor} (h : c.Reaches d) (h' : d.Passes e) : c.Passes e := by
  obtain ⟨text, h⟩ := h
  obtain ⟨more, hne, h'⟩ := h'
  exact ⟨text ++ more, List.append_ne_nil_of_right_ne_nil text hne, h.trans h'⟩

theorem trans_reaches {c d e : Cursor} (h : c.Passes d) (h' : d.Reaches e) : c.Passes e := by
  obtain ⟨text, hne, h⟩ := h
  obtain ⟨more, h'⟩ := h'
  exact ⟨text ++ more, List.append_ne_nil_of_left_ne_nil hne more, h.trans h'⟩

end Passes

/-! ### One character -/

/-- A step goes past one character. -/
theorem step_cons (pos : Nat) (ch : Char) (cs : List Char) :
    step ⟨pos, ch :: cs⟩ = ⟨pos + ch.utf8Size, cs⟩ :=
  rfl

/-- Where a character is left, a step reads it. -/
theorem reads_step {c : Cursor} {ch : Char} {cs : List Char} (h : c.rest = ch :: cs) :
    c.Reads [ch] c.step := by
  obtain ⟨pos, rest⟩ := c
  cases h
  exact Reads.single pos ch cs

theorem reads_step_of_head? {c : Cursor} {ch : Char} (h : c.rest.head? = some ch) :
    c.Reads [ch] c.step := by
  obtain ⟨cs, hcs⟩ := List.head?_eq_some_iff.mp h
  exact reads_step hcs

/-- Passing moves on. -/
theorem Passes.pos_lt {c d : Cursor} (h : c.Passes d) : c.pos < d.pos := by
  obtain ⟨text, hne, h⟩ := h
  rw [h.pos_eq]
  exact Nat.lt_add_of_pos_right (Text.bytes_pos hne)

end Cursor

/-! ### Borders of characters -/

/-- The number of bytes is the end of a character of the text, or its start. -/
def IsBorder (cs : List Char) (n : Nat) : Prop :=
  ∃ before after, cs = before ++ after ∧ bytes before = n

theorem isBorder_zero (cs : List Char) : IsBorder cs 0 := ⟨[], cs, rfl, rfl⟩

theorem isBorder_bytes (cs : List Char) : IsBorder cs (bytes cs) :=
  ⟨cs, [], (List.append_nil cs).symm, rfl⟩

/-- The first characters of a text take no more bytes than the text. -/
theorem Text.bytes_le_of_isPrefix {cs ds : List Char} (h : cs <+: ds) : bytes cs ≤ bytes ds := by
  obtain ⟨more, rfl⟩ := h
  rw [bytes_append]
  exact Nat.le_add_right _ _

/-- No border lies behind the end. -/
theorem IsBorder.le {cs : List Char} {n : Nat} (h : IsBorder cs n) : n ≤ bytes cs := by
  obtain ⟨before, after, rfl, rfl⟩ := h
  exact Text.bytes_le_of_isPrefix (List.prefix_append before after)

theorem Text.utf8ByteSize_ofList (cs : List Char) : (String.ofList cs).utf8ByteSize = bytes cs := by
  induction cs with
  | nil => rfl
  | cons c cs ih =>
    rw [String.ofList_cons, String.utf8ByteSize_append, String.utf8ByteSize_singleton, ih,
      bytes_cons]

/-- The bytes of a text are those of its characters. -/
theorem Text.bytes_toList (s : String) : bytes s.toList = s.utf8ByteSize := by
  rw [← utf8ByteSize_ofList, String.ofList_toList]

/-- The borders of a string are its valid positions. -/
theorem isBorder_toList_iff {s : String} {n : Nat} :
    IsBorder s.toList n ↔ String.Pos.Raw.IsValid s ⟨n⟩ := by
  rw [String.Pos.Raw.isValid_iff_exists_append]
  constructor
  · rintro ⟨before, after, h, rfl⟩
    refine ⟨String.ofList before, String.ofList after, ?_, ?_⟩
    · rw [← String.ofList_append, ← h, String.ofList_toList]
    · rw [← Text.utf8ByteSize_ofList]
      rfl
  · rintro ⟨before, after, rfl, h⟩
    refine ⟨before.toList, after.toList, String.toList_append, ?_⟩
    rw [Text.bytes_toList]
    exact (congrArg String.Pos.Raw.byteIdx h).symm

/-- Wherever reading leads is a border. -/
theorem Cursor.Reaches.isBorder {cs : List Char} {c : Cursor} (h : Reaches ⟨0, cs⟩ c) :
    IsBorder cs c.pos := by
  obtain ⟨text, hrest, hpos⟩ := h
  exact ⟨text, c.rest, hrest, by rw [hpos, Nat.zero_add]⟩

/-! ### Characters of one byte -/

/-- Characters below U+0080 have one byte. -/
theorem Text.utf8Size_of_lt {c : Char} (h : c.toNat < 128) : c.utf8Size = 1 :=
  Char.utf8Size_eq_one_iff.mpr (UInt32.le_iff_toNat_le.mpr (Nat.le_of_lt_succ h))

theorem Text.utf8Size_of_le {c d : Char} (h : c ≤ d) (hd : d.toNat < 128) : c.utf8Size = 1 :=
  utf8Size_of_lt (Nat.lt_of_le_of_lt (UInt32.le_iff_toNat_le.mp h) hd)

/-- A character that is one of the digits has one byte. -/
theorem Text.utf8Size_of_isDigit {c : Char} (h : c.isDigit = true) : c.utf8Size = 1 := by
  unfold Char.isDigit at h
  rw [Bool.and_eq_true, decide_eq_true_iff, decide_eq_true_iff] at h
  exact @utf8Size_of_le c '9' h.2 (by decide)

end Espalier
