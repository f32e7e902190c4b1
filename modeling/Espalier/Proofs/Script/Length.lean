import Espalier.Proofs.Script.Conversion
import Espalier.Proofs.Source.Cursor
import Espalier.Script.ArrayCall
import Espalier.Script.Property

/-!
# Lengths of texts and arrays

Some operations refuse to make a text of more than `maxLength` bytes or an array of more than
`maxLength` items: sums, `repeat`, `concat`, the writing of an item or of the length of an array,
and `push` (`checked_lengths`). Two more bound what they make in another way: a replacement checks
what it has put together up to the last match, but not what lies behind it, and padding counts
characters. All other operations make texts and arrays that are as long as their parts together
(`exists_joining_gt`).
-/

namespace Espalier.Script

open Text

/-! ### What operations give -/

/-- Whatever an operation gives satisfies a condition. -/
def Gives {α : Type} (x : Script α) (P : α → Prop) : Prop := ∀ m a m', x m = .ok a m' → P a

namespace Gives

variable {α β : Type} {P Q : α → Prop}

theorem of_forall {x : Script α} (h : ∀ a, P a) : Gives x P := fun _ a _ _ => h a

theorem pure {a : α} (h : P a) : Gives (Pure.pure a : Script α) P := by
  rintro m _ _ ⟨⟩
  exact h

theorem raise (fault : Fault) : Gives (Script.raise fault) P := nofun

/-- What the second step gives may rest on what the first one gave. -/
theorem bind {R : β → Prop} {x : Script α} {f : α → Script β} (hx : Gives x P)
    (hf : ∀ a, P a → Gives (f a) R) : Gives (x >>= f) R := by
  intro m b m' heq
  cases hxm : x m with
  | ok a m₁ =>
    rw [bind_eq_of_ok hxm] at heq
    exact hf a (hx m a m₁ hxm) m₁ b m' heq
  | error e m₁ =>
    rw [bind_eq_error hxm] at heq
    cases heq

/-- An operation after another one of whose result nothing is needed. -/
theorem after {R : β → Prop} {x : Script α} {f : α → Script β} (hf : ∀ a, Gives (f a) R) :
    Gives (x >>= f) R :=
  bind (of_forall (P := fun _ => True) fun _ => trivial) fun a _ => hf a

theorem ite {c : Prop} [Decidable c] {x y : Script α} (hx : c → Gives x P) (hy : ¬ c → Gives y P) :
    Gives (if c then x else y) P := by
  split
  · next h => exact hx h
  · next h => exact hy h

/-- What holds at the start, and of each next result, holds at the end. -/
theorem foldlM {f : α → β → Script α} (hf : ∀ a, P a → ∀ b, Gives (f a b) P) {a : α} (ha : P a)
    (bs : List β) : Gives (bs.foldlM f a) P := by
  induction bs generalizing a with
  | nil => exact .pure ha
  | cons b bs ih => exact .bind (hf a ha b) fun a' ha' => ih ha'

end Gives

/-- After the check, the length is known to be within the bound. -/
theorem gives_checkLength (n : Nat) : Gives (checkLength n) fun _ => n ≤ maxLength :=
  .ite (fun _ => .raise _) fun h => .pure (Nat.le_of_not_lt h)

/-! ### Texts -/

/-- If a value is a text, it has at most `n` bytes. -/
def Value.FitsBytes (n : Nat) : Value → Prop
  | .string s => s.utf8ByteSize ≤ n
  | _ => True

/-- If a value is a text, it has at most `n` characters. -/
def Value.FitsChars (n : Nat) : Value → Prop
  | .string s => s.length ≤ n
  | _ => True

/-- A measure of texts that adds up is the same for each of the copies. -/
theorem measure_repeated {f : String → Nat} (hempty : f "" = 0)
    (happend : ∀ s t, f (s ++ t) = f s + f t) (n : Nat) (s : String) :
    f (repeated n s) = f s * n := by
  unfold repeated
  split
  · next h => rw [String.isEmpty_iff.mp h, hempty, Nat.zero_mul]
  · induction n with
    | zero => exact hempty
    | succ n ih => rw [Nat.repeat, happend, ih, Nat.mul_succ]

/-- A repeated text has as many bytes as all its copies. -/
theorem utf8ByteSize_repeated (n : Nat) (s : String) :
    (repeated n s).utf8ByteSize = s.utf8ByteSize * n :=
  measure_repeated rfl (fun _ _ => String.utf8ByteSize_append) n s

theorem length_repeated (n : Nat) (s : String) : (repeated n s).length = s.length * n :=
  measure_repeated rfl String.length_append n s

theorem gives_boundedText (s : String) : Gives (boundedText s) (·.FitsBytes maxLength) :=
  .ite (fun _ => .raise _) fun h => .pure (Nat.le_of_not_lt h)

/-- A text is refused exactly if it is too long. -/
theorem boundedText_eq_raise_iff (s : String) (m : Machine) :
    boundedText s m = raise .stringLength m ↔ maxLength < s.utf8ByteSize := by
  unfold boundedText
  split
  · next h => exact iff_of_true rfl h
  · next h => exact iff_of_false nofun h

/-- A sum that is a text was checked. -/
theorem gives_add (v w : Value) : Gives (add v w) (·.FitsBytes maxLength) :=
  .ite (fun _ => .after fun _ => .after fun _ => .pure trivial) fun _ =>
    .after fun _ => .after fun _ => gives_boundedText _

theorem gives_concat (call : Caller) (s : String) (args : Array Value) :
    Gives (callString call .concat s args) (·.FitsBytes maxLength) :=
  .after fun _ => .bind (gives_checkLength _) fun _ h => .pure h

/-- So was a repeated text. -/
theorem gives_repeats (call : Caller) (s : String) (args : Array Value) :
    Gives (callString call .repeats s args) (·.FitsBytes maxLength) := by
  refine .after fun count => .ite (fun _ => .raise _) fun _ => ?_
  refine .bind (gives_checkLength _) fun _ h => .pure ?_
  rwa [Value.FitsBytes, utf8ByteSize_repeated]

theorem bytes_drop_le (n : Nat) (cs : List Char) : bytes (cs.drop n) ≤ bytes cs :=
  calc bytes (cs.drop n)
    _ ≤ bytes (cs.take n) + bytes (cs.drop n) := Nat.le_add_left _ _
    _ = bytes cs := by rw [← bytes_append, List.take_append_drop]

/-- What lies behind the last match is a part of the subject. -/
theorem bytes_pieces_le (subject : List Char) (ms : List Text.Match) :
    bytes (pieces subject ms).2 ≤ bytes subject := by
  have hfold : ∀ c : Cutting, bytes (ms.foldl Cutting.next c).rest ≤ bytes c.rest := by
    induction ms with
    | nil => exact fun c => Nat.le_refl _
    | cons m ms ih =>
      intro c
      exact Nat.le_trans (ih (c.next m)) (Nat.le_trans (bytes_drop_le _ _) (bytes_drop_le _ _))
  exact hfold _

/-- A replacement is checked for what it puts in, so the subject may come on top. -/
theorem gives_replacing (call : Caller) (subject : String) (pattern replacement : Value)
    (all : Bool) :
    Gives (replacing call subject pattern replacement all)
      (·.FitsBytes (maxLength + subject.utf8ByteSize)) := by
  unfold replacing
  extract_lets cs putTogether
  -- Which matches are meant is settled first, and may be refused.
  have hput : ∀ all, Gives (putTogether all)
      (·.FitsBytes (maxLength + subject.utf8ByteSize)) := fun all => by
    refine .after fun ms => .bind (P := fun done => done.utf8ByteSize ≤ maxLength)
      (.foldlM ?_ (a := "") (Nat.zero_le maxLength) _) fun done hdone => .pure ?_
    · exact fun out _ p => .after fun text => .bind (gives_checkLength _) fun _ h => .pure h
    · rw [Value.FitsBytes, String.utf8ByteSize_append, utf8ByteSize_ofList, ← bytes_toList subject]
      exact Nat.add_le_add hdone (bytes_pieces_le _ _)
  split
  · exact .ite (fun _ => .after hput) fun _ => .after hput
  · exact .after hput

/-! ### Texts that are put together -/

section Parts

variable {m : Machine} {v w : Value} {s t : String}

theorem toText_of_text? (h : m.text? v = some s) : toText v m = .ok s m := by
  rw [toText, toTextLocking_eq, h]

theorem toNumber_of_number? {x : Float} (h : m.number? v = some x) : toNumber v m = .ok x m := by
  rw [toNumber_eq, h]

/-- A sum of which one side is no number is the checked text of both. -/
theorem add_eq_boundedText (hvw : (isSummand v && isSummand w) = false) (hs : m.text? v = some s)
    (ht : m.text? w = some t) : add v w m = boundedText (s ++ t) m := by
  unfold add
  rw [if_neg (by simpa using hvw), bind_eq_of_ok (toText_of_text? hs),
    bind_eq_of_ok (toText_of_text? ht)]

/-- Texts of values that all have one are put together in order. -/
theorem foldlM_toText {vs : List Value} {texts : List String}
    (h : vs.mapM (m.text? ·) = some texts) (s : String) :
    (vs.foldlM (fun out v => return out ++ (← toText v)) s : Script String) m =
      .ok (texts.foldl (· ++ ·) s) m := by
  induction vs generalizing texts s with
  | nil =>
    cases h
    rfl
  | cons v vs ih =>
    rw [List.mapM_cons] at h
    obtain ⟨t, ht, h⟩ := Option.bind_eq_some_iff.mp h
    obtain ⟨rest, hrest, h⟩ := Option.bind_eq_some_iff.mp h
    cases h
    have hfirst : (do return s ++ (← toText v) : Script String) m = .ok (s ++ t) m :=
      bind_eq_of_ok (toText_of_text? ht) _
    rw [List.foldlM_cons, bind_eq_of_ok hfirst]
    exact ih hrest (s ++ t)

/-- What is checked as a length is a bounded text. -/
theorem checkLength_eq_boundedText (s : String) :
    (do checkLength s.utf8ByteSize; return .string s : Script Value) = boundedText s := by
  unfold checkLength boundedText
  split <;> rfl

/-- `concat` gives the checked text of all its arguments. -/
theorem concat_eq_boundedText (call : Caller) {args : Array Value} {texts : List String}
    (h : args.toList.mapM (m.text? ·) = some texts) (s : String) :
    callString call .concat s args m = boundedText (texts.foldl (· ++ ·) s) m := by
  have hall := foldlM_toText h s
  rw [Array.foldlM_toList] at hall
  rw [← checkLength_eq_boundedText]
  exact bind_eq_of_ok hall _

/-- `repeat` gives the checked text for each count it does not refuse. -/
theorem repeats_eq_boundedText (call : Caller) {args : Array Value} {x : Float}
    (h : m.number? (Args.item args 0) = some x) (hx : (x < 0 || x.isNaN || x.isInf) = false)
    (s : String) :
    callString call .repeats s args m = boundedText (repeated (Double.toIntTrunc x).toNat s) m := by
  rw [← checkLength_eq_boundedText, utf8ByteSize_repeated]
  refine (bind_eq_of_ok (toNumber_of_number? h) _).trans ?_
  dsimp only
  rw [if_neg (by simpa using hx)]

end Parts

/-! ### Padding -/

/-- A padding is never longer than asked for. -/
theorem length_padding_le (filler : String) (n : Nat) : (padding filler n).length ≤ n := by
  have hwhole : filler.length * (n / filler.length) ≤ n := Nat.mul_div_le n filler.length
  unfold padding
  rw [String.length_append, length_repeated, String.length_ofList, List.length_take]
  rw [Nat.mul_comm (n / filler.length)]
  omega

/-- An index is taken back to the length. -/
theorem clampedIndex_le (length : Nat) (x : Float) : clampedIndex length x ≤ length := by
  unfold clampedIndex
  split
  · exact Nat.zero_le _
  · split
    · split
      · exact Nat.zero_le _
      · exact Nat.le_refl _
    · exact Nat.min_le_right _ _

/-- The length that a text is padded to is bounded, unless the text itself is longer. -/
theorem gives_target (s : String) (args : Array Value) :
    Gives (callString.target s args) fun p => s.length + p.1 ≤ max s.length maxLength := by
  -- The length that is asked for is clamped to the bound; nothing is added to a longer text.
  have hplace : Gives (Args.place args 0 0 (clampedIndex maxLength)) (· ≤ maxLength) := by
    unfold Args.place
    split
    · exact .pure (Nat.zero_le _)
    · exact .after fun x => .pure (clampedIndex_le _ x)
  have hend : ∀ (length : Nat), length ≤ maxLength → ∀ filler : String,
      s.length + (if filler.isEmpty then 0 else length - s.length) ≤ max s.length maxLength := by
    intro length hlength filler
    split <;> omega
  unfold callString.target
  refine .bind hplace fun length hlength => ?_
  extract_lets counted
  have hcounted : ∀ filler,
      Gives (counted filler) fun p => s.length + p.1 ≤ max s.length maxLength :=
    fun filler => .pure (hend length hlength filler)
  split
  · exact .after hcounted
  · exact .after hcounted

/-- A text with what pads it is not longer than the bound, or is the text itself. -/
theorem gives_padded (s : String) (args : Array Value) (join : String → String → String)
    (hjoin : ∀ t, (join s t).length = s.length + t.length) :
    Gives (do
      let (length, filler) ← callString.target s args
      return .string (if length = 0 then s else join s (padding filler length)))
      (Value.FitsChars (max s.length maxLength)) := by
  refine .bind (gives_target s args) fun ⟨length, filler⟩ h => .pure ?_
  dsimp only at h ⊢
  split
  · exact Nat.le_max_left _ _
  · rw [Value.FitsChars, hjoin]
    exact Nat.le_trans (Nat.add_le_add_left (length_padding_le filler length) _) h

theorem gives_padStart (call : Caller) (s : String) (args : Array Value) :
    Gives (callString call .padStart s args) (·.FitsChars (max s.length maxLength)) :=
  gives_padded s args (fun s t => t ++ s) fun t => by
    rw [String.length_append, Nat.add_comm]

theorem gives_padEnd (call : Caller) (s : String) (args : Array Value) :
    Gives (callString call .padEnd s args) (·.FitsChars (max s.length maxLength)) :=
  gives_padded s args (fun s t => s ++ t) fun t => String.length_append s t

/-! ### Arrays -/

/-- No array gets longer than the bound, or than it was, whether an operation succeeds or not. -/
def KeepsLengths {α : Type} (x : Script α) : Prop :=
  ∀ m a, ((endOf x m).items a).size ≤ max maxLength (m.items a).size

namespace KeepsLengths

variable {α β : Type}

/-- What keeps the arrays keeps their lengths. -/
theorem of_items_eq {x : Script α} (h : ∀ m a, (endOf x m).items a = m.items a) :
    KeepsLengths x := by
  intro m a
  rw [h]
  exact Nat.le_max_right _ _

theorem raise (fault : Fault) : KeepsLengths (Script.raise fault : Script α) :=
  of_items_eq fun _ _ => rfl

theorem pure (a : α) : KeepsLengths (Pure.pure a : Script α) := of_items_eq fun _ _ => rfl

theorem bind {x : Script α} {f : α → Script β} (hx : KeepsLengths x)
    (hf : ∀ a, KeepsLengths (f a)) : KeepsLengths (x >>= f) := by
  intro m b
  have hfirst := hx m b
  unfold endOf at hfirst ⊢
  cases hxm : x m with
  | ok a m₁ =>
    rw [hxm] at hfirst
    rw [bind_eq_of_ok hxm]
    have hnext := hf a m₁ b
    unfold endOf at hnext
    dsimp only at hfirst
    omega
  | error e m₁ =>
    rw [hxm] at hfirst
    rw [bind_eq_error hxm]
    exact hfirst

/-- A conversion keeps all arrays. -/
theorem toTextLocking (locked : Option Container) (v : Value) :
    KeepsLengths (Script.toTextLocking locked v) := by
  refine of_items_eq fun m a => ?_
  unfold endOf
  rw [toTextLocking_eq]
  cases m.text? v locked <;> rfl

end KeepsLengths

/-- Only the array that is changed can get longer. -/
theorem size_items_modifyItems_le {m : Machine} {a : ArrayId} {f : Array Value → Array Value}
    (h : (f (m.items a)).size ≤ max maxLength (m.items a).size) (b : ArrayId) :
    ((endOf (modifyItems a f) m).items b).size ≤ max maxLength (m.items b).size := by
  show ((m.arrays.modify a.place f).getD b.place #[]).size ≤ _
  unfold Machine.items at h ⊢
  simp only [Array.getD_eq_getD_getElem?, Array.getElem?_modify] at h ⊢
  split
  · next heq =>
    rw [← heq]
    cases hitems : m.arrays[a.place]? with
    | none => exact Nat.zero_le _
    | some items =>
      rw [hitems] at h
      exact h
  · exact Nat.le_max_right _ _

theorem size_resize (n : Nat) (items : Array Value) : (resize n items).size = n := by
  unfold resize
  split <;> simp <;> omega

/-- Setting an item makes an array as long as it takes. -/
theorem size_setIfInBounds_resize (i : Nat) (items : Array Value) (v : Value) :
    ((if items.size ≤ i then resize (i + 1) items else items).setIfInBounds i v).size =
      max items.size (i + 1) := by
  rw [Array.size_setIfInBounds]
  split
  · rw [size_resize]
    omega
  · omega

/-- More than fit are refused. -/
theorem callArray_push_of_lt (call : Caller) {a : ArrayId} {args : Array Value} {m : Machine}
    (h : maxLength < (m.items a).size + args.size) :
    callArray call .push a args m = raise .arrayLength m := by
  show (if maxLength < (m.items a).size + args.size then _ else _ : Script Value) m = _
  rw [if_pos h]
  rfl

theorem callArray_push_of_le (call : Caller) {a : ArrayId} {args : Array Value} {m : Machine}
    (h : (m.items a).size + args.size ≤ maxLength) :
    callArray call .push a args m =
      .ok (.nat ((m.items a).size + args.size)) (endOf (modifyItems a (· ++ args)) m) := by
  show (if maxLength < (m.items a).size + args.size then _ else _ : Script Value) m = _
  rw [if_neg (Nat.not_lt_of_le h)]
  rfl

/-- Setting an item or the length keeps within the limit, or what was longer before. -/
theorem keepsLengths_setProperty (a : ArrayId) (key value : Value) :
    KeepsLengths (setProperty (.array a) key value) := by
  unfold setProperty
  dsimp only
  split
  · -- an index is checked, any other key must be the length, which is checked as well
    next i _ =>
    split
    · -- Nothing is written after the refusal.
      exact .of_items_eq fun _ _ => rfl
    · next hi =>
      intro m b
      refine size_items_modifyItems_le ?_ b
      rw [size_setIfInBounds_resize]
      omega
  · refine .bind (.toTextLocking _ key) fun name => ?_
    split
    · split
      · next n hn =>
        have hlt : n < maxLength := by simpa using (Option.filter_eq_some_iff.mp hn).2
        intro m b
        refine size_items_modifyItems_le ?_ b
        rw [size_resize]
        exact Nat.le_trans (Nat.le_of_lt hlt) (Nat.le_max_left _ _)
      · exact .raise _
    · exact .pure _

/-- Pushing keeps within the limit, as more than fit are refused. -/
theorem keepsLengths_push (call : Caller) (a : ArrayId) (args : Array Value) :
    KeepsLengths (callArray call .push a args) := by
  intro m b
  rcases Nat.lt_or_ge maxLength ((m.items a).size + args.size) with hlt | hge
  · rw [endOf, callArray_push_of_lt call hlt]
    exact Nat.le_max_right _ _
  · rw [endOf, callArray_push_of_le call hge]
    refine size_items_modifyItems_le ?_ b
    rw [Array.size_append]
    exact Nat.le_trans hge (Nat.le_max_left _ _)

/-- Pushing is refused exactly if it would go beyond the limit. -/
theorem push_eq_raise_iff (call : Caller) (a : ArrayId) (args : Array Value) (m : Machine) :
    callArray call .push a args m = raise .arrayLength m ↔
      maxLength < (m.items a).size + args.size := by
  rcases Nat.lt_or_ge maxLength ((m.items a).size + args.size) with hlt | hge
  · exact iff_of_true (callArray_push_of_lt call hlt) hlt
  · rw [callArray_push_of_le call hge]
    exact iff_of_false nofun (Nat.not_lt_of_le hge)

/-! ### The bounds -/

/-- The texts of items one after the other are as long as they are together, whatever the bound. -/
theorem exists_joining_gt :
    ∃ s : String, s.utf8ByteSize ≤ maxLength ∧ ∀ m, ∃ t,
      joining "" #[.string s, .string s] m = .ok t m ∧ maxLength < t.utf8ByteSize := by
  have hsize : (repeated maxLength "x").utf8ByteSize = maxLength :=
    (utf8ByteSize_repeated _ _).trans (Nat.one_mul _)
  generalize repeated maxLength "x" = s at hsize
  refine ⟨s, Nat.le_of_eq hsize, fun m => ⟨s ++ s, ?_, ?_⟩⟩
  · show EStateM.Result.ok (s ++ "" ++ s) m = _
    rw [String.append_empty]
  · rw [String.utf8ByteSize_append, hsize]
    exact Nat.lt_add_of_pos_left (Nat.two_pow_pos 24)

/-- **The lengths that are checked.** A text is refused as too long exactly if it has more than
`maxLength` bytes, and the texts that a sum, `concat` and `repeat` put together are refused or made
in this way. A replacement makes at most `maxLength` bytes and those of its subject, padding at most
`maxLength` characters. When an item or the length of an array is written, and when items are
pushed, no array gets longer than `maxLength` items, and items are refused exactly if one did. The
texts of the items of an array are joined beyond the bound. -/
theorem checked_lengths (call : Caller) :
    (∀ s m, boundedText s m = raise .stringLength m ↔ maxLength < s.utf8ByteSize) ∧
      (∀ v w s t m, (isSummand v && isSummand w) = false → m.text? v = some s →
        m.text? w = some t → add v w m = boundedText (s ++ t) m) ∧
      (∀ args texts m, args.toList.mapM (m.text? ·) = some texts → ∀ s,
        callString call .concat s args m = boundedText (texts.foldl (· ++ ·) s) m) ∧
      (∀ args x m, m.number? (Args.item args 0) = some x →
        (x < 0 || x.isNaN || x.isInf) = false → ∀ s,
        callString call .repeats s args m =
          boundedText (repeated (Double.toIntTrunc x).toNat s) m) ∧
      (∀ v w, Gives (add v w) (·.FitsBytes maxLength)) ∧
      (∀ s args, Gives (callString call .concat s args) (·.FitsBytes maxLength)) ∧
      (∀ s args, Gives (callString call .repeats s args) (·.FitsBytes maxLength)) ∧
      (∀ s pattern replacement all, Gives (replacing call s pattern replacement all)
        (·.FitsBytes (maxLength + s.utf8ByteSize))) ∧
      (∀ s args, Gives (callString call .padStart s args) (·.FitsChars (max s.length maxLength))) ∧
      (∀ s args, Gives (callString call .padEnd s args) (·.FitsChars (max s.length maxLength))) ∧
      (∀ a key value, KeepsLengths (setProperty (.array a) key value)) ∧
      (∀ a args, KeepsLengths (callArray call .push a args)) ∧
      (∀ a args m, callArray call .push a args m = raise .arrayLength m ↔
        maxLength < (m.items a).size + args.size) ∧
      ∃ s : String, s.utf8ByteSize ≤ maxLength ∧ ∀ m, ∃ t,
        joining "" #[.string s, .string s] m = .ok t m ∧ maxLength < t.utf8ByteSize := by
  refine ⟨boundedText_eq_raise_iff, ?_, ?_, ?_, gives_add, gives_concat call, gives_repeats call,
    gives_replacing call, gives_padStart call, gives_padEnd call, keepsLengths_setProperty,
    keepsLengths_push call, push_eq_raise_iff call, exists_joining_gt⟩
  · exact fun _ _ _ _ _ => add_eq_boundedText
  · exact fun _ _ _ => concat_eq_boundedText call
  · exact fun _ _ _ => repeats_eq_boundedText call

/-- The text of a sum of two texts is made as a bounded text. -/
theorem checked_lengths_of_sum :
    let m : Machine := { budget := {} }
    add (.string "a") (.string "b") m = boundedText ("a" ++ "b") m ∧
      add (.string "a") (.string "b") m ≠ raise .stringLength m := by
  intro m
  obtain ⟨hbounded, hadd, -⟩ := checked_lengths fun v _ _ => pure v
  have hsum := hadd (.string "a") (.string "b") "a" "b" m rfl rfl rfl
  refine ⟨hsum, fun h => ?_⟩
  rw [hsum, hbounded] at h
  exact absurd h (by decide)

end Espalier.Script
