import Espalier.Proofs.Decimal.Whole
import Espalier.Proofs.Script.Length
import Espalier.Proofs.Text.Search

/-!
# Searching, splitting and replacing

A number that denotes a natural number is taken for a place as it is, up to the end of the text. So
the methods that look for a text say what slicing says (`search_agrees_with_slices`): a place is
one at which a slice of the right length is the text looked for. Splitting, joining and replacing
all rest on the parts between the matches (`Text.Parts`): joined by the separator they are the text
again, and joined by another text they are what replacing gives (`split_join_replace`).
-/

namespace Espalier.Script

open Double Text

variable {x y : Float} {i j : Nat} {s t r : String} {m : Machine} {call : Caller}

/-! ### Places as numbers -/

/-- An index that is a number is taken back to the length. -/
theorem clampedIndex_of_denotes (h : Denotes x i) (length : Nat) :
    clampedIndex length x = min i length := by
  unfold clampedIndex
  rw [h.isNaN_eq, h.isInf_eq, h.toIntTrunc_eq]
  rfl

/-- So is one that may count from the end, since it does not. -/
theorem relativeIndex_of_denotes (h : Denotes x i) (length : Nat) :
    relativeIndex length x = min i length := by
  unfold relativeIndex
  rw [h.isNaN_eq, h.isInf_eq, h.toIntTrunc_eq]
  dsimp only
  rw [if_neg Bool.false_ne_true, if_neg Bool.false_ne_true,
    if_neg (Int.not_lt_of_ge (Int.natCast_nonneg i))]
  rfl

/-- No place is minus one. -/
theorem nat_ne_minus_one (n : Nat) : Value.nat n ≠ .number (-1) := by
  intro h
  have hbits : 2048 * leading ≤ (-1 : Float).toBits.toNat := by decide +kernel
  have hlt := toBits_ofNat_lt n
  rw [Value.nat] at h
  injection h with h
  rw [h] at hlt
  omega

/-- A value is the best one among some places, or minus one if there are none. -/
def Value.IsPlace (best : Set Nat → Nat → Prop) (places : Set Nat) (v : Value) : Prop :=
  (∃ j, best places j ∧ v = .nat j) ∨ places = ∅ ∧ v = .number (-1)

/-- A text `t` can be sliced out of `s` at a place. -/
def SlicesAt (s t : String) (j : Nat) : Prop := slice s.toList j (j + t.length) = t.toList

instance : Decidable (SlicesAt s t j) := inferInstanceAs (Decidable (_ = _))

/-- A text is a slice at a place if what follows there starts with it. -/
theorem slicesAt_iff : SlicesAt s t j ↔ t.toList <+: s.toList.drop j := by
  unfold SlicesAt
  rw [← String.length_toList, slice_eq_iff]

/-- Bounds behind the end are as good as the end. -/
theorem slice_min (cs : List Char) (j k : Nat) :
    slice cs (min j cs.length) (min k cs.length) = slice cs j k := by
  unfold slice
  rcases Nat.le_total j cs.length with hj | hj
  · rw [Nat.min_eq_left hj]
    rcases Nat.le_total k cs.length with hk | hk
    · rw [Nat.min_eq_left hk]
    · rw [Nat.min_eq_right hk, List.take_of_length_le, List.take_of_length_le]
      · rw [List.length_drop]
        omega
      · rw [List.length_drop]
  · rw [Nat.min_eq_right hj, List.drop_length, List.drop_of_length_le hj, List.take_nil,
      List.take_nil]

/-- `indexOf` looks from the place given on. -/
theorem callString_indexOf (call : Caller) (hx : Denotes x i) (s t : String) (m : Machine) :
    callString call .indexOf s #[.string t, .number x] m =
      .ok (.placeOrNone
        (findFrom? t.toList (min i s.length) (s.toList.drop (min i s.length)))) m := by
  rw [← clampedIndex_of_denotes hx]
  rfl

/-- `includes` looks from the place given on, too. -/
theorem callString_includes (call : Caller) (hx : Denotes x i) (s t : String) (m : Machine) :
    callString call .includes s #[.string t, .number x] m =
      .ok (.bool (find? t.toList (s.toList.drop (min i s.length))).isSome) m := by
  rw [← clampedIndex_of_denotes hx]
  rfl

/-- `startsWith` looks at the place given alone. -/
theorem callString_startsWith (call : Caller) (hx : Denotes x i) (s t : String) (m : Machine) :
    callString call .startsWith s #[.string t, .number x] m =
      .ok (.bool (t.toList.isPrefixOf (s.toList.drop (min i s.length)))) m := by
  rw [← clampedIndex_of_denotes hx]
  rfl

/-- `slice` takes what lies between two places. -/
theorem callString_slice (call : Caller) {k : Nat} (hx : Denotes x j) (hy : Denotes y k)
    (s : String) (m : Machine) :
    callString call .slice s #[.number x, .number y] m = .ok (.ofChars (slice s.toList j k)) m := by
  rw [← slice_min, String.length_toList, ← relativeIndex_of_denotes hx,
    ← relativeIndex_of_denotes hy]
  rfl

/-- What a search gives as a value. -/
theorem isPlace_placeOrNone {best : Set Nat → Nat → Prop} {places : Set Nat} {found : Option Nat}
    (hsome : ∀ j, found = some j → best places j) (hnone : found = none → places = ∅) :
    (Value.placeOrNone found).IsPlace best places := by
  cases found with
  | none => exact .inr ⟨hnone rfl, rfl⟩
  | some j => exact .inl ⟨j, hsome j rfl, rfl⟩

/-- A place was found if it is not told as one below zero. -/
theorem placeOrNone_ne_iff (found : Option Nat) :
    Value.placeOrNone found ≠ .number (-1) ↔ found.isSome = true := by
  cases found with
  | none => simp [Value.placeOrNone]
  | some j => simp [Value.placeOrNone, nat_ne_minus_one]

/-- **Searching agrees with slicing.** For a whole number `i`, `indexOf` gives the least place from
`i` on, or from the end if that comes first, at which the text looked for can be sliced out, and
minus one if there is none; `includes` tells whether it gives a place, `startsWith` whether the
start is such a place, and `lastIndexOf` gives the greatest of all places. -/
theorem search_agrees_with_slices (call : Caller) (hx : Denotes x i) (s t : String) (m : Machine) :
    (∀ n < 2 ^ 53, Denotes (Double.ofNat n) n) ∧
      (∀ y z j k, Denotes y j → Denotes z k →
        callString call .slice s #[.number y, .number z] m =
          .ok (.ofChars (slice s.toList j k)) m) ∧
      (∃ v found, callString call .indexOf s #[.string t, .number x] m = .ok v m ∧
        v.IsPlace IsLeast {j | min i s.length ≤ j ∧ SlicesAt s t j} ∧
        callString call .includes s #[.string t, .number x] m = .ok (.bool found) m ∧
        (found = true ↔ v ≠ .number (-1))) ∧
      (∃ starts, callString call .startsWith s #[.string t, .number x] m = .ok (.bool starts) m ∧
        (starts = true ↔ SlicesAt s t (min i s.length))) ∧
      ∃ v, callString call .lastIndexOf s #[.string t] m = .ok v m ∧
        v.IsPlace IsGreatest {j | j ≤ s.length ∧ SlicesAt s t j} := by
  simp only [slicesAt_iff]
  refine ⟨fun n => denotes_ofNat, fun y z j k hy hz => callString_slice call hy hz s m, ?_, ?_, ?_⟩
  · refine ⟨_, _, callString_indexOf call hx s t m, ?_, callString_includes call hx s t m, ?_⟩
    · apply isPlace_placeOrNone
      · exact fun j hj => isLeast_of_findFrom? hj
      · intro hno
        exact Set.eq_empty_of_forall_notMem fun j hj => not_prefix_of_findFrom? hno hj.1 hj.2
    · rw [placeOrNone_ne_iff, find?, ← not_iff_not, Option.not_isSome_iff_eq_none,
        Option.not_isSome_iff_eq_none, findFrom?_eq_none_iff, findFrom?_eq_none_iff]
  · exact ⟨_, callString_startsWith call hx s t m, List.isPrefixOf_iff_prefix⟩
  · refine ⟨.placeOrNone (findLast? t.toList s.toList), rfl, ?_⟩
    rw [← String.length_toList]
    -- the last place found so far is carried along; at the end it is the greatest
    rcases findLastFrom?_cases t.toList 0 none s.toList with ⟨k, hk, heq⟩ | ⟨hno, heq⟩
    · apply isPlace_placeOrNone
      · intro j hj
        rw [findLast?, heq, Nat.zero_add] at hj
        exact Option.some.inj hj ▸ hk
      · intro hnone
        rw [findLast?, heq] at hnone
        cases hnone
    · apply isPlace_placeOrNone
      · intro j hj
        rw [findLast?, heq] at hj
        cases hj
      · intro _
        exact Set.eq_empty_of_forall_notMem fun j hj => hno j hj.1 hj.2

/-- In the middle of a text of characters that take more than one byte. -/
theorem search_behind_a_start :
    Denotes (Double.ofNat 2) 2 ∧ ∀ v m,
      callString (fun _ _ _ => pure .undefined) .indexOf "aßaßa"
        #[.string "ßa", .number (Double.ofNat 2)] { budget := {} } = .ok v m → v = .nat 3 := by
  have hstart : Denotes (Double.ofNat 2) 2 := denotes_ofNat (by decide)
  obtain ⟨-, -, ⟨v, -, hv, hplace, -⟩, -⟩ :=
    search_agrees_with_slices (fun _ _ _ => pure .undefined) hstart "aßaßa" "ßa" { budget := {} }
  have hleast : IsLeast {j | min 2 "aßaßa".length ≤ j ∧ SlicesAt "aßaßa" "ßa" j} 3 := by
    refine ⟨⟨by decide, by decide⟩, ?_⟩
    rintro j ⟨hj, hslice⟩
    have hj : 2 ≤ j := hj
    have hne : j ≠ 2 := by
      rintro rfl
      exact absurd hslice (by decide)
    omega
  refine ⟨hstart, fun w m hw => ?_⟩
  rw [hv] at hw
  injection hw with hw
  rw [← hw]
  rcases hplace with ⟨j, hj, rfl⟩ | ⟨hnone, -⟩
  · rw [hj.unique hleast]
  · exact absurd (hnone ▸ hleast.1) (Set.notMem_empty 3)

/-! ### Splitting and joining -/

/-- The parts between the places of a separator, or the characters if the separator is empty. -/
def separated (s t : String) : List (List Char) :=
  if t.toList.isEmpty then s.toList.map ([·]) else gaps s.toList (matchesOf t.toList s.toList)

/-- A text is split at another one into the parts between its places. -/
theorem splitting_eq (s t : String) (m : Machine) :
    splitting s (.string t) m = .ok ((separated s t).map Value.ofChars) m := by
  have hchars : s.toList.map Value.char = (s.toList.map ([·])).map Value.ofChars := by
    rw [List.map_map]
    apply List.map_congr_left
    intro c _
    show Value.string (String.singleton c) = .string (String.ofList [c])
    rw [String.singleton_eq_ofList]
  show EStateM.Result.ok (if t.toList.isEmpty then s.toList.map Value.char
    else (gaps s.toList (matchesOf t.toList s.toList)).map Value.ofChars) m = _
  rw [separated, apply_ite (List.map Value.ofChars), hchars]

/-- The machine with one more array. -/
def Machine.withArray (m : Machine) (items : Array Value) : Machine :=
  { m with arrays := m.arrays.push items }

/-- `split` gives a new array of the parts. -/
theorem callString_split (call : Caller) (s t : String) (m : Machine) :
    callString call .split s #[.string t] m =
      .ok (.array ⟨m.arrays.size⟩) (m.withArray ((separated s t).map Value.ofChars).toArray) := by
  show (splitting s (.string t) >>= fun parts => newArray parts.toArray : Script Value) m = _
  rw [bind_eq_of_ok (splitting_eq s t m)]
  rfl

/-- A new array holds what it was made of. -/
theorem items_withArray (m : Machine) (items : Array Value) :
    (m.withArray items).items ⟨m.arrays.size⟩ = items := by
  simp [Machine.items, Machine.withArray]

/-- Each part is its own text. -/
theorem mapM_texts (ps : List (List Char)) (m : Machine) :
    ((ps.map Value.ofChars).mapM fun v => if v.isNullish then pure "" else toText v : Script _) m =
      .ok (ps.map String.ofList) m := by
  induction ps with
  | nil => rfl
  | cons p ps ih =>
    rw [List.map_cons, List.mapM_cons]
    show (_ >>= fun texts => pure (String.ofList p :: texts) : Script (List String)) m = _
    rw [bind_eq_of_ok ih]
    rfl

/-- Joining parts puts the separator between them. -/
theorem joining_texts (separator : String) (ps : List (List Char)) (m : Machine) :
    joining separator (ps.map Value.ofChars).toArray m =
      .ok (separator.intercalate (ps.map String.ofList)) m := by
  unfold joining
  rw [List.toList_toArray, bind_eq_of_ok (mapM_texts ps m)]
  rfl

/-- `join` puts its argument between the items. -/
theorem callArray_join (call : Caller) (m : Machine) {a : ArrayId} {ps : List (List Char)}
    (h : m.items a = (ps.map Value.ofChars).toArray) (separator : String) :
    callArray call .join a #[.string separator] m =
      .ok (.string (separator.intercalate (ps.map String.ofList))) m := by
  show (joining separator (m.items a) >>= fun text => pure (Value.string text) : Script Value) m = _
  rw [h, bind_eq_of_ok (joining_texts separator ps m)]
  rfl

/-- Joining texts is joining their characters. -/
theorem intercalate_ofList (t : String) (ps : List (List Char)) :
    t.intercalate (ps.map String.ofList) = String.ofList (t.toList.intercalate ps) := by
  apply String.toList_inj.mp
  rw [String.toList_intercalate, String.toList_ofList, List.map_map]
  congr 1
  calc ps.map (String.toList ∘ String.ofList)
    _ = ps.map id := List.map_congr_left fun p _ => String.toList_ofList
    _ = ps := List.map_id ps

/-- The characters joined by nothing are the text. -/
theorem intercalate_singletons (cs : List Char) : [].intercalate (cs.map ([·])) = cs := by
  induction cs with
  | nil => rfl
  | cons c cs ih =>
    cases cs with
    | nil => rfl
    | cons d cs =>
      calc [].intercalate ([c] :: [d] :: cs.map ([·]))
        _ = [c] ++ [].intercalate ((d :: cs).map ([·])) := List.intercalate_cons_cons
        _ = c :: d :: cs := congrArg (c :: ·) ih

/-- The parts with the separator between them are the text. -/
theorem intercalate_separated (s t : String) :
    t.intercalate ((separated s t).map String.ofList) = s := by
  rw [intercalate_ofList, separated]
  split
  · next hempty =>
    rw [List.isEmpty_iff.mp hempty, intercalate_singletons, String.ofList_toList]
  · next hempty =>
    have hpat : t.toList ≠ [] := fun hnil => hempty (List.isEmpty_iff.mpr hnil)
    rw [(parts_gaps hpat s.toList).intercalate, String.ofList_toList]

/-! ### Replacing -/

/-- A replacement without a dollar stands for itself. -/
theorem replacementOf_plain (call : Caller) (subject : String) (hr : '$' ∉ r.toList) (p : Piece)
    (m : Machine) : replacementOf call subject (.string r) p m = .ok r m := by
  have hdollar : r.contains '$' = false := by
    rw [String.contains_char_eq]
    exact decide_eq_false hr
  show (if r.contains '$' then _ else _ : Script String) m = _
  rw [if_neg (by rw [hdollar]; exact Bool.false_ne_true)]
  rfl

/-- Puts what stands in place of a match behind the gap in front of it. -/
def putBehind (call : Caller) (s : String) (replacement : Value) (out : String) (p : Piece) :
    Script String := do
  let out := out ++ String.ofList p.gap
  let out := out ++ (← replacementOf call s replacement p)
  checkLength out.utf8ByteSize
  return out

/-- Once its matches are known, a text is put together from the gaps between them. -/
theorem replacing_of_matches (call : Caller) (s t : String) (replacement : Value) (all : Bool)
    {ms : List Text.Match} (hms : matchesIn s.toList (.string t) all m = .ok ms m) :
    replacing call s (.string t) replacement all m =
      ((pieces s.toList ms).1.foldlM (putBehind call s replacement) "" >>= fun done =>
        pure (.string (done ++ String.ofList (pieces s.toList ms).2)) : Script Value) m := by
  show (matchesIn s.toList (.string t) all >>= fun ms => (pieces s.toList ms).1.foldlM _ "" >>=
    fun done => pure (.string (done ++ String.ofList (pieces s.toList ms).2)) : Script Value) m = _
  rw [bind_eq_of_ok hms]
  rfl

/-- A replacement without a dollar sign is put in as it is. -/
theorem putBehind_plain (call : Caller) (s : String) (hr : '$' ∉ r.toList) {out : String}
    {p : Piece} (m : Machine) (hfits : (out ++ String.ofList p.gap ++ r).utf8ByteSize ≤ maxLength) :
    putBehind call s (.string r) out p m = .ok (out ++ String.ofList p.gap ++ r) m := by
  unfold putBehind
  rw [bind_eq_of_ok (replacementOf_plain call s hr p m)]
  unfold checkLength
  rw [if_neg (Nat.not_lt_of_le hfits)]
  rfl

/-- Where the whole fits, what is put together are the gaps with the text between them. -/
theorem putBehind_foldlM (call : Caller) (s rest : String) (hr : '$' ∉ r.toList) (ps : List Piece)
    (out : String) (m : Machine)
    (h : (out ++ r.intercalate (ps.map (String.ofList ·.gap) ++ [rest])).utf8ByteSize ≤ maxLength) :
    ∃ done, ps.foldlM (putBehind call s (.string r)) out m = .ok done m ∧
      done ++ rest = out ++ r.intercalate (ps.map (String.ofList ·.gap) ++ [rest]) := by
  induction ps generalizing out with
  | nil => exact ⟨out, rfl, by rw [List.map_nil, List.nil_append, String.intercalate_singleton]⟩
  | cons p ps ih =>
    have hrest : ps.map (String.ofList ·.gap) ++ [rest] ≠ [] :=
      List.append_ne_nil_of_right_ne_nil _ (List.cons_ne_nil _ _)
    have hwhole : out ++ r.intercalate ((p :: ps).map (String.ofList ·.gap) ++ [rest]) =
        out ++ String.ofList p.gap ++ r ++
          r.intercalate (ps.map (String.ofList ·.gap) ++ [rest]) := by
      rw [List.map_cons, List.cons_append, String.intercalate_cons_of_ne_nil hrest]
      simp only [String.append_assoc]
    rw [hwhole] at h ⊢
    obtain ⟨done, hdone, heq⟩ := ih _ h
    refine ⟨done, ?_, heq⟩
    -- what is put together first is a part of the whole, which fits
    have hfits : (out ++ String.ofList p.gap ++ r).utf8ByteSize ≤ maxLength := by
      rw [String.utf8ByteSize_append] at h
      omega
    rw [List.foldlM_cons, bind_eq_of_ok (putBehind_plain call s hr m hfits)]
    exact hdone

/-- The matches of a text with another text in place of each. -/
theorem replacing_eq (call : Caller) (s t : String) (hr : '$' ∉ r.toList) (all : Bool)
    {ms : List Text.Match} (hms : matchesIn s.toList (.string t) all m = .ok ms m) {joined : String}
    (hjoined : joined = r.intercalate ((gaps s.toList ms).map String.ofList))
    (h : joined.utf8ByteSize ≤ maxLength) :
    replacing call s (.string t) (.string r) all m = .ok (.string joined) m := by
  have hwhole : joined = "" ++ r.intercalate ((pieces s.toList ms).1.map (String.ofList ·.gap) ++
      [String.ofList (pieces s.toList ms).2]) := by
    rw [hjoined, gaps, List.map_append, List.map_map, String.empty_append]
    rfl
  obtain ⟨done, hdone, heq⟩ := putBehind_foldlM call s _ hr _ "" m (hwhole ▸ h)
  rw [replacing_of_matches call s t _ all hms, bind_eq_of_ok hdone, heq, ← hwhole]
  rfl

/-- A text without a match stays as it is. -/
theorem replacing_none (call : Caller) (s t r : String) (all : Bool)
    (hms : matchesIn s.toList (.string t) all m = .ok [] m) :
    replacing call s (.string t) (.string r) all m = .ok (.string s) m := by
  rw [replacing_of_matches call s t _ all hms]
  show EStateM.Result.ok (Value.string ("" ++ String.ofList s.toList)) m = _
  rw [String.ofList_toList, String.empty_append]

/-- A text is looked for at all places. -/
theorem matchesIn_all (s t : String) (m : Machine) :
    matchesIn s.toList (.string t) true m = .ok (matchesOf t.toList s.toList) m := rfl

/-- Or at the first one alone. -/
theorem matchesIn_first (s t : String) (m : Machine) :
    matchesIn s.toList (.string t) false m =
      .ok ((find? t.toList s.toList).map (matchAt t.toList)).toList m := rfl

/-- **Splitting, joining and replacing agree.** The parts that a text is split into, with the
separator between them, are the text. With another text between them they are what `replaceAll`
gives, and with another text in place of the first match alone, what `replace` gives, unless it is
too long. -/
theorem split_join_replace (call : Caller) (s t : String) (m : Machine) :
    (∃ a m', callString call .split s #[.string t] m = .ok (.array a) m' ∧
      callArray call .join a #[.string t] m' = .ok (.string s) m') ∧
    ∀ r : String, t ≠ "" → '$' ∉ r.toList →
      (∃ ps a m' joined, Parts t.toList s.toList ps ∧
        callString call .split s #[.string t] m = .ok (.array a) m' ∧
        m'.items a = (ps.map Value.ofChars).toArray ∧
        callArray call .join a #[.string r] m' = .ok (.string joined) m' ∧
        joined = r.intercalate (ps.map String.ofList) ∧
        (joined.utf8ByteSize ≤ maxLength →
          callString call .replaceAll s #[.string t, .string r] m = .ok (.string joined) m)) ∧
      (∀ before after replaced, Cuts t.toList s.toList before after →
        replaced = String.ofList before ++ r ++ String.ofList after →
        replaced.utf8ByteSize ≤ maxLength →
        callString call .replace s #[.string t, .string r] m = .ok (.string replaced) m) ∧
      (¬t.toList <:+: s.toList →
        callString call .replace s #[.string t, .string r] m = .ok (.string s) m) := by
  have hitems := items_withArray m ((separated s t).map Value.ofChars).toArray
  constructor
  · refine ⟨_, _, callString_split call s t m, ?_⟩
    rw [callArray_join call _ hitems, intercalate_separated]
  · intro r ht hr
    have hpat : t.toList ≠ [] := fun hnil => ht (String.toList_eq_nil_iff.mp hnil)
    -- a separator that is not empty has parts between its places
    have hparts : separated s t = gaps s.toList (matchesOf t.toList s.toList) :=
      if_neg fun hempty => hpat (List.isEmpty_iff.mp hempty)
    refine ⟨?_, ?_, ?_⟩
    · refine ⟨separated s t, _, _, _, hparts ▸ parts_gaps hpat s.toList,
        callString_split call s t m, hitems, callArray_join call _ hitems r, rfl,
        fun hfits => ?_⟩
      exact replacing_eq call s t hr true (matchesIn_all s t m) (by rw [hparts]) hfits
    · intro before after replaced hcuts hreplaced hfits
      -- only the first place is replaced, and the rest of the text stays whole
      apply replacing_eq call s t hr false (matchesIn_first s t m) _ hfits
      rw [gaps_first hcuts, hreplaced]
      rfl
    · intro hno
      have hms := matchesIn_first s t m
      rw [find?, findFrom?_eq_none_iff.mpr hno] at hms
      exact replacing_none call s t r false hms

/-- Where two places overlap, it is the first one that is cut out. -/
theorem split_join_replace_overlapping :
    "aba" ≠ "" ∧ '$' ∉ "x".toList ∧
      callString (fun _ _ _ => pure .undefined) .replaceAll "ababa" #[.string "aba", .string "x"]
        { budget := {} } = .ok (.string "xba") { budget := {} } := by
  have hpat : "aba" ≠ "" := by decide
  have hr : '$' ∉ "x".toList := by decide
  refine ⟨hpat, hr, ?_⟩
  obtain ⟨-, hreplace⟩ :=
    split_join_replace (fun _ _ _ => pure .undefined) "ababa" "aba" { budget := {} }
  obtain ⟨⟨ps, _, _, joined, hparts, -, -, -, hjoined, hall⟩, -, -⟩ := hreplace "x" hpat hr
  have hfirst : Cuts "aba".toList "ababa".toList [] "ba".toList :=
    ⟨by decide, fun _ _ _ => Nat.zero_le _⟩
  obtain rfl : ps = [[], "ba".toList] := hparts.unique (.cut hfirst (.last (by decide)))
  obtain rfl : joined = "xba" := hjoined.trans (by decide)
  exact hall (by decide)

end Espalier.Script
