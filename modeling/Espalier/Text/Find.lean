/-!
# Finding texts in texts

Where one text stands in another. The empty text stands everywhere, the end included.
-/

namespace Espalier.Text

/-- The first place of `pat`, places being counted from `pos`. -/
def findFrom? (pat : List Char) (pos : Nat) : List Char → Option Nat
  | [] => if pat.isEmpty then some pos else none
  | c :: cs => if pat.isPrefixOf (c :: cs) then some pos else findFrom? pat (pos + 1) cs

/-- How many characters lie before the first place of `pat`. -/
def find? (pat cs : List Char) : Option Nat := findFrom? pat 0 cs

/-- The last place of `pat`, or else `last`. -/
def findLastFrom? (pat : List Char) (pos : Nat) (last : Option Nat) : List Char → Option Nat
  | [] => if pat.isEmpty then some pos else last
  | c :: cs =>
    findLastFrom? pat (pos + 1) (if pat.isPrefixOf (c :: cs) then some pos else last) cs

/-- How many characters lie before the last place of `pat`. -/
def findLast? (pat cs : List Char) : Option Nat := findLastFrom? pat 0 none cs

/-- The places of `pat` that do not overlap, the first one first. No place is looked for among the
next `skip` characters; `found` are the places before, in reverse. -/
def placesFrom (pat : List Char) (pos skip : Nat) (found : List Nat) : List Char → List Nat
  | [] => (if skip = 0 ∧ pat.isEmpty then pos :: found else found).reverse
  | c :: cs =>
    match skip with
    | skip + 1 => placesFrom pat (pos + 1) skip found cs
    | 0 =>
      if pat.isPrefixOf (c :: cs) then placesFrom pat (pos + 1) (pat.length - 1) (pos :: found) cs
      else placesFrom pat (pos + 1) 0 found cs

/-- The places of `pat` that do not overlap, the first one first. -/
def places (pat cs : List Char) : List Nat := placesFrom pat 0 0 [] cs

/-- The characters from `start` up to `stop`, which is not included. -/
def slice (cs : List Char) (start stop : Nat) : List Char := (cs.drop start).take (stop - start)

/-- What lies before and after the first place of `pat`. -/
def cut? (pat cs : List Char) : Option (List Char × List Char) :=
  (find? pat cs).map fun i => (cs.take i, cs.drop (i + pat.length))

theorem findFrom?_eq_some {pat cs : List Char} {pos i : Nat} (h : findFrom? pat pos cs = some i) :
    pos ≤ i ∧ pat <+: cs.drop (i - pos) := by
  induction cs generalizing pos with
  | nil => simp_all [findFrom?]
  | cons c cs ih =>
    rw [findFrom?] at h
    split at h
    · next hp =>
      obtain rfl := Option.some.inj h
      simpa using hp
    · obtain ⟨hle, hp⟩ := ih h
      refine ⟨by omega, ?_⟩
      rwa [show i - pos = (i - (pos + 1)) + 1 by omega, List.drop_succ_cons]

theorem eq_append_of_cut? {pat cs before after : List Char}
    (h : cut? pat cs = some (before, after)) : cs = before ++ pat ++ after := by
  obtain ⟨i, hi, he⟩ := Option.map_eq_some_iff.1 h
  obtain ⟨rfl, rfl⟩ := Prod.mk.inj he
  obtain ⟨-, rest, hrest⟩ := findFrom?_eq_some hi
  rw [Nat.sub_zero] at hrest
  rw [← List.drop_drop, ← hrest, List.drop_left, List.append_assoc, hrest, List.take_append_drop]

end Espalier.Text
