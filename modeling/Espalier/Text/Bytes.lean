/-!
# Byte widths of text

Offsets count bytes of the UTF-8 form, while the library works on lists of characters. `bytes` is
the bridge: the offset reached after a list of characters has been read.
-/

namespace Espalier.Text

/-- The number of bytes of the UTF-8 form of `cs`. -/
def bytes : List Char → Nat
  | [] => 0
  | c :: cs => c.utf8Size + bytes cs

@[simp] theorem bytes_nil : bytes [] = 0 := rfl

@[simp] theorem bytes_cons (c : Char) (cs : List Char) :
    bytes (c :: cs) = c.utf8Size + bytes cs := rfl

@[simp] theorem bytes_append (cs ds : List Char) : bytes (cs ++ ds) = bytes cs + bytes ds := by
  induction cs with
  | nil => simp
  | cons c cs ih => simp [ih, Nat.add_assoc]

/-- The number of bytes of the UTF-8 form of `cs` and `acc` more, by a loop that needs no stack. -/
def bytesFrom (acc : Nat) : List Char → Nat
  | [] => acc
  | c :: cs => bytesFrom (acc + c.utf8Size) cs

/-- What is left of `cs` after its first `n` bytes, if `n` is the end of one of its characters or
the start. -/
def dropBytes? : List Char → Nat → Option (List Char)
  | cs, 0 => some cs
  | [], _ + 1 => none
  | c :: cs, n + 1 => if n + 1 < c.utf8Size then none else dropBytes? cs (n + 1 - c.utf8Size)

end Espalier.Text
