/-!
# Keys

Key presses and the combinations of keys that set off an action.
-/

namespace Espalier

/-- A key press: the name of the key and the modifiers that were held. -/
structure KeyEvent where
  code : String
  shift : Bool := false
  ctrl : Bool := false
  alt : Bool := false
  metaKey : Bool := false
  deriving DecidableEq, Repr, Inhabited

/-- A combination of keys; Shift and Enter unless told otherwise. -/
structure KeyChord where
  code : String := "Enter"
  shift : Bool := true
  ctrl : Bool := false
  alt : Bool := false
  metaKey : Bool := false
  deriving DecidableEq, Repr, Inhabited

namespace KeyChord

/-- The key press that a combination asks for. -/
def event (c : KeyChord) : KeyEvent := ⟨c.code, c.shift, c.ctrl, c.alt, c.metaKey⟩

/-- Whether a key press is the combination, with all modifiers and no other ones. -/
def accepts (c : KeyChord) (e : KeyEvent) : Bool := c.event == e

end KeyChord

end Espalier
