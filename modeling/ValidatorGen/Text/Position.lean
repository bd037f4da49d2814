/-! Places in a text: lines are counted from one, columns in UTF-8 bytes since the last line
break. -/
namespace ValidatorGen

/-- Length of a text in UTF-8 bytes. -/
def byteLength (text : List Char) : Nat := text.foldl (fun n c => n + c.utf8Size) 0

@[simp] theorem byteLength_nil : byteLength [] = 0 := rfl

theorem foldl_utf8Size (n : Nat) (text : List Char) :
    text.foldl (fun n c => n + c.utf8Size) n = n + byteLength text := by
  induction text generalizing n with
  | nil => rfl
  | cons c text ih =>
    simp only [byteLength, List.foldl_cons] at *
    rw [ih (n + c.utf8Size), ih (0 + c.utf8Size)]
    omega

@[simp] theorem byteLength_cons (c : Char) (text : List Char) :
    byteLength (c :: text) = c.utf8Size + byteLength text := by
  rw [byteLength, List.foldl_cons, foldl_utf8Size, Nat.zero_add]

@[simp] theorem byteLength_append (s t : List Char) :
    byteLength (s ++ t) = byteLength s + byteLength t := by
  induction s with
  | nil => simp
  | cons c s ih => simp [ih, Nat.add_assoc]

theorem length_le_byteLength (text : List Char) : text.length ≤ byteLength text := by
  induction text with
  | nil => simp
  | cons c text ih =>
    have := c.utf8Size_pos
    simp only [byteLength_cons, List.length_cons]
    omega

structure Position where
  line : Nat
  column : Nat
deriving DecidableEq, Repr

namespace Position

def start : Position := ⟨1, 0⟩

/-- Moves over the given number of bytes, or to the end of a shorter text. The bytes may end
inside a character. -/
def advance : Position → Nat → List Char → Position
  | p, _, [] => p
  | p, 0, _ => p
  | p, n + 1, c :: text =>
    if c = '\n' then advance ⟨p.line + 1, 0⟩ n text
    else advance ⟨p.line, p.column + min (n + 1) c.utf8Size⟩ (n + 1 - c.utf8Size) text

/-- The place reached after so many bytes of the text. -/
def ofOffset (text : List Char) (offset : Nat) : Position := start.advance offset text

@[simp] theorem advance_zero (p : Position) (text : List Char) : p.advance 0 text = p := by
  cases text <;> rfl

theorem ofOffset_zero (text : List Char) : ofOffset text 0 = start := advance_zero start text

end Position
end ValidatorGen
