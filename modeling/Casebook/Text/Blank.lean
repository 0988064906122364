/-!
# Blanks

A blank is a character with the property White_Space. Texts are trimmed of blanks at both ends
wherever a definition is read.
-/

namespace Casebook.Text

/-- Whether a character has the property White_Space. -/
def isBlank (c : Char) : Bool :=
  let n := c.toNat
  (0x09 ≤ n && n ≤ 0x0D) || n == 0x20 || n == 0x85 || n == 0xA0 || n == 0x1680
    || (0x2000 ≤ n && n ≤ 0x200A) || n == 0x2028 || n == 0x2029 || n == 0x202F
    || n == 0x205F || n == 0x3000

/-- The text without the blanks it begins with. -/
def skipBlanks (s : List Char) : List Char :=
  s.dropWhile isBlank

/-- The text without the blanks it ends with. -/
def trimEnd : List Char → List Char
  | [] => []
  | c :: rest =>
    match trimEnd rest with
    | [] => if isBlank c then [] else [c]
    | kept => c :: kept

/-- The text without the blanks at both ends. -/
def trim (s : List Char) : List Char :=
  trimEnd (skipBlanks s)

/-- A string without the blanks at both ends. -/
def trimmed (s : String) : String :=
  String.ofList (trim s.toList)

/-! ## Laws -/

theorem length_skipBlanks_le (s : List Char) : (skipBlanks s).length ≤ s.length :=
  (List.dropWhile_sublist isBlank).length_le

/-- What is left starts with no blank. -/
theorem head?_skipBlanks (s : List Char) :
    ∀ c, (skipBlanks s).head? = some c → isBlank c = false := by
  intro c h
  induction s with
  | nil => simp [skipBlanks] at h
  | cons x rest ih =>
    by_cases hx : isBlank x
    · exact ih (by simpa [skipBlanks, List.dropWhile_cons, hx] using h)
    · have hc : x = c := by simpa [skipBlanks, List.dropWhile_cons, hx] using h
      simpa [hc] using hx

end Casebook.Text
