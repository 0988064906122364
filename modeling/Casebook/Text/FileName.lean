/-!
# Legal file names

The display name of a case doubles as the stem of a file, so the characters no file name may
hold are replaced.
-/

namespace Casebook.Text

/-- Whether a character may not stand in a file name. -/
def isIllegalInFileName (c : Char) : Bool :=
  c ∈ ['\\', '/', ':', '*', '?', '"', '<', '>', '|', '\r', '\n', '\t']

/-- The text with an underscore for each character that is illegal in a file name. -/
def legalFileName (s : String) : String :=
  String.ofList (s.toList.map fun c => if isIllegalInFileName c then '_' else c)

end Casebook.Text
