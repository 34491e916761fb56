/-!
# Quoted text

A text between an opening and a closing character, with every closing character inside it
written twice.
-/

namespace Pushdown.Text

/-- Writes each occurrence of `mark` twice. -/
def doubled (mark : Char) : List Char → List Char
  | [] => []
  | c :: rest => if c = mark then c :: c :: doubled mark rest else c :: doubled mark rest

/-- The text `s` between `opening` and `closing`. -/
def quoted (opening closing : Char) (s : String) : String :=
  String.ofList (opening :: doubled closing s.toList ++ [closing])

@[simp] theorem doubled_nil (mark : Char) : doubled mark [] = [] := rfl

end Pushdown.Text
