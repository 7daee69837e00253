/-!
# Escaped text

* `escape`: the characters that markup gives a meaning to are written as references, in text and in
  attribute values alike.
-/

namespace ProgramDiagram.Xml

/-- A character as it is written in text and attribute values. -/
def escapeChar (c : Char) : List Char :=
  if c = '&' then "&amp;".toList
  else if c = '<' then "&lt;".toList
  else if c = '>' then "&gt;".toList
  else if c = '"' then "&quot;".toList
  else if c = '\'' then "&#39;".toList
  else [c]

def escape (text : String) : String := String.ofList (text.toList.flatMap escapeChar)

theorem escape_append (a b : String) : escape (a ++ b) = escape a ++ escape b := by
  simp [escape, String.ofList_append]

end ProgramDiagram.Xml
