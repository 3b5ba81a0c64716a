/-!
# Searching a text

`occursIn` asks whether a text holds a pattern. `splitCommentEnd` breaks up the two
characters that end a C comment, wherever they stand side by side in a text.
-/

namespace HostBridge.Text

/-- `pattern` stands somewhere in the text; the empty pattern always does. -/
def occursIn (pattern : List Char) : List Char → Bool
  | [] => pattern.isEmpty
  | c :: rest => pattern.isPrefixOf (c :: rest) || occursIn pattern rest

/-- The text without `*/`: an asterisk that a slash follows is set apart by a space. -/
def splitCommentEnd : List Char → List Char
  | [] => []
  | '*' :: '/' :: rest => '*' :: ' ' :: '/' :: splitCommentEnd rest
  | c :: rest => c :: splitCommentEnd rest

end HostBridge.Text
