import HostBridge.Yaml.Plain

/-!
# Writing text values

A text is written in one of three forms. Text that would be read back as it stands is
plain. Text with line feeds is a literal block: its lines, indented, under a header that
says how many line feeds end it. All other text stands between double quotes.
-/

namespace HostBridge.Yaml

/-- The lines of a text. A line ends in `\n` or `\r\n`; a last line without an end counts
if it is not empty. -/
def textLines : List Char → List (List Char)
  | [] => []
  | s => go [] s
where
  /-- `line` is the line so far, reversed. -/
  go (line : List Char) : List Char → List (List Char)
    | [] => if line = [] then [] else [line.reverse]
    | '\n' :: rest =>
      (match line with
        | '\r' :: before => before.reverse
        | _ => line.reverse) :: go [] rest
    | c :: rest => go (c :: line) rest

/-- How many line feeds end a text. -/
def finalFeeds (s : List Char) : Nat :=
  (s.reverse.takeWhile (· == '\n')).length

/-- The indentation of a block's lines. -/
def blockIndent : List Char := [' ', ' ']

/-- A literal block. The line feeds that end the text stand after its lines once more. -/
def literalBlock (s : List Char) : List Char :=
  let feeds := finalFeeds s
  let header := match feeds with
    | 0 => ['|', '-']
    | 1 => ['|']
    | _ => ['|', '+']
  header ++ ((textLines s).flatMap fun line => '\n' :: blockIndent ++ line) ++
    List.replicate feeds '\n'

/-- The two hexadecimal digits of a byte, upper case. -/
def hexByte (n : Nat) : List Char :=
  [Nat.digitChar (n / 16), Nat.digitChar (n % 16)].map Char.toUpper

/-- One character between double quotes. -/
def escapeQuoted (c : Char) : List Char :=
  if c = '"' ∨ c = '\\' then ['\\', c]
  else if c = '\n' then ['\\', 'n']
  else if c = '\r' then ['\\', 'r']
  else if c = '\t' then ['\\', 't']
  else if c = '\x00' then ['\\', '0']
  else if c.toNat < 0x20 then ['\\', 'x'] ++ hexByte c.toNat
  else [c]

def doubleQuote (s : List Char) : List Char :=
  '"' :: s.flatMap escapeQuoted ++ ['"']

/-- The characters with which a plain text cannot begin. -/
def indicators : List Char :=
  " -&*!|>%@`\x7b\x7d[],?'\"".toList

/-- Text of such characters alone is plain unless it looks typed. -/
def isSafe (c : Char) : Bool :=
  c.isAlphanum || c == '_' || c == '.' || c == '/' || c == '-'

/-- Some character of the text cannot stand in plain text, or might end it. -/
def hasBreaking (s : List Char) : Bool :=
  s.any fun c => c == ':' || c == '#' || (c.toNat < 0x20 && c != '\t')

/-- The written form of a text. -/
def writeText (s : List Char) : List Char :=
  if s = [] then ['"', '"']
  else if s.all isSafe && !looksTyped s then s
  else if '\n' ∈ s then literalBlock s
  else if s.head?.any (· ∈ indicators) || s.getLast? == some ' ' || looksTyped s ||
      hasBreaking s then
    doubleQuote s
  else s

end HostBridge.Yaml
