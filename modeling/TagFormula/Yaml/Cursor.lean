/-!
Places in a YAML text: what is left of it, how far the line has gone, and whether a block
collection may start here, which is so at the start of a line and after a dash.
-/
namespace TagFormula.Yaml

def isBreak (c : Char) : Bool :=
  c == '\n' || c == '\r' || c == '\x85' || c == '\u2028' || c == '\u2029'

def isSpace (c : Char) : Bool := c == ' ' || c == '\t'

def endsWord : List Char → Bool
  | [] => true
  | c :: _ => isSpace c || isBreak c

def isAllowed (c : Char) : Bool :=
  let n := c.toNat
  n == 9 || n == 10 || n == 13 || (0x20 ≤ n && n ≤ 0x7e) || n == 0x85 ||
    (0xa0 ≤ n && n ≤ 0xd7ff) || (0xe000 ≤ n && n ≤ 0xfffd) || 0x10000 ≤ n

structure Cursor where
  column : Nat
  mayNest : Bool
  rest : List Char

namespace Cursor

def past (c : Cursor) (n : Nat) : Cursor := ⟨c.column + n, false, c.rest.drop n⟩

def pastDash (c : Cursor) : Cursor := { c.past 1 with mayNest := true }

/-- Skips spaces, line breaks and comments up to a token. In block context a tab is no space
where a collection may start. -/
def skipFrom (inFlow inComment : Bool) (column : Nat) (mayNest : Bool) : List Char → Cursor
  | [] => ⟨column, mayNest, []⟩
  | c :: rest =>
    if isBreak c then skipFrom inFlow false 0 true rest
    else if inComment || c == ' ' || (c == '\t' && (inFlow || !mayNest)) then
      skipFrom inFlow inComment (column + 1) mayNest rest
    else if c == '#' then skipFrom inFlow true (column + 1) mayNest rest
    else ⟨column, mayNest, c :: rest⟩

def skip (inFlow : Bool) (c : Cursor) : Cursor :=
  skipFrom inFlow false c.column c.mayNest c.rest

def startsWith (c : Cursor) (mark : List Char) : Bool :=
  mark.isPrefixOf c.rest && endsWord (c.rest.drop mark.length)

def atStartMark (c : Cursor) : Bool := c.column == 0 && c.startsWith ['-', '-', '-']

def atEndMark (c : Cursor) : Bool := c.column == 0 && c.startsWith ['.', '.', '.']

def atDocumentEnd (c : Cursor) : Bool := c.rest.isEmpty || c.atStartMark || c.atEndMark

def atDash (c : Cursor) : Bool := c.startsWith ['-']

def atColon (c : Cursor) : Bool := c.startsWith [':']

end Cursor

end TagFormula.Yaml
