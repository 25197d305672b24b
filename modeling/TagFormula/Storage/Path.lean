/-!
File paths as texts. Empty components and lone dots count for nothing, but for a dot at the
very beginning.
-/
namespace TagFormula.Path

def join (base part : String) : String :=
  if part.startsWith "/" || base.isEmpty then part
  else if base.endsWith "/" then base ++ part
  else base ++ "/" ++ part

def trimEnd : List Char → List Char
  | '/' :: rest => if rest.isEmpty then ['/'] else trimEnd rest
  | '.' :: '/' :: rest => if rest.isEmpty then ['/'] else trimEnd rest
  | cs => cs

/-- The path without its last component; none for the root and for the empty path. -/
def parent? (path : String) : Option String :=
  let cs := trimEnd path.toList.reverse
  if cs.isEmpty || cs == ['/'] then none
  else some (String.ofList (trimEnd (cs.dropWhile (· != '/'))).reverse)

def isAbsolute (path : String) : Bool := path.startsWith "/"

def endsInSlash (path : String) : Bool := path.endsWith "/"

def parts (path : String) : List String :=
  ((path.toList.splitOn '/').filter (!·.isEmpty)).map String.ofList

end TagFormula.Path
