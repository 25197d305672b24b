/-!
The content of a YAML document. A plain scalar keeps its text as it is written; what it means
depends on who reads it. A quoted one is always a text.
-/
namespace TagFormula.Yaml

inductive Node where
  | plain (text : String)
  | quoted (text : String)
  | sequence (items : List Node)
  | mapping (pairs : List (Node × Node))

def Node.empty : Node := .plain ""

end TagFormula.Yaml
