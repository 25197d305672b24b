/-!
JSON values. The members of an object keep their order and may repeat a name.
-/
namespace TagFormula

inductive Json where
  | null
  | bool (b : Bool)
  | number (value : Float)
  | string (text : String)
  | array (items : List Json)
  | object (members : List (String × Json))

end TagFormula
