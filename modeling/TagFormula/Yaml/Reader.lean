import TagFormula.Yaml.Node
import TagFormula.Yaml.Scalar

/-!
Reading a YAML text: block and flow sequences and mappings of plain and quoted scalars, with
comments. Indentation decides where block collections end; a text that leaves it open is
refused. Anchors, tags, block scalars, explicit keys and directives are not read, and a text
that has one is refused like any other fault.
-/
namespace TagFormula.Yaml

structure Found where
  node : Node
  after : Cursor
  fitsKey : Bool

def Found.ofScalar (make : String → Node) (s : Scalar) : Found :=
  ⟨make (String.ofList s.text), s.after, !s.isLong⟩

def takeScalar? (inFlow : Bool) (indent : Nat) (at_ : Cursor) : Option Found :=
  if at_.rest.head?.any fun c => c == '"' || c == '\'' then
    (takeQuoted? at_).map (Found.ofScalar .quoted)
  else if startsPlain inFlow at_.rest then
    (takePlain? inFlow indent at_).map (Found.ofScalar .plain)
  else none

/-! ## Flow collections -/

mutual

/-- The flow node at the front. `fuel` bounds the number of nodes and marks to come. -/
def takeFlow? : Nat → Cursor → Option Found
  | 0, _ => none
  | fuel + 1, at_ =>
    match at_.rest with
    | '[' :: _ => takeFlowItems? fuel [] true ((at_.past 1).skip true)
    | '\x7b' :: _ => takeFlowPairs? fuel [] true ((at_.past 1).skip true)
    | _ => if at_.atDocumentEnd then none else takeScalar? true 0 at_

def takeFlowValue? : Nat → Cursor → Option Found
  | 0, _ => none
  | fuel + 1, at_ =>
    if at_.rest.head?.any fun c => c == ',' || c == ']' || c == '\x7d' then
      some ⟨.empty, at_, true⟩
    else takeFlow? fuel at_

def takeFlowItems? : Nat → List Node → Bool → Cursor → Option Found
  | 0, _, _, _ => none
  | fuel + 1, done, fitsKey, at_ =>
    match at_.rest with
    | ']' :: _ => some ⟨.sequence done.reverse, at_.past 1, fitsKey⟩
    | _ =>
      match takeFlow? fuel at_ with
      | none => none
      | some item =>
        let next := item.after.skip true
        let item? : Option Found :=
          match next.rest with
          | ':' :: _ =>
            if !item.fitsKey || next.mayNest then none
            else (takeFlowValue? fuel ((next.past 1).skip true)).map fun v =>
              ⟨.mapping [(item.node, v.node)], v.after, v.fitsKey⟩
          | _ => some item
        match item? with
        | none => none
        | some item =>
          let next := item.after.skip true
          let fits := fitsKey && item.fitsKey && !next.mayNest
          match next.rest with
          | ',' :: _ => takeFlowItems? fuel (item.node :: done) fits ((next.past 1).skip true)
          | ']' :: _ => some ⟨.sequence (item.node :: done).reverse, next.past 1, fits⟩
          | _ => none

def takeFlowPairs? : Nat → List (Node × Node) → Bool → Cursor → Option Found
  | 0, _, _, _ => none
  | fuel + 1, done, fitsKey, at_ =>
    match at_.rest with
    | '\x7d' :: _ => some ⟨.mapping done.reverse, at_.past 1, fitsKey⟩
    | _ =>
      match takeFlow? fuel at_ with
      | none => none
      | some key =>
        let next := key.after.skip true
        let value? : Option Found :=
          match next.rest with
          | ':' :: _ =>
            if !key.fitsKey || next.mayNest then none
            else takeFlowValue? fuel ((next.past 1).skip true)
          | _ => some ⟨.empty, next, true⟩
        match value? with
        | none => none
        | some value =>
          let next := value.after.skip true
          let fits := fitsKey && key.fitsKey && value.fitsKey && !next.mayNest
          match next.rest with
          | ',' :: _ =>
            takeFlowPairs? fuel ((key.node, value.node) :: done) fits ((next.past 1).skip true)
          | '\x7d' :: _ =>
            some ⟨.mapping ((key.node, value.node) :: done).reverse, next.past 1, fits⟩
          | _ => none

end

/-! ## Block collections -/

def takeLeaf? (fuel indent : Nat) (at_ : Cursor) : Option Found :=
  match at_.rest with
  | '[' :: _ | '\x7b' :: _ => takeFlow? fuel at_
  | _ => takeScalar? false indent at_

mutual

def takeBlock? : Nat → Nat → Cursor → Option Found
  | 0, _, _ => none
  | fuel + 1, indent, at_ =>
    if at_.atDash then
      if at_.mayNest then takeItems? fuel at_.column false [] at_ else none
    else
      match takeLeaf? fuel indent at_ with
      | none => none
      | some leaf =>
        let next := leaf.after.skip false
        if !next.mayNest && next.atColon then
          if at_.mayNest && leaf.fitsKey then
            takePairs? fuel at_.column leaf.node [] (next.past 1)
          else none
        else some leaf

/-- The items of a sequence whose dashes stand at `column`. `isValue`: it is the value of a key
at this very column, and ends where the next key comes. -/
def takeItems? : Nat → Nat → Bool → List Node → Cursor → Option Found
  | 0, _, _, _, _ => none
  | fuel + 1, column, isValue, done, at_ =>
    let finish : Option Found := some ⟨.sequence done.reverse, at_, false⟩
    if at_.atDocumentEnd then finish
    else if !at_.mayNest then none
    else if at_.column < column then finish
    else if column < at_.column then none
    else if at_.atDash then
      let inside := at_.pastDash.skip false
      let item? : Option Found :=
        if inside.atDocumentEnd || inside.column ≤ column then some ⟨.empty, inside, true⟩
        else takeBlock? fuel (column + 1) inside
      match item? with
      | none => none
      | some item => takeItems? fuel column isValue (item.node :: done) (item.after.skip false)
    else if isValue then finish
    else none

def takePairs? : Nat → Nat → Node → List (Node × Node) → Cursor → Option Found
  | 0, _, _, _, _ => none
  | fuel + 1, column, key, done, at_ =>
    let inside := at_.skip false
    let value? : Option Found :=
      if inside.atDocumentEnd then some ⟨.empty, inside, true⟩
      else if inside.mayNest && inside.column == column && inside.atDash then
        takeItems? fuel column true [] inside
      else if inside.mayNest && inside.column ≤ column then some ⟨.empty, inside, true⟩
      else takeBlock? fuel (column + 1) inside
    match value? with
    | none => none
    | some value =>
      let done := (key, value.node) :: done
      let next := value.after.skip false
      let finish : Option Found := some ⟨.mapping done.reverse, next, false⟩
      if next.atDocumentEnd then finish
      else if !next.mayNest then none
      else if next.column < column then finish
      else if column < next.column || next.atDash then none
      else
        match takeLeaf? fuel (column + 1) next with
        | none => none
        | some leaf =>
          let colon := leaf.after.skip false
          if leaf.fitsKey && !colon.mayNest && colon.atColon then
            takePairs? fuel column leaf.node done (colon.past 1)
          else none

end

/-! ## Documents -/

def isOver : Nat → Cursor → Bool
  | 0, _ => false
  | fuel + 1, at_ =>
    let at_ := at_.skip false
    if at_.atEndMark then isOver fuel (at_.past 3) else at_.rest.isEmpty

def read? (text : String) : Option (Option Node) :=
  let cs := match text.toList with
    | '\ufeff' :: rest => rest
    | cs => cs
  if !cs.all isAllowed then none
  else
    let fuel := 2 * cs.length + 2
    let start := (Cursor.mk 0 true cs).skip false
    if isOver fuel start then some none
    else
      let body := if start.atStartMark then (start.past 3).skip false else start
      let found? : Option Found :=
        if body.atDocumentEnd then some ⟨.empty, body, true⟩ else takeBlock? fuel 0 body
      match found? with
      | some found => if isOver fuel found.after then some (some found.node) else none
      | none => none

end TagFormula.Yaml
