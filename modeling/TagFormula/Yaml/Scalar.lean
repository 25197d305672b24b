import TagFormula.Json.Quoted
import TagFormula.Yaml.Cursor

/-!
Scalars of a YAML document: plain ones, which end before what would be structure, and quoted
ones. Both may go on over several lines; a single line break in them is a space, and `n` of
them are `n - 1` line breaks.
-/
namespace TagFormula.Yaml

structure Scalar where
  text : List Char
  after : Cursor
  isLong : Bool

structure Gap where
  /-- The spaces before the first break. -/
  spaces : List Char
  breaks : Nat
  after : Cursor

def Gap.text (g : Gap) : List Char :=
  match g.breaks with
  | 0 => g.spaces
  | 1 => [' ']
  | n + 2 => List.replicate (n + 1) '\n'

/-- The gap at the front, after `spaces` in reverse and `breaks` lines. A tab may not stand to
the left of `indent` in a new line. -/
def takeGap? (indent : Nat) (column : Nat) (mayNest : Bool) (spaces : List Char)
    (breaks : Nat) : List Char → Option Gap
  | '\r' :: '\n' :: rest => takeGap? indent 0 true spaces (breaks + 1) rest
  | [] => some ⟨spaces.reverse, breaks, ⟨column, mayNest, []⟩⟩
  | c :: rest =>
    if isBreak c then takeGap? indent 0 true spaces (breaks + 1) rest
    else if isSpace c then
      if breaks = 0 then takeGap? indent (column + 1) mayNest (c :: spaces) breaks rest
      else if c = '\t' ∧ column < indent then none
      else takeGap? indent (column + 1) mayNest spaces breaks rest
    else some ⟨spaces.reverse, breaks, ⟨column, mayNest, c :: rest⟩⟩

def isFlowMark (c : Char) : Bool :=
  c == ',' || c == '[' || c == ']' || c == '\x7b' || c == '\x7d'

def indicators : List Char :=
  ['#', '&', '*', '!', '|', '>', '\'', '"', '%', '@', '\x60']

def startsPlain (inFlow : Bool) : List Char → Bool
  | [] => false
  | c :: rest =>
    if isSpace c || isBreak c || isFlowMark c then false
    else if c == '-' then !endsWord rest
    else if c == '?' || c == ':' then !inFlow && !endsWord rest
    else !indicators.contains c

def takeWord? (inFlow : Bool) : List Char → Option (List Char × List Char)
  | [] => some ([], [])
  | c :: rest =>
    if isSpace c || isBreak c || (c == ':' && endsWord rest) || (inFlow && isFlowMark c) then
      some ([], c :: rest)
    else if inFlow && c == ':' && (rest.head?.any fun d => d == '?' || isFlowMark d) then none
    else (takeWord? inFlow rest).map fun (word, rest) => (c :: word, rest)

/-- Words, each after the gap that precedes it, until one cannot follow: at a comment, at a line
between documents, or to the left of `indent`. `done` is reversed. -/
def takeWords? (inFlow : Bool) (indent : Nat) :
    Nat → List Char → List Char → Bool → Cursor → Option Scalar
  | 0, _, _, _, _ => none
  | fuel + 1, done, gap, isLong, at_ =>
    let stop (after : Cursor) : Option Scalar := some ⟨done.reverse, after, isLong⟩
    if at_.atDocumentEnd || (!done.isEmpty && at_.rest.head? == some '#') ||
        (!inFlow && !done.isEmpty && at_.column < indent) then stop at_
    else
      match takeWord? inFlow at_.rest with
      | none => none
      | some ([], _) => stop at_
      | some (word, rest) =>
        let long := isLong || (!done.isEmpty && at_.mayNest)
        match takeGap? indent (at_.column + word.length) false [] 0 rest with
        | none => none
        | some g => takeWords? inFlow indent fuel (word.reverse ++ (gap.reverse ++ done)) g.text
            long g.after

def takePlain? (inFlow : Bool) (indent : Nat) (at_ : Cursor) : Option Scalar :=
  takeWords? inFlow indent (at_.rest.length + 1) [] [] false at_

def unescape? : Char → Option Char
  | '0' => some '\x00'
  | 'a' => some '\x07'
  | 'b' => some '\x08'
  | 't' | '\t' => some '\t'
  | 'n' => some '\n'
  | 'v' => some '\x0b'
  | 'f' => some '\x0c'
  | 'r' => some '\r'
  | 'e' => some '\x1b'
  | ' ' => some ' '
  | '"' => some '"'
  | '/' => some '/'
  | '\\' => some '\\'
  | 'N' => some '\x85'
  | '_' => some '\xa0'
  | 'L' => some '\u2028'
  | 'P' => some '\u2029'
  | _ => none

def escapeWidth? : Char → Option Nat
  | 'x' => some 2
  | 'u' => some 4
  | 'U' => some 8
  | _ => none

def charOfCode? (n : Nat) : Option Char := if n.isValidChar then some (Char.ofNat n) else none

def takeEscape? : List Char → Option (Char × List Char)
  | [] => none
  | c :: rest =>
    match escapeWidth? c with
    | none => (unescape? c).map fun d => (d, rest)
    | some width => do
      let digits ← (rest.take width).mapM Json.hexValue?
      if digits.length < width then none
      else some (← charOfCode? (digits.foldl (fun n d => n * 16 + d) 0), rest.drop width)

def takeQuotedFrom? (isDouble : Bool) : Nat → List Char → Bool → Cursor → Option Scalar
  | 0, _, _, _ => none
  | fuel + 1, done, isLong, at_ =>
    if at_.mayNest && at_.atDocumentEnd then none
    else
      match at_.rest with
      | [] => none
      | '\'' :: '\'' :: rest =>
        if isDouble then takeQuotedFrom? isDouble fuel ('\'' :: done) isLong (at_.past 1)
        else takeQuotedFrom? isDouble fuel ('\'' :: done) isLong ⟨at_.column + 2, false, rest⟩
      | c :: rest =>
        if c = (if isDouble then '"' else '\'') then some ⟨done.reverse, at_.past 1, isLong⟩
        else if isDouble && c == '\\' then
          if rest.head?.any isBreak then
            match takeGap? 0 (at_.column + 1) false [] 0 rest with
            | none => none
            | some g => takeQuotedFrom? isDouble fuel
                (List.replicate (g.breaks - 1) '\n' ++ done) true g.after
          else
            match takeEscape? rest with
            | none => none
            | some (d, after) => takeQuotedFrom? isDouble fuel (d :: done) isLong
                ⟨at_.column + (rest.length - after.length) + 1, false, after⟩
        else if isSpace c || isBreak c then
          match takeGap? 0 at_.column false [] 0 at_.rest with
          | none => none
          | some g => takeQuotedFrom? isDouble fuel (g.text.reverse ++ done)
              (isLong || 0 < g.breaks) g.after
        else takeQuotedFrom? isDouble fuel (c :: done) isLong (at_.past 1)

def takeQuoted? (at_ : Cursor) : Option Scalar :=
  match at_.rest with
  | '"' :: _ => takeQuotedFrom? true (at_.rest.length + 1) [] false (at_.past 1)
  | '\'' :: _ => takeQuotedFrom? false (at_.rest.length + 1) [] false (at_.past 1)
  | _ => none

end TagFormula.Yaml
