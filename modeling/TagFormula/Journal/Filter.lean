import TagFormula.Text.Alphanumeric
import TagFormula.Text.Blank

/-!
Which log lines are let through. A filter is a comma-separated list of directives: a level
alone holds for every line, `target=level` for the lines whose origin starts with `target`,
and a bare target lets all its lines through. Of the directives that hold for a line the one
with the longest target decides; of two with the same target the later one. A line that no
directive holds for is dropped.
-/
namespace TagFormula.Journal

inductive Level where
  | error
  | warn
  | info
  | debug
  | trace
  deriving DecidableEq, Repr

namespace Level

def detail : Level → Nat
  | error => 1
  | warn => 2
  | info => 3
  | debug => 4
  | trace => 5

def name : Level → String
  | error => "ERROR"
  | warn => "WARN"
  | info => "INFO"
  | debug => "DEBUG"
  | trace => "TRACE"

end Level

structure Directive where
  target : String
  /-- The greatest detail let through. -/
  detail : Nat
  deriving DecidableEq, Repr

abbrev Filter := List Directive

def detailOf? (text : String) : Option Nat :=
  let digits := if text.startsWith "+" then text.toList.drop 1 else text.toList
  if !digits.isEmpty && digits.all Char.isDigit then
    let n := Nat.ofDigitChars 10 digits 0
    if n ≤ 5 then some n else none
  else
    match text.toLower with
    | "off" => some 0
    | "error" => some 1
    | "warn" => some 2
    | "info" => some 3
    | "debug" => some 4
    | "trace" => some 5
    | _ => none

def levelPart? (text : String) : Option Nat := if text.isEmpty then some 5 else detailOf? text

def startsDirective (c : Char) : Bool := c == '-' || c == ':' || c == '_' || Text.isAlphanumeric c

/-- The directive a text spells; `none` if it spells none. No level has blanks around it, so
that with blanks a text is a target at best. -/
def Directive.ofText? (text : String) : Option Directive :=
  if !(Text.trimmed text.toList).head?.any startsDirective then none
  else
    let (target, level) := text.toList.span (· != '=')
    match level with
    | [] =>
      match detailOf? text with
      | some n => some ⟨"", n⟩
      | none => some ⟨text, 5⟩
    | _ :: level =>
      if target.head?.any Text.isBlank then none
      else (levelPart? (String.ofList level)).map (Directive.mk (String.ofList target))

def Filter.ofText? (text : String) : Option Filter :=
  let parts := (text.splitOn ",").filter (!·.isEmpty)
  if parts.isEmpty then some [⟨"", 1⟩] else parts.mapM Directive.ofText?

def Filter.default : Filter := [⟨"", 2⟩]

def Filter.ofVariable (value : Option String) : Filter :=
  (value.bind Filter.ofText?).getD .default

/-- The directive that decides about an origin: of equally long targets the last one. -/
def Filter.decider? (f : Filter) (origin : String) : Option Directive :=
  (f.filter fun d => origin.startsWith d.target).foldl (fun best d =>
    match best with
    | none => some d
    | some b => if b.target.length ≤ d.target.length then some d else some b) none

def Filter.passes (f : Filter) (origin : String) (level : Level) : Bool :=
  match f.decider? origin with
  | some d => level.detail ≤ d.detail
  | none => false

end TagFormula.Journal
