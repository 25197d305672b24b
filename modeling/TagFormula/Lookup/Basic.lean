import TagFormula.Lookup.Demand

/-!
Looking suggestions up. A client hands demands to one worker and goes on; the worker takes
what waits in batches, asks the source, and sends replies back. Only the latest demand
counts: each one gets a new generation, a reply to an older one is dropped, and a demand
that a later one of its batch supersedes is never put to the source. A direct search is
never skipped; its caller waits for its own reply.

All that depends on the speed of the worker is explicit: the clock moves by `advanceTo`,
the worker by `take` and `serveNext`, and replies reach the client in `harvest` and `collect`.
-/
namespace TagFormula

structure Lookup where
  source : Source
  /-- How long a reply is waited for, in milliseconds. -/
  delay : Nat
  clock : Nat
  /-- Numbers demands and cancellations, of which there are fewer than `2 ^ 64`. -/
  generation : Nat
  expected : Option Expected
  candidates : List Suggestion
  /-- The text the candidates were found for. -/
  candidatesText : String
  /-- Demands the worker has not taken yet, oldest first. -/
  queue : List Demand
  /-- Demands of the batch the worker is at. -/
  inHand : List Demand
  /-- Replies the client has not seen yet, oldest first. -/
  replies : List Reply
  /-- How many texts were put to the source. -/
  served : Nat
  /-- How many direct searches there were. -/
  asked : Nat
  /-- The source keeps the worker waiting. -/
  stalled : Bool

inductive Harvest where
  | nothing
  | candidates
  | unavailable (fault : LookupFault)
  deriving DecidableEq, Repr

namespace Lookup

def new (source : Source) (delay : Nat) : Lookup where
  source := source
  delay := delay
  clock := 0
  generation := 0
  expected := none
  candidates := []
  candidatesText := ""
  queue := []
  inHand := []
  replies := []
  served := 0
  asked := 0
  stalled := false

def isWaiting (l : Lookup) : Bool := l.expected.isSome

/-! ## The worker -/

def advanceTo (l : Lookup) (time : Nat) : Lookup := { l with clock := max l.clock time }

def take (l : Lookup) (count : Nat) : Lookup :=
  if l.stalled || !l.inHand.isEmpty then l
  else
    { l with
      inHand := Demand.withoutSuperseded (l.queue.take count)
      queue := l.queue.drop count }

def serveNext (l : Lookup) : Lookup :=
  match l.stalled, l.inHand with
  | false, d :: rest =>
    match l.source l.served d.text with
    | .reply result =>
      { l with inHand := rest, served := l.served + 1, replies := l.replies ++ [⟨d, result⟩] }
    | .silence => { l with inHand := rest, served := l.served + 1, stalled := true }
  | _, _ => l

def finishBatch (l : Lookup) : Lookup := l.inHand.length.repeat serveNext l

def drain (l : Lookup) : Lookup :=
  let l := l.finishBatch
  (l.take l.queue.length).finishBatch

/-! ## The client -/

def clearCandidates (l : Lookup) : Lookup := { l with candidates := [], candidatesText := "" }

def request (l : Lookup) (text : String) : Lookup :=
  let generation := l.generation + 1
  { l with
    generation := generation
    expected := some ⟨generation, text, l.clock + l.delay⟩
    queue := l.queue ++ [.latest generation text] }

def cancel (l : Lookup) : Lookup :=
  { l.clearCandidates with generation := l.generation + 1, expected := none }

def isExpected (l : Lookup) (r : Reply) : Bool :=
  match r.demand, l.expected with
  | .latest generation _, some e => e.generation == generation
  | _, _ => false

def accept (l : Lookup) (r : Reply) : Harvest × Lookup :=
  if l.isExpected r then
    match r.result with
    | .ok found =>
      (.candidates,
        { l with expected := none, candidates := found, candidatesText := r.demand.text })
    | .error fault =>
      (.unavailable fault.asLookup, { l.clearCandidates with expected := none })
  else (.nothing, l)

/-- Takes in replies in their order; the last one that counted tells what was brought. -/
def acceptAll : List Reply → Harvest → Lookup → Harvest × Lookup
  | [], brought, l => (brought, l)
  | r :: rest, brought, l =>
    match l.accept r with
    | (.nothing, l) => acceptAll rest brought l
    | (h, l) => acceptAll rest h l

def expire (l : Lookup) : Harvest × Lookup :=
  match l.expected with
  | some e =>
    if e.deadline ≤ l.clock then
      (.unavailable (.noAnswer l.delay), { l.clearCandidates with expected := none })
    else (.nothing, l)
  | none => (.nothing, l)

/-- Takes in the replies that have arrived, and if none of them counted, looks at the clock.
Never waits. A client never harvests between `ask` and `collect`, so that replies to direct demands
are thrown away here only if nobody waits for them any more. -/
def harvest (l : Lookup) : Harvest × Lookup :=
  match acceptAll l.replies .nothing { l with replies := [] } with
  | (.nothing, l) => l.expire
  | brought => brought

def await (l : Lookup) : Harvest × Lookup :=
  match l.drain.harvest with
  | (.nothing, l) =>
    match l.expected with
    | some e => (l.advanceTo e.deadline).harvest
    | none => (.nothing, l)
  | brought => brought

def ask (l : Lookup) (text : String) : Nat × Lookup :=
  (l.asked, { l with asked := l.asked + 1, queue := l.queue ++ [.direct l.asked text] })

def isReplyTo (ticket : Nat) (r : Reply) : Bool :=
  match r.demand with
  | .direct t _ => t == ticket
  | .latest .. => false

/-- Takes out the reply to a direct demand. Without one, the whole delay has gone by. -/
def collect (l : Lookup) (ticket : Nat) : Except Fault (List Suggestion) × Lookup :=
  match l.replies.find? (isReplyTo ticket) with
  | some r => (r.result, { l with replies := l.replies.filter (!isReplyTo ticket ·) })
  | none => (.error (.lookup (.noAnswer l.delay)), l.advanceTo (l.clock + l.delay))

/-- Asks and waits for the reply to this very demand, `delay` at most. What is expected and
the candidates stay as they are. The worker is always done first: a source that replies to a direct
demand when the delay is over is one that replies with a fault, or with silence. -/
def searchNow (l : Lookup) (text : String) : Except Fault (List Suggestion) × Lookup :=
  (l.ask text).2.drain.collect (l.ask text).1

end Lookup

end TagFormula
