import Stave.Music.Line

/-!
# Links across bar lines

A link that leaves a bar is met in the next bar or warned about. Slurs pair like nested
brackets: the first to come in meets the last to go out, so what goes out in excess
was opened earliest and what comes in in excess closes last. A tie needs a common
sounding pitch on the other side, and a ramp a ramp of the same direction.
-/
namespace Stave

/-- The kinds of link that may leave a bar. -/
inductive LinkKind where
  | slur
  | tie
  | ramp
deriving DecidableEq, Inhabited

/-- The word for a kind of link in messages. -/
def LinkKind.word : LinkKind → String
  | slur => "slur"
  | tie => "tie"
  | ramp => "hairpin"

/-- A link at the edge of a bar with nothing to meet it. -/
structure LinkWarning where
  link : LinkKind
  slot : Nat
  /-- The byte of the typed line that slot begins at. -/
  offset : Nat
  /-- The link comes in from the left. -/
  incoming : Bool
deriving DecidableEq, Inhabited

namespace LinkWarning

/-- The name of a warning in diagnostics. -/
def kind (warning : LinkWarning) : String :=
  warning.link.word ++ "_orphan_" ++ (if warning.incoming then "end" else "begin")

/-- The wording of a warning. -/
def message (warning : LinkWarning) : String :=
  if warning.incoming then
    warning.link.word ++ " continues from a bar that is not shown before this one"
  else warning.link.word ++ " continues into a bar that is not shown after this one"

end LinkWarning

/-- Whether two slots have a sounding pitch in common. -/
def Slot.sharesPitch (left right : Slot) : Bool :=
  left.pitches.any fun a => right.pitches.any fun b => a.sounding == b.sounding

namespace Line

/-- The slurs that go on after the line. -/
def outgoingSlurs (line : Line) : List Link := line.slurs.filter (·.stop.isNone)

/-- The slurs that come in from before the line. -/
def incomingSlurs (line : Line) : List Link := line.slurs.filter (·.start.isNone)

/-- A warning at a slot of the line. -/
def warningAt (line : Line) (link : LinkKind) (incoming : Bool) (slot : Nat) : LinkWarning :=
  ⟨link, slot, (line.slots[slot]?.map Slot.offset).getD 0, incoming⟩

/-- The warnings for slurs that go on into a bar that takes fewer of them. -/
def outgoingSlurWarnings (line : Line) (next : Option Line) : List LinkWarning :=
  let met := (next.map fun next => next.incomingSlurs.length).getD 0
  let outgoing := line.outgoingSlurs
  (outgoing.take (outgoing.length - met)).map fun slur =>
    line.warningAt .slur false (slur.start.getD 0)

/-- The warnings for slurs that come in from a bar that leaves fewer of them. -/
def incomingSlurWarnings (line : Line) (previous : Option Line) : List LinkWarning :=
  let available := (previous.map fun previous => previous.outgoingSlurs.length).getD 0
  (line.incomingSlurs.drop available).map fun slur =>
    line.warningAt .slur true (slur.stop.getD (line.slots.length - 1))

/-- Whether a tie from a slot finds its pitch in the first slot of the next bar. -/
def tieContinues (line : Line) (next : Option Line) (start : Nat) : Bool :=
  match line.slots[start]?, next.bind (·.slots.head?) with
  | some left, some right => left.sharesPitch right
  | _, _ => false

/-- The warnings for ties out of the bar that nothing meets. -/
def tieWarnings (line : Line) (next : Option Line) : List LinkWarning :=
  ((line.ties.filter (·.stop.isNone)).filterMap Link.start).filterMap fun start =>
    if line.tieContinues next start then none else some (line.warningAt .tie false start)

/-- Whether a line has a ramp of a direction that comes in. -/
def hasIncomingRamp (line : Line) (direction : RampDirection) : Bool :=
  line.ramps.any fun ramp => ramp.start.isNone && ramp.direction = direction

/-- Whether a line has a ramp of a direction that goes on. -/
def hasOutgoingRamp (line : Line) (direction : RampDirection) : Bool :=
  line.ramps.any fun ramp => ramp.stop.isNone && ramp.direction = direction

/-- The warnings for one ramp. -/
def rampWarnings (line : Line) (previous next : Option Line) (ramp : Ramp) :
    List LinkWarning :=
  let goesOn := (next.map (·.hasIncomingRamp ramp.direction)).getD false
  let comesIn := (previous.map (·.hasOutgoingRamp ramp.direction)).getD false
  (if ramp.stop.isNone && !goesOn then [line.warningAt .ramp false (ramp.start.getD 0)] else []) ++
    (if ramp.start.isNone && !comesIn then [line.warningAt .ramp true (ramp.stop.getD 0)] else [])

/-- The warnings for a line between two neighbours, either of which may be missing. -/
def linkWarnings (previous : Option Line) (line : Line) (next : Option Line) :
    List LinkWarning :=
  line.outgoingSlurWarnings next ++ line.incomingSlurWarnings previous ++
    line.tieWarnings next ++ line.ramps.flatMap (line.rampWarnings previous next)

/-- Whether the line before ends with a tie into this one. -/
def tiedIn (previous : Option Line) (line : Line) : Bool :=
  match previous with
  | none => false
  | some previous =>
    match previous.slots.getLast?, line.slots.head? with
    | some left, some right =>
      (previous.ties.any fun tie => tie.stop.isNone) && left.sharesPitch right
    | _, _ => false

end Line

end Stave
