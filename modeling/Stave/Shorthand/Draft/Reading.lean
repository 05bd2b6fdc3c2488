import Stave.Shorthand.Draft

/-!
# Tokens into drafts

A draft takes in the tokens of a line one by one. A note outside a chord, a rest, a bare
length and the end of a chord each add a slot, with the length last written if they have
none of their own; its units have to fit. What stands in a chord waits for its end. A
directive changes what comes after it, and the tokens of tuplets change nothing here. A
token is first placed; then the post-events that are due attach to the last slot.
-/
namespace Stave.Shorthand.Draft

/-- Add a slot headed by a token. -/
def push (draft : Draft) (head : Nat) (content : SlotContent) (length : NoteLength)
    (offset : Nat) : Draft :=
  let slot := { Slot.of content length offset with ottava := draft.ottava }
  { draft with slots := ⟨head, slot⟩ :: draft.slots, lastLength := some length }

/-- Add a slot of the written length, or else of the one before. -/
def addSlot (draft : Draft) (head : Nat) (content : SlotContent) (written : Option NoteLength)
    (offset : Nat) : Except BuildFault Draft :=
  match written.or draft.lastLength with
  | some length =>
    if length.units < wordLimit then .ok (draft.push head content length offset)
    else .error .overflow
  | none => .error .missingDuration

/-- Add a note to an open chord. -/
def addToChord (draft : Draft) (chord : OpenChord) (pitch : Pitch) (suffix : Suffix) :
    Except BuildFault Draft :=
  if suffix.length.isSome then .error .durationInsideChord
  else
    .ok { draft with chord := some { chord with
      pitches := pitch :: chord.pitches
      post := suffix.post.reverse ++ chord.post } }

/-- Add the slot of a chord that closes. -/
def closeChord (draft : Draft) (chord : OpenChord) (written : Option NoteLength) :
    Except BuildFault Draft :=
  { draft with chord := none }.addSlot chord.head (.ofPitches chord.pitches.reverse) written
    chord.offset

/-- Follow a directive; any other token changes nothing. -/
def follow (draft : Draft) (token : Token) : Draft :=
  match token.kind with
  | .ottava level => { draft with ottava := level }
  | .clef clef => { draft with clef := clef }
  | .time meter =>
    { draft with
      frame := { draft.frame with meter := meter }
      timeOffset := some token.origin }
  | .tempo tempo =>
    { draft with
      frame := { draft.frame with tempo := tempo }
      tempoChanged := true }
  | _ => draft

/-- What comes of placing a token: the draft with the post-events that are due, or a fault, which
is reported at the token. -/
def located (origin : Nat) (result : Except BuildFault Draft) (post : List PostEvent) :
    Except BuildError (Draft × List PostEvent) :=
  match result with
  | .ok draft => .ok (draft, post)
  | .error fault => .error ⟨fault, origin⟩

/-- Take in the next token, whose index is given, but for its post-events: the draft, and
the post-events that are to attach to its last slot. -/
def place (draft : Draft) (instrument : Instrument) (index : Nat) (token : Token) :
    Except BuildError (Draft × List PostEvent) :=
  match token.kind with
  | .note word =>
    let pitch := Pitch.of word.step word.alteration word.octave word.mark
    match draft.chord with
    | some chord => located token.origin (draft.addToChord chord pitch word.suffix) []
    | none =>
      located token.origin
        (draft.addSlot index (.single pitch) word.suffix.length token.origin) word.suffix.post
  | .rest suffix =>
    if draft.chord.isSome then .error ⟨.restInsideChord, token.origin⟩
    else
      located token.origin (draft.addSlot index .rest suffix.length token.origin) suffix.post
  | .duration suffix =>
    if !instrument.rhythm then .error ⟨.durationWithoutPitch, token.origin⟩
    else if draft.chord.isSome then .error ⟨.durationInsideChord, token.origin⟩
    else
      located token.origin
        (draft.addSlot index (.single .unpitched) suffix.length token.origin) suffix.post
  | .chordStart => .ok ({ draft with chord := some ⟨index, token.origin, [], []⟩ }, [])
  | .chordEnd suffix =>
    match draft.chord with
    | none => .error ⟨.emptyChord, token.origin⟩
    | some chord =>
      if chord.pitches.isEmpty then .error ⟨.emptyChord, chord.offset⟩
      else
        located token.origin (draft.closeChord chord suffix.length)
          (chord.post.reverse ++ suffix.post)
  | .postEvents post =>
    match draft.chord with
    | some chord =>
      .ok ({ draft with chord := some { chord with post := post.reverse ++ chord.post } }, [])
    | none =>
      if draft.slots.isEmpty then .error ⟨.danglingPostEvent, token.origin⟩
      else .ok (draft, post)
  | .barLine => .error ⟨.barLineInLine, token.origin⟩
  | _ => .ok (draft.follow token, [])

/-- Take in the next token, whose index is given. -/
def accept (draft : Draft) (instrument : Instrument) (index : Nat) (token : Token) :
    Except BuildError Draft :=
  match draft.place instrument index token with
  | .error error => .error error
  | .ok (draft, post) =>
    match draft.attach post with
    | .error fault => .error ⟨fault, token.origin⟩
    | .ok draft => .ok draft

/-- Take in tokens in order, the first of them having index `index`. -/
def acceptAll (draft : Draft) (instrument : Instrument) (index : Nat) :
    List Token → Except BuildError Draft
  | [] => .ok draft
  | token :: rest =>
    match draft.accept instrument index token with
    | .error error => .error error
    | .ok draft => draft.acceptAll instrument (index + 1) rest

end Stave.Shorthand.Draft
