import Stave.Proofs.Score.EditLaws

/-!
# What a cursor starts from

A line typed into a bar is read from what its instrument has in the bar before, in the meter and
tempo of its own bar. A cursor holds the same for the bar at a place, or for the bar that would be
put in there. Its meter and tempo are right at every place. Its state is right up to the end; a
place beyond the end is the end for everyone but the cursor, which looks for a bar just before the
place it was given, finds none, and starts as at the beginning of a piece.
-/
namespace Stave

open Shorthand

namespace BarShelf

variable {shelf : BarShelf} {id : BarId} {position : Nat}

/-- The bar just before a place. -/
def before? (shelf : BarShelf) : Nat → Option Bar
  | 0 => none
  | position + 1 => (shelf.idAt? position).bind shelf.get?

theorem previous?_eq_before? (h : shelf.idAt? position = some id) :
    shelf.previous? id = shelf.before? position := by
  rw [previous?, position?_eq_some_iff.2 h]
  cases position <;> rfl

theorem before?_eq_none (h : shelf.size < position) : shelf.before? position = none := by
  obtain ⟨place, rfl⟩ : ∃ place, position = place + 1 := ⟨position - 1, by omega⟩
  have hnone : shelf.idAt? place = none := List.getElem?_eq_none (Nat.le_of_lt_succ h)
  rw [before?, hnone, Option.bind_none]

theorem size_le_of_idAt? (h : shelf.idAt? position = none) : shelf.size ≤ position :=
  List.getElem?_eq_none_iff.1 h

theorem lt_size_of_idAt? (h : shelf.idAt? position = some id) : position < shelf.size :=
  (List.getElem?_eq_some_iff.1 h).1

/-- Past the end a new bar is put at the end, and the others stay where they are. -/
theorem order_insert_of_size_le (h : shelf.size ≤ position) (meter : Meter) (tempo : Tempo) :
    (shelf.insert position meter tempo).1.order = shelf.order ++ [shelf.nextId] := by
  have horder : (shelf.insert position meter tempo).1.order =
      shelf.order.insertIdx (min position shelf.order.length) shelf.nextId := rfl
  have hend : min position shelf.order.length = shelf.order.length := Nat.min_eq_right h
  rw [horder, hend, List.insertIdx_length_self]

end BarShelf

namespace Score

variable {score : Score} {id : BarId} {name text : String} {position : Nat} {state : Carry}
  {frame : Frame}

/-! ### What a line is read from -/

/-- Write the line of an instrument in a bar, reading it from a given state, meter and tempo. -/
def setLineFrom (score : Score) (id : BarId) (name text : String) (state : Carry)
    (frame : Frame) : Except ScoreError Score := do
  let player ← score.instrument name
  let bar ← score.bar id
  let written ← (readLine text player state frame).mapError .line
  match bar.meterConflict? name written with
  | some error => .error (.line error)
  | none =>
    .ok { score with shelf := score.shelf.replace id (bar.write score.roster name written) }

/-- Whatever is typed as the line of an instrument in a bar is read from one state, meter and
tempo. -/
structure ReadsFrom (score : Score) (id : BarId) (name : String) (state : Carry)
    (frame : Frame) : Prop where
  priorState_eq : score.priorState id name = state
  frame?_eq : score.frame? id = some frame
  setLine_eq : ∀ text, score.setLine id name text = score.setLineFrom id name text state frame

theorem readsFrom_iff :
    score.ReadsFrom id name state frame ↔
      score.priorState id name = state ∧ score.frame? id = some frame := by
  refine ⟨fun h => ⟨h.priorState_eq, h.frame?_eq⟩, ?_⟩
  rintro ⟨hstate, hframe⟩
  refine ⟨hstate, hframe, fun text => ?_⟩
  obtain ⟨bar, hbar, rfl⟩ := Option.map_eq_some_iff.1 hframe
  have hfound : score.bar id = .ok bar := by simp [Score.bar, hbar]
  subst hstate
  rw [setLine, setLineFrom, hfound]
  rfl

/-! ### The bar at a place -/

/-- The score with a bar at a place, and that bar: the one that stands there, or else one that is
put in. -/
def withBarAt (score : Score) (position : Nat) : Score × BarId :=
  match score.shelf.idAt? position with
  | some id => (score, id)
  | none => score.insertBar position

theorem frame?_insertBar (score : Score) (position : Nat) :
    (score.insertBar position).1.frame? (score.insertBar position).2 =
      some (score.frameBefore position) := by
  rw [frame?, get?_insertBar_self, Option.map_some, Bar.frame, Bar.meter_complete,
    Bar.tempo_complete]
  rfl

theorem order_insertBar_of_size_le (h : score.shelf.size ≤ position) :
    (score.insertBar position).1.shelf.order = score.shelf.order ++ [score.shelf.nextId] :=
  BarShelf.order_insert_of_size_le h (score.frameBefore position).meter
    (score.frameBefore position).tempo

theorem idAt?_insertBar_of_size_le (h : score.shelf.size ≤ position) :
    (score.insertBar position).1.shelf.idAt? score.shelf.size =
      some (score.insertBar position).2 := by
  rw [BarShelf.idAt?, order_insertBar_of_size_le h, BarShelf.size, List.getElem?_concat_length]
  rfl

/-- A bar that is put in at the end comes after the last one, and changes none. -/
theorem before?_insertBar_of_size_le (h : score.shelf.size ≤ position) :
    (score.insertBar position).1.shelf.before? score.shelf.size =
      score.shelf.before? score.shelf.size := by
  cases hsize : score.shelf.size with
  | zero => rfl
  | succ last =>
    have hlt : last < score.shelf.order.length := by
      have : score.shelf.order.length = last + 1 := hsize
      omega
    have hat : (score.insertBar position).1.shelf.idAt? last = score.shelf.idAt? last := by
      rw [BarShelf.idAt?, order_insertBar_of_size_le h, List.getElem?_append_left hlt,
        BarShelf.idAt?]
    rw [BarShelf.before?, BarShelf.before?, hat]
    refine Option.bind_congr fun old hold => ?_
    have hother : old ≠ score.shelf.nextId := by
      rintro rfl
      exact score.shelf.nextId_notMem (List.mem_of_getElem? hold)
    rw [get?_insertBar, if_neg hother]

theorem priorState_insertBar_of_size_le (h : score.shelf.size ≤ position) (name : String) :
    (score.insertBar position).1.priorState (score.insertBar position).2 name =
      closingOf (score.shelf.before? score.shelf.size) name := by
  rw [priorState, BarShelf.previous?_eq_before? (idAt?_insertBar_of_size_le h),
    before?_insertBar_of_size_le h]

/-! ### Cursors -/

theorem readsFrom_cursor (h : score.shelf.idAt? position = some id) (name : String) :
    score.ReadsFrom id name (score.cursor name position).state
      (score.cursor name position).frame := by
  obtain ⟨bar, hbar⟩ := BarShelf.exists_bar_of_idAt? h
  simp [readsFrom_iff, cursor, h, hbar, frame?]

theorem cursor_of_none (h : score.shelf.idAt? position = none) :
    score.cursor name position =
      ⟨position, closingOf (score.shelf.before? position) name,
        score.frameBefore position⟩ := by
  unfold cursor
  simp only [h]
  cases position <;> rfl

/-- A cursor has the meter and tempo, and up to the end the state, from which a line of its
instrument is read in the bar at its place, be it there or put in; that bar stands at the place or
at the end, where a declaration puts it too. Beyond the end the state of the cursor is the initial
one, whatever the last bar leaves. -/
theorem readsFrom_cursor_iff (score : Score) (name : String) (position : Nat) :
    let next := (score.withBarAt position).1
    let id := (score.withBarAt position).2
    let cursor := score.cursor name position
    next.shelf.idAt? (min position score.shelf.size) = some id ∧
      (∀ written, (score.barFor position written).2 = id ∧
        (score.barFor position written).1.shelf.order = next.shelf.order) ∧
      next.ReadsFrom id name (next.priorState id name) cursor.frame ∧
      (next.ReadsFrom id name cursor.state cursor.frame ↔
        position ≤ score.shelf.size ∨ next.priorState id name = .initial) ∧
      (score.shelf.size < position → cursor.state = .initial) := by
  dsimp only
  cases h : score.shelf.idAt? position with
  | some id =>
    have hlt := BarShelf.lt_size_of_idAt? h
    have hreads := readsFrom_cursor h name
    have hwith : score.withBarAt position = (score, id) := by rw [withBarAt, h]
    rw [hwith, Nat.min_eq_left (Nat.le_of_lt hlt)]
    refine ⟨h, fun written => ?_, ?_, iff_of_true hreads (.inl (Nat.le_of_lt hlt)), ?_⟩
    · simp [barFor, h]
    · rw [hreads.priorState_eq]
      exact hreads
    · intro hbeyond
      omega
  | none =>
    have hle := BarShelf.size_le_of_idAt? h
    have hwith : score.withBarAt position = score.insertBar position := by rw [withBarAt, h]
    have hprior := priorState_insertBar_of_size_le hle name
    have hframe := frame?_insertBar score position
    rw [hwith, cursor_of_none h, Nat.min_eq_right hle]
    refine ⟨idAt?_insertBar_of_size_le hle, fun written => ?_, ?_, ?_, ?_⟩
    · simp only [barFor, h]
      exact ⟨rfl, rfl⟩
    · exact readsFrom_iff.2 ⟨rfl, hframe⟩
    · rw [readsFrom_iff, hprior, and_iff_left hframe]
      rcases Nat.eq_or_lt_of_le hle with heq | hbeyond
      · simp [heq]
      · rw [BarShelf.before?_eq_none hbeyond]
        simp only [Nat.not_le.2 hbeyond, false_or]
        rfl
    · intro hbeyond
      rw [BarShelf.before?_eq_none hbeyond]
      rfl

/-- A bar of the flute that leaves a length, a level and an open slur. -/
def phrase : Score :=
  (empty (.ofList [.named "flute"])).performAll
    [.insertBar 0, .setLine ⟨0⟩ "flute" "c2( d\\f"]

/-- One place beyond the end of the phrase, the cursor has lost what the bar leaves to the bar that
would be put in there. -/
theorem not_readsFrom_cursor_phrase :
    ¬ (phrase.withBarAt 2).1.ReadsFrom (phrase.withBarAt 2).2 "flute"
      (phrase.cursor "flute" 2).state (phrase.cursor "flute" 2).frame := by
  obtain ⟨-, -, -, hiff, -⟩ := readsFrom_cursor_iff phrase "flute" 2
  rw [hiff]
  decide +kernel

end Score

end Stave
