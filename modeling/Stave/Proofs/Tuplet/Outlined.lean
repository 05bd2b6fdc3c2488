import Stave.Shorthand.TupletGroup

/-!
# What slots and tuplets are counted by

The ledger and the search for tuplets ask of a token only whether it heads a slot, opens or closes
a chord, or belongs to a tuplet. What is written at it, its pitch, its length and its post-events,
has no part in either. So tokens with the same outline have the same heads and the same tuplets.
-/
namespace Stave.Shorthand

/-- What the ledger and the search for tuplets see of a kind of token: a slot of one token is a
rest without a suffix, and all that is neither slot, chord nor tuplet is an empty list of
post-events. -/
def TokenKind.outline : TokenKind → TokenKind
  | note _ => rest ⟨none, []⟩
  | rest _ => rest ⟨none, []⟩
  | duration _ => rest ⟨none, []⟩
  | chordStart => chordStart
  | chordEnd _ => chordEnd ⟨none, []⟩
  | tuplet actual normal => tuplet actual normal
  | groupOpen => groupOpen
  | groupClose => groupClose
  | _ => postEvents []

/-- What the ledger and the search for tuplets see of a token. -/
def Token.outline (token : Token) : Token := { token with kind := token.kind.outline }

variable {tokens tokens' : List Token} {ledger : Ledger} {index : Nat}
  {tuplet : Option OpenTuplet} {found : List TupletGroup}

theorem TokenKind.isHead_outline (kind : TokenKind) (chord : Bool) :
    kind.outline.isHead chord = kind.isHead chord := by
  cases kind <;> rfl

theorem TokenKind.opensChord_outline (kind : TokenKind) (chord : Bool) :
    kind.outline.opensChord chord = kind.opensChord chord := by
  cases kind <;> rfl

theorem TokenKind.outline_eq_groupOpen {kind : TokenKind} :
    kind.outline = .groupOpen ↔ kind = .groupOpen := by
  cases kind <;> simp [outline]

theorem Ledger.removedFrom_outline (index : Nat) (chord : Bool) (tokens : List Token) :
    removedFrom index chord (tokens.map Token.outline) = removedFrom index chord tokens := by
  induction tokens generalizing index chord with
  | nil => rfl
  | cons token rest ih =>
    have hhead : token.outline.kind.isHead chord = token.kind.isHead chord :=
      token.kind.isHead_outline chord
    have hopens : token.outline.kind.opensChord chord = token.kind.opensChord chord :=
      token.kind.opensChord_outline chord
    rw [List.map_cons, removedFrom, removedFrom, hhead, hopens, ih]

theorem TupletGroup.collect_outline (ledger : Ledger) (index : Nat) (tuplet : Option OpenTuplet)
    (found : List TupletGroup) (tokens : List Token) :
    collect ledger index tuplet found (tokens.map Token.outline) =
      collect ledger index tuplet found tokens := by
  induction tokens generalizing index tuplet found with
  | nil => rfl
  | cons token rest ih =>
    have hnext : (rest.map Token.outline).head?.map Token.kind = some .groupOpen ↔
        rest.head?.map Token.kind = some .groupOpen := by
      simp [Token.outline, TokenKind.outline_eq_groupOpen, Function.comp_def]
    have hkind : token.outline.kind = token.kind.outline := rfl
    have horigin : token.outline.origin = token.origin := rfl
    unfold collect
    simp only [List.map_cons, hkind, horigin, hnext, ih]
    cases token.kind <;> rfl

/-- Tokens with the same outline have the same ledger. -/
theorem Ledger.scan_of_outline (h : tokens'.map Token.outline = tokens.map Token.outline) :
    scan tokens' = scan tokens := by
  rw [scan, ← removedFrom_outline, h, removedFrom_outline, scan]

/-- Tokens with the same outline have the same tuplets. -/
theorem TupletGroup.scan_of_outline (h : tokens'.map Token.outline = tokens.map Token.outline) :
    scan tokens' ledger = scan tokens ledger := by
  rw [scan, ← collect_outline, h, collect_outline, scan]

end Stave.Shorthand
