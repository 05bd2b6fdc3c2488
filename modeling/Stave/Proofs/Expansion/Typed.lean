import Stave.Proofs.Repeat.Traced

/-!
# Expanded symbols and the typed text

A symbol of an expanded line says where it was typed. That is kept through all repeats: a
symbol that is no blank is the character that begins at its origin in the typed text. The
spaces that join copies are the only symbols that were not typed, and nothing is ever reported
at a blank. What is reported at a symbol is then reported at a character of the typed text.
-/
namespace Stave

namespace Text

/-- The character that begins at a byte of a text, if one begins there. -/
def charAt? : List Char → Nat → Option Char
  | [], _ => none
  | c :: cs, byte =>
    if byte = 0 then some c
    else if byte < c.utf8Size then none
    else charAt? cs (byte - c.utf8Size)

/-- A character that is no blank begins at a byte of a text. -/
def InkAt (cs : List Char) (byte : Nat) : Prop :=
  ∃ c, charAt? cs byte = some c ∧ isBlank c = false

variable {cs before after : List Char} {byte : Nat} {c : Char}

@[simp] theorem charAt?_append (before cs : List Char) (byte : Nat) :
    charAt? (before ++ cs) (byteSize before + byte) = charAt? cs byte := by
  induction before with
  | nil => simp
  | cons c before ih =>
    have hpos := c.utf8Size_pos
    rw [List.cons_append, charAt?, byteSize_cons, if_neg (by omega), if_neg (by omega),
      Nat.add_assoc, Nat.add_sub_cancel_left, ih]

theorem charAt?_byteSize (before after : List Char) (c : Char) :
    charAt? (before ++ c :: after) (byteSize before) = some c := by
  rw [← Nat.add_zero (byteSize before), charAt?_append, charAt?, if_pos rfl]

/-- A character that begins at a byte has as many bytes before it. -/
theorem charAt?_eq_some_iff :
    charAt? cs byte = some c ↔
      ∃ before after, cs = before ++ c :: after ∧ byteSize before = byte := by
  constructor
  · intro h
    induction cs generalizing byte with
    | nil => cases h
    | cons first cs ih =>
      unfold charAt? at h
      split at h
      case isTrue hzero =>
        cases h
        exact ⟨[], cs, rfl, hzero.symm⟩
      case isFalse =>
        split at h
        · cases h
        · obtain ⟨before, after, rfl, hsize⟩ := ih h
          exact ⟨first :: before, after, rfl, by rw [byteSize_cons]; omega⟩
  · rintro ⟨before, after, rfl, rfl⟩
    exact charAt?_byteSize before after c

theorem byteSize_toList (text : String) : byteSize text.toList = text.utf8ByteSize := by
  have hchars (cs : List Char) : byteSize cs = (String.ofList cs).utf8ByteSize := by
    induction cs with
    | nil => rfl
    | cons c cs ih =>
      rw [byteSize_cons, ih, ← List.singleton_append, String.ofList_append,
        String.utf8ByteSize_append]
      simp
  rw [hchars, String.ofList_toList]

end Text

namespace Shorthand

/-- A symbol of a typed text has the place its character has there. -/
theorem Symbol.origin_of_ofChars {origin : Nat} {cs : List Char} {before after : List Symbol}
    {symbol : Symbol} (h : ofChars origin cs = before ++ symbol :: after) :
    symbol.origin = origin + byteSize before := by
  induction before generalizing origin cs with
  | nil =>
    cases cs with
    | nil => cases h
    | cons c cs =>
      obtain ⟨rfl, -⟩ := List.cons.inj h
      rfl
  | cons first before ih =>
    cases cs with
    | nil => cases h
    | cons c cs =>
      obtain ⟨rfl, hrest⟩ := List.cons.inj h
      rw [ih hrest, Nat.add_assoc]
      exact congrArg (origin + ·) (Text.byteSize_cons c (chars before)).symm

/-- A symbol of a typed text is the character that begins at its origin. -/
theorem Symbol.charAt?_of_mem_ofChars {cs : List Char} {symbol : Symbol}
    (h : symbol ∈ ofChars 0 cs) : Text.charAt? cs symbol.origin = some symbol.char := by
  obtain ⟨before, after, hsplit⟩ := List.append_of_mem h
  refine Text.charAt?_eq_some_iff.2 ⟨chars before, chars after, ?_, ?_⟩
  · rw [← chars_ofChars 0 cs, hsplit, chars_append]
    rfl
  · rw [origin_of_ofChars hsplit, Nat.zero_add]
    rfl

/-- Every symbol that is no blank is the character of the text that begins at its origin. -/
def Typed (cs : List Char) (symbols : List Symbol) : Prop :=
  ∀ symbol ∈ symbols, symbol.isBlank = false → Text.charAt? cs symbol.origin = some symbol.char

variable {cs : List Char} {symbols line out : List Symbol} {symbol : Symbol}

theorem Typed.inkAt (h : Typed cs symbols) (hmem : symbol ∈ symbols)
    (hblank : symbol.isBlank = false) : Text.InkAt cs symbol.origin :=
  ⟨symbol.char, h symbol hmem hblank, hblank⟩

theorem typed_ofChars (cs : List Char) : Typed cs (Symbol.ofChars 0 cs) :=
  fun _ hmem _ => Symbol.charAt?_of_mem_ofChars hmem

/-- Writing out repeats leaves every symbol where it was typed. -/
theorem typed_of_reaches (h : Repeat.Reaches line out) (htyped : Typed cs line) :
    Typed cs out := by
  intro symbol hmem hblank
  rcases Repeat.mem_or_joins_of_reaches h hmem with hold | ⟨sign, -, rfl⟩
  · exact htyped symbol hold hblank
  · cases hblank

theorem exists_expandSymbols_of_expand {text : String} {expansion : Expansion}
    (h : expand text = .ok expansion) :
    expandSymbols (Symbol.ofChars 0 text.toList) = .ok expansion.symbols := by
  unfold expand at h
  split at h
  case h_1 symbols hsymbols =>
    cases h
    exact hsymbols
  case h_2 => cases h

theorem typed_of_expand {text : String} {expansion : Expansion}
    (h : expand text = .ok expansion) : Typed text.toList expansion.symbols :=
  typed_of_reaches (reaches_of_expandSymbols (exists_expandSymbols_of_expand h))
    (typed_ofChars text.toList)

/-- The error of a line that cannot be expanded has the line, and is reported at a sign of it that
stands outside quotes. -/
theorem outside_of_expand {text : String} {error : ExpansionError}
    (h : expand text = .error error) :
    error.line = text ∧ ∃ sign, Outside false (Symbol.ofChars 0 text.toList) sign ∧
      Repeat.IsSign sign ∧ error.offset = sign.origin := by
  unfold expand at h
  split at h
  case h_1 => cases h
  case h_2 failure hfailure =>
    cases h
    exact ⟨rfl, outside_of_expandSymbols hfailure⟩

/-- So it is reported at a character that was typed. -/
theorem inkAt_of_expand {text : String} {error : ExpansionError} (h : expand text = .error error) :
    Text.InkAt text.toList error.offset := by
  obtain ⟨-, sign, hout, hsign, hoffset⟩ := outside_of_expand h
  exact hoffset ▸ (typed_ofChars text.toList).inkAt hout.mem hsign.isBlank_eq

/-- Every byte of a symbol in the expanded text has the origin of the symbol. -/
theorem Expansion.getElem?_origins_of_split {expansion : Expansion} {before after : List Symbol}
    {index : Nat} (h : expansion.symbols = before ++ symbol :: after)
    (hindex : index < symbol.char.utf8Size) :
    expansion.origins[Symbol.byteSize before + index]? = some symbol.origin := by
  have hlength := (Expansion.mk before 0).length_origins
  simp only [Expansion.origins] at hlength
  simp only [Expansion.origins, h, List.flatMap_append, List.flatMap_cons]
  rw [List.getElem?_append_right (by omega), hlength, Nat.add_sub_cancel_left,
    List.getElem?_append_left (by simpa using hindex), List.getElem?_replicate, if_pos hindex]

/-- The byte of the expanded text where a symbol begins comes from where that was typed. -/
theorem Expansion.typedOffset_of_split {expansion : Expansion} {before after : List Symbol}
    (h : expansion.symbols = before ++ symbol :: after) :
    expansion.typedOffset (Symbol.byteSize before) = symbol.origin := by
  have horigin := getElem?_origins_of_split h symbol.char.utf8Size_pos
  rw [Nat.add_zero] at horigin
  rw [Expansion.typedOffset, List.getD_eq_getElem?_getD, horigin, Option.getD_some]

end Shorthand

end Stave
