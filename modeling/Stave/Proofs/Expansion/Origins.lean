import Stave.Proofs.Expansion.Typed

/-!
# Every byte of an expansion knows where it was typed

The text of an expansion is given in bytes, and so are the origins: a character of several bytes
has its origin once for each. However often a character was copied, its origin is the byte where
it was typed. A space that joins copies was not typed; its origin is that of the sign that asked
for them. A line that cannot be expanded is reported at such a sign.
-/
namespace Stave.Shorthand

/-- A character of an expansion was typed at a byte of the text, or it is a space that joins the
copies of a repeat whose sign was typed there. -/
def Expansion.CameFrom (expansion : Expansion) (text : String) (c : Char) (origin : Nat) : Prop :=
  ∃ typed, Text.charAt? text.toList origin = some typed ∧
    (typed = c ∨ c = ' ' ∧ (typed = ']' ∨ typed = '*') ∧
      Repeat.Joins (Symbol.ofChars 0 text.toList) ⟨typed, origin⟩ expansion.symbols)

/-- An expansion has an origin for each byte of its text, the same one for all bytes of a
character, and the character came from there. -/
structure Expansion.OriginsTyped (expansion : Expansion) (text : String) : Prop where
  length_eq : expansion.origins.length = expansion.text.utf8ByteSize
  origin : ∀ before c after, expansion.text.toList = before ++ c :: after →
    ∃ origin, (∀ index < c.utf8Size,
        expansion.origins[Text.byteSize before + index]? = some origin) ∧
      expansion.CameFrom text c origin

/-- An error has the text as it was typed, and the place of a sign outside quotes in it. -/
structure ExpansionError.AtSign (error : ExpansionError) (text : String) : Prop where
  line_eq : error.line = text
  sign : ∃ before sign after, text.toList = before ++ sign :: after ∧
    Text.byteSize before = error.offset ∧ sign ∈ repeatSigns ∧ quotedChars false before = false

variable {text : String} {expansion : Expansion} {error : ExpansionError} {symbol : Symbol}

namespace Expansion

@[simp] theorem toList_text (expansion : Expansion) :
    expansion.text.toList = Symbol.chars expansion.symbols :=
  String.toList_ofList

theorem length_origins_eq (expansion : Expansion) :
    expansion.origins.length = expansion.text.utf8ByteSize := by
  rw [length_origins, ← Text.byteSize_toList, toList_text]
  rfl

end Expansion

/-- A symbol of an expansion was typed, or it joins copies. -/
theorem cameFrom_of_expand (h : expand text = .ok expansion) (hmem : symbol ∈ expansion.symbols) :
    expansion.CameFrom text symbol.char symbol.origin := by
  have hreaches := reaches_of_expandSymbols (exists_expandSymbols_of_expand h)
  rcases Repeat.mem_or_joins_of_reaches hreaches hmem with htyped | ⟨sign, hjoins, rfl⟩
  · exact ⟨symbol.char, Symbol.charAt?_of_mem_ofChars htyped, .inl rfl⟩
  · obtain ⟨hout, hchar⟩ := hjoins.outside
    exact ⟨sign.char, Symbol.charAt?_of_mem_ofChars hout.mem, .inr ⟨rfl, hchar, hjoins⟩⟩

theorem originsTyped_of_expand (h : expand text = .ok expansion) : expansion.OriginsTyped text where
  length_eq := expansion.length_origins_eq
  origin := by
    intro front c back hsplit
    rw [Expansion.toList_text] at hsplit
    obtain ⟨before, _, hsymbols, rfl, hrest⟩ := List.map_eq_append_iff.1 hsplit
    obtain ⟨symbol, after, rfl, rfl, rfl⟩ := List.map_eq_cons_iff.1 hrest
    have hmem : symbol ∈ expansion.symbols := by simp [hsymbols]
    exact ⟨symbol.origin, fun index hindex => Expansion.getElem?_origins_of_split hsymbols hindex,
      cameFrom_of_expand h hmem⟩

theorem atSign_of_expand (h : expand text = .error error) : error.AtSign text := by
  obtain ⟨hline, sign, ⟨before, after, hsplit, hclosed⟩, hsign, hoffset⟩ := outside_of_expand h
  refine ⟨hline, Symbol.chars before, sign.char, Symbol.chars after, ?_, ?_, hsign, ?_⟩
  · rw [← Symbol.chars_ofChars 0 text.toList, hsplit, Symbol.chars_append]
    rfl
  · rw [hoffset, Symbol.origin_of_ofChars hsplit, Nat.zero_add]
    rfl
  · rw [← quotedAfterAll_eq_quotedChars, hclosed]

/-- Whatever is typed, every byte of its expansion knows where it was typed, and an error says
where a sign of a repeat was. -/
theorem expand_traced (text : String) :
    match expand text with
    | .ok expansion => expansion.OriginsTyped text
    | .error error => error.AtSign text := by
  split
  case h_1 h => exact originsTyped_of_expand h
  case h_2 h => exact atSign_of_expand h

/-- The letter of two bytes has its origin twice in each copy, and the copies are joined at the
closing bracket. A group that is left open is reported at its bracket. -/
theorem expand_traced_joined :
    (∃ expansion, expand "[c é]2" = .ok expansion ∧
        expansion.origins = [1, 2, 3, 3, 5, 1, 2, 3, 3] ∧ expansion.OriginsTyped "[c é]2" ∧
        expansion.CameFrom "[c é]2" ' ' 5) ∧
      ∃ error, expand "\"[\" c [d" = .error error ∧ error.offset = 6 ∧
        error.AtSign "\"[\" c [d" := by
  have hparts : (expand "[c é]2").toOption.map (fun expansion =>
      (expansion.origins, expansion.text)) =
      some ([1, 2, 3, 3, 5, 1, 2, 3, 3], "c é c é") := by
    decide +kernel
  have hrefused : (failure? (expand "\"[\" c [d")).map ExpansionError.offset = some 6 := by
    decide +kernel
  constructor
  · obtain ⟨expansion, hexpand, heq⟩ := Option.map_eq_some_iff.1 hparts
    obtain ⟨horigins, htext⟩ := by simpa only [Prod.mk.injEq] using heq
    rw [toOption_eq_some_iff] at hexpand
    have traced := expand_traced "[c é]2"
    rw [hexpand] at traced
    obtain ⟨origin, hbytes, hcame⟩ := traced.origin ['c', ' ', 'é'] ' ' ['c', ' ', 'é'] (by
      rw [htext]
      decide)
    have hfive : expansion.origins[4]? = some origin := hbytes 0 (by decide)
    rw [horigins] at hfive
    cases Option.some.inj hfive
    exact ⟨expansion, hexpand, horigins, traced, hcame⟩
  · obtain ⟨error, hfailure, hoffset⟩ := Option.map_eq_some_iff.1 hrefused
    rw [failure?_eq_some_iff] at hfailure
    have traced := expand_traced "\"[\" c [d"
    rw [hfailure] at traced
    exact ⟨error, hfailure, hoffset, traced⟩

end Stave.Shorthand
