import Stave.Proofs.Repeat.Kept

/-!
# Repeats between blanks

A group drops a blank at either end of its text before the passes over chords and words come to
it. That makes no difference to them: what they write of a text between blanks is what they write
of the text, between the same blanks.
-/
namespace Stave.Shorthand

variable {pass : Pass} {blanks before : List Symbol} {symbol : Symbol}

/-- A pass copies any number of blanks. -/
theorem Pass.CopiesBlanks.append (h : pass.CopiesBlanks)
    (hblanks : ∀ symbol ∈ blanks, symbol.isBlank = true) (size : Nat) (before rest : List Symbol) :
    pass size before (blanks ++ rest) = pass size (blanks.reverse ++ before) rest := by
  induction blanks generalizing before with
  | nil => rfl
  | cons blank blanks ih =>
    obtain ⟨hblank, hblanks⟩ := List.forall_mem_cons.1 hblanks
    rw [List.cons_append, h.blank size before blank _ hblank, ih hblanks, List.reverse_cons,
      List.append_assoc]
    rfl

theorem Pass.CopiesBlanks.only_blanks (h : pass.CopiesBlanks)
    (hblanks : ∀ symbol ∈ blanks, symbol.isBlank = true) (size : Nat) (before : List Symbol) :
    pass size before blanks = .ok (before.reverse ++ blanks) := by
  have hall := h.append hblanks size before []
  rw [List.append_nil] at hall
  rw [hall, h.nil, List.reverse_append, List.reverse_reverse]

theorem blankNext_of_blanks (h : ∀ symbol ∈ blanks, symbol.isBlank = true) : BlankNext blanks :=
  fun symbol hmem => h symbol (List.mem_of_mem_head? hmem)

/-- After blanks nothing is escaped. -/
theorem escapedBy_of_blanks (h : ∀ symbol ∈ blanks, symbol.isBlank = true) :
    escapedBy blanks = false := by
  cases blanks with
  | nil => rfl
  | cons blank blanks => exact escapes_of_isBlank (h blank List.mem_cons_self)

@[simp] theorem Symbol.moved_id : Symbol.moved id = id := rfl

namespace Repeat

variable {size : Nat} {quoted : Bool} {symbols written out front back : List Symbol}

/-- A chord is found where it is found in the text alone, and its word is the same. -/
theorem chord_between {body after : List Symbol} (hbefore : escapedBy before = false)
    (hblanks : ∀ symbol ∈ blanks, symbol.isBlank = true)
    (hclosed : quotedAfterAll quoted (symbol :: symbols) = false)
    (hlast : lastBracket (escapedBy written) quoted (symbol :: symbols) ≠ some '<')
    (hfound : chordAt? written quoted symbol symbols = some (body, after)) :
    chordAt? (written ++ before) quoted symbol (symbols ++ blanks) = some (body, after ++ blanks) ∧
      Symbol.splitWord false (after ++ blanks) =
        ((Symbol.splitWord false after).1, (Symbol.splitWord false after).2 ++ blanks) ∧
      quotedAfterAll false (Symbol.splitWord false after).2 = false ∧
      ∀ escaped, lastBracket escaped false (Symbol.splitWord false after).2 ≠ some '<' := by
  have hjoined := chordAt?_joined id blanks hbefore hlast
  rw [hfound] at hjoined
  simp only [Symbol.moved_id, List.map_id, id, Option.map_some] at hjoined
  obtain ⟨-, rfl, -, hbody⟩ := chordAt?_opens hfound
  rw [chordAt?_eq_some hfound, ← List.cons_append] at hclosed hlast
  rw [quotedAfterAll_append, hbody] at hclosed
  have hafter := lastBracket_ne_of_append (symbol :: body) hlast
  rw [hbody] at hafter
  exact ⟨hjoined, splitWord_append_of_blankNext hclosed (blankNext_of_blanks hblanks),
    quotedAfterAll_splitWord_eq hclosed, lastBracket_splitWord_ne hafter⟩

/-- What the pass over chords writes of a text that goes on with blanks, whatever was written
before. -/
theorem writeChords_between (hbefore : escapedBy before = false)
    (hblanks : ∀ symbol ∈ blanks, symbol.isBlank = true)
    (hclosed : quotedAfterAll quoted symbols = false)
    (hlast : lastBracket (escapedBy written) quoted symbols ≠ some '<') :
    writeChords size (written ++ before) quoted (symbols ++ blanks) =
      (writeChords size written quoted symbols).map fun out =>
        before.reverse ++ (out ++ blanks) := by
  fun_induction writeChords size written quoted symbols with
  | case1 size written quoted =>
    rw [quotedAfterAll_nil] at hclosed
    subst hclosed
    have hcopied := copiesBlanks_chordPass.only_blanks hblanks size (written ++ before)
    rw [List.nil_append, show writeChords size (written ++ before) false blanks = _ from hcopied]
    simp [Except.map]
  | case2 size written quoted symbol rest hfound ih =>
    have hjoined := chordAt?_joined id blanks hbefore hlast
    rw [hfound] at hjoined
    simp only [Symbol.moved_id, List.map_id, id, Option.map_none] at hjoined
    rw [List.cons_append, writeChords_none hjoined]
    exact ih hclosed (lastBracket_ne_of_append [symbol] hlast)
  | case3 size written quoted symbol rest body after hfound word failure hwrite =>
    obtain ⟨hjoined, hsplit, -⟩ := chord_between hbefore hblanks hclosed hlast hfound
    rw [List.cons_append, writeChords_some hjoined, hsplit, hwrite]
    rfl
  | case4 size written quoted symbol rest body after hfound word size' text hwrite ih =>
    obtain ⟨hjoined, hsplit, hrest, hrestLast⟩ :=
      chord_between hbefore hblanks hclosed hlast hfound
    rw [List.cons_append, writeChords_some hjoined, hsplit, hwrite]
    change writeChords size' (text.reverse ++ (written ++ before)) false _ = _
    rw [← List.append_assoc]
    exact ih hrest (hrestLast _)

/-- The same for the pass over words. -/
theorem writeWords_between (hblanks : ∀ symbol ∈ blanks, symbol.isBlank = true)
    (hclosed : quotedAfterAll false symbols = false) :
    writeWords size (written ++ before) (symbols ++ blanks) =
      (writeWords size written symbols).map fun out => before.reverse ++ (out ++ blanks) := by
  fun_induction writeWords size written symbols with
  | case1 size written =>
    rw [List.nil_append, copiesBlanks_writeWords.only_blanks hblanks]
    simp [Except.map]
  | case2 size written symbol rest hblank ih =>
    rw [quotedAfterAll_cons, Symbol.quotedAfter, not_isQuote_of_isBlank hblank] at hclosed
    rw [List.cons_append, writeWords, if_pos hblank]
    exact ih hclosed
  | case3 size written symbol rest hblank tail failure hwrite =>
    rw [quotedAfterAll_cons] at hclosed
    rw [List.cons_append, writeWords, if_neg hblank]
    dsimp only
    rw [splitWord_append_of_blankNext hclosed (blankNext_of_blanks hblanks), hwrite]
    rfl
  | case4 size written symbol rest hblank tail size' text hwrite ih =>
    rw [quotedAfterAll_cons] at hclosed
    rw [List.cons_append, writeWords, if_neg hblank]
    dsimp only
    rw [splitWord_append_of_blankNext hclosed (blankNext_of_blanks hblanks), hwrite]
    dsimp only
    rw [← List.append_assoc]
    exact ih (quotedAfterAll_splitWord_eq hclosed)

/-! ### Blanks at both ends -/

section Ends

variable (hfront : ∀ symbol ∈ front, symbol.isBlank = true)
  (hback : ∀ symbol ∈ back, symbol.isBlank = true)
include hfront hback

theorem quotedAfterAll_between :
    quotedAfterAll quoted (front ++ (symbols ++ back)) = quotedAfterAll quoted symbols := by
  rw [quotedAfterAll_append, quotedAfterAll_append, quotedAfterAll_of_isBlank hfront,
    quotedAfterAll_of_isBlank hback]

theorem lastBracket_between :
    lastBracket false quoted (front ++ (symbols ++ back)) = lastBracket false quoted symbols := by
  have hplain : ∀ c ∈ Symbol.chars back, IsPlain c := by
    intro c hmem
    obtain ⟨symbol, hsymbol, rfl⟩ := List.mem_map.1 hmem
    exact isPlain_of_isBlank (hback symbol hsymbol)
  have hnone (escaped quoted : Bool) : lastBracket escaped quoted back = none := by
    rw [lastBracket, chordBrackets_eq_nil_of_isPlain hplain]
    rfl
  induction front with
  | nil => rw [List.nil_append, lastBracket_append, hnone, Option.none_or]
  | cons blank front ih =>
    obtain ⟨hblank, hfront⟩ := List.forall_mem_cons.1 hfront
    rw [List.cons_append, lastBracket_cons_of_isBlank hblank, ih hfront]

theorem exists_writeChords_between (hclosed : quotedAfterAll false symbols = false)
    (hlast : lastBracket false false symbols ≠ some '<')
    (h : writeChords size [] false (front ++ (symbols ++ back)) = .ok out) :
    ∃ inner, writeChords size [] false symbols = .ok inner ∧ out = front ++ (inner ++ back) := by
  have hfree : escapedBy front.reverse = false :=
    escapedBy_of_blanks fun symbol hmem => hfront symbol (List.mem_reverse.1 hmem)
  have hskip : writeChords size [] false (front ++ (symbols ++ back)) =
      writeChords size ([] ++ front.reverse) false (symbols ++ back) := by
    simpa [chordPass] using copiesBlanks_chordPass.append hfront size [] (symbols ++ back)
  have hstart : lastBracket (escapedBy []) false symbols ≠ some '<' := hlast
  rw [hskip, writeChords_between hfree hback hclosed hstart, List.reverse_reverse] at h
  obtain ⟨inner, hinner, heq⟩ := map_ok_iff.1 h
  exact ⟨inner, hinner, heq.symm⟩

theorem exists_writeWords_between (hclosed : quotedAfterAll false symbols = false)
    (h : writeWords size [] (front ++ (symbols ++ back)) = .ok out) :
    ∃ inner, writeWords size [] symbols = .ok inner ∧ out = front ++ (inner ++ back) := by
  have hskip : writeWords size [] (front ++ (symbols ++ back)) =
      writeWords size ([] ++ front.reverse) (symbols ++ back) := by
    simpa using copiesBlanks_writeWords.append hfront size [] (symbols ++ back)
  rw [hskip, writeWords_between hback hclosed, List.reverse_reverse] at h
  obtain ⟨inner, hinner, heq⟩ := map_ok_iff.1 h
  exact ⟨inner, hinner, heq.symm⟩

end Ends

end Repeat

end Stave.Shorthand
