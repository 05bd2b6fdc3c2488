import Mathlib.Logic.Relation
import Stave.Proofs.Repeat.Unquoted

/-!
# What a line that is written out comes from

A repeat is written out at a sign that stands outside quotes, and what it copies leaves no
quotation open. So the quotation after the copies is the one after the count, and whatever stands
outside quotes in the new line stood so in the line before, joining spaces apart. Each pass comes
to a line along such steps, or it stops at a sign outside quotes of a line on the way.
-/
namespace Stave.Shorthand

namespace Repeat

/-- A repeat is written out as so many copies, at the sign that ends its unit. -/
inductive WritesOut (sign : Symbol) (count : Nat) : List Symbol → List Symbol → Prop where
  | group {before raw marks after : List Symbol} {bracket : Symbol}
      (opens : bracket.char = '[') (closes : sign.char = ']')
      (outside : quotedAfterAll false before = false) (closed : quotedAfterAll false raw = false)
      (counted : readCount sign.origin (marks ++ after) = .ok (count, marks.length)) :
      WritesOut sign count (before ++ bracket :: (raw ++ sign :: (marks ++ after)))
        (before ++ (copies (trimOne raw) count sign.origin ++ after))
  | starred {before unit digits after : List Symbol} (starred : sign.char = '*')
      (outside : quotedAfterAll false before = false) (closed : quotedAfterAll false unit = false)
      (counted : readWordCount sign digits = .ok count) :
      WritesOut sign count (before ++ (unit ++ sign :: (digits ++ after)))
        (before ++ (copies unit count sign.origin ++ after))

/-- A line is reached by writing out repeats. -/
def Reaches : List Symbol → List Symbol → Prop :=
  Relation.ReflTransGen fun line out => ∃ sign count, WritesOut sign count line out

/-- On the way from one line to another, a repeat is written out whose copies the sign joins. -/
def Joins (line : List Symbol) (sign : Symbol) (out : List Symbol) : Prop :=
  ∃ reached next count, Reaches line reached ∧ WritesOut sign count reached next ∧ 1 < count ∧
    Reaches next out

variable {size count offset : Nat} {quoted : Bool} {line out front unit tail suffix digits text raw
    written after symbols next reached : List Symbol} {symbol sign star bracket close : Symbol}
  {groups : List OpenGroup} {failure : RepeatFailure}
  {result : Except RepeatFailure (List Symbol)}

/-! ### One repeat -/

theorem mem_of_mem_trimOne (h : symbol ∈ trimOne symbols) : symbol ∈ symbols := by
  obtain ⟨front, back, heq, -, -⟩ := exists_trimOne_eq symbols
  rw [heq]
  exact List.mem_append_right _ (List.mem_append_left _ h)

/-- The sign of a repeat closes a group or is a star. -/
theorem WritesOut.char_eq (h : WritesOut sign count line out) :
    sign.char = ']' ∨ sign.char = '*' := by
  cases h with
  | group _ closes => exact .inl closes
  | starred starred => exact .inr starred

/-- The sign of a repeat stands outside quotes. -/
theorem WritesOut.outside_sign (h : WritesOut sign count line out) : Outside false line sign := by
  cases h with
  | @group before raw marks after bracket opens closes outside closed =>
    refine ⟨before ++ bracket :: raw, marks ++ after, by simp, ?_⟩
    rw [quotedAfterAll_append, outside, quotedAfterAll_cons,
      quotedAfter_of_isSign (by simp [IsSign, opens]), closed]
  | @starred before unit digits after starred outside closed =>
    exact ⟨before ++ unit, digits ++ after, by simp, by rw [quotedAfterAll_append, outside, closed]⟩

/-- Every symbol was there before, or it joins copies. -/
theorem WritesOut.mem (h : WritesOut sign count line out) (hmem : symbol ∈ out) :
    symbol ∈ line ∨ symbol = ⟨' ', sign.origin⟩ ∧ 1 < count := by
  cases h with
  | group =>
    simp only [List.mem_append] at hmem
    rcases hmem with hmem | hmem | hmem
    · simp [hmem]
    · exact (mem_of_mem_copies hmem).imp_left fun hraw => by simp [mem_of_mem_trimOne hraw]
    · simp [hmem]
  | starred =>
    simp only [List.mem_append] at hmem
    rcases hmem with hmem | hmem | hmem
    · simp [hmem]
    · exact (mem_of_mem_copies hmem).imp_left fun hunit => by simp [hunit]
    · simp [hmem]

/-- What stands outside quotes stood so before, or it joins copies. -/
theorem WritesOut.outside (h : WritesOut sign count line out) (hout : Outside false out symbol) :
    symbol = ⟨' ', sign.origin⟩ ∨ Outside false line symbol := by
  cases h with
  | @group before raw marks after bracket opens closes outside closed counted =>
    have hunit : quotedAfterAll false (trimOne raw) = false := by
      rw [quotedAfterAll_trimOne, closed]
    have hmarks : quotedAfterAll false marks = false := quotedAfterAll_of_not_isQuote
      fun mark hmem => not_isQuote_of_mark (mark_of_readCount counted mark hmem)
    rw [outside_append, outside, outside_append, quotedAfterAll_copies hunit] at hout
    rw [outside_append, outside, outside_cons, quotedAfter_of_isSign (by simp [IsSign, opens]),
      outside_append, closed, outside_cons, quotedAfter_of_isSign (by simp [IsSign, closes]),
      outside_append, hmarks]
    rcases hout with hbefore | hcopies | hafter
    · exact .inr (.inl hbefore)
    · exact (outside_of_copies hunit hcopies).imp_right fun hraw =>
        .inr (.inr (.inl (outside_of_trimOne hraw)))
    · exact .inr (.inr (.inr (.inr (.inr (.inr hafter)))))
  | @starred before unit digits after starred outside closed counted =>
    have hdigits : quotedAfterAll false digits = false := quotedAfterAll_of_not_isQuote
      fun mark hmem => not_isQuote_of_mark (mark_of_readWordCount counted mark hmem)
    rw [outside_append, outside, outside_append, quotedAfterAll_copies closed] at hout
    rw [outside_append, outside, outside_append, closed, outside_cons,
      quotedAfter_of_isSign (by simp [IsSign, starred]), outside_append, hdigits]
    rcases hout with hbefore | hcopies | hafter
    · exact .inr (.inl hbefore)
    · exact (outside_of_copies closed hcopies).imp_right fun hunit => .inr (.inl hunit)
    · exact .inr (.inr (.inr (.inr (.inr hafter))))

theorem WritesOut.step (h : WritesOut sign count line out) : Step line out := by
  cases h with
  | group opens closes _ _ counted => exact .group opens closes counted
  | starred starred _ _ counted => exact .starred starred counted

/-! ### Any number of repeats -/

theorem steps_of_reaches (h : Reaches line out) : Relation.ReflTransGen Step line out :=
  Relation.ReflTransGen.mono (fun _ _ ⟨_, _, writes⟩ => writes.step) _ _ h

/-- Every symbol of a line that is reached was there from the start, or joins copies of a repeat
that was written out on the way. -/
theorem mem_or_joins_of_reaches (h : Reaches line out) (hmem : symbol ∈ out) :
    symbol ∈ line ∨ ∃ sign, Joins line sign out ∧ symbol = ⟨' ', sign.origin⟩ := by
  induction h with
  | refl => exact .inl hmem
  | @tail reached next hreached hstep ih =>
    obtain ⟨sign, count, writes⟩ := hstep
    rcases writes.mem hmem with hold | ⟨hspace, hcount⟩
    · refine (ih hold).imp_right ?_
      rintro ⟨other, ⟨first, second, copied, hfirst, hother, hcopied, hlast⟩, hspace⟩
      exact ⟨other, ⟨first, second, copied, hfirst, hother, hcopied,
        hlast.tail ⟨sign, count, writes⟩⟩, hspace⟩
    · exact .inr ⟨sign, ⟨reached, next, count, hreached, writes, hcount, .refl⟩, hspace⟩

/-- A symbol that is no blank stands outside quotes only where it did from the start. -/
theorem outside_of_reaches (h : Reaches line out) (hblank : symbol.isBlank = false)
    (hout : Outside false out symbol) : Outside false line symbol := by
  induction h with
  | refl => exact hout
  | tail _ hstep ih =>
    obtain ⟨sign, count, writes⟩ := hstep
    rcases writes.outside hout with rfl | hold
    · cases hblank
    · exact ih hold

theorem IsSign.isBlank_eq (h : IsSign symbol) : symbol.isBlank = false := by
  simp only [IsSign, List.mem_cons, List.not_mem_nil, or_false] at h
  rcases h with h | h | h <;> (rw [Symbol.isBlank, h]; decide)

/-- A line without brackets outside quotes gets none. -/
theorem ungrouped_of_reaches (h : Reaches line out) (hline : Ungrouped line) : Ungrouped out := by
  have hnone {c : Char} (hblank : Text.isBlank c = false)
      (hmem : c ∈ unquoted false (Symbol.chars out)) :
      c ∈ unquoted false (Symbol.chars line) := by
    obtain ⟨symbol, hout, hquote, rfl⟩ := mem_unquoted_iff.1 hmem
    exact mem_unquoted_iff.2 ⟨symbol, outside_of_reaches h hblank hout, hquote, rfl⟩
  exact ⟨mt (hnone (by decide)) hline.1, mt (hnone (by decide)) hline.2⟩

/-- The sign that joins copies stood outside quotes from the start. -/
theorem Joins.outside (h : Joins line sign out) : Outside false line sign ∧
    (sign.char = ']' ∨ sign.char = '*') := by
  obtain ⟨reached, next, count, hreached, writes, -, -⟩ := h
  refine ⟨outside_of_reaches hreached (IsSign.isBlank_eq ?_) writes.outside_sign, writes.char_eq⟩
  rcases writes.char_eq with h | h <;> simp [IsSign, h]

/-! ### The passes -/

/-- What comes of a line: another line that is reached, or a fault at a sign outside quotes of
one. -/
def Traced (line : List Symbol) : Except RepeatFailure (List Symbol) → Prop
  | .ok out => Reaches line out
  | .error failure => ∃ reached sign, Reaches line reached ∧ Outside false reached sign ∧
      IsSign sign ∧ failure.offset = sign.origin

theorem Traced.reaches (h : Traced line result) (hok : result = .ok out) : Reaches line out := by
  subst hok
  exact h

theorem Traced.trans (hreaches : Reaches line next) (h : Traced next result) :
    Traced line result := by
  cases result with
  | ok out => exact Relation.ReflTransGen.trans hreaches h
  | error failure =>
    obtain ⟨reached, sign, hnext, hsign⟩ := h
    exact ⟨reached, sign, Relation.ReflTransGen.trans hreaches hnext, hsign⟩

theorem Traced.bind {pass : List Symbol → Except RepeatFailure (List Symbol)}
    (h : Traced line result) (hpass : ∀ next, Traced next (pass next)) :
    Traced line (result >>= pass) := by
  cases result with
  | ok out => exact .trans h (hpass out)
  | error failure => exact h

theorem traced_error (hsign : IsSign sign) (h : Outside false line sign)
    (hoffset : failure.offset = sign.origin) : Traced line (.error failure) :=
  ⟨line, sign, .refl, h, hsign, hoffset⟩

/-! ### Groups -/

/-- The line around the open groups leaves the quotation as the innermost group does. -/
theorem quotedAfterAll_enclose (h : GroupsOpen groups written quoted) :
    quotedAfterAll false (enclose groups written.reverse) = quoted := by
  induction groups generalizing written quoted with
  | nil => exact h.quoted_eq
  | cons group outer ih =>
    rw [enclose_cons, quotedAfterAll_append, ih h.outer, quotedAfterAll_cons,
      quotedAfter_of_isSign h.isSign, h.quoted_eq]

theorem GroupsOpen.outside_bracket {group : OpenGroup}
    (h : GroupsOpen (group :: groups) written quoted) (inner : List Symbol) :
    Outside false (enclose (group :: groups) inner) group.bracket :=
  ⟨_, inner, enclose_cons group groups inner, quotedAfterAll_enclose h.outer⟩

theorem GroupsOpen.outside_next (h : GroupsOpen groups written false) (rest : List Symbol) :
    Outside false (enclose groups (written.reverse ++ symbol :: rest)) symbol :=
  ⟨_, rest, enclose_append groups written.reverse (symbol :: rest), quotedAfterAll_enclose h⟩

/-- A group that closes is written out in the line around it. -/
theorem writesOut_closeGroup {group : OpenGroup} {rest : List Symbol} {size' used : Nat}
    (h : GroupsOpen (group :: groups) written false) (hclose : close.char = ']')
    (hgroup : closeGroup size group.bracket close written.reverse rest =
      .ok (size', text, used)) :
    ∃ count, WritesOut close count (enclose (group :: groups) (written.reverse ++ close :: rest))
      (enclose groups ((text.reverse ++ group.before).reverse ++ rest.drop used)) := by
  have hopen := (List.forall_mem_cons.1 h.before).1.1
  obtain ⟨-, count, hcount, rfl⟩ := closeGroup_eq_ok hgroup
  obtain ⟨-, marks, after, rfl, rfl, -⟩ := readCount_eq_ok hcount
  refine ⟨count, ?_⟩
  rw [enclose_cons, List.reverse_append, List.reverse_reverse, List.append_assoc, enclose_append,
    List.drop_left]
  exact .group hopen hclose (quotedAfterAll_enclose h.outer) h.quoted_eq hcount

/-- What the pass over groups makes of the line it stands for. -/
theorem traced_writeGroups (h : GroupsOpen groups written quoted) :
    Traced (enclose groups (written.reverse ++ symbols))
      (writeGroups size groups written quoted symbols) := by
  fun_induction writeGroups size groups written quoted symbols with
  | case1 size written quoted =>
    rw [List.append_nil]
    exact .refl
  | case2 size written quoted group outer =>
    exact traced_error h.isSign (h.outside_bracket _) rfl
  | case3 size groups written quoted symbol rest hquote ih =>
    simp only [Bool.or_eq_true] at hquote
    have hcons := ih (h.cons (hquote.imp_right .inl))
    simpa using hcons
  | case4 size groups written quoted symbol rest hquote hopen ih =>
    obtain ⟨-, rfl⟩ : symbol.isQuote = false ∧ quoted = false := by simpa using hquote
    exact ih (h.push hopen)
  | case5 size written quoted symbol rest hquote hopen hclose =>
    obtain ⟨-, rfl⟩ : symbol.isQuote = false ∧ quoted = false := by simpa using hquote
    exact traced_error (by simp [IsSign, hclose]) (h.outside_next rest) rfl
  | case6 size written quoted symbol rest hquote hopen hclose group outer error hgroup =>
    rw [List.unattach_reverse, List.unattach_attach] at hgroup
    obtain ⟨-, rfl⟩ : symbol.isQuote = false ∧ quoted = false := by simpa using hquote
    simp only [hgroup]
    rcases closeGroup_offset hgroup with hoffset | hoffset
    · exact traced_error h.isSign (h.outside_bracket _) hoffset
    · exact traced_error (by simp [IsSign, hclose]) (h.outside_next rest) hoffset
  | case7 size written quoted symbol rest hquote hopen hclose group outer size' text used hgroup
      ih =>
    rw [List.unattach_reverse, List.unattach_attach] at hgroup
    obtain ⟨-, rfl⟩ : symbol.isQuote = false ∧ quoted = false := by simpa using hquote
    simp only [hgroup]
    -- what has been written holds no bracket any more, so the pass goes on as from the new line
    obtain ⟨count, writes⟩ := writesOut_closeGroup h hclose hgroup
    exact .trans (.single ⟨symbol, count, writes⟩) (ih (h.pop hgroup))
  | case8 size groups written quoted symbol rest hquote hopen hclose ih =>
    obtain ⟨hplain, rfl⟩ : symbol.isQuote = false ∧ quoted = false := by simpa using hquote
    have hcons := h.cons (.inr (.inr ⟨hopen, hclose⟩))
    rw [Symbol.quotedAfter, hplain] at hcons
    simpa using ih hcons

/-! ### Chords and words -/

/-- The last star of what follows a closed text stands outside quotes. -/
theorem outside_of_splitLastStar (unit after : List Symbol)
    (hfront : quotedAfterAll false front = false) (hunit : quotedAfterAll false unit = false)
    (h : splitLastStar false tail = some (suffix, star, digits)) :
    Outside false (front ++ (unit ++ (tail ++ after))) star := by
  obtain ⟨rfl, -⟩ := splitLastStar_eq_some h
  refine ⟨front ++ (unit ++ suffix), digits ++ after, by simp, ?_⟩
  rw [quotedAfterAll_append, hfront, quotedAfterAll_append, hunit,
    quotedAfterAll_of_splitLastStar h]

/-- What is written for a unit and what follows it is that, or reached from it. -/
theorem reaches_of_splitLastStar (unit after : List Symbol)
    (hfront : quotedAfterAll false front = false) (hunit : quotedAfterAll false unit = false)
    (h : text = unit ++ tail ∨ ∃ suffix star digits count,
      splitLastStar false tail = some (suffix, star, digits) ∧
        readWordCount star digits = .ok count ∧
        text = copies (unit ++ suffix) count star.origin) :
    Reaches (front ++ (unit ++ (tail ++ after))) (front ++ (text ++ after)) := by
  rcases h with rfl | ⟨suffix, star, digits, count, hstar, hcount, rfl⟩
  · rw [List.append_assoc]
    exact .refl
  · have hsuffix := quotedAfterAll_of_splitLastStar hstar
    obtain ⟨rfl, hchar⟩ := splitLastStar_eq_some hstar
    have hclosed : quotedAfterAll false (unit ++ suffix) = false := by
      rw [quotedAfterAll_append, hunit, hsuffix]
    have writes : WritesOut star count (front ++ ((unit ++ suffix) ++ star :: (digits ++ after)))
        (front ++ (copies (unit ++ suffix) count star.origin ++ after)) :=
      .starred hchar hfront hclosed hcount
    simp only [List.append_assoc, List.cons_append] at writes ⊢
    exact .single ⟨star, count, writes⟩

/-- What the pass over chords makes of its line. It goes on unquoted after a word, and only the
last word may leave a quotation open: then nothing is left to go on with. -/
theorem traced_writeChords
    (h : symbols ≠ [] → quotedAfterAll false written.reverse = quoted) :
    Traced (written.reverse ++ symbols) (writeChords size written quoted symbols) := by
  fun_induction writeChords size written quoted symbols with
  | case1 =>
    rw [List.append_nil]
    exact .refl
  | case2 size written quoted symbol rest hfound ih =>
    have hwritten :
        quotedAfterAll false (symbol :: written).reverse = symbol.quotedAfter quoted := by
      rw [List.reverse_cons, quotedAfterAll_append, h (List.cons_ne_nil _ _)]
      rfl
    simpa using ih fun _ => hwritten
  | case3 size written quoted symbol rest body after hfound word error hwrite =>
    obtain ⟨-, rfl, -, hbody⟩ := chordAt?_opens hfound
    obtain ⟨suffix, star, digits, hstar, hoffset⟩ := writeChord_offset hwrite
    have hsplit := (Option.filter_eq_some_iff.1 hstar).1
    have hout := outside_of_splitLastStar (symbol :: body) word.2 (h (List.cons_ne_nil _ _)) hbody
      hsplit
    rw [Symbol.splitWord_append, List.cons_append, ← chordAt?_eq_some hfound] at hout
    exact traced_error (by simp [IsSign, (splitLastStar_eq_some hsplit).2]) hout hoffset
  | case4 size written quoted symbol rest body after hfound word size' text hwrite ih =>
    obtain ⟨-, rfl, -, hbody⟩ := chordAt?_opens hfound
    have hwritten := h (List.cons_ne_nil _ _)
    have hreaches : Reaches (written.reverse ++ (symbol :: body ++ (word.1 ++ word.2)))
        (written.reverse ++ (text ++ word.2)) := by
      refine reaches_of_splitLastStar _ _ hwritten hbody ?_
      rcases writeChord_eq_ok hwrite with
        ⟨-, htext⟩ | ⟨suffix, star, digits, count, hstar, hread⟩
      · exact .inl htext
      · exact .inr ⟨suffix, star, digits, count, (Option.filter_eq_some_iff.1 hstar).1, hread⟩
    rw [Symbol.splitWord_append, List.cons_append, ← chordAt?_eq_some hfound] at hreaches
    refine .trans hreaches ?_
    have hnext : word.2 ≠ [] → quotedAfterAll false (text.reverse ++ written).reverse = false := by
      intro hne
      rw [List.reverse_append, List.reverse_reverse, quotedAfterAll_append, hwritten,
        (kept_writeChord hbody hwrite).1, quotedAfterAll_append, hbody]
      exact ((splitWord_rest false after).resolve_left hne).1
    simpa using ih hnext

/-- What the pass over words makes of its line. -/
theorem traced_writeWords (h : symbols ≠ [] → quotedAfterAll false written.reverse = false) :
    Traced (written.reverse ++ symbols) (writeWords size written symbols) := by
  fun_induction writeWords size written symbols with
  | case1 =>
    rw [List.append_nil]
    exact .refl
  | case2 size written symbol rest hblank ih =>
    have hwritten : quotedAfterAll false (symbol :: written).reverse = false := by
      rw [List.reverse_cons, quotedAfterAll_append, h (List.cons_ne_nil _ _), quotedAfterAll_cons,
        Symbol.quotedAfter, not_isQuote_of_isBlank hblank]
      rfl
    simpa using ih fun _ => hwritten
  | case3 size written symbol rest hblank tail error hwrite =>
    obtain ⟨unit, star, digits, hsplit, hoffset⟩ := writeWord_offset hwrite
    have hout := outside_of_splitLastStar [] tail.2 (h (List.cons_ne_nil _ _)) rfl hsplit
    rw [List.nil_append, List.cons_append, Symbol.splitWord_append] at hout
    exact traced_error (by simp [IsSign, (splitLastStar_eq_some hsplit).2]) hout hoffset
  | case4 size written symbol rest hblank tail size' text hwrite ih =>
    have hwritten := h (List.cons_ne_nil _ _)
    have hreaches : Reaches (written.reverse ++ ([] ++ ((symbol :: tail.1) ++ tail.2)))
        (written.reverse ++ (text ++ tail.2)) := by
      refine reaches_of_splitLastStar _ _ hwritten rfl ?_
      rcases writeWord_eq_ok hwrite with
        ⟨-, htext⟩ | ⟨unit, star, digits, count, hstar, -, hread⟩
      · exact .inl htext
      · exact .inr ⟨unit, star, digits, count, hstar, hread⟩
    rw [List.nil_append, List.cons_append, Symbol.splitWord_append] at hreaches
    refine .trans hreaches ?_
    have hnext : tail.2 ≠ [] → quotedAfterAll false (text.reverse ++ written).reverse = false := by
      intro hne
      rw [List.reverse_append, List.reverse_reverse, quotedAfterAll_append, hwritten,
        (kept_writeWord hwrite).1]
      exact ((splitWord_rest (symbol.quotedAfter false) rest).resolve_left hne).1
    simpa using ih hnext

end Repeat

/-- A line is expanded to one that is reached, or it stops at a sign outside quotes of a line on
the way. -/
theorem traced_expandSymbols (line : List Symbol) : Repeat.Traced line (expandSymbols line) :=
  .bind (Repeat.traced_writeGroups Repeat.groupsOpen_nil) fun _ =>
    .bind (Repeat.traced_writeChords fun _ => rfl) fun _ => Repeat.traced_writeWords fun _ => rfl

theorem reaches_of_expandSymbols (h : expandSymbols line = .ok out) : Repeat.Reaches line out :=
  (traced_expandSymbols line).reaches h

/-- An expanded line is reached from the typed one by writing out repeats one at a time. -/
theorem steps_of_expandSymbols (h : expandSymbols line = .ok out) :
    Relation.ReflTransGen Repeat.Step line out :=
  Repeat.steps_of_reaches (reaches_of_expandSymbols h)

/-- A line that cannot be expanded is reported at a sign of its own outside quotes. -/
theorem outside_of_expandSymbols {failure : RepeatFailure}
    (h : expandSymbols line = .error failure) :
    ∃ sign, Outside false line sign ∧ Repeat.IsSign sign ∧ failure.offset = sign.origin := by
  have htraced := traced_expandSymbols line
  rw [h] at htraced
  obtain ⟨reached, sign, hreaches, hout, hsign, hoffset⟩ := htraced
  exact ⟨sign, Repeat.outside_of_reaches hreaches hsign.isBlank_eq hout, hsign, hoffset⟩

end Stave.Shorthand
