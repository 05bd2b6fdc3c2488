import Stave.Proofs.TupletGroup

/-!
# Tuplets by the slots before them

The search for tuplets takes down the indices of tokens, and moves the heads it finds between two
braces through the ledger. It comes to the same to count the slots that are headed on the way: a
tuplet begins with the slot that is headed next when its brace opens, and ends with the one headed
last when it closes. Counted so, a token that heads no slot and belongs to no tuplet leaves no
trace.
-/
namespace Stave.Shorthand

namespace Ledger

variable {tokens : List Token} {index : Nat}

/-- The first index after some tokens is moved to the number of their heads. -/
theorem rebase_length (read rest : List Token) :
    (scan (read ++ rest)).rebase read.length = (headsFrom 0 false read).length := by
  rw [rebase_eq_countP (by simp), headsFrom_append, List.countP_append]
  have hread : (headsFrom 0 false read).countP (· < read.length) =
      (headsFrom 0 false read).length :=
    List.countP_eq_length.2 fun head hmem => by simpa using lt_of_mem_headsFrom hmem
  have hrest : (headsFrom (0 + read.length) (chordOpenAfter false read) rest).countP
      (· < read.length) = 0 := by
    refine List.countP_eq_zero.2 fun head hmem => ?_
    rw [headsFrom_eq_filter] at hmem
    have := (List.mem_range'_1.1 (List.mem_filter.1 hmem).1).1
    simp only [decide_eq_true_eq]
    omega
  rw [hread, hrest, Nat.add_zero]

theorem length_headsFrom_concat (read : List Token) (token : Token) :
    (headsFrom 0 false (read ++ [token])).length =
      if token.kind.isHead (chordOpenAfter false read) then (headsFrom 0 false read).length + 1
      else (headsFrom 0 false read).length := by
  rw [headsFrom_append, headsFrom]
  split <;> simp [headsFrom]

/-- The index after the `i`-th head is moved to `i + 1`. -/
theorem rebase_succ_of_getElem? {i : Nat} (h : (headsFrom 0 false tokens)[i]? = some index) :
    (scan tokens).rebase (index + 1) = i + 1 := by
  have hlt := lt_of_mem_headsFrom (List.mem_of_getElem? h)
  obtain ⟨hi, rfl⟩ := List.getElem?_eq_some_iff.1 h
  have hsorted := List.pairwise_iff_getElem.1 (pairwise_headsFrom 0 false tokens)
  rw [rebase_eq_countP (by omega)]
  refine countP_eq_of_split (by omega) (fun j hj hle => ?_) fun j hj hge => hsorted i j hi hj hge
  rcases Nat.eq_or_lt_of_le (Nat.le_of_lt_succ hle) with rfl | hlt
  · exact Nat.lt_succ_self _
  · exact Nat.lt_succ_of_lt (hsorted j i hj hi hlt)

/-- Indices are moved to the same if the same heads are before them. -/
theorem rebase_congr {first second : Nat} (hfirst : first ≤ tokens.length)
    (hsecond : second ≤ tokens.length)
    (h : ∀ head ∈ headsFrom 0 false tokens, head < first ↔ head < second) :
    (scan tokens).rebase first = (scan tokens).rebase second := by
  rw [rebase_eq_countP hfirst, rebase_eq_countP hsecond]
  exact List.countP_congr fun head hmem => by simpa using h head hmem

end Ledger

variable {tokens rest : List Token} {tuplet : OpenTuplet} {index : Nat}

/-- A group is closed with the slots headed since its brace, of which there must be one. -/
theorem OpenTuplet.close_eq (hfirst : tuplet.directive + 2 ≤ index)
    (hindex : index ≤ tokens.length) :
    tuplet.close (Ledger.scan tokens) index =
      if (Ledger.scan tokens).rebase index = (Ledger.scan tokens).rebase (tuplet.directive + 2) then
        .error ⟨.emptyTuplet, tuplet.origin⟩
      else
        .ok ⟨⟨(Ledger.scan tokens).rebase (tuplet.directive + 2),
          (Ledger.scan tokens).rebase index - 1, tuplet.actual, tuplet.normal⟩, tuplet.origin⟩ := by
  cases hclose : tuplet.close (Ledger.scan tokens) index with
  | error error =>
    unfold close at hclose
    dsimp only at hclose
    split at hclose
    case h_1 hnone =>
      cases hclose
      refine (if_pos (Ledger.rebase_congr hindex (by omega) fun head hhead => ?_)).symm
      rw [Ledger.headsFrom_eq_filter_isRemoved, List.mem_filter] at hhead
      have hbetween := List.filter_eq_nil_iff.1 hnone head
      rw [List.mem_range'_1] at hbetween
      refine ⟨fun hlt => Nat.lt_of_not_le fun hge => hbetween (by omega) hhead.2, fun hlt => ?_⟩
      omega
    case h_2 => cases hclose
  | ok group =>
    obtain ⟨i, j, head, last, hi, hj, hle, hrange, hbetween⟩ := exists_of_close hindex hclose
    have hlow := (hbetween head (List.mem_of_getElem? hi)).2 ⟨Nat.le_refl _, hle⟩
    have hhigh := (hbetween last (List.mem_of_getElem? hj)).2 ⟨hle, Nat.le_refl _⟩
    have hstart : (Ledger.scan tokens).rebase (tuplet.directive + 2) = i := by
      rw [← Ledger.rebase_of_getElem? hi]
      refine Ledger.rebase_congr (by omega) (by omega) fun other hother => ?_
      have := hbetween other hother
      omega
    have hstop : (Ledger.scan tokens).rebase index = j + 1 := by
      rw [← Ledger.rebase_succ_of_getElem? hj]
      refine Ledger.rebase_congr hindex (by omega) fun other hother => ?_
      have := hbetween other hother
      omega
    have horder := Ledger.rebase_le_rebase hle (by omega : last ≤ tokens.length)
    rw [Ledger.rebase_of_getElem? hi, Ledger.rebase_of_getElem? hj] at horder
    have horigin : group.origin = tuplet.origin := by
      unfold close at hclose
      dsimp only at hclose
      split at hclose <;> cases hclose
      rfl
    rw [hstart, hstop, if_neg (by omega), Nat.add_sub_cancel, ← hrange, ← horigin]

/-- Whether a token heads no slot, opens and closes no chord and belongs to no tuplet. -/
def TokenKind.isInert : TokenKind → Bool
  | postEvents _ => true
  | ottava _ => true
  | clef _ => true
  | time _ => true
  | tempo _ => true
  | barLine => true
  | _ => false

/-- A tuplet directive whose group is not closed yet, with the number of slots before its brace
once that has been read. -/
structure CountedTuplet where
  first : Option Nat
  actual : Nat
  normal : Nat
  origin : Nat

namespace CountedTuplet

/-- The group that closes with a number of slots before its closing brace. -/
def close (tuplet : CountedTuplet) (slot : Nat) : Except BuildError TupletGroup :=
  if tuplet.first.getD slot = slot then .error ⟨.emptyTuplet, tuplet.origin⟩
  else .ok ⟨⟨tuplet.first.getD slot, slot - 1, tuplet.actual, tuplet.normal⟩, tuplet.origin⟩

end CountedTuplet

namespace TupletGroup

/-- Collect the groups from a token on, given the number of slots headed before it and whether a
chord is open there; `found` holds the groups before, last one first. -/
def collectCounted (slot : Nat) (chord : Bool) (tuplet : Option CountedTuplet)
    (found : List TupletGroup) : List Token → Except BuildError (List TupletGroup)
  | [] =>
    match tuplet with
    | some tuplet => .error ⟨.unterminatedTuplet, tuplet.origin⟩
    | none => .ok found.reverse
  | token :: rest =>
    let after := if token.kind.isHead chord then slot + 1 else slot
    let chord := token.kind.opensChord chord
    match token.kind with
    | .tuplet actual normal =>
      if tuplet.isSome then .error ⟨.nestedTuplet, token.origin⟩
      else if (rest.head?.map Token.kind) = some .groupOpen then
        collectCounted after chord (some ⟨none, actual, normal, token.origin⟩) found rest
      else .error ⟨.tupletWithoutGroup, token.origin⟩
    | .groupOpen =>
      match tuplet with
      | some opened =>
        if opened.first.isNone then
          collectCounted after chord (some { opened with first := some slot }) found rest
        else .error ⟨.nestedTuplet, token.origin⟩
      | none => .error ⟨.strayGroupOpen, token.origin⟩
    | .groupClose =>
      match tuplet with
      | some opened =>
        match opened.close slot with
        | .error error => .error error
        | .ok group => collectCounted after chord none (group :: found) rest
      | none => .error ⟨.strayGroupClose, token.origin⟩
    | _ => collectCounted after chord tuplet found rest

/-- A counted tuplet stands for an open one at some token: the directive has just been read and its
brace comes next, or the slots before its brace have been counted. -/
structure Counts (ledger : Ledger) (index : Nat) (rest : List Token) (opened : OpenTuplet)
    (counted : CountedTuplet) : Prop where
  actual : counted.actual = opened.actual
  normal : counted.normal = opened.normal
  origin : counted.origin = opened.origin
  first : counted.first = none ∧ opened.directive + 1 = index ∧
      rest.head?.map Token.kind = some .groupOpen ∨
    counted.first = some (ledger.rebase (opened.directive + 2)) ∧ opened.directive + 2 ≤ index

variable {read : List Token} {found : List TupletGroup} {opened : OpenTuplet}
  {counted : CountedTuplet} {ledger : Ledger} {token : Token}

/-- A group that has begun is still open after a token that belongs to no tuplet. -/
theorem Counts.step (h : Counts ledger index (token :: rest) opened counted)
    (hkind : token.kind ≠ .groupOpen) : Counts ledger (index + 1) rest opened counted := by
  refine ⟨h.actual, h.normal, h.origin, ?_⟩
  rcases h.first with ⟨-, -, hopen⟩ | ⟨hfirst, hle⟩
  · exact absurd (Option.some.inj hopen) hkind
  · exact .inr ⟨hfirst, by omega⟩

/-- Groups close alike. -/
theorem Counts.close_eq (h : Counts (Ledger.scan tokens) read.length (token :: rest) opened counted)
    (htokens : tokens = read ++ token :: rest) (hkind : token.kind ≠ .groupOpen) :
    counted.close (Ledger.headsFrom 0 false read).length =
      opened.close (Ledger.scan tokens) read.length := by
  rcases h.first with ⟨-, -, hopen⟩ | ⟨hfirst, hle⟩
  · exact absurd (Option.some.inj hopen) hkind
  have hslot : (Ledger.scan tokens).rebase read.length =
      (Ledger.headsFrom 0 false read).length := by
    rw [htokens, Ledger.rebase_length]
  rw [CountedTuplet.close, OpenTuplet.close_eq hle (by simp [htokens]), hfirst, hslot, h.actual,
    h.normal, h.origin, Option.getD_some]
  simp only [eq_comm]

theorem collect_eq_collectCounted {opened : Option OpenTuplet} {counted : Option CountedTuplet}
    (htokens : tokens = read ++ rest)
    (hcounts : Option.Rel (Counts (Ledger.scan tokens) read.length rest) opened counted) :
    collect (Ledger.scan tokens) read.length opened found rest =
      collectCounted (Ledger.headsFrom 0 false read).length (chordOpenAfter false read) counted
        found rest := by
  induction rest generalizing read opened counted found with
  | nil =>
    unfold collect collectCounted
    cases hcounts with
    | none => rfl
    | some h => simp only [h.origin]
  | cons token rest ih =>
    have hnext := Ledger.length_headsFrom_concat read token
    have hchord : chordOpenAfter false (read ++ [token]) =
        token.kind.opensChord (chordOpenAfter false read) := by
      simp [chordOpenAfter]
    have hrest : tokens = (read ++ [token]) ++ rest := by rw [htokens, List.append_cons]
    have ih {opened : Option OpenTuplet} {counted : Option CountedTuplet}
        {found : List TupletGroup} := @ih (read ++ [token]) found opened counted hrest
    rw [List.length_append, List.length_singleton, hnext, hchord] at ih
    obtain ⟨kind, text, position, origin⟩ := token
    unfold collect collectCounted
    cases kind with
    | tuplet actual normal =>
      cases hcounts with
      | some h => rfl
      | none =>
        simp only [Option.isSome_none, Bool.false_eq_true, if_false]
        by_cases hopen : rest.head?.map Token.kind = some .groupOpen
        · rw [if_pos hopen, if_pos hopen]
          exact ih (.some ⟨rfl, rfl, rfl, .inl ⟨rfl, rfl, hopen⟩⟩)
        · rw [if_neg hopen, if_neg hopen]
    | groupOpen =>
      cases hcounts with
      | none => rfl
      | @some opened counted h =>
        dsimp only
        rcases h.first with ⟨hfirst, hbrace, -⟩ | ⟨hfirst, hle⟩
        · rw [if_pos hbrace, if_pos (by simp [hfirst])]
          have hslot := Ledger.rebase_length (read ++ [⟨.groupOpen, text, position, origin⟩]) rest
          rw [← List.append_cons, ← htokens, hnext, List.length_append, List.length_singleton,
            ← hbrace] at hslot
          refine ih (.some ⟨h.actual, h.normal, h.origin, .inr ⟨?_, by omega⟩⟩)
          exact congrArg some hslot.symm
        · rw [if_neg (by omega), if_neg (by simp [hfirst])]
    | groupClose =>
      cases hcounts with
      | none => rfl
      | @some opened counted h =>
        dsimp only
        rw [h.close_eq htokens (by simp)]
        cases opened.close (Ledger.scan tokens) read.length with
        | error error => rfl
        | ok group => exact ih .none
    | _ =>
      refine ih ?_
      cases hcounts with
      | none => exact .none
      | some h => exact .some (h.step (by simp))

/-- Tuplets may be collected by counting slots. -/
theorem scan_eq_collectCounted (tokens : List Token) :
    scan tokens (Ledger.scan tokens) = collectCounted 0 false none [] tokens :=
  collect_eq_collectCounted (List.nil_append tokens).symm .none

/-! ### Tokens that leave no trace -/

/-- A token put in anywhere but after a directive, where a brace belongs, changes no tuplet if it
has no part in slots, chords and tuplets. -/
theorem collectCounted_insert {before after : List Token} {slot : Nat} {chord : Bool}
    {counted : Option CountedTuplet} (inert : token.kind.isInert)
    (apart : ∀ last ∈ before.getLast?, ∀ actual normal, last.kind ≠ .tuplet actual normal) :
    collectCounted slot chord counted found (before ++ token :: after) =
      collectCounted slot chord counted found (before ++ after) := by
  induction before generalizing slot chord counted found with
  | nil =>
    obtain ⟨kind, text, position, origin⟩ := token
    cases kind <;> first | rfl | cases inert
  | cons earlier before ih =>
    have apart' : ∀ last ∈ before.getLast?, ∀ actual normal, last.kind ≠ .tuplet actual normal :=
      fun last hlast => apart last (by simp_all [List.getLast?_cons])
    obtain ⟨kind, text, position, origin⟩ := earlier
    rw [List.cons_append, List.cons_append]
    unfold collectCounted
    cases kind with
    | tuplet actual normal =>
      cases before with
      | nil => exact absurd rfl (apart _ rfl actual normal)
      | cons next before =>
        simp only [ih apart']
        rfl
    | _ => simp only [ih apart']

/-- A token that has no part in slots, chords and tuplets may be put in anywhere but after a
directive, where a brace belongs. -/
theorem scan_insert {before after : List Token} (inert : token.kind.isInert)
    (apart : ∀ last ∈ before.getLast?, ∀ actual normal, last.kind ≠ .tuplet actual normal) :
    scan (before ++ token :: after) (Ledger.scan (before ++ token :: after)) =
      scan (before ++ after) (Ledger.scan (before ++ after)) := by
  rw [scan_eq_collectCounted, scan_eq_collectCounted, collectCounted_insert inert apart]

end TupletGroup

end Stave.Shorthand
