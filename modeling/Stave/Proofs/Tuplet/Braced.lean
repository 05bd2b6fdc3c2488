import Mathlib.Data.List.Forall2
import Stave.Proofs.TupletGroup

/-!
# The braces of tuplets

A list of tokens whose groups can be collected is a sequence of groups and of tokens that belong
to none: a group is a tuplet directive, an opening brace, tokens of neither kind, and a closing
brace. `Grouped` says so. Hence the braces alternate, the first opening brace belongs to the first
closing one and so on, every pair is that of a group, and the range of a group is that of the
slots headed between its braces. What stands between two braces stands before the next pair, so
the ranges come one after the other.
-/
namespace Stave.Shorthand

/-- The indices of the tokens of a kind, the first token having index `index`. -/
def indicesFrom (index : Nat) (kind : TokenKind) : List Token → List Nat
  | [] => []
  | token :: rest =>
    let others := indicesFrom (index + 1) kind rest
    if token.kind = kind then index :: others else others

/-- The indices of the opening and the closing braces of a list of tokens, the first of each kind
together and so on. -/
def bracePairs (tokens : List Token) : List (Nat × Nat) :=
  (indicesFrom 0 .groupOpen tokens).zip (indicesFrom 0 .groupClose tokens)

/-- A range belongs to a pair of braces: a directive before the opening one gives its ratio, and
its slots are those headed between the two. -/
structure BelongsTo (tokens : List Token) (range : TupletRange) (braces : Nat × Nat) : Prop where
  ratio : ∃ directive token, directive + 1 = braces.1 ∧ tokens[directive]? = some token ∧
    token.kind = .tuplet range.actual range.normal
  covers : ∀ slot, range.contains slot = true ↔
    ∃ head, (Ledger.headsFrom 0 false tokens)[slot]? = some head ∧
      braces.1 < head ∧ head < braces.2

/-- A token that belongs to no tuplet. -/
def TokenKind.Ungrouped (kind : TokenKind) : Prop :=
  (∀ actual normal, kind ≠ .tuplet actual normal) ∧ kind ≠ .groupOpen ∧ kind ≠ .groupClose

/-- A sequence of groups, given by their directives with the index of the closing brace, and of
tokens that belong to none. -/
inductive Grouped : Nat → List Token → List (OpenTuplet × Nat) → Prop where
  | nil {index : Nat} : Grouped index [] []
  | plain {index : Nat} {token : Token} {rest : List Token} {groups : List (OpenTuplet × Nat)}
      (kind : token.kind.Ungrouped) (others : Grouped (index + 1) rest groups) :
      Grouped index (token :: rest) groups
  | group {index : Nat} {directive opening closing : Token} {inside rest : List Token}
      {actual normal : Nat} {groups : List (OpenTuplet × Nat)}
      (kind : directive.kind = .tuplet actual normal) (opens : opening.kind = .groupOpen)
      (inner : ∀ token ∈ inside, token.kind.Ungrouped) (closes : closing.kind = .groupClose)
      (others : Grouped (index + 2 + inside.length + 1) rest groups) :
      Grouped index (directive :: opening :: (inside ++ closing :: rest))
        ((⟨index, actual, normal, directive.origin⟩, index + 2 + inside.length) :: groups)

variable {ledger : Ledger} {index : Nat} {opened : OpenTuplet} {tokens rest : List Token}
  {found groups : List TupletGroup} {pairs : List (OpenTuplet × Nat)}

/-! ### Collecting groups -/

/-- An open group that is collected goes on with tokens that belong to none up to its closing
brace. -/
theorem exists_of_collect_opened (hlater : opened.directive + 1 < index)
    (h : TupletGroup.collect ledger index (some opened) found rest = .ok groups) :
    ∃ inside closing after group, rest = inside ++ closing :: after ∧
      (∀ token ∈ inside, token.kind.Ungrouped) ∧ closing.kind = .groupClose ∧
      opened.close ledger (index + inside.length) = .ok group ∧
      TupletGroup.collect ledger (index + inside.length + 1) none (group :: found) after =
        .ok groups := by
  induction rest generalizing index with
  | nil => cases h
  | cons token rest ih =>
    unfold TupletGroup.collect at h
    split at h
    case h_1 => cases h
    case h_2 =>
      dsimp only at h
      rw [if_neg (by omega)] at h
      cases h
    case h_3 kind =>
      dsimp only at h
      split at h
      case h_1 => cases h
      case h_2 group hclose =>
        exact ⟨[], token, rest, group, rfl, List.forall_mem_nil _, kind, hclose, h⟩
    case h_4 htuplet hopen hclose =>
      obtain ⟨inside, closing, after, group, rfl, inner, closes, hgroup, hrest⟩ :=
        ih (by omega) h
      refine ⟨token :: inside, closing, after, group, rfl,
        List.forall_mem_cons.2 ⟨⟨htuplet, hopen, hclose⟩, inner⟩, closes, ?_, ?_⟩
      · rw [← hgroup, List.length_cons]
        congr 1
        omega
      · rw [← hrest, List.length_cons]
        congr 1
        omega

/-- Groups that are collected are those of a sequence of groups, each closed at its brace. -/
theorem grouped_of_collect
    (h : TupletGroup.collect ledger index none found rest = .ok groups) :
    ∃ pairs more, groups = found.reverse ++ more ∧ Grouped index rest pairs ∧
      List.Forall₂ (fun pair group => pair.1.close ledger pair.2 = .ok group) pairs more := by
  induction hlength : rest.length using Nat.strongRecOn generalizing index found rest with
  | ind length ih =>
    unfold TupletGroup.collect at h
    split at h
    case h_1 =>
      cases h
      exact ⟨[], [], by simp, .nil, .nil⟩
    case h_2 token rest =>
      rw [List.length_cons] at hlength
      split at h
      case h_1 actual normal kind =>
        rw [if_neg (by decide)] at h
        split at h
        case isTrue hopen =>
          -- the opening brace is read with the directive, then the group up to its closing brace
          obtain ⟨opening, hhead, opens⟩ := Option.map_eq_some_iff.1 hopen
          obtain ⟨others, rfl⟩ := List.head?_eq_some_iff.1 hhead
          unfold TupletGroup.collect at h
          simp only [opens, if_true] at h
          obtain ⟨inside, closing, after, group, rfl, inner, closes, hgroup, hrest⟩ :=
            exists_of_collect_opened (by exact Nat.lt_add_one (index + 1)) h
          simp only [List.length_cons, List.length_append] at hlength
          obtain ⟨pairs, more, hgroups, grouped, hclosed⟩ :=
            ih after.length (by omega) hrest rfl
          exact ⟨_, group :: more, by simp [hgroups], .group kind opens inner closes grouped,
            .cons hgroup hclosed⟩
        case isFalse => cases h
      case h_2 => cases h
      case h_3 => cases h
      case h_4 htuplet hopen hclose =>
        obtain ⟨pairs, more, hgroups, grouped, hclosed⟩ := ih rest.length (by omega) h rfl
        exact ⟨pairs, more, hgroups, .plain ⟨htuplet, hopen, hclose⟩ grouped, hclosed⟩

/-! ### Where the braces stand -/

theorem indicesFrom_append (index : Nat) (kind : TokenKind) (first second : List Token) :
    indicesFrom index kind (first ++ second) =
      indicesFrom index kind first ++ indicesFrom (index + first.length) kind second := by
  induction first generalizing index with
  | nil => rfl
  | cons token rest ih =>
    have hindex : index + 1 + rest.length = index + (token :: rest).length := by
      rw [List.length_cons]
      omega
    simp only [List.cons_append, indicesFrom, ih, hindex]
    split <;> rfl

theorem indicesFrom_eq_nil {kind : TokenKind} {tokens : List Token} (index : Nat)
    (h : ∀ token ∈ tokens, token.kind ≠ kind) : indicesFrom index kind tokens = [] := by
  induction tokens generalizing index with
  | nil => rfl
  | cons token rest ih =>
    obtain ⟨htoken, hrest⟩ := List.forall_mem_cons.1 h
    simp only [indicesFrom, if_neg htoken, ih _ hrest]

/-- The braces of a sequence of groups are those of its groups. -/
theorem Grouped.indices (h : Grouped index tokens pairs) :
    indicesFrom index .groupOpen tokens = pairs.map (fun pair => pair.1.directive + 1) ∧
      indicesFrom index .groupClose tokens = pairs.map Prod.snd := by
  induction h with
  | nil => exact ⟨rfl, rfl⟩
  | plain kind others ih =>
    simp only [indicesFrom, if_neg kind.2.1, if_neg kind.2.2]
    exact ih
  | @group index directive opening closing inside rest actual normal pairs kind opens inner closes
      others ih =>
    have hopen (place : Nat) : indicesFrom place .groupOpen inside = [] :=
      indicesFrom_eq_nil place fun token hmem => (inner token hmem).2.1
    have hclose (place : Nat) : indicesFrom place .groupClose inside = [] :=
      indicesFrom_eq_nil place fun token hmem => (inner token hmem).2.2
    simp only [indicesFrom, indicesFrom_append, kind, opens, closes, hopen, hclose, reduceCtorEq,
      if_false, if_true, List.nil_append, List.map_cons]
    exact ⟨congrArg _ ih.1, congrArg _ ih.2⟩

/-- Every group of a sequence lies within it, has its directive there, and ends before the next
one begins. -/
structure Grouped.Placed (index : Nat) (tokens : List Token) (pairs : List (OpenTuplet × Nat)) :
    Prop where
  low : ∀ pair ∈ pairs, index ≤ pair.1.directive
  high : ∀ pair ∈ pairs, pair.2 < index + tokens.length
  ratio : ∀ pair ∈ pairs, ∃ token, tokens[pair.1.directive - index]? = some token ∧
    token.kind = .tuplet pair.1.actual pair.1.normal
  apart : pairs.Pairwise fun first second => first.2 < second.1.directive

theorem Grouped.Placed.after (first : List Token)
    (h : Grouped.Placed (index + first.length) tokens pairs) :
    Grouped.Placed index (first ++ tokens) pairs := by
  refine ⟨fun pair hmem => ?_, fun pair hmem => ?_, fun pair hmem => ?_, h.apart⟩
  · have := h.low pair hmem
    omega
  · have := h.high pair hmem
    rw [List.length_append]
    omega
  · have hlow := h.low pair hmem
    obtain ⟨token, htoken, hkind⟩ := h.ratio pair hmem
    refine ⟨token, ?_, hkind⟩
    rw [List.getElem?_append_right (by omega), ← htoken]
    congr 1
    omega

theorem Grouped.placed (h : Grouped index tokens pairs) : Grouped.Placed index tokens pairs := by
  induction h with
  | nil => exact ⟨nofun, nofun, nofun, .nil⟩
  | @plain index token rest pairs kind others ih => exact Placed.after [token] ih
  | @group index directive opening closing inside rest actual normal pairs kind opens inner closes
      others ih =>
    have hsplit : directive :: opening :: (inside ++ closing :: rest) =
        (directive :: opening :: (inside ++ [closing])) ++ rest := by simp
    have hlength : index + 2 + inside.length + 1 =
        index + (directive :: opening :: (inside ++ [closing])).length := by
      simp only [List.length_cons, List.length_append, List.length_nil]
      omega
    have hlater : Placed index (directive :: opening :: (inside ++ closing :: rest)) pairs := by
      rw [hsplit]
      exact Placed.after _ (hlength ▸ ih)
    refine ⟨List.forall_mem_cons.2 ⟨Nat.le_refl _, hlater.low⟩,
      List.forall_mem_cons.2 ⟨?_, hlater.high⟩,
      List.forall_mem_cons.2 ⟨⟨directive, by simp, kind⟩, hlater.ratio⟩,
      List.pairwise_cons.2 ⟨fun pair hmem => ?_, ih.apart⟩⟩
    · simp only [List.length_cons, List.length_append]
      omega
    · have := ih.low pair hmem
      dsimp only
      omega

/-! ### The ranges of a line -/

/-- The places of a list in order are in the order of what stands there. -/
theorem le_iff_le_of_getElem? {heads : List Nat} (hsorted : heads.Pairwise (· < ·))
    {i j first second : Nat} (hi : heads[i]? = some first) (hj : heads[j]? = some second) :
    i ≤ j ↔ first ≤ second := by
  obtain ⟨hilt, rfl⟩ := List.getElem?_eq_some_iff.1 hi
  obtain ⟨hjlt, rfl⟩ := List.getElem?_eq_some_iff.1 hj
  have horder := List.pairwise_iff_getElem.1 hsorted
  rcases Nat.lt_trichotomy i j with hlt | rfl | hgt
  · have := horder i j hilt hjlt hlt
    omega
  · omega
  · have := horder j i hjlt hilt hgt
    omega

/-- What a group closes on belongs to its braces. -/
theorem belongsTo_of_close {group : TupletGroup} {close : Nat} {token : Token}
    (hclose : close ≤ tokens.length) (htoken : tokens[opened.directive]? = some token)
    (hkind : token.kind = .tuplet opened.actual opened.normal)
    (h : opened.close (Ledger.scan tokens) close = .ok group) :
    BelongsTo tokens group.range (opened.directive + 1, close) := by
  obtain ⟨i, j, head, last, hi, hj, hle, hrange, hbetween⟩ := OpenTuplet.exists_of_close hclose h
  have hsorted := Ledger.pairwise_headsFrom 0 false tokens
  rw [hrange]
  refine ⟨⟨opened.directive, token, rfl, htoken, hkind⟩, fun slot => ?_⟩
  simp only [TupletRange.contains, Bool.and_eq_true, decide_eq_true_eq]
  constructor
  · rintro ⟨hlow, hhigh⟩
    have hlt := (List.getElem?_eq_some_iff.1 hj).1
    have hslot := List.getElem?_eq_getElem (Nat.lt_of_le_of_lt hhigh hlt)
    refine ⟨_, hslot, (hbetween _ (List.mem_of_getElem? hslot)).2 ⟨?_, ?_⟩⟩
    · exact (le_iff_le_of_getElem? hsorted hi hslot).1 hlow
    · exact (le_iff_le_of_getElem? hsorted hslot hj).1 hhigh
  · rintro ⟨other, hslot, hinside⟩
    obtain ⟨hlow, hhigh⟩ := (hbetween other (List.mem_of_getElem? hslot)).1 hinside
    exact ⟨(le_iff_le_of_getElem? hsorted hi hslot).2 hlow,
      (le_iff_le_of_getElem? hsorted hslot hj).2 hhigh⟩

/-- The ranges of a line belong to its pairs of braces, in order, and no brace is left over. -/
structure Braced (tokens : List Token) (ranges : List TupletRange) : Prop where
  matched : (indicesFrom 0 .groupOpen tokens).length = (indicesFrom 0 .groupClose tokens).length
  belong : List.Forall₂ (BelongsTo tokens) ranges (bracePairs tokens)
  alternate : (bracePairs tokens).Pairwise fun first second => first.2 < second.1

theorem braced_of_scan (h : TupletGroup.scan tokens (Ledger.scan tokens) = .ok groups) :
    Braced tokens (groups.map TupletGroup.range) := by
  obtain ⟨pairs, more, hgroups, grouped, hclosed⟩ := grouped_of_collect h
  obtain ⟨hopens, hcloses⟩ := grouped.indices
  have hplaced := grouped.placed
  have hpairs : bracePairs tokens = pairs.map fun pair => (pair.1.directive + 1, pair.2) := by
    rw [bracePairs, hopens, hcloses, List.zip_map']
  have hmore : groups = more := by simpa using hgroups
  subst hmore
  have hfacts : ∀ pair ∈ pairs, pair.2 ≤ tokens.length ∧
      ∃ token, tokens[pair.1.directive]? = some token ∧
        token.kind = .tuplet pair.1.actual pair.1.normal := by
    intro pair hmem
    have hhigh := hplaced.high pair hmem
    exact ⟨by omega, by simpa using hplaced.ratio pair hmem⟩
  refine ⟨by rw [hopens, hcloses, List.length_map, List.length_map], ?_, ?_⟩
  · rw [hpairs, List.forall₂_map_left_iff, List.forall₂_map_right_iff]
    have hall := (List.forall₂_and_left pairs groups).2 ⟨hfacts, hclosed⟩
    refine List.Forall₂.flip (hall.imp fun pair group hpair => ?_)
    obtain ⟨⟨hclose, token, htoken, hkind⟩, hgroup⟩ := hpair
    exact belongsTo_of_close hclose htoken hkind hgroup
  · rw [hpairs, List.pairwise_map]
    exact hplaced.apart.imp fun hlt => Nat.lt_succ_of_lt hlt

theorem exists_mem_of_forall₂ {α β : Type} {related : α → β → Prop} {xs : List α} {ys : List β}
    (h : List.Forall₂ related xs ys) {x : α} (hmem : x ∈ xs) : ∃ y ∈ ys, related x y := by
  induction h with
  | nil => exact absurd hmem List.not_mem_nil
  | cons head tail ih =>
    rcases List.mem_cons.1 hmem with rfl | hmem
    · exact ⟨_, List.mem_cons_self, head⟩
    · obtain ⟨y, hy, hrelated⟩ := ih hmem
      exact ⟨y, List.mem_cons_of_mem _ hy, hrelated⟩

/-- A range whose braces stand before those of another stops before the other starts. -/
theorem BelongsTo.stop_lt_start {first second : TupletRange} {braces later : Nat × Nat}
    (hfirst : BelongsTo tokens first braces) (hsecond : BelongsTo tokens second later)
    (hstops : first.start ≤ first.stop) (hstarts : second.start ≤ second.stop)
    (hbefore : braces.2 < later.1) : first.stop < second.start := by
  obtain ⟨last, hlast, -, hclose⟩ := (hfirst.covers first.stop).1 (by simpa [TupletRange.contains])
  obtain ⟨head, hhead, hopen, -⟩ :=
    (hsecond.covers second.start).1 (by simpa [TupletRange.contains])
  have horder := le_iff_le_of_getElem? (Ledger.pairwise_headsFrom 0 false tokens) hhead hlast
  omega

/-- The ranges of a line come one after the other. -/
theorem Braced.pairwise {ranges : List TupletRange} (h : Braced tokens ranges)
    (hranges : ∀ range ∈ ranges, range.start ≤ range.stop) :
    ranges.Pairwise fun first second => first.stop < second.start := by
  obtain ⟨-, belong, alternate⟩ := h
  generalize bracePairs tokens = pairs at belong alternate
  induction belong with
  | nil => exact .nil
  | cons hfirst hothers ih =>
    obtain ⟨hstops, hrest⟩ := List.forall_mem_cons.1 hranges
    obtain ⟨hlater, halternate⟩ := List.pairwise_cons.1 alternate
    refine List.pairwise_cons.2 ⟨fun other hmem => ?_, ih hrest halternate⟩
    obtain ⟨braces, hbraces, hother⟩ := exists_mem_of_forall₂ hothers hmem
    exact hfirst.stop_lt_start hother hstops (hrest other hmem) (hlater braces hbraces)

end Stave.Shorthand
