import Stave.Data.Sum

/-!
# Blank characters

Blank means the Unicode property White_Space. The twenty-five code points are
listed one by one, so the table needs no character database. Trimming works on
lists of characters; nothing is claimed about other line-breaking properties.
-/
namespace Stave.Text

/-- The code points with the property White_Space. -/
def blankCodes : List Nat :=
  [0x09, 0x0A, 0x0B, 0x0C, 0x0D, 0x20, 0x85, 0xA0, 0x1680,
   0x2000, 0x2001, 0x2002, 0x2003, 0x2004, 0x2005, 0x2006, 0x2007, 0x2008, 0x2009, 0x200A,
   0x2028, 0x2029, 0x202F, 0x205F, 0x3000]

/-- Whether a character separates words. -/
def isBlank (c : Char) : Bool := blankCodes.contains c.toNat

/-- Drop the blanks in front. -/
def trimStart (cs : List Char) : List Char := cs.dropWhile isBlank

/-- Drop the blanks at the end. -/
def trimEnd (cs : List Char) : List Char := (cs.reverse.dropWhile isBlank).reverse

/-- Drop the blanks at both ends. -/
def trim (cs : List Char) : List Char := trimEnd (trimStart cs)

/-- Split at the first occurrence of a separator, which belongs to neither part. -/
def splitAtFirst? (separator : Char) : List Char → Option (List Char × List Char)
  | [] => none
  | c :: cs =>
    if c = separator then some ([], cs)
    else (splitAtFirst? separator cs).map fun (before, after) => (c :: before, after)

theorem eq_append_of_splitAtFirst? {separator : Char} {cs before after : List Char}
    (h : splitAtFirst? separator cs = some (before, after)) :
    cs = before ++ separator :: after := by
  induction cs generalizing before with
  | nil => simp [splitAtFirst?] at h
  | cons c cs ih =>
    unfold splitAtFirst? at h
    split at h
    · simp_all
    · obtain ⟨⟨b, a⟩, hb, heq⟩ := Option.map_eq_some_iff.1 h
      cases heq
      simp [ih hb]

theorem not_mem_of_splitAtFirst? {separator : Char} {cs before after : List Char}
    (h : splitAtFirst? separator cs = some (before, after)) : separator ∉ before := by
  induction cs generalizing before with
  | nil => simp [splitAtFirst?] at h
  | cons c cs ih =>
    unfold splitAtFirst? at h
    split at h
    · cases h
      exact List.not_mem_nil
    case isFalse hne =>
      obtain ⟨⟨b, a⟩, hb, heq⟩ := Option.map_eq_some_iff.1 h
      cases heq
      rw [List.mem_cons, not_or]
      exact ⟨fun hsame => hne hsame.symm, ih hb⟩

theorem splitAtFirst?_append {separator : Char} {before : List Char} (h : separator ∉ before)
    (after : List Char) :
    splitAtFirst? separator (before ++ separator :: after) = some (before, after) := by
  induction before with
  | nil => simp [splitAtFirst?]
  | cons c before ih =>
    rw [List.mem_cons, not_or] at h
    rw [List.cons_append, splitAtFirst?, if_neg (Ne.symm h.1), ih h.2]
    rfl

/-- The bytes a list of characters takes in UTF-8. -/
def byteSize (cs : List Char) : Nat := sumOf (cs.map Char.utf8Size)

@[simp] theorem byteSize_nil : byteSize [] = 0 := rfl

@[simp] theorem byteSize_cons (c : Char) (cs : List Char) :
    byteSize (c :: cs) = c.utf8Size + byteSize cs := by
  simp [byteSize]

@[simp] theorem byteSize_append (cs ds : List Char) :
    byteSize (cs ++ ds) = byteSize cs + byteSize ds := by
  simp [byteSize]

end Stave.Text
