import Stave.Data.Sum

/-!
# Words

Times are counted in words of thirty-two bits. They are computed here as the numbers they are,
and a number that does not fit in a word is found where it is formed: it is never reduced to
one that does.
-/
namespace Stave

/-- The first number that does not fit in a word. -/
def wordLimit : Nat := 4294967296

end Stave
