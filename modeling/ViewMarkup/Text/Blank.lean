/-!
# Blanks and the cutting of text

Which characters count as blank, how surrounding blanks are dropped, and how a text is cut at
separators. Every function works on the characters of a text; the versions on `String` only pack
and unpack them.

## Main definitions

* `Text.isBlank` — the characters with the property of being white space.
* `Text.trim` — a text without the blanks around it.
* `Text.pieces` — the parts of a text between separators, empty ones included.
* `Text.cutAt?` — the parts before and after the first occurrence of a character.

## Main statements

* `Text.pieces_append_cons` — a separator ends one part and begins another.
-/

namespace ViewMarkup.Text

/-- White space of any script: the ASCII blanks, the next-line control, the no-break spaces, the
typographic spaces and the line and paragraph separators. A zero-width space is not blank. -/
def isBlank (c : Char) : Bool :=
  let n := c.toNat
  (0x09 ≤ n && n ≤ 0x0D) || n == 0x20 || n == 0x85 || n == 0xA0 || n == 0x1680 ||
    (0x2000 ≤ n && n ≤ 0x200A) || n == 0x2028 || n == 0x2029 || n == 0x202F || n == 0x205F ||
    n == 0x3000

/-- Characters without the trailing ones that satisfy `p`. -/
def dropTrailing (p : Char → Bool) (cs : List Char) : List Char :=
  (cs.reverse.dropWhile p).reverse

/-- Characters without the blanks at both ends. -/
def trimChars (cs : List Char) : List Char :=
  dropTrailing isBlank (cs.dropWhile isBlank)

/-- A text without the blanks at both ends. -/
def trim (s : String) : String := String.ofList (trimChars s.toList)

/-- The parts of a list between the elements that satisfy `p`, empty parts included: there is one
part more than there are separators. -/
def pieces {α : Type} (p : α → Bool) : List α → List (List α)
  | [] => [[]]
  | c :: cs =>
      if p c then [] :: pieces p cs
      else
        match pieces p cs with
        | [] => [[c]]
        | part :: parts => (c :: part) :: parts

/-- Cutting gives at least one piece. -/
theorem pieces_ne_nil {α : Type} (p : α → Bool) (cs : List α) : pieces p cs ≠ [] := by
  cases cs with
  | nil => simp [pieces]
  | cons c cs =>
      simp only [pieces]
      split
      · simp
      · split <;> simp

/-- A separator ends one part and begins another. -/
theorem pieces_append_cons {α : Type} {p : α → Bool} {sep : α} (h : p sep = true)
    (cs ds : List α) : pieces p (cs ++ sep :: ds) = pieces p cs ++ pieces p ds := by
  induction cs with
  | nil => simp [pieces, h]
  | cons c cs ih =>
      simp only [List.cons_append, pieces, ih]
      split
      · simp
      · match hp : pieces p cs with
        | [] => exact absurd hp (pieces_ne_nil p cs)
        | part :: parts => simp

/-- The parts of a text between the characters that satisfy `p`, without the empty ones. -/
def words (p : Char → Bool) (s : String) : List String :=
  ((pieces p s.toList).filter fun part => !part.isEmpty).map String.ofList

/-- What stands before and after the first `sep`, if there is one. -/
def cutAt? (sep : Char) : List Char → Option (List Char × List Char)
  | [] => none
  | c :: cs => if c = sep then some ([], cs) else (cutAt? sep cs).map fun (a, b) => (c :: a, b)

/-- What follows the given beginning, if the characters begin with it. -/
def after? : List Char → List Char → Option (List Char)
  | [], cs => some cs
  | _ :: _, [] => none
  | b :: bs, c :: cs => if b = c then after? bs cs else none

/-- What precedes the given ending, if the text ends with it. -/
def before? (ending s : String) : Option String :=
  (after? ending.toList.reverse s.toList.reverse).map fun r => String.ofList r.reverse

/-- Whether a text begins with another. -/
def startsWith (beginning s : String) : Bool := (after? beginning.toList s.toList).isSome

/-- The number of bytes that characters take. -/
def byteLength (cs : List Char) : Nat := cs.foldr (fun c n => c.utf8Size + n) 0

/-- Texts joined with a separator between them. -/
def join (sep : String) (parts : List String) : String := String.intercalate sep parts

end ViewMarkup.Text
