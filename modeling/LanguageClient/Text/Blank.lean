/-!
# White space, trimming and words

Everything that is *trimmed* or *split into words* in this library (header lines, command lines,
environment values) is cut at the same set of characters, the Unicode property `White_Space`. The
set lives here once, together with the two cuts, so that "nothing is left after trimming" and
"there is no word" are visibly two views of one predicate.

The separators U+001C to U+001F, the zero-width space and the byte-order mark do not belong to the
property and are ordinary characters here.
-/

namespace LanguageClient.Text

/-- The characters with the Unicode property `White_Space`. -/
def isBlank (c : Char) : Bool :=
  let n := c.toNat
  (9 ≤ n && n ≤ 13) || n == 0x20 || n == 0x85 || n == 0xA0 || n == 0x1680 ||
    (0x2000 ≤ n && n ≤ 0x200A) || n == 0x2028 || n == 0x2029 || n == 0x202F ||
    n == 0x205F || n == 0x3000

def trimFront (cs : List Char) : List Char := cs.dropWhile isBlank

def trimBack (cs : List Char) : List Char := (cs.reverse.dropWhile isBlank).reverse

def trim (cs : List Char) : List Char := trimBack (trimFront cs)

/-- The maximal runs of non-blank characters, in order. The first argument is the word being
collected, last character first. -/
def wordsFrom : List Char → List Char → List (List Char)
  | [], [] => []
  | word, [] => [word.reverse]
  | word, c :: cs =>
    if isBlank c then
      match word with
      | [] => wordsFrom [] cs
      | w :: ws => (w :: ws).reverse :: wordsFrom [] cs
    else wordsFrom (c :: word) cs

/-- The words of a text: its maximal runs of non-blank characters, in order. -/
def words (cs : List Char) : List (List Char) := wordsFrom [] cs

def trimmed (s : String) : String := String.ofList (trim s.toList)

def wordsOf (s : String) : List String := (words s.toList).map String.ofList

end LanguageClient.Text
