import Hecaton.Library.Words
import Mathlib.Data.List.Infix

/-!
# What the scripts use of Python

Strings are lists of characters.  A file is read as text, so that every line ends
with a newline character, the last one perhaps without it.
-/

namespace Hecaton.Scripts

open Hecaton.Library

/-- A Python string. -/
abbrev Str := List Char

/-- The exceptions that end a script. -/
inductive PyError
  | indexError | nameError
  deriving DecidableEq

/-- `c.isspace()`. -/
def isSpace (c : Char) : Bool :=
  let n := c.toNat
  (9 ≤ n && n ≤ 13) || (28 ≤ n && n ≤ 32) || n == 0x85 || n == 0xa0 || n == 0x1680 ||
    (0x2000 ≤ n && n ≤ 0x200a) || n == 0x2028 || n == 0x2029 || n == 0x202f || n == 0x205f ||
    n == 0x3000

/-- `s.split()`. -/
def split (s : Str) : List Str := words isSpace s

/-- `s.rstrip()`. -/
def rstrip (s : Str) : Str := s.rdropWhile isSpace

/-- `s.rstrip(c)` for one character. -/
def rstripChar (c : Char) (s : Str) : Str := s.rdropWhile (· == c)

/-- `sub in s`. -/
def contains (s sub : Str) : Bool := decide (sub <:+: s)

/-- `file.readlines()`. -/
def readlines (content : Str) : List Str := linesOf '\n' content

/-- `str(n)`. -/
def str (n : Int) : Str := (toString n).toList

/-- `items[i]`. -/
def index {α : Type} (items : List α) (i : Nat) : Except PyError α :=
  match items[i]? with
  | some item => .ok item
  | none => .error .indexError

/-- A fact about the characters of a string is decided along the string, not over all
characters. -/
instance (priority := high) (s : Str) (P : Char → Prop) [DecidablePred P] :
    Decidable (∀ c ∈ s, P c) :=
  List.decidableBAll P s

/-- A string without white space. -/
def IsWord (s : Str) : Prop := s ≠ [] ∧ ∀ c ∈ s, isSpace c = false

instance (s : Str) : Decidable (IsWord s) := inferInstanceAs (Decidable (_ ∧ _))

theorem contains_of_infix {s sub : Str} (isInfix : sub <:+: s) : contains s sub = true :=
  decide_eq_true isInfix

theorem split_word_append {word : Str} (isWord : IsWord word) (rest : Str) {c : Char}
    (space : isSpace c = true) : split (word ++ c :: rest) = word :: split rest :=
  words_word_append isWord.1 isWord.2 rest space

end Hecaton.Scripts
