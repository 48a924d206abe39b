/-
# Regular expression engines

The program hands pattern texts to its platform's regular expression engine and
asks whether a whole string matches. Nothing here depends on which engine that
is: a text either compiles to a pattern or is refused, and a pattern accepts or
rejects a string. Results stated over an arbitrary engine hold for the
platform's own.

`starEngine` is a small concrete engine for executions on fixed inputs. It reads
literal characters, escaped characters, the dot and the star, agrees with the
platform's engine on the texts made of these, and refuses every other text.
-/

import Otoroshi.Foundation.Text

namespace Otoroshi

/-- What the program uses of a regular expression engine. `compile` is `none` on
a text the engine refuses with a syntax error; `accepts` is a match of the whole
string. -/
structure RegexEngine where
  Pattern : Type
  compile : Str → Option Pattern
  accepts : Pattern → Str → Bool

namespace StarPattern

/-- One position of a pattern: a character, or the dot. -/
inductive Atom
  | char (c : Char)
  | any
  deriving DecidableEq

/-- The characters the dot rejects. -/
def isLineTerminator (c : Char) : Bool :=
  c == '\n' || c == '\r' || c == '\u0085' || c == '\u2028' || c == '\u2029'

/-- The characters an atom accepts. -/
def Atom.accepts : Atom → Char → Bool
  | .char c, d => c == d
  | .any, d => !isLineTerminator d

/-- An atom, starred or not. -/
abbrev Item := Atom × Bool

/-- The characters with a meaning of their own outside a class. -/
def isMeta (c : Char) : Bool := "\\^$.|?*+()[]\x7b\x7d".toList.contains c

/-- Read the characters of a pattern: an atom each, or `none` for a star. -/
def lex : Str → Option (List (Option Atom))
  | [] => some []
  | '\\' :: c :: rest =>
      if c.isAlphanum then none else (lex rest).map (some (.char c) :: ·)
  | '.' :: rest => (lex rest).map (some .any :: ·)
  | '*' :: rest => (lex rest).map (none :: ·)
  | c :: rest => if isMeta c then none else (lex rest).map (some (.char c) :: ·)

/-- Attach each star to the atom before it; a dangling star is a syntax error. -/
def attach : List (Option Atom) → Option (List Item)
  | [] => some []
  | some atom :: none :: rest => (attach rest).map ((atom, true) :: ·)
  | some atom :: rest => (attach rest).map ((atom, false) :: ·)
  | none :: _ => none

/-- Match a starred atom, then what `rest` accepts. -/
def acceptsStar (atom : Atom) (rest : Str → Bool) : Str → Bool
  | [] => rest []
  | c :: s => rest (c :: s) || (atom.accepts c && acceptsStar atom rest s)

/-- A match of the whole string. -/
def accepts : List Item → Str → Bool
  | [], s => s.isEmpty
  | (atom, true) :: items, s => acceptsStar atom (accepts items) s
  | (_, false) :: _, [] => false
  | (atom, false) :: items, c :: s => atom.accepts c && accepts items s

end StarPattern

/-- The engine of starred literals and dots. -/
def starEngine : RegexEngine where
  Pattern := List StarPattern.Item
  compile text := (StarPattern.lex text).bind StarPattern.attach
  accepts := StarPattern.accepts

example : (starEngine.compile "a\\.*b".toList).map (starEngine.accepts · "a..b".toList) =
    some true := by
  decide

end Otoroshi
