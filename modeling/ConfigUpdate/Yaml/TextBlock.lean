import ConfigUpdate.Yaml.Line

/-!
# YAML blocks of text

A text that is written in lines of its own below a mark: `|` keeps the lines as they are, `>` makes
one line of those that stand together. What follows the mark says how the block ends.
-/

namespace ConfigUpdate.Yaml

open Text (isGap)

/-- What is kept of the line ends after the last line of a block of text. -/
inductive Chomp where
  /-- The first one. -/
  | clip
  /-- None. -/
  | strip
  /-- All of them. -/
  | keep
  deriving DecidableEq, Repr

/-- Reads the sign for the end of the block. -/
def chompSign? : List Char → Option (Chomp × List Char)
  | '-' :: cs => some (.strip, cs)
  | '+' :: cs => some (.keep, cs)
  | _ => none

/-- Reads the width of the margin, which is a digit other than zero. -/
def marginDigit? : List Char → Option (Nat × List Char)
  | c :: cs => if c.isDigit && c != '0' then some (c.toNat - '0'.toNat, cs) else none
  | [] => none

/-- Reads what follows the mark: the sign for the end and the width of the margin, in any order, and
the end of the line. -/
def blockHeader? (cs : List Char) : Option (Chomp × Option Nat × List Char) := do
  let (before, cs) := match chompSign? cs with
    | some (c, cs) => (some c, cs)
    | none => (none, cs)
  let (width, cs) := match marginDigit? cs with
    | some (n, cs) => (some n, cs)
    | none => (none, cs)
  let (chomp, cs) := match before, chompSign? cs with
    | none, some r => r
    | before, _ => (before.getD .clip, cs)
  return (chomp, width, ← finishLine? cs)

/-- The margin of a block of text that does not give its width: that of its first line, and at least
`least`. There is no tab in it; `fuel` bounds the number of empty lines. -/
def findMargin? (least : Nat) : Nat → List Char → Option Nat
  | 0, _ => some least
  | fuel + 1, cs =>
    let blanks := (cs.takeWhile (· == ' ')).length
    match cs.drop blanks with
    | '\t' :: _ => none
    | '\n' :: cs => (findMargin? least fuel cs).map (max blanks)
    | _ => some (max blanks least)

/-- The lines of a block of text without their margin, and the characters from the start of the line
after them on. -/
def blockLines (margin : Nat) : Nat → List Char → List (List Char) × List Char
  | 0, cs => ([], cs)
  | fuel + 1, cs =>
    let width := min margin (cs.takeWhile (· == ' ')).length
    let line := (cs.drop width).takeWhile (· != '\n')
    let after := cs.drop (width + line.length)
    if (line.isEmpty && after.isEmpty) || (width < margin && !line.isEmpty) then ([], cs)
    else
      let (lines, rest) := blockLines margin fuel (after.drop 1)
      (line :: lines, rest)

/-- The characters between a line and the next one that is not empty, with `empty` empty lines
between the two. -/
def lineGap (folded : Bool) (line next : List Char) (empty : Nat) : List Char :=
  if folded && !line.head?.any isGap && !next.head?.any isGap then
    if empty = 0 then [' '] else List.replicate empty '\n'
  else List.replicate (empty + 1) '\n'

/-- Joins the lines of a block of text up to its last line that is not empty. -/
def joinLines (folded : Bool) (before : Option (List Char)) (empty : Nat) :
    List (List Char) → List Char
  | [] => []
  | [] :: ls => joinLines folded before (empty + 1) ls
  | l :: ls =>
    let gap := match before with
      | some b => lineGap folded b l empty
      | none => List.replicate empty '\n'
    gap ++ l ++ joinLines folded (some l) 0 ls

/-- The line ends that are kept after the last line, which has one of its own if `ended`. -/
def blockEnd (chomp : Chomp) (ended : Bool) (lines : List (List Char)) : List Char :=
  let empty := (lines.reverse.takeWhile (·.isEmpty)).length
  let first : List Char := if ended && lines.any (!·.isEmpty) then ['\n'] else []
  match chomp with
  | .strip => []
  | .clip => first
  | .keep => first ++ List.replicate empty '\n'

/-- Reads a block of text after its mark; its margin has at least `indent` blanks if its width is
not given. -/
def textBlock (folded : Bool) (indent : Nat) : Text.Scan String := fun cs => do
  let (chomp, width, cs) ← blockHeader? cs
  let margin ← match width with
    | some n => some (indent - 1 + n)
    | none => findMargin? (max indent 1) (cs.length + 1) cs
  let (lines, rest) := blockLines margin cs.length cs
  let ended := (cs.take (cs.length - rest.length)).getLast? == some '\n'
  return (String.ofList (joinLines folded none 0 lines ++ blockEnd chomp ended lines), rest)

end ConfigUpdate.Yaml
