import ConfigShell.Text.Characters
/-!
# Replacing what is not UTF-8

Reading bytes as UTF-8 at any cost: each well-formed sequence stays, and each longest run of
bytes that begins a sequence without completing one becomes a single U+FFFD, as does every
other byte that cannot begin one.
-/

namespace ConfigShell.Text

/-- How many bytes after `first` still belong to the sequence it begins, whether or not that
sequence is completed. -/
def partialFollow (first : UInt8) : Text → Nat
  | [] => 0
  | b :: rest =>
    if 0xC2 ≤ first && first ≤ 0xDF then
      if isContinuation b then 1 else 0
    else if 0xE0 ≤ first && first ≤ 0xEF then
      if (if first == 0xE0 then 0xA0 ≤ b && b ≤ 0xBF
          else if first == 0xED then 0x80 ≤ b && b ≤ 0x9F
          else isContinuation b) then 1 + ((rest.take 1).takeWhile isContinuation).length
      else 0
    else if 0xF0 ≤ first && first ≤ 0xF4 then
      if (if first == 0xF0 then 0x90 ≤ b && b ≤ 0xBF
          else if first == 0xF4 then 0x80 ≤ b && b ≤ 0x8F
          else isContinuation b) then 1 + ((rest.take 2).takeWhile isContinuation).length
      else 0
    else 0

/-- U+FFFD. -/
def replacement : Text := [0xEF, 0xBF, 0xBD]

/-- Reads at most `limit` sequences from the front. -/
def replaceUpTo : Nat → Text → List Text
  | 0, _ => []
  | _, [] => []
  | limit + 1, b :: t =>
    match follow b t with
    | some n => (b :: t.take n) :: replaceUpTo limit (t.drop n)
    | none => replacement :: replaceUpTo limit (t.drop (partialFollow b t))

/-- The text with every ill-formed part replaced. -/
def replaceStrays (t : Text) : Text := (replaceUpTo t.length t).flatten

end ConfigShell.Text
