/-!
# Layout of a source file

A source file is laid out in blocks of lines. One empty line stands between two blocks,
unless the first of them already ends with one. A block without lines takes no part.
-/

namespace Bindery.Gleam

/-- Lines that belong together. -/
abbrev Block := List String

/-- The text of a block: each line is followed by a line feed. -/
def blockText (b : Block) : List Char := b.flatMap fun line => line.toList ++ ['\n']

/-- Whether a text ends with an empty line. -/
def endsBlank (text : List Char) : Bool := text.reverse.take 2 == ['\n', '\n']

/-- What stands between a block and the next one. -/
def gapBehind (b : Block) : List Char := if endsBlank (blockText b) then [] else ['\n']

/-- The text of blocks that all have lines. -/
def layoutBlocks : List Block → List Char
  | [] => []
  | [b] => blockText b
  | b :: rest => blockText b ++ gapBehind b ++ layoutBlocks rest

/-- The text of blocks. -/
def layout (blocks : List Block) : String :=
  String.ofList (layoutBlocks (blocks.filter fun b => !b.isEmpty))

end Bindery.Gleam
