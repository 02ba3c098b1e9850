import Stencil.Text.Basic

/-! # Breakdowns

The causes for which a job is given up on the spot. Nothing is reported about them but the
cause itself, and the program that meets one ends.
-/
namespace Stencil

inductive Breakdown where
  /-- A file does not hold text. -/
  | undecodable (file : Text)
  /-- A file name is longer than the file system admits. -/
  | longName (file : Text)
  /-- A directory on the way to a file may not be searched. -/
  | closedDirectory (file : Text)
  /-- A numeral has more digits than are read or written. -/
  | longNumeral
  /-- A mapping with a key that JSON has no name for is to be written. -/
  | foreignKey
  | emptyNumeral
  /-- A list that stands as a key holds a list or a mapping. -/
  | nestedKey
  /-- A depth limit is asked for and no number given. -/
  | missingDepth
  /-- The format of log lines is named in the place of a level. -/
  | formatAsLevel
  /-- The table of log styles is named in the place of a level. -/
  | stylesAsLevel
  deriving DecidableEq, Repr

def Breakdown.message : Breakdown → Text
  | undecodable file => "not a text file: ".toList ++ file
  | longName file => "file name too long: ".toList ++ file
  | closedDirectory file => "no way to the file: ".toList ++ file
  | longNumeral => "numeral too long".toList
  | foreignKey => "key has no text".toList
  | emptyNumeral => "numeral without digits".toList
  | nestedKey => "key holds a list or a mapping".toList
  | missingDepth => "depth limit without a number".toList
  | formatAsLevel => "format of log lines is not a level".toList
  | stylesAsLevel => "table of log styles is not a level".toList

end Stencil
