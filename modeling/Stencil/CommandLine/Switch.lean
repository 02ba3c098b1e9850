import Stencil.Text.Digits
import Stencil.Text.Search

/-! # Switches

The switches of the command line, and what a word on it is: a switch, perhaps with a value
attached, or a plain word. A long switch may be cut short as long as one fits; after a
double dash every word is plain.
-/
namespace Stencil.CommandLine

inductive Switch where
  | help
  | version
  | logLevel
  | vars
  | config
  | keepLineEnds
  | squash
  | maxDepth
  deriving DecidableEq, Repr

namespace Switch

def spellings : Switch → List Text
  | help => ["-h".toList, "--help".toList]
  | version => ["-v".toList, "--version".toList]
  | logLevel => ["--log-level".toList]
  | vars => ["--vars".toList]
  | config => ["--config".toList]
  | keepLineEnds => ["--no-trim-end-line".toList]
  | squash => ["--squash".toList]
  | maxDepth => ["--max-depth".toList]

def takesValue : Switch → Bool
  | help => false
  | version => false
  | keepLineEnds => false
  | _ => true

end Switch

inductive WordKind where
  | plain
  | separator
  /-- A switch, and what follows its spelling in the same word. -/
  | switch (switch : Switch) (short : Bool) (attached : Option Text)
  | unknown
  | ambiguous
  deriving DecidableEq, Repr

structure Word where
  text : Text
  kind : WordKind
  deriving DecidableEq, Repr

def isAnyDigit (c : Char) : Bool := (digitValue? c).isSome

def withoutFinalNewline (t : Text) : Text := if t.getLast? = some '\n' then t.dropLast else t

/-- A dash, digits, and at most one point before the last of them. A newline may follow. -/
def isNegativeNumeral : Text → Bool
  | '-' :: rest =>
    match (withoutFinalNewline rest).splitOn '.' with
    | [digits] => !digits.isEmpty && digits.all isAnyDigit
    | [whole, part] => whole.all isAnyDigit && !part.isEmpty && part.all isAnyDigit
    | _ => false
  | _ => false

def spelled? (known : List Switch) (name : Text) : Option Switch :=
  known.find? fun switch => name ∈ switch.spellings

def splitEquals (t : Text) : Text × Option Text :=
  match Text.breakAt? ['='] t with
  | some (name, value) => (name, some value)
  | none => (t, none)

/-- The switches with a spelling that begins with `name`, once for each such spelling. -/
def completions (known : List Switch) (name : Text) : List Switch :=
  known.flatMap fun switch =>
    (switch.spellings.filter fun spelling => name.isPrefixOf spelling).map fun _ => switch

def readings (known : List Switch) (t : Text) : List WordKind :=
  if t.take 2 = ['-', '-'] then
    let (name, attached) := splitEquals t
    (completions known name).map (.switch · false attached)
  else
    match spelled? known (t.take 2) with
    | some switch => [.switch switch true (some (t.drop 2))]
    | none => []

def isShort (spelling : Text) : Bool := spelling.take 2 ≠ ['-', '-']

def kindOf (known : List Switch) (t : Text) : WordKind :=
  if t.head? ≠ some '-' ∨ t.length = 1 then .plain
  else
    let (name, attached) := splitEquals t
    match spelled? known t, spelled? known name with
    | some switch, _ => .switch switch (isShort t) none
    | none, some switch => .switch switch (isShort name) attached
    | none, none =>
      match readings known t with
      | [] => if isNegativeNumeral t ∨ ' ' ∈ t then .plain else .unknown
      | [kind] => kind
      | _ => .ambiguous

def words (known : List Switch) : List Text → List Word
  | [] => []
  | t :: rest =>
    if t = ['-', '-'] then ⟨t, .separator⟩ :: rest.map (⟨·, .plain⟩)
    else ⟨t, kindOf known t⟩ :: words known rest

end Stencil.CommandLine
