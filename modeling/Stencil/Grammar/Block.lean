import Stencil.Grammar.Condition
import Stencil.Tree.Block

/-! # Reading blocks

A sequence of blocks alternates text and directives. Text runs up to a brace or backslash;
a backslash takes the two characters after it as they are. A directive is recognised by
its opening letters alone. The sequence ends at the end of the text or at an end tag,
which it leaves to whoever reads the directive around it.
-/
namespace Stencil.Grammar

def isTextChar (c : Char) : Bool := c != '\x7b' && c != '\\'

def openToken (directive : Text) : Text := '\x7b' :: '\x7b' :: directive

def closeToken : Text := ['\x7d', '\x7d']

def endToken (directive : Text) : Text := '\x7b' :: '\x7b' :: '/' :: (directive ++ closeToken)

def openTag (directive : Text) (c : Cursor) : Except Fault Cursor := do
  let c ← expect .startDirective (openToken directive) c
  return c.skipBlank

def closeTag (c : Cursor) : Except Fault Cursor := expect .closeDirective closeToken c.skipBlank

def endTag (directive : Text) (c : Cursor) : Except Fault Cursor :=
  expect .endDirective (endToken directive) c

/-- Text from the cursor on: what a backslash protects, then a run without braces and
backslashes. -/
def textBlock : Reading Block := fun c =>
  if c.rest.head? = some '\\' then do
    let (head, c) ← take 2 (c.advance 1)
    let (tail, c) := takeWhile isTextChar c
    return (.text (head ++ tail), c)
  else
    let (run, c) := takeWhile isTextChar c
    return (.text run, c)

def assignment (argument : Reading Arg) (directive : Text) : Reading (Text × Arg) := fun c => do
  let c ← openTag directive c
  let (target, c) ← name .noName c
  let c ← expect .symbol ['='] c.skipBlank
  let (arg, c) ← argument c.skipBlank
  let c ← closeTag c
  return ((target, arg), c)

def setBlock (argument : Reading Arg) : Reading Block := fun c => do
  let ((target, arg), c) ← assignment argument "set".toList c
  return (.set target arg, c)

def confBlock (argument : Reading Arg) : Reading Block := fun c => do
  let ((target, arg), c) ← assignment argument "conf".toList c
  return (.conf target arg, c)

def printBlock (argument : Reading Arg) : Reading Block := fun c => do
  let c ← openTag [':'] c
  let (arg, c) ← argument c
  let c ← closeTag c
  return (.print arg, c)

/-- The direction of a trim marker, both sides if the tag closes at once. -/
def direction : Reading Direction := fun c =>
  if c.rest.head? = some '\x7d' then .ok (.both, c)
  else
    let (word, after) := optionalName c
    match Direction.ofName? word with
    | some direction => .ok (direction, after)
    | none =>
      let found := if word = [] then c.peek 1 else word
      .error (c.fault (.wrongDirection found) (max word.length 1))

def trimBlock : Reading Block := fun c => do
  let c ← openTag "trim".toList c
  let (direction, c) ← direction c
  let c ← closeTag c
  return (.trim direction, c)

def newlineBlock : Reading Block := fun c => do
  let c ← openTag "nl".toList c
  let c ← closeTag c
  return (.newline, c)

def loopSource (argument : Reading Arg) (array : Reading (List Arg)) : Reading LoopSource := fun c =>
  let kind := c.peek 2
  if kind = "in".toList then do
    let (first, c) ← argument (c.advance 2).skipBlank
    let c ← expect .rangeSeparator ['.', '.'] c
    let (last, c) ← argument c
    return (.range first last, c)
  else if kind = "of".toList then do
    let (items, c) ← array (c.advance 2).skipBlank
    return (.items items, c)
  else if kind = [] then .error (c.fault .missingLoopKind 1)
  else .error (c.fault (.wrongLoopKind kind) kind.length)

def branchBlock (condition : Reading Condition) (body : Reading (List Block)) : Reading Block :=
  fun c => do
    let c ← openTag "if".toList c
    let (condition, c) ← condition c
    let c ← closeTag c
    let (blocks, c) ← body c
    let c ← endTag "if".toList c
    return (.branch condition blocks, c)

def loopBlock (argument : Reading Arg) (array : Reading (List Arg)) (body : Reading (List Block)) :
    Reading Block := fun c => do
  let c ← openTag "for".toList c
  let (target, c) ← name .noName c
  let (source, c) ← loopSource argument array c.skipBlank
  let c ← closeTag c
  let (blocks, c) ← body c
  let c ← endTag "for".toList c
  return (.loop target source blocks, c)

/-- An opening tag of any name, which goes up to a space or closing brace. -/
def anyOpenTag : Reading Text := fun c => do
  let (_, c) ← take 2 c
  return takeWhile (fun x => x != ' ' && x != '\x7d') c

/-- An end tag of any name, with its closing braces if they are there. -/
def anyEndTag : Reading Text := fun c => do
  let (_, c) ← take 3 c
  let (name, c) := takeWhile (· != '\x7d') c
  return (name, if c.startsWith closeToken then c.advance 2 else c)

def unknownBlock (c : Cursor) : Fault :=
  if c.startsWith (openToken []) then
    match anyOpenTag c with
    | .ok (name, _) => ⟨.unknownDirective name, c.offset + 2, name.length⟩
    | .error fault => fault
  else c.fault (.strayBrace (c.peek 10)) (min 10 c.rest.length)

def directiveWith (levels : Nat) (body : Reading (List Block)) : Reading Block := fun c =>
  let opens (directive : Text) : Bool := c.startsWith (openToken directive)
  if opens "if".toList then branchBlock (condition levels) body c
  else if opens "for".toList then loopBlock (argument levels) (array levels) body c
  else if opens "set".toList then setBlock (argument levels) c
  else if opens "trim".toList then trimBlock c
  else if opens "nl".toList then newlineBlock c
  else if opens [':'] then printBlock (argument levels) c
  else if opens "conf".toList then confBlock (argument levels) c
  else .error (unknownBlock c)

def blockWith (levels : Nat) (body : Reading (List Block)) : Reading Block := fun c =>
  if c.rest.head? = some '\x7b' then directiveWith levels body c else textBlock c

def atBlock (c : Cursor) : Bool := !c.atEnd && !c.startsWith (openToken ['/'])

/-- A sequence of blocks under `levels` levels that may still be opened. -/
def blocks : (levels : Nat) → Reading (List Block)
  | 0 => many atBlock (blockWith 0 tooDeep)
  | levels + 1 => many atBlock (blockWith (levels + 1) (blocks levels))

/-- The body of a directive, on a level of its own. -/
def body : (levels : Nat) → Reading (List Block)
  | 0 => tooDeep
  | levels + 1 => blocks levels

theorem blocks_eq (levels : Nat) : blocks levels = many atBlock (blockWith levels (body levels)) := by
  cases levels <;> rfl

end Stencil.Grammar
