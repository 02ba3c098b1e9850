import Mathlib.Data.List.TakeWhile
import Stencil.Proofs.Number.Whole
import Stencil.Value.Mapping

/-! # JSON documents

The grammar of JSON as a judgement: which texts a value is written as. Blanks may stand around every
token, a character of a string may be escaped, and a number with a fraction or an exponent is a
double. An object stands for its members one after another, the last of two with one name.
-/
namespace Stencil.Json

/-- The characters that may stand between tokens. -/
def isSpacing (c : Char) : Bool := c == ' ' || c == '\t' || c == '\n' || c == '\r'

def Spacing (t : Text) : Prop := ∀ c ∈ t, isSpacing c = true

theorem spacing_nil : Spacing [] := List.forall_mem_nil _

/-- The letters of the short escapes, with the characters that they stand for. -/
def escapes : List (Char × Char) :=
  [('"','"'),('\\','\\'),('/','/'),('b','\x08'),('f','\x0c'),('n','\n'),('r','\r'),('t','\t')]

/-- Four hexadecimal digits that count `n`. -/
def FourDigits (n : Nat) (t : Text) : Prop := t.length = 4 ∧ natInBase? 16 t = some n

/-- How a character is written in a string: as itself, by an escape, or by its code. A code of more
than four digits is written as two halves. -/
inductive CharWritten : Char → Text → Prop
  | plain {c : Char} : 0x20 ≤ c.toNat → c ≠ '"' → c ≠ '\\' → CharWritten c [c]
  | escape {c letter : Char} : (letter,c) ∈ escapes → CharWritten c ['\\',letter]
  | code {c : Char} {t : Text} : FourDigits c.toNat t → CharWritten c ('\\' :: 'u' :: t)
  | halves {c : Char} {m n : Nat} {t u : Text} : FourDigits m t → FourDigits n u →
      0xd800 ≤ m → m < 0xdc00 → 0xdc00 ≤ n → n < 0xe000 →
      c.toNat = 0x10000 + (m - 0xd800) * 0x400 + (n - 0xdc00) →
      CharWritten c ('\\' :: 'u' :: (t ++ '\\' :: 'u' :: u))

/-- What stands between the quotes of a string. -/
inductive CharsWritten : Text → Text → Prop
  | nil : CharsWritten [] []
  | cons {c : Char} {s t u : Text} : CharWritten c t → CharsWritten s u →
      CharsWritten (c :: s) (t ++ u)

/-- Digits that count `n`, without a zero in front. -/
def WholeWritten (n : Nat) (t : Text) : Prop :=
  natOfText? t = some n ∧ (t.head? = some '0' → t = ['0'])

def Digits (t : Text) : Prop := t ≠ [] ∧ ∀ c ∈ t, c.isDigit = true

/-- A point and digits, or nothing. -/
inductive Fraction : Text → Prop
  | none : Fraction []
  | some {t : Text} : Digits t → Fraction ('.' :: t)

/-- A power of ten, with a sign or without, or nothing. -/
inductive Exponent : Text → Prop
  | none : Exponent []
  | some {e : Char} {sign t : Text} : e = 'e' ∨ e = 'E' → sign = [] ∨ sign = ['+'] ∨ sign = ['-'] →
      Digits t → Exponent (e :: (sign ++ t))

/-- The parts of a document: a value, a value with blanks around it, a member of an object, and
what stands between the brackets of an array or an object that is not empty. -/
inductive Part where
  | value (v : Value)
  | element (v : Value)
  | member (entry : Value × Value)
  | items (vs : List Value)
  | members (entries : List (Value × Value))

/-- The part is written as the text. -/
inductive Writes : Part → Text → Prop
  | null : Writes (.value .null) "null".toList
  | bool (b : Bool) : Writes (.value (.bool b)) (if b then "true".toList else "false".toList)
  | int {n : Nat} {t : Text} (negative : Bool) : WholeWritten n t →
      Writes (.value (.int (signed negative n))) (signText negative ++ t)
  | float {n : Nat} {t u w : Text} {x : Double} (negative : Bool) : WholeWritten n t →
      Fraction u → Exponent w → u ++ w ≠ [] →
      Double.ofText? (signText negative ++ t ++ (u ++ w)) = some x →
      Writes (.value (.float x)) (signText negative ++ t ++ (u ++ w))
  | text {s t : Text} : CharsWritten s t → Writes (.value (.text s)) ('"' :: (t ++ ['"']))
  | noItems {t : Text} : Spacing t → Writes (.value (.list [])) ('[' :: (t ++ [']']))
  | list {vs : List Value} {t : Text} : Writes (.items vs) t →
      Writes (.value (.list vs)) ('[' :: (t ++ [']']))
  | noMembers {t : Text} : Spacing t → Writes (.value (.mapping [])) ('\x7b' :: (t ++ ['\x7d']))
  | mapping {entries : List (Value × Value)} {t : Text} : Writes (.members entries) t →
      Writes (.value (.mapping (Mapping.ofEntries entries))) ('\x7b' :: (t ++ ['\x7d']))
  | element {v : Value} {before t after : Text} : Spacing before → Writes (.value v) t →
      Spacing after → Writes (.element v) (before ++ (t ++ after))
  | lastItem {v : Value} {t : Text} : Writes (.element v) t → Writes (.items [v]) t
  | moreItems {v : Value} {vs : List Value} {t u : Text} : Writes (.element v) t →
      Writes (.items vs) u → Writes (.items (v :: vs)) (t ++ ',' :: u)
  | member {s before t after u : Text} {v : Value} : Spacing before → CharsWritten s t →
      Spacing after → Writes (.element v) u →
      Writes (.member (.text s,v)) (before ++ '"' :: (t ++ '"' :: (after ++ ':' :: u)))
  | lastMember {entry : Value × Value} {t : Text} : Writes (.member entry) t →
      Writes (.members [entry]) t
  | moreMembers {entry : Value × Value} {entries : List (Value × Value)} {t u : Text} :
      Writes (.member entry) t → Writes (.members entries) u →
      Writes (.members (entry :: entries)) (t ++ ',' :: u)

/-- The text is a document for the value. -/
def Document (v : Value) (t : Text) : Prop := Writes (.element v) t

end Stencil.Json
