import Stencil.Proofs.Json.Grammar

/-! # Reading the tokens of JSON

Decoders for strings, numbers and words. Each reads a token with the text behind it at hand, and
finds what the token is written for.
-/
namespace Stencil.Json

/-- Four hexadecimal digits, and the text behind them. -/
def fourDigits? (t : Text) : Option (Nat × Text) :=
  if 4 ≤ t.length then (natInBase? 16 (t.take 4)).map (·,t.drop 4) else none

def charOfCode? (n : Nat) : Option Char := if n.isValidChar then some (Char.ofNat n) else none

/-- The character of a code, or of two halves of one. -/
def code? (t : Text) : Option (Char × Text) := do
  let (m,rest) ← fourDigits? t
  if 0xd800 ≤ m ∧ m < 0xdc00 then
    match rest with
    | '\\' :: 'u' :: rest => do
      let (n,rest) ← fourDigits? rest
      if 0xdc00 ≤ n ∧ n < 0xe000 then
        (charOfCode? (0x10000 + (m - 0xd800) * 0x400 + (n - 0xdc00))).map (·,rest)
      else none
    | _ => none
  else (charOfCode? m).map (·,rest)

/-- One character of a string, and the text behind it. -/
def char? : Text → Option (Char × Text)
  | '\\' :: 'u' :: rest => code? rest
  | '\\' :: letter :: rest => (escapes.lookup letter).map (·,rest)
  | c :: rest => if c = '\\' ∨ c = '"' ∨ c.toNat < 0x20 then none else some (c,rest)
  | [] => none

/-- At most `rounds` characters up to the quote that ends a string. -/
def chars? : (rounds : Nat) → Text → Option (Text × Text)
  | _, '"' :: rest => some ([],rest)
  | 0, _ => none
  | rounds + 1, t => do
    let (c,rest) ← char? t
    let (s,rest) ← chars? rounds rest
    some (c :: s,rest)

/-- A string in quotes. -/
def string? : Text → Option (Text × Text)
  | '"' :: rest => chars? rest.length rest
  | _ => none

/-- A point with the digits behind it. A point alone is no fraction. -/
def fraction? : Text → Option (Text × Text)
  | '.' :: rest =>
    let digits := rest.takeWhile Char.isDigit
    if digits = [] then none else some ('.' :: digits,rest.dropWhile Char.isDigit)
  | t => some ([],t)

/-- A sign that may stand in front of an exponent. -/
def exponentSign : Text → Text × Text
  | '+' :: rest => (['+'],rest)
  | '-' :: rest => (['-'],rest)
  | t => ([],t)

def exponent? : Text → Option (Text × Text)
  | [] => some ([],[])
  | e :: rest =>
    if e = 'e' ∨ e = 'E' then
      let (sign,rest) := exponentSign rest
      let digits := rest.takeWhile Char.isDigit
      if digits = [] then none else some (e :: (sign ++ digits),rest.dropWhile Char.isDigit)
    else some ([],e :: rest)

/-- A minus, and whether there is one. -/
def minus : Text → Bool × Text
  | '-' :: rest => (true,rest)
  | t => (false,t)

def number? (t : Text) : Option (Value × Text) := do
  let (negative,rest) := minus t
  let whole := rest.takeWhile Char.isDigit
  let n ← natOfText? whole
  if whole.head? = some '0' ∧ whole ≠ ['0'] then none
  let (fraction,rest) ← fraction? (rest.dropWhile Char.isDigit)
  let (exponent,rest) ← exponent? rest
  if fraction ++ exponent = [] then some (.int (signed negative n),rest)
  else (Double.ofText? (signText negative ++ whole ++ (fraction ++ exponent))).map (.float ·,rest)

/-- The words that stand for values. -/
def words : List (Text × Value) :=
  [("null".toList,.null),("true".toList,.bool true),("false".toList,.bool false)]

def word? (t : Text) : Option (Value × Text) :=
  words.findSome? fun word => (word.1.isPrefixOf? t).map (word.2,·)

/-- A value without brackets. -/
def scalar? (t : Text) : Option (Value × Text) :=
  ((string? t).map fun (s,rest) => (.text s,rest)).or ((word? t).or (number? t))

theorem fourDigits?_append {n : Nat} {t : Text} (h : FourDigits n t) (rest : Text) :
    fourDigits? (t ++ rest) = some (n,rest) := by
  obtain ⟨hlength,hn⟩ := h
  have hle : 4 ≤ (t ++ rest).length := by simp [hlength]
  rw [fourDigits?,if_pos hle,List.take_left' hlength,List.drop_left' hlength,hn]
  rfl

theorem charOfCode?_toNat (c : Char) : charOfCode? c.toNat = some c := by
  have hvalid : c.toNat.isValidChar := c.valid
  rw [charOfCode?,if_pos hvalid,Char.ofNat_toNat]

/-- No character has a half as its code. -/
theorem not_half (c : Char) : ¬(0xd800 ≤ c.toNat ∧ c.toNat < 0xdc00) := by
  have hvalid : c.toNat < 0xd800 ∨ 0xdfff < c.toNat ∧ c.toNat < 0x110000 := c.valid
  omega

theorem code?_append {c : Char} {t : Text} (h : FourDigits c.toNat t) (rest : Text) :
    code? (t ++ rest) = some (c,rest) := by
  simp only [code?,fourDigits?_append h,Option.bind_eq_bind,Option.bind_some,if_neg (not_half c),
    charOfCode?_toNat,Option.map_some]

theorem code?_halves {c : Char} {m n : Nat} {t u : Text} (ht : FourDigits m t) (hu : FourDigits n u)
    (hm : 0xd800 ≤ m ∧ m < 0xdc00) (hn : 0xdc00 ≤ n ∧ n < 0xe000)
    (hc : c.toNat = 0x10000 + (m - 0xd800) * 0x400 + (n - 0xdc00)) (rest : Text) :
    code? (t ++ '\\' :: 'u' :: (u ++ rest)) = some (c,rest) := by
  simp only [code?,fourDigits?_append ht,fourDigits?_append hu,Option.bind_eq_bind,Option.bind_some,
    if_pos hm,if_pos hn,← hc,charOfCode?_toNat,Option.map_some]

theorem lookup_of_mem_escapes {letter c : Char} (h : (letter,c) ∈ escapes) :
    letter ≠ 'u' ∧ escapes.lookup letter = some c := by
  have hall : (escapes.all fun pair =>
      pair.1 != 'u' && escapes.lookup pair.1 == some pair.2) = true := by decide
  simpa using List.all_eq_true.mp hall _ h

theorem char?_append {c : Char} {t : Text} (h : CharWritten c t) (rest : Text) :
    char? (t ++ rest) = some (c,rest) := by
  cases h with
  | plain hle hquote hslash =>
    have hplain : ¬(c = '\\' ∨ c = '"' ∨ c.toNat < 0x20) := by
      rintro (h | h | h)
      · exact hslash h
      · exact hquote h
      · omega
    rw [List.singleton_append,char?,if_neg hplain]
    · exact fun _ he => absurd he hslash
    · exact fun _ _ he => absurd he hslash
  | escape hmem =>
    obtain ⟨hu,hlookup⟩ := lookup_of_mem_escapes hmem
    change char? ('\\' :: _ :: rest) = _
    rw [char?,hlookup]
    · rfl
    · exact hu
  | code hdigits => exact code?_append hdigits rest
  | halves ht hu hlow hhigh hlow' hhigh' hc =>
    rw [List.cons_append,List.cons_append,List.append_assoc]
    exact code?_halves ht hu ⟨hlow,hhigh⟩ ⟨hlow',hhigh'⟩ hc rest

theorem CharWritten.exists_cons {c : Char} {t : Text} (h : CharWritten c t) :
    ∃ d r, t = d :: r ∧ d ≠ '"' := by
  cases h with
  | plain _ hquote _ => exact ⟨_,_,rfl,hquote⟩
  | escape _ => exact ⟨_,_,rfl,by decide⟩
  | code _ => exact ⟨_,_,rfl,by decide⟩
  | halves _ _ _ _ _ _ _ => exact ⟨_,_,rfl,by decide⟩

theorem chars?_append {s t : Text} (h : CharsWritten s t) {rounds : Nat} (hr : t.length ≤ rounds)
    (rest : Text) : chars? rounds (t ++ '"' :: rest) = some (s,rest) := by
  induction h generalizing rounds with
  | nil => cases rounds <;> rfl
  | @cons c s t u hc _ ih =>
    obtain ⟨d,r,rfl,hd⟩ := hc.exists_cons
    rw [List.length_append,List.length_cons] at hr
    cases rounds with
    | zero => omega
    | succ rounds =>
      have hread : char? (d :: (r ++ (u ++ '"' :: rest))) = some (c,u ++ '"' :: rest) :=
        char?_append hc _
      have hmore : chars? rounds (u ++ '"' :: rest) = some (s,rest) := ih (by omega)
      rw [List.append_assoc,List.cons_append,chars?]
      · simp only [hread,hmore,Option.bind_eq_bind,Option.bind_some]
      · exact fun _ he => hd (List.cons.inj he).1

theorem string?_append {s t : Text} (h : CharsWritten s t) (rest : Text) :
    string? ('"' :: (t ++ '"' :: rest)) = some (s,rest) :=
  chars?_append h (by simp) rest

/-- What may follow a value. -/
def Ends (rest : Text) : Prop :=
  ∀ c ∈ rest.head?, isSpacing c = true ∨ c = ',' ∨ c = ']' ∨ c = '\x7d'

theorem Ends.not_mem {rest : Text} (h : Ends rest) {c : Char} (hc : c ∈ rest.head?) :
    c.isDigit = false ∧ c ≠ '.' ∧ c ≠ 'e' ∧ c ≠ 'E' := by
  simp only [Ends,isSpacing,Bool.or_eq_true,beq_iff_eq,or_assoc] at h
  obtain rfl | rfl | rfl | rfl | rfl | rfl | rfl := h c hc <;> decide

variable {t u w rest : Text}

theorem takeWhile_digits (ht : ∀ c ∈ t, c.isDigit = true)
    (hrest : ∀ c ∈ rest.head?, c.isDigit = false) : (t ++ rest).takeWhile Char.isDigit = t := by
  rw [List.takeWhile_append_of_pos ht]
  cases rest with
  | nil => simp
  | cons c r => rw [List.takeWhile_cons_of_neg (by simp [hrest c rfl]),List.append_nil]

theorem dropWhile_digits (ht : ∀ c ∈ t, c.isDigit = true)
    (hrest : ∀ c ∈ rest.head?, c.isDigit = false) : (t ++ rest).dropWhile Char.isDigit = rest := by
  rw [List.dropWhile_append_of_pos ht]
  cases rest with
  | nil => rfl
  | cons c r => exact List.dropWhile_cons_of_neg (by simp [hrest c rfl])

theorem fraction?_append (h : Fraction u)
    (hrest : ∀ c ∈ rest.head?, c.isDigit = false ∧ c ≠ '.') :
    fraction? (u ++ rest) = some (u,rest) := by
  have hdigit : ∀ c ∈ rest.head?, c.isDigit = false := fun c hc => (hrest c hc).1
  cases h with
  | none =>
    cases rest with
    | nil => rfl
    | cons c r =>
      rw [List.nil_append,fraction?]
      exact fun _ he => (hrest c rfl).2 (List.cons.inj he).1
  | some ht =>
    simp only [List.cons_append,fraction?,takeWhile_digits ht.2 hdigit,dropWhile_digits ht.2 hdigit,
      if_neg ht.1]

theorem exponentSign_append {sign : Text} (h : sign = [] ∨ sign = ['+'] ∨ sign = ['-'])
    (ht : Digits t) : exponentSign (sign ++ (t ++ rest)) = (sign,t ++ rest) := by
  obtain ⟨hne,hdigits⟩ := ht
  obtain ⟨c,r,rfl⟩ := List.exists_cons_of_ne_nil hne
  have hc : c.isDigit = true := hdigits c List.mem_cons_self
  obtain rfl | rfl | rfl := h
  · rw [List.nil_append,List.cons_append,exponentSign]
    · rintro _ ⟨⟩
      exact absurd hc (by decide)
    · rintro _ ⟨⟩
      exact absurd hc (by decide)
  · rfl
  · rfl

theorem exponent?_append (h : Exponent w) (hrest : Ends rest) :
    exponent? (w ++ rest) = some (w,rest) := by
  cases h with
  | none =>
    cases rest with
    | nil => rfl
    | cons c r =>
      obtain ⟨-,-,hlow,hhigh⟩ := hrest.not_mem (c := c) rfl
      rw [List.nil_append,exponent?,if_neg (by simp [hlow,hhigh])]
  | some he hsign ht =>
    have hdigit : ∀ c ∈ rest.head?, c.isDigit = false := fun c hc => (hrest.not_mem hc).1
    simp only [List.cons_append,List.append_assoc,exponent?,if_pos he,exponentSign_append hsign ht,
      takeWhile_digits ht.2 hdigit,dropWhile_digits ht.2 hdigit,if_neg ht.1]

/-- Digits never follow a number, nor does a point follow a fraction. -/
theorem head?_exponent (h : Exponent w) (hrest : Ends rest) :
    ∀ c ∈ (w ++ rest).head?, c.isDigit = false ∧ c ≠ '.' := by
  cases h with
  | none => exact fun c hc => ⟨(hrest.not_mem hc).1,(hrest.not_mem hc).2.1⟩
  | some he _ _ =>
    rintro c ⟨⟩
    obtain rfl | rfl := he <;> decide

theorem head?_fraction (h : Fraction u)
    (hrest : ∀ c ∈ rest.head?, c.isDigit = false ∧ c ≠ '.') :
    ∀ c ∈ (u ++ rest).head?, c.isDigit = false := by
  cases h with
  | none => exact fun c hc => (hrest c hc).1
  | some _ =>
    rintro c ⟨⟩
    decide

theorem WholeWritten.digits {n : Nat} (h : WholeWritten n t) : Digits t := by
  obtain ⟨hread,-⟩ := h
  unfold natOfText? at hread
  split at hread
  · case isTrue ht => exact ⟨ht.1,List.all_eq_true.mp ht.2⟩
  · cases hread

theorem minus_append (negative : Bool) (ht : Digits t) :
    minus (signText negative ++ (t ++ rest)) = (negative,t ++ rest) := by
  cases negative with
  | true => rfl
  | false =>
    obtain ⟨hne,hdigits⟩ := ht
    obtain ⟨c,r,rfl⟩ := List.exists_cons_of_ne_nil hne
    have hc : c.isDigit = true := hdigits c List.mem_cons_self
    change minus (c :: (r ++ rest)) = _
    rw [minus]
    · rfl
    · rintro _ ⟨⟩
      exact absurd hc (by decide)

/-- What a number is read as, by whether it has a fraction or an exponent. -/
theorem number?_append {n : Nat} (negative : Bool) (ht : WholeWritten n t) (hu : Fraction u)
    (hw : Exponent w) (hrest : Ends rest) :
    number? (signText negative ++ (t ++ (u ++ (w ++ rest)))) =
      if u ++ w = [] then some (.int (signed negative n),rest)
      else (Double.ofText? (signText negative ++ t ++ (u ++ w))).map (.float ·,rest) := by
  have hdigits := ht.digits
  have hpoint := head?_exponent hw hrest
  have hdigit := head?_fraction hu hpoint
  have hzero : ¬(t.head? = some '0' ∧ t ≠ ['0']) := fun h => h.2 (ht.2 h.1)
  simp only [number?,minus_append negative hdigits,takeWhile_digits hdigits.2 hdigit,
    dropWhile_digits hdigits.2 hdigit,ht.1,if_neg hzero,fraction?_append hu hpoint,
    exponent?_append hw hrest,Option.bind_eq_bind,Option.bind_some]

/-- A number begins neither as a string, a bracket or a blank nor as a word. -/
def beginsNumber (c : Char) : Bool :=
  c != '"' && c != '[' && c != '\x7b' && c != ']' && c != '\x7d' && !isSpacing c &&
    words.all fun word => word.1.head? != some c

theorem exists_beginsNumber (negative : Bool) (ht : Digits t) (rest : Text) :
    ∃ c r, signText negative ++ (t ++ rest) = c :: r ∧ beginsNumber c = true := by
  cases negative with
  | true => exact ⟨_,_,rfl,by decide⟩
  | false =>
    obtain ⟨hne,hdigits⟩ := ht
    obtain ⟨c,r,rfl⟩ := List.exists_cons_of_ne_nil hne
    exact ⟨_,_,rfl,forall_digit (by decide) (hdigits c List.mem_cons_self)⟩

theorem word?_of_beginsNumber {c : Char} (hc : beginsNumber c = true) (r : Text) :
    word? (c :: r) = none := by
  have hn : c ≠ 'n' := by
    rintro rfl
    exact absurd hc (by decide)
  have ht : c ≠ 't' := by
    rintro rfl
    exact absurd hc (by decide)
  have hf : c ≠ 'f' := by
    rintro rfl
    exact absurd hc (by decide)
  simp [word?,words,List.isPrefixOf?,hn.symm,ht.symm,hf.symm]

theorem string?_of_beginsNumber {c : Char} (hc : beginsNumber c = true) (r : Text) :
    string? (c :: r) = none := by
  rw [string?]
  rintro _ ⟨⟩
  exact absurd hc (by decide)

end Stencil.Json
