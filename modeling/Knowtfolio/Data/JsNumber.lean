import Mathlib.Algebra.Order.Floor.Ring
import Mathlib.Data.Int.Log
import Mathlib.Data.Rat.Floor

/-!
# Numbers of JavaScript

The numbers are those of 64 bits, with a significand of 53 of them: a result is the number
nearest to it, or an infinity (`ofRat`). A text is read as a number (`stringToNumber`) if it
is a decimal or an integer in another base, whatever white space is around it; what is none is
`nan`. Of the two zeros there is only one here.
-/

/-- A number, the two zeros being one. -/
inductive JsNumber
  | nan
  | infinity (negative : Bool)
  | finite (q : ℚ)
  deriving DecidableEq

namespace JsNumber

/-- The nearest integer, the even one if there are two. -/
def roundEven (q : ℚ) : ℤ :=
  if q - ⌊q⌋ < 1 / 2 ∨ (q - ⌊q⌋ = 1 / 2 ∧ ⌊q⌋ % 2 = 0) then ⌊q⌋ else ⌊q⌋ + 1

/-- The nearest number. -/
def ofRat (q : ℚ) : JsNumber :=
  -- Numbers of the size of `q` are this far apart.
  let ulp : ℚ := 2 ^ max (Int.log 2 |q| - 52) (-1074)
  let r := roundEven (q / ulp) * ulp
  if 2 ^ 1024 ≤ |r| then infinity (q < 0) else finite r

/-- The quotient by a number that is not `0`. -/
def div (n : JsNumber) (d : ℕ) : JsNumber :=
  match n with
  | finite q => ofRat (q / d)
  | n => n

/-- `Math.ceil`. -/
def ceil : JsNumber → JsNumber
  | finite q => finite ⌈q⌉
  | n => n

/-- Whether `n > 0`. -/
def isPositive : JsNumber → Bool
  | nan => false
  | infinity negative => !negative
  | finite q => 0 < q

/-! ## Texts -/

/-- White space and the ends of lines. -/
def isWhiteSpace (c : Char) : Bool :=
  c.toNat ∈ [9, 10, 11, 12, 13, 32, 160, 0x1680, 0x2028, 0x2029, 0x202f, 0x205f, 0x3000, 0xfeff] ||
    (0x2000 ≤ c.toNat && c.toNat ≤ 0x200a)

/-- The value of a digit, of any base up to 16. -/
def digitValue (c : Char) : Option ℕ :=
  if c.isDigit then some (c.toNat - '0'.toNat)
  else if 'a' ≤ c ∧ c ≤ 'f' then some (c.toNat - 'a'.toNat + 10)
  else if 'A' ≤ c ∧ c ≤ 'F' then some (c.toNat - 'A'.toNat + 10)
  else none

/-- The value of digits, of which there has to be one. -/
def readDigits (base : ℕ) : List Char → Option ℕ
  | [] => none
  | cs => cs.foldlM (fun n c =>
      (digitValue c).bind fun d => if d < base then some (base * n + d) else none) 0

/-- The value of an exponent, with its letter. -/
def readExponent : List Char → Option ℤ
  | [] => some 0
  | _ :: '+' :: cs => (readDigits 10 cs).map fun n => (n : ℤ)
  | _ :: '-' :: cs => (readDigits 10 cs).map fun n => -(n : ℤ)
  | _ :: cs => (readDigits 10 cs).map fun n => (n : ℤ)

/-- A decimal without a sign, or `Infinity`. -/
def readDecimal (cs : List Char) : Option JsNumber :=
  if cs = "Infinity".toList then some (infinity false)
  else
    let significand := cs.takeWhile fun c => c ≠ 'e' && c ≠ 'E'
    let exponent := cs.dropWhile fun c => c ≠ 'e' && c ≠ 'E'
    let whole := significand.takeWhile fun c => c ≠ '.'
    let fraction := (significand.dropWhile fun c => c ≠ '.').drop 1
    (readExponent exponent).bind fun e => (readDigits 10 (whole ++ fraction)).map fun n =>
      ofRat (n * 10 ^ (e - fraction.length))

/-- The number with the other sign. -/
def neg : JsNumber → JsNumber
  | nan => nan
  | infinity negative => infinity !negative
  | finite q => finite (-q)

/-- What a text without white space around it is. -/
def readNumeric : List Char → Option JsNumber
  | [] => some (finite 0)
  | '0' :: 'x' :: cs | '0' :: 'X' :: cs => (readDigits 16 cs).map fun n => ofRat n
  | '0' :: 'o' :: cs | '0' :: 'O' :: cs => (readDigits 8 cs).map fun n => ofRat n
  | '0' :: 'b' :: cs | '0' :: 'B' :: cs => (readDigits 2 cs).map fun n => ofRat n
  | '+' :: cs => readDecimal cs
  | '-' :: cs => (readDecimal cs).map neg
  | cs => readDecimal cs

/-- The number that a text is. -/
def stringToNumber (s : String) : JsNumber :=
  (readNumeric ((s.toList.dropWhile isWhiteSpace).reverse.dropWhile isWhiteSpace).reverse).getD nan

/-- `Number` of a text, or of `null`. -/
def ofText : Option String → JsNumber
  | some s => stringToNumber s
  | none => finite 0

end JsNumber
