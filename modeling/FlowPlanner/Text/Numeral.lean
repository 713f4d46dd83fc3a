/-
FlowPlanner.Text.Numeral — whole numbers in text.

Reading takes digits of one base and nothing else (`digits?`); a signed form,
an upper limit and the bases are the business of the formats that use it.
-/

namespace FlowPlanner.Text

/-- The value of a digit in a base up to sixteen, letters in either case. -/
def digit? (base : Nat) (c : Char) : Option Nat :=
  let v :=
    if '0' ≤ c ∧ c ≤ '9' then c.toNat - '0'.toNat
    else if 'a' ≤ c ∧ c ≤ 'f' then c.toNat - 'a'.toNat + 10
    else if 'A' ≤ c ∧ c ≤ 'F' then c.toNat - 'A'.toNat + 10
    else base
  if v < base then some v else none

/-- One decimal digit, zero to nine, of ASCII. -/
def isDecimal (c : Char) : Bool := '0' ≤ c && c ≤ '9'

/-- The number that a run of digits spells, continuing from `acc`. -/
def digitsFrom? (base : Nat) : Nat → List Char → Option Nat
  | acc, [] => some acc
  | acc, c :: cs =>
    match digit? base c with
    | some d => digitsFrom? base (acc * base + d) cs
    | none => none

/-- The number that a non-empty run of digits spells. -/
def digits? (base : Nat) : List Char → Option Nat
  | [] => none
  | cs => digitsFrom? base 0 cs

/-- A whole number below `limit`: an optional plus sign and decimal digits, without blanks. -/
def unsigned? (limit : Nat) (s : String) : Option Nat :=
  let body := match s.toList with
    | '+' :: cs => cs
    | cs => cs
  match digits? 10 body with
  | some n => if n < limit then some n else none
  | none => none

/-- The first number that does not fit into 32 bits. -/
def limit32 : Nat := Nat.pow 2 32

/-- The first number that does not fit into 64 bits. -/
def limit64 : Nat := Nat.pow 2 64

/-- Numbers between square brackets, with `separator` between neighbours. -/
def bracketed (separator : String) (ns : List Nat) : String :=
  "[" ++ separator.intercalate (ns.map fun n => toString n) ++ "]"

end FlowPlanner.Text
