/-
Module: PrimeSearch.Prime.Test
Purpose: Deciding whether a single number is prime.
Main exports: trialDivision, powMod, strongProbable, isPrime
-/

namespace PrimeSearch

/-!
Numbers below a million are divided by two, three and everything of the form `6k ± 1` up
to the square root.  Larger ones are tested against a fixed set of bases, which no
composite below `3.3 * 10 ^ 24` passes.
-/

/-- Numbers below this are decided by trial division. -/
def trialLimit : Nat := 1000000

/-- Bases of the test for large numbers. -/
def testBases : List Nat := [2, 3, 5, 7, 11, 13, 17, 19, 23, 29, 31, 37, 41]

/-- Whether no number `i`, `i + 2`, `i + 6`, `i + 8`, … up to the square root divides
`n`.  The fuel bounds the number of steps; `n` steps are more than enough. -/
def noDivisorFrom (n : Nat) : Nat → Nat → Bool
  | 0, _ => true
  | fuel + 1, i =>
      if i * i ≤ n then
        if n % i = 0 ∨ n % (i + 2) = 0 then false else noDivisorFrom n fuel (i + 6)
      else true

/-- Primality of a number from two on by trial division. -/
def trialDivision (n : Nat) : Bool :=
  if n % 2 = 0 then n == 2
  else if n % 3 = 0 then n == 3
  else noDivisorFrom n n 5

/-- `acc * base ^ exponent % m` by repeated squaring; the fuel is the number of binary
digits of the exponent. -/
def powModLoop (m : Nat) : Nat → Nat → Nat → Nat → Nat
  | 0, acc, _, _ => acc % m
  | fuel + 1, acc, base, exponent =>
      powModLoop m fuel (if exponent % 2 = 1 then acc * base % m else acc)
        (base * base % m) (exponent / 2)

/-- `base ^ exponent % m`. -/
def powMod (base exponent m : Nat) : Nat :=
  powModLoop m (exponent.log2 + 1) 1 (base % m) exponent

/-- Take factors of two out of a number: what is left, and how many there were. -/
def splitTwos : Nat → Nat → Nat → Nat × Nat
  | 0, d, s => (d, s)
  | fuel + 1, d, s => if d % 2 = 0 then splitTwos fuel (d / 2) (s + 1) else (d, s)

/-- Whether squaring a residue up to `count` times meets `-1`. -/
def squaresToMinusOne (n : Nat) : Nat → Nat → Bool
  | 0, _ => false
  | count + 1, x =>
      let y := x * x % n
      if y = n - 1 then true else squaresToMinusOne n count y

/-- Whether `n = d * 2 ^ s + 1` is a strong probable prime to a base.  A multiple of `n`
says nothing as a base. -/
def strongProbable (n d s base : Nat) : Bool :=
  if base % n = 0 then true
  else
    let x := powMod base d n
    if x = 1 ∨ x = n - 1 then true else squaresToMinusOne n (s - 1) x

/-- Whether a number passes the strong test for every base. -/
def passesTests (n : Nat) : Bool :=
  let (d, s) := splitTwos n.log2 (n - 1) 0
  testBases.all (strongProbable n d s)

/-- Primality of a natural number. -/
def isPrimeNat (n : Nat) : Bool :=
  if n < 2 then false
  else if n < 4 then true
  else if n < trialLimit then trialDivision n
  else
    match testBases.find? (n % · = 0) with
    | some p => n == p
    | none => passesTests n

/-- Primality of an integer. -/
def isPrime (n : Int) : Bool := if n < 2 then false else isPrimeNat n.toNat

end PrimeSearch
