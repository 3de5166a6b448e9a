import BinomialLogit.Binary64.Elementary
import BinomialLogit.Decimal.Basic

/-! The logarithm of the binomial probability mass, with factorials up to 170 as rounded products
and beyond that through an approximation of the gamma function. -/

namespace BinomialLogit
set_option autoImplicit false

def factorial : Nat → Binary64
  | 0 => 1
  | k + 1 => factorial k * .ofNat (k + 1)

def lastFactorial : Nat := 170

/-- The coefficients of the poles in the approximation of the gamma function. -/
def gammaCoefficients : List Binary64 :=
  [1.05142378581721974210, -3.45687097222016235469, 4.51227709466894823700,
    -2.98285225323576655721, 1.05639711577126713077, -1.95428773191645869583e-1,
    1.70970543404441224307e-2, -5.71926117404305781283e-4, 4.63399473359905636708e-6,
    -2.71994908488607703910e-9]

def gammaConstant : Binary64 := 2.48574089138753565546e-5

def gammaShift : Binary64 := 10.900511

/-- The logarithm of `2 sqrt (e / pi)`. -/
def gammaScale : Binary64 := 0.6207822376352452223455184457816472122518527279025978

def naturalBase : Binary64 := 2.718281828459045

def half : Binary64 := 0.5

/-- From here on success counts as certain. -/
def certain : Binary64 := 1 - 2 * .epsilon

def impossible : Binary64 := .infinity true

namespace Elementary

/-- The logarithm of the gamma function from one half on. -/
def lnGamma (fns : Elementary Binary64) (x : Binary64) : Binary64 :=
  let series := gammaCoefficients.zipIdx 1 |>.foldl
    (fun sum (c, i) => sum + c / (x + .ofNat i - 1)) gammaConstant
  fns.ln series + gammaScale + (x - half) * fns.ln ((x - half + gammaShift) / naturalBase)

def lnFactorial (fns : Elementary Binary64) (k : Nat) : Binary64 :=
  if k ≤ lastFactorial then fns.ln (factorial k) else fns.lnGamma (.ofNat k + 1)

def lnChoose (fns : Elementary Binary64) (n k : Nat) : Binary64 :=
  fns.lnFactorial n - fns.lnFactorial k - fns.lnFactorial (n - k)

/-- The logarithm of the probability of so many successes in so many trials. -/
def lnMass (fns : Elementary Binary64) (p : Binary64) (trials successes : Nat) : Binary64 :=
  if trials < successes then impossible
  else if p.Agrees 0 then if successes = 0 then 0 else impossible
  else if certain ≤ p then if successes = trials then 0 else impossible
  else
    fns.lnChoose trials successes + .ofNat successes * fns.ln p
      + .ofNat (trials - successes) * fns.ln (1 - p)

end Elementary

end BinomialLogit
