import SurfaceStudio.Reading
/-!
Truncated Fourier series: their terms, their value at an angle, and the series that fits samples
spread evenly over one period.
-/

namespace SurfaceStudio.Fourier

/-- A truncated Fourier series. Harmonic `k` has its coefficients at place `k - 1` of the two lists,
and half of `constant` is the mean. -/
structure Series (α : Type) where
  constant : α
  cosines : List α
  sines : List α
  deriving Repr

/-- The function that a coefficient multiplies. -/
inductive Wave where
  | cosine (k : Nat)
  | sine (k : Nat)
  deriving Repr, DecidableEq

variable {α : Type} [Scalar α]

/-- The value of a wave at an angle. -/
def Wave.value (t : α) : Wave → α
  | .cosine k => Scalar.cos (Scalar.natural k * t)
  | .sine k => Scalar.sin (Scalar.natural k * t)

/-- The waves of harmonic `k` and of those after it with their coefficients; the longer of the two
lists is cut to the length of the other. -/
def harmonics (k : Nat) : List α → List α → List (α × Wave)
  | a :: as, b :: bs => (a, .cosine k) :: (b, .sine k) :: harmonics (k + 1) as bs
  | _, _ => []

namespace Series

/-- The number of harmonics. -/
def order (s : Series α) : Nat := s.cosines.length

/-- The mean of a series. -/
def mean (s : Series α) : α := Scalar.half s.constant

/-- The waves of a series with their coefficients, by rising frequency. -/
def waves (s : Series α) : List (α × Wave) := harmonics 1 s.cosines s.sines

/-- The value of a series at an angle. -/
def value (s : Series α) (t : α) : α :=
  s.waves.foldl (fun sum w => sum + w.1 * w.2.value t) s.mean

/-- The angle of place `i` among `count` places over one period. -/
def angle (i count : Nat) : α :=
  Scalar.period * Scalar.natural i / Scalar.natural count

/-- Goes on with eight running sums, each of which takes every eighth number. In the end they are
joined in pairs, and the numbers that make no row of eight are added one by one. -/
def sumRows (r₀ r₁ r₂ r₃ r₄ r₅ r₆ r₇ : α) : List α → α
  | x₀ :: x₁ :: x₂ :: x₃ :: x₄ :: x₅ :: x₆ :: x₇ :: xs =>
    sumRows (r₀ + x₀) (r₁ + x₁) (r₂ + x₂) (r₃ + x₃) (r₄ + x₄) (r₅ + x₅) (r₆ + x₆) (r₇ + x₇) xs
  | xs => xs.foldl (· + ·) (((r₀ + r₁) + (r₂ + r₃)) + ((r₄ + r₅) + (r₆ + r₇)))

/-- The sum of a block of numbers, by eight running sums unless there are fewer than eight. -/
def sumBlock : List α → α
  | x₀ :: x₁ :: x₂ :: x₃ :: x₄ :: x₅ :: x₆ :: x₇ :: xs => sumRows x₀ x₁ x₂ x₃ x₄ x₅ x₆ x₇ xs
  | xs => xs.foldl (· + ·) Scalar.zero

/-- The sum of some numbers. More than a block are divided into two parts, the first of them in full
rows, which are summed up apart. -/
def sumPairwise (xs : List α) : α :=
  if _h : xs.length ≤ Settings.sumBlockSize then sumBlock xs
  else
    let middle := xs.length / 2 - xs.length / 2 % 8
    sumPairwise (xs.take middle) + sumPairwise (xs.drop middle)
termination_by xs.length
decreasing_by all_goals
  simp only [List.length_take, List.length_drop, Settings.sumBlockSize] at *
  omega

/-- The sum of some numbers, added to zero. -/
def sum (xs : List α) : α := Scalar.zero + sumPairwise xs

/-- The coefficient of a wave for samples at the angles of their places: twice the mean of the
products. A product of matrices may add them up in an order of its own. Here they are added up like
any numbers, and what is proved of coefficients holds for every order. -/
def coefficient (samples : List α) (w : Wave) : α :=
  let count := samples.length
  Scalar.natural 2 / Scalar.natural count *
    sum (samples.mapIdx fun i x => w.value (angle i count) * x)

/-- The series with `order` harmonics that fits samples; without samples there is none. -/
def ofSamples (samples : List α) (order : Nat) : Except Fault (Series α) :=
  if samples.isEmpty then .error .noSamples
  else .ok {
    constant := Scalar.natural 2 / Scalar.natural samples.length * sum samples
    cosines := (List.range order).map fun k => coefficient samples (.cosine (k + 1))
    sines := (List.range order).map fun k => coefficient samples (.sine (k + 1)) }

/-- The coefficients of the harmonics of a submitted series, read as far as both lists go. -/
def readHarmonics : List Json → List Json → Except Fault (List (Float × Float))
  | a :: as, b :: bs => do
    let x ← a.double
    let y ← b.double
    return (x, y) :: (← readHarmonics as bs)
  | _, _ => .ok []

/-- A submitted series. -/
def ofSubmitted (constant : Json) (cosines sines : List Json) : Except Fault (Series Float) := do
  let c ← constant.double
  let hs ← readHarmonics cosines sines
  return ⟨c, hs.map (·.1), hs.map (·.2)⟩

end Series

end SurfaceStudio.Fourier
