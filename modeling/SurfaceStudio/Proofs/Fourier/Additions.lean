import SurfaceStudio.Fourier.Series
import SurfaceStudio.Proofs.Decimal.Arithmetic
import Mathlib.Algebra.BigOperators.Group.Multiset.Basic
import Mathlib.Tactic.Abel
/-!
# Sums in any order

Numbers are summed up in an order of their own: in blocks, and in these by eight running sums. Doubles
make a difference between the orders, and yet what is needed of a sum holds for all of them.
`AddsUp` is what they have in common: every number is taken once.
-/

namespace SurfaceStudio.Fourier

variable {α : Type} [Scalar α]

/-- A number comes of some numbers by additions, each of them taken once, in any order and grouping
and with any zeros among them. -/
inductive AddsUp : Multiset α → α → Prop
  | zero : AddsUp 0 Scalar.zero
  | one (x : α) : AddsUp {x} x
  | add {xs ys : Multiset α} {x y : α} : AddsUp xs x → AddsUp ys y → AddsUp (xs + ys) (x + y)

theorem AddsUp.foldl {xs : Multiset α} {x : α} (h : AddsUp xs x) (ys : List α) :
    AddsUp (xs + (ys : Multiset α)) (ys.foldl (· + ·) x) := by
  induction ys generalizing xs x with
  | nil => simpa using h
  | cons y ys ih =>
    rw [← Multiset.cons_coe, ← Multiset.singleton_add, ← add_assoc]
    exact ih (h.add (.one y))

/-- Eight running sums add up what each of them has added up, and the numbers that are to come. By
induction on the rows of these. -/
theorem Series.addsUp_sumRows {s₀ s₁ s₂ s₃ s₄ s₅ s₆ s₇ : Multiset α}
    {r₀ r₁ r₂ r₃ r₄ r₅ r₆ r₇ : α} (xs : List α) (h₀ : AddsUp s₀ r₀) (h₁ : AddsUp s₁ r₁)
    (h₂ : AddsUp s₂ r₂) (h₃ : AddsUp s₃ r₃) (h₄ : AddsUp s₄ r₄) (h₅ : AddsUp s₅ r₅)
    (h₆ : AddsUp s₆ r₆) (h₇ : AddsUp s₇ r₇) :
    AddsUp (s₀ + s₁ + (s₂ + s₃) + (s₄ + s₅ + (s₆ + s₇)) + (xs : Multiset α))
      (sumRows r₀ r₁ r₂ r₃ r₄ r₅ r₆ r₇ xs) := by
  fun_induction sumRows r₀ r₁ r₂ r₃ r₄ r₅ r₆ r₇ xs generalizing s₀ s₁ s₂ s₃ s₄ s₅ s₆ s₇ with
  | case1 r₀ r₁ r₂ r₃ r₄ r₅ r₆ r₇ x₀ x₁ x₂ x₃ x₄ x₅ x₆ x₇ xs ih =>
    have hrow := ih (h₀.add (.one x₀)) (h₁.add (.one x₁)) (h₂.add (.one x₂)) (h₃.add (.one x₃))
      (h₄.add (.one x₄)) (h₅.add (.one x₅)) (h₆.add (.one x₆)) (h₇.add (.one x₇))
    convert hrow using 1
    simp only [← Multiset.cons_coe, ← Multiset.singleton_add]
    abel
  | case2 r₀ r₁ r₂ r₃ r₄ r₅ r₆ r₇ xs _ =>
    exact (((h₀.add h₁).add (h₂.add h₃)).add ((h₄.add h₅).add (h₆.add h₇))).foldl xs

theorem Series.addsUp_sumBlock (xs : List α) : AddsUp (xs : Multiset α) (sumBlock xs) := by
  fun_cases sumBlock xs with
  | case1 x₀ x₁ x₂ x₃ x₄ x₅ x₆ x₇ xs =>
    have hrows := addsUp_sumRows xs (.one x₀) (.one x₁) (.one x₂) (.one x₃) (.one x₄) (.one x₅)
      (.one x₆) (.one x₇)
    convert hrows using 1
    simp only [← Multiset.cons_coe, ← Multiset.singleton_add]
    abel
  | case2 =>
    have hfew := AddsUp.zero.foldl xs
    rwa [zero_add] at hfew

/-- By induction on the parts that the numbers are divided into. -/
theorem Series.addsUp_sumPairwise (xs : List α) : AddsUp (xs : Multiset α) (sumPairwise xs) := by
  fun_induction sumPairwise xs with
  | case1 xs _ => exact addsUp_sumBlock xs
  | case2 xs _ middle hfirst hsecond =>
    have hparts := hfirst.add hsecond
    rwa [Multiset.coe_add, List.take_append_drop] at hparts

theorem Series.addsUp_sum (xs : List α) : AddsUp (xs : Multiset α) (sum xs) := by
  have hsum := AddsUp.zero.add (addsUp_sumPairwise xs)
  rwa [zero_add] at hsum

/-- A sum of doubles is finite only if all of them are. -/
theorem AddsUp.isFinite {xs : Multiset Float} {x : Float} (h : AddsUp xs x)
    (hx : x.isFinite = true) : ∀ y ∈ xs, y.isFinite = true := by
  induction h with
  | zero => exact fun y hy => absurd hy (Multiset.notMem_zero y)
  | one x =>
    intro y hy
    rwa [Multiset.mem_singleton.mp hy]
  | add _ _ hxs hys =>
    obtain ⟨hfirst, hsecond⟩ := Decimal.isFinite_of_add hx
    intro y hy
    rcases Multiset.mem_add.mp hy with hy | hy
    · exact hxs hfirst y hy
    · exact hys hsecond y hy

end SurfaceStudio.Fourier
