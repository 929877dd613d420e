import SurfaceStudio.Proofs.Decimal.Numerals
import SurfaceStudio.Proofs.Grid.Covering
/-!
# Which grids are accepted

What is asked of a grid is stated on the values that were submitted: exact numbers for the bounds,
integers for the steps. A grid that meets all of it is accepted as it was submitted, any other is
refused for the first condition that it violates. Only an integer that is too large to have a double
comes in between: it is a fault, unless a bound before it is no finite number.
-/

namespace SurfaceStudio.Grid

open Decimal

/-! ## The conditions -/

/-- The exact number that a submitted bound is; none for what is no finite number. A flag counts as
zero or one. -/
def number? : Json → Option ℚ
  | .bool b => some (if b then 1 else 0)
  | .int n => some n
  | .float x => if x.isFinite then some (value x) else none
  | _ => none

/-- The submitted bounds are finite numbers, and the first is below the second. -/
def Less (v w : Json) : Prop := ∃ p q, number? v = some p ∧ number? w = some q ∧ p < q

/-- The submitted number of steps is an integer of at least four. -/
def IsSteps (v : Json) : Prop := ∃ n : ℤ, v = .int n ∧ 4 ≤ n

/-- The place of a condition in the order in which they are looked at. -/
def Violation.place : Violation → ℕ
  | .boundsNotFinite => 0
  | .boundsNotOrdered => 1
  | .uSteps => 2
  | .vSteps => 3
  | .tooDense => 4

namespace Request

/-- The submitted bounds in the order in which they are looked at. -/
def bounds (r : Request) : List Json := [r.uMin, r.uMax, r.vMin, r.vMax]

/-- A condition is violated. -/
def Violates (r : Request) : Violation → Prop
  | .boundsNotFinite => ∃ v ∈ r.bounds, number? v = none
  | .boundsNotOrdered => ¬ (Less r.uMin r.uMax ∧ Less r.vMin r.vMax)
  | .uSteps => ¬ IsSteps r.uSteps
  | .vSteps => ¬ IsSteps r.vSteps
  | .tooDense => ¬ ∃ m n : ℤ, r.uSteps = .int m ∧ r.vSteps = .int n ∧ m * n ≤ 50000

/-- None of the conditions before a place is violated. -/
def MeetsBefore (r : Request) (place : ℕ) : Prop :=
  ∀ v : Violation, v.place < place → ¬ r.Violates v

/-- A condition is violated, and none of those before it is. -/
def FirstViolates (r : Request) (v : Violation) : Prop := r.Violates v ∧ r.MeetsBefore v.place

/-- A bound is an integer that is rounded to no double, and those before it are finite numbers. -/
def BeyondDoubles (r : Request) : Prop :=
  ∃ before n after, r.bounds = before ++ .int n :: after ∧ wholeLimit ≤ n.natAbs ∧
    ∀ v ∈ before, number? v ≠ none

/-- The grid has the bounds and steps that were submitted. -/
structure Describes (r : Request) (g : Grid) : Prop where
  uMin : bound? r.uMin = some g.uMin
  uMax : bound? r.uMax = some g.uMax
  vMin : bound? r.vMin = some g.vMin
  vMax : bound? r.vMax = some g.vMax
  uSteps : r.uSteps = .int g.uSteps
  vSteps : r.vSteps = .int g.vSteps

/-- What becomes of a submitted grid. -/
inductive Verdict (r : Request) : Except Trouble Grid → Prop where
  | beyond : r.BeyondDoubles → Verdict r (.error (.fault .integerBeyondDoubles))
  | violated {v : Violation} : ¬ r.BeyondDoubles → r.FirstViolates v → Verdict r (refuse v)
  | accepted {g : Grid} : ¬ r.BeyondDoubles → (∀ v, ¬ r.Violates v) → r.Describes g →
    Verdict r (.ok g)

end Request

/-! ## The order of the conditions -/

theorem Violation.place_injective : Function.Injective place := by
  intro v w h
  cases v <;> cases w <;> first | rfl | cases h

theorem Violation.message_injective : Function.Injective message := by
  intro v w h
  cases v <;> cases w <;> first | rfl | exact absurd h (by decide)

theorem refuse_injective {v w : Violation}
    (h : (refuse v : Except Trouble Grid) = refuse w) : v = w := by
  injection h with h
  injection h with h
  injection h with h
  exact Violation.message_injective h

namespace Request

variable {r : Request} {v w : Violation}

theorem MeetsBefore.next (h : r.MeetsBefore v.place) (hv : ¬ r.Violates v) :
    r.MeetsBefore (v.place + 1) := by
  intro w hw
  rcases Nat.lt_succ_iff_lt_or_eq.mp hw with hlt | heq
  · exact h w hlt
  · rw [Violation.place_injective heq]
    exact hv

/-- Of two violated conditions one comes before the other. -/
theorem FirstViolates.unique (hv : r.FirstViolates v) (hw : r.FirstViolates w) : v = w := by
  rcases lt_trichotomy v.place w.place with hlt | heq | hgt
  · exact absurd hv.1 (hw.2 v hlt)
  · exact Violation.place_injective heq
  · exact absurd hw.1 (hv.2 w hgt)

end Request

/-! ## One bound -/

/-- The exact number that was measured. -/
def MeasuredBound.number (m : MeasuredBound) : ℚ := m.units * 2 ^ (-1074 : ℤ)

/-- What becomes of a submitted bound. -/
inductive BoundVerdict (v : Json) : Except Trouble MeasuredBound → Prop where
  | beyond {n : ℤ} : v = .int n → wholeLimit ≤ n.natAbs →
    BoundVerdict v (.error (.fault .integerBeyondDoubles))
  | notFinite : number? v = none → BoundVerdict v (refuse .boundsNotFinite)
  | measured {m : MeasuredBound} : bound? v = some m.bound →
    number? v = some m.number → (∀ n, v = .int n → n.natAbs < wholeLimit) →
    BoundVerdict v (.ok m)

theorem number_integerUnits (b : Bound) (n : ℤ) : MeasuredBound.number ⟨b, integerUnits n⟩ = n := by
  rw [MeasuredBound.number, integerUnits, twoTo_eq, Int.cast_mul, Int.cast_natCast, Nat.cast_pow,
    Nat.cast_ofNat, mul_assoc, ← zpow_natCast, ← zpow_add₀ two_ne_zero]
  exact mul_one _

theorem doubleOfInteger_cases (n : ℤ) :
    (n.natAbs < wholeLimit ∧ ∃ x, Json.doubleOfInteger n = .ok x) ∨
      wholeLimit ≤ n.natAbs ∧ Json.doubleOfInteger n = .error .integerBeyondDoubles := by
  rw [← ofInteger?_eq_none_iff, ← not_le, ← ofInteger?_eq_none_iff, Json.doubleOfInteger]
  rcases ofInteger? n with _ | x
  · exact .inr ⟨rfl, rfl⟩
  · exact .inl ⟨nofun, x, rfl⟩

theorem units?_eq_none {x : Float} (h : units? x = none) : x.isFinite = false := by
  show (unpacked x).isFinite = false
  rw [units?, ofFloat_eq] at h
  generalize unpacked x = u at h ⊢
  cases u with
  | notANumber => rfl
  | infinity s => rfl
  | zero s => cases h
  | finite s m e hpos => cases h

theorem finiteBound_verdict (v : Json) : BoundVerdict v (finiteBound v) := by
  cases v with
  | bool b =>
    have hzero : Json.doubleOfInteger 0 = .ok 0 := rfl
    have hone : Json.doubleOfInteger 1 = .ok 1 := rfl
    cases b with
    | false =>
      simp only [finiteBound, bound?, measure?, hzero, Except.map, Bool.false_eq_true, if_false]
      exact .measured rfl (by rw [number_integerUnits]; rfl) (by rintro _ ⟨⟩)
    | true =>
      simp only [finiteBound, bound?, measure?, hone, Except.map, if_true]
      exact .measured rfl (by rw [number_integerUnits]; rfl) (by rintro _ ⟨⟩)
  | int n =>
    rcases doubleOfInteger_cases n with ⟨hn, x, hx⟩ | ⟨hn, hx⟩
    · simp only [finiteBound, bound?, measure?, hx, Except.map]
      refine .measured rfl (by rw [number_integerUnits]; rfl) ?_
      rintro _ ⟨⟩
      exact hn
    · simp only [finiteBound, bound?, measure?, hx, Except.map]
      exact .beyond rfl hn
  | float x =>
    rcases hx : units? x with _ | units
    · have hfinite : x.isFinite = false := units?_eq_none hx
      simp only [finiteBound, bound?, measure?, hx, Option.map_none]
      exact .notFinite (by rw [number?, hfinite]; rfl)
    · obtain ⟨hfinite, hvalue⟩ := units?_eq_some hx
      simp only [finiteBound, bound?, measure?, hx, Option.map_some]
      exact .measured rfl (by rw [number?, if_pos hfinite, hvalue]; rfl) (by rintro _ ⟨⟩)
  | null => exact .notFinite rfl
  | str s => exact .notFinite rfl
  | list items => exact .notFinite rfl
  | object members => exact .notFinite rfl

theorem finiteBound_eq_ok {v : Json} {m : MeasuredBound} (h : finiteBound v = .ok m) :
    bound? v = some m.bound ∧ number? v = some m.number ∧
      ∀ n, v = .int n → n.natAbs < wholeLimit := by
  have hverdict := finiteBound_verdict v
  rw [h] at hverdict
  cases hverdict with
  | measured hbound hnumber hsmall => exact ⟨hbound, hnumber, hsmall⟩

/-- Bounds are compared as exact numbers. -/
theorem less_iff {v w : Json} {m m' : MeasuredBound} (hv : number? v = some m.number)
    (hw : number? w = some m'.number) : Less v w ↔ m.units < m'.units := by
  have hpos : (0 : ℚ) < 2 ^ (-1074 : ℤ) := zpow_pos two_pos _
  constructor
  · rintro ⟨p, q, hp, hq, hlt⟩
    obtain rfl := Option.some.inj (hv.symm.trans hp)
    obtain rfl := Option.some.inj (hw.symm.trans hq)
    exact_mod_cast lt_of_mul_lt_mul_right hlt hpos.le
  · intro hlt
    exact ⟨_, _, hv, hw, mul_lt_mul_of_pos_right (by exact_mod_cast hlt) hpos⟩

theorem not_isSteps_of_none {v : Json} (h : steps? v = none) : ¬ IsSteps v := by
  rintro ⟨n, rfl, hn⟩
  rw [steps?, Settings.minSteps, if_pos (by exact_mod_cast hn)] at h
  cases h

theorem isSteps_of_some {v : Json} {n : ℕ} (h : steps? v = some n) : IsSteps v := by
  obtain ⟨hv, hn⟩ := steps?_eq_some h
  exact ⟨n, hv, by exact_mod_cast hn⟩

/-! ## The bounds in turn -/

/-- All bounds are measured, or there is a first one that is not. -/
theorem bounds_cases (vs : List Json) :
    (∀ v ∈ vs, ∃ m, finiteBound v = .ok m) ∨
      ∃ before v after e, vs = before ++ v :: after ∧ (∀ w ∈ before, ∃ m, finiteBound w = .ok m) ∧
        finiteBound v = .error e := by
  induction vs with
  | nil => exact .inl nofun
  | cons v vs ih =>
    rcases hv : finiteBound v with e | m
    · exact .inr ⟨[], v, vs, e, rfl, nofun, hv⟩
    · rcases ih with hall | ⟨before, w, after, e, rfl, hbefore, hw⟩
      · exact .inl (List.forall_mem_cons.mpr ⟨⟨m, hv⟩, hall⟩)
      · exact .inr ⟨v :: before, w, after, e, rfl, List.forall_mem_cons.mpr ⟨⟨m, hv⟩, hbefore⟩, hw⟩

namespace Request

variable {r : Request}

/-- The first bound that is not measured decides. -/
theorem validate_of_bound {before after : List Json} {v : Json} {e : Trouble}
    (hr : r.bounds = before ++ v :: after) (hbefore : ∀ w ∈ before, ∃ m, finiteBound w = .ok m)
    (hv : finiteBound v = .error e) : validate r = .error e := by
  obtain ⟨uMin, uMax, vMin, vMax, uSteps, vSteps⟩ := r
  rw [validate]
  -- the place of the bound is one of four
  rcases before with _ | ⟨a, _ | ⟨b, _ | ⟨c, _ | ⟨d, before⟩⟩⟩⟩
  · cases hr
    rw [hv]
    rfl
  · cases hr
    simp only [List.forall_mem_cons] at hbefore
    obtain ⟨⟨_, ha⟩, -⟩ := hbefore
    rw [ha, hv]
    rfl
  · cases hr
    simp only [List.forall_mem_cons] at hbefore
    obtain ⟨⟨_, ha⟩, ⟨_, hb⟩, -⟩ := hbefore
    rw [ha, hb, hv]
    rfl
  · cases hr
    simp only [List.forall_mem_cons] at hbefore
    obtain ⟨⟨_, ha⟩, ⟨_, hb⟩, ⟨_, hc⟩, -⟩ := hbefore
    rw [ha, hb, hc, hv]
    rfl
  · have hlength := congrArg List.length hr
    simp [bounds] at hlength

/-- Bounds that are measured are not beyond the doubles. -/
theorem lt_wholeLimit_of_measured {vs : List Json} {n : ℤ}
    (h : ∀ v ∈ vs, ∃ m, finiteBound v = .ok m) (hn : .int n ∈ vs) : n.natAbs < wholeLimit := by
  obtain ⟨m, hm⟩ := h _ hn
  exact (finiteBound_eq_ok hm).2.2 n rfl

theorem number?_ne_none_of_measured {vs : List Json} (h : ∀ v ∈ vs, ∃ m, finiteBound v = .ok m) :
    ∀ v ∈ vs, number? v ≠ none := by
  intro v hv
  obtain ⟨m, hm⟩ := h v hv
  rw [(finiteBound_eq_ok hm).2.1]
  exact Option.some_ne_none _

/-- Behind a bound that is no finite number it does not matter what is beyond the doubles. -/
theorem not_beyondDoubles_of_notFinite {before after : List Json} {v : Json}
    (hr : r.bounds = before ++ v :: after) (hbefore : ∀ w ∈ before, ∃ m, finiteBound w = .ok m)
    (hv : number? v = none) : ¬ r.BeyondDoubles := by
  rintro ⟨before', n, after', hr', hn, hbefore'⟩
  -- the integer stands before the bound, behind it, or in its place
  rcases List.append_eq_append_iff.mp (hr.symm.trans hr') with
    ⟨cs, hcs, htail⟩ | ⟨cs, hcs, htail⟩
  · rcases cs with _ | ⟨c, cs⟩
    · obtain ⟨rfl, -⟩ := List.cons.inj htail
      cases hv
    · obtain ⟨rfl, -⟩ := List.cons.inj htail
      exact hbefore' v (by rw [hcs]; simp) hv
  · rcases cs with _ | ⟨c, cs⟩
    · obtain ⟨rfl, -⟩ := List.cons.inj htail
      cases hv
    · obtain ⟨rfl, -⟩ := List.cons.inj htail
      exact absurd hn (not_le.mpr (lt_wholeLimit_of_measured hbefore (by rw [hcs]; simp)))

/-! ## The verdict -/

/-- With steps that are integers, the last condition is on their product. -/
theorem violates_tooDense_iff {m n : ℕ} (hm : r.uSteps = .int m) (hn : r.vSteps = .int n) :
    r.Violates .tooDense ↔ 50000 < m * n := by
  rw [Violates, ← not_le, not_iff_not]
  constructor
  · rintro ⟨m', n', hm', hn', hle⟩
    cases hm.symm.trans hm'
    cases hn.symm.trans hn'
    exact_mod_cast hle
  · intro hle
    exact ⟨m, n, hm, hn, by exact_mod_cast hle⟩

/-- Once the bounds are measured, the other conditions are looked at in their order. -/
theorem verdict_of_measured (h : ∀ v ∈ r.bounds, ∃ m, finiteBound v = .ok m) :
    Verdict r (validate r) := by
  have hwithin : ¬ r.BeyondDoubles := by
    rintro ⟨before, n, after, hr, hn, -⟩
    exact absurd hn (not_le.mpr (lt_wholeLimit_of_measured h (by rw [hr]; simp)))
  have hfinite : ¬ r.Violates .boundsNotFinite := by
    rintro ⟨v, hv, hnone⟩
    exact number?_ne_none_of_measured h v hv hnone
  have hmeets : r.MeetsBefore Violation.boundsNotOrdered.place :=
    MeetsBefore.next (v := .boundsNotFinite) nofun hfinite
  simp only [bounds, List.forall_mem_cons] at h
  obtain ⟨⟨uMin, huMin⟩, ⟨uMax, huMax⟩, ⟨vMin, hvMin⟩, ⟨vMax, hvMax⟩, -⟩ := h
  obtain ⟨ha, ha', -⟩ := finiteBound_eq_ok huMin
  obtain ⟨hb, hb', -⟩ := finiteBound_eq_ok huMax
  obtain ⟨hc, hc', -⟩ := finiteBound_eq_ok hvMin
  obtain ⟨hd, hd', -⟩ := finiteBound_eq_ok hvMax
  have hordered : r.Violates .boundsNotOrdered ↔
      uMax.units ≤ uMin.units ∨ vMax.units ≤ vMin.units := by
    rw [Violates, less_iff ha' hb', less_iff hc' hd', not_and_or, not_lt, not_lt]
  simp only [validate, huMin, huMax, hvMin, hvMax, bind, Except.bind]
  by_cases hle : uMax.units ≤ uMin.units ∨ vMax.units ≤ vMin.units
  · rw [if_pos (by simpa using hle)]
    exact .violated hwithin ⟨hordered.mpr hle, hmeets⟩
  have hmeets : r.MeetsBefore Violation.uSteps.place := hmeets.next (mt hordered.mp hle)
  rw [if_neg (by simpa using hle)]
  rcases hu : steps? r.uSteps with _ | m
  · exact .violated hwithin ⟨not_isSteps_of_none hu, hmeets⟩
  have hmeets : r.MeetsBefore Violation.vSteps.place :=
    hmeets.next (not_not_intro (isSteps_of_some hu))
  rcases hv : steps? r.vSteps with _ | n
  · exact .violated hwithin ⟨not_isSteps_of_none hv, hmeets⟩
  have hmeets : r.MeetsBefore Violation.tooDense.place :=
    hmeets.next (not_not_intro (isSteps_of_some hv))
  obtain ⟨hm, -⟩ := steps?_eq_some hu
  obtain ⟨hn, -⟩ := steps?_eq_some hv
  have hdense := violates_tooDense_iff hm hn
  by_cases hcells : Settings.maxGridCells < m * n
  · simp only [if_pos hcells]
    exact .violated hwithin ⟨hdense.mpr hcells, hmeets⟩
  have hmeets : r.MeetsBefore 5 := hmeets.next (mt hdense.mp hcells)
  simp only [if_neg hcells]
  refine .accepted hwithin (fun w => hmeets w ?_) ⟨ha, hb, hc, hd, hm, hn⟩
  cases w <;> decide

theorem validate_verdict (r : Request) : Verdict r (validate r) := by
  rcases bounds_cases r.bounds with hall | ⟨before, v, after, e, hr, hbefore, hv⟩
  · exact verdict_of_measured hall
  · rw [validate_of_bound hr hbefore hv]
    have hverdict := finiteBound_verdict v
    rw [hv] at hverdict
    generalize hx : (Except.error e : Except Trouble MeasuredBound) = x at hverdict
    cases hverdict with
    | beyond hn hlimit =>
      cases hx
      exact .beyond ⟨before, _, after, hn ▸ hr, hlimit, number?_ne_none_of_measured hbefore⟩
    | notFinite hnone =>
      cases hx
      refine .violated (not_beyondDoubles_of_notFinite hr hbefore hnone) ⟨⟨v, ?_, hnone⟩, nofun⟩
      rw [hr]
      exact List.mem_append_right _ List.mem_cons_self
    | measured => cases hx

/-- A submitted grid has one description as a grid. -/
theorem Describes.unique {g g' : Grid} (h : r.Describes g) (h' : r.Describes g') : g = g' := by
  obtain ⟨ha, hb, hc, hd, hm, hn⟩ := h
  obtain ⟨ha', hb', hc', hd', hm', hn'⟩ := h'
  obtain ⟨uMin, uMax, vMin, vMax, m, n⟩ := g
  cases ha.symm.trans ha'
  cases hb.symm.trans hb'
  cases hc.symm.trans hc'
  cases hd.symm.trans hd'
  cases hm.symm.trans hm'
  cases hn.symm.trans hn'
  rfl

end Request

/-- A submitted grid is accepted as it is exactly if no condition is violated, and refused exactly
for the first one that is; there is nothing else, unless a bound is beyond the doubles. -/
theorem validate_decides (r : Request) :
    ((∃ g, validate r = .ok g) ∨ (∃ v, validate r = refuse v) ∨
      validate r = .error (.fault .integerBeyondDoubles)) ∧
    ((∃ g, validate r = .ok g) ↔ ¬ r.BeyondDoubles ∧ ∀ v, ¬ r.Violates v) ∧
    (∀ g, validate r = .ok g → r.Describes g) ∧
    (∀ v, validate r = refuse v ↔ ¬ r.BeyondDoubles ∧ r.FirstViolates v) ∧
    (validate r = .error (.fault .integerBeyondDoubles) ↔ r.BeyondDoubles) := by
  have hverdict := r.validate_verdict
  generalize validate r = x at hverdict ⊢
  cases hverdict with
  | beyond hbeyond =>
    exact ⟨.inr (.inr rfl), ⟨nofun, fun h => absurd hbeyond h.1⟩, nofun,
      fun v => ⟨nofun, fun h => absurd hbeyond h.1⟩, fun _ => hbeyond, fun _ => rfl⟩
  | violated hwithin hfirst =>
    refine ⟨.inr (.inl ⟨_, rfl⟩), ⟨nofun, fun h => absurd hfirst.1 (h.2 _)⟩, nofun, fun v => ?_,
      nofun, fun h => absurd h hwithin⟩
    constructor
    · intro h
      rw [← refuse_injective h]
      exact ⟨hwithin, hfirst⟩
    · rintro ⟨-, h⟩
      rw [hfirst.unique h]
  | accepted hwithin hmeets hg =>
    refine ⟨.inl ⟨_, rfl⟩, ⟨fun _ => ⟨hwithin, hmeets⟩, fun _ => ⟨_, rfl⟩⟩, ?_,
      fun v => ⟨nofun, fun h => absurd h.2.1 (hmeets v)⟩, nofun, fun h => absurd h hwithin⟩
    rintro _ ⟨⟩
    exact hg

/-- A large integer is a fault even if another bound is no number at all, for which the grid had to
be refused. -/
theorem validate_large_integer :
    let r : Request :=
      ⟨.int (10 ^ 309), .float (0 / 0), .int 0, .int 1, .int 4, .int 4⟩
    r.FirstViolates .boundsNotFinite ∧ validate r ≠ refuse .boundsNotFinite ∧
      ¬ ((∃ g, validate r = .ok g) ∨ ∃ v, validate r = refuse v) := by
  intro r
  have hlimit : wholeLimit ≤ (10 ^ 309 : ℤ).natAbs := by decide +kernel
  have hbound : finiteBound (.int (10 ^ 309)) = .error (.fault .integerBeyondDoubles) := by
    rcases doubleOfInteger_cases (10 ^ 309) with ⟨hlt, -⟩ | ⟨-, hx⟩
    · exact absurd hlimit (not_le.mpr hlt)
    · simp only [finiteBound, bound?, measure?, hx, Except.map]
  have hfault : validate r = .error (.fault .integerBeyondDoubles) := by
    have hbounds : r.bounds = [] ++ .int (10 ^ 309) :: [.float (0 / 0), .int 0, .int 1] := rfl
    exact Request.validate_of_bound hbounds (List.forall_mem_nil _) hbound
  rw [hfault]
  refine ⟨⟨⟨.float (0 / 0), ?_, rfl⟩, fun v hv => absurd hv (Nat.not_lt_zero _)⟩, ?_, ?_⟩
  · exact List.mem_cons_of_mem _ List.mem_cons_self
  · rintro ⟨⟩
  · rintro (⟨g, hg⟩ | ⟨v, hv⟩)
    · cases hg
    · cases hv

end SurfaceStudio.Grid
