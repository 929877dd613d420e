import SurfaceStudio.Formula.Compiled
/-!
# Shared exponents

Among many samples an exponent may differ from sample to sample, while for a single sample every
exponent counts as shared. The two evaluations differ in nothing but the power that they use, so
they agree wherever the two powers do. `Formula.PowersAgree` is that condition, on the powers that
come up in the value of an expression; nothing is asked of a power whose exponent is shared either
way.
-/

namespace SurfaceStudio.Formula

section

variable {α : Type} [Scalar α]

/-- The two powers agree at every step of a chain of powers. -/
def PowersAgreeAlong : α → List α → Prop
  | _, [] => True
  | a, b :: rest =>
    Scalar.pow a b = Scalar.commonPow a b ∧ PowersAgreeAlong (Scalar.commonPow a b) rest

theorem PowersAgreeAlong.foldl_eq {a : α} {bs : List α} (h : PowersAgreeAlong a bs) :
    bs.foldl Scalar.pow a = bs.foldl Scalar.commonPow a := by
  induction bs generalizing a with
  | nil => rfl
  | cons b bs ih =>
    obtain ⟨hab, hbs⟩ := h
    rw [List.foldl_cons, List.foldl_cons, hab]
    exact ih hbs

mutual

/-- The two powers agree on every power in the value of an expression whose exponent is not
shared. -/
def PowersAgree (shared : Formula → Formula → Bool) (env : String → α) : Formula → Prop
  | .number _ => True
  | .variable _ => True
  | .signed _ operand => operand.PowersAgree shared env
  | .binary op left right =>
    left.PowersAgree shared env ∧ right.PowersAgree shared env ∧
      (op = .pow → shared left right = false →
        PowersAgreeAlong (left.eval env) [right.eval env])
  | .call fn first rest =>
    first.PowersAgree shared env ∧ AllPowersAgree shared env rest ∧
      (fn = .pow → rest.all (shared first) = false →
        PowersAgreeAlong (first.eval env) (rest.map (eval env)))

/-- The same for each of several expressions. -/
def AllPowersAgree (shared : Formula → Formula → Bool) (env : String → α) : List Formula → Prop
  | [] => True
  | f :: rest => f.PowersAgree shared env ∧ AllPowersAgree shared env rest

end

/-! ## The two evaluations -/

theorem evalAllSharing_eq_map (shared : Formula → Formula → Bool) (env : String → α)
    (fs : List Formula) : evalAllSharing shared env fs = fs.map (evalSharing shared env) := by
  induction fs with
  | nil => rfl
  | cons f fs ih => rw [evalAllSharing, ih, List.map_cons]

theorem eval_signed_minus (env : String → α) (f : Formula) :
    (signed .minus f).eval env = -f.eval env := rfl

theorem eval_binary (env : String → α) (op : Operation) (left right : Formula) :
    (binary op left right).eval env =
      op.apply Scalar.commonPow (left.eval env) (right.eval env) := rfl

theorem eval_call (env : String → α) (fn : Fn) (first : Formula) (rest : List Formula) :
    (call fn first rest).eval env =
      fn.apply Scalar.commonPow (first.eval env) (rest.map (eval env)) := by
  -- all exponents are shared here, so that there is one power for all arguments
  have hall : rest.all (fun _ => true) = true := List.all_eq_true.mpr fun _ _ => rfl
  rw [eval, evalSharing, evalAllSharing_eq_map, hall]
  rfl

/-- An operation uses the power only if it is one. -/
theorem Operation.apply_congr {pow pow' : α → α → α} (op : Operation) (a b : α)
    (h : op = .pow → pow a b = pow' a b) : op.apply pow a b = op.apply pow' a b := by
  cases op
  case pow => exact h rfl
  all_goals rfl

/-- A function uses the power only if it is one. -/
theorem Fn.apply_congr {pow pow' : α → α → α} (fn : Fn) (a : α) (bs : List α)
    (h : fn = .pow → bs.foldl pow a = bs.foldl pow' a) :
    fn.apply pow a bs = fn.apply pow' a bs := by
  cases fn
  case pow => exact h rfl
  all_goals rfl

theorem foldl_powerFor {shared : Bool} {a : α} {bs : List α}
    (h : shared = false → PowersAgreeAlong a bs) :
    bs.foldl (powerFor shared) a = bs.foldl Scalar.commonPow a := by
  cases shared
  · exact (h rfl).foldl_eq
  · rfl

variable {shared : Formula → Formula → Bool} {env : String → α}

mutual

/-- Where the powers agree, the value among many samples is the value of the single sample. -/
theorem evalSharing_eq_eval : ∀ f : Formula, f.PowersAgree shared env →
    f.evalSharing shared env = f.eval env
  | .number _, _ => rfl
  | .variable _, _ => rfl
  | .signed .plus operand, h => evalSharing_eq_eval operand h
  | .signed .minus operand, h => by
    rw [evalSharing, evalSharing_eq_eval operand h, eval_signed_minus]
  | .binary op left right, h => by
    obtain ⟨hleft, hright, hpow⟩ := h
    rw [evalSharing, evalSharing_eq_eval left hleft, evalSharing_eq_eval right hright, eval_binary]
    exact op.apply_congr _ _ fun hop => foldl_powerFor (hpow hop)
  | .call fn first rest, h => by
    obtain ⟨hfirst, hrest, hpow⟩ := h
    rw [evalSharing, evalSharing_eq_eval first hfirst, evalAllSharing_eq_map,
      map_evalSharing_eq_map_eval rest hrest, eval_call]
    exact fn.apply_congr _ _ fun hfn => foldl_powerFor (hpow hfn)

theorem map_evalSharing_eq_map_eval : ∀ fs : List Formula, AllPowersAgree shared env fs →
    fs.map (evalSharing shared env) = fs.map (eval env)
  | [], _ => rfl
  | f :: fs, h => by
    rw [List.map_cons, List.map_cons, evalSharing_eq_eval f h.1, map_evalSharing_eq_map_eval fs h.2]

end

end

/-! ## Powers of doubles -/

/-- No exponent but these five is treated apart. -/
theorem ownPower_eq_commonPower {b : Float}
    (h : [-1, 0, 0.5, 1, 2].all (fun c => !(b == c)) = true) (a : Float) :
    ownPower a b = commonPower a b := by
  simp only [List.all_cons, List.all_nil, Bool.and_true, Bool.and_eq_true, Bool.not_eq_true'] at h
  obtain ⟨h₁, h₂, h₃, h₄, h₅⟩ := h
  rw [commonPower, h₁, h₂, h₃, h₄, h₅]
  rfl

/-- The root of negative zero keeps its sign, and the power does not. -/
theorem ownPower_ne_commonPower : ownPower (-0.0) 0.5 ≠ commonPower (-0.0) 0.5 := by
  decide +kernel

end SurfaceStudio.Formula
