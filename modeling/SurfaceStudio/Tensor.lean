/-!
Arrays of any number of dimensions, and the stretching of two arrays to one shape: shapes are
aligned at their last dimensions, and a dimension of one, or one that is missing, is repeated.
-/

namespace SurfaceStudio

/-- An array: the lengths of its dimensions and the entry at each list of indices. -/
structure Tensor (α : Type) where
  shape : List Nat
  entry : List Nat → α

namespace Tensor

variable {α β γ : Type}

/-- The lists of indices of a shape, the last index running fastest. -/
def indices : List Nat → List (List Nat)
  | [] => [[]]
  | n :: dims => (List.range n).flatMap fun i => (indices dims).map (i :: ·)

/-- The entries in the order of their indices. -/
def entries (t : Tensor α) : List α := (indices t.shape).map t.entry

/-- The number of entries of a shape. -/
def size (dims : List Nat) : Nat := dims.foldl (· * ·) 1

/-- The place of a list of indices among the entries. -/
def offset : List Nat → List Nat → Nat
  | _ :: dims, i :: is => i * size dims + offset dims is
  | _, _ => 0

/-- The array of a shape with the given entries; `default` stands for entries that are missing. -/
def ofEntries (shape : List Nat) (entries : Array α) (default : α) : Tensor α where
  shape := shape
  entry := fun is => entries.getD (offset shape is) default

/-- The array of one dimension with the entries of a list. -/
def ofList (default : α) (entries : List α) : Tensor α :=
  .ofEntries [entries.length] entries.toArray default

/-- An array without dimensions: a single number. -/
def scalar (x : α) : Tensor α := ⟨[], fun _ => x⟩

/-- An array with each entry changed. -/
def map (f : α → β) (t : Tensor α) : Tensor β := ⟨t.shape, fun is => f (t.entry is)⟩

/-- The length that two lengths of a dimension are stretched to. -/
def stretch (m n : Nat) : Option Nat :=
  if m = n then some m else if m = 1 then some n else if n = 1 then some m else none

/-- The shape that two shapes are stretched to, all three with the last dimension first. -/
def commonReversed : List Nat → List Nat → Option (List Nat)
  | [], ns => some ns
  | ms, [] => some ms
  | m :: ms, n :: ns => do return (← stretch m n) :: (← commonReversed ms ns)

/-- The shape that two shapes are stretched to. -/
def commonShape (a b : List Nat) : Option (List Nat) :=
  (commonReversed a.reverse b.reverse).map List.reverse

/-- The indices of an array of shape `shape` for the indices of a stretched one: leading indices
that the array lacks are dropped, and a dimension of one has the index 0. -/
def aligned (shape : List Nat) (is : List Nat) : List Nat :=
  List.zipWith (fun n i => if n = 1 then 0 else i) shape (is.drop (is.length - shape.length))

/-- Two entries of an array of shape `shape` stand for the two halves of what it is stretched to
along with an array of shape `other`, which has more than one entry and is the same in both
halves. -/
def areHalves (other shape : List Nat) : Bool :=
  let inside := (shape.reverse.takeWhile (· == 1)).length
  size shape == 2 && size other != 1 && (other.reverse.drop inside).all (· == 1)

/-- Whether an array of shape `shape`, stretched along with one of shape `other`, is gone through in
runs that meet one entry each. Runs are made long, and where a run meets several entries all of them
count as its own; only halves are too few to be joined. Arrays of one shape are not stretched, and
against a single number an array is gone through as it is. -/
def repeats (other shape : List Nat) : Bool :=
  shape.isEmpty ||
    (!other.isEmpty && other != shape && (size shape == 1 || areHalves other shape))

/-- The entries of two arrays combined after stretching; none if the shapes do not match. -/
def zipWith (f : α → β → γ) (a : Tensor α) (b : Tensor β) : Option (Tensor γ) :=
  (commonShape a.shape b.shape).map fun shape =>
    ⟨shape, fun is => f (a.entry (aligned a.shape is)) (b.entry (aligned b.shape is))⟩

/-- An array stretched to a shape; none if it does not match. -/
def stretchTo (shape : List Nat) (t : Tensor α) : Option (Tensor α) :=
  if commonShape t.shape shape = some shape then
    some ⟨shape, fun is => t.entry (aligned t.shape is)⟩
  else none

end Tensor

end SurfaceStudio
