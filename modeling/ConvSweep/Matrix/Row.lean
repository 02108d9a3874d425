import ConvSweep.Buffer

/-!
# Row operations

The inner loops of the multiplies and of the direct convolution: a scaled row, a
row plus a multiple of another, and a sum of products.  Products are added one at
a time from the left, which fixes the result where addition is not associative.
-/

namespace ConvSweep

variable {α : Type} [Zero α] [One α] [Add α] [Mul α] [BEq α]

/-- `acc + x₀ * y₀ + x₁ * y₁ + …`, as far as both lists go. -/
def dotFrom (acc : α) : List α → List α → α
  | x :: xs, y :: ys => dotFrom (acc + x * y) xs ys
  | _, _ => acc

namespace BufferM

variable {n : Nat}

/-- Every element times `beta`; a zero `beta` clears the buffer whatever it holds. -/
def scale (beta : α) : BufferM α n Unit :=
  if beta == 0 then fill 0
  else if beta == 1 then pure ()
  else transform (· * beta)

/-- Adds `a * x` to the element at each position of `xs`. -/
def addScaled (a : α) (xs : Array α) : BufferM α n Unit := fun v =>
  .ok () (v.mapIdx fun i y =>
    match xs[i]? with
    | some x => y + a * x
    | none => y)

end BufferM
end ConvSweep
