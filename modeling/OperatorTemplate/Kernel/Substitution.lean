import OperatorTemplate.Kernel
/-!
# Substitution in kernels

A replacement is asked at every node, from the root downwards, before the node's operands.  Where
it answers, its answer stands for the whole node and is not searched again; elsewhere the node is
put together anew from its operands by the folding constructors.

A replacement may keep a state (for instance count its questions), so it lives in a monad.
-/

namespace OperatorTemplate.KernelOver

variable {ι : Type} {m : Type → Type} [Monad m]

mutual
/-- `k` with every outermost node replaced for which `replace` has an answer. -/
def substituteM (replace : KernelOver ι → m (Option (KernelOver ι))) :
    KernelOver ι → m (KernelOver ι)
  | .component s i => orElse replace (.component s i) (pure (.component s i))
  | .normal a => orElse replace (.normal a) (pure (.normal a))
  | .constant v => orElse replace (.constant v) (pure (.constant v))
  | .parameter n => orElse replace (.parameter n) (pure (.parameter n))
  | .sum ks => orElse replace (.sum ks) do
    return sumOf (← substituteAllM replace ks)
  | .product ks => orElse replace (.product ks) do
    return productOf (← substituteAllM replace ks)
  | .quotient a b => orElse replace (.quotient a b) do
    return quotientOf (← substituteM replace a) (← substituteM replace b)
  | .power a b => orElse replace (.power a b) do
    return .power (← substituteM replace a) (← substituteM replace b)
  | .comparison a r b => orElse replace (.comparison a r b) do
    return .comparison (← substituteM replace a) r (← substituteM replace b)
  | .conditional c a b => orElse replace (.conditional c a b) do
    return conditionalOf (← substituteM replace c) (← substituteM replace a)
      (← substituteM replace b)
  | .call f ks => orElse replace (.call f ks) do
    return .call f (← substituteAllM replace ks)
where
  /-- The answer for `k`, or else `rebuilt`. -/
  orElse (replace : KernelOver ι → m (Option (KernelOver ι))) (k : KernelOver ι)
      (rebuilt : m (KernelOver ι)) : m (KernelOver ι) := do
    match ← replace k with
    | some answer => return answer
    | none => rebuilt

/-- Substitutes in several kernels, from left to right. -/
def substituteAllM (replace : KernelOver ι → m (Option (KernelOver ι))) :
    List (KernelOver ι) → m (List (KernelOver ι))
  | [] => pure []
  | k :: ks => do
    let k' ← substituteM replace k
    let ks' ← substituteAllM replace ks
    return k' :: ks'
end

/-- Substitution by a function. -/
def substitute (replace : KernelOver ι → Option (KernelOver ι)) (k : KernelOver ι) :
    KernelOver ι :=
  Id.run (substituteM replace k)

end OperatorTemplate.KernelOver
