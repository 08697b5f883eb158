import Registrar.Code.Layout

/-!
# Moving instructions

`Instruction.relocate` gives the instruction that stands for an old one at its new place. Each
distance is measured anew, so that it leads to the new place of its old target.
-/

namespace Registrar.Instruction

/-- The distance from `new` to the new place of what lay `distance` from `old`. -/
def relocateDistance (layout : Layout) (old new : Nat) (distance : Int) :
    Except RelocationError Int :=
  let target := (old : Int) + distance
  if target < 0 then .error .negativeTarget
  else
    match layout.target target.toNat with
    | .ok place => .ok ((place : Int) - new)
    | .error error => .error error

/-- A distance of a switch; one that does not fit loses its high bits. -/
def relocateDistance32 (layout : Layout) (old new : Nat) (distance : Int32) :
    Except RelocationError Int32 := do
  let moved ← relocateDistance layout old new distance.toInt
  return Int32.ofInt moved

def relocate (layout : Layout) (old new : Nat) : Instruction → Except RelocationError Instruction
  | .plain opcode operands => .ok (.plain opcode operands)
  | .branch opcode distance => do
    let moved ← relocateDistance layout old new distance.toInt
    if moved < -0x8000 then throw (.distance16 false)
    else if 0x8000 ≤ moved then throw (.distance16 true)
    else return .branch opcode (Int16.ofInt moved)
  | .wideBranch opcode distance => do
    let moved ← relocateDistance layout old new distance.toInt
    if moved < -0x80000000 then throw (.distance32 false)
    else if 0x80000000 ≤ moved then throw (.distance32 true)
    else return .wideBranch opcode (Int32.ofInt moved)
  | .tableSwitch fallback low high distances => do
    let fallback ← relocateDistance32 layout old new fallback
    let distances ← distances.mapM (relocateDistance32 layout old new)
    return .tableSwitch fallback low high distances
  | .lookupSwitch fallback count cases => do
    let fallback ← relocateDistance32 layout old new fallback
    let cases ← cases.mapM fun c => do
      return (c.1, ← relocateDistance32 layout old new c.2)
    return .lookupSwitch fallback count cases

end Registrar.Instruction
