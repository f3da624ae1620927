import NvmeVirt.Conv.Range
import NvmeVirt.Zns.Bounds
import NvmeVirt.Zns.Retry

/-!
# Commands that are answered

A handler that returns `false` is called again with the same entry on every poll. With free write
buffers that should not happen; it does for a range beyond the device and for a closed zone with a
random write area that is too small. Opcodes that are not implemented are answered with success.
-/

namespace NvmeVirt

open Checked

/-! ## Conventional namespaces -/

/-- Commands have fields of the right width. -/
def NvmeCommand.Wf : NvmeCommand → Prop
  | .write c => c.Wf
  | .read c => c.Wf
  | _ => True

namespace ZnsFtl

variable {z z' : ZnsFtl} {zid : Nat} {req : ZnsRequest} {op : ZnsWriteOp} {c c' : RwCommand}
  {cmd cmd' : ZnsCommand} {r : ZnsResult}

/-- Every buffer is entirely free. -/
def Free (z : ZnsFtl) : Prop := ∀ b, (z.buffers b).remaining = (z.buffers b).size

theorem Fresh.free {cfg : ZnsConfig} (h : z.Fresh cfg) : z.Free := by
  intro b
  rw [h.buffers]
  cases b <;> rfl

end ZnsFtl

end NvmeVirt
