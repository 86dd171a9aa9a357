import EonDrv.Ioctl.Stages

/-!
# Outcomes of the stages

For each stage the paths it can take, with the value it returns and the effects it
leaves.
-/

namespace EonDrv.Ioctl

open Ledger (Use)

/-- `set_hdma_desc` fails with nothing taken, or succeeds with the buffer and its
mapping. -/
theorem setHdmaDesc_cases (k : Kernel) (xfer : DpuXferInfo) (desc : DpuDescInfo) :
    let p := k.kmallocDescs (descsSize xfer)
    let a := k.pciMapSingle p (descsSize xfer) desc.dir
    let out := setHdmaDesc k xfer desc
    (out.val.1 = -1 ∧ out.trace = []) ∨
    (out.val.1 = -1 ∧ out.trace = [.use (.acquire (.kmem p)), .use (.release (.kmem p))]) ∨
    (p ≠ 0#64 ∧ out.val = (0, { desc with
        descHostAddr := p
        descSize := descsSize xfer
        descNum := xfer.sglen.zeroExtend 64
        descAddr := a }, descTable k xfer desc) ∧
      out.trace = [.use (.acquire (.kmem p)),
        .use (.acquire (.singleMapping a (descsSize xfer) desc.dir))]) := by
  intro p a out
  by_cases hp : k.kmallocDescs (descsSize xfer) = 0#64
  · exact .inl ⟨by simp [out, setHdmaDesc, kmalloc, alloc, hp],
      by simp [out, setHdmaDesc, kmalloc, alloc, hp]⟩
  · cases he : k.pciDmaMappingError
        (k.pciMapSingle (k.kmallocDescs (descsSize xfer)) (descsSize xfer) desc.dir)
    · refine .inr (.inr ⟨hp, ?_, ?_⟩)
      · simp [out, setHdmaDesc, kmalloc, alloc, hp, he, a, p, descTable]
      · simp [out, setHdmaDesc, kmalloc, alloc, acquire, hp, he, a, p]
    · refine .inr (.inl ⟨?_, ?_⟩)
      · simp [out, setHdmaDesc, kmalloc, alloc, hp, he]
      · simp [out, setHdmaDesc, kmalloc, kfree, alloc, free, hp, he, p]

end EonDrv.Ioctl
