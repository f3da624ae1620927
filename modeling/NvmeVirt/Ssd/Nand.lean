import NvmeVirt.Ssd.Params
import NvmeVirt.Library.Outcome

/-!
# The flash array

Pages, blocks and physical page addresses of `ssd.h`, and the block contents
`ssd_init` creates. The array is indexed by block address; a block knows how many
pages were allocated for it, and reaching past them is a fault of its own.
-/

namespace NvmeVirt

open Checked

/-- `USER_IO` or `GC_IO`. -/
inductive IoType
  | user
  | gc
  deriving DecidableEq, Repr, Inhabited

/-- Every way a command can stop the module: an `NVMEV_ASSERT` (a kernel `BUG`), an access
outside an allocated array, or a division by zero. -/
inductive Fault
  /-- A failed assertion or an overflow in a parameter initialiser. -/
  | initParams
  /-- `buffer_allocate`: `size <= buf->size`. -/
  | bufferSize
  /-- `get_pg` reads past the pages allocated for the block. -/
  | pageBounds
  /-- `set_maptbl_ent`: `lpn < tt_pgs`. -/
  | maptblLpn
  /-- `ppa2pgidx`: `pg < pgs_per_blk_slc` for an SLC block. -/
  | pgidxSlcPg
  /-- `ppa2pgidx`: `pgidx < tt_pgs`. -/
  | pgidxRange
  /-- `init_lines`: the pools add up to `tt_lines`. -/
  | linesTotal
  /-- `check_addr`: `a >= 0 && a < max`. -/
  | checkAddr
  /-- `prepare_write_pointer` and `advance_write_pointer`: `curline`, that is,
  `get_next_free_line` returned NULL for this write pointer. -/
  | noFreeLine (io : IoType)
  /-- `advance_write_pointer`: `curline->ipc == 0` for a line of valid pages. -/
  | fullLineIpc
  /-- `advance_write_pointer`: `vpc >= 0 && vpc < pages per line`. -/
  | victimVpc
  /-- `advance_write_pointer`: `curline->ipc > 0`. -/
  | victimIpc
  /-- `advance_write_pointer`: `vpc + ipc == pages per line`. -/
  | victimSum
  /-- `advance_write_pointer` and `get_new_page`: `pl == 0`. -/
  | wpPlane
  /-- `mark_page_invalid`: `spp->tt_lines_slc == slm.tt_lines`. -/
  | slmTotal
  /-- `mark_page_invalid`: `pg->status == PG_VALID`. -/
  | pageNotValid
  /-- `mark_page_invalid`: bounds of `blk->ipc`. -/
  | blkIpc
  /-- `mark_page_invalid`: bounds of `blk->vpc`. -/
  | blkVpc
  /-- `mark_page_invalid`: bounds of `line->ipc`. -/
  | lineIpc
  /-- `mark_page_invalid`: `line->ipc == 0` for a line of valid pages. -/
  | wasFullIpc
  /-- `mark_page_invalid`: bounds of `line->vpc`. -/
  | lineVpc
  /-- `mark_page_invalid`: `vpc + ipc == pages per line` for a line that was full. -/
  | wasFullSum
  /-- `mark_page_valid`: `pg->status == PG_FREE`. -/
  | pageNotFree
  /-- `mark_page_valid`: bounds of `blk->vpc`. -/
  | blkVpcFull
  /-- `mark_page_valid`: bounds of `line->vpc`. -/
  | lineVpcFull
  /-- `mark_block_free`: `pg->nsecs == secs_per_pg`. -/
  | pageNsecs
  /-- `mark_block_free`: `blk->npgs == pages per block`. -/
  | blkNpgs
  /-- `gc_write_page`: `valid_lpn`. -/
  | rmapLpn
  /-- `clean_one_flashpg`: the block of a migrated page lies in the SLC area. -/
  | cleanSlcBlk
  /-- `clean_one_flashpg`: no free page in a victim block. -/
  | cleanFreePage
  /-- `calculate_cost_benefit_val` divides by zero. -/
  | divByZero
  deriving DecidableEq, Repr

/-- `PG_FREE`, `PG_INVALID` or `PG_VALID`. -/
inductive PageStatus
  | free
  | invalid
  | valid
  deriving DecidableEq, Repr, Inhabited

/-- The bit widths of the fields of `struct ppa`. -/
def pageBits : Nat := 16

@[inherit_doc pageBits] def blkBits : Nat := 16
@[inherit_doc pageBits] def plBits : Nat := 8
@[inherit_doc pageBits] def lunBits : Nat := 8
@[inherit_doc pageBits] def chBits : Nat := 8

/-- `struct ppa` without its reserved bits. `UNMAPPED_PPA` sets these bits and no
address the module forms does, so a mapping entry is an `Option Ppa`. -/
structure Ppa where
  pg : Nat
  blk : Nat
  pl : Nat
  lun : Nat
  ch : Nat
  deriving DecidableEq, Repr, Inhabited

/-- The block part of an address, `h.blk_in_ssd`. -/
structure BlkAddr where
  blk : Nat
  pl : Nat
  lun : Nat
  ch : Nat
  deriving DecidableEq, Repr, Inhabited

/-- The block of a page. -/
def Ppa.addr (p : Ppa) : BlkAddr := { blk := p.blk, pl := p.pl, lun := p.lun, ch := p.ch }

/-- An address and its block and page parts determine each other. -/
theorem Ppa.ext_addr {p q : Ppa} (ha : p.addr = q.addr) (hp : p.pg = q.pg) : p = q := by
  cases p
  cases q
  simp only [Ppa.addr, BlkAddr.mk.injEq] at ha
  simp_all

/-- `struct nand_page` without its per-sector states, which nothing reads. -/
structure NandPage where
  nsecs : Nat
  status : PageStatus
  deriving DecidableEq, Repr, Inhabited

/-- `struct nand_block`. -/
structure NandBlock where
  pg : Nat → NandPage
  npgs : Int
  ipc : Nat
  vpc : Nat
  eraseCnt : Nat
  deriving Inhabited

/-- `ssd_init_nand_blk` and `ssd_init_nand_blk_slc`, which differ in the page count. -/
def ssdInitNandBlk (spp : Ssdparams) (npgs : Int) : NandBlock where
  pg := fun _ => { nsecs := spp.secsPerPg, status := .free }
  npgs := npgs
  ipc := 0
  vpc := 0
  eraseCnt := 0

/-- The block `ssd_init_nand_plane` creates at index `i` of a plane. -/
def ssdInitNandPlane (spp : Ssdparams) (i : Nat) : NandBlock :=
  if (i : Int) < spp.ttLinesSlc then ssdInitNandBlk spp spp.pgsPerBlkSlc
  else ssdInitNandBlk spp spp.pgsPerBlk

end NvmeVirt
