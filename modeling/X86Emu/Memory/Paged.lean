import X86Emu.Machine.State

/-!
# Paged memory

The memory functions of `mem.c`. A function that works on a page through the pointer
`vm_get_page` returns is split into `vmGetPage`, which creates the page, and `Mem.putPage`, which
stores the changed page. The word and dword accesses test packed attributes, as the source does
when it reads `*perm16` and `*perm32` on a little-endian host.
-/

namespace X86Emu

def permR : U8 := 0x01
def permW : U8 := 0x02
def permX : U8 := 0x04
def permValid : U8 := 0x08
def accRead : U8 := 0x10
def accWrite : U8 := 0x20
def accExec : U8 := 0x40
def accInvalid : U8 := 0x80

def permRwx : U8 := permR ||| permW ||| permX

/-- `PERM16` -/
def perm16 (a : U8) : U16 := a ++ a

/-- `PERM32` -/
def perm32 (a : U8) : U32 := perm16 a ++ perm16 a

/-- The attribute has one of the bits of `m`. -/
def U8.has (a m : U8) : Bool := a &&& m != 0

/-! ## Pages -/

def pdirIdx (addr : U32) : BitVec 10 := addr.extractLsb' 22 10
def ptableIdx (addr : U32) : BitVec 10 := addr.extractLsb' 12 10
def pageIdx (addr : U32) : BitVec 12 := addr.extractLsb' 0 12

def emuMemNew (perm : U32) : Mem := { defAttr := perm.setWidth 8 }

/-- The page table entry an address selects, if its page table exists. -/
def Mem.entry (mem : Mem) (addr : U32) : Option Page :=
  mem.pdir.bind fun pdir => (pdir (pdirIdx addr)).map fun ptable => ptable (ptableIdx addr)

/-- `(*(*pdir)[pdir_idx])[ptable_idx] = page` -/
def Mem.putPage (mem : Mem) (addr : U32) (page : Page) : Mem :=
  { mem with
    pdir := mem.pdir.map fun pdir =>
      Function.update pdir (pdirIdx addr)
        ((pdir (pdirIdx addr)).map fun ptable =>
          Function.update ptable (ptableIdx addr) page) }

/-- A page allocated with its default attribute. -/
def Page.create (page : Page) : Page :=
  match page.alloc with
  | some _ => page
  | none => { page with alloc := some { attr := fun _ => page.defAttr } }

/-- The first two steps of `vm_get_page`: page directory and page table exist afterwards. -/
def Mem.withTable (mem : Mem) (addr : U32) : Mem :=
  let pdir : PDir := mem.pdir.getD fun _ => none
  let ptable : PTable := (pdir (pdirIdx addr)).getD fun _ => { defAttr := mem.defAttr }
  { mem with pdir := some (Function.update pdir (pdirIdx addr) (some ptable)) }

def vmGetPage (mem : Mem) (addr : U32) (create : Bool) : Page × Mem :=
  let mem := mem.withTable addr
  let page := (mem.entry addr).getD {}
  if create then (page.create, mem.putPage addr page.create) else (page, mem)

/-- `page->attr[page_idx]` -/
def Page.attrAt (page : Page) (i : BitVec 12) : U8 :=
  match page.alloc with
  | some p => p.attr i
  | none => page.defAttr

def Page.setAttr (page : Page) (i : BitVec 12) (a : U8) : Page :=
  { page with alloc := page.alloc.map fun p => { p with attr := Function.update p.attr i a } }

/-- `page->data[page_idx]` -/
def Mem.load (mem : Mem) (page : Page) (i : BitVec 12) : U8 :=
  match page.alloc with
  | none => 0
  | some p =>
    match p.data with
    | .own => p.own i
    | .host a => mem.host (a + i.toNat)

/-- `page->data[page_idx] = val`, for the page of address `addr` -/
def Mem.store (mem : Mem) (addr : U32) (page : Page) (i : BitVec 12) (val : U8) : Mem :=
  match page.alloc with
  | none => mem
  | some p =>
    match p.data with
    | .own =>
      mem.putPage addr { page with alloc := some { p with own := Function.update p.own i val } }
    | .host a => { mem with host := Function.update mem.host (a + i.toNat) val }

def Mem.setInvalid (mem : Mem) : Mem := { mem with invalid := true }

/-! ## Byte accesses -/

def vmRByte (mem : Mem) (addr : U32) : U8 × Mem :=
  let i := pageIdx addr
  let (page, mem) := vmGetPage mem addr true
  let perm := page.attrAt i
  if perm.has permR then
    let perm := perm ||| accRead
    if perm.has permValid then
      (mem.load page i, mem.putPage addr (page.setAttr i perm))
    else
      (mem.load page i, (mem.putPage addr (page.setAttr i (perm ||| accInvalid))).setInvalid)
  else
    (0xff, mem.setInvalid)

def vmRByteNoperm (mem : Mem) (addr : U32) : U8 × Mem :=
  let (page, mem) := vmGetPage mem addr true
  (mem.load page (pageIdx addr), mem)

def vmXByte (mem : Mem) (addr : U32) : U8 × Mem :=
  let i := pageIdx addr
  let (page, mem) := vmGetPage mem addr true
  let attr := page.attrAt i
  if attr.has permX then
    let attr := attr ||| accExec
    if attr.has permValid then
      (mem.load page i, mem.putPage addr (page.setAttr i attr))
    else
      (mem.load page i, (mem.putPage addr (page.setAttr i (attr ||| accInvalid))).setInvalid)
  else
    (0xff, mem.setInvalid)

def vmWByte (mem : Mem) (addr : U32) (val : U8) : Mem :=
  let i := pageIdx addr
  let (page, mem) := vmGetPage mem addr true
  let attr := page.attrAt i
  if attr.has permW then
    let page := page.setAttr i (attr ||| (permValid ||| accWrite))
    (mem.putPage addr page).store addr page i val
  else
    (mem.putPage addr (page.setAttr i (attr ||| accInvalid))).setInvalid

def vmWByteNoperm (mem : Mem) (addr : U32) (val : U8) : Mem :=
  let i := pageIdx addr
  let (page, mem) := vmGetPage mem addr true
  let page := page.setAttr i (page.attrAt i ||| (permValid ||| accWrite))
  (mem.putPage addr page).store addr page i val

/-! ## Word and dword accesses -/

/-- `*(u16 *) (page->attr + page_idx)` -/
def Page.attr16 (page : Page) (i : BitVec 12) : U16 :=
  page.attrAt (i + 1) ++ page.attrAt i

/-- `*(u32 *) (page->attr + page_idx)` -/
def Page.attr32 (page : Page) (i : BitVec 12) : U32 :=
  page.attr16 (i + 2) ++ page.attr16 i

def Page.setAttr16 (page : Page) (i : BitVec 12) (a : U16) : Page :=
  (page.setAttr i (a.extractLsb' 0 8)).setAttr (i + 1) (a.extractLsb' 8 8)

def Page.setAttr32 (page : Page) (i : BitVec 12) (a : U32) : Page :=
  (page.setAttr16 i (a.extractLsb' 0 16)).setAttr16 (i + 2) (a.extractLsb' 16 16)

/-- `*(u16 *) (page->data + page_idx)` -/
def Mem.load16 (mem : Mem) (page : Page) (i : BitVec 12) : U16 :=
  mem.load page (i + 1) ++ mem.load page i

/-- `*(u32 *) (page->data + page_idx)` -/
def Mem.load32 (mem : Mem) (page : Page) (i : BitVec 12) : U32 :=
  mem.load16 page (i + 2) ++ mem.load16 page i

/-- The page as it is stored for the address now; `page` in the source is a pointer to it. -/
def Mem.pageAt (mem : Mem) (addr : U32) : Page := (mem.entry addr).getD {}

/-- One byte of a wide store through `page->data + page_idx`. -/
def Mem.storeAt (mem : Mem) (addr : U32) (i : BitVec 12) (val : U8) : Mem :=
  mem.store addr (mem.pageAt addr) i val

def Mem.store16 (mem : Mem) (addr : U32) (i : BitVec 12) (val : U16) : Mem :=
  (mem.storeAt addr i (val.extractLsb' 0 8)).storeAt addr (i + 1) (val.extractLsb' 8 8)

def Mem.store32 (mem : Mem) (addr : U32) (i : BitVec 12) (val : U32) : Mem :=
  (mem.store16 addr i (val.extractLsb' 0 16)).store16 addr (i + 2) (val.extractLsb' 16 16)

def vmRWord (mem : Mem) (addr : U32) : U16 × Mem :=
  let i := pageIdx addr
  let (page, mem) := vmGetPage mem addr true
  let p := page.attr16 i
  let need := perm16 (permR ||| permValid)
  if i.toNat ≥ 4095 ∨ p &&& need ≠ need then
    let (v0, mem) := vmRByte mem addr
    let (v1, mem) := vmRByte mem (addr + 1)
    (v1 ++ v0, mem)
  else
    (mem.load16 page i, mem.putPage addr (page.setAttr16 i (p ||| perm16 accRead)))

def vmRDword (mem : Mem) (addr : U32) : U32 × Mem :=
  let i := pageIdx addr
  let (page, mem) := vmGetPage mem addr true
  let p := page.attr32 i
  let need := perm32 (permR ||| permValid)
  if i.toNat ≥ 4093 ∨ p &&& need ≠ need then
    let (v0, mem) := vmRByte mem addr
    let (v1, mem) := vmRByte mem (addr + 1)
    let (v2, mem) := vmRByte mem (addr + 2)
    let (v3, mem) := vmRByte mem (addr + 3)
    ((v3 ++ v2) ++ (v1 ++ v0), mem)
  else
    (mem.load32 page i, mem.putPage addr (page.setAttr32 i (p ||| perm32 accRead)))

def vmXWord (mem : Mem) (addr : U32) : U16 × Mem :=
  let (v0, mem) := vmXByte mem addr
  let (v1, mem) := vmXByte mem (addr + 1)
  (v1 ++ v0, mem)

def vmXDword (mem : Mem) (addr : U32) : U32 × Mem :=
  let (v0, mem) := vmXWord mem addr
  let (v1, mem) := vmXWord mem (addr + 2)
  (v1 ++ v0, mem)

def vmWWord (mem : Mem) (addr : U32) (val : U16) : Mem :=
  let i := pageIdx addr
  let (page, mem) := vmGetPage mem addr true
  let p := page.attr16 i
  let need := perm16 permW
  if i.toNat ≥ 4095 ∨ p &&& need ≠ need then
    let mem := vmWByte mem addr (val.extractLsb' 0 8)
    vmWByte mem (addr + 1) (val.extractLsb' 8 8)
  else
    (mem.putPage addr (page.setAttr16 i (p ||| perm16 (permValid ||| accWrite)))).store16 addr i val

def vmWDword (mem : Mem) (addr : U32) (val : U32) : Mem :=
  let i := pageIdx addr
  let (page, mem) := vmGetPage mem addr true
  let p := page.attr32 i
  let need := perm32 permW
  if i.toNat ≥ 4093 ∨ p &&& need ≠ need then
    let mem := vmWByte mem addr (val.extractLsb' 0 8)
    let mem := vmWByte mem (addr + 1) (val.extractLsb' 8 8)
    let mem := vmWByte mem (addr + 2) (val.extractLsb' 16 8)
    vmWByte mem (addr + 3) (val.extractLsb' 24 8)
  else
    (mem.putPage addr (page.setAttr32 i (p ||| perm32 (permValid ||| accWrite)))).store32 addr i val

/-! ## Host functions -/

/-- The loop of `x86emu_reset_access_stats` over the attributes of all allocated pages. -/
def Mem.resetAccessStats (mem : Mem) : Mem :=
  { mem with
    pdir := mem.pdir.map fun pdir i => (pdir i).map fun ptable j =>
      { ptable j with
        alloc := (ptable j).alloc.map fun p =>
          { p with attr := fun k => p.attr k &&& (permRwx ||| permValid) } } }

def Mem.setPage (mem : Mem) (addr : U32) (address : Option Nat) : Mem :=
  let (page, mem) := vmGetPage mem addr true
  match address with
  | some a =>
    mem.putPage addr { page with
      alloc := page.alloc.map fun p =>
        { p with data := .host a, attr := fun i => p.attr i ||| permValid } }
  | none => mem.putPage addr { page with alloc := page.alloc.map fun p => { p with data := .own } }

end X86Emu
