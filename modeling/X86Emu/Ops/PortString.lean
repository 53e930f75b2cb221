import X86Emu.Memory.Ports
import X86Emu.Ops.Rep

/-!
# Strings from and to ports

`ins` and `outs` against the transfer of contiguous elements. One step of them transfers an element
at the offset in the index register and moves the register by one, so after `i` steps it transfers
element `i` of a string of bytes.
-/

namespace X86Emu

open Lib

/-! ## Port accesses -/

/-- `fetch_io_*`: the value, and the state it leaves. -/
def St.portIn (s : St) (inp : PortInput) (z : OpSize) (port : U32) : U32 × St :=
  ((vmMemio inp s .i z.width.bits port 0).1.1, (vmMemio inp s .i z.width.bits port 0).2)

/-- `store_io_*` -/
def St.portOut (s : St) (inp : PortInput) (z : OpSize) (port val : U32) : St :=
  (vmMemio inp s .o z.width.bits port val).2

/-- The port in `DX`. -/
def Cpu.portDx (c : Cpu) : U32 := (c.get16 .dx).setWidth 32

section

variable (inp : PortInput) (s : St) (f : Cpu → Cpu)

theorem vmIByte_put (addr : U32) :
    vmIByte inp (s.put f) addr = ((vmIByte inp s addr).1, (vmIByte inp s addr).2.put f) := by
  unfold vmIByte
  dsimp only
  rw [show (s.put f).io = s.io from rfl]
  split <;> rfl

theorem vmIWord_put (addr : U32) :
    vmIWord inp (s.put f) addr = ((vmIWord inp s addr).1, (vmIWord inp s addr).2.put f) := by
  unfold vmIWord
  dsimp only
  rw [show (s.put f).io = s.io from rfl]
  split
  · simp only [vmIByte_put]
  · rfl

theorem vmIDword_put (addr : U32) :
    vmIDword inp (s.put f) addr = ((vmIDword inp s addr).1, (vmIDword inp s addr).2.put f) := by
  unfold vmIDword
  dsimp only
  rw [show (s.put f).io = s.io from rfl]
  split
  · simp only [vmIByte_put]
  · rfl

theorem vmOByte_put (addr val : U32) : vmOByte (s.put f) addr val = (vmOByte s addr val).put f := by
  unfold vmOByte
  dsimp only
  rw [show (s.put f).io = s.io from rfl]
  split <;> rfl

theorem vmOWord_put (addr val : U32) : vmOWord (s.put f) addr val = (vmOWord s addr val).put f := by
  unfold vmOWord
  dsimp only
  rw [show (s.put f).io = s.io from rfl]
  split
  · simp only [vmOByte_put]
  · rfl

theorem vmODword_put (addr val : U32) :
    vmODword (s.put f) addr val = (vmODword s addr val).put f := by
  unfold vmODword
  dsimp only
  rw [show (s.put f).io = s.io from rfl]
  split
  · simp only [vmOByte_put]
  · rfl

/-- Port accesses do not look at the registers. -/
theorem portIn_put (z : OpSize) (port : U32) :
    (s.put f).portIn inp z port = ((s.portIn inp z port).1, (s.portIn inp z port).2.put f) := by
  unfold St.portIn vmMemio vmPortAccess
  cases z with
  | byte =>
    have hput := vmIByte_put inp { s with mem := { s.mem with invalid := false } } f port
    exact congrArg (fun r : U8 × St => (r.1.setWidth 32, r.2)) hput
  | word =>
    have hput := vmIWord_put inp { s with mem := { s.mem with invalid := false } } f port
    exact congrArg (fun r : U16 × St => (r.1.setWidth 32, r.2)) hput
  | long => exact vmIDword_put inp { s with mem := { s.mem with invalid := false } } f port

theorem portOut_put (z : OpSize) (port val : U32) :
    (s.put f).portOut inp z port val = (s.portOut inp z port val).put f := by
  unfold St.portOut vmMemio vmPortAccess
  cases z with
  | byte => exact vmOByte_put { s with mem := { s.mem with invalid := false } } f port val
  | word => exact vmOWord_put { s with mem := { s.mem with invalid := false } } f port val
  | long => exact vmODword_put { s with mem := { s.mem with invalid := false } } f port val

end

@[simp] theorem portIn_cpu (s : St) (inp : PortInput) (z : OpSize) (port : U32) :
    (s.portIn inp z port).2.cpu = s.cpu := by
  obtain ⟨mem, io, hframe⟩ := vmMemio_frame inp s .i z.width.bits port 0
  exact congrArg (·.cpu) hframe

@[simp] theorem portOut_cpu (s : St) (inp : PortInput) (z : OpSize) (port val : U32) :
    (s.portOut inp z port val).cpu = s.cpu := by
  obtain ⟨mem, io, hframe⟩ := vmMemio_frame inp s .o z.width.bits port val
  exact congrArg (·.cpu) hframe

section

variable {inp : PortInput} {h : Host} (hh : h.Blind inp)

include hh

theorem seen_portMemio {kind : MemioKind} (width : MemioWidth) (addr val : U32) (s : St) :
    seen h (decodeMemio kind width addr val) s = ((vmMemio inp s kind width.bits addr val).1,
      (vmMemio inp s kind width.bits addr val).2.view) := by
  have hcall : seen h (memio kind width addr val) s =
      ((vmMemio inp s kind width.bits addr val).1,
        (vmMemio inp s kind width.bits addr val).2.view) := by
    show ((callMemio kind width.bits addr val h s).1,
      (callMemio kind width.bits addr val h s).2.view) = _
    unfold callMemio
    rw [hh.memio]
    rfl
  unfold decodeMemio loggedMemio
  rw [seen_step hh hcall, seen_step hh (seen_writeLog hh _ _ _ _ _)]
  exact seen_pure _ _

theorem seen_fetchIoSize (z : OpSize) (port : U32) (s : St) :
    seen h (fetchIoSize z port) s =
      ((s.portIn inp z port).1.setWidth z.bits, (s.portIn inp z port).2.view) := by
  cases z with
  | byte => exact seen_step hh (seen_portMemio hh .b8 port 0 s)
  | word => exact seen_step hh (seen_portMemio hh .b16 port 0 s)
  | long =>
    refine (seen_step hh (seen_portMemio hh .b32 port 0 s)).trans ?_
    exact congrArg (fun v : U32 => (v, _)) (BitVec.setWidth_eq _).symm

theorem seen_storeIoSize (z : OpSize) (port : U32) (v : BitVec z.bits) (s : St) :
    seen h (storeIoSize z port v) s = ((), (s.portOut inp z port (v.setWidth 32)).view) := by
  cases z with
  | byte => exact seen_step hh (seen_portMemio hh .b8 port _ s)
  | word => exact seen_step hh (seen_portMemio hh .b16 port _ s)
  | long =>
    rw [show v.setWidth 32 = v from BitVec.setWidth_eq v]
    exact seen_step hh (seen_portMemio hh .b32 port v s)

end

/-! ## Elements -/

/-- One element from the port in `DX` to `ES:ofs`. -/
def St.insElement (inp : PortInput) (z : OpSize) (ofs : U32) (s : St) : St :=
  (s.portIn inp z s.cpu.portDx).2.stored z.width .es ofs
    (((s.portIn inp z s.cpu.portDx).1.setWidth z.bits).setWidth 32)

/-- One element from `seg:ofs` to the port in `DX`. -/
def St.outsElement (inp : PortInput) (z : OpSize) (seg : SegReg) (ofs : U32) (s : St) : St :=
  (s.loaded z.width seg ofs).portOut inp z s.cpu.portDx
    (((s.dataVal z.width seg ofs).setWidth z.bits).setWidth 32)

/-- `n` elements one after the other, element `i` at the offset `ofs i`. -/
def elements (elem : U32 → St → St) (ofs : Nat → U32) : Nat → St → St
  | 0, s => s
  | n + 1, s => elem (ofs n) (elements elem ofs n s)

/-- A transfer changes no register and does not depend on the index register. -/
structure Transfers (r : Reg) (elem : U32 → St → St) : Prop where
  cpu : ∀ ofs s, (elem ofs s).cpu = s.cpu
  put : ∀ ofs v s, elem ofs (s.put (·.setGen r v)) = (elem ofs s).put (·.setGen r v)

theorem checked_setGen (s : St) (r : Reg) (v : U32) (seg : SegReg) (ofs size : U32) :
    (s.put (·.setGen r v)).checked seg ofs size = (s.checked seg ofs size).put (·.setGen r v) := by
  unfold St.checked
  by_cases hlimit : ofs + size - 1 > (s.cpu.seg seg).limit
  · rw [if_pos hlimit]
    exact if_pos hlimit
  · rw [if_neg hlimit]
    exact if_neg hlimit

theorem stored_setGen (s : St) (r : Reg) (v : U32) (width : MemioWidth) (seg : SegReg)
    (ofs val : U32) : (s.put (·.setGen r v)).stored width seg ofs val =
      (s.stored width seg ofs val).put (·.setGen r v) := by
  unfold St.stored
  rw [checked_setGen]
  rfl

theorem loaded_setGen (s : St) (r : Reg) (v : U32) (width : MemioWidth) (seg : SegReg) (ofs : U32) :
    (s.put (·.setGen r v)).loaded width seg ofs = (s.loaded width seg ofs).put (·.setGen r v) := by
  unfold St.loaded
  rw [checked_setGen]
  rfl

theorem portDx_setGen {r : Reg} (hr : r ≠ .dx) (v : U32) (c : Cpu) :
    (c.setGen r v).portDx = c.portDx := by
  unfold Cpu.portDx Cpu.get16
  rw [setGen_ne hr.symm]

theorem insElement_transfers (inp : PortInput) (z : OpSize) :
    Transfers .di (St.insElement inp z) where
  cpu ofs s := by rw [St.insElement, stored_cpu, portIn_cpu]
  put ofs v s := by
    unfold St.insElement
    rw [put_cpu, portDx_setGen (by decide), portIn_put, stored_setGen]

theorem outsElement_transfers (inp : PortInput) (z : OpSize) (seg : SegReg) :
    Transfers .si (St.outsElement inp z seg) where
  cpu ofs s := by rw [St.outsElement, portOut_cpu, loaded_cpu]
  put ofs v s := by
    unfold St.outsElement
    rw [put_cpu, portDx_setGen (by decide), loaded_setGen, portOut_put]
    rfl

/-- The index register `d` further on. -/
def Cpu.moved (c : Cpu) (k : Bool) (r : Reg) (d : U32) : Cpu := c.setGen r (idxAdd k d (c.gen r))

theorem moved_zero (c : Cpu) (k : Bool) (r : Reg) : c.moved k r 0 = c := by
  unfold Cpu.moved Cpu.setGen
  rw [idxAdd_zero, Function.update_eq_self]

theorem moved_moved (c : Cpu) (k : Bool) (r : Reg) (d e : U32) :
    (c.moved k r d).moved k r e = c.moved k r (d + e) := by
  unfold Cpu.moved
  rw [setGen_self, idxAdd_idxAdd]
  unfold Cpu.setGen
  dsimp only
  rw [Function.update_idem]

theorem elements_cpu {r : Reg} {elem : U32 → St → St} (ht : Transfers r elem) (ofs : Nat → U32)
    (n : Nat) (s : St) : (elements elem ofs n s).cpu = s.cpu := by
  induction n with
  | zero => rfl
  | succ n ih => exact (ht.cpu _ _).trans ih

/-- Where the steps of a string instruction are: element `i` is `i` steps of `d` from the start. -/
def Cpu.stepOfs (c : Cpu) (wide k : Bool) (r : Reg) (d : U32) (i : Nat) : U32 :=
  (c.moved k r (BitVec.ofNat 32 i * d)).idx wide r

/-- Steps that transfer an element and move the index by `d`. -/
theorem iterate_elements {inp : PortInput} {h : Host} (hh : h.Blind inp) {r : Reg}
    {elem : U32 → St → St} (ht : Transfers r elem) {x : Emu Unit} {wide k : Bool} {d : U32}
    (hx : ∀ s, seen h x s =
      ((), ((elem (s.cpu.idx wide r) s).put (·.moved k r d)).view)) (n : Nat) (s : St) :
    ((after h x)^[n] s).view = ((elements elem (s.cpu.stepOfs wide k r d) n s).put
      (·.moved k r (BitVec.ofNat 32 n * d))).view := by
  induction n with
  | zero =>
    have hzero : s.put (·.moved k r (BitVec.ofNat 32 0 * d)) = s := by
      have hcpu : s.cpu.moved k r (BitVec.ofNat 32 0 * d) = s.cpu := by
        exact (congrArg (s.cpu.moved k r) BitVec.zero_mul).trans (moved_zero s.cpu k r)
      exact congrArg (fun c => { s with cpu := c }) hcpu
    exact congrArg St.view hzero.symm
  | succ n ih =>
    have hcpu := elements_cpu ht (s.cpu.stepOfs wide k r d) n s
    have hset : (elements elem (s.cpu.stepOfs wide k r d) n s).put
        (·.moved k r (BitVec.ofNat 32 n * d)) =
        (elements elem (s.cpu.stepOfs wide k r d) n s).put
          (·.setGen r (idxAdd k (BitVec.ofNat 32 n * d) (s.cpu.gen r))) := by
      refine put_congr ?_
      rw [hcpu]
      rfl
    have hstep := (after_view (x := x) hh ih).trans (congrArg Prod.snd (hx _))
    rw [Function.iterate_succ_apply', hstep, put_cpu, hcpu]
    have helem := ht.put (s.cpu.stepOfs wide k r d n)
      (idxAdd k (BitVec.ofNat 32 n * d) (s.cpu.gen r))
        (elements elem (s.cpu.stepOfs wide k r d) n s)
    refine congrArg St.view ?_
    show (elem (s.cpu.stepOfs wide k r d n) _).put _ = (elem _ (elements _ _ n s)).put _
    rw [hset, helem, put_put]
    refine put_congr ?_
    rw [ht.cpu, hcpu]
    exact (moved_moved s.cpu k r _ d).trans (by rw [ofNat_succ_mul])

/-! ## The instructions -/

/-- `insb` and `insw` -/
def insOp (w : Bool) : U8 := if w then 0x6d else 0x6c

/-- `outsb` and `outsw` -/
def outsOp (w : Bool) : U8 := if w then 0x6f else 0x6e

/-- The step of `ins` and `outs`. -/
def Cpu.byteInc (c : Cpu) : U32 := if c.flag .df then -1 else 1

/-- One round of `ins` or `outs`: `k` is the width of the index step. -/
def portStep (transfer : Bool → Emu Unit) (wide k : Bool) (r : Reg) (inc : U32) : Emu Unit := do
  transfer wide
  addIdx k r inc

section

variable {inp : PortInput} {h : Host} (hh : h.Blind inp)

include hh

theorem seen_insOp (w : Bool) (s : St) :
    seen h (oneByte (insOp w)) s = seen h (Op.ins (s.cpu.mode.opSize w)) s := by
  cases w with
  | false =>
    show seen h (oneByte 0x6c) s = seen h (Op.ins .byte) s
    rw [oneByte_eq (f := Op.insByte) 0x6c rfl]
    unfold Op.insByte
    rw [seen_step hh (seen_decodeA32 hh s), seen_step hh (seen_opDecode "insb" s)]
  | true =>
    show seen h (oneByte 0x6d) s = seen h (Op.ins (if s.cpu.mode.data32 then .long else .word)) s
    rw [oneByte_eq (f := Op.insWord) 0x6d rfl]
    unfold Op.insWord
    rw [seen_step hh (seen_decodeA32 hh s), seen_step hh (seen_getMode s), seen_ite]
    split
    · rw [seen_step hh (seen_opDecode _ s)]
    · rw [seen_step hh (seen_opDecode _ s)]

theorem seen_outsOp (w : Bool) (s : St) :
    seen h (oneByte (outsOp w)) s = seen h (Op.outs (s.cpu.mode.opSize w)) s := by
  cases w with
  | false =>
    show seen h (oneByte 0x6e) s = seen h (Op.outs .byte) s
    rw [oneByte_eq (f := Op.outsByte) 0x6e rfl]
    unfold Op.outsByte
    rw [seen_step hh (seen_decodeA32 hh s), seen_step hh (seen_opDecode "outsb" s)]
  | true =>
    show seen h (oneByte 0x6f) s = seen h (Op.outs (if s.cpu.mode.data32 then .long else .word)) s
    rw [oneByte_eq (f := Op.outsWord) 0x6f rfl]
    unfold Op.outsWord
    rw [seen_step hh (seen_decodeA32 hh s), seen_step hh (seen_getMode s), seen_ite]
    split
    · rw [seen_step hh (seen_opDecode _ s)]
    · rw [seen_step hh (seen_opDecode _ s)]

section

variable (transfer : Bool → Emu Unit) (r : Reg) (single : Bool → Bool) {s : St}

theorem seen_portString_single (hrep : s.cpu.mode.rep = false) :
    seen h (Op.portString transfer r single) s = seen h (portStep transfer s.cpu.mode.addr32
      (single s.cpu.mode.addr32) r s.cpu.byteInc) s := by
  have hinc : seen h Op.insOutsInc s = (s.cpu.byteInc, s.view) := rfl
  unfold Op.portString
  rw [seen_step hh hinc, seen_step hh (seen_getMode s), hrep]
  rfl

theorem seen_portString_rep (hrep : s.cpu.mode.rep = true) :
    seen h (Op.portString transfer r single) s =
      seen h (forLoop (s.cpu.idx s.cpu.mode.addr32 .cx).toNat fun _ =>
          portStep transfer s.cpu.mode.addr32 s.cpu.mode.addr32 r s.cpu.byteInc)
        (s.counted (idxAdd s.cpu.mode.addr32
          (-BitVec.ofNat 32 (s.cpu.idx s.cpu.mode.addr32 .cx).toNat) (s.cpu.gen .cx))
          s.cpu.mode.repe s.cpu.mode.repne) := by
  have hinc : seen h Op.insOutsInc s = (s.cpu.byteInc, s.view) := rfl
  unfold Op.portString
  rw [seen_step hh hinc, seen_step hh (seen_getMode s), hrep, seen_ite, if_pos rfl,
    seen_step hh (seen_getIdx _ .cx s), seen_step hh (seen_clearCount _ s)]
  rfl

end

theorem seen_insStep (z : OpSize) (wide k : Bool) (inc : U32) (s : St) :
    seen h (portStep (Op.insTransfer z) wide k .di inc) s =
      ((), ((s.insElement inp z (s.cpu.idx wide .di)).put (·.moved k .di inc)).view) := by
  have htransfer : seen h (Op.insTransfer z wide) s =
      ((), (s.insElement inp z (s.cpu.idx wide .di)).view) := by
    unfold Op.insTransfer
    rw [seen_step hh (seen_getIdx wide .di s), seen_step hh (seen_get16 .dx s),
      seen_step hh (seen_fetchIoSize hh z _ s), seen_storeDataSizeAbs hh]
    rfl
  unfold portStep
  rw [seen_step hh htransfer]
  exact seen_addIdx k .di inc _

theorem seen_outsStep (z : OpSize) (wide k : Bool) (inc : U32) (s : St) :
    seen h (portStep (Op.outsTransfer z) wide k .si inc) s =
      ((), ((s.outsElement inp z .es (s.cpu.idx wide .si)).put (·.moved k .si inc)).view) := by
  have htransfer : seen h (Op.outsTransfer z wide) s =
      ((), (s.outsElement inp z .es (s.cpu.idx wide .si)).view) := by
    unfold Op.outsTransfer
    rw [seen_step hh (seen_get16 .dx s), seen_step hh (seen_getIdx wide .si s),
      seen_step hh (seen_fetchDataSizeAbs hh z .es _ s), seen_storeIoSize hh]
    rfl
  unfold portStep
  rw [seen_step hh htransfer]
  exact seen_addIdx k .si inc _

end

/-! ### The counter and the prefix -/

namespace Steady

variable {inp : PortInput} {h : Host} (hh : h.Blind inp) {a32 : Bool}

theorem get16 {r : Reg} (hr : r ≠ .cx) : Steady h a32 (get16 r) :=
  read (·.get16 r) (seen_get16 r) fun c cx repe repne => by
    unfold Cpu.get16
    rw [counted_gen hr]

/-- The low half of a register moved, with any width of addresses. -/
theorem addIdxLow {r : Reg} (hr : r ≠ .cx) (d : U32) : Steady h a32 (X86Emu.addIdx false r d) :=
  write hr (idxAdd false d) (seen_addIdx false r d) fun _ _ v => idxAdd_high d v

include hh

theorem fetchIoSize (z : OpSize) (port : U32) : Steady h a32 (fetchIoSize z port) := by
  refine of_seen (fun s => ((s.portIn inp z port).1.setWidth z.bits, (s.portIn inp z port).2))
    (seen_fetchIoSize hh z port) ?_ fun s => .of_cpu (portIn_cpu s inp z port)
  intro s cx repe repne
  exact congrArg (fun r : U32 × St => (r.1.setWidth z.bits, r.2)) (portIn_put inp s _ z port)

theorem storeIoSize (z : OpSize) (port : U32) (v : BitVec z.bits) :
    Steady h a32 (storeIoSize z port v) := by
  refine of_seen (fun s => ((), s.portOut inp z port (v.setWidth 32)))
    (seen_storeIoSize hh z port v) ?_ fun s => .of_cpu (portOut_cpu s inp z port _)
  intro s cx repe repne
  exact Prod.ext rfl (portOut_put inp s _ z port _)

theorem insTransfer (z : OpSize) (wide : Bool) (hw : wide = a32) :
    Steady h a32 (Op.insTransfer z wide) := by
  subst hw
  exact (getIdx (by decide)).bind hh fun _ => (get16 (by decide)).bind hh fun _ =>
    (fetchIoSize hh z _).bind hh fun _ => storeDataSizeAbs hh z .es _ _

theorem outsTransfer (z : OpSize) (wide : Bool) (hw : wide = a32) :
    Steady h a32 (Op.outsTransfer z wide) := by
  subst hw
  exact (get16 (by decide)).bind hh fun _ => (getIdx (by decide)).bind hh fun _ =>
    (fetchDataSizeAbs hh z .es _).bind hh fun _ => storeIoSize hh z _ _

end Steady

theorem Stays.byteInc {a32 : Bool} {s t : St} (hst : Stays a32 s t) :
    t.cpu.byteInc = s.cpu.byteInc := by
  unfold Cpu.byteInc
  rw [hst.df]

section

variable {inp : PortInput} {h : Host} (hh : h.Blind inp)

include hh

theorem insStep_steady (z : OpSize) (a32 : Bool) (inc : U32) :
    Steady h a32 (portStep (Op.insTransfer z) a32 a32 .di inc) :=
  (Steady.insTransfer hh z a32 rfl).bind hh fun _ => Steady.addIdx (by decide) inc

theorem outsStep_steady (z : OpSize) (a32 : Bool) (inc : U32) :
    Steady h a32 (portStep (Op.outsTransfer z) a32 a32 .si inc) :=
  (Steady.outsTransfer hh z a32 rfl).bind hh fun _ => Steady.addIdx (by decide) inc

/-- The unrepeated form of `outs`. -/
theorem outsSingle_steady (z : OpSize) (a32 : Bool) (inc : U32) :
    Steady h a32 (portStep (Op.outsTransfer z) a32 false .si inc) :=
  (Steady.outsTransfer hh z a32 rfl).bind hh fun _ => Steady.addIdxLow (by decide) inc

theorem ins_stepwise (w : Bool) : Stepwise h fun c =>
    portStep (Op.insTransfer (c.mode.opSize w)) c.mode.addr32 c.mode.addr32 .di c.byteInc where
  steady c := insStep_steady hh _ _ _
  counted _ _ _ _ := rfl
  keeps s := by
    have hst := (insStep_steady hh (s.cpu.mode.opSize w) s.cpu.mode.addr32 s.cpu.byteInc).stays s
    rw [after, hst.mode, hst.byteInc]

theorem outsSingle_stepwise (w : Bool) : Stepwise h fun c =>
    portStep (Op.outsTransfer (c.mode.opSize w)) c.mode.addr32 false .si c.byteInc where
  steady c := outsSingle_steady hh _ _ _
  counted _ _ _ _ := rfl
  keeps s := by
    have hst := (outsSingle_steady hh (s.cpu.mode.opSize w) s.cpu.mode.addr32 s.cpu.byteInc).stays s
    rw [after, hst.mode, hst.byteInc]

/-- The loop of the repeated form. -/
theorem portString_loop (transfer : Bool → Emu Unit) (r : Reg) (single : Bool → Bool) {s : St}
    (hsteady : Steady h s.cpu.mode.addr32
      (portStep transfer s.cpu.mode.addr32 s.cpu.mode.addr32 r s.cpu.byteInc))
    (hrep : s.cpu.mode.rep = true) :
    (after h (Op.portString transfer r single) s).view = (((after h (portStep transfer
        s.cpu.mode.addr32 s.cpu.mode.addr32 r s.cpu.byteInc))^[
          (s.cpu.idx s.cpu.mode.addr32 .cx).toNat] s).counted
      (idxAdd s.cpu.mode.addr32 (-BitVec.ofNat 32 (s.cpu.idx s.cpu.mode.addr32 .cx).toNat)
        (s.cpu.gen .cx)) s.cpu.mode.repe s.cpu.mode.repne).view := by
  refine (congrArg Prod.snd (seen_portString_rep hh transfer r single hrep)).trans ?_
  show ((forLoop _ _).run h _).2.view = _
  rw [forLoop_after]
  exact iterate_counted hh hsteady _ s _ _ _

theorem ins_iterates (w : Bool) {s : St} (hrep : s.cpu.mode.rep = true) :
    Iterates h (oneByte (insOp w)) s (s.cpu.idx s.cpu.mode.addr32 .cx).toNat := by
  refine iterates_of_loop hh (ins_stepwise hh w) (fun s hs => ?_) ?_
  · exact (seen_insOp hh w s).trans (seen_portString_single hh _ .di id hs)
  · refine (congrArg Prod.snd (seen_insOp hh w s)).trans ?_
    exact portString_loop hh _ .di id (insStep_steady hh _ _ _) hrep

end

/-! ## Contiguous elements -/

/-- The offset of element `i` of a string that starts at the index register. -/
def Cpu.elementOfs (c : Cpu) (w : Bool) (r : Reg) (i : Nat) : U32 :=
  if c.mode.addr32 then c.gen r + BitVec.ofNat 32 i * c.stringInc w
  else (c.get16 r + (BitVec.ofNat 32 i * c.stringInc w).setWidth 16).setWidth 32

/-- `DS` or the segment of a prefix. -/
def Cpu.stringSeg (c : Cpu) : SegReg := c.defaultSeg.getD .ds

/-- The counter. -/
def St.count (s : St) : Nat := (s.cpu.idx s.cpu.mode.addr32 .cx).toNat

/-- Another value in the counter. -/
def St.recount (s : St) (k : Nat) : St :=
  s.counted (if s.cpu.mode.addr32 then BitVec.ofNat 32 k
    else setLo16 (s.cpu.gen .cx) (BitVec.ofNat 16 k)) s.cpu.mode.repe s.cpu.mode.repne

/-- Up to its own counter, the repeated instruction leaves what as many unprefixed ones leave. -/
def RepeatsSingle (h : Host) (x : Emu Unit) (s : St) : Prop :=
  ∀ k ≤ s.count, (after h x (s.recount k)).view =
    (((after h x)^[k] (s.recount k).unprefixed).lessCount k s.cpu.mode).view

/-- What a repeated `ins` promises: `s.count` values from the port in `DX` are stored one after the
other, the index register is behind them, and the counter is 0. -/
structure RepIns (inp : PortInput) (h : Host) (w : Bool) (s : St) : Prop where
  mem : (after h (oneByte (insOp w)) s).mem =
    (elements (St.insElement inp (s.cpu.mode.opSize w)) (s.cpu.elementOfs w .di) s.count s).mem
  io : (after h (oneByte (insOp w)) s).io =
    (elements (St.insElement inp (s.cpu.mode.opSize w)) (s.cpu.elementOfs w .di) s.count s).io
  index : (after h (oneByte (insOp w)) s).cpu.idx s.cpu.mode.addr32 .di =
    s.cpu.elementOfs w .di s.count
  counter : (after h (oneByte (insOp w)) s).cpu.idx s.cpu.mode.addr32 .cx = 0
  single : RepeatsSingle h (oneByte (insOp w)) s

/-- What a repeated `outs` promises: the bytes of `s.count` elements of the data segment are sent to
the port in `DX`, as far as it may be written. -/
structure RepOuts (h : Host) (w : Bool) (s : St) : Prop where
  sent : (after h (oneByte (outsOp w)) s).io.sent = s.io.sent ++
    (List.range s.count).flatMap fun i =>
      s.io.accepted (s.cpu.get16 .dx) (s.cpu.mode.opSize w).width.count (byteOf
        (s.dataVal (s.cpu.mode.opSize w).width s.cpu.stringSeg (s.cpu.elementOfs w .si i)))
  index : (after h (oneByte (outsOp w)) s).cpu.idx s.cpu.mode.addr32 .si =
    s.cpu.elementOfs w .si s.count
  counter : (after h (oneByte (outsOp w)) s).cpu.idx s.cpu.mode.addr32 .cx = 0
  single : RepeatsSingle h (oneByte (outsOp w)) s

/-! ### Offsets -/

theorem elementOfs_eq (c : Cpu) (w : Bool) (r : Reg) (i : Nat) :
    c.elementOfs w r i = c.stepOfs c.mode.addr32 c.mode.addr32 r (c.stringInc w) i := by
  unfold Cpu.elementOfs Cpu.stepOfs Cpu.moved Cpu.idx Cpu.get16
  rw [setGen_self]
  cases c.mode.addr32 with
  | true => rfl
  | false => exact congrArg (BitVec.setWidth 32) (setWidth_setLo16 _ _).symm

theorem stringInc_byte {c : Cpu} {w : Bool} (hz : c.mode.opSize w = .byte) :
    c.stringInc w = c.byteInc := by
  unfold Cpu.stringInc Cpu.byteInc
  rw [hz]
  rfl

/-- Offsets after the same number of steps of two widths. -/
theorem stepOfs_inj (c : Cpu) (wide : Bool) (r : Reg) (d e : U32) (n : Nat) :
    c.stepOfs wide wide r d n = c.stepOfs wide wide r e n ↔
      if wide then BitVec.ofNat 32 n * d = BitVec.ofNat 32 n * e
      else (BitVec.ofNat 32 n * d).setWidth 16 = (BitVec.ofNat 32 n * e).setWidth 16 := by
  unfold Cpu.stepOfs Cpu.moved Cpu.idx Cpu.get16
  rw [setGen_self, setGen_self]
  cases wide with
  | true =>
    show c.gen r + _ = c.gen r + _ ↔ _
    rw [BitVec.add_right_inj]
    exact Iff.rfl
  | false =>
    have hinj : ∀ a b : U16, a.setWidth 32 = b.setWidth 32 ↔ a = b := by
      intro a b
      bv_omega
    rw [if_neg Bool.false_ne_true, if_neg Bool.false_ne_true, hinj, idxAdd_low, idxAdd_low,
      BitVec.add_right_inj]
    exact Iff.rfl

/-- A multiple by four falls on the number itself only at zero. -/
theorem four_mul_mod {n : Nat} (k : Nat) (hn : n < 2 ^ k) : n = n * 4 % 2 ^ k ↔ n = 0 := by
  refine ⟨fun heq => ?_, fun hzero => by rw [hzero, Nat.zero_mul, Nat.zero_mod]⟩
  have hdvd : 2 ^ k ∣ n * 3 := by
    have hsub := Nat.sub_mod_eq_zero_of_mod_eq (heq.symm.trans (Nat.mod_eq_of_lt hn).symm)
    rw [show n * 4 - n = n * 3 by omega] at hsub
    exact Nat.dvd_of_mod_eq_zero hsub
  have hcop : Nat.Coprime (2 ^ k) 3 := Nat.Coprime.pow_left k (by decide)
  exact Nat.eq_zero_of_dvd_of_lt (hcop.dvd_of_dvd_mul_right hdvd) hn

/-- The index is behind the elements when these are bytes, or when there are none. -/
theorem stepOfs_eq_iff (c : Cpu) (w : Bool) (r : Reg) {n : Nat}
    (hn : n < 2 ^ 32) (hlow : c.mode.addr32 = false → n < 2 ^ 16) :
    c.stepOfs c.mode.addr32 c.mode.addr32 r c.byteInc n = c.elementOfs w r n ↔
      n = 0 ∨ c.mode.opSize w = .byte := by
  -- the sign of both steps is the same
  have hsign : c.stepOfs c.mode.addr32 c.mode.addr32 r c.byteInc n = c.elementOfs w r n ↔
      if c.mode.addr32 then BitVec.ofNat 32 n = BitVec.ofNat 32 n * (c.mode.opSize w).width.size
      else (BitVec.ofNat 32 n).setWidth 16 =
        (BitVec.ofNat 32 n * (c.mode.opSize w).width.size).setWidth 16 := by
    rw [elementOfs_eq, stepOfs_inj]
    have hone : BitVec.ofNat 32 n * (1 : U32) = BitVec.ofNat 32 n := BitVec.mul_one _
    unfold Cpu.byteInc Cpu.stringInc
    cases c.flag .df with
    | false => rw [if_neg Bool.false_ne_true, if_neg Bool.false_ne_true, hone]
    | true =>
      rw [if_pos rfl, if_pos rfl, BitVec.mul_neg, BitVec.mul_neg, hone, BitVec.neg_inj,
        BitVec.setWidth_neg_of_le (by decide), BitVec.setWidth_neg_of_le (by decide),
        BitVec.neg_inj]
  rw [hsign]
  have htwo : (BitVec.ofNat 32 n * (2 : U32)).toNat = n * 2 % 2 ^ 32 := by
    rw [BitVec.toNat_mul, BitVec.toNat_ofNat, Nat.mod_eq_of_lt hn]
    rfl
  have hfour : (BitVec.ofNat 32 n * (4 : U32)).toNat = n * 4 % 2 ^ 32 := by
    rw [BitVec.toNat_mul, BitVec.toNat_ofNat, Nat.mod_eq_of_lt hn]
    rfl
  generalize c.mode.addr32 = wide at hlow
  cases c.mode.opSize w with
  | byte => simp [OpSize.width, MemioWidth.size]
  | word =>
    simp only [OpSize.width, MemioWidth.size, reduceCtorEq, or_false]
    cases wide with
    | true =>
      rw [if_pos rfl, ← BitVec.toNat_inj, htwo, BitVec.toNat_ofNat]
      omega
    | false =>
      have hshort := hlow rfl
      rw [if_neg Bool.false_ne_true, ← BitVec.toNat_inj, BitVec.toNat_setWidth,
        BitVec.toNat_setWidth, htwo, BitVec.toNat_ofNat]
      omega
  | long =>
    simp only [OpSize.width, MemioWidth.size, reduceCtorEq, or_false]
    cases wide with
    | true =>
      rw [if_pos rfl, ← BitVec.toNat_inj, hfour, BitVec.toNat_ofNat, Nat.mod_eq_of_lt hn]
      exact four_mul_mod 32 hn
    | false =>
      have hshort := hlow rfl
      rw [if_neg Bool.false_ne_true, ← BitVec.toNat_inj, BitVec.toNat_setWidth,
        BitVec.toNat_setWidth, hfour, BitVec.toNat_ofNat, Nat.mod_eq_of_lt hn,
        Nat.mod_eq_of_lt hshort, Nat.mod_mod_of_dvd _ (by decide)]
      exact four_mul_mod 16 hshort

/-- Steps of the low half and of the whole register are the same as long as there is no carry. -/
theorem low_steps (v : U32) (down : Bool) {n : Nat} (hn : n < 2 ^ 32) :
    (∀ k ≤ n, idxAdd true (BitVec.ofNat 32 k * if down then -1 else 1) v =
      idxAdd false (BitVec.ofNat 32 k * if down then -1 else 1) v) ↔
      if down then n ≤ (v.setWidth 16).toNat else (v.setWidth 16).toNat + n < 2 ^ 16 := by
  have hv := v.isLt
  have hlow : (v.setWidth 16).toNat = v.toNat % 2 ^ 16 := BitVec.toNat_setWidth 16 v
  cases down with
  | false =>
    have hstep : ∀ k ≤ n,
        idxAdd true (BitVec.ofNat 32 k * 1) v = idxAdd false (BitVec.ofNat 32 k * 1) v ↔
        (v.toNat + k) % 2 ^ 32 = v.toNat / 2 ^ 16 * 2 ^ 16 + (v.toNat + k) % 2 ^ 16 := by
      intro k hk
      rw [show BitVec.ofNat 32 k * (1 : U32) = BitVec.ofNat 32 k from BitVec.mul_one _]
      unfold idxAdd
      rw [if_pos rfl, if_neg Bool.false_ne_true, ← BitVec.toNat_inj, toNat_setLo16,
        BitVec.toNat_add,
        BitVec.toNat_add, BitVec.toNat_setWidth, BitVec.toNat_setWidth, BitVec.toNat_ofNat]
      omega
    rw [if_neg Bool.false_ne_true, if_neg Bool.false_ne_true, hlow]
    constructor
    · intro hall
      by_contra hcarry
      have hbad := (hstep (2 ^ 16 - v.toNat % 2 ^ 16) (by omega)).mp (hall _ (by omega))
      omega
    · intro hfit k hk
      rw [hstep k hk]
      omega
  | true =>
    have hstep : ∀ k ≤ n,
        idxAdd true (BitVec.ofNat 32 k * -1) v = idxAdd false (BitVec.ofNat 32 k * -1) v ↔
        (v.toNat + (2 ^ 32 - k)) % 2 ^ 32 =
          v.toNat / 2 ^ 16 * 2 ^ 16 + (v.toNat + (2 ^ 32 - k)) % 2 ^ 16 := by
      intro k hk
      rw [BitVec.mul_neg,
        show BitVec.ofNat 32 k * (1 : U32) = BitVec.ofNat 32 k from BitVec.mul_one _]
      unfold idxAdd
      rw [if_pos rfl, if_neg Bool.false_ne_true, ← BitVec.toNat_inj, toNat_setLo16,
        BitVec.toNat_add,
        BitVec.toNat_add, BitVec.toNat_setWidth, BitVec.toNat_setWidth, BitVec.toNat_neg,
        BitVec.toNat_ofNat]
      omega
    rw [if_pos rfl, if_pos rfl, hlow]
    constructor
    · intro hall
      by_contra hcarry
      have hbad := (hstep (v.toNat % 2 ^ 16 + 1) (by omega)).mp (hall _ (by omega))
      omega
    · intro hfit k hk
      rw [hstep k hk]
      omega

/-! ### What is sent -/

/-- Later elements read what the state before holds, and go to ports with the same permissions. -/
structure SameReads (s t : St) : Prop where
  cpu : t.cpu = s.cpu
  mem : s.mem.Marked t.mem
  ports : ∀ q, t.io.permits q = s.io.permits q

namespace SameReads

variable {s t u : St}

theorem refl (s : St) : SameReads s s := ⟨rfl, .refl s.mem, fun _ => rfl⟩

theorem trans (h : SameReads s t) (h' : SameReads t u) : SameReads s u :=
  ⟨h'.cpu.trans h.cpu, h.mem.trans h'.mem, fun q => (h'.ports q).trans (h.ports q)⟩

theorem dataVal (h : SameReads s t) (width : MemioWidth) (seg : SegReg) (ofs : U32) :
    t.dataVal width seg ofs = s.dataVal width seg ofs := by
  unfold St.dataVal Cpu.linear
  rw [h.cpu, h.mem.access_result (by decide)]

theorem loaded (s : St) (width : MemioWidth) (seg : SegReg) (ofs : U32) :
    SameReads s (s.loaded width seg ofs) where
  cpu := loaded_cpu s width seg ofs
  mem := by
    rw [loaded_mem]
    exact .access (by decide) _ _ _ s.mem
  ports q := by
    unfold St.loaded St.checked
    split <;> rfl

end SameReads

/-- An output leaves the permissions. -/
theorem Sends.permits {p : U16} {n : Nat} {byte : Nat → U8} {s t : St} (h : Sends p n byte s t)
    (q : U16) : t.io.permits q = s.io.permits q := by
  have hwrite : ∀ m : U8, (m ||| accWrite).has permW = m.has permW := by decide
  have hinvalid : ∀ m : U8, (m ||| accInvalid).has permW = m.has permW := by decide
  unfold Io.permits
  rw [h.iopl, h.map]
  congr 1
  split
  · split
    · exact hwrite _
    · exact hinvalid _
  · rw [BitVec.or_zero]

theorem portOut_sends (s : St) (inp : PortInput) (port val : U32) :
    Sends (port.setWidth 16) 1 (byteOf val) { s with mem := { s.mem with invalid := false } }
      (s.portOut inp .byte port val) := vmOByte_sends _ port val _ (byteOf_zero val)

theorem portOut_sameReads (s : St) (inp : PortInput) (port val : U32) :
    SameReads s (s.portOut inp .byte port val) where
  cpu := portOut_cpu s inp .byte port val
  mem := by
    obtain ⟨b, io, hstep⟩ := vmOByte_step { s with mem := { s.mem with invalid := false } } port val
    show s.mem.Marked (vmOByte _ port val).mem
    rw [hstep]
    exact ⟨rfl, fun a => .refl (s.mem.flat a)⟩
  ports q := (portOut_sends s inp port val).permits q

theorem outsElement_sameReads (s : St) (inp : PortInput) (seg : SegReg) (ofs : U32) :
    SameReads s (s.outsElement inp .byte seg ofs) :=
  (SameReads.loaded s _ seg ofs).trans (portOut_sameReads _ inp _ _)

theorem outsElements_sameReads (inp : PortInput) (seg : SegReg) (ofs : Nat → U32) (n : Nat)
    (s : St) :
    SameReads s (elements (St.outsElement inp .byte seg) ofs n s) := by
  induction n with
  | zero => exact .refl s
  | succ n ih => exact ih.trans (outsElement_sameReads _ inp seg (ofs n))

theorem portDx_low (c : Cpu) : c.portDx.setWidth 16 = c.get16 .dx := by
  unfold Cpu.portDx
  rw [BitVec.setWidth_setWidth_of_le _ (by decide), BitVec.setWidth_eq]

theorem accepted_congr {io io' : Io} (hports : ∀ q, io'.permits q = io.permits q) (p : U16)
    (n : Nat) (byte : Nat → U8) : io'.accepted p n byte = io.accepted p n byte := by
  unfold Io.accepted
  simp only [hports]

/-- The bytes that `outs` sends. -/
theorem outsElements_sent (inp : PortInput) (seg : SegReg) (ofs : Nat → U32) (n : Nat) (s : St) :
    (elements (St.outsElement inp .byte seg) ofs n s).io.sent = s.io.sent ++
      (List.range n).flatMap fun i =>
        s.io.accepted (s.cpu.get16 .dx) 1 (byteOf (s.dataVal .b8 seg (ofs i))) := by
  induction n with
  | zero => exact (List.append_nil _).symm
  | succ n ih =>
    have hsame := outsElements_sameReads inp seg ofs n s
    rw [elements]
    generalize elements (St.outsElement inp .byte seg) ofs n s = t at ih hsame
    have hio : (t.loaded .b8 seg (ofs n)).io = t.io := by
      unfold St.loaded St.checked
      split <;> rfl
    have hsent : (t.outsElement inp .byte seg (ofs n)).io.sent =
        (t.loaded .b8 seg (ofs n)).io.sent ++ (t.loaded .b8 seg (ofs n)).io.accepted
          (t.cpu.portDx.setWidth 16) 1
          (byteOf (((t.dataVal .b8 seg (ofs n)).setWidth 8).setWidth 32)) :=
      (portOut_sends (t.loaded .b8 seg (ofs n)) inp t.cpu.portDx _).sent
    have hbyte : t.io.accepted (s.cpu.get16 .dx) 1
          (byteOf (((s.dataVal .b8 seg (ofs n)).setWidth 8).setWidth 32)) =
        t.io.accepted (s.cpu.get16 .dx) 1 (byteOf (s.dataVal .b8 seg (ofs n))) := by
      rw [accepted_eq_iff]
      intro i hi _
      obtain rfl : i = 0 := by omega
      rw [← byteOf_zero, ← byteOf_zero, BitVec.setWidth_setWidth_of_le _ (by decide),
        BitVec.setWidth_eq]
    rw [hsent, hio, ih, hsame.dataVal, portDx_low, hsame.cpu, hbyte, accepted_congr hsame.ports,
      List.range_succ, List.flatMap_append, List.flatMap_singleton, List.append_assoc]

/-! ### The repeated instructions -/

theorem elements_congr (elem : U32 → St → St) {ofs ofs' : Nat → U32} {n : Nat}
    (hofs : ∀ i < n, ofs i = ofs' i) (s : St) : elements elem ofs n s = elements elem ofs' n s := by
  induction n with
  | zero => rfl
  | succ n ih =>
    rw [elements, elements, hofs n (Nat.lt_succ_self n),
      ih fun i hi => hofs i (Nat.lt_succ_of_lt hi)]

theorem count_lt (s : St) : s.count < 2 ^ 32 ∧ (s.cpu.mode.addr32 = false → s.count < 2 ^ 16) := by
  refine ⟨BitVec.isLt _, fun haddr => ?_⟩
  unfold St.count Cpu.idx
  rw [haddr, if_neg Bool.false_ne_true, BitVec.toNat_setWidth]
  exact Nat.lt_of_le_of_lt (Nat.mod_le _ _) (BitVec.isLt _)

theorem count_recount {s : St} {k : Nat} (hk : k ≤ s.count) : (s.recount k).count = k := by
  obtain ⟨hlt, hshort⟩ := count_lt s
  have hcx : (s.recount k).cpu.gen .cx = if s.cpu.mode.addr32 then BitVec.ofNat 32 k
      else setLo16 (s.cpu.gen .cx) (BitVec.ofNat 16 k) := setGen_self .cx _ s.cpu
  unfold St.count Cpu.idx Cpu.get16
  rw [hcx]
  show (if s.cpu.mode.addr32 then _ else _ : U32).toNat = k
  cases haddr : s.cpu.mode.addr32 with
  | true =>
    rw [if_pos rfl, if_pos rfl, BitVec.toNat_ofNat, Nat.mod_eq_of_lt (by omega)]
  | false =>
    have hk16 := hshort haddr
    rw [if_neg Bool.false_ne_true, if_neg Bool.false_ne_true, setWidth_setLo16,
      BitVec.toNat_setWidth,
      BitVec.toNat_ofNat]
    omega

theorem idx_counted {r : Reg} (hr : r ≠ .cx) (c : Cpu) (wide : Bool) (cx : U32)
    (repe repne : Bool) : (c.counted cx repe repne).idx wide r = c.idx wide r := by
  unfold Cpu.idx Cpu.get16
  rw [counted_gen hr]

theorem elements_gen {r : Reg} {elem : U32 → St → St} (ht : Transfers r elem) (hr : r ≠ .cx)
    (ofs : Nat → U32) (n : Nat) (s : St) (wide : Bool) (d cx : U32) (repe repne : Bool) :
    (((elements elem ofs n s).put (·.moved wide r d)).counted cx repe repne).cpu.gen r =
      idxAdd wide d (s.cpu.gen r) := by
  refine (counted_gen hr _ _ _ _).trans ((setGen_self r _ _).trans ?_)
  rw [elements_cpu ht]

/-- `n` rounds of the loop, with the counter cleared. -/
def St.looped (s : St) (elem : U32 → St → St) (r : Reg) : St :=
  ((elements elem (s.cpu.stepOfs s.cpu.mode.addr32 s.cpu.mode.addr32 r s.cpu.byteInc) s.count s).put
    (·.moved s.cpu.mode.addr32 r (BitVec.ofNat 32 s.count * s.cpu.byteInc))).counted
    (idxAdd s.cpu.mode.addr32 (-BitVec.ofNat 32 s.count) (s.cpu.gen .cx)) s.cpu.mode.repe
    s.cpu.mode.repne

section

variable {r : Reg} {elem : U32 → St → St} (ht : Transfers r elem) (hr : r ≠ .cx) {s t : St}
  (hview : t.view = (s.looped elem r).view)

include ht hr hview in
theorem looped_index : t.cpu.idx s.cpu.mode.addr32 r =
    s.cpu.stepOfs s.cpu.mode.addr32 s.cpu.mode.addr32 r s.cpu.byteInc s.count := by
  have hcpu : t.cpu = (s.looped elem r).cpu := congrArg (·.cpu) hview
  rw [hcpu]
  refine (idx_counted hr _ _ _ _ _).trans ?_
  rw [put_cpu, elements_cpu ht]
  rfl

include hview in
theorem looped_counter : t.cpu.idx s.cpu.mode.addr32 .cx = 0 := by
  have hset : ∀ (u : St) (cx : U32) (repe repne : Bool),
      (u.counted cx repe repne).cpu.gen .cx = cx :=
    fun u cx _ _ => setGen_self .cx cx u.cpu
  have hcx : t.cpu.gen .cx = if s.cpu.mode.addr32 then 0 else setLo16 (s.cpu.gen .cx) 0 :=
    (congrArg (·.cpu.gen .cx) hview).trans
      ((hset _ _ _ _).trans (idxAdd_neg_idx s.cpu s.cpu.mode.addr32 .cx))
  unfold Cpu.idx Cpu.get16
  rw [hcx]
  cases s.cpu.mode.addr32 with
  | true => rfl
  | false => exact congrArg (BitVec.setWidth 32) (setWidth_setLo16 (s.cpu.gen .cx) 0)

end

/-- What a repeated `outs` with elements needs: they are bytes, `ES` holds the bytes of the data
segment unless the port refuses them, and `SI` does not overflow when addresses have 32 bits. -/
structure OutsFits (w : Bool) (s : St) : Prop where
  byte : s.cpu.mode.opSize w = .byte
  seg : s.io.permits (s.cpu.get16 .dx) = true → ∀ i < s.count,
    (s.dataVal .b8 .es (s.cpu.elementOfs w .si i)).setWidth 8 =
      (s.dataVal .b8 s.cpu.stringSeg (s.cpu.elementOfs w .si i)).setWidth 8
  carry : s.cpu.mode.addr32 = true → if s.cpu.flag .df then s.count ≤ (s.cpu.get16 .si).toNat
    else (s.cpu.get16 .si).toNat + s.count < 2 ^ 16

theorem low_carry (s : St) : (∀ k ≤ s.count,
    idxAdd s.cpu.mode.addr32 (BitVec.ofNat 32 k * s.cpu.byteInc) (s.cpu.gen .si) =
      idxAdd false (BitVec.ofNat 32 k * s.cpu.byteInc) (s.cpu.gen .si)) ↔
    (s.cpu.mode.addr32 = true → if s.cpu.flag .df then s.count ≤ (s.cpu.get16 .si).toNat
      else (s.cpu.get16 .si).toNat + s.count < 2 ^ 16) := by
  cases s.cpu.mode.addr32 with
  | false => exact ⟨fun _ hwide => absurd hwide Bool.false_ne_true, fun _ _ _ => rfl⟩
  | true =>
    rw [forall_prop_of_true rfl]
    exact low_steps (s.cpu.gen .si) (s.cpu.flag .df) (count_lt s).1

theorem flatMap_accepted_iff (io : Io) (p : U16) (f g : Nat → U32) (n : Nat) :
    ((List.range n).flatMap fun i => io.accepted p 1 (byteOf (f i))) =
        ((List.range n).flatMap fun i => io.accepted p 1 (byteOf (g i))) ↔
      (io.permits p = true → ∀ i < n, (f i).setWidth 8 = (g i).setWidth 8) := by
  have hone : ∀ v, io.accepted p 1 (byteOf v) =
      if io.permits p = true then [(p, v.setWidth 8)] else [] := by
    intro v
    rw [accepted_succ, portAt_zero, byteOf_zero]
    exact List.nil_append _
  by_cases hok : io.permits p = true
  · have hsent : ∀ v, io.accepted p 1 (byteOf v) = [(p, v.setWidth 8)] :=
      fun v => (hone v).trans (if_pos hok)
    simp only [hsent, ← List.map_eq_flatMap, List.map_inj_left, List.mem_range, Prod.mk.injEq,
      true_and, hok, true_imp_iff]
  · have hnone : ∀ v, io.accepted p 1 (byteOf v) = [] := fun v => (hone v).trans (if_neg hok)
    simp only [hnone, hok, false_imp_iff, Bool.false_eq_true]

section

variable {inp : PortInput} {h : Host} (hh : h.Blind inp) (w : Bool) {s : St}
  (hrep : s.cpu.mode.rep = true)

include hh hrep

theorem ins_looped : (after h (oneByte (insOp w)) s).view =
    (s.looped (St.insElement inp (s.cpu.mode.opSize w)) .di).view := by
  refine (congrArg Prod.snd (seen_insOp hh w s)).trans ?_
  refine (portString_loop hh _ .di id (insStep_steady hh _ _ _) hrep).trans ?_
  exact view_counted (iterate_elements hh (insElement_transfers inp _)
    (seen_insStep hh (s.cpu.mode.opSize w) _ _ s.cpu.byteInc) s.count s) _ _ _

theorem outs_looped : (after h (oneByte (outsOp w)) s).view =
    (s.looped (St.outsElement inp (s.cpu.mode.opSize w) .es) .si).view := by
  refine (congrArg Prod.snd (seen_outsOp hh w s)).trans ?_
  refine (portString_loop hh _ .si _ (outsStep_steady hh _ _ _) hrep).trans ?_
  exact view_counted (iterate_elements hh (outsElement_transfers inp _ .es)
    (seen_outsStep hh (s.cpu.mode.opSize w) _ _ s.cpu.byteInc) s.count s) _ _ _

theorem ins_single : RepeatsSingle h (oneByte (insOp w)) s := by
  intro k hk
  have hiter := (ins_iterates hh w (s := s.recount k) hrep).same
  have hcount : ((s.recount k).cpu.idx (s.recount k).cpu.mode.addr32 .cx).toNat = k :=
    count_recount hk
  rw [hcount] at hiter
  exact hiter

/-- A repeated `ins` keeps its promise when the elements are bytes, or when there are none. -/
theorem repIns_iff : RepIns inp h w s ↔ s.count = 0 ∨ s.cpu.mode.opSize w = .byte := by
  have hloop := ins_looped hh w hrep
  have hindex := looped_index (insElement_transfers inp _) (by decide) hloop
  have hfits := stepOfs_eq_iff s.cpu w .di (count_lt s).1 (count_lt s).2
  constructor
  · exact fun hins => hfits.mp (hindex.symm.trans hins.index)
  · intro hsize
    have hofs : ∀ i < s.count,
        s.cpu.stepOfs s.cpu.mode.addr32 s.cpu.mode.addr32 .di s.cpu.byteInc i =
          s.cpu.elementOfs w .di i := by
      intro i hi
      rcases hsize with hzero | hbyte
      · omega
      · rw [elementOfs_eq, stringInc_byte hbyte]
    have helems := elements_congr (St.insElement inp (s.cpu.mode.opSize w)) hofs s
    refine ⟨?_, ?_, hindex.trans (hfits.mpr hsize), looped_counter hloop, ins_single hh w hrep⟩
    · rw [← helems]
      exact congrArg (·.mem) hloop
    · rw [← helems]
      exact congrArg (·.io) hloop

omit hrep in
theorem outs_unprefixed (s : St) (k : Nat) :
    (((after h (oneByte (outsOp w)))^[k] s.unprefixed).lessCount k s.cpu.mode).view =
    (((elements (St.outsElement inp (s.cpu.mode.opSize w) .es)
      (s.cpu.stepOfs s.cpu.mode.addr32 false .si s.cpu.byteInc) k s).put
      (·.moved false .si (BitVec.ofNat 32 k * s.cpu.byteInc))).counted
      (idxAdd s.cpu.mode.addr32 (-BitVec.ofNat 32 k) (s.cpu.gen .cx)) s.cpu.mode.repe
      s.cpu.mode.repne).view := by
  have hsingle : ∀ s : St, s.cpu.mode.rep = false → seen h (oneByte (outsOp w)) s = seen h
      (portStep (Op.outsTransfer (s.cpu.mode.opSize w)) s.cpu.mode.addr32 false .si s.cpu.byteInc)
        s :=
    fun s hs => (seen_outsOp hh w s).trans (seen_portString_single hh _ .si _ hs)
  refine (lessCount_unprefixed hh (outsSingle_stepwise hh w) hsingle k s).trans ?_
  exact view_counted (iterate_elements hh (outsElement_transfers inp _ .es)
    (seen_outsStep hh (s.cpu.mode.opSize w) _ false s.cpu.byteInc) k s) _ _ _

/-- A repeated `outs` is the iteration of the unprefixed one as long as the steps of `SI` are those
of the index register. -/
theorem outs_single_iff : RepeatsSingle h (oneByte (outsOp w)) s ↔ ∀ k ≤ s.count,
    idxAdd s.cpu.mode.addr32 (BitVec.ofNat 32 k * s.cpu.byteInc) (s.cpu.gen .si) =
      idxAdd false (BitVec.ofNat 32 k * s.cpu.byteInc) (s.cpu.gen .si) := by
  have hsi : ∀ k, (s.recount k).cpu.gen .si = s.cpu.gen .si :=
    fun k => counted_gen (by decide) s.cpu _ _ _
  have hmoved : ∀ k i wide, (s.recount k).cpu.moved wide .si (BitVec.ofNat 32 i * s.cpu.byteInc) =
      (s.recount k).cpu.setGen .si
        (idxAdd wide (BitVec.ofNat 32 i * s.cpu.byteInc) (s.cpu.gen .si)) := by
    intro k i wide
    rw [Cpu.moved, hsi]
  constructor
  · intro hsingle k hk
    have heq := (outs_looped hh w (s := s.recount k) hrep).symm.trans
      ((hsingle k hk).trans (outs_unprefixed hh w (s.recount k) k))
    have ht := outsElement_transfers inp (s.cpu.mode.opSize w) .es
    have hgen := (elements_gen ht (by decide) _ _ _ _ _ _ _ _).symm.trans
      ((congrArg (·.cpu.gen .si) heq).trans (elements_gen ht (by decide) _ _ _ _ _ _ _ _))
    rw [count_recount hk, hsi] at hgen
    exact hgen
  · intro hlow k hk
    refine (outs_looped hh w (s := s.recount k) hrep).trans
      (Eq.trans ?_ (outs_unprefixed hh w (s.recount k) k).symm)
    have hofs : ∀ i < k,
        (s.recount k).cpu.stepOfs s.cpu.mode.addr32 s.cpu.mode.addr32 .si s.cpu.byteInc i =
          (s.recount k).cpu.stepOfs s.cpu.mode.addr32 false .si s.cpu.byteInc i := by
      intro i hi
      unfold Cpu.stepOfs
      rw [hmoved, hmoved, hlow i (by omega)]
    have helems := elements_congr (St.outsElement inp (s.cpu.mode.opSize w) .es) hofs (s.recount k)
    have hput : ∀ t : St, t.cpu = (s.recount k).cpu →
        t.put (·.moved s.cpu.mode.addr32 .si (BitVec.ofNat 32 k * s.cpu.byteInc)) =
          t.put (·.moved false .si (BitVec.ofNat 32 k * s.cpu.byteInc)) := by
      intro t ht
      refine put_congr ?_
      rw [ht, hmoved, hmoved, hlow k hk]
    have hcpu := elements_cpu (outsElement_transfers inp (s.cpu.mode.opSize w) .es)
      ((s.recount k).cpu.stepOfs s.cpu.mode.addr32 false .si s.cpu.byteInc) k (s.recount k)
    unfold St.looped
    rw [count_recount hk]
    refine view_counted (congrArg St.view ?_) _ _ _
    exact (congrArg (fun t : St => t.put _) helems).trans (hput _ hcpu)

/-- A repeated `outs` keeps its promise when there are no elements, or when these are bytes, `ES`
holds the bytes of the data segment and `SI` does not overflow. -/
theorem repOuts_iff : RepOuts h w s ↔ s.count = 0 ∨ OutsFits w s := by
  have hloop := outs_looped hh w hrep
  have hindex := looped_index (outsElement_transfers inp _ .es) (by decide) hloop
  have hfits := stepOfs_eq_iff s.cpu w .si (count_lt s).1 (count_lt s).2
  have hsingle := (outs_single_iff hh w hrep).trans (low_carry s)
  have hsent : (after h (oneByte (outsOp w)) s).io.sent =
      (elements (St.outsElement inp (s.cpu.mode.opSize w) .es) (s.cpu.stepOfs s.cpu.mode.addr32
        s.cpu.mode.addr32 .si s.cpu.byteInc) s.count s).io.sent := congrArg (·.io.sent) hloop
  have hbytes : s.cpu.mode.opSize w = .byte →
      ((after h (oneByte (outsOp w)) s).io.sent = s.io.sent ++
      ((List.range s.count).flatMap fun i =>
        s.io.accepted (s.cpu.get16 .dx) (s.cpu.mode.opSize w).width.count (byteOf
          (s.dataVal (s.cpu.mode.opSize w).width s.cpu.stringSeg (s.cpu.elementOfs w .si i)))) ↔
      (s.io.permits (s.cpu.get16 .dx) = true → ∀ i < s.count,
        (s.dataVal .b8 .es (s.cpu.elementOfs w .si i)).setWidth 8 =
          (s.dataVal .b8 s.cpu.stringSeg (s.cpu.elementOfs w .si i)).setWidth 8)) := by
    intro hbyte
    have hofs : s.cpu.stepOfs s.cpu.mode.addr32 s.cpu.mode.addr32 .si s.cpu.byteInc =
        s.cpu.elementOfs w .si := by
      funext i
      rw [elementOfs_eq, stringInc_byte hbyte]
    rw [hsent, hbyte, hofs, outsElements_sent, List.append_right_inj]
    exact flatMap_accepted_iff s.io _ _ _ _
  constructor
  · intro houts
    by_cases hzero : s.count = 0
    · exact Or.inl hzero
    · have hbyte := (hfits.mp (hindex.symm.trans houts.index)).resolve_left hzero
      exact Or.inr ⟨hbyte, (hbytes hbyte).mp houts.sent, hsingle.mp houts.single⟩
  · intro hcond
    have hsize : s.count = 0 ∨ s.cpu.mode.opSize w = .byte := hcond.imp_right fun hf => hf.byte
    refine ⟨?_, hindex.trans (hfits.mpr hsize), looped_counter hloop, hsingle.mpr ?_⟩
    · rcases hcond with hzero | hf
      · rw [hsent, hzero]
        exact (List.append_nil _).symm
      · exact (hbytes hf.byte).mpr hf.seg
    · rcases hcond with hzero | hf
      · rw [hzero]
        intro _
        split
        · exact Nat.zero_le _
        · exact BitVec.isLt _
      · exact hf.carry

end

/-- The repeated instructions transfer contiguous elements exactly under the two conditions. -/
theorem contiguous_iff {inp : PortInput} {h : Host} (hh : h.Blind inp) {s : St}
    (hrep : s.cpu.mode.rep = true) (w : Bool) :
    (RepIns inp h w s ↔ s.count = 0 ∨ s.cpu.mode.opSize w = .byte) ∧
      (RepOuts h w s ↔ s.count = 0 ∨ OutsFits w s) :=
  ⟨repIns_iff hh w hrep, repOuts_iff hh w hrep⟩

/-- `rep insb` with 3 in `CX`. -/
theorem contiguous_iff_insb :
    let s : St := { cpu := { resetCpu.setGen .cx 3 with mode := { repe := true } } }
    RepIns (fun _ _ _ => 0) (defaultHost fun _ _ _ => 0) false s :=
  ((contiguous_iff (defaultHost_default _).blind rfl false).1).mpr (Or.inr rfl)

/-- `rep insw` with 1 in `CX`: `DI` is 1 behind the start. -/
theorem contiguous_fails :
    let s : St := { cpu := { resetCpu.setGen .cx 1 with mode := { repe := true } } }
    ¬RepIns (fun _ _ _ => 0) (defaultHost fun _ _ _ => 0) true s := by
  intro s hins
  rcases (repIns_iff (defaultHost_default _).blind true rfl).mp hins with hzero | hbyte
  · have hone : s.count = 1 := rfl
    omega
  · cases hbyte

end X86Emu
