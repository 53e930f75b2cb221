import X86Emu.Decode.Segment

/-!
# Interrupts

`idt_lookup`, `generate_int` and `handle_interrupt`. The part of `generate_int` after the host's
interrupt handler is the program `deliverInt`.
-/

namespace X86Emu

open Lib

/-- `idt_lookup`: the new `CS` and the new `EIP`, from the values they have otherwise. -/
def idtLookup (nr : U8) (cs eip : U32) : Emu (U32 × U32) := do
  if (← getCpu).prot then
    let ofs : U32 := nr.setWidth 32 <<< 3
    if ofs + 7 ≤ (← getCpu).idtLimit then
      let (dl, err₀) ← decodeMemio .r .b32 ((← getCpu).idtBase + ofs) 0
      let (dh, err₁) ← decodeMemio .r .b32 ((← getCpu).idtBase + ofs + 4) 0
      if err₀ || err₁ then
        return (cs, eip)
      else
        let d ← decodeDescriptor dl dh
        if !d.invalid && d.p && d.iGate then
          return (d.sel.setWidth 32, d.offset)
        else
          return (cs, eip)
    else
      return (cs, eip)
  else
    -- an error of these two reads is not looked at
    let ofs : U32 := nr.setWidth 32 <<< 2
    let (eip, _) ← decodeMemio .r .b16 ((← getCpu).idtBase + ofs) eip
    let (cs, _) ← decodeMemio .r .b16 ((← getCpu).idtBase + ofs + 2) cs
    return (cs, eip)

/-- The frame pushed by `generate_int`. -/
def pushFrame (cs eip : U32) : Emu Unit := do
  let cpu ← getCpu
  if cpu.prot && cpu.mode.code32 then
    pushLong (← getCpu).eflg
    pushLong cs
    pushLong eip
  else
    pushWord ((← getCpu).eflg.setWidth 16)
    pushWord (cs.setWidth 16)
    pushWord (eip.setWidth 16)

/-- The return address of an interrupt: `CS` and `EIP`. -/
def Cpu.returnAddr (c : Cpu) (type : U32) : U32 × U32 :=
  if type &&& intrModeRestart ≠ 0 then (c.savedCs.setWidth 32, c.savedEip)
  else ((c.seg .cs).sel.setWidth 32, c.eip)

def deliverInt (nr : U8) (type errcode : U32) : Emu Unit := do
  let (cs, eip) := (← getCpu).returnAddr type
  let (newCs, newEip) ← idtLookup nr cs eip
  pushFrame cs eip
  if type &&& intrModeErrcode ≠ 0 then pushLong errcode
  flags (clearFlag .if')
  flags (clearFlag .tf)
  x86emuSetSegRegister (.seg .cs) (newCs.setWidth 16)
  setEip newEip

/-- The host's interrupt handler, and whether it handled the interrupt. -/
def callIntr (nr : U8) (type : U32) (h : Host) (s : St) : Bool × St :=
  match h.intr with
  | some f => f s nr type
  | none => (false, s)

def generateInt (nr : U8) (type errcode : U32) (h : Host) (s : St) : St :=
  let s := { s with
    intrStats := Function.update s.intrStats nr (s.intrStats nr + 1)
    hist := .deliver nr type :: s.hist }
  let (handled, s) := callIntr nr type h s
  if handled then s else ((deliverInt nr type errcode).run h s).2

def intText (i : Intr) : List Char :=
  (if i.type &&& 0xff = intrTypeFault then "* fault " else "* int ").toList ++
    decodeHex2 (i.nr.setWidth 32) ++ "\n".toList

def handleInterrupt (h : Host) (s : St) : St :=
  let s :=
    if s.intr.type = 0 then s
    else
      let s := logLine 128 (·.has traceInts) (fun s => intText s.intr) h s
      generateInt s.intr.nr s.intr.type s.intr.errcode h s
  { s with intr := { s.intr with type := 0 } }

end X86Emu
