import X86Emu.Decode.Fetch

/-!
# Descriptors and segment registers

`decode_descriptor`, `x86emu_set_seg_register`, `idt_lookup`, and the stack functions of
`prim_ops.c`. `Descr` has the fields of `descr_t`; where the source stores a gate's offset and
selector over base and limit, they are fields of their own.
-/

namespace X86Emu

open Lib

/-- `descr_t` -/
structure Descr where
  base : U32 := 0
  limit : U32 := 0
  offset : U32 := 0
  sel : U16 := 0
  wCount : U16 := 0
  acc : U16 := 0
  invalid : Bool := false
  seg : Bool := false
  dpl : BitVec 2 := 0
  r : Bool := false
  w : Bool := false
  x : Bool := false
  c : Bool := false
  a : Bool := false
  p : Bool := false
  g : Bool := false
  ed : Bool := false
  ldt : Bool := false
  cGate : Bool := false
  iGate : Bool := false
  tGate : Bool := false
  tss : Bool := false
  busy : Bool := false
  trap : Bool := false
  isI386 : Bool := false
  deriving DecidableEq, Repr

/-- The access bits of a descriptor: bits 8 to 15 and 20 to 23 of the high dword. -/
def descrAcc (dh : U32) : U16 :=
  (((dh >>> 8) &&& 0xff) + ((dh >>> 12) &&& 0xf00)).setWidth 16

/-- The fields of a code or data segment. -/
def Descr.withSegment (d : Descr) (acc : U16) : Descr :=
  let d := { d with seg := true, isI386 := accD acc, a := accA acc }
  if accE acc then { d with x := true, c := accC acc, r := accR acc }
  else { d with r := true, ed := accEd acc, w := accW acc }

/-- The fields of a system descriptor; the cases 3 and 7 fall through to 1 and 6. -/
def Descr.withSystem (d : Descr) (acc : U16) : Descr :=
  let d := if acc.getLsbD 3 then { d with isI386 := true } else d
  match (acc.extractLsb' 0 3).toNat with
  | 0 => { d with invalid := true }
  | 1 => { d with tss := true }
  | 2 => { d with ldt := true }
  | 3 => { d with busy := true, tss := true }
  | 4 => { d with cGate := true }
  | 5 => { d with tGate := true }
  | 6 => { d with iGate := true }
  | _ => { d with trap := true, iGate := true }

def Descr.isGate (d : Descr) : Bool := d.cGate || d.iGate || d.tGate

/-- The value `decode_descriptor` computes from the two dwords of a table entry. -/
def parseDescriptor (dl dh : U32) : Descr :=
  let acc := descrAcc dh
  let limit := (dl &&& 0xffff) + (dh &&& 0xf0000)
  let d : Descr :=
    { acc := acc
      base := ((dl >>> 16) &&& 0xffff) + ((dh &&& 0xff) <<< 16) + (dh &&& 0xff000000)
      limit := if accG acc then (limit <<< 12) + 0xfff else limit
      g := accG acc
      p := accP acc
      dpl := accDpl acc }
  let d := if accS acc then d.withSegment acc else d.withSystem acc
  if d.isGate then
    { d with
      offset := (dl &&& 0xffff) + (dh &&& 0xffff0000)
      sel := (dl >>> 16).setWidth 16
      wCount := (dh &&& 0x1f).setWidth 16 }
  else
    -- the gate fields lie over base and limit
    { d with
      offset := d.base
      sel := d.limit.setWidth 16
      wCount := (d.limit >>> 16).setWidth 16 }

def flagText (c : Bool) (t : String) : List Char := if c then t.toList else []

/-- The names of the bits of a descriptor in its log line. -/
def Descr.bitsText (d : Descr) : List Char :=
  flagText d.p " p" ++ flagText d.a " a" ++ flagText d.r " r" ++ flagText d.w " w" ++
  flagText d.x " x" ++ flagText d.c " c" ++ flagText d.ed " ed" ++ flagText d.g " g" ++
  flagText d.isI386 " 32" ++ flagText d.ldt " ldt" ++ flagText d.tss " tss" ++
  flagText d.busy " busy" ++ flagText d.cGate " callgate" ++ flagText d.iGate " intgate" ++
  flagText d.tGate " taskgate" ++ flagText d.trap " trap" ++ flagText d.invalid " invalid"

def Descr.fieldsText (d : Descr) : List Char :=
  if d.seg then
    " base=".toList ++ decodeHex8 d.base ++ " limit=".toList ++ decodeHex8 d.limit
  else
    " sel=".toList ++ decodeHex4 (d.sel.setWidth 32) ++ " ofs=".toList ++ decodeHex8 d.offset ++
      " wcnt=".toList ++ decodeHex2 (d.wCount.setWidth 32)

def descrText (dl dh : U32) : List Char :=
  let d := parseDescriptor dl dh
  "d [".toList ++ decodeHex8 dh ++ " ".toList ++ decodeHex8 dl ++ "] =".toList ++
    d.fieldsText ++ " dpl=".toList ++ decodeHex1 (d.dpl.setWidth 32) ++ d.bitsText ++ "\n".toList

theorem length_flagText (c : Bool) {t : String} {n : Nat} (h : t.toList.length = n) :
    (flagText c t).length ≤ n := by
  cases c
  · exact Nat.zero_le _
  · exact Nat.le_of_eq h

theorem length_bitsText (d : Descr) : d.bitsText.length ≤ 80 := by
  simp only [Descr.bitsText, List.length_append]
  have hp : (flagText d.p " p").length ≤ 2 := length_flagText _ (by simp)
  have ha : (flagText d.a " a").length ≤ 2 := length_flagText _ (by simp)
  have hr : (flagText d.r " r").length ≤ 2 := length_flagText _ (by simp)
  have hw : (flagText d.w " w").length ≤ 2 := length_flagText _ (by simp)
  have hx : (flagText d.x " x").length ≤ 2 := length_flagText _ (by simp)
  have hc : (flagText d.c " c").length ≤ 2 := length_flagText _ (by simp)
  have hed : (flagText d.ed " ed").length ≤ 3 := length_flagText _ (by simp)
  have hg : (flagText d.g " g").length ≤ 2 := length_flagText _ (by simp)
  have h32 : (flagText d.isI386 " 32").length ≤ 3 := length_flagText _ (by simp)
  have hldt : (flagText d.ldt " ldt").length ≤ 4 := length_flagText _ (by simp)
  have htss : (flagText d.tss " tss").length ≤ 4 := length_flagText _ (by simp)
  have hbusy : (flagText d.busy " busy").length ≤ 5 := length_flagText _ (by simp)
  have hcall : (flagText d.cGate " callgate").length ≤ 9 := length_flagText _ (by simp)
  have hint : (flagText d.iGate " intgate").length ≤ 8 := length_flagText _ (by simp)
  have htask : (flagText d.tGate " taskgate").length ≤ 9 := length_flagText _ (by simp)
  have htrap : (flagText d.trap " trap").length ≤ 5 := length_flagText _ (by simp)
  have hinv : (flagText d.invalid " invalid").length ≤ 8 := length_flagText _ (by simp)
  omega

theorem length_fieldsText (d : Descr) : d.fieldsText.length ≤ 40 := by
  unfold Descr.fieldsText
  split <;> simp

theorem length_descrText (dl dh : U32) : (descrText dl dh).length < 512 := by
  have h₁ := length_bitsText (parseDescriptor dl dh)
  have h₂ := length_fieldsText (parseDescriptor dl dh)
  have h₃ : "d [".toList.length = 3 := by simp
  have h₄ : " ".toList.length = 1 := by simp
  have h₅ : "] =".toList.length = 3 := by simp
  have h₆ : " dpl=".toList.length = 5 := by simp
  have h₇ : "\n".toList.length = 1 := by simp
  unfold descrText
  simp only [List.length_append, length_decodeHex1, length_decodeHex8, h₃, h₄, h₅, h₆, h₇]
  generalize (parseDescriptor dl dh).bitsText.length = bits at h₁ ⊢
  generalize (parseDescriptor dl dh).fieldsText.length = fields at h₂ ⊢
  omega

def decodeDescriptor (dl dh : U32) : Emu Descr := do
  writeLog 512 (·.has traceAcc) (fun _ => descrText dl dh)
    (fun _ => length_descrText dl dh)
  return parseDescriptor dl dh

/-! ## Loading a segment register -/

/-- Base and limit of the table a selector refers to. -/
def Cpu.descrTable (c : Cpu) (val : U16) : U32 × U32 :=
  if val.getLsbD 2 then (c.ldt.base, c.ldt.limit) else (c.gdtBase, c.gdtLimit)

/-- The protected mode branch; whether there was an error. -/
def loadDescriptor (ref : SelRef) (val : U16) : Emu Bool := do
  let ofs : U32 := val.setWidth 32 &&& ~~~7
  let (base, limit) := (← getCpu).descrTable val
  if ofs = 0 then
    setSel ref {}
    return false
  else if ofs + 7 ≤ limit then
    let (dl, err₀) ← emuMemio .r .b32 (base + ofs) 0
    let (dh, err₁) ← emuMemio .r .b32 (base + ofs + 4) 0
    if err₀ || err₁ then
      return true
    else
      let d ← decodeDescriptor dl dh
      if !d.invalid && d.p && d.seg then
        setSel ref ⟨d.base, d.limit, val, d.acc⟩
        return false
      else
        return true
  else
    return true

def x86emuSetSegRegister (ref : SelRef) (val : U16) : Emu Unit := do
  let cpu ← getCpu
  if cpu.prot then
    if ← loadDescriptor ref val then intrRaiseGp (val.setWidth 32)
  else
    setSel ref { cpu.getSel ref with sel := val, base := val.setWidth 32 <<< 4 }

/-! ## Stack -/

/-- The common body of `push_word` and `push_long`. -/
def pushVal (size : Nat) (store : U32 → Emu Unit) : Emu Unit := do
  if (← getMode).stack32 then
    setGen .sp ((← getGen .sp) - BitVec.ofNat 32 size)
    store (← getGen .sp)
  else
    set16 .sp ((← get16 .sp) - BitVec.ofNat 16 size)
    store ((← get16 .sp).setWidth 32)

def pushWord (w : U16) : Emu Unit := pushVal 2 fun ofs => storeDataWordAbs .ss ofs w

def pushLong (w : U32) : Emu Unit := pushVal 4 fun ofs => storeDataLongAbs .ss ofs w

/-- The common body of `pop_word` and `pop_long`. -/
def popVal {α : Type} (size : Nat) (fetch : U32 → Emu α) : Emu α := do
  if (← getMode).stack32 then
    let res ← fetch (← getGen .sp)
    setGen .sp ((← getGen .sp) + BitVec.ofNat 32 size)
    return res
  else
    let res ← fetch ((← get16 .sp).setWidth 32)
    set16 .sp ((← get16 .sp) + BitVec.ofNat 16 size)
    return res

def popWord : Emu U16 := popVal 2 (fetchDataWordAbs .ss)

def popLong : Emu U32 := popVal 4 (fetchDataLongAbs .ss)

end X86Emu
