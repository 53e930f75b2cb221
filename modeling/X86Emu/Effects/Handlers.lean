import X86Emu.Effects.Decode
import X86Emu.Ops.Table

/-!
# Effects of the opcode handlers

One line for each handler of `ops.c`: how many characters it appends at most, and what it may do.
A memory form relies on `mod` not being 3, and then the address raises nothing.
-/

namespace X86Emu.Op

open Lib

set_option synthInstance.maxSize 4096

/-! ## Arithmetic -/

instance (op : U8) : Does (illegalOp op) 14 mayUd := by unfold illegalOp; exact .le
instance (wide : Bool) (op : U8) : Does (opARmR wide op) 31 mayWrite := by
  unfold opARmR
  dsimp only
  exact .le
instance (wide : Bool) (op : U8) : Does (opARRm wide op) 31 mayWrite := by
  unfold opARRm
  dsimp only
  exact .le

theorem accImm_does (z : OpSize) (text : String) : Does (accImm z text) (text.length + 8) ⊥ := by
  unfold accImm
  exact .le (Nat.le_refl _) (by decide)

instance (text : String) : Does (accImm .byte text) (text.length + 8) ⊥ := accImm_does .byte text
instance (text : String) : Does (accImm .word text) (text.length + 8) ⊥ := accImm_does .word text
instance (text : String) : Does (accImm .long text) (text.length + 8) ⊥ := accImm_does .long text
instance (op : U8) : Does (opAByteAlImm op) 15 mayWrite := by
  unfold opAByteAlImm
  dsimp only
  exact .le
instance (op : U8) : Does (opAWordAxImm op) 16 mayWrite := by
  unfold opAWordAxImm
  dsimp only
  exact .le

/-- The immediate forms of group A; an immediate has at most eight digits. -/
instance (wide : Bool) (imm : (z : OpSize) → Emu (BitVec z.bits)) {n : Nat}
    [hi : ∀ z, Does (imm z) n ⊥] : Does (opcARmImm wide imm) (34 + n) mayWrite := by
  unfold opcARmImm
  exact .le (by omega) (by decide)

instance (op32 : U32 → FlagOp U32) (op16 : U16 → FlagOp U16) (text32 text16 : String) (r : Reg) :
    Does (stepReg op32 op16 text32 text16 r) (max text32.length text16.length) mayWrite := by
  unfold stepReg
  exact .le (by omega) (by decide)

instance (op : U8) : Does (daa op) 3 mayWrite := by unfold daa; exact .le
instance (op : U8) : Does (das op) 3 mayWrite := by unfold das; exact .le
instance (op : U8) : Does (aaa op) 3 mayWrite := by unfold aaa; exact .le
instance (op : U8) : Does (aas op) 3 mayWrite := by unfold aas; exact .le
instance (op : U8) : Does (aam op) 3 mayWrite := by unfold aam; dsimp only; exact .le
instance (op : U8) : Does (aad op) 3 mayWrite := by unfold aad; exact .le
instance (op : U8) : Does (cbw op) 4 mayWrite := by unfold cbw; exact .le
instance (op : U8) : Does (cwd op) 3 mayWrite := by unfold cwd; exact .le

instance (z : OpSize) (rh : BitVec 3) (d s : BitVec z.bits) :
    Does (imulStore z rh d s) 0 mayWrite := by
  unfold imulStore
  dsimp only
  exact .le


instance (immReg immMem : (z : OpSize) → Emu (BitVec z.bits)) {n m : Nat}
    [hr : ∀ z, Does (immReg z) n ⊥] [hm : ∀ z, Does (immMem z) m ⊥] :
    Does (imulImm immReg immMem) (max (12 + n) (32 + m)) mayWrite := by
  unfold imulImm
  have htext : "imul ".length = 5 := by decide
  exact .le (by omega) (by decide)

instance (ext : U16 → U32) (z : OpSize) : Does (imulWordImmediate ext z) 10 ⊥ := by
  unfold imulWordImmediate
  cases z <;> exact .le

instance (z : OpSize) : Does (imulByteImmediate z) 4 ⊥ := by unfold imulByteImmediate; exact .le
instance (wide : Bool) : Does (testRmR wide) 32 mayWrite := by unfold testRmR; exact .le
instance (op : U8) : Does (testAlImm op) 16 mayWrite := by unfold testAlImm; exact .le
instance (op : U8) : Does (testAxImm op) 17 mayWrite := by unfold testAxImm; exact .le

/-- A shift or rotate after its mnemonic. -/
instance (wide : Bool) (m : ModRm) (text : String) (count : Emu U8) {n : Nat}
    [hc : Does count n ⊥] : Does (shiftRm wide m text count) (29 + text.length + n) mayWrite := by
  unfold shiftRm
  exact .le (by omega) (by decide)

instance (wide : Bool) : Does (shiftRmImm wide) 42 mayWrite := by unfold shiftRmImm; exact .le
instance (wide : Bool) : Does (shiftRm1 wide) 35 mayWrite := by unfold shiftRm1; exact .le
instance (wide : Bool) : Does (shiftRmCl wide) 36 mayWrite := by unfold shiftRmCl; exact .le

theorem groupText_length : ∀ rh : BitVec 3, (groupText rh).length ≤ 5 := by decide

instance (rh : BitVec 3) : Does (opDecode (groupText rh)) 5 ⊥ := opDecode_does (groupText_length rh)

instance (z : OpSize) (rh : BitVec 3) (val : BitVec z.bits) :
    Does (groupUse z rh val) 0 mayWrite := by
  unfold groupUse
  split <;> exact .le

instance (z : OpSize) (m : ModRm) : Does (groupReg z m) 12 mayWrite := by
  unfold groupReg
  refine Does.andThen (m := 9) (g := mayWrite) (fun _ => ?_) (by decide) (by decide)
  split <;> exact .le

/-- The longest text of all: `dword ` and an address, a comma and eight digits. -/
instance (z : OpSize) (m : ModRm) (hmod : ¬m.mod = 3) :
    Does (memForm hmod (groupMem z m)) 38 mayWrite := by
  have haddr := decodeRmAddress_does hmod m.regl
  unfold memForm groupMem
  refine Does.andThen (m := 32) (g := mayWrite) (fun _ => ?_) (by decide) (by decide)
  refine Does.andThen (m := 9) (g := mayWrite) (fun _ => ?_) (by decide) (by decide)
  split <;> exact .le

instance (wide : Bool) : Does (groupRm wide) 43 mayWrite := by unfold groupRm; exact .le
instance (op : U8 → FlagOp U8) (m : ModRm) : Does (stepByteRm op m) 28 mayWrite := by
  unfold stepByteRm
  exact .le

instance (op : U8) : Does (opcFeByteRm op) 32 (mayUd ⊔ mayWrite) := by
  unfold opcFeByteRm
  refine Does.andThen (m := 32) (g := mayUd ⊔ mayWrite) (fun m => ?_) (by decide) (by decide)
  split <;> exact .le

instance (text : String) (op : FlagOp Unit) : Does (flagOp text op) text.length mayWrite := by
  unfold flagOp
  exact .le (by omega) (by decide)

instance (op : U8) : Does (setalc op) 6 mayWrite := by unfold setalc; exact .le
instance (op : U8) : Does (sahf op) 4 mayFlags := by unfold sahf; exact .le
instance (op : U8) : Does (lahf op) 4 mayWrite := by unfold lahf; exact .le

/-! ## Data movement -/

instance (v : U16) : Does (pushSel v) 0 mayWrite := by unfold pushSel; exact .le
instance : Does popSel 0 mayWrite := by unfold popSel; exact .le

instance (text : String) (r : SegReg) : Does (pushSeg text r) text.length mayWrite := by
  unfold pushSeg
  exact .le (by omega) (by decide)

instance (text : String) (r : SegReg) : Does (popSeg text r) text.length (mayWrite ⊔ maySeg) := by
  unfold popSeg
  exact .le (by omega) (by decide)

instance (text32 text16 : String) (r : Reg) :
    Does (pushReg text32 text16 r) (max text32.length text16.length) mayWrite := by
  unfold pushReg
  exact .le (by omega) (by decide)

instance (text32 text16 : String) (r : Reg) :
    Does (popReg text32 text16 r) (max text32.length text16.length) mayWrite := by
  unfold popReg
  exact .le (by omega) (by decide)

instance (op : U8) : Does (pushAll op) 6 mayWrite := by unfold pushAll; exact .le
instance (op : U8) : Does (popAll op) 5 mayWrite := by unfold popAll; exact .le
instance (op : U8) : Does (pushWordImm op) 13 mayWrite := by unfold pushWordImm; exact .le
instance (op : U8) : Does (pushByteImm op) 8 mayWrite := by unfold pushByteImm; exact .le
instance (op : U8) : Does (pushfWord op) 6 mayWrite := by unfold pushfWord; dsimp only; exact .le
instance (op : U8) : Does (popfWord op) 5 (mayWrite ⊔ mayFlags) := by unfold popfWord; exact .le
instance (op : U8) : Does (popRm op) 27 (mayUd ⊔ mayWrite) := by unfold popRm; exact .le
instance : Does enterCopy 0 mayWrite := by unfold enterCopy; dsimp only; exact .le

instance (op : U8) : Does (enter op) 13 mayWrite := by unfold enter; dsimp only; exact .le
instance (op : U8) : Does (leave op) 5 mayWrite := by unfold leave; exact .le
instance (wide : Bool) : Does (xchgRmR wide) 32 mayWrite := by unfold xchgRmR; exact .le

instance (text32 text16 : String) (r : Reg) :
    Does (xchgAx text32 text16 r) (max text32.length text16.length) mayWrite := by
  unfold xchgAx
  exact .le (by omega) (by decide)

instance (wide : Bool) : Does (movRmR wide) 31 mayWrite := by unfold movRmR; exact .le
instance (wide : Bool) : Does (movRRm wide) 31 mayWrite := by unfold movRRm; exact .le
instance (rh : BitVec 3) : Does (fetchSelector rh) 2 mayUd := by unfold fetchSelector; exact .le
instance (op : U8) : Does (movWordRmSr op) 30 (mayUd ⊔ mayWrite) := by unfold movWordRmSr; exact .le
instance (op : U8) : Does (movWordSrRm op) 30 (mayUd ⊔ maySeg) := by unfold movWordSrRm; exact .le
instance (op : U8) : Does (leaWordRM op) 31 (mayUd ⊔ mayWrite) := by unfold leaWordRM; exact .le

instance (text : String) (seg : SegReg) :
    Does (loadFarPtr text seg) (text.length + 27) (mayUd ⊔ mayWrite ⊔ maySeg) := by
  unfold loadFarPtr
  exact .le (by omega) (by decide)

instance (op : U8) : Does (movByteRmImm op) 36 (mayUd ⊔ mayWrite) := by
  unfold movByteRmImm
  exact .le
instance (op : U8) : Does (movWordRmImm op) 36 (mayUd ⊔ mayWrite) := by
  unfold movWordRmImm
  dsimp only
  exact .le

instance (text : String) (r : Reg8) : Does (movByteImm text r) (text.length + 8) mayWrite := by
  unfold movByteImm
  exact .le (by omega) (by decide)

instance (text32 text16 : String) (r : Reg) :
    Does (movWordImm text32 text16 r) (max text32.length text16.length + 8) mayWrite := by
  unfold movWordImm
  exact .le (by omega) (by decide)

instance : Does fetchOffset 8 ⊥ := by unfold fetchOffset; exact .le
instance (op : U8) : Does (movAlMImm op) 17 mayWrite := by unfold movAlMImm; exact .le
instance (op : U8) : Does (movAxMImm op) 18 mayWrite := by unfold movAxMImm; exact .le
instance (op : U8) : Does (movMAlImm op) 17 mayWrite := by unfold movMAlImm; exact .le
instance (op : U8) : Does (movMAxImm op) 18 mayWrite := by unfold movMAxImm; exact .le
instance (op : U8) : Does (xlat op) 4 mayWrite := by unfold xlat; dsimp only; exact .le
instance (op : U8) : Does (inByteAlImm op) 14 mayWrite := by unfold inByteAlImm; exact .le
instance (op : U8) : Does (inWordAxImm op) 9 mayWrite := by
  unfold inWordAxImm
  dsimp only
  exact .le
instance (op : U8) : Does (outByteImmAl op) 15 ⊥ := by unfold outByteImmAl; exact .le
instance (op : U8) : Does (outWordImmAx op) 16 ⊥ := by unfold outWordImmAx; exact .le
instance : Does portDx 0 ⊥ := by unfold portDx; exact .le
instance (op : U8) : Does (inByteAlDx op) 8 mayWrite := by unfold inByteAlDx; exact .le
instance (op : U8) : Does (inWordAxDx op) 9 mayWrite := by unfold inWordAxDx; exact .le
instance (op : U8) : Does (outByteDxAl op) 9 ⊥ := by unfold outByteDxAl; exact .le
instance (op : U8) : Does (outWordDxAx op) 10 ⊥ := by unfold outWordDxAx; exact .le

/-! ## Control transfer -/

instance : Does fetchTarget 0 ⊥ := by unfold fetchTarget; dsimp only; exact .le
instance (eip : U32) : Does (decodeAddr eip) 8 ⊥ := by unfold decodeAddr; exact .le
instance (eip : U32) : Does (truncTarget eip) 0 ⊥ := by unfold truncTarget; exact .le
instance (type : BitVec 4) (eip : U32) : Does (jumpIf type eip) 0 ⊥ := by unfold jumpIf; exact .le
instance (op : U8) : Does (jumpShortCc op) 12 ⊥ := by unfold jumpShortCc; dsimp only; exact .le

instance (text : String) (go : Bool → Bool) :
    Does (loopCc text go) (text.length + 8) mayWrite := by
  unfold loopCc
  exact .le (by omega) (by decide)

instance (op : U8) : Does (jcxz op) 14 ⊥ := by unfold jcxz; exact .le
instance : Does fetchNearOfs 0 ⊥ := by unfold fetchNearOfs; exact .le
instance : Does pushIp 0 mayWrite := by unfold pushIp; exact .le
instance (op : U8) : Does (callNearImm op) 13 mayWrite := by unfold callNearImm; exact .le
instance (op : U8) : Does (jumpNearImm op) 12 ⊥ := by unfold jumpNearImm; exact .le
instance (op : U8) : Does (jumpByteImm op) 12 ⊥ := by unfold jumpByteImm; dsimp only; exact .le
instance : Does fetchFarOfs 0 ⊥ := by unfold fetchFarOfs; exact .le
instance (cs : U16) (eip : U32) : Does (decodeFar cs eip) 13 ⊥ := by unfold decodeFar; exact .le
instance : Does pushFar 0 mayWrite := by unfold pushFar; exact .le
instance (cs : U16) (eip : U32) : Does (farTransfer cs eip) 0 maySeg := by
  unfold farTransfer
  exact .le
instance (op : U8) : Does (callFarImm op) 22 (mayWrite ⊔ maySeg) := by unfold callFarImm; exact .le
instance (op : U8) : Does (jumpFarImm op) 21 maySeg := by unfold jumpFarImm; exact .le
instance : Does popData 0 mayWrite := by unfold popData; exact .le
instance (imm : U32) : Does (releaseStack imm) 0 mayWrite := by unfold releaseStack; exact .le
instance (op : U8) : Does (retNearImm op) 12 mayWrite := by unfold retNearImm; exact .le
instance (op : U8) : Does (retNear op) 3 mayWrite := by unfold retNear; exact .le
instance (op : U8) : Does (retFarImm op) 13 (mayWrite ⊔ maySeg) := by unfold retFarImm; exact .le
instance (op : U8) : Does (retFar op) 4 (mayWrite ⊔ maySeg) := by unfold retFar; exact .le
instance (op : U8) : Does (iret op) 4 (mayWrite ⊔ mayFlags ⊔ maySeg) := by unfold iret; exact .le
instance (op : U8) : Does (int3 op) 5 ⊥ := by unfold int3; exact .le
instance (op : U8) : Does (intImm op) 12 ⊥ := by unfold intImm; exact .le
instance (op : U8) : Does (into op) 4 mayWrite := by unfold into; exact .le
instance (op : U8) : Does (hlt op) 3 ⊥ := by unfold hlt; exact .le
instance (op : (z : OpSize) → BitVec z.bits → FlagOp (BitVec z.bits)) (m : ModRm) :
    Does (stepWordRm op m) 29 mayWrite := by
  unfold stepWordRm
  exact .le

instance (push : Emu Unit) (m : ModRm) {f : Effects} [hp : Does push 0 f] :
    Does (jumpRm push m) 29 f := by
  unfold jumpRm
  exact .le (by decide) (by simp)

instance (push : Emu Unit) (m : ModRm) (hmod : ¬m.mod = 3) {f : Effects} [hp : Does push 0 f] :
    Does (memForm hmod (jumpFarRm push m)) 29 (f ⊔ maySeg) := by
  have haddr := decodeRmAddress_does hmod m.regl
  unfold memForm jumpFarRm
  exact .le (by decide) (by simp)

instance (m : ModRm) : Does (pushRm m) 29 mayWrite := by unfold pushRm; exact .le

instance (op : U8) : Does (opcFfWordRm op) 38 (mayUd ⊔ mayWrite ⊔ maySeg) := by
  unfold opcFfWordRm
  refine Does.andThen (m := 38) (g := mayUd ⊔ mayWrite ⊔ maySeg) (fun m => ?_) (by decide)
    (by decide)
  split <;> exact .le

/-! ## Strings -/

instance : Does decodeA32 4 ⊥ := by unfold decodeA32; exact .le
instance (size : U32) : Does (stringInc size) 0 mayWrite := by unfold stringInc; exact .le
instance (a32 : Bool) : Does (repCount a32) 0 mayWrite := by unfold repCount; exact .le

/-- The name of a string instruction has five letters. -/
theorem stringHead_does (wide : Bool) {text8 text16 text32 : String} (h8 : text8.length ≤ 5)
    (h16 : text16.length ≤ 5) (h32 : text32.length ≤ 5) :
    Does (stringHead wide text8 text16 text32) 9 mayWrite := by
  have h8' := opDecode_does h8
  have h16' := opDecode_does h16
  have h32' := opDecode_does h32
  unfold stringHead
  refine Does.andThen (m := 5) (g := mayWrite) (fun _ => ?_) (by decide) (by decide)
  refine Does.andThen (m := 5) (g := mayWrite) (fun z => ?_) (by decide) (by decide)
  cases z <;> exact .le

instance (wide a32 : Bool) (inc : U32) : Does (movsStep wide a32 inc) 0 mayWrite := by
  unfold movsStep
  exact .le
instance (wide a32 : Bool) (val inc : U32) : Does (stosStep wide a32 val inc) 0 mayWrite := by
  unfold stosStep
  exact .le
instance (wide a32 : Bool) (inc : U32) : Does (lodsStep wide a32 inc) 0 mayWrite := by
  unfold lodsStep
  exact .le

instance (wide : Bool) : Does (movs wide) 9 mayWrite := by
  have hhead := stringHead_does wide (by decide : "movsb".length ≤ 5)
    (by decide : "movsw".length ≤ 5) (by decide : "movsd".length ≤ 5)
  unfold movs
  exact .le

instance (wide : Bool) : Does (stos wide) 9 mayWrite := by
  have hhead := stringHead_does wide (by decide : "stosb".length ≤ 5)
    (by decide : "stosw".length ≤ 5) (by decide : "stosd".length ≤ 5)
  unfold stos
  exact .le

instance (wide : Bool) : Does (lods wide) 9 mayWrite := by
  have hhead := stringHead_does wide (by decide : "lodsb".length ≤ 5)
    (by decide : "lodsw".length ≤ 5) (by decide : "lodsd".length ≤ 5)
  unfold lods
  exact .le

theorem repWhile_does {compare advance : Emu Unit} {f g : Effects} (hc : Does compare 0 f)
    (ha : Does advance 0 g) (a32 : Bool) (cond : BitVec 4) (n : Nat) :
    Does (repWhile a32 cond compare advance n) 0 (f ⊔ g ⊔ mayWrite) := by
  induction n with
  | zero =>
    unfold repWhile
    exact .le (Nat.le_refl 0) bot_le
  | succ n ih =>
    unfold repWhile
    exact .le (Nat.le_refl 0) (by simp [sup_assoc, sup_left_comm])

instance (a32 : Bool) (compare advance : Emu Unit) {f g : Effects} [hc : Does compare 0 f]
    [ha : Does advance 0 g] : Does (repCompare a32 compare advance) 0 (f ⊔ g ⊔ mayWrite) := by
  have hwhile := fun cond n => repWhile_does hc ha a32 cond n
  unfold repCompare
  exact .le (Nat.le_refl 0) (by simp [sup_assoc, sup_comm, sup_left_comm])

instance (wide a32 : Bool) : Does (cmpsCompare wide a32) 0 mayWrite := by
  unfold cmpsCompare
  exact .le
instance (wide a32 : Bool) : Does (scasCompare wide a32) 0 mayWrite := by
  unfold scasCompare
  exact .le

instance (wide : Bool) : Does (cmps wide) 9 mayWrite := by
  have hhead := stringHead_does wide (by decide : "cmpsb".length ≤ 5)
    (by decide : "cmpsw".length ≤ 5) (by decide : "cmpsd".length ≤ 5)
  have hadvance : ∀ a32 inc, Does (do addIdx a32 .si inc; addIdx a32 .di inc) 0 mayWrite :=
    fun _ _ => .le
  unfold cmps
  exact .le

instance (wide : Bool) : Does (scas wide) 9 mayWrite := by
  have hhead := stringHead_does wide (by decide : "scasb".length ≤ 5)
    (by decide : "scasw".length ≤ 5) (by decide : "scasd".length ≤ 5)
  unfold scas
  exact .le

instance (z : OpSize) (a32 : Bool) : Does (insTransfer z a32) 0 mayWrite := by
  unfold insTransfer
  exact .le
instance (z : OpSize) (a32 : Bool) : Does (outsTransfer z a32) 0 ⊥ := by
  unfold outsTransfer
  dsimp only
  exact .le
instance : Does insOutsInc 0 mayWrite := by unfold insOutsInc; exact .le

instance (transfer : Bool → Emu Unit) (r : Reg) (single : Bool → Bool) {f : Effects}
    [ht : ∀ a32, Does (transfer a32) 0 f] :
    Does (portString transfer r single) 0 (f ⊔ mayWrite) := by
  have hbody : ∀ a32 inc, Does (do transfer a32; addIdx a32 r inc) 0 (f ⊔ mayWrite) :=
    fun _ _ => .le (Nat.le_refl 0) le_rfl
  unfold portString
  exact .le (Nat.le_refl 0) (by simp)

instance (z : OpSize) : Does (ins z) 0 mayWrite := by unfold ins; exact .le
instance (z : OpSize) : Does (outs z) 0 mayWrite := by unfold outs; exact .le
instance (op : U8) : Does (insByte op) 8 mayWrite := by unfold insByte; exact .le
instance (op : U8) : Does (insWord op) 8 mayWrite := by unfold insWord; exact .le
instance (op : U8) : Does (outsByte op) 9 mayWrite := by unfold outsByte; exact .le
instance (op : U8) : Does (outsWord op) 9 mayWrite := by unfold outsWord; exact .le

end X86Emu.Op
