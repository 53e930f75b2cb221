import X86Emu.Effects.Basic
import X86Emu.Ops.Operand

/-!
# Effects of the decoder

Fetching, address decoding, data access, the stack and the loading of segment registers, and the
operand functions built on them. An effective address has at most 23 characters, as in
`ds:[ebp+edi*8-12345678]`, and raises `#UD` only for a register operand.
-/

namespace X86Emu

open Lib

-- a derivation has one instance for each operation of the program
set_option synthInstance.maxSize 4096

/-! ## Texts -/

theorem opDecode_does {t : String} {n : Nat} (ht : t.length ≤ n) : Does (opDecode t) n ⊥ :=
  Does.le ht le_rfl

theorem decode_does {t : List Char} {n : Nat} (ht : t.length ≤ n) : Does (decode t) n ⊥ :=
  Does.le ht le_rfl

instance (c : Char) : Does (decode [c]) 1 ⊥ := decode_does (Nat.le_refl 1)

instance (c : Prop) [Decidable c] (t u : List Char) {n m : Nat} [ht : Does (decode t) n ⊥]
    [hu : Does (decode u) m ⊥] : Does (decode (if c then t else u)) (max n m) ⊥ := by
  split
  · exact ht.weaken (Nat.le_max_left n m) le_rfl
  · exact hu.weaken (Nat.le_max_right n m) le_rfl

instance (c : Prop) [Decidable c] (t u : String) :
    Does (opDecode (if c then t else u)) (max t.length u.length) ⊥ := by
  split
  · exact opDecode_does (Nat.le_max_left _ _)
  · exact opDecode_does (Nat.le_max_right _ _)

instance : Does (opDecode ",") 1 ⊥ := opDecode_does (by decide)

instance (v : U32) : Does (decode (decodeHex1 v)) 1 ⊥ := decode_does (Nat.le_refl _)
instance (v : U32) : Does (decode (decodeHex2 v)) 2 ⊥ := decode_does (Nat.le_refl _)
instance (v : U32) : Does (decode (decodeHex4 v)) 4 ⊥ := decode_does (Nat.le_refl _)
instance (v : U32) : Does (decode (decodeHex8 v)) 8 ⊥ := decode_does (Nat.le_refl _)
instance (v : U32) : Does (decode (decodeHex2s v)) 3 ⊥ :=
  decode_does (Nat.le_of_eq (length_decodeHex2s v))
instance (v : U32) : Does (decode (decodeHex4s v)) 5 ⊥ :=
  decode_does (Nat.le_of_eq (length_decodeHex4s v))
instance (v : U32) : Does (decode (decodeHex8s v)) 9 ⊥ :=
  decode_does (Nat.le_of_eq (length_decodeHex8s v))
instance (code32 : Bool) (v : U32) : Does (decode (decodeHexAddr code32 v)) 8 ⊥ :=
  decode_does (length_decodeHexAddr code32 v)

/-! ## Memory and instruction bytes -/

instance (kind : MemioKind) [Fact (kind ≠ .w)] (width : MemioWidth) (addr val : U32) :
    Does (loggedMemio kind width addr val) 0 ⊥ := by
  unfold loggedMemio
  exact Does.le

instance (width : MemioWidth) (addr val : U32) :
    Does (loggedMemio .w width addr val) 0 mayWrite := by
  unfold loggedMemio
  exact Does.le

instance (kind : MemioKind) [Fact (kind ≠ .w)] (width : MemioWidth) (addr val : U32) :
    Does (decodeMemio kind width addr val) 0 ⊥ :=
  inferInstanceAs (Does (loggedMemio kind width addr val) 0 ⊥)

instance (width : MemioWidth) (addr val : U32) : Does (decodeMemio .w width addr val) 0 mayWrite :=
  inferInstanceAs (Does (loggedMemio .w width addr val) 0 mayWrite)

instance (kind : MemioKind) [Fact (kind ≠ .w)] (width : MemioWidth) (addr val : U32) :
    Does (emuMemio kind width addr val) 0 ⊥ :=
  inferInstanceAs (Does (loggedMemio kind width addr val) 0 ⊥)

instance (width : MemioWidth) (n : Nat) : Does (fetchCode width n) 0 ⊥ := by
  unfold fetchCode
  dsimp only
  exact Does.le

instance : Does fetchByte 0 ⊥ := by unfold fetchByte; exact Does.le
instance : Does fetchWord 0 ⊥ := by unfold fetchWord; exact Does.le
instance : Does fetchLong 0 ⊥ := by unfold fetchLong; exact Does.le

instance : Does fetchDecodeModrm 0 ⊥ := by
  unfold fetchDecodeModrm
  exact Does.le

instance : Does getDataSegment 0 ⊥ := by
  unfold getDataSegment
  exact Does.le

instance (seg : SegReg) (ofs size : U32) : Does (checkDataAccess seg ofs size) 0 ⊥ := by
  unfold checkDataAccess
  exact Does.le

instance (width : MemioWidth) (size : U32) (seg : SegReg) (ofs : U32) :
    Does (fetchDataAbs width size seg ofs) 0 ⊥ := by
  unfold fetchDataAbs
  exact Does.le

instance (width : MemioWidth) (size : U32) (seg : SegReg) (ofs val : U32) :
    Does (storeDataAbs width size seg ofs val) 0 mayWrite := by
  unfold storeDataAbs
  exact Does.le

instance (seg : SegReg) (ofs : U32) : Does (fetchDataByteAbs seg ofs) 0 ⊥ := by
  unfold fetchDataByteAbs
  exact .le
instance (seg : SegReg) (ofs : U32) : Does (fetchDataWordAbs seg ofs) 0 ⊥ := by
  unfold fetchDataWordAbs
  exact .le
instance (seg : SegReg) (ofs : U32) : Does (fetchDataLongAbs seg ofs) 0 ⊥ := by
  unfold fetchDataLongAbs
  exact .le
instance (ofs : U32) : Does (fetchDataByte ofs) 0 ⊥ := by unfold fetchDataByte; exact .le
instance (ofs : U32) : Does (fetchDataWord ofs) 0 ⊥ := by unfold fetchDataWord; exact .le
instance (ofs : U32) : Does (fetchDataLong ofs) 0 ⊥ := by unfold fetchDataLong; exact .le
instance (seg : SegReg) (ofs : U32) (val : U8) :
    Does (storeDataByteAbs seg ofs val) 0 mayWrite := by
  unfold storeDataByteAbs
  exact .le
instance (seg : SegReg) (ofs : U32) (val : U16) :
    Does (storeDataWordAbs seg ofs val) 0 mayWrite := by
  unfold storeDataWordAbs
  exact .le
instance (seg : SegReg) (ofs val : U32) : Does (storeDataLongAbs seg ofs val) 0 mayWrite := by
  unfold storeDataLongAbs
  exact .le
instance (ofs : U32) (val : U8) : Does (storeDataByte ofs val) 0 mayWrite := by
  unfold storeDataByte
  exact .le
instance (ofs : U32) (val : U16) : Does (storeDataWord ofs val) 0 mayWrite := by
  unfold storeDataWord
  exact .le
instance (ofs val : U32) : Does (storeDataLong ofs val) 0 mayWrite := by
  unfold storeDataLong
  exact .le

/-- A loop whose body appends nothing and has effects in `f`. -/
theorem forLoop_does {f : Effects} {body : Nat → Emu Unit} (hbody : ∀ i, Does (body i) 0 f)
    (n a : Nat) : Does (forLoop n body a) 0 f := by
  induction n generalizing a with
  | zero =>
    unfold forLoop
    exact .le (Nat.le_refl 0) bot_le
  | succ n ih =>
    have hrest := ih (a + 1)
    unfold forLoop
    exact .le (Nat.le_refl 0) (sup_le le_rfl le_rfl)

instance (n : Nat) (body : Nat → Emu Unit) (a : Nat) {f : Effects} [hb : ∀ i, Does (body i) 0 f] :
    Does (forLoop n body a) 0 f := forLoop_does hb n a

instance (n : Nat) (ofs : U32) (a : Nat) : Does (fetchBytes n ofs a) 0 ⊥ := by
  induction n generalizing a with
  | zero =>
    unfold fetchBytes
    exact .le
  | succ n ih =>
    have hrest := ih (a + 1)
    unfold fetchBytes
    exact .le

instance (ofs : U32) : Does (fetchDataQlong ofs) 0 ⊥ := by unfold fetchDataQlong; exact .le

instance (ofs : U32) (val : Fin 16 → U8) : Does (storeDataQlong ofs val) 0 mayWrite :=
  forLoop_does (fun _ => inferInstance) 16 0

instance (port : U32) : Does (fetchIoByte port) 0 ⊥ := by unfold fetchIoByte; exact .le
instance (port : U32) : Does (fetchIoWord port) 0 ⊥ := by unfold fetchIoWord; exact .le
instance (port : U32) : Does (fetchIoLong port) 0 ⊥ := by unfold fetchIoLong; exact .le
instance (port : U32) (val : U8) : Does (storeIoByte port val) 0 ⊥ := by
  unfold storeIoByte
  exact .le
instance (port : U32) (val : U16) : Does (storeIoWord port val) 0 ⊥ := by
  unfold storeIoWord
  exact .le
instance (port val : U32) : Does (storeIoLong port val) 0 ⊥ := by unfold storeIoLong; exact .le

/-! ## Segment registers and the stack -/

instance (dl dh : U32) : Does (decodeDescriptor dl dh) 0 ⊥ := by unfold decodeDescriptor; exact .le
/-- A push appends nothing, when its store does not. -/
instance (size : Nat) (store : U32 → Emu Unit) [hs : ∀ ofs, Does (store ofs) 0 mayWrite] :
    Does (pushVal size store) 0 mayWrite := by
  unfold pushVal
  exact .le

instance {α : Type} (size : Nat) (fetch : U32 → Emu α) [hf : ∀ ofs, Does (fetch ofs) 0 ⊥] :
    Does (popVal size fetch) 0 mayWrite := by
  unfold popVal
  exact .le

instance (w : U16) : Does (pushWord w) 0 mayWrite := by unfold pushWord; exact .le
instance (w : U32) : Does (pushLong w) 0 mayWrite := by unfold pushLong; exact .le
instance : Does popWord 0 mayWrite := by unfold popWord; exact .le
instance : Does popLong 0 mayWrite := by unfold popLong; exact .le

/-! ## Register operands -/

theorem name16_length (r : Reg) : r.name16.length ≤ 2 := by cases r <;> decide

theorem name32_length (r : Reg) : r.name32.length ≤ 3 := by cases r <;> decide

theorem name_length (r : Reg8) : r.name.length ≤ 2 := by cases r <;> decide

theorem segName_length (r : SegReg) : r.name.length ≤ 2 := by cases r <;> decide

theorem xmmName_length : ∀ r : BitVec 3, (xmmName r).length ≤ 4 := by decide

instance (r : Reg) : Does (opDecode r.name16) 2 ⊥ := opDecode_does (name16_length r)
instance (r : Reg) : Does (opDecode r.name32) 3 ⊥ := opDecode_does (name32_length r)
instance (r : Reg8) : Does (opDecode r.name) 2 ⊥ := opDecode_does (name_length r)
instance (r : SegReg) : Does (opDecode r.name) 2 ⊥ := opDecode_does (segName_length r)
instance (r : BitVec 3) : Does (opDecode (xmmName r)) 4 ⊥ := opDecode_does (xmmName_length r)

instance (r : BitVec 3) : Does (decodeRmByteRegister r) 2 ⊥ := by
  unfold decodeRmByteRegister
  exact .le
instance (r : BitVec 3) : Does (decodeRmWordRegister r) 2 ⊥ := by
  unfold decodeRmWordRegister
  exact .le
instance (r : BitVec 3) : Does (decodeRmLongRegister r) 3 ⊥ := by
  unfold decodeRmLongRegister
  exact .le
instance (r : BitVec 3) : Does (decodeRmSseRegister r) 4 ⊥ := by
  unfold decodeRmSseRegister
  exact .le
instance (r : BitVec 3) : Does (decodeRmSegRegister r) 2 mayUd := by
  unfold decodeRmSegRegister
  exact .le

/-! ## Effective addresses -/

instance : Does segprefDecode 4 ⊥ := by
  unfold segprefDecode
  refine Does.andThen (fun cpu => decode_does (n := 4) ?_) (by decide) (by decide)
  rw [List.length_take]
  split <;> omega

theorem ea16_length (rm : BitVec 3) (c : Cpu) : (ea16 rm c).1.length ≤ 5 := by
  unfold ea16
  split <;> (dsimp only; decide)

instance (rm : BitVec 3) (c : Cpu) : Does (opDecode (ea16 rm c).1) 5 ⊥ :=
  opDecode_does (ea16_length rm c)

instance : Does fetchSignedByte 0 ⊥ := by unfold fetchSignedByte; exact .le
instance : Does fetchSignedWord 0 ⊥ := by unfold fetchSignedWord; exact .le

/-- The digits of a base that is an address make its text the longest. -/
instance (priority := low) (sib : U8) (mod : Nat) : Does (decodeSibBase sib mod) 12 ⊥ := by
  unfold decodeSibBase
  dsimp only
  exact .le

/-- With a displacement there is a base register. -/
instance (sib : U8) (mod : Nat) [hmod : Fact (mod ≠ 0)] : Does (decodeSibBase sib mod) 7 ⊥ := by
  unfold decodeSibBase
  dsimp only
  rw [if_neg fun hr => hmod.out hr.2]
  exact .le

instance (sib : U8) : Does (decodeSibIndex sib) 6 ⊥ := by
  unfold decodeSibIndex
  dsimp only
  exact .le

instance (priority := low) (sib : U8) (mod : Nat) : Does (decodeSibAddress sib mod) 18 ⊥ := by
  unfold decodeSibAddress
  exact .le
instance (sib : U8) (mod : Nat) [Fact (mod ≠ 0)] : Does (decodeSibAddress sib mod) 13 ⊥ := by
  unfold decodeSibAddress
  exact .le

instance (rm : BitVec 3) : Does (decodeRm00Address rm) 19 ⊥ := by
  unfold decodeRm00Address
  refine Does.andThen (m := 19) (g := ⊥) (fun mode => ?_) (by decide) (by decide)
  split
  · split <;> exact .le
  · split <;> exact .le

/-- An address with a displacement, whose text has at most nine characters. -/
theorem decodeRmDispAddress_does {mod : Nat} (hmod : mod ≠ 0) {fetch32 fetch16 : Emu U32}
    (h32 : Does fetch32 0 ⊥) (h16 : Does fetch16 0 ⊥) {show32 show16 : U32 → List Char}
    (hs32 : ∀ v, (show32 v).length ≤ 9) (hs16 : ∀ v, (show16 v).length ≤ 9) (rm : BitVec 3) :
    Does (decodeRmDispAddress mod fetch32 fetch16 show32 show16 rm) 23 ⊥ := by
  have hmod' : Fact (mod ≠ 0) := ⟨hmod⟩
  have ht32 : ∀ v, Does (decode (show32 v)) 9 ⊥ := fun v => decode_does (hs32 v)
  have ht16 : ∀ v, Does (decode (show16 v)) 9 ⊥ := fun v => decode_does (hs16 v)
  unfold decodeRmDispAddress
  dsimp only
  refine Does.andThen (m := 23) (g := ⊥) (fun mode => ?_) (by decide) (by decide)
  split
  · split <;> exact .le
  · exact .le

instance (rm : BitVec 3) : Does (decodeRm01Address rm) 23 ⊥ :=
  decodeRmDispAddress_does (by decide) inferInstance inferInstance (fun _ => by simp)
    (fun _ => by simp) rm

instance (rm : BitVec 3) : Does (decodeRm10Address rm) 23 ⊥ :=
  decodeRmDispAddress_does (by decide) inferInstance inferInstance (fun _ => by simp)
    (fun _ => by simp) rm

instance (priority := low) (mod : BitVec 2) (rl : BitVec 3) :
    Does (decodeRmAddress mod rl) 23 mayUd := by
  unfold decodeRmAddress
  split <;> exact .le

/-! ## Memory forms -/

section

variable {α β : Type} {mod : BitVec 2} {n m : Nat} {f g : Effects}

/-- The program of a memory form, with the evidence that `mod` is not 3. -/
def memForm (_ : ¬mod = 3) (x : Emu α) : Emu α := x

/-- A memory operand raises nothing. -/
instance (hmod : ¬mod = 3) (rl : BitVec 3) : Does (memForm hmod (decodeRmAddress mod rl)) 23 ⊥ := by
  unfold memForm decodeRmAddress
  split
  · exact .le
  · exact .le
  · exact .le
  · next h₀ h₁ h₂ =>
    exfalso
    revert mod
    decide

instance (hmod : ¬mod = 3) (x : Emu α) (k : α → Emu β) [hx : Does (memForm hmod x) n f]
    [hk : ∀ a, Does (memForm hmod (k a)) m g] : Does (memForm hmod (x >>= k)) (n + m) (f ⊔ g) :=
  Does.seq (x := x) (k := k) hx hk

instance (hmod : ¬mod = 3) (c : Prop) [Decidable c] (x y : Emu α) [hx : Does (memForm hmod x) n f]
    [hy : Does (memForm hmod y) m g] : Does (memForm hmod (if c then x else y)) (max n m) (f ⊔ g) :=
  ⟨.ite c (fun _ => hx.grade) (fun _ => hy.grade)⟩

instance (priority := low) (hmod : ¬mod = 3) (x : Emu α) [hx : Does x n f] :
    Does (memForm hmod x) n f := hx

/-- A memory form outside the alternatives of an `if`. -/
theorem Does.ofMem (hmod : ¬mod = 3) {x : Emu α} [hx : Does (memForm hmod x) n f]
    (hn : n ≤ m := by decide) (hf : f ≤ g := by decide) : Does x m g :=
  Does.weaken (x := x) hx hn hf

theorem decodeRmAddress_does (hmod : ¬mod = 3) (rl : BitVec 3) :
    Does (decodeRmAddress mod rl) 23 ⊥ := .ofMem hmod

/-- The register form and the memory form of an operand. -/
instance (x y : Emu α) [hx : Does x n f] [hy : ∀ hmod : ¬mod = 3, Does (memForm hmod y) m g] :
    Does (if mod = 3 then x else y) (max n m) (f ⊔ g) :=
  ⟨.ite _ (fun _ => hx.grade) (fun hmod => (hy hmod).grade)⟩

end

/-! ## Operands of one size -/

theorem sizeText_length (z : OpSize) : z.text.length ≤ 6 := by cases z <;> decide

instance (z : OpSize) : Does (opDecode z.text) 6 ⊥ := opDecode_does (sizeText_length z)

instance (wide : Bool) : Does (opSize wide) 0 ⊥ := by unfold opSize; exact .le
instance : Does dataSize 0 ⊥ := by unfold dataSize; exact .le

instance (z : OpSize) (r : BitVec 3) : Does (decodeReg z r) 3 ⊥ := by
  unfold decodeReg
  cases z <;> exact .le
theorem getReg_does (z : OpSize) (r : BitVec 3) : Does (getReg z r) 0 ⊥ := by
  unfold getReg
  cases z <;> exact .le

instance (z : OpSize) (r : BitVec 3) : Does (getReg z r) 0 ⊥ := getReg_does z r
instance (r : BitVec 3) : Does (getReg .byte r) 0 ⊥ := getReg_does .byte r

instance (z : OpSize) (r : BitVec 3) (v : BitVec z.bits) : Does (setReg z r v) 0 mayWrite := by
  unfold setReg
  cases z <;> exact .le
instance (z : OpSize) (ofs : U32) : Does (fetchDataSize z ofs) 0 ⊥ := by
  unfold fetchDataSize
  cases z <;> exact .le
instance (z : OpSize) (seg : SegReg) (ofs : U32) : Does (fetchDataSizeAbs z seg ofs) 0 ⊥ := by
  unfold fetchDataSizeAbs
  cases z <;> exact .le
instance (z : OpSize) (ofs : U32) (v : BitVec z.bits) :
    Does (storeDataSize z ofs v) 0 mayWrite := by
  unfold storeDataSize
  cases z <;> exact .le
instance (z : OpSize) (seg : SegReg) (ofs : U32) (v : BitVec z.bits) :
    Does (storeDataSizeAbs z seg ofs v) 0 mayWrite := by
  unfold storeDataSizeAbs
  cases z <;> exact .le
instance (z : OpSize) : Does (fetchSize z) 0 ⊥ := by unfold fetchSize; cases z <;> exact .le
instance (z : OpSize) (port : U32) : Does (fetchIoSize z port) 0 ⊥ := by
  unfold fetchIoSize
  cases z <;> exact .le
instance (z : OpSize) (port : U32) (v : BitVec z.bits) : Does (storeIoSize z port v) 0 ⊥ := by
  unfold storeIoSize
  cases z <;> exact .le
instance (z : OpSize) (v : BitVec z.bits) : Does (pushSize z v) 0 mayWrite := by
  unfold pushSize
  cases z <;> exact .le
instance (z : OpSize) : Does (popSize z) 0 mayWrite := by unfold popSize; cases z <;> exact .le

theorem hexSize_length (z : OpSize) (v : BitVec z.bits) : (hexSize z v).length ≤ 8 := by
  cases z <;> simp [hexSize]

instance (z : OpSize) (v : BitVec z.bits) : Does (decode (hexSize z v)) 8 ⊥ :=
  decode_does (hexSize_length z v)

theorem fetchImm_does (z : OpSize) : Does (fetchImm z) 8 ⊥ := by unfold fetchImm; exact .le
instance (z : OpSize) : Does (fetchImm z) 8 ⊥ := fetchImm_does z
instance : Does (fetchImm .word) 8 ⊥ := fetchImm_does .word
instance : Does (fetchImm .long) 8 ⊥ := fetchImm_does .long
instance : Does fetchImmByte 8 ⊥ := fetchImm_does .byte
instance (z : OpSize) : Does (fetchImmSigned z) 3 ⊥ := by unfold fetchImmSigned; exact .le

theorem opAText_length : ∀ type : BitVec 3, (opAText type).length ≤ 4 := by decide

theorem opBText_length : ∀ type : BitVec 3, (opBText type).length ≤ 4 := by decide

theorem condText_length : ∀ type : BitVec 4, (condText type).length ≤ 3 := by decide

instance (type : BitVec 3) : Does (decodeOpA type) 4 ⊥ := opDecode_does (opAText_length type)
instance (type : BitVec 3) : Does (decodeOpB type) 4 ⊥ := opDecode_does (opBText_length type)
instance (type : BitVec 4) : Does (decodeCond type) 3 ⊥ := opDecode_does (condText_length type)

instance (wide : Bool) (r : Reg) : Does (getIdx wide r) 0 ⊥ := by unfold getIdx; exact .le
instance (wide : Bool) (r : Reg) (v : U32) : Does (setIdx wide r v) 0 mayWrite := by
  unfold setIdx
  exact .le
instance (wide : Bool) (r : Reg) (inc : U32) : Does (addIdx wide r inc) 0 mayWrite := by
  unfold addIdx
  exact .le
instance (z : OpSize) : Does (getIpSize z) 0 ⊥ := by unfold getIpSize; exact .le

/-! ## Multiplication and division -/

instance {w : Nat} (zero signed : Bool) (dvd s : BitVec w) (overflows : BitVec w → Bool)
    (store : BitVec w → BitVec w → Emu Unit) {n : Nat} {f : Effects}
    [hs : ∀ div mod, Does (store div mod) n f] :
    Does (divide zero signed dvd s overflows store) n f := by
  unfold divide
  exact .le (by simp) (by simp)

instance (d base : U8) : Does (aamWord d base) 0 mayWrite := by unfold aamWord; exact .le

instance (s : U8) : Does (imulByte s) 0 mayWrite := by unfold imulByte; exact .le
instance (s : U16) : Does (imulWord s) 0 mayWrite := by unfold imulWord; exact .le
instance (s : U32) : Does (imulLong s) 0 mayWrite := by unfold imulLong; exact .le
instance (s : U8) : Does (mulByte s) 0 mayWrite := by unfold mulByte; dsimp only; exact .le
instance (s : U16) : Does (mulWord s) 0 mayWrite := by unfold mulWord; dsimp only; exact .le
instance (s : U32) : Does (mulLong s) 0 mayWrite := by unfold mulLong; dsimp only; exact .le
instance (s : U8) : Does (idivByte s) 0 mayWrite := by unfold idivByte; dsimp only; exact .le
instance (s : U16) : Does (idivWord s) 0 mayWrite := by unfold idivWord; dsimp only; exact .le
instance (s : U32) : Does (idivLong s) 0 mayWrite := by unfold idivLong; dsimp only; exact .le
instance (s : U8) : Does (divByte s) 0 mayWrite := by unfold divByte; dsimp only; exact .le
instance (s : U16) : Does (divWord s) 0 mayWrite := by unfold divWord; dsimp only; exact .le
instance (s : U32) : Does (divLong s) 0 mayWrite := by unfold divLong; dsimp only; exact .le

instance (z : OpSize) (val : BitVec z.bits) : Does (mulSize z val) 0 mayWrite := by
  unfold mulSize
  cases z <;> exact .le

instance (z : OpSize) (val : BitVec z.bits) : Does (imulSize z val) 0 mayWrite := by
  unfold imulSize
  cases z <;> exact .le

instance (z : OpSize) (val : BitVec z.bits) : Does (divSize z val) 0 mayWrite := by
  unfold divSize
  cases z <;> exact .le

instance (z : OpSize) (val : BitVec z.bits) : Does (idivSize z val) 0 mayWrite := by
  unfold idivSize
  cases z <;> exact .le

end X86Emu
