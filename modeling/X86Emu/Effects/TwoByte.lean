import X86Emu.Effects.Handlers

/-!
# Effects of the two byte opcodes and of the opcode tables

One line for each handler of `ops2.c`, and then for every opcode of either table: no instruction
appends more than 43 characters after its prefixes, only WRMSR calls the WRMSR handler, and
`#UD` is raised by the opcodes of two lists.
-/

namespace X86Emu

open Lib Op

namespace Op2

set_option synthInstance.maxSize 4096

instance (op : U8) : Does (illegalOp op) 14 mayUd := by unfold illegalOp; exact .le
instance (rh : BitVec 3) (val : U16) : Does (opc00Use rh val) 0 (mayWrite ⊔ maySeg) := by
  unfold opc00Use
  split <;> exact .le

instance (m : ModRm) : Does (opc00Operand m) 23 (mayWrite ⊔ maySeg) := by
  unfold opc00Operand
  exact .le

theorem opc00Text_length {rh : BitVec 3} {text : String} (ht : opc00Text rh = some text) :
    text.length ≤ 5 := by
  revert rh
  suffices hall : ∀ rh, (opc00Text rh).all (·.length ≤ 5) by
    intro rh ht
    have hle := hall rh
    rw [ht] at hle
    simpa using hle
  decide

instance (op : U8) : Does (opc00 op) 28 (mayUd ⊔ mayWrite ⊔ maySeg) := by
  unfold opc00
  refine Does.andThen (m := 28) (g := mayUd ⊔ mayWrite ⊔ maySeg) (fun m => ?_) (by decide)
    (by decide)
  split
  · next text ht =>
    have htext := opDecode_does (opc00Text_length ht)
    exact .le
  · exact .le

instance (base : U32) : Does (truncBase base) 0 ⊥ := by unfold truncBase; exact .le

instance (text : String) (table : Cpu → U32 × U32) (m : ModRm) (hmod : ¬m.mod = 3) :
    Does (memForm hmod (storeTable text table m)) (text.length + 23) mayWrite := by
  have haddr := decodeRmAddress_does hmod m.regl
  unfold memForm storeTable
  exact .le (by omega) (by decide)

instance (text : String) (set : U32 → U32 → Emu Unit) [hs : ∀ b l, Does (set b l) 0 mayWrite]
    (m : ModRm) (hmod : ¬m.mod = 3) :
    Does (memForm hmod (loadTable text set m)) (text.length + 23) mayWrite := by
  have haddr := decodeRmAddress_does hmod m.regl
  unfold memForm loadTable
  exact .le (by omega) (by decide)

instance (m : ModRm) : Does (smsw m) 28 mayWrite := by unfold smsw; exact .le
instance (val : U16) : Does (setMsw val) 0 mayCrx := by unfold setMsw; exact .le
instance (m : ModRm) : Does (lmsw m) 28 mayCrx := by unfold lmsw; exact .le

/-- The forms of `opc01` other than `smsw` and `lmsw` have passed the check of `mod`. -/
theorem opc01_memForm {m : ModRm} (hcheck : ¬(m.mod = 3 ∧ m.regh ≠ 4 ∧ m.regh ≠ 6))
    (h4 : m.regh.toNat ≠ 4) (h6 : m.regh.toNat ≠ 6) : ¬m.mod = 3 := fun hmod =>
  hcheck ⟨hmod, fun h => h4 (by rw [h]; rfl), fun h => h6 (by rw [h]; rfl)⟩

instance (op : U8) : Does (opc01 op) 30 (mayUd ⊔ mayWrite ⊔ mayCrx) := by
  unfold opc01
  refine Does.andThen (m := 30) (g := mayUd ⊔ mayWrite ⊔ mayCrx) (fun m => ?_) (by decide)
    (by decide)
  split
  · exact .le
  · next hcheck =>
    have hmod := opc01_memForm hcheck
    split
    · next h => exact .ofMem (hmod (by omega) (by omega))
    · next h => exact .ofMem (hmod (by omega) (by omega))
    · next h => exact .ofMem (hmod (by omega) (by omega))
    · next h => exact .ofMem (hmod (by omega) (by omega))
    · exact .le
    · exact .le
    · exact .le
    · next h4 _ h6 =>
      have haddr := decodeRmAddress_does (hmod h4 h6) m.regl
      exact .le

instance (op : U8) : Does (clts op) 4 mayCrx := by unfold clts; exact .le

instance (text : String) (regs : Cpu → BitVec 3 → U32) :
    Does (movFromCtrl text regs) (text.length + 8) (mayUd ⊔ mayWrite) := by
  unfold movFromCtrl
  have htext : "mov ".length = 4 := by decide
  exact .le (by omega) (by decide)

instance (text : String) (set : BitVec 3 → U32 → Emu Unit) {f : Effects}
    [hs : ∀ r v, Does (set r v) 0 f] :
    Does (movToCtrl text set) (text.length + 5) (mayUd ⊔ f) := by
  unfold movToCtrl
  exact .le (by omega) (by simp)

/-! ## SSE -/

instance : Does sseEnabledCheck 0 mayUd := by unfold sseEnabledCheck; dsimp only; exact .le
instance (r : BitVec 3) : Does (getXmm r) 0 ⊥ := by unfold getXmm; exact .le
instance (r : BitVec 3) (i : Nat) (v : U8) : Does (setXmmByte r i v) 0 mayWrite := by
  unfold setXmmByte
  exact .le

theorem sseMovText_length (op2 : U8) : (sseMovText op2).length ≤ 8 := by
  unfold sseMovText
  split <;> decide

instance (op2 : U8) : Does (opDecode (sseMovText op2)) 8 ⊥ := opDecode_does (sseMovText_length op2)

instance (op2 : U8) : Does (sseMovOps op2) 36 (mayUd ⊔ mayWrite) := by
  unfold sseMovOps
  exact .le

theorem sseText_does {t : Option String} (ht : ∀ text, t = some text → text.length ≤ 9) :
    Does (sseText t) 9 mayUd := by
  unfold sseText
  split
  · next text =>
    have htext := opDecode_does (ht text rfl)
    exact .le
  · exact .le

instance (op2 : U8) (mod : BitVec 2) : Does (sseText (sseMovPackedText op2 mod)) 9 mayUd := by
  refine sseText_does fun text ht => ?_
  unfold sseMovPackedText at ht
  split at ht
  · cases ht
    split <;> decide
  · cases ht
    decide
  · cases ht
    split <;> decide
  · cases ht
    decide
  · cases ht

instance (op2 : U8) : Does (sseText (ssePackText op2)) 9 mayUd := by
  refine sseText_does fun text ht => ?_
  unfold ssePackText at ht
  split at ht <;> cases ht <;> decide

instance (op2 : U8) : Does (sseText (sseLogicalText op2)) 9 mayUd := by
  refine sseText_does fun text ht => ?_
  unfold sseLogicalText at ht
  split at ht <;> cases ht <;> decide

instance (op2 : U8) (dst src : BitVec 3) (i : Nat) :
    Does (sseMovPackedByte op2 dst src i) 0 mayWrite := by
  unfold sseMovPackedByte
  exact .le
instance (op2 : U8) (addr : U32) (src : BitVec 3) (i : Nat) :
    Does (sseStorePackedByte op2 addr src i) 0 mayWrite := by
  unfold sseStorePackedByte
  exact .le
instance (op2 : U8) (dst : BitVec 3) (addr : U32) (i : Nat) :
    Does (sseLoadPackedByte op2 dst addr i) 0 mayWrite := by
  unfold sseLoadPackedByte
  exact .le
instance (op2 : U8) : Does (sseMovPackedOps op2) 37 (mayUd ⊔ mayWrite) := by
  unfold sseMovPackedOps
  exact .le
instance (m : ModRm) : Does (fetchSseOperand m) 28 ⊥ := by unfold fetchSseOperand; exact .le
instance (op2 : U8) : Does (ssePackOps op2) 37 (mayUd ⊔ mayWrite) := by unfold ssePackOps; exact .le
instance (op2 : U8) : Does (sseLogicalOps op2) 37 (mayUd ⊔ mayWrite) := by
  unfold sseLogicalOps
  exact .le

/-! ## Hints, model specific registers and conditions -/

theorem prefetchText_length : ∀ rh : BitVec 3, (prefetchText rh).length ≤ 12 := by decide

instance (rh : BitVec 3) : Does (opDecode (prefetchText rh)) 12 ⊥ :=
  opDecode_does (prefetchText_length rh)

instance (text : Emu Unit) (m : ModRm) {n : Nat} [ht : Does text n ⊥] :
    Does (hintOperand text m) (23 + n) ⊥ := by
  unfold hintOperand
  exact .le (by omega) (by decide)

instance : Does decodeDataSize 6 ⊥ := by unfold decodeDataSize; exact .le
instance (op : U8) : Does (prefetch op) 40 ⊥ := by unfold prefetch; exact .le

instance (text : String) : Does (hint text) (text.length + 29) ⊥ := by
  unfold hint
  exact .le (by omega) (by decide)

instance (op : U8) : Does (wrmsr op) 5 (mayUd ⊔ mayWrmsr ⊔ mayWrite) := by unfold wrmsr; exact .le
instance (op : U8) : Does (rdmsr op) 5 (mayUd ⊔ mayWrite) := by unfold rdmsr; exact .le
instance (op : U8) : Does (rdtsc op) 5 mayWrite := by unfold rdtsc; exact .le
instance (op : U8) : Does (rdpmc op) 5 mayWrite := by unfold rdpmc; exact .le
instance (op : U8) : Does (cpuid op) 6 (mayUd ⊔ mayWrite) := by unfold cpuid; exact .le
instance (op : U8) : Does (sysenter op) 8 mayUd := by unfold sysenter; exact .le
instance (op : U8) : Does (sysexit op) 7 mayUd := by unfold sysexit; exact .le

theorem cmovText_length : ∀ type : BitVec 4, (cmovText type).length ≤ 4 := by decide

instance (type : BitVec 4) : Does (opDecode (cmovText type)) 4 ⊥ :=
  opDecode_does (cmovText_length type)

instance (op2 : U8) : Does (conditionalMove op2) 35 mayWrite := by
  unfold conditionalMove
  dsimp only
  exact .le
instance (op2 : U8) : Does (longJump op2) 12 ⊥ := by unfold longJump; dsimp only; exact .le
instance (op2 : U8) : Does (setByte op2) 29 mayWrite := by unfold setByte; dsimp only; exact .le

/-! ## Bit operations and the rest -/

theorem bitText_length (op : BitOp) : op.text.length ≤ 4 := by cases op <;> decide

instance (op : BitOp) : Does (opDecode op.text) 4 ⊥ := opDecode_does (bitText_length op)

instance (op : BitOp) (z : OpSize) (r : BitVec 3) (mask : U32) :
    Does (bitReg op z r mask) 0 mayWrite := by
  unfold bitReg
  exact .le
instance (op : BitOp) (z : OpSize) (addr mask : U32) : Does (bitMem op z addr mask) 0 mayWrite := by
  unfold bitMem
  exact .le
instance (op : BitOp) (wordShift : Nat) : Does (bitR op wordShift) 31 mayWrite := by
  unfold bitR
  dsimp only
  exact .le
instance (op : BitOp) (m : ModRm) : Does (btXOperand op m) 32 mayWrite := by
  unfold btXOperand
  exact .le

instance (op : U8) : Does (btXI op) 36 (mayUd ⊔ mayWrite) := by
  unfold btXI
  refine Does.andThen (m := 36) (g := mayUd ⊔ mayWrite) (fun m => ?_) (by decide) (by decide)
  split <;> exact .le

instance (text : String) (scan : OpSize → U32 → Nat) :
    Does (bitScan text scan) (text.length + 27) mayWrite := by
  unfold bitScan
  exact .le (by omega) (by decide)

instance (op : U8) : Does (bswap op) 9 mayWrite := by unfold bswap; exact .le

instance (text : String)
    (op : (z : OpSize) → BitVec z.bits → BitVec z.bits → U8 → FlagOp (BitVec z.bits)) :
    Does (shiftDoubleImm text op) (text.length + 36) mayWrite := by
  unfold shiftDoubleImm
  exact .le (by omega) (by decide)

instance (text : String)
    (op : (z : OpSize) → BitVec z.bits → BitVec z.bits → U8 → FlagOp (BitVec z.bits)) :
    Does (shiftDoubleCl text op) (text.length + 30) mayWrite := by
  unfold shiftDoubleCl
  have hcl : ",cl".length = 3 := by decide
  exact .le (by omega) (by decide)

instance (op : U8) : Does (imulRRm op) 32 mayWrite := by unfold imulRRm; exact .le

instance (text : String) (src : OpSize) (extend : BitVec src.bits → U32) :
    Does (movExtend text src extend) (text.length + 33) mayWrite := by
  unfold movExtend
  exact .le (by omega) (by decide)

end Op2

/-! ## The opcode tables -/

/-- The entries of a table, of which the first one has the number `i`, satisfy `P`. -/
def TableAll (P : Nat → Handler → Prop) : List Handler → Nat → Prop
  | [], _ => True
  | f :: table, i => P i f ∧ TableAll P table (i + 1)

theorem TableAll.getD {P : Nat → Handler → Prop} {table : List Handler} {i : Nat}
    (ht : TableAll P table i) {d : Handler} {k : Nat} (hk : k < table.length) :
    P (i + k) (table.getD k d) := by
  induction table generalizing i k with
  | nil => exact absurd hk (Nat.not_lt_zero k)
  | cons f table ih =>
    cases k with
    | zero => exact ht.1
    | succ k =>
      have hrest := ih ht.2 (Nat.lt_of_succ_lt_succ hk)
      rwa [Nat.add_assoc, Nat.add_comm 1 k] at hrest

/-- What holds of all entries of a table of 256 holds of the handler of each opcode. -/
theorem TableAll.handlerAt {P : Nat → Handler → Prop} {table : List Handler}
    (ht : TableAll P table 0) (hlength : table.length = 256) (op : U8) :
    P op.toNat (handlerAt table op) := by
  have hlt : op.toNat < table.length := by
    rw [hlength]
    exact op.isLt
  have hop := ht.getD (d := illegalOp) hlt
  rwa [Nat.zero_add] at hop

/-- The number lies in one of the blocks, given by their first and last elements. -/
def inBlocks (blocks : List (Nat × Nat)) (i : Nat) : Bool :=
  blocks.any fun b => b.1 ≤ i && i ≤ b.2

/-- The opcodes whose handlers may raise `#UD`. -/
def udOps : List (Nat × Nat) :=
  [(0x0f, 0x0f), (0x26, 0x26), (0x2e, 0x2e), (0x36, 0x36), (0x3e, 0x3e), (0x62, 0x67),
    (0x8c, 0x8f), (0xc4, 0xc7), (0xd8, 0xdf), (0xf0, 0xf3), (0xfe, 0xff)]

/-- The second bytes of the opcodes whose handlers never raise it. -/
def validOps2 : List (Nat × Nat) :=
  [(0x06, 0x06), (0x08, 0x09), (0x18, 0x19), (0x1c, 0x1f), (0x31, 0x31), (0x33, 0x33),
    (0x40, 0x4f), (0x80, 0xa1), (0xa3, 0xa5), (0xa8, 0xa9), (0xab, 0xad), (0xaf, 0xaf),
    (0xb3, 0xb3), (0xb6, 0xb7), (0xbb, 0xbf), (0xc8, 0xcf)]

/-- The effects of the opcodes after 0x0f. Only WRMSR, which is 0x30, calls the WRMSR handler. -/
def effects2 (i : Nat) : Effects :=
  (!inBlocks validOps2 i, i = 0x30, true, false, [0x00, 0xa1, 0xa9, 0xb2, 0xb4, 0xb5].contains i,
    [0x01, 0x06, 0x22].contains i)

/-- The effects of the one byte opcodes. -/
def effects1 (i : Nat) : Effects :=
  (inBlocks udOps i, i = 0x0f, true, [0x0f, 0x9d, 0x9e, 0xcf].contains i,
    [0x07, 0x0f, 0x17, 0x1f, 0x8e, 0x9a, 0xc4, 0xc5, 0xca, 0xcb, 0xcf, 0xea, 0xff].contains i,
    i = 0x0f)

theorem optab2_does :
    TableAll (fun i f => ∀ op, Does (f op) 43 (effects2 i)) x86emuOptab2 0 := by
  unfold x86emuOptab2
  repeat' apply And.intro
  all_goals first | exact trivial | exact fun _ => .le

theorem handler2_does (op2 : U8) :
    Does (handlerAt x86emuOptab2 op2 op2) 43 (effects2 op2.toNat) :=
  optab2_does.handlerAt length_x86emuOptab2 op2 op2

instance (op : U8) : Does (twoByte op) 43 ⊤ := by
  have hhandler : ∀ op2 : U8, Does (handlerAt x86emuOptab2 op2 op2) 43 ⊤ := fun op2 =>
    (handler2_does op2).weaken (Nat.le_refl 43) le_top
  unfold twoByte
  exact .le

theorem optab_does : TableAll (fun i f => ∀ op, Does (f op) 43 (effects1 i)) x86emuOptab 0 := by
  unfold x86emuOptab
  repeat' apply And.intro
  all_goals first | exact trivial | exact fun _ => .le

/-- No handler appends more than 43 characters. -/
theorem handler_does (op1 : U8) :
    Does (handlerAt x86emuOptab op1 op1) 43 (effects1 op1.toNat) :=
  optab_does.handlerAt length_x86emuOptab op1 op1

end X86Emu
