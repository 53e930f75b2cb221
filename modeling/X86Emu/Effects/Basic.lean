import Mathlib.Data.Fintype.Order
import Mathlib.Order.CompletePartialOrder
import X86Emu.Lib.Graded
import X86Emu.Ops.Operand

/-!
# Costs and effects

The cost of a primitive operation is the text it appends to the disassembly, and its effects are
what later proofs have to know about: that it may raise `#UD`, that it may call the host's
WRMSR handler, that it may write registers, flags or memory. `Does x n f` says that the program `x`
appends at most `n` characters and has effects in `f`.
-/

namespace X86Emu

open Lib

/-- May raise `#UD`, call the WRMSR handler, write registers, single flags or memory, load `EFLAGS`
from data, load a segment register, write a control register. -/
abbrev Effects : Type := Bool × Bool × Bool × Bool × Bool × Bool

abbrev mayUd : Effects := (true, false, false, false, false, false)
abbrev mayWrmsr : Effects := (false, true, false, false, false, false)
abbrev mayWrite : Effects := (false, false, true, false, false, false)
abbrev mayFlags : Effects := (false, false, false, true, false, false)
abbrev maySeg : Effects := (false, false, false, false, true, false)
abbrev mayCrx : Effects := (false, false, false, false, false, true)

/-- `INTR_RAISE_UD` -/
def isUd (nr : U8) (type : U32) : Bool := nr = 6 && type = intrTypeFault ||| intrModeRestart

/-- The writes to the register file that are not counted: `EIP` and two bits of the mode. -/
inductive CtrlWrite : (Cpu → Cpu) → Prop
  | eip (v : U32) : CtrlWrite (fun c => { c with eip := v })
  | segDsSs : CtrlWrite (fun c => { c with mode := { c.mode with segDsSs := true } })
  | stop : CtrlWrite (fun c => { c with mode := { c.mode with halted := true } })

/-- The writes to the register file that only count as writes. -/
inductive DataWrite : (Cpu → Cpu) → Prop
  | gen (r : Reg) (v : U32) : DataWrite (fun c => c.setGen r v)
  | xmm (r : BitVec 3) (v : Fin 16 → U8) :
      DataWrite (fun c => { c with xmm := Function.update c.xmm r v })
  | tr (v : U16) : DataWrite (fun c => { c with tr := { c.tr with sel := v } })
  | drx (i : BitVec 3) (v : U32) :
      DataWrite (fun c => { c with drx := Function.update c.drx i v })
  | gdt (base limit : U32) : DataWrite (fun c => { c with gdtBase := base, gdtLimit := limit })
  | idt (base limit : U32) : DataWrite (fun c => { c with idtBase := base, idtLimit := limit })

/-- Costs and effects of the primitive operations. The load of a segment register counts as one, and
so does the debug record of the short jump with its test. -/
inductive EmuGrade : (β : Type) → Nat → Effects → Trans Host St β → Prop
  | getCpu : EmuGrade _ 0 ⊥ (fun _ s => (s.cpu, s))
  | ctrl {f : Cpu → Cpu} (hf : CtrlWrite f) :
      EmuGrade _ 0 ⊥ (fun _ s => ((), { s with cpu := f s.cpu }))
  | data {f : Cpu → Cpu} (hf : DataWrite f) :
      EmuGrade _ 0 mayWrite (fun _ s => ((), { s with cpu := f s.cpu }))
  | eflg (v : U32) :
      EmuGrade _ 0 mayFlags (fun _ s => ((), { s with cpu := { s.cpu with eflg := v } }))
  | seg (ref : SelRef) (val : U16) : EmuGrade _ 0 maySeg (x86emuSetSegRegister ref val).run
  | crx (i : BitVec 3) (v : U32) :
      EmuGrade _ 0 mayCrx
        (fun _ s => ((), { s with cpu := { s.cpu with crx := Function.update s.cpu.crx i v } }))
  | flags {α : Type} (x : FlagOp α) :
      EmuGrade _ 0 mayWrite (fun _ s => ((x.run () s.cpu.eflg).1,
        { s with cpu := { s.cpu with eflg := (x.run () s.cpu.eflg).2 } }))
  | disasm (t : List Char) :
      EmuGrade _ t.length ⊥ (fun _ s => ((), { s with disasm := s.disasm ++ t }))
  | capture (bytes : List U8) : EmuGrade _ 0 ⊥ (fun _ s => ((), captureBytes bytes s))
  | read {kind : MemioKind} (hkind : kind ≠ .w) (width : MemioWidth) (addr val : U32) :
      EmuGrade _ 0 ⊥ (callMemio kind width.bits addr val)
  | write (width : MemioWidth) (addr val : U32) :
      EmuGrade _ 0 mayWrite (callMemio .w width.bits addr val)
  | fetchStop (addr : U32) : EmuGrade _ 0 ⊥ (fun _ s => ((), fetchStop addr s))
  | log (thr : U32) (guard : Log → Bool) (text : St → List Char)
      (ht : ∀ s, (text s).length < thr.toNat) :
      EmuGrade _ 0 ⊥ (fun h s => ((), logLine thr guard text h s))
  | raise {nr : U8} {type : U32} (hud : isUd nr type = false) (err : U32) :
      EmuGrade _ 0 ⊥ (fun _ s => ((), x86emuIntrRaise nr type err s))
  | raiseUd (nr : U8) (type err : U32) :
      EmuGrade _ 0 mayUd (fun _ s => ((), x86emuIntrRaise nr type err s))
  | division (d : CDivision) : EmuGrade _ 0 ⊥ (fun _ s => ((d.quot, d.rem), recordDivision d s))
  | cpuid : EmuGrade _ 0 mayWrite (fun h s => callHandler h.cpuid s)
  | hasCpuid : EmuGrade _ 0 ⊥ (fun h s => (h.cpuid.isSome, s))
  | rdmsr : EmuGrade _ 0 mayWrite (fun h s => callHandler h.rdmsr s)
  | wrmsr : EmuGrade _ 0 (mayWrmsr ⊔ mayWrite) (fun h s => callHandler h.wrmsr s)
  | rdtsc : EmuGrade _ 0 ⊥ (fun _ s => (s.msr 0x10, s.markMsr 0x10 accRead))
  | debugJump (c : Bool) (start : U32) (ofs : U8) : EmuGrade _ 0 ⊥ (fun _ s =>
      ((), if s.log.has traceDebug && c then setDebugRecord start ofs s else s))

/-- The program appends at most `n` characters and has effects in `f`. -/
class Does {α : Type} (x : Emu α) (n : outParam Nat) (f : outParam Effects) : Prop where
  grade : Graded EmuGrade x n f

namespace Does

variable {α β : Type} {n m : Nat} {f g : Effects}

theorem weaken {x : Emu α} (hx : Does x n f) (hn : n ≤ m) (hf : f ≤ g) : Does x m g :=
  ⟨hx.grade.weaken hn hf⟩

/-- A grade found by its instances may be made larger. -/
theorem le {x : Emu α} [hx : Does x n f] (hn : n ≤ m := by decide) (hf : f ≤ g := by decide) :
    Does x m g := hx.weaken hn hf

/-- A bind whose continuation is looked at case by case. -/
theorem andThen {x : Emu α} {k : α → Emu β} {N : Nat} {F : Effects} [hx : Does x n f]
    (hk : ∀ a, Does (k a) m g) (hn : n + m ≤ N) (hf : f ⊔ g ≤ F) : Does (x >>= k) N F :=
  (⟨hx.grade.bind fun a => (hk a).grade⟩ : Does (x >>= k) (n + m) (f ⊔ g)).weaken hn hf

theorem seq {x : Emu α} {k : α → Emu β} (hx : Does x n f) (hk : ∀ a, Does (k a) m g) :
    Does (x >>= k) (n + m) (f ⊔ g) := ⟨hx.grade.bind fun a => (hk a).grade⟩

end Does

section

variable {α β : Type} {n m : Nat} {f g : Effects}

instance (a : α) : Does (pure a) 0 ⊥ := ⟨.pure a⟩

instance (x : Emu α) (k : α → Emu β) [hx : Does x n f] [hk : ∀ a, Does (k a) m g] :
    Does (x >>= k) (n + m) (f ⊔ g) := hx.seq hk

instance (c : Prop) [Decidable c] (x y : Emu α) [hx : Does x n f] [hy : Does y m g] :
    Does (if c then x else y) (max n m) (f ⊔ g) :=
  ⟨.ite c (fun _ => hx.grade) (fun _ => hy.grade)⟩

end

/-! ## Primitive operations -/

instance : Does getCpu 0 ⊥ := ⟨.prim .getCpu⟩
instance : Does getMode 0 ⊥ := by unfold getMode; exact Does.le
instance (v : U32) : Does (setEip v) 0 ⊥ := ⟨.prim (.ctrl (.eip v))⟩
instance : Does setSegDsSs 0 ⊥ := ⟨.prim (.ctrl .segDsSs)⟩
instance : Does x86emuStop 0 ⊥ := ⟨.prim (.ctrl .stop)⟩
instance (r : Reg) (v : U32) : Does (setGen r v) 0 mayWrite := ⟨.prim (.data (.gen r v))⟩
instance (v : U32) : Does (setEflg v) 0 mayFlags := ⟨.prim (.eflg v)⟩
instance (r : BitVec 3) (v : Fin 16 → U8) : Does (setXmm r v) 0 mayWrite :=
  ⟨.prim (.data (.xmm r v))⟩
instance (ref : SelRef) (val : U16) : Does (x86emuSetSegRegister ref val) 0 maySeg :=
  ⟨.prim (.seg ref val)⟩
instance (v : U16) : Does (setTr v) 0 mayWrite := ⟨.prim (.data (.tr v))⟩
instance (i : BitVec 3) (v : U32) : Does (setCrx i v) 0 mayCrx := ⟨.prim (.crx i v)⟩
instance (i : BitVec 3) (v : U32) : Does (setDrx i v) 0 mayWrite := ⟨.prim (.data (.drx i v))⟩
instance (b l : U32) : Does (setGdt b l) 0 mayWrite := ⟨.prim (.data (.gdt b l))⟩
instance (b l : U32) : Does (setIdt b l) 0 mayWrite := ⟨.prim (.data (.idt b l))⟩
instance {α : Type} (x : FlagOp α) : Does (flags x) 0 mayWrite := ⟨.prim (.flags x)⟩
instance (t : List Char) : Does (decode t) t.length ⊥ := ⟨.prim (.disasm t)⟩
instance (t : String) : Does (opDecode t) t.length ⊥ := by
  unfold opDecode
  exact Does.le (Nat.le_of_eq String.length_toList) le_rfl
instance (addr : U32) : Does (stopFetch addr) 0 ⊥ := ⟨.prim (.fetchStop addr)⟩
instance (bytes : List U8) : Does (capture bytes) 0 ⊥ := ⟨.prim (.capture bytes)⟩
instance (thr : U32) (guard : Log → Bool) (text : St → List Char)
    (ht : ∀ s, (text s).length < thr.toNat) : Does (writeLog thr guard text ht) 0 ⊥ :=
  ⟨.prim (.log thr guard text ht)⟩
instance : Does intrRaiseDiv0 0 ⊥ := ⟨.prim (.raise (by decide) 0)⟩
instance (nr : U8) : Does (intrRaiseSoft nr) 0 ⊥ :=
  ⟨.prim (.raise (by rw [isUd, Bool.and_eq_false_iff]; exact Or.inr (by decide)) 0)⟩
instance (err : U32) : Does (intrRaiseGp err) 0 ⊥ := ⟨.prim (.raise (by decide) err)⟩
instance : Does intrRaiseUd 0 mayUd := ⟨.prim (.raiseUd _ _ 0)⟩
instance {w : Nat} (signed : Bool) (num den : BitVec w) : Does (cDivMod signed num den) 0 ⊥ :=
  ⟨.prim (.division ⟨signed, w, num, den⟩)⟩
instance : Does callCpuid 0 mayWrite := ⟨.prim .cpuid⟩
instance : Does hasCpuid 0 ⊥ := ⟨.prim .hasCpuid⟩
instance : Does callRdmsr 0 mayWrite := ⟨.prim .rdmsr⟩
instance : Does callWrmsr 0 (mayWrmsr ⊔ mayWrite) := ⟨.prim .wrmsr⟩
instance : Does readTsc 0 ⊥ := ⟨.prim .rdtsc⟩

/-- The debug record of the short jump, made when it is asked for. -/
def debugJump (c : Bool) (start : U32) (ofs : U8) : Emu Unit := do
  if (← tracing traceDebug) && c then debugRecord start ofs

theorem debugJump_run (c : Bool) (start : U32) (ofs : U8) : (debugJump c start ofs).run =
    fun _ s => ((), if s.log.has traceDebug && c then setDebugRecord start ofs s else s) := by
  funext h s
  unfold debugJump
  rw [Prog.run_bind, Prog.run_ite]
  show (if (s.log.has traceDebug && c) = true then ((), setDebugRecord start ofs s)
    else ((), s)) = _
  split <;> rfl

instance (c : Bool) (start : U32) (ofs : U8) : Does (debugJump c start ofs) 0 ⊥ := by
  refine ⟨.prim ?_⟩
  rw [debugJump_run]
  exact .debugJump c start ofs

/-- The end of the short jump. -/
instance (c : Bool) (start eip : U32) (ofs : U8) : Does (tracing traceDebug >>= fun b =>
    if (b && c) = true then debugRecord start ofs >>= fun _ => setEip eip else setEip eip) 0 ⊥ := by
  have heq : (tracing traceDebug >>= fun b =>
      if (b && c) = true then debugRecord start ofs >>= fun _ => setEip eip else setEip eip) =
        debugJump c start ofs >>= fun _ => setEip eip := by
    unfold debugJump
    show (tracing traceDebug >>= _) = tracing traceDebug >>= fun b =>
      (if (b && c) = true then debugRecord start ofs else pure ()) >>= fun _ => setEip eip
    congr 1
    funext b
    split <;> rfl
  rw [heq]
  exact (inferInstance : Does (debugJump c start ofs >>= fun _ => setEip eip) _ _).weaken
    (Nat.le_refl 0) (sup_le le_rfl le_rfl)

instance : Fact (MemioKind.r ≠ .w) := ⟨by decide⟩
instance : Fact (MemioKind.x ≠ .w) := ⟨by decide⟩
instance : Fact (MemioKind.i ≠ .w) := ⟨by decide⟩
instance : Fact (MemioKind.o ≠ .w) := ⟨by decide⟩

instance (kind : MemioKind) [hkind : Fact (kind ≠ .w)] (width : MemioWidth) (addr val : U32) :
    Does (memio kind width addr val) 0 ⊥ := ⟨.prim (.read hkind.out width addr val)⟩

instance (width : MemioWidth) (addr val : U32) : Does (memio .w width addr val) 0 mayWrite :=
  ⟨.prim (.write width addr val)⟩

instance (r : Reg) : Does (getGen r) 0 ⊥ := by unfold getGen; exact .le
instance (r : Reg) : Does (get16 r) 0 ⊥ := by unfold get16; exact .le
instance (r : Reg8) : Does (get8 r) 0 ⊥ := by unfold get8; exact .le
instance : Does getEip 0 ⊥ := by unfold getEip; exact .le
instance (r : Reg) (v : U16) : Does (set16 r v) 0 mayWrite := by unfold set16; exact .le
instance (r : Reg8) (v : U8) : Does (set8 r v) 0 mayWrite := by unfold set8; exact .le

end X86Emu
