import Mathlib.Logic.Function.Iterate
import X86Emu.Decode.Index
import X86Emu.Memory.Bytes
import X86Emu.Ops.Table

/-!
# Counter and table registers

`LOOP`, `LOOPE`, `LOOPNE` and `JCXZ` count in `CX` or `ECX` and `XLAT` reads at `BX` or `EBX`. The
handlers take the width of these registers from the operand size. In the width of the addresses
they would do the same exactly when the sizes are the same, or when the upper halves of the
registers happen not to matter.
-/

namespace X86Emu

open Lib

/-! ## What the handlers do -/

/-- The target of a short jump, at whose displacement the instruction pointer is. -/
def St.shortTarget (s : St) : U32 :=
  let eip := (s.fetched .b8).cpu.eip + ((s.code .b8 s.cpu.eip).setWidth 8).signExtend 32
  if s.cpu.mode.data32 then eip else eip &&& 0xffff

/-- The counter one less. -/
def Cpu.countDown (c : Cpu) (wide : Bool) : Cpu := c.setGen .cx (idxAdd wide (-1) (c.gen .cx))

/-- `LOOP` with a counter of one width; `go` is the condition on `ZF`. -/
def Cpu.loopStep (c : Cpu) (wide : Bool) (go : Bool → Bool) (target : U32) : Cpu :=
  let c := c.countDown wide
  if c.idx wide .cx ≠ 0 ∧ go (c.flag .zf) = true then { c with eip := target } else c

def Cpu.jcxzStep (c : Cpu) (wide : Bool) (target : U32) : Cpu :=
  if c.idx wide .cx = 0 then { c with eip := target } else c

/-- The offset in the table of `XLAT`. -/
def Cpu.tableOfs (c : Cpu) (wide : Bool) : U32 :=
  if wide then c.gen .bx + (c.get8 .al).setWidth 32
  else ((c.get16 .bx).setWidth 32 + (c.get8 .al).setWidth 32) &&& 0xffff

section

variable {inp : PortInput} {h : Host} (hh : h.Blind inp)

include hh

theorem seen_fetchTarget (s : St) : seen h Op.fetchTarget s =
    ((s.fetched .b8).cpu.eip + ((s.code .b8 s.cpu.eip).setWidth 8).signExtend 32,
      (s.fetched .b8).view) := by
  unfold Op.fetchTarget
  rw [seen_step hh (seen_fetchByte hh s), seen_step hh (seen_getEip _)]
  exact seen_pure _ _

theorem seen_decodeAddr (eip : U32) (s : St) : seen h (Op.decodeAddr eip) s = ((), s.view) := by
  unfold Op.decodeAddr
  rw [seen_step hh (seen_getMode s)]
  exact seen_decode _ _

omit hh in
theorem seen_cutTarget (eip : U32) (s : St) : seen h (Op.truncTarget eip) s =
    (if s.cpu.mode.data32 then eip else eip &&& 0xffff, s.view) := (rfl)

theorem seen_loopCc (text : String) (go : Bool → Bool) (s : St) : seen h (Op.loopCc text go) s =
    ((), ((s.fetched .b8).put (·.loopStep s.cpu.mode.data32 go s.shortTarget)).view) := by
  unfold Op.loopCc
  rw [seen_step hh (seen_opDecode _ s), seen_step hh (seen_fetchTarget hh s),
    seen_step hh (seen_decodeAddr hh _ _), seen_step hh (seen_getMode _),
    seen_step hh (seen_cutTarget _ _), seen_step hh (seen_addIdx _ _ _ _),
    seen_step hh (seen_getIdx _ _ _), seen_step hh (seen_flags _ _), seen_ite]
  simp only [Bool.and_eq_true, decide_eq_true_eq]
  split
  case isTrue hgo =>
    exact congrArg (fun c => ((), St.view { s.fetched .b8 with cpu := c })) (if_pos hgo).symm
  case isFalse hgo =>
    exact congrArg (fun c => ((), St.view { s.fetched .b8 with cpu := c })) (if_neg hgo).symm

theorem seen_jcxz (op1 : U8) (s : St) : seen h (Op.jcxz op1) s =
    ((), ((s.fetched .b8).put (·.jcxzStep s.cpu.mode.data32 s.shortTarget)).view) := by
  unfold Op.jcxz
  rw [seen_step hh (seen_fetchTarget hh s), seen_step hh (seen_getMode _),
    seen_step hh (seen_opDecode _ _), seen_step hh (seen_cutTarget _ _),
    seen_step hh (seen_decodeAddr hh _ _), seen_step hh (seen_getIdx _ _ _), seen_ite, seen_setEip,
    seen_pure]
  split
  case isTrue hzero =>
    exact congrArg (fun c => ((), St.view { s.fetched .b8 with cpu := c })) (if_pos hzero).symm
  case isFalse hzero =>
    exact congrArg (fun c => ((), St.view { s.fetched .b8 with cpu := c })) (if_neg hzero).symm

theorem seen_xlat (op1 : U8) (s : St) : seen h (Op.xlat op1) s = ((),
    ((s.loaded .b8 s.cpu.dataSeg (s.cpu.tableOfs s.cpu.mode.data32)).put fun c => c.set8 .al
      ((s.dataVal .b8 s.cpu.dataSeg (s.cpu.tableOfs s.cpu.mode.data32)).setWidth 8)).view) := by
  unfold Op.xlat
  have hread : ∀ ofs, seen h (do set8 .al (← fetchDataByte ofs)) s = ((),
      ((s.loaded .b8 s.cpu.dataSeg ofs).put fun c => c.set8 .al
        ((s.dataVal .b8 s.cpu.dataSeg ofs).setWidth 8)).view) :=
    fun ofs => seen_step hh (seen_fetchDataSize hh .byte ofs s)
  rw [seen_step hh (seen_opDecode _ s), seen_step hh (seen_get8 _ s), seen_step hh (seen_getMode s)]
  dsimp only
  rw [seen_ite]
  unfold Cpu.tableOfs
  split
  · rw [seen_step hh (seen_getGen _ s), seen_step hh (seen_pure _ s)]
    exact hread _
  · rw [seen_step hh (seen_get16 _ s), seen_step hh (seen_pure _ s)]
    exact hread _

end

/-! ## Counters of both widths -/

/-- A borrow from the upper half makes the difference. -/
theorem idxAdd_neg_one (b k : Bool) (v : U32) :
    idxAdd b (-1) v = idxAdd k (-1) v ↔ b = k ∨ v.setWidth 16 ≠ 0 := by
  have hborrow : v + -1 = setLo16 v (v.setWidth 16 + (-1 : U32).setWidth 16) ↔
      v.setWidth 16 ≠ 0 := by
    have hv := v.isLt
    rw [ne_eq, ← BitVec.toNat_inj, ← BitVec.toNat_inj, toNat_setLo16, BitVec.toNat_add,
      BitVec.toNat_add, BitVec.toNat_setWidth, show (-1 : U32).toNat = 0xffffffff from rfl,
      show ((-1 : U32).setWidth 16).toNat = 0xffff from rfl, show (0 : U16).toNat = 0 from rfl]
    omega
  unfold idxAdd
  cases b <;> cases k
  case true.false => simpa using hborrow
  case false.true => simpa [eq_comm] using hborrow
  all_goals simp

variable {c : Cpu}

theorem loopStep_gen (wide : Bool) (go : Bool → Bool) (target : U32) :
    (c.loopStep wide go target).gen .cx = idxAdd wide (-1) (c.gen .cx) := by
  unfold Cpu.loopStep
  dsimp only
  split <;> exact setGen_self .cx _ c

/-- The number of values of a counter. -/
def counterRange (wide : Bool) : Nat := if wide then 2 ^ 32 else 2 ^ 16

/-- How often a loop with this counter is to be run: a counter of 0 stands for all of its range. -/
def Cpu.loopCount (c : Cpu) (wide : Bool) : Nat :=
  if (c.idx wide .cx).toNat = 0 then counterRange wide else (c.idx wide .cx).toNat

theorem loopCount_pos (c : Cpu) (wide : Bool) : 0 < c.loopCount wide := by
  unfold Cpu.loopCount
  split
  case isTrue => cases wide <;> decide
  case isFalse hne => exact Nat.pos_of_ne_zero hne

theorem idx_lt (c : Cpu) (wide : Bool) : (c.idx wide .cx).toNat < counterRange wide := by
  cases wide with
  | true => exact (c.gen .cx).isLt
  | false =>
    show ((c.get16 .cx).setWidth 32).toNat < 2 ^ 16
    rw [BitVec.toNat_setWidth_of_le (by decide)]
    exact (c.get16 .cx).isLt

theorem two_le_counterRange (wide : Bool) : 2 ≤ counterRange wide := by
  cases wide <;> decide

/-- One less in a range of numbers is one step back. -/
theorem wrap_pred {x n : Nat} (hx : x < n) :
    (x + (n - 1)) % n = if x = 0 then n - 1 else x - 1 := by
  split
  case isTrue hzero => rw [hzero, Nat.zero_add, Nat.mod_eq_of_lt (by omega)]
  case isFalse hne =>
    rw [show x + (n - 1) = x - 1 + n by omega, Nat.add_mod_right, Nat.mod_eq_of_lt (by omega)]

theorem idx_countDown (c : Cpu) (wide : Bool) : ((c.countDown wide).idx wide .cx).toNat =
    if (c.idx wide .cx).toNat = 0 then counterRange wide - 1 else (c.idx wide .cx).toNat - 1 := by
  rw [← wrap_pred (idx_lt c wide)]
  unfold Cpu.countDown Cpu.idx Cpu.get16
  rw [setGen_self]
  cases wide with
  | true => exact BitVec.toNat_add _ _
  | false =>
    show (((idxAdd false (-1) (c.gen .cx)).setWidth 16).setWidth 32).toNat =
      ((((c.gen .cx).setWidth 16).setWidth 32).toNat + 0xffff) % 2 ^ 16
    rw [idxAdd_low, BitVec.toNat_setWidth_of_le (by decide), BitVec.toNat_add,
      BitVec.toNat_setWidth_of_le (by decide : 16 ≤ 32)]
    rfl

/-- The counter is 0 after the last round only. -/
theorem countDown_ne_zero (c : Cpu) (wide : Bool) :
    (c.countDown wide).idx wide .cx ≠ 0 ↔ 1 < c.loopCount wide := by
  have hrange := two_le_counterRange wide
  unfold Cpu.loopCount
  rw [ne_eq, ← BitVec.toNat_inj, idx_countDown, show (0 : U32).toNat = 0 from rfl]
  split <;> omega

theorem loopCount_countDown {c : Cpu} {wide : Bool} (hmore : 1 < c.loopCount wide) :
    (c.countDown wide).loopCount wide + 1 = c.loopCount wide := by
  have hrange := two_le_counterRange wide
  unfold Cpu.loopCount at *
  rw [idx_countDown]
  split_ifs at * <;> omega

/-- Only a loop that goes on depends on the count. -/
theorem countDown_widths (c : Cpu) (b k : Bool) :
    c.countDown b = c.countDown k ↔ b = k ∨ (c.gen .cx).setWidth 16 ≠ 0 := by
  rw [← idxAdd_neg_one]
  constructor
  · intro heq
    have hcx := congrArg (·.gen .cx) heq
    rw [Cpu.countDown, Cpu.countDown, setGen_self, setGen_self] at hcx
    exact hcx
  · exact fun heq => congrArg (c.setGen .cx) heq

/-! ## Where the widths agree -/

/-- A jump under one condition or another. -/
theorem jump_congr (c : Cpu) (target : U32) (p q : Prop) [Decidable p] [Decidable q] :
    (if p then { c with eip := target } else c) = (if q then { c with eip := target } else c) ↔
      ((p ↔ q) ∨ target = c.eip) := by
  have hsame : target = c.eip ↔ { c with eip := target } = c := by
    refine ⟨fun heq => ?_, fun heq => ?_⟩
    · rw [heq]
    · rw [← heq]
  by_cases hp : p <;> by_cases hq : q <;> simp [hp, hq, hsame, eq_comm]

/-- `CX` has no borrow, and the same value as `ECX` in the last round. -/
def Cpu.CountsAgree (c : Cpu) (go : Bool → Bool) (target : U32) : Prop :=
  c.get16 .cx ≠ 0 ∧
    (c.get16 .cx = 1 → c.gen .cx = 1 ∨ go (c.flag .zf) = false ∨ target = c.eip)

theorem loopStep_eq (c : Cpu) (wide : Bool) (go : Bool → Bool) (target : U32) :
    c.loopStep wide go target =
      if 1 < c.loopCount wide ∧ go (c.flag .zf) = true then { c.countDown wide with eip := target }
      else c.countDown wide := by
  have hgo := countDown_ne_zero c wide
  unfold Cpu.loopStep
  simp only [hgo]
  rfl

/-- In the round in which `CX` runs out, `ECX` may not. -/
theorem more_iff {c : Cpu} (hcx : c.get16 .cx ≠ 0) :
    (1 < c.loopCount true ↔ 1 < c.loopCount false) ↔ (c.get16 .cx = 1 → c.gen .cx = 1) := by
  have hlow : (c.idx false .cx).toNat = (c.get16 .cx).toNat := by
    show ((c.get16 .cx).setWidth 32).toNat = _
    exact BitVec.toNat_setWidth_of_le (by decide)
  have hhalf : (c.get16 .cx).toNat = (c.gen .cx).toNat % 2 ^ 16 := BitVec.toNat_setWidth _ _
  have hne : (c.get16 .cx).toNat ≠ 0 := fun h0 => hcx (BitVec.eq_of_toNat_eq h0)
  unfold Cpu.loopCount
  rw [hlow, show c.idx true .cx = c.gen .cx from rfl, ← BitVec.toNat_inj, ← BitVec.toNat_inj,
    show (1 : U16).toNat = 1 from rfl, show (1 : U32).toNat = 1 from rfl, if_neg hne,
    if_neg (by omega)]
  omega

theorem loopStep_widths (c : Cpu) (go : Bool → Bool) (target : U32) (b k : Bool) :
    c.loopStep b go target = c.loopStep k go target ↔ b = k ∨ c.CountsAgree go target := by
  have hdown : c.countDown true = c.countDown false ↔ c.get16 .cx ≠ 0 := by
    rw [countDown_widths]
    simp [Cpu.get16]
  have hcx : c.loopStep true go target = c.loopStep false go target → c.get16 .cx ≠ 0 := by
    intro heq
    have hgen := congrArg (·.gen .cx) heq
    rw [loopStep_gen, loopStep_gen, idxAdd_neg_one] at hgen
    exact hgen.resolve_left (by decide)
  have hwide : c.loopStep true go target = c.loopStep false go target ↔
      c.CountsAgree go target := by
    unfold Cpu.CountsAgree
    by_cases hne : c.get16 .cx ≠ 0
    · have hmore := more_iff hne
      rw [loopStep_eq, loopStep_eq, hdown.mpr hne, jump_congr, and_iff_right hne]
      show _ ∨ target = c.eip ↔ _
      cases go (c.flag .zf) with
      | false => simp
      | true =>
        simp only [and_true, hmore, Bool.true_eq_false, false_or]
        by_cases hlast : c.get16 .cx = 1
        · rw [forall_prop_of_true hlast, forall_prop_of_true hlast]
        · exact ⟨fun _ hone => absurd hone hlast, fun _ => Or.inl fun hone => absurd hone hlast⟩
    · exact ⟨fun heq => absurd (hcx heq) hne, fun hagree => absurd hagree.1 hne⟩
  cases b <;> cases k
  case true.false => simpa using hwide
  case false.true => simpa [eq_comm] using hwide
  all_goals simp

theorem jcxzStep_widths (c : Cpu) (target : U32) (b k : Bool) :
    c.jcxzStep b target = c.jcxzStep k target ↔
      b = k ∨ (c.get16 .cx = 0 → c.gen .cx = 0) ∨ target = c.eip := by
  have hlow : c.idx false .cx = 0 ↔ c.get16 .cx = 0 := by
    show (c.get16 .cx).setWidth 32 = 0 ↔ _
    rw [← BitVec.toNat_inj, ← BitVec.toNat_inj, BitVec.toNat_setWidth_of_le (by decide)]
    rfl
  have hzero : c.gen .cx = 0 → c.get16 .cx = 0 := fun h0 => congrArg (BitVec.setWidth 16) h0
  have hwide : c.jcxzStep true target = c.jcxzStep false target ↔
      (c.get16 .cx = 0 → c.gen .cx = 0) ∨ target = c.eip := by
    unfold Cpu.jcxzStep
    rw [jump_congr, hlow]
    show (c.gen .cx = 0 ↔ _) ∨ _ ↔ _
    exact or_congr_left ⟨fun hiff => hiff.mpr, fun himp => ⟨hzero, himp⟩⟩
  cases b <;> cases k
  case true.false => simpa using hwide
  case false.true => simpa [eq_comm] using hwide
  all_goals simp

/-! ### The table of `XLAT` -/

/-- The state with another memory. -/
def St.inMem (s : St) (mem : Mem) : St := { s with mem := mem }

/-- Whatever is in the memory, `AL` is the byte at this offset. -/
def ReadsTable (h : Host) (op1 : U8) (s : St) (ofs : U32) : Prop :=
  ∀ mem, ((Op.xlat op1).run h (s.inMem mem)).2.cpu.get8 .al =
    ((s.inMem mem).dataVal .b8 s.cpu.dataSeg ofs).setWidth 8

theorem dataVal_wholeMem (s : St) (bytes : U32 → U8) (seg : SegReg) (ofs : U32) :
    ((s.inMem (wholeMem bytes)).dataVal .b8 seg ofs).setWidth 8 =
      bytes (s.cpu.linear seg ofs) := by
  have hperm : (wholeMem bytes).Permits permR (accessWidth .r .b8) (s.cpu.linear seg ofs) := by
    intro i _
    rw [flat_wholeMem]
    exact (by decide : (permRwx ||| permValid).has permR = true)
  have hread := access_read (by decide) hperm 0
  simp only [flat_wholeMem] at hread
  unfold St.dataVal
  rw [show ((s.inMem (wholeMem bytes)).mem.access .r MemioWidth.b8.bits
    ((s.inMem (wholeMem bytes)).cpu.linear seg ofs) 0).1.1 = _ from hread]
  show ((bytes (s.cpu.linear seg ofs + 0#32)).setWidth 32).setWidth 8 = _
  rw [BitVec.add_zero, BitVec.setWidth_setWidth_of_le _ (by decide), BitVec.setWidth_eq]

theorem readsTable_iff {inp : PortInput} {h : Host} (hh : h.Blind inp) (op1 : U8) (s : St)
    (ofs : U32) : ReadsTable h op1 s ofs ↔ s.cpu.tableOfs s.cpu.mode.data32 = ofs := by
  have hal : ∀ mem, ((Op.xlat op1).run h (s.inMem mem)).2.cpu.get8 .al =
      ((s.inMem mem).dataVal .b8 s.cpu.dataSeg (s.cpu.tableOfs s.cpu.mode.data32)).setWidth 8 := by
    intro mem
    have hrun := congrArg (fun t => t.2.cpu.get8 .al) (seen_xlat hh op1 (s.inMem mem))
    refine hrun.trans ?_
    show ((St.loaded _ _ _ _).put fun c => c.set8 .al _).cpu.get8 .al = _
    rw [put_cpu]
    refine (congrArg (BitVec.extractLsb' 0 8) (setGen_self .ax _ _)).trans ?_
    exact BitVec.extractLsb'_append_eq_right
  constructor
  · intro hreads
    have hat := hreads (wholeMem fun a =>
      if a = s.cpu.linear s.cpu.dataSeg ofs then 1 else 0)
    rw [hal, dataVal_wholeMem, dataVal_wholeMem, if_pos rfl] at hat
    by_contra hne
    rw [if_neg] at hat
    · exact absurd hat (by decide)
    · unfold Cpu.linear
      rw [BitVec.add_right_inj]
      exact hne
  · rintro rfl
    exact hal

/-! ## The instructions -/

/-- The instructions with a counter or a table in a register. -/
inductive CountOp
  | loopne | loope | loop | jcxz | xlat
  deriving DecidableEq

namespace CountOp

def run (op1 : U8) : CountOp → Emu Unit
  | loopne => Op.loopne op1
  | loope => Op.loope op1
  | loop => Op.loop op1
  | jcxz => Op.jcxz op1
  | xlat => Op.xlat op1

/-- The effect on the registers of an instruction with a counter of one width. -/
def step (wide : Bool) (target : U32) (c : Cpu) : CountOp → Cpu
  | loopne => c.loopStep wide (!·) target
  | loope => c.loopStep wide id target
  | loop => c.loopStep wide (fun _ => true) target
  | jcxz => c.jcxzStep wide target
  | xlat => c

/-- The instruction uses the registers of one width. -/
def Follows (h : Host) (op1 : U8) (s : St) (wide : Bool) (op : CountOp) : Prop :=
  match op with
  | xlat => ReadsTable h op1 s (s.cpu.tableOfs wide)
  | _ => ((op.run op1).run h s).2.view =
      ((s.fetched .b8).put fun c => op.step wide s.shortTarget c).view

/-- Both widths have the same effect. -/
def Agrees (s : St) : CountOp → Prop
  | loopne => (s.fetched .b8).cpu.CountsAgree (!·) s.shortTarget
  | loope => (s.fetched .b8).cpu.CountsAgree id s.shortTarget
  | loop => (s.fetched .b8).cpu.CountsAgree (fun _ => true) s.shortTarget
  | jcxz => (s.cpu.get16 .cx = 0 → s.cpu.gen .cx = 0) ∨ s.shortTarget = (s.fetched .b8).cpu.eip
  | xlat => s.cpu.tableOfs true = s.cpu.tableOfs false

theorem put_view_inj (t : St) (f g : Cpu → Cpu) :
    (t.put f).view = (t.put g).view ↔ f t.cpu = g t.cpu := by
  refine ⟨fun heq => congrArg St.cpu heq, fun heq => ?_⟩
  rw [put_congr heq]

variable {inp : PortInput} {h : Host}

theorem seen_run (hh : h.Blind inp) {op : CountOp} (hop : op ≠ xlat) (op1 : U8) (s : St) :
    ((op.run op1).run h s).2.view =
      ((s.fetched .b8).put fun c => op.step s.cpu.mode.data32 s.shortTarget c).view := by
  cases op with
  | loopne => exact congrArg Prod.snd (seen_loopCc hh _ _ s)
  | loope => exact congrArg Prod.snd (seen_loopCc hh _ _ s)
  | loop => exact congrArg Prod.snd (seen_loopCc hh _ _ s)
  | jcxz => exact congrArg Prod.snd (seen_jcxz hh op1 s)
  | xlat => exact absurd rfl hop

theorem follows_iff (hh : h.Blind inp) (op : CountOp) (op1 : U8) (s : St) (wide : Bool) :
    op.Follows h op1 s wide ↔ s.cpu.mode.data32 = wide ∨ op.Agrees s := by
  have hstep : op ≠ xlat → (op.Follows h op1 s wide ↔
      op.step s.cpu.mode.data32 s.shortTarget (s.fetched .b8).cpu =
        op.step wide s.shortTarget (s.fetched .b8).cpu) := by
    intro hop
    refine Iff.trans ?_ (put_view_inj (s.fetched .b8)
      (fun c => op.step s.cpu.mode.data32 s.shortTarget c) fun c => op.step wide s.shortTarget c)
    rw [← seen_run hh hop op1 s]
    cases op with
    | xlat => exact absurd rfl hop
    | _ => exact Iff.rfl
  cases op with
  | loopne => exact (hstep (by decide)).trans (loopStep_widths (s.fetched .b8).cpu (!·) _ _ _)
  | loope => exact (hstep (by decide)).trans (loopStep_widths (s.fetched .b8).cpu id _ _ _)
  | loop =>
    exact (hstep (by decide)).trans
      (loopStep_widths (s.fetched .b8).cpu (fun _ => true) _ _ _)
  | jcxz => exact (hstep (by decide)).trans (jcxzStep_widths (s.fetched .b8).cpu _ _ _)
  | xlat =>
    refine (readsTable_iff hh op1 s _).trans ?_
    show s.cpu.tableOfs s.cpu.mode.data32 = s.cpu.tableOfs wide ↔
      _ ∨ s.cpu.tableOfs true = s.cpu.tableOfs false
    cases s.cpu.mode.data32 <;> cases wide <;> simp [eq_comm]

end CountOp

/-! ## Loops -/

/-- The body of a loop and the `LOOP` after it, whose displacement is to be fetched when the body
is done. -/
def loopRound (h : Host) (body : St → St) (s : St) : St := ((Op.loop 0xe2).run h (body s)).2

/-- A run of the body comes to a `LOOP` that jumps to its start, and the counter is what it was. -/
structure LoopBody (body : St → St) (start : U32) (wide : Bool) (s : St) : Prop where
  counter : (body s).cpu.idx wide .cx = s.cpu.idx wide .cx
  addr32 : (body s).cpu.mode.addr32 = wide
  target : (body s).shortTarget = start
  next : ((body s).fetched .b8).cpu.eip ≠ start

/-- The body is run `n` times: `LOOP` goes back to the start in all rounds but the last. -/
structure LoopsTimes (h : Host) (body : St → St) (start : U32) (n : Nat) (s : St) : Prop where
  pos : 0 < n
  again : ∀ k, k + 1 < n → ((loopRound h body)^[k + 1] s).cpu.eip = start
  done : ((loopRound h body)^[n] s).cpu.eip ≠ start

section

variable {inp : PortInput} {h : Host} {body : St → St} {start : U32} {wide : Bool} {s : St}

/-- One round. -/
theorem loopRound_cpu (hbody : LoopBody body start wide s)
    (hfollows : CountOp.loop.Follows h 0xe2 (body s) wide) :
    (loopRound h body s).cpu =
      ((body s).fetched .b8).cpu.loopStep wide (fun _ => true) start := by
  have hcpu := congrArg St.cpu hfollows
  rw [hbody.target] at hcpu
  exact hcpu

theorem loopRound_count (hbody : LoopBody body start wide s)
    (hfollows : CountOp.loop.Follows h 0xe2 (body s) wide) :
    (1 < s.cpu.loopCount wide → (loopRound h body s).cpu.eip = start ∧
        (loopRound h body s).cpu.loopCount wide + 1 = s.cpu.loopCount wide) ∧
      (s.cpu.loopCount wide = 1 → (loopRound h body s).cpu.eip ≠ start) := by
  have hcount : ((body s).fetched .b8).cpu.loopCount wide = s.cpu.loopCount wide := by
    have hidx : ((body s).fetched .b8).cpu.idx wide .cx = s.cpu.idx wide .cx := hbody.counter
    unfold Cpu.loopCount
    rw [hidx]
  rw [loopRound_cpu hbody hfollows, loopStep_eq, ← hcount]
  refine ⟨fun hmore => ?_, fun hone => ?_⟩
  · rw [if_pos ⟨hmore, rfl⟩]
    exact ⟨rfl, loopCount_countDown hmore⟩
  · rw [if_neg (fun hmore => absurd hmore.1 (by omega))]
    exact hbody.next

/-- The rounds so far and the count that is left. -/
theorem rounds_count
    (hbody : ∀ k < s.cpu.loopCount wide, LoopBody body start wide ((loopRound h body)^[k] s) ∧
      CountOp.loop.Follows h 0xe2 (body ((loopRound h body)^[k] s)) wide) {k : Nat}
    (hk : k < s.cpu.loopCount wide) :
    ((loopRound h body)^[k] s).cpu.loopCount wide + k = s.cpu.loopCount wide := by
  induction k with
  | zero => rfl
  | succ k ih =>
    have hcount := ih (by omega)
    obtain ⟨hround, hfollows⟩ := hbody k (by omega)
    have hstep := ((loopRound_count hround hfollows).1 (by omega)).2
    rw [Function.iterate_succ_apply']
    omega

theorem loops_times
    (hbody : ∀ k < s.cpu.loopCount wide, LoopBody body start wide ((loopRound h body)^[k] s) ∧
      CountOp.loop.Follows h 0xe2 (body ((loopRound h body)^[k] s)) wide) :
    LoopsTimes h body start (s.cpu.loopCount wide) s := by
  have hpos := loopCount_pos s.cpu wide
  refine ⟨hpos, fun k hk => ?_, ?_⟩
  · obtain ⟨hround, hfollows⟩ := hbody k (by omega)
    have hcount := rounds_count hbody (show k < s.cpu.loopCount wide by omega)
    rw [Function.iterate_succ_apply']
    exact ((loopRound_count hround hfollows).1 (by omega)).1
  · obtain ⟨n, hn⟩ : ∃ n, s.cpu.loopCount wide = n + 1 := ⟨s.cpu.loopCount wide - 1, by omega⟩
    obtain ⟨hround, hfollows⟩ := hbody n (by omega)
    have hcount := rounds_count hbody (show n < s.cpu.loopCount wide by omega)
    rw [hn, Function.iterate_succ_apply']
    exact (loopRound_count hround hfollows).2 (by omega)

end

/-- The instructions use the registers of the address size exactly when the operand size is the
same or the width makes no difference, and so does a loop in all rounds of which this is so: it is
run as often as its counter says. -/
theorem counters_addr32 {inp : PortInput} {h : Host} (hh : h.Blind inp) :
    (∀ (op : CountOp) (op1 : U8) (s : St), op.Follows h op1 s s.cpu.mode.addr32 ↔
        s.cpu.mode.data32 = s.cpu.mode.addr32 ∨ op.Agrees s) ∧
      ∀ (body : St → St) (start : U32) (wide : Bool) (s : St),
        (∀ k < s.cpu.loopCount wide, LoopBody body start wide ((loopRound h body)^[k] s) ∧
          ((body ((loopRound h body)^[k] s)).cpu.mode.data32 = wide ∨
            CountOp.loop.Agrees (body ((loopRound h body)^[k] s)))) →
        LoopsTimes h body start (s.cpu.loopCount wide) s := by
  refine ⟨fun op op1 s => op.follows_iff hh op1 s _, ?_⟩
  intro body start wide s hbody
  apply loops_times
  intro k hk
  obtain ⟨hround, hagree⟩ := hbody k hk
  exact ⟨hround, (CountOp.follows_iff hh .loop 0xe2 _ wide).mpr hagree⟩

/-- A loop from 0xe on with a counter of 3. -/
def loopState : St :=
  { cpu := { eip := 0xe, gen := fun r => if r = .cx then 3 else 0 }, mem := fullMem fun _ => 0xfd }

/-- A body in 16 bit code, up to the displacement of -3 of a `LOOP` with the prefix 0x67. -/
def loopBody (s : St) : St := s.put fun c => { c with eip := 0x10, mode := { addr32 := true } }

theorem counters_addr32_thrice :
    LoopsTimes (defaultHost fun _ _ _ => 0) loopBody 0xe 3 loopState := by
  have hh : (defaultHost fun _ _ _ => 0).Blind fun _ _ _ => 0 := (defaultHost_default _).blind
  have hcount : loopState.cpu.loopCount true = 3 := by decide
  have htimes := (counters_addr32 hh).2 loopBody 0xe true loopState
  rw [hcount] at htimes
  have hrounds : ∀ k < 3,
      let t := loopBody ((loopRound (defaultHost fun _ _ _ => 0) loopBody)^[k] loopState)
      t.shortTarget = 0xe ∧ (t.fetched .b8).cpu.eip ≠ 0xe ∧ (t.fetched .b8).cpu.get16 .cx ≠ 0 ∧
        ((t.fetched .b8).cpu.get16 .cx = 1 → (t.fetched .b8).cpu.gen .cx = 1) := by
    decide +kernel
  apply htimes
  intro k hk
  obtain ⟨htarget, hnext, hcx, hlast⟩ := hrounds k hk
  exact ⟨⟨rfl, rfl, htarget, hnext⟩, .inr ⟨hcx, fun hone => .inl (hlast hone)⟩⟩

/-- `LOOP` with the prefix 0x67 in 16 bit code, when only the upper half of `ECX` is not 0. -/
theorem counters_addr32_fails :
    let s : St := { cpu :=
      { gen := fun r => if r = .cx then 0x10000 else 0, mode := { addr32 := true } } }
    ¬CountOp.loop.Follows (defaultHost fun _ _ _ => 0) 0xe2 s s.cpu.mode.addr32 := by
  intro s
  have hh : (defaultHost fun _ _ _ => 0).Blind fun _ _ _ => 0 := (defaultHost_default _).blind
  have hcx : s.cpu.get16 .cx = 0 := by decide
  rw [CountOp.follows_iff hh]
  rintro (hsize | hagree)
  · cases hsize
  · exact hagree.1 hcx

end X86Emu
