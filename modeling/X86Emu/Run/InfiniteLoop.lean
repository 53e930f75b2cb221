import X86Emu.Lib.Borrow
import X86Emu.Ops.Counters
import X86Emu.Run.Prefixes

/-!
# The check for infinite loops

With `X86EMU_RUN_LOOP` the run loop works out the target of a jump before the jump is executed. It
adds the displacement to `EIP` in 32 bits; the handlers of the jumps wrap `IP` and cut the target to
the operand size. The two differ where the wrap or the cut matters, and a displacement that cancels
its own length is taken for no jump at all.
-/

namespace X86Emu

open Lib

/-! ## Two targets of a jump -/

/-- The width of the displacement of a jump. -/
def jumpWidth (op1 : U8) (data32 : Bool) : MemioWidth :=
  if op1 = 0xeb then .b8 else if data32 then .b32 else .b16

namespace St

variable (s : St) (op1 : U8)

/-- The width of the displacement at `EIP`. -/
def ofsWidth : MemioWidth := jumpWidth op1 s.cpu.mode.data32

/-- `ofs32`, with the displacement at `EIP`. -/
def jumpOfs : U32 := s.disp (some (s.ofsWidth op1)) s.cpu.eip + (s.ofsWidth op1).size

/-- Where the check expects the jump to go. -/
def plainTarget : U32 := s.cpu.eip + s.jumpOfs op1

/-- Where the handler goes. -/
def jumpTarget : U32 :=
  let eip := s.cpu.advance (s.ofsWidth op1).size.toNat +
    s.disp (some (s.ofsWidth op1)) s.cpu.eip
  if s.cpu.mode.data32 then eip else eip &&& 0xffff

/-- `IP` wraps behind the displacement, or the sum does not fit into the operand size. -/
def Cuts : Prop :=
  if s.cpu.mode.data32 then s.cpu.WrapsBy (s.ofsWidth op1).size.toNat
  else 0x10000 ≤ (s.plainTarget op1).toNat

/-- The target of a jump that ends in a loop: the instruction itself, or a flag instruction right
before it. -/
def LoopTarget (eip : U32) : Prop :=
  eip = s.cpu.eip ∨ (1 ≤ s.cpu.eip ∧ eip = s.cpu.eip - 1 ∧
    0xf8 ≤ (s.mem.flat (s.cpu.linear .cs (s.cpu.eip - 1))).data ∧
    (s.mem.flat (s.cpu.linear .cs (s.cpu.eip - 1))).data ≤ 0xfd)

end St

theorem size_lt (width : MemioWidth) : width.size.toNat < 0x10000 := by
  cases width <;> decide

theorem ofNat_size (width : MemioWidth) : BitVec.ofNat 32 width.size.toNat = width.size := by
  cases width <;> rfl

/-- They always agree in the low half. -/
theorem jumpTarget_low (s : St) (op1 : U8) :
    (s.jumpTarget op1).setWidth 16 = (s.plainTarget op1).setWidth 16 := by
  have hcut : ∀ x : U32, (x &&& 0xffff).setWidth 16 = x.setWidth 16 := by
    intro x
    rw [BitVec.setWidth_and]
    exact BitVec.and_allOnes
  have hsum : (s.cpu.advance (s.ofsWidth op1).size.toNat +
      s.disp (some (s.ofsWidth op1)) s.cpu.eip).setWidth 16 = (s.plainTarget op1).setWidth 16 := by
    unfold St.plainTarget St.jumpOfs
    rw [BitVec.setWidth_add _ _ (by decide), BitVec.setWidth_add _ _ (by decide),
      BitVec.setWidth_add _ _ (by decide), advance_eq, idxAdd_low, ofNat_size, BitVec.add_assoc,
      BitVec.add_comm ((s.ofsWidth op1).size.setWidth 16)]
  unfold St.jumpTarget
  dsimp only
  split
  · exact hsum
  · rw [hcut, hsum]

/-- They agree altogether where nothing is cut off. -/
theorem jumpTarget_iff (s : St) (op1 : U8) :
    s.jumpTarget op1 = s.plainTarget op1 ↔ ¬s.Cuts op1 := by
  have hlow := jumpTarget_low s op1
  unfold St.Cuts
  cases hdata : s.cpu.mode.data32 with
  | true =>
    have htarget : s.jumpTarget op1 = s.cpu.advance (s.ofsWidth op1).size.toNat +
        s.disp (some (s.ofsWidth op1)) s.cpu.eip := by
      unfold St.jumpTarget
      rw [hdata]
      rfl
    have hplain : s.plainTarget op1 = idxAdd true (s.ofsWidth op1).size s.cpu.eip +
        s.disp (some (s.ofsWidth op1)) s.cpu.eip := by
      unfold St.plainTarget St.jumpOfs
      rw [BitVec.add_comm (s.disp _ _), ← BitVec.add_assoc]
      rfl
    rw [htarget, hplain, BitVec.add_left_inj, advance_eq, ofNat_size,
      idxAdd_widths _ _ (size_lt _), if_pos rfl]
    unfold Cpu.WrapsBy Cpu.ip
    cases s.cpu.mode.code32 <;> simp
  | false =>
    rw [if_neg Bool.false_ne_true, Nat.not_le]
    have hlt : (s.jumpTarget op1).toNat < 0x10000 := by
      unfold St.jumpTarget
      rw [hdata]
      show (_ &&& 0xffff : U32).toNat < _
      rw [BitVec.toNat_and]
      exact Nat.lt_of_le_of_lt Nat.and_le_right (by decide)
    have hnat := congrArg BitVec.toNat hlow
    rw [BitVec.toNat_setWidth, BitVec.toNat_setWidth, Nat.mod_eq_of_lt hlt] at hnat
    rw [BitVec.toNat_eq]
    omega

/-- No two targets of loops have the same low half. -/
theorem loopTarget_unique {s : St} {x y : U32} (hx : s.LoopTarget x) (hy : s.LoopTarget y)
    (hlow : x.setWidth 16 = y.setWidth 16) : x = y := by
  have hnat := congrArg BitVec.toNat hlow
  rw [BitVec.toNat_setWidth, BitVec.toNat_setWidth] at hnat
  rcases hx with rfl | ⟨-, rfl, -⟩ <;> rcases hy with rfl | ⟨-, rfl, -⟩
  · rfl
  · bv_omega
  · bv_omega
  · rfl

/-- The state behind the prefixes `l` and the opcode. -/
def St.behind (s : St) (l : List U8) : St :=
  s.put fun c => { c with
    eip := c.advance (l.length + 1)
    mode := { c.mode with data32 := c.mode.data32 ^^ decide (l.count 0x66 % 2 = 1) } }

/-- The check is right about a jump with the prefixes `l`: the displacement does not cancel its own
length, unless the jump does not loop, and where something is cut off neither target loops. -/
structure LoopExact (s : St) (l : List U8) (op1 : U8) : Prop where
  counted : (s.behind l).jumpOfs op1 = 0 → ¬s.LoopTarget ((s.behind l).jumpTarget op1)
  uncut : (s.behind l).jumpOfs op1 ≠ 0 → (s.behind l).Cuts op1 →
    ¬s.LoopTarget ((s.behind l).jumpTarget op1) ∧ ¬s.LoopTarget ((s.behind l).plainTarget op1)

/-- What the check reports. -/
def St.Reported (s : St) (l : List U8) (op1 : U8) : Prop :=
  (s.behind l).jumpOfs op1 ≠ 0 ∧ s.LoopTarget ((s.behind l).plainTarget op1)

theorem reported_iff (s : St) (l : List U8) (op1 : U8) :
    (s.Reported l op1 ↔ s.LoopTarget ((s.behind l).jumpTarget op1)) ↔ LoopExact s l op1 := by
  have hlow := jumpTarget_low (s.behind l) op1
  have hcut := jumpTarget_iff (s.behind l) op1
  unfold St.Reported
  constructor
  · intro hiff
    refine ⟨fun hzero htarget => (hiff.mpr htarget).1 hzero, fun hne hcuts => ?_⟩
    have hboth : ¬(s.LoopTarget ((s.behind l).jumpTarget op1) ∧
        s.LoopTarget ((s.behind l).plainTarget op1)) := fun ⟨hx, hy⟩ =>
      hcut.mp (loopTarget_unique hx hy hlow) hcuts
    exact ⟨fun hx => hboth ⟨hx, (hiff.mpr hx).2⟩, fun hy => hboth ⟨hiff.mp ⟨hne, hy⟩, hy⟩⟩
  · rintro ⟨hzero, hcuts⟩
    by_cases hofs : (s.behind l).jumpOfs op1 = 0
    · exact ⟨fun h => absurd hofs h.1, fun h => absurd h (hzero hofs)⟩
    · by_cases hc : (s.behind l).Cuts op1
      · obtain ⟨hx, hy⟩ := hcuts hofs hc
        exact ⟨fun h => absurd h.2 hy, fun h => absurd h hx⟩
      · rw [hcut.mpr hc]
        exact ⟨fun h => h.2, fun h => ⟨hofs, h⟩⟩

/-- A state that is reached behind the prefixes and the opcode. -/
structure AtOfs (s : St) (l : List U8) (t : St) : Prop where
  mem : s.mem.Marked t.mem
  seg : t.cpu.seg = s.cpu.seg
  saved : t.cpu.savedEip = s.cpu.eip
  eip : t.cpu.eip = (s.behind l).cpu.eip
  data32 : t.cpu.mode.data32 = (s.behind l).cpu.mode.data32
  code32 : t.cpu.mode.code32 = s.cpu.mode.code32

namespace AtOfs

variable {s t : St} {l : List U8} (ht : AtOfs s l t) (op1 : U8)

include ht

theorem ofsWidth : t.ofsWidth op1 = (s.behind l).ofsWidth op1 := congrArg _ ht.data32

theorem disp (w : Option MemioWidth) (eip : U32) : t.disp w eip = (s.behind l).disp w eip :=
  disp_congr (s := s.behind l) ht.mem ht.seg w eip

theorem jumpOfs : t.jumpOfs op1 = (s.behind l).jumpOfs op1 := by
  unfold St.jumpOfs
  rw [ht.disp, ht.ofsWidth, ht.eip]

theorem plainTarget : t.plainTarget op1 = (s.behind l).plainTarget op1 := by
  unfold St.plainTarget
  rw [ht.eip, ht.jumpOfs]

theorem jumpTarget : t.jumpTarget op1 = (s.behind l).jumpTarget op1 := by
  have hadvance : ∀ n, t.cpu.advance n = (s.behind l).cpu.advance n := by
    intro n
    rw [advance_eq, advance_eq, ht.eip, ht.code32]
    rfl
  unfold St.jumpTarget
  rw [ht.disp, ht.ofsWidth, ht.eip, ht.data32, hadvance]

end AtOfs

/-! ## What the check reads -/

/-- Nothing has been written but marks, the emulator may have been stopped. -/
structure Looked (s t : St) : Prop where
  cpu : ∃ halted, t.cpu = { s.cpu with mode := { s.cpu.mode with halted := halted } }
  stays : s.halted = true → t.halted = true
  mem : s.mem.Marked t.mem

namespace Looked

variable {s t u : St}

theorem refl (s : St) : Looked s s := ⟨⟨_, rfl⟩, id, .refl s.mem⟩

theorem trans (hs : Looked s t) (ht : Looked t u) : Looked s u := by
  obtain ⟨h₁, hcpu⟩ := hs.cpu
  obtain ⟨h₂, hcpu'⟩ := ht.cpu
  refine ⟨⟨h₂, ?_⟩, ht.stays ∘ hs.stays, hs.mem.trans ht.mem⟩
  rw [hcpu', hcpu]

theorem halt (s : St) : Looked s s.halt := ⟨⟨true, rfl⟩, fun _ => rfl, .refl s.mem⟩

theorem haltIf (rs : U32) (s : St) : Looked s (haltIf rs s) := by
  unfold X86Emu.haltIf
  split
  · exact halt s
  · exact refl s

theorem ofsWidth (hs : Looked s t) (op1 : U8) : t.ofsWidth op1 = s.ofsWidth op1 := by
  obtain ⟨_, hcpu⟩ := hs.cpu
  unfold St.ofsWidth
  rw [hcpu]

theorem jumpTarget (hs : Looked s t) (op1 : U8) : t.jumpTarget op1 = s.jumpTarget op1 := by
  obtain ⟨_, hcpu⟩ := hs.cpu
  have hdisp : ∀ w eip, t.disp w eip = s.disp w eip :=
    disp_congr hs.mem (by rw [hcpu])
  unfold St.jumpTarget
  rw [hs.ofsWidth, hdisp, hcpu]
  rfl

end Looked

theorem addrs_succ (n : Nat) (addr : U32) : addrs (n + 1) addr = addr :: addrs n (addr + 1) := by
  unfold addrs
  rw [List.range_succ_eq_map, List.map_cons, List.map_map]
  congr 1
  · exact BitVec.add_zero addr
  · refine List.map_congr_left fun i _ => ?_
    show addr + BitVec.ofNat 32 (i + 1) = addr + 1 + BitVec.ofNat 32 i
    rw [BitVec.add_assoc, Nat.add_comm]
    exact congrArg (addr + ·) (BitVec.ofNat_add 1 i)

/-- The little-endian sum of bytes. -/
def leSum : List U8 → U32
  | [] => 0
  | b :: l => b.setWidth 32 + (leSum l <<< 8)

theorem toNat_leSum_cons (b : U8) (l : List U8) :
    (leSum (b :: l)).toNat = (b.toNat + (leSum l).toNat * 256) % 2 ^ 32 := by
  have hb := b.isLt
  show (b.setWidth 32 + (leSum l <<< 8)).toNat = _
  rw [BitVec.toNat_add, BitVec.toNat_shiftLeft, BitVec.toNat_setWidth, Nat.shiftLeft_eq]
  omega

/-- The sum of two or four bytes is the number made of them. -/
theorem leSum_eq {l : List U8} (hl : l.length = 2 ∨ l.length = 4) : leSum l = leVal l := by
  have hnil : (leSum []).toNat = 0 := rfl
  apply BitVec.eq_of_toNat_eq
  match l, hl with
  | [a, b], _ =>
    show _ = ((b ++ a).setWidth 32).toNat
    rw [toNat_leSum_cons, toNat_leSum_cons, hnil, BitVec.toNat_setWidth, toNat_fields]
    omega
  | [a, b, c, d], _ =>
    show _ = ((d ++ c) ++ (b ++ a)).toNat
    rw [toNat_leSum_cons, toNat_leSum_cons, toNat_leSum_cons, toNat_leSum_cons, hnil,
      toNat_fields, toNat_fields, toNat_fields]
    omega

/-- A byte that is fetched without an error is the one in memory. -/
theorem codeVal_data {s : St} {a : U32} (hok : s.codeErr a = false) :
    s.codeVal a = (s.mem.flat a).data := by
  unfold St.codeErr Cell.exec Cell.fetch at hok
  unfold St.codeVal
  rw [exec_val]
  split at hok
  · next hperm => exact if_pos hperm
  · cases hok

/-- The bytes of the displacement at `EIP` can be fetched. -/
def St.OfsReadable (s : St) (op1 : U8) : Prop :=
  ∀ a ∈ s.cpu.wideAddrs (s.ofsWidth op1).size.toNat, s.codeErr a = false

/-- The displacement is the one in memory. -/
theorem code_data {s : St} {op1 : U8} (hok : s.OfsReadable op1) :
    s.code (s.ofsWidth op1) s.cpu.eip = leVal
      ((s.cpu.wideAddrs (s.ofsWidth op1).size.toNat).map fun a => (s.mem.flat a).data) := by
  have hcode : s.code (s.ofsWidth op1) s.cpu.eip = (s.codeRes (s.ofsWidth op1)).1 := rfl
  rw [hcode, codeRes_eq, List.map_congr_left fun a ha => codeVal_data (hok a ha)]

section

variable {inp : PortInput} {h : Host} (hh : h.Blind inp)

include hh

theorem readByteNoperm_eq (addr : U32) (s : St) :
    (readByteNoperm h addr s).1 = (s.mem.flat addr).data.setWidth 32 ∧
      Looked s (readByteNoperm h addr s).2 := by
  have hread : (s.mem.access .r .b8noperm addr 0xff).1 = _ :=
    (access_refines (Or.inr (by decide : MemioKind.r ≠ .w)) .b8noperm addr 0xff).1
  have hmarked := Mem.Marked.access (by decide : MemioKind.r ≠ .w) .b8noperm addr 0xff s.mem
  have hrun : readByteNoperm h addr s = ((s.mem.access .r .b8noperm addr 0xff).1.1,
      { s with
        mem := (s.mem.access .r .b8noperm addr 0xff).2
        hist := .memio .r .b8noperm addr (s.mem.access .r .b8noperm addr 0xff).1.1
          (s.mem.access .r .b8noperm addr 0xff).1.2 :: s.hist }) := by
    unfold readByteNoperm callMemio
    rw [hh.memio]
    rfl
  rw [hrun]
  refine ⟨?_, ⟨_, rfl⟩, id, hmarked⟩
  dsimp only
  rw [hread]
  show (s.mem.flat (addr + 0#32)).data.setWidth 32 = _
  rw [BitVec.add_zero]

theorem readBytesNoperm_eq (n : Nat) (addr : U32) (s : St) :
    (readBytesNoperm h n addr s).1 = leSum ((addrs n addr).map fun a => (s.mem.flat a).data) ∧
      Looked s (readBytesNoperm h n addr s).2 := by
  induction n generalizing addr s with
  | zero => exact ⟨rfl, .refl s⟩
  | succ n ih =>
    obtain ⟨hbyte, hlook⟩ := readByteNoperm_eq hh addr s
    obtain ⟨hrest, hlook'⟩ := ih (addr + 1) (readByteNoperm h addr s).2
    refine ⟨?_, hlook.trans hlook'⟩
    show (readByteNoperm h addr s).1 +
      (readBytesNoperm h n (addr + 1) (readByteNoperm h addr s).2).1 <<< 8 = _
    have hdata : ∀ a, ((readByteNoperm h addr s).2.mem.flat a).data = (s.mem.flat a).data :=
      fun a => (hlook.mem.cells a).data
    rw [hbyte, hrest, addrs_succ]
    simp only [hdata]
    rfl

/-- The displacement that the check reads is the one that the handler fetches. -/
theorem loopOfs_eq {s : St} {op1 : U8} (hop : op1 = 0xeb ∨ op1 = 0xe9) (hok : s.OfsReadable op1) :
    (loopOfs h op1 s).1 = s.jumpOfs op1 ∧ Looked s (loopOfs h op1 s).2 := by
  have hcode := code_data hok
  have hlow : ∀ (n : Nat) (x : U32), n ≤ 32 → x.extractLsb' 0 n = x.setWidth n := fun n x hn =>
    (BitVec.setWidth_eq_extractLsb' hn).symm
  unfold St.jumpOfs loopOfs
  rcases hop with rfl | rfl
  · have hwidth : s.ofsWidth 0xeb = .b8 := rfl
    obtain ⟨hval, hlook⟩ := readByteNoperm_eq hh s.codeAddr s
    have hbyte : s.code .b8 s.cpu.eip = (s.mem.flat s.codeAddr).data.setWidth 32 := by
      have hone : s.cpu.wideAddrs 1 = [s.codeAddr] := congrArg (fun a => [a]) (BitVec.add_zero _)
      rw [hwidth, show MemioWidth.b8.size.toNat = 1 from rfl, hone] at hcode
      exact hcode
    rw [if_pos rfl, hwidth]
    refine ⟨?_, hlook⟩
    show ((readByteNoperm h s.codeAddr s).1.extractLsb' 0 8).signExtend 32 + 1 =
      ((s.code .b8 s.cpu.eip).setWidth 8).signExtend 32 + 1
    rw [hval, hbyte, hlow 8 _ (by decide)]
  · rw [if_neg (by decide), if_pos rfl]
    cases hdata : s.cpu.mode.data32 with
    | true =>
      have hwidth : s.ofsWidth 0xe9 = .b32 := by
        unfold St.ofsWidth
        rw [hdata]
        rfl
      obtain ⟨hval, hlook⟩ := readBytesNoperm_eq hh 4 s.codeAddr s
      rw [leSum_eq (Or.inr rfl)] at hval
      rw [hwidth] at hcode ⊢
      refine ⟨?_, hlook⟩
      show (readBytesNoperm h 4 s.codeAddr s).1 + 4 = s.code .b32 s.cpu.eip + 4
      rw [hval, hcode]
      rfl
    | false =>
      have hwidth : s.ofsWidth 0xe9 = .b16 := by
        unfold St.ofsWidth
        rw [hdata]
        rfl
      obtain ⟨hval, hlook⟩ := readBytesNoperm_eq hh 2 s.codeAddr s
      rw [leSum_eq (Or.inl rfl)] at hval
      rw [hwidth] at hcode ⊢
      refine ⟨?_, hlook⟩
      show ((readBytesNoperm h 2 s.codeAddr s).1.extractLsb' 0 16).signExtend 32 + 2 =
        ((s.code .b16 s.cpu.eip).setWidth 16).signExtend 32 + 2
      rw [hval, hcode, hlow 16 _ (by decide)]
      rfl

/-- The check compares the sum with the two targets of a loop. -/
theorem loopFound_iff {s t : St} (hmem : s.mem.Marked t.mem) (hsaved : t.cpu.savedEip = s.cpu.eip)
    (hseg : t.cpu.seg = s.cpu.seg) (ofs : U32) :
    ((loopFound h ofs t).1 = true ↔ s.LoopTarget (t.cpu.eip + ofs)) ∧
      Looked t (loopFound h ofs t).2 := by
  have haddr : (t.cpu.seg .cs).base + t.cpu.savedEip - 1 = s.cpu.linear .cs (s.cpu.eip - 1) := by
    rw [hsaved, hseg, BitVec.sub_eq_add_neg, BitVec.sub_eq_add_neg, BitVec.add_assoc]
    rfl
  obtain ⟨hval, hlook⟩ := readByteNoperm_eq hh (s.cpu.linear .cs (s.cpu.eip - 1)) t
  have hbyte : (readByteNoperm h (s.cpu.linear .cs (s.cpu.eip - 1)) t).1.extractLsb' 0 8 =
      (s.mem.flat (s.cpu.linear .cs (s.cpu.eip - 1))).data := by
    rw [hval, ← BitVec.setWidth_eq_extractLsb' (by decide),
      BitVec.setWidth_setWidth_of_le _ (by decide), BitVec.setWidth_eq]
    exact (hmem.cells _).data
  have hbefore : t.cpu.eip + 1 + ofs = s.cpu.eip ↔ t.cpu.eip + ofs = s.cpu.eip - 1 := by
    rw [BitVec.eq_sub_iff_add_eq, BitVec.add_assoc, BitVec.add_comm 1, ← BitVec.add_assoc]
  unfold loopFound St.LoopTarget
  dsimp only
  rw [haddr, hsaved]
  split
  · next heq => exact ⟨⟨fun _ => Or.inl heq, fun _ => rfl⟩, .refl t⟩
  · next hne =>
    split
    · next hprev =>
      refine ⟨?_, hlook⟩
      dsimp only
      rw [hbyte, Bool.and_eq_true, decide_eq_true_eq, decide_eq_true_eq]
      exact ⟨fun h => Or.inr ⟨hprev.2, hbefore.mp hprev.1, h⟩, fun h => (h.resolve_left hne).2.2⟩
    · next hnot =>
      refine ⟨⟨fun h => absurd h Bool.false_ne_true, fun h => ?_⟩, .refl t⟩
      obtain ⟨hpos, hprev, -⟩ := h.resolve_left hne
      exact absurd ⟨hbefore.mpr hprev, hpos⟩ hnot

/-- What the checks of the loop and of the code make of the result and the state. -/
theorem checkLoop_spec {s t : St} {op1 : U8} {l : List U8} (hop : op1 = 0xeb ∨ op1 = 0xe9)
    (ht : AtOfs s l t) (hok : t.OfsReadable op1) {e : RunEnv} (hflag : e.has runLoopFlag = true)
    (rs : U32) : ∃ rs' u, checkLoop h e op1 rs t = (rs', u) ∧ Looked t u ∧
      ((s.Reported l op1 ∧ rs' = rs ||| runLoopFlag ∧ u.halted = true) ∨
        (¬s.Reported l op1 ∧ rs' = rs)) := by
  obtain ⟨hofs, hlook⟩ := loopOfs_eq hh hop hok
  generalize hrun : loopOfs h op1 t = p at hofs hlook
  have hcheck : checkLoop h e op1 rs t = if p.1 ≠ 0 then
      (if (loopFound h p.1 p.2).1 then rs ||| runLoopFlag else rs,
        haltIf (if (loopFound h p.1 p.2).1 then rs ||| runLoopFlag else rs)
          (loopFound h p.1 p.2).2)
      else (rs, p.2) := by
    unfold checkLoop
    rw [if_pos hflag, hrun]
  rw [hcheck]
  rw [ht.jumpOfs] at hofs
  obtain ⟨hl, hcpu⟩ := hlook.cpu
  obtain ⟨hfound, hlook'⟩ := loopFound_iff hh (ht.mem.trans hlook.mem) (by rw [hcpu, ht.saved])
    (by rw [hcpu, ht.seg]) p.1
  have heip : p.2.cpu.eip + p.1 = (s.behind l).plainTarget op1 := by
    rw [hofs, hcpu]
    exact congrArg (· + _) ht.eip
  rw [heip] at hfound
  have hne : rs ||| runLoopFlag ≠ 0 := by
    intro hzero
    have hbit := congrArg (BitVec.getLsbD · 4) hzero
    simp [runLoopFlag] at hbit
  rw [hofs] at hfound hlook' ⊢
  by_cases hzero : (s.behind l).jumpOfs op1 = 0
  · rw [if_neg (not_not.mpr hzero)]
    exact ⟨_, _, rfl, hlook, Or.inr ⟨fun hrep => hrep.1 hzero, rfl⟩⟩
  · rw [if_pos hzero]
    refine ⟨_, _, rfl, hlook.trans (hlook'.trans (.haltIf _ _)), ?_⟩
    cases hf : (loopFound h ((s.behind l).jumpOfs op1) p.2).1 with
    | true =>
      refine Or.inl ⟨⟨hzero, hfound.mp hf⟩, if_pos rfl, ?_⟩
      rw [if_pos rfl]
      unfold haltIf
      rw [if_pos hne]
      rfl
    | false =>
      refine Or.inr ⟨fun hrep => ?_, if_neg Bool.false_ne_true⟩
      rw [hfound.mpr hrep.2] at hf
      cases hf

/-! ## The handlers -/

theorem seen_nearOfs (s : St) : seen h Op.fetchNearOfs s =
    (s.disp (some (s.ofsWidth 0xe9)) s.cpu.eip, (s.fetched (s.ofsWidth 0xe9)).view) := by
  have hwidth : s.ofsWidth 0xe9 = if s.cpu.mode.data32 then .b32 else .b16 := rfl
  unfold Op.fetchNearOfs
  rw [seen_step hh (seen_getMode s), seen_ite, hwidth]
  cases s.cpu.mode.data32 with
  | true => exact seen_fetchLong hh s
  | false => exact seen_fetchSignedWord hh s

theorem jumpNear_eip (s : St) :
    ((Op.jumpNearImm 0xe9).run h s).2.cpu.eip = s.jumpTarget 0xe9 := by
  have hseen : seen h (Op.jumpNearImm 0xe9) s = ((), ((s.fetched (s.ofsWidth 0xe9)).put fun c =>
      { c with eip := s.jumpTarget 0xe9 }).view) := by
    unfold Op.jumpNearImm
    rw [seen_step hh (seen_opDecode _ s), seen_step hh (seen_nearOfs hh s),
      seen_step hh (seen_getEip _), seen_step hh (seen_cutTarget _ _),
      seen_step hh (seen_decodeAddr hh _ _), seen_setEip]
    rfl
  exact congrArg Cpu.eip (same_of_view (congrArg Prod.snd hseen)).1

theorem jumpByte_eip (s : St) :
    ((Op.jumpByteImm 0xeb).run h s).2.cpu.eip = s.jumpTarget 0xeb := by
  have hend : ∀ (eip : U32) (ofs : U8) (t : St), (seen h (do
      let cpu ← getCpu
      if (← tracing traceDebug) && cpu.eip - cpu.savedEip = 3 then
        debugRecord ((cpu.seg .cs).base + cpu.eip) ofs
      setEip eip) t).2.cpu.eip = eip := by
    intro eip ofs t
    rw [seen_bind hh, seen_bind hh]
    dsimp only
    rw [seen_ite]
    split
    · rw [seen_bind hh]
      rfl
    · rfl
  have hseen : (seen h (Op.jumpByteImm 0xeb) s).2.cpu.eip = s.jumpTarget 0xeb := by
    unfold Op.jumpByteImm
    rw [seen_step hh (seen_opDecode _ s), seen_step hh (seen_fetchByte hh s),
      seen_step hh (seen_getEip _), seen_step hh (seen_cutTarget _ _),
      seen_step hh (seen_decodeAddr hh _ _), hend]
    rfl
  exact hseen

/-- A jump goes to its target. -/
theorem jump_eip {op1 : U8} (hop : op1 = 0xeb ∨ op1 = 0xe9) (s : St) :
    (runHandler h op1 s).cpu.eip = s.jumpTarget op1 := by
  rcases hop with rfl | rfl
  · exact jumpByte_eip hh s
  · exact jumpNear_eip hh s

end

/-! ## A stopped emulator -/

/-- Whoever runs, the emulator stays stopped until the next instruction starts. -/
def StaysHalted (s t : St) : Prop := s.halted = true → t.halted = true

namespace StaysHalted

theorem refl (s : St) : StaysHalted s s := id

theorem trans {s t u : St} (hs : StaysHalted s t) (ht : StaysHalted t u) : StaysHalted s u :=
  ht ∘ hs

theorem putCpu {f : Cpu → Cpu} (hf : CpuWrite f) (s : St) :
    StaysHalted s { s with cpu := f s.cpu } := by
  cases hf with
  | sel ref v =>
    intro hs
    cases ref <;> exact hs
  | stop => exact fun _ => rfl
  | _ => exact fun hs => hs

variable {h : Host} (hh : h.Respects StaysHalted)

include hh

theorem logBlind : LogBlind h StaysHalted where
  refl := refl
  trans := trans
  log _ _ := id
  flush hf := hh.flush hf

theorem emu {α : Type} (x : Emu α) (s : St) : StaysHalted s (x.run h s).2 := by
  refine x.invariant refl trans ?_ s
  intro β y hy s
  cases hy with
  | putCpu hf => exact putCpu hf s
  | capture bytes =>
    dsimp only
    unfold captureBytes
    split <;> exact id
  | memio kind width addr val => exact hh.memio s kind width.bits addr val
  | fetchStop addr => exact fun _ => rfl
  | log thr guard text _ => exact (logBlind hh).line thr guard text s
  | raise nr type err =>
    dsimp only
    unfold x86emuIntrRaise
    dsimp only
    split <;> exact id
  | cpuid => exact callHandler_keeps refl hh.cpuid s
  | rdmsr => exact callHandler_keeps refl hh.rdmsr s
  | wrmsr => exact callHandler_keeps refl hh.wrmsr s
  | debugRecord start ofs =>
    dsimp only
    unfold setDebugRecord
    split <;> exact id
  | _ => exact id

theorem idleRule : IdleRule h StaysHalted where
  toLogBlind := logBlind hh
  peek addr s := hh.memio s .r .b8noperm addr 0xff
  clock _ _ := id
  msr _ _ _ := id
  trace _ _ := id
  debugDone _ := id
  reset _ := id

theorem handleInterrupt (s : St) : StaysHalted s (handleInterrupt h s) := by
  have hcall : ∀ nr type s, StaysHalted s (callIntr nr type h s).2 := by
    intro nr type s
    unfold callIntr
    split
    · next f hf => exact hh.intr hf s nr type
    · exact refl s
  have hint : ∀ nr type err s, StaysHalted s (generateInt nr type err h s) := by
    intro nr type err s
    have hstart := hcall nr type { s with
      intrStats := Function.update s.intrStats nr (s.intrStats nr + 1)
      hist := .deliver nr type :: s.hist }
    unfold generateInt
    dsimp only
    split
    · exact hstart
    · exact fun hs => emu hh (deliverInt nr type err) _ (hstart hs)
  unfold X86Emu.handleInterrupt
  dsimp only
  split
  · exact refl s
  · exact ((logBlind hh).line 128 _ _ s).trans (hint _ _ _ _)

theorem execInstr (e : RunEnv) (op1 : U8) (s : St) : StaysHalted s (execInstr h e op1 s) :=
  (emu hh (handlerAt x86emuOptab op1 op1) { s with hist := .instr op1 :: s.hist }).trans
    ((handleInterrupt hh _).trans ((idleRule hh).afterDelivery e _))

end StaysHalted

/-! ## The iteration -/

/-- The host's `code_check` only looks at the machine. -/
def Host.OnlyLooks (h : Host) : Prop :=
  ∀ {f}, h.codeCheck = some f → ∀ s, (f s).2.view = s.view

/-- The checks before an instruction let it pass, in the state `t`. -/
structure Passes (h : Host) (e : RunEnv) (s t : St) : Prop where
  more : maxInstrReached e s = false
  early : (timedOut h e s).1 = false
  code : codeCheck h (timedOut h e s).2 = (false, t)

theorem runChecks_passes {h : Host} {e : RunEnv} {s t : St} (hp : Passes h e s t) (rs : U32) :
    runChecks h e rs s = readOpcode h e rs t := by
  unfold runChecks
  rw [hp.more, if_neg Bool.false_ne_true]
  dsimp only
  rw [hp.early, if_neg Bool.false_ne_true, hp.code, if_neg Bool.false_ne_true]

/-- They leave the registers and the memory. -/
theorem Passes.same {inp : PortInput} {h : Host} (hh : h.Blind inp) (hlook : h.OnlyLooks)
    {e : RunEnv} {s t : St} (hp : Passes h e (logRegs h s) t) : t.cpu = s.cpu ∧ t.mem = s.mem := by
  have hlog : (logRegs h s).view = s.view := hh.logBlind.line 512 _ _ s
  have htime : ∀ s, (timedOut h e s).2.cpu = s.cpu ∧ (timedOut h e s).2.mem = s.mem := by
    intro s
    unfold timedOut
    split <;> exact ⟨rfl, rfl⟩
  have hcheck : ∀ s, (codeCheck h s).2.cpu = s.cpu ∧ (codeCheck h s).2.mem = s.mem := by
    intro s
    unfold codeCheck
    split
    · next f hf => exact same_of_view (hlook hf s)
    · exact ⟨rfl, rfl⟩
  have hcode := hcheck (timedOut h e (logRegs h s)).2
  rw [hp.code] at hcode
  obtain ⟨hcpu, hmem⟩ := htime (logRegs h s)
  obtain ⟨hcpu', hmem'⟩ := same_of_view hlog
  exact ⟨hcode.1.trans (hcpu.trans hcpu'), hcode.2.trans (hmem.trans hmem')⟩

/-- A jump with the prefixes `l`, all of whose bytes can be fetched. -/
structure JumpAt (s : St) (l : List U8) (op1 : U8) : Prop where
  jump : op1 = 0xeb ∨ op1 = 0xe9
  prefixes : ∀ p ∈ l, IsPrefix p
  bytes : (List.range l.length).map s.codeByte = l
  opcode : s.codeByte l.length = op1
  fetched : ∀ a ∈ s.cpu.byteAddrs (l.length + 1), s.codeErr a = false
  ofs : (s.behind l).OfsReadable op1

/-- The run ends after this instruction, with `X86EMU_RUN_LOOP` in the result. -/
def StopsWithLoop (h : Host) (e : RunEnv) (rs : U32) (s : St) : Prop :=
  ∃ rs' t, runIter h e rs s = (.stop rs', t) ∧ rs' &&& runLoopFlag ≠ 0

/-- `EIP` after the handler of the next instruction. -/
def handlerEip (h : Host) (e : RunEnv) (rs : U32) (s : St) : U32 :=
  match runChecks h e rs (logRegs h (startInstr s)) with
  | (.exec _ op1, t) => (runHandler h op1 { t with hist := .instr op1 :: t.hist }).cpu.eip
  | (_, t) => t.cpu.eip

theorem AtOfs.readable {s t : St} {l : List U8} {op1 : U8} (ht : AtOfs s l t)
    (hok : (s.behind l).OfsReadable op1) : t.OfsReadable op1 := by
  have haddrs : t.cpu.wideAddrs (t.ofsWidth op1).size.toNat =
      (s.behind l).cpu.wideAddrs ((s.behind l).ofsWidth op1).size.toNat := by
    unfold Cpu.wideAddrs Cpu.wideAddr Cpu.linear
    rw [ht.ofsWidth, ht.eip, ht.seg]
    rfl
  intro a ha
  rw [haddrs] at ha
  have hres := ((ht.mem.cells a).fetch (by decide : permX &&& permAll = permX)
    (by decide : accExec &&& permAll = 0#8)).1
  exact (congrArg Prod.snd hres).trans (hok a ha)

theorem AtOfs.looked {s t u : St} {l : List U8} (ht : AtOfs s l t) (hu : Looked t u) :
    AtOfs s l u := by
  obtain ⟨_, hcpu⟩ := hu.cpu
  refine ⟨ht.mem.trans hu.mem, ?_, ?_, ?_, ?_, ?_⟩ <;> rw [hcpu]
  · exact ht.seg
  · exact ht.saved
  · exact ht.eip
  · exact ht.data32
  · exact ht.code32

section

variable {inp : PortInput} {h : Host} (hh : h.Blind inp)

include hh

/-- The state in which the opcode of a jump is checked. -/
theorem prefixLoop_jump {s t : St} (hcpu : t.cpu = s.cpu.startInstr) (hmem : t.mem = s.mem)
    {l : List U8} {op1 : U8} (hjump : JumpAt (instrStart s) l op1) {fuel : Nat}
    (hfuel : l.length < fuel) : ∃ u, prefixLoop h fuel (startPrefixes t) = (some op1, u) ∧
      AtOfs (instrStart s) l u ∧ u.halted = false ∧ u.OfsReadable op1 := by
  have hstart : (startPrefixes t).cpu = (instrStart s).cpu := by
    show { t.cpu with decodeSeg := ['['] } = _
    rw [hcpu]
    rfl
  have hbyte : (startPrefixes t).codeByte = (instrStart s).codeByte := by
    funext n
    unfold St.codeByte St.code
    rw [hstart]
    exact congrArg (fun mem : Mem => (mem.access _ _ _ _).1.1.setWidth 8) hmem
  have herr : (startPrefixes t).codeErr = (instrStart s).codeErr :=
    congrArg (fun mem : Mem => fun a => (mem.flat a).exec.1.2) hmem
  obtain ⟨u, v, hrun, hfetched, hmarked, hsaved, hcollected⟩ :=
    prefixLoop_fetched hh (s := startPrefixes t) hjump.prefixes (by rw [hbyte]; exact hjump.bytes)
      (by rw [hbyte, hjump.opcode]; rcases hjump.jump with rfl | rfl <;> decide) hfuel
  rw [hbyte, hjump.opcode] at hrun
  have hofs : AtOfs (instrStart s) l u := by
    have hmem' : (startPrefixes t).mem = (instrStart s).mem := hmem
    have hdata := congrArg Collected.data32 hcollected
    rw [foldl_add] at hdata
    refine ⟨hmem' ▸ hmarked, ?_, ?_, ?_, ?_, ?_⟩
    · rw [hfetched.seg, hstart]
    · rw [hsaved, hstart]
      rfl
    · rw [hfetched.eip, length_byteAddrs, hstart]
      rfl
    · rw [hstart] at hdata
      exact hdata
    · rw [hfetched.code32, hstart]
  refine ⟨u, hrun, hofs, ?_, hofs.readable hjump.ofs⟩
  have hnone : ((instrStart s).cpu.byteAddrs (l.length + 1)).any (instrStart s).codeErr = false :=
    List.any_eq_false.mpr fun a ha => Bool.eq_false_iff.mp (hjump.fetched a ha)
  show u.cpu.mode.halted = false
  rw [hfetched.halted, hstart, herr, hnone]
  rfl

theorem runChecks_jump (hlook : h.OnlyLooks) {e : RunEnv} (hflag : e.has runLoopFlag = true)
    {s t : St} (hp : Passes h e (logRegs h (startInstr s)) t) {l : List U8} {op1 : U8}
    (hjump : JumpAt (instrStart s) l op1) (hfuel : l.length < e.fuel) (rs : U32) :
    ∃ rs' u, runChecks h e rs (logRegs h (startInstr s)) = (.exec rs' op1, u) ∧
      AtOfs (instrStart s) l u ∧
      (((instrStart s).Reported l op1 ∧ rs' = rs ||| runLoopFlag ∧ u.halted = true) ∨
        (¬(instrStart s).Reported l op1 ∧ rs' = rs)) := by
  obtain ⟨hcpu, hmem⟩ := hp.same hh hlook
  obtain ⟨u, hrun, hofs, hgoes, hok⟩ := prefixLoop_jump hh hcpu hmem hjump hfuel
  obtain ⟨rs', u', hloop, hlooked, hrep⟩ := checkLoop_spec hh hjump.jump hofs hok hflag rs
  have hne : op1 ≠ 0 := by
    rcases hjump.jump with rfl | rfl <;> decide
  have hcode : ∃ v, checkNoCode h e op1 rs' u' = (rs', v) ∧ Looked u' v := by
    unfold checkNoCode
    split
    · rw [if_neg fun hzero => hne hzero.2]
      exact ⟨_, rfl, .haltIf rs' u'⟩
    · exact ⟨_, rfl, .refl u'⟩
  obtain ⟨v, hcode, hlooked'⟩ := hcode
  refine ⟨rs', v, ?_, hofs.looked (hlooked.trans hlooked'), ?_⟩
  · rw [runChecks_passes hp, readOpcode, hrun]
    dsimp only
    rw [checkOpcode, hgoes, if_neg Bool.false_ne_true, hloop]
    dsimp only
    rw [hcode]
  · rcases hrep with ⟨hyes, hrs, hhalt⟩ | hno
    · exact Or.inl ⟨hyes, hrs, hlooked'.stays hhalt⟩
    · exact Or.inr hno

/-- The handler goes where the jump leads. -/
theorem handlerEip_eq (hlook : h.OnlyLooks) {e : RunEnv} (hflag : e.has runLoopFlag = true)
    {s t : St} (hp : Passes h e (logRegs h (startInstr s)) t) {l : List U8} {op1 : U8}
    (hjump : JumpAt (instrStart s) l op1) (hfuel : l.length < e.fuel) (rs : U32) :
    handlerEip h e rs s = ((instrStart s).behind l).jumpTarget op1 := by
  obtain ⟨rs', u, hrun, hofs, -⟩ := runChecks_jump hh hlook hflag hp hjump hfuel rs
  unfold handlerEip
  rw [hrun]
  dsimp only
  rw [jump_eip hh hjump.jump]
  exact hofs.jumpTarget op1

/-- The run stops after the jumps that are reported. -/
theorem stops_iff (hlook : h.OnlyLooks) (hstay : h.Respects StaysHalted) {e : RunEnv}
    (hflag : e.has runLoopFlag = true) {s t : St}
    (hp : Passes h e (logRegs h (startInstr s)) t) {l : List U8} {op1 : U8}
    (hjump : JumpAt (instrStart s) l op1) (hfuel : l.length < e.fuel) {rs : U32}
    (hrs : rs &&& runLoopFlag = 0) :
    StopsWithLoop h e rs s ↔ (instrStart s).Reported l op1 := by
  obtain ⟨rs', u, hrun, -, hrep⟩ := runChecks_jump hh hlook hflag hp hjump hfuel rs
  have hiter : runIter h e rs s = (if (execInstr h e op1 u).halted then .stop rs' else .more rs',
      execInstr h e op1 u) := by
    unfold runIter
    rw [hrun]
  unfold StopsWithLoop
  rw [hiter]
  constructor
  · rintro ⟨rs'', v, hstop, hbit⟩
    rcases hrep with ⟨hyes, -, -⟩ | ⟨-, rfl⟩
    · exact hyes
    · have hend := congrArg Prod.fst hstop
      dsimp only at hend
      split at hend
      · cases hend
        exact absurd hrs hbit
      · cases hend
  · intro hyes
    rcases hrep with ⟨-, rfl, hhalt⟩ | ⟨hno, -⟩
    · refine ⟨_, _, by rw [StaysHalted.execInstr hstay e op1 u hhalt, if_pos rfl], ?_⟩
      rw [BitVec.and_or_distrib_right, hrs]
      decide
    · exact absurd hyes hno

/-- With `X86EMU_RUN_LOOP`, the run stops after exactly those jumps that lead back to themselves or
to a flag instruction before them, if and only if neither a wrap nor the operand size cuts off a
part of the target that matters, and the displacement does not cancel its length. -/
theorem loop_exact_iff (hlook : h.OnlyLooks) (hstay : h.Respects StaysHalted) {e : RunEnv}
    (hflag : e.has runLoopFlag = true) {s t : St}
    (hp : Passes h e (logRegs h (startInstr s)) t) {l : List U8} {op1 : U8}
    (hjump : JumpAt (instrStart s) l op1) (hfuel : l.length < e.fuel) {rs : U32}
    (hrs : rs &&& runLoopFlag = 0) :
    (StopsWithLoop h e rs s ↔ (instrStart s).LoopTarget (handlerEip h e rs s)) ↔
      LoopExact (instrStart s) l op1 := by
  rw [stops_iff hh hlook hstay hflag hp hjump hfuel hrs,
    handlerEip_eq hh hlook hflag hp hjump hfuel]
  exact reported_iff (instrStart s) l op1

end

theorem defaultHost_stays (inp : PortInput) : (defaultHost inp).Respects StaysHalted :=
  defaultHost_respects inp (fun _ _ _ => id) (fun _ => id) fun _ => id

theorem defaultHost_looks (inp : PortInput) : (defaultHost inp).OnlyLooks := by
  intro f hf
  cases hf

/-- A jump to itself, in 16 bit code. -/
def jumpSelf (eip : U32) : St :=
  { cpu := { eip := eip }, mem := wholeMem fun a => if a = eip then 0xeb else 0xfe }

def loopEnv : RunEnv := { flags := runLoopFlag, fuel := 1 }

theorem jumpSelf_exec (eip a : U32) : ((jumpSelf eip).mem.flat a).exec.1 =
    (if a = eip then 0xeb else 0xfe, false) := by
  have hcell : (jumpSelf eip).mem.flat a = _ := flat_wholeMem _ a
  rw [hcell]
  unfold Cell.exec Cell.fetch
  rw [if_pos (by decide : (permRwx ||| permValid).has permX = true),
    if_pos (by decide : (permRwx ||| permValid ||| accExec).has permValid = true)]

theorem jumpSelf_jump (eip : U32) : JumpAt (instrStart (jumpSelf eip)) [] 0xeb := by
  have herr : ∀ a, (instrStart (jumpSelf eip)).codeErr a = false := fun a =>
    congrArg Prod.snd (jumpSelf_exec eip a)
  refine ⟨Or.inl rfl, by simp, rfl, ?_, fun a _ => herr a, fun a _ => herr a⟩
  have haddr : (instrStart (jumpSelf eip)).cpu.linear .cs
      ((instrStart (jumpSelf eip)).cpu.advance 0) = eip := by
    rw [advance_zero]
    exact BitVec.zero_add eip
  rw [List.length_nil, codeByte_eq, haddr]
  exact (congrArg Prod.fst (jumpSelf_exec eip eip)).trans (if_pos rfl)

theorem jumpSelf_passes (inp : PortInput) (eip : U32) :
    Passes (defaultHost inp) loopEnv (logRegs (defaultHost inp) (startInstr (jumpSelf eip)))
      (startInstr (jumpSelf eip)) := ⟨rfl, rfl, rfl⟩

theorem loop_exact_iff_self :
    let h := defaultHost fun _ _ _ => 0
    StopsWithLoop h loopEnv 0 (jumpSelf 0x100) ↔
      (instrStart (jumpSelf 0x100)).LoopTarget (handlerEip h loopEnv 0 (jumpSelf 0x100)) := by
  intro h
  have hh : h.Blind fun _ _ _ => 0 := (defaultHost_default _).blind
  have hexact : LoopExact (instrStart (jumpSelf 0x100)) [] 0xeb :=
    ⟨fun hzero => absurd hzero (by decide), fun _ hcuts => absurd hcuts (Nat.not_le.mpr
      (by decide : (((instrStart (jumpSelf 0x100)).behind []).plainTarget 0xeb).toNat < 0x10000))⟩
  exact (loop_exact_iff hh (defaultHost_looks _) (defaultHost_stays _) rfl (jumpSelf_passes _ _)
    (jumpSelf_jump 0x100) (by decide) rfl).mpr hexact

/-- The displacement is at the start of the segment. -/
theorem loop_exact_fails :
    let h := defaultHost fun _ _ _ => 0
    ¬(StopsWithLoop h loopEnv 0 (jumpSelf 0xffff) ↔
      (instrStart (jumpSelf 0xffff)).LoopTarget (handlerEip h loopEnv 0 (jumpSelf 0xffff))) := by
  intro h
  have hh : h.Blind fun _ _ _ => 0 := (defaultHost_default _).blind
  rw [stops_iff hh (defaultHost_looks _) (defaultHost_stays _) rfl (jumpSelf_passes _ _)
    (jumpSelf_jump 0xffff) (by decide) rfl, handlerEip_eq hh (defaultHost_looks _) rfl
    (jumpSelf_passes _ _) (jumpSelf_jump 0xffff) (by decide), reported_iff]
  intro hexact
  have hcuts : 0x10000 ≤ (((instrStart (jumpSelf 0xffff)).behind []).plainTarget 0xeb).toNat := by
    decide
  exact (hexact.uncut (by decide) hcuts).1 (Or.inl (by decide))

end X86Emu
