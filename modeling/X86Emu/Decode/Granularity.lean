import X86Emu.Decode.Index
import X86Emu.Decode.Rm
import X86Emu.Memory.Code

/-!
# Words and longs of code

A word or a long of code is what as many calls of `fetch_byte` return, unless `IP` wraps between its
bytes or `instr_buf` has room for some of them only.
-/

namespace X86Emu

open Lib

/-- `n` calls of `fetch_byte`. -/
def fetchEach : Nat → Emu (List U8)
  | 0 => pure []
  | n + 1 => do
    let v ← fetchByte
    return v :: (← fetchEach n)

/-! ## Addresses -/

/-- `EIP` over `n` bytes, as a sum in the width of the code. -/
theorem advance_eq (c : Cpu) (n : Nat) :
    c.advance n = idxAdd c.mode.code32 (BitVec.ofNat 32 n) c.eip := by
  have hlow : (BitVec.ofNat 32 n).setWidth 16 = BitVec.ofNat 16 n :=
    BitVec.setWidth_ofNat_of_le (by decide) n
  unfold Cpu.advance idxAdd
  rw [hlow]
  rfl

/-- The address of the byte that `fetch_byte` reads after `n` others. -/
def Cpu.byteAddr (c : Cpu) (n : Nat) : U32 := c.linear .cs (c.advance n)

/-- The address of byte `n` of a wider fetch. -/
def Cpu.wideAddr (c : Cpu) (n : Nat) : U32 := c.linear .cs c.eip + BitVec.ofNat 32 n

theorem wideAddr_eq (c : Cpu) (n : Nat) :
    c.wideAddr n = c.linear .cs (idxAdd true (BitVec.ofNat 32 n) c.eip) :=
  BitVec.add_assoc _ _ _

/-- The instruction pointer wraps before the byte `n` is fetched. -/
def Cpu.WrapsBy (c : Cpu) (n : Nat) : Prop := c.mode.code32 = false ∧ 0x10000 ≤ c.ip.toNat + n

theorem wideAddr_byte {c : Cpu} {n : Nat} (hn : n < 4) :
    c.wideAddr n = c.byteAddr n ↔ ¬c.WrapsBy n := by
  have hnat : (BitVec.ofNat 32 n).toNat = n := Nat.mod_eq_of_lt (by omega)
  rw [wideAddr_eq, Cpu.byteAddr, advance_eq]
  unfold Cpu.linear Cpu.WrapsBy
  rw [BitVec.add_right_inj, idxAdd_widths _ _ (by omega), hnat]
  unfold Cpu.ip
  cases c.mode.code32 <;> simp

/-- Different bytes have different addresses, however they are fetched. -/
theorem wideAddr_inj {c : Cpu} {m n : Nat} (hm : m < 4) (hn : n < 4)
    (heq : c.wideAddr m = c.byteAddr n) : m = n := by
  have hlow : ∀ k, k < 4 → ((BitVec.ofNat 32 k).setWidth 16).toNat = k := by
    intro k hk
    rw [BitVec.toNat_setWidth, BitVec.toNat_ofNat]
    omega
  rw [wideAddr_eq, Cpu.byteAddr, advance_eq] at heq
  have heip := (BitVec.add_right_inj _).mp heq
  have h16 := congrArg (BitVec.setWidth 16) heip
  rw [idxAdd_low, idxAdd_low, BitVec.add_right_inj] at h16
  rw [← hlow m hm, h16, hlow n hn]

def Cpu.byteAddrs (c : Cpu) (n : Nat) : List U32 := (List.range n).map c.byteAddr

theorem byteAddrs_succ {c c' : Cpu} (hseg : c'.seg = c.seg)
    (hcode : c'.mode.code32 = c.mode.code32) (heip : c'.eip = c.advance 1) (n : Nat) :
    c.byteAddrs (n + 1) = c.byteAddr 0 :: c'.byteAddrs n := by
  have hnext : ∀ k, c.byteAddr (k + 1) = c'.byteAddr k := by
    intro k
    have hadvance : c'.advance k = c.advance (1 + k) := by
      rw [advance_eq, heip, hcode, advance_eq, advance_eq, idxAdd_idxAdd, BitVec.ofNat_add_ofNat]
    unfold Cpu.byteAddr Cpu.linear
    rw [hadvance, hseg, Nat.add_comm]
  unfold Cpu.byteAddrs
  rw [List.range_succ_eq_map, List.map_cons, List.map_map]
  exact congrArg _ (List.map_congr_left fun k _ => hnext k)

def Cpu.wideAddrs (c : Cpu) (n : Nat) : List U32 := (List.range n).map c.wideAddr

theorem addrs_linear (c : Cpu) (n : Nat) : addrs n (c.linear .cs c.eip) = c.wideAddrs n := (rfl)

theorem length_wideAddrs (c : Cpu) (n : Nat) : (c.wideAddrs n).length = n := by
  rw [Cpu.wideAddrs, List.length_map, List.length_range]

theorem length_byteAddrs (c : Cpu) (n : Nat) : (c.byteAddrs n).length = n := by
  rw [Cpu.byteAddrs, List.length_map, List.length_range]

/-! ## What a fetch does -/

/-- The byte that is fetched from an address. -/
def St.codeVal (s : St) (a : U32) : U8 := (s.mem.flat a).exec.1.1

/-- The fetch from an address fails. -/
def St.codeErr (s : St) (a : U32) : Bool := (s.mem.flat a).exec.1.2

theorem bits_ne_noperm (width : MemioWidth) : width.bits ≠ .b8noperm := by
  cases width <;> decide

theorem accessWidth_exec (width : MemioWidth) : accessWidth .x width.bits = width.size.toNat := by
  cases width <;> rfl

/-- What a fetch of any width returns. -/
theorem codeRes_eq (s : St) (width : MemioWidth) : s.codeRes width =
    (leVal ((s.cpu.wideAddrs width.size.toNat).map s.codeVal),
      (s.cpu.wideAddrs width.size.toNat).any s.codeErr) := by
  unfold St.codeRes
  rw [access_exec (bits_ne_noperm width), accessWidth_exec]
  rfl

/-- The bytes at these addresses have been fetched, in whatever pieces. -/
structure FetchedAt (s : St) (l : List U32) (v : List U8) (t : St) : Prop where
  val : v = l.map s.codeVal
  halted : t.cpu.mode.halted = (s.cpu.mode.halted || l.any s.codeErr)
  cells : ∀ a, t.mem.flat a = if a ∈ l then (s.mem.flat a).exec.2 else s.mem.flat a
  eip : t.cpu.eip = s.cpu.advance l.length
  seg : t.cpu.seg = s.cpu.seg
  code32 : t.cpu.mode.code32 = s.cpu.mode.code32

namespace FetchedAt

theorem nil (s : St) : FetchedAt s [] [] s where
  val := rfl
  halted := (Bool.or_false _).symm
  cells _ := (if_neg List.not_mem_nil).symm
  eip := (advance_zero s.cpu).symm
  seg := rfl
  code32 := rfl

variable {s t u : St} {l l' : List U32} {v v' : List U8}

/-- The bytes fetched later are those at the start. -/
theorem exec_eq (hs : FetchedAt s l v t) (a : U32) :
    (t.mem.flat a).exec = (s.mem.flat a).exec := by
  rw [hs.cells a]
  split
  · exact exec_exec _
  · rfl

/-- What else is written does not matter. -/
theorem congr (hs : FetchedAt s l v t) (hmem : u.mem = t.mem) (heip : u.cpu.eip = t.cpu.eip)
    (hseg : u.cpu.seg = t.cpu.seg) (hcode : u.cpu.mode.code32 = t.cpu.mode.code32)
    (hhalted : u.cpu.mode.halted = t.cpu.mode.halted) : FetchedAt s l v u where
  val := hs.val
  halted := hhalted.trans hs.halted
  cells a := by rw [hmem, hs.cells a]
  eip := heip.trans hs.eip
  seg := hseg.trans hs.seg
  code32 := hcode.trans hs.code32

theorem trans (hs : FetchedAt s l v t) (ht : FetchedAt t l' v' u) :
    FetchedAt s (l ++ l') (v ++ v') u := by
  have hval : t.codeVal = s.codeVal := funext fun a => congrArg (·.1.1) (hs.exec_eq a)
  have herr : t.codeErr = s.codeErr := funext fun a => congrArg (·.1.2) (hs.exec_eq a)
  refine ⟨?_, ?_, fun a => ?_, ?_, ht.seg.trans hs.seg, ht.code32.trans hs.code32⟩
  · rw [hs.val, ht.val, List.map_append, hval]
  · rw [ht.halted, hs.halted, List.any_append, Bool.or_assoc, herr]
  · rw [ht.cells a, hs.exec_eq a]
    by_cases hl' : a ∈ l'
    · rw [if_pos hl', if_pos (List.mem_append_right l hl')]
    · rw [if_neg hl', hs.cells a]
      simp only [List.mem_append, hl', or_false]
  · rw [ht.eip, advance_eq, hs.eip, hs.code32, advance_eq, idxAdd_idxAdd, BitVec.ofNat_add_ofNat,
      ← advance_eq, List.length_append]

end FetchedAt

/-- The bytes of a number are those it is made of. -/
theorem valBytes_leVal {l : List U8} (width : MemioWidth) (hl : l.length = width.size.toNat) :
    valBytes width.size.toNat (leVal l) = l := by
  have hwidth : accessWidth .r width.bits = width.size.toNat := by cases width <;> rfl
  have hbytes : addrBytes (accessWidth .r width.bits) 0 (leVal l) = _ :=
    addrBytes_leVal (hl.trans hwidth.symm)
  have hpairs := congrArg (List.map Prod.snd) hbytes
  have hlen : (addrs (accessWidth .r width.bits) 0).length = l.length := by
    unfold addrs
    rw [List.length_map, List.length_range, hwidth, hl]
  rw [List.map_snd_zip (Nat.le_of_eq hlen.symm), hwidth] at hpairs
  unfold addrBytes at hpairs
  rw [List.map_map] at hpairs
  exact hpairs

/-- A number has one list of bytes. -/
theorem leVal_inj {l l' : List U8} (width : MemioWidth) (hl : l.length = width.size.toNat)
    (hl' : l'.length = width.size.toNat) {w : Nat} (hw : w = 8 * width.size.toNat) :
    (leVal l).setWidth w = (leVal l').setWidth w ↔ l = l' := by
  refine ⟨fun heq => ?_, fun heq => heq ▸ rfl⟩
  have hbytes : ∀ x : U32, valBytes width.size.toNat x =
      (List.range width.size.toNat).map fun i => (x.setWidth w).extractLsb' (8 * i) 8 := by
    intro x
    refine List.map_congr_left fun i hi => ?_
    rw [List.mem_range] at hi
    apply BitVec.eq_of_getLsbD_eq
    intro j hj
    rw [BitVec.getLsbD_extractLsb', BitVec.getLsbD_extractLsb', BitVec.getLsbD_setWidth,
      decide_eq_true (by omega : 8 * i + j < w), Bool.true_and]
  rw [← valBytes_leVal width hl, hbytes, heq, ← hbytes, valBytes_leVal width hl']

theorem valBytes_one (x : U32) : valBytes 1 x = [x.setWidth 8] := by
  rw [BitVec.setWidth_eq_extractLsb' (by decide)]
  rfl

section

variable {inp : PortInput} {h : Host} (hh : h.Blind inp)

include hh

theorem fetchCode_at (width : MemioWidth) (s : St) :
    ((fetchCode width width.size.toNat).run h s).1 =
      leVal (valBytes width.size.toNat ((fetchCode width width.size.toNat).run h s).1) ∧
    FetchedAt s (s.cpu.wideAddrs width.size.toNat)
      (valBytes width.size.toNat ((fetchCode width width.size.toNat).run h s).1)
      ((fetchCode width width.size.toNat).run h s).2 := by
  have hwidth := accessWidth_exec width
  have hres := codeRes_eq s width
  have hflat := flat_exec (bits_ne_noperm width) s.mem (s.cpu.linear .cs s.cpu.eip) 0
  simp only [hwidth] at hflat
  have hrun := seen_fetchCode hh width s
  have hview : ((fetchCode width width.size.toNat).run h s).2.view = (s.fetched width).view :=
    congrArg Prod.snd hrun
  obtain ⟨hcpu, hmem⟩ := same_of_view hview
  have hval : ((fetchCode width width.size.toNat).run h s).1 = (s.codeRes width).1 :=
    congrArg Prod.fst hrun
  rw [hres] at hval
  have hbytes := valBytes_leVal (l := (s.cpu.wideAddrs width.size.toNat).map s.codeVal) width
    (by rw [List.length_map, length_wideAddrs])
  refine ⟨?_, ?_, ?_, fun a => ?_, ?_, ?_, ?_⟩
  · rw [hval, hbytes]
  · rw [hval, hbytes]
  · rw [hcpu, fetched_cpu]
    show (_ || (s.codeRes width).2) = _
    rw [hres]
  · rw [hmem, fetched_mem, hflat a, addrs_linear]
  · rw [hcpu, fetched_eip, length_wideAddrs]
  · rw [hcpu]
    rfl
  · rw [hcpu]
    rfl

theorem fetchByte_at (s : St) :
    FetchedAt s [s.cpu.byteAddr 0] [(fetchByte.run h s).1] (fetchByte.run h s).2 := by
  obtain ⟨-, hbyte⟩ := fetchCode_at hh .b8 s
  have haddr : s.cpu.wideAddrs 1 = [s.cpu.byteAddr 0] := by
    unfold Cpu.byteAddr
    rw [advance_zero]
    exact congrArg (fun a => [a]) (BitVec.add_zero _)
  rw [show MemioWidth.b8.size.toNat = 1 from rfl, haddr, valBytes_one] at hbyte
  exact hbyte

theorem fetchEach_at (n : Nat) (s : St) :
    FetchedAt s (s.cpu.byteAddrs n) ((fetchEach n).run h s).1 ((fetchEach n).run h s).2 := by
  induction n generalizing s with
  | zero => exact .nil s
  | succ n ih =>
    have hbyte := fetchByte_at hh s
    rw [byteAddrs_succ hbyte.seg hbyte.code32 hbyte.eip]
    exact hbyte.trans (ih _)

end

/-! ## The instruction buffer -/

/-- `instr_buf` after a fetch, with all of its bytes or none. -/
def captured (buf bytes : List U8) : List U8 :=
  if buf.length + bytes.length ≤ instrBufSize then buf ++ bytes else buf

/-- `instr_buf` with as many of the bytes as fit. -/
def fitted (buf bytes : List U8) : List U8 := buf ++ bytes.take (instrBufSize - buf.length)

theorem captured_one (buf : List U8) (v : U8) : captured buf [v] = fitted buf [v] := by
  unfold captured fitted
  rw [List.length_singleton]
  split
  case isTrue hroom => rw [List.take_of_length_le (by rw [List.length_singleton]; omega)]
  case isFalse hfull =>
    rw [Nat.sub_eq_zero_of_le (by omega), List.take_zero, List.append_nil]

theorem fitted_cons (buf : List U8) (v : U8) (l : List U8) :
    fitted (fitted buf [v]) l = fitted buf (v :: l) := by
  unfold fitted
  rcases Nat.eq_zero_or_pos (instrBufSize - buf.length) with hfull | hroom
  · simp [hfull]
  · obtain ⟨k, hk⟩ := Nat.exists_eq_succ_of_ne_zero (Nat.pos_iff_ne_zero.mp hroom)
    have hrest : instrBufSize - (buf.length + 1) = k := by omega
    simp [hk, hrest]

/-- All or none is as many as fit, when there is room for all or for none. -/
theorem captured_iff {buf bytes : List U8} (hbytes : bytes ≠ []) :
    captured buf bytes = fitted buf bytes ↔
      buf.length + bytes.length ≤ instrBufSize ∨ instrBufSize ≤ buf.length := by
  have hpos := List.length_pos_iff.mpr hbytes
  unfold captured fitted
  constructor
  · intro heq
    have hlen := congrArg List.length heq
    by_contra hno
    rw [not_or] at hno
    rw [if_neg hno.1, List.length_append, List.length_take] at hlen
    omega
  · rintro (hroom | hfull)
    · rw [if_pos hroom, List.take_of_length_le (by omega)]
    · rw [if_neg (by omega), Nat.sub_eq_zero_of_le hfull, List.take_zero, List.append_nil]

/-- The flush function leaves `instr_buf` alone. -/
def Host.KeepsBuf (h : Host) : Prop :=
  ∀ {f}, h.flush = some f → ∀ s t, (f s t).instrBuf = s.instrBuf

section

variable {inp : PortInput} {h : Host} (hh : h.Blind inp) (hbuf : h.KeepsBuf)

include hbuf in
theorem Host.KeepsBuf.logBlind : LogBlind h fun s t => t.instrBuf = s.instrBuf where
  refl _ := rfl
  trans h₁ h₂ := h₂.trans h₁
  log _ _ := rfl
  flush hf := hbuf hf

include hh hbuf

theorem decodeMemio_buf (width : MemioWidth) (addr : U32) (s : St) :
    ((decodeMemio .x width addr 0).run h s).2.instrBuf = s.instrBuf := by
  have hmemio : (callMemio .x width.bits addr 0 h s).2.instrBuf = s.instrBuf := by
    unfold callMemio
    rw [hh.memio]
    rfl
  generalize hr : callMemio .x width.bits addr 0 h s = r at hmemio
  have hrun : ((decodeMemio .x width addr 0).run h s).2 =
      logLine 1024 (memioTraced .x) (fun _ => memioText .x width addr r.1.1 r.1.2) h r.2 := by
    rw [← hr]
    rfl
  rw [hrun, hbuf.logBlind.line, hmemio]

theorem fetchCode_buf (width : MemioWidth) (n : Nat) (s : St) :
    ((fetchCode width n).run h s).2.instrBuf =
      captured s.instrBuf (valBytes n ((fetchCode width n).run h s).1) := by
  have hmemio := decodeMemio_buf hh hbuf width ((s.cpu.seg .cs).base + s.cpu.eip) s
  have hcapture : ∀ bytes t, (captureBytes bytes t).instrBuf = captured t.instrBuf bytes := by
    intro bytes t
    unfold captureBytes captured
    split <;> rfl
  generalize hr : (decodeMemio .x width ((s.cpu.seg .cs).base + s.cpu.eip) 0).run h s = r at hmemio
  have hrun : (fetchCode width n).run h s = (do
      if r.1.2 then stopFetch ((s.cpu.seg .cs).base + s.cpu.eip)
      let cpu ← getCpu
      if cpu.mode.code32 then setEip (cpu.eip + BitVec.ofNat 32 n)
      else setEip (setLo16 cpu.eip (cpu.ip + BitVec.ofNat 16 n))
      capture (valBytes n r.1.1)
      return r.1.1 : Emu U32).run h r.2 := by
    rw [← hr]
    rfl
  rw [hrun, ← hmemio]
  simp only [Prog.run_bind, Prog.run_ite]
  split <;> split <;> exact hcapture _ _

theorem fetchEach_buf (n : Nat) (s : St) :
    ((fetchEach n).run h s).2.instrBuf = fitted s.instrBuf ((fetchEach n).run h s).1 := by
  induction n generalizing s with
  | zero =>
    show s.instrBuf = fitted s.instrBuf []
    rw [fitted, List.take_nil, List.append_nil]
  | succ n ih =>
    have hbyte : (fetchByte.run h s).2.instrBuf = fitted s.instrBuf [(fetchByte.run h s).1] := by
      have hcode := fetchCode_buf hh hbuf .b8 1 s
      rw [valBytes_one, captured_one] at hcode
      exact hcode
    have hrest := ih (fetchByte.run h s).2
    rw [hbyte, fitted_cons] at hrest
    exact hrest

end

/-! ## Agreement -/

/-- A value fetched at once, and its bytes one by one. -/
structure Granular {w : Nat} (s : St) (wide : BitVec w × St) (each : List U8 × St) : Prop where
  val : wide.1 = (leVal each.1).setWidth w
  eip : wide.2.cpu.eip = each.2.cpu.eip
  halted : wide.2.cpu.mode.halted = each.2.cpu.mode.halted
  cells : wide.2.mem.flat = each.2.mem.flat
  wideBuf : wide.2.instrBuf = fitted s.instrBuf each.1
  eachBuf : each.2.instrBuf = fitted s.instrBuf each.1

/-- The bytes behind the segment are those at its start, with the same errors, and no mark of theirs
is missing. -/
structure SameBytes (s : St) (n : Nat) : Prop where
  val : ∀ k < n, s.codeVal (s.cpu.wideAddr k) = s.codeVal (s.cpu.byteAddr k)
  halted : s.cpu.mode.halted = true ∨
    (s.cpu.wideAddrs n).any s.codeErr = (s.cpu.byteAddrs n).any s.codeErr
  marks : ∀ k < n, s.cpu.WrapsBy k → ∀ a, a = s.cpu.wideAddr k ∨ a = s.cpu.byteAddr k →
    (s.mem.flat a).exec.2 = s.mem.flat a

/-- `IP` does not wrap within the value or it makes no difference, and `instr_buf` has room for all
of it or for nothing. -/
structure FetchClean (s : St) (n : Nat) : Prop where
  bytes : s.cpu.WrapsBy (n - 1) → SameBytes s n
  room : s.instrBuf.length + n ≤ instrBufSize ∨ instrBufSize ≤ s.instrBuf.length

theorem not_wraps {c : Cpu} {n k : Nat} (hno : ¬c.WrapsBy (n - 1)) (hk : k < n) : ¬c.WrapsBy k :=
  fun ⟨hcode, hip⟩ => hno ⟨hcode, by omega⟩

theorem sameBytes_iff {s : St} {n : Nat} (hn : n ≤ 4) :
    SameBytes s n ↔ (s.cpu.WrapsBy (n - 1) → SameBytes s n) := by
  refine ⟨fun hs _ => hs, fun hs => ?_⟩
  by_cases hwrap : s.cpu.WrapsBy (n - 1)
  · exact hs hwrap
  · have hbyte : ∀ k < n, s.cpu.wideAddr k = s.cpu.byteAddr k := fun k hk =>
      (wideAddr_byte (by omega)).mpr (not_wraps hwrap hk)
    refine ⟨fun k hk => by rw [hbyte k hk], Or.inr ?_, fun k hk hk' => ?_⟩
    · rw [Cpu.wideAddrs, Cpu.byteAddrs,
        List.map_congr_left fun k hk => hbyte k (List.mem_range.mp hk)]
    · exact absurd hk' (not_wraps hwrap hk)

/-- The marks agree when those that only one of the two leaves were there before. -/
theorem cells_iff {s t u : St} {n : Nat} (hn : n ≤ 4) {v v' : List U8}
    (ht : FetchedAt s (s.cpu.wideAddrs n) v t) (hu : FetchedAt s (s.cpu.byteAddrs n) v' u) :
    t.mem.flat = u.mem.flat ↔
      ∀ k < n, s.cpu.WrapsBy k → ∀ a, a = s.cpu.wideAddr k ∨ a = s.cpu.byteAddr k →
        (s.mem.flat a).exec.2 = s.mem.flat a := by
  have hwide : ∀ a, a ∈ s.cpu.wideAddrs n ↔ ∃ k < n, s.cpu.wideAddr k = a := by
    simp [Cpu.wideAddrs]
  have hbyte : ∀ a, a ∈ s.cpu.byteAddrs n ↔ ∃ k < n, s.cpu.byteAddr k = a := by
    simp [Cpu.byteAddrs]
  constructor
  · intro heq k hk hwrap a ha
    have hne : s.cpu.wideAddr k ≠ s.cpu.byteAddr k := fun h =>
      (wideAddr_byte (by omega)).mp h hwrap
    have hcell := congrFun heq a
    rw [ht.cells, hu.cells] at hcell
    rcases ha with rfl | rfl
    · have hnot : s.cpu.wideAddr k ∉ s.cpu.byteAddrs n := by
        rw [hbyte]
        rintro ⟨m, hm, hmk⟩
        obtain rfl := wideAddr_inj (by omega) (by omega) hmk.symm
        exact hne hmk.symm
      rwa [if_pos ((hwide _).mpr ⟨k, hk, rfl⟩), if_neg hnot] at hcell
    · have hnot : s.cpu.byteAddr k ∉ s.cpu.wideAddrs n := by
        rw [hwide]
        rintro ⟨m, hm, hmk⟩
        obtain rfl := wideAddr_inj (by omega) (by omega) hmk
        exact hne hmk
      rw [if_neg hnot, if_pos ((hbyte _).mpr ⟨k, hk, rfl⟩)] at hcell
      exact hcell.symm
  · intro hmarks
    funext a
    rw [ht.cells, hu.cells]
    by_cases hw : a ∈ s.cpu.wideAddrs n <;> by_cases hb : a ∈ s.cpu.byteAddrs n
    · rw [if_pos hw, if_pos hb]
    · obtain ⟨k, hk, rfl⟩ := (hwide a).mp hw
      rw [if_pos hw, if_neg hb]
      refine hmarks k hk ?_ _ (Or.inl rfl)
      by_contra hno
      exact hb ((hbyte _).mpr ⟨k, hk, ((wideAddr_byte (by omega)).mpr hno).symm⟩)
    · obtain ⟨k, hk, rfl⟩ := (hbyte a).mp hb
      rw [if_neg hw, if_pos hb]
      refine (hmarks k hk ?_ _ (Or.inr rfl)).symm
      by_contra hno
      exact hw ((hwide _).mpr ⟨k, hk, (wideAddr_byte (by omega)).mpr hno⟩)
    · rw [if_neg hw, if_neg hb]

section

variable {inp : PortInput} {h : Host} (hh : h.Blind inp) (hbuf : h.KeepsBuf)

include hh hbuf

theorem granular_iff (width : MemioWidth) {w : Nat} (hw : w = 8 * width.size.toNat) (s : St) :
    Granular s (((fetchCode width width.size.toNat).run h s).1.setWidth w,
        ((fetchCode width width.size.toNat).run h s).2)
      ((fetchEach width.size.toNat).run h s) ↔ FetchClean s width.size.toNat := by
  have hsize : 0 < width.size.toNat ∧ width.size.toNat ≤ 4 := by cases width <;> decide
  obtain ⟨hval, hwide⟩ := fetchCode_at hh width s
  have heach := fetchEach_at hh width.size.toNat s
  have hwideBuf := fetchCode_buf hh hbuf width width.size.toNat s
  have heachBuf := fetchEach_buf hh hbuf width.size.toNat s
  generalize (fetchCode width width.size.toNat).run h s = p at *
  generalize (fetchEach width.size.toNat).run h s = q at *
  generalize valBytes width.size.toNat p.1 = v at *
  have hlen : v.length = width.size.toNat := by
    rw [hwide.val, List.length_map, length_wideAddrs]
  have hlen' : q.1.length = width.size.toNat := by
    rw [heach.val, List.length_map, length_byteAddrs]
  have hne : v ≠ [] := List.ne_nil_of_length_pos (by omega)
  have hvals : v = q.1 ↔
      ∀ k < width.size.toNat, s.codeVal (s.cpu.wideAddr k) = s.codeVal (s.cpu.byteAddr k) := by
    rw [hwide.val, heach.val, Cpu.wideAddrs, Cpu.byteAddrs, List.map_map, List.map_map,
      List.map_inj_left]
    simp [List.mem_range]
  have hhalted : p.2.cpu.mode.halted = q.2.cpu.mode.halted ↔ s.cpu.mode.halted = true ∨
      (s.cpu.wideAddrs width.size.toNat).any s.codeErr =
        (s.cpu.byteAddrs width.size.toNat).any s.codeErr := by
    rw [hwide.halted, heach.halted]
    cases s.cpu.mode.halted <;> simp
  have hcells := cells_iff hsize.2 hwide heach
  have hfit : captured s.instrBuf v = fitted s.instrBuf v ↔ _ := captured_iff hne
  rw [hlen] at hfit
  constructor
  · rintro ⟨h₁, -, h₃, h₄, h₅, -⟩
    dsimp only at h₁ h₃ h₄ h₅
    rw [hval, leVal_inj width hlen hlen' hw] at h₁
    rw [hwideBuf, ← h₁, hfit] at h₅
    exact ⟨fun _ => ⟨hvals.mp h₁, hhalted.mp h₃, hcells.mp h₄⟩, h₅⟩
  · rintro ⟨hbytes, hroom⟩
    obtain ⟨hsame, herr, hmarks⟩ := (sameBytes_iff hsize.2).mpr hbytes
    have hv := hvals.mpr hsame
    refine ⟨?_, ?_, hhalted.mpr herr, hcells.mpr hmarks, ?_, heachBuf⟩
    · show p.1.setWidth w = _
      rw [hval, hv]
    · show p.2.cpu.eip = _
      rw [hwide.eip, heach.eip, length_wideAddrs, length_byteAddrs]
    · show p.2.instrBuf = _
      rw [hwideBuf, ← hv, hfit]
      exact hroom

theorem fetchWord_iff (s : St) :
    Granular s (fetchWord.run h s) ((fetchEach 2).run h s) ↔ FetchClean s 2 :=
  granular_iff hh hbuf .b16 rfl s

theorem fetchLong_iff (s : St) :
    Granular s (fetchLong.run h s) ((fetchEach 4).run h s) ↔ FetchClean s 4 := by
  have hlong := granular_iff hh hbuf .b32 (w := 32) rfl s
  rw [BitVec.setWidth_eq] at hlong
  exact hlong

/-- `fetch_word` and `fetch_long` are two and four calls of `fetch_byte`, exactly under these
conditions. -/
theorem fetch_granular_iff (s : St) :
    (Granular s (fetchWord.run h s) ((fetchEach 2).run h s) ↔ FetchClean s 2) ∧
      (Granular s (fetchLong.run h s) ((fetchEach 4).run h s) ↔ FetchClean s 4) :=
  ⟨fetchWord_iff hh hbuf s, fetchLong_iff hh hbuf s⟩

end

theorem defaultHost_keepsBuf (inp : PortInput) : (defaultHost inp).KeepsBuf := by
  intro f hf
  cases hf

/-- 16 bit code with other bytes behind the segment than at its start. -/
def segmentCode (eip : U32) : St :=
  { cpu := { eip := eip }, mem := wholeMem fun a => if a = 0x10000 then 1 else 0 }

theorem fetch_granular_iff_start :
    let h := defaultHost fun _ _ _ => 0
    let s := segmentCode 0x100
    Granular s (fetchWord.run h s) ((fetchEach 2).run h s) := by
  intro h s
  have hh : h.Blind fun _ _ _ => 0 := (defaultHost_default _).blind
  obtain ⟨hword, -⟩ := fetch_granular_iff hh (defaultHost_keepsBuf _) s
  refine hword.mpr ⟨fun ⟨_, hwrap⟩ => ?_, Or.inl (by decide)⟩
  exact absurd hwrap (by decide)

/-- The second byte of a word at the end of the segment. -/
theorem fetch_granular_fails :
    let h := defaultHost fun _ _ _ => 0
    let s := segmentCode 0xffff
    ¬Granular s (fetchWord.run h s) ((fetchEach 2).run h s) := by
  intro h s hsame
  have hh : h.Blind fun _ _ _ => 0 := (defaultHost_default _).blind
  have hclean := (fetchWord_iff hh (defaultHost_keepsBuf _) s).mp hsame
  have hbyte := (hclean.bytes ⟨rfl, by decide⟩).val 1 (by decide)
  have hcode : ∀ a, s.codeVal a = if a = 0x10000 then 1 else 0 := by
    intro a
    unfold St.codeVal
    rw [exec_val, show s.mem.flat a = _ from flat_wholeMem _ a]
    exact if_pos (by decide : (permRwx ||| permValid).has permX = true)
  rw [hcode, hcode] at hbyte
  exact absurd hbyte (by decide)

end X86Emu
