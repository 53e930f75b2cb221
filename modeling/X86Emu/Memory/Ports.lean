import X86Emu.Memory.Memio

/-!
# Port output

The outputs of `vm_o_byte`, `vm_o_word` and `vm_o_dword` in terms of bytes: what goes to the host,
which ports are counted and marked, and whether a byte was refused. The wide functions have one path
for ports that all may be written, with one output to the host, and one with an output for each
byte.
-/

namespace X86Emu

/-! ## Bytes and ports -/

/-- The ports of a wide access, modulo 2^16. -/
def portAt (p : U16) (i : Nat) : U16 := p + BitVec.ofNat 16 i

theorem portAt_zero (p : U16) : portAt p 0 = p := BitVec.add_zero p

theorem portAt_inj (p : U16) {i j : Nat} (hi : i < 2 ^ 16) (hj : j < 2 ^ 16) :
    portAt p i = portAt p j ↔ i = j := by
  unfold portAt
  rw [BitVec.add_right_inj, ← BitVec.toNat_inj, BitVec.toNat_ofNat, BitVec.toNat_ofNat,
    Nat.mod_eq_of_lt hi, Nat.mod_eq_of_lt hj]

/-- The byte outputs a host's `outb`, `outw` or `outl` comes to. -/
def PortEvent.outBytes : PortEvent → List (U16 × U8)
  | .out port .b16 val => [(port, val.extractLsb' 0 8), (port + 1, val.extractLsb' 8 8)]
  | .out port .b32 val =>
    [(port, val.extractLsb' 0 8), (port + 1, val.extractLsb' 8 8), (port + 2, val.extractLsb' 16 8),
      (port + 3, val.extractLsb' 24 8)]
  | .out port _ val => [(port, val.extractLsb' 0 8)]
  | .inp _ _ => []

/-- The bytes sent so far, the first one first. -/
def Io.sent (io : Io) : List (U16 × U8) := io.events.reverse.flatMap PortEvent.outBytes

/-- Accesses of the port that need the permission `perm` are not refused. -/
def Io.allows (io : Io) (perm : U8) (port : U16) : Bool := io.ioplOk && (io.map port).has perm

/-- Bytes may be sent to the port. -/
def Io.permits (io : Io) (port : U16) : Bool := io.ioplOk && (io.map port).has permW

/-- The bytes of an output that are not refused. -/
def Io.accepted (io : Io) (p : U16) (n : Nat) (byte : Nat → U8) : List (U16 × U8) :=
  ((List.range n).filter fun i => io.permits (portAt p i)).map fun i => (portAt p i, byte i)

/-- The output of `n` bytes from port `p` on: the permitted ones are sent and counted, the others
are marked and set the invalid flag. -/
structure Sends (p : U16) (n : Nat) (byte : Nat → U8) (s t : St) : Prop where
  sent : t.io.sent = s.io.sent ++ s.io.accepted p n byte
  stats : ∀ q, t.io.statsO q = s.io.statsO q +
    if (∃ i < n, q = portAt p i) ∧ s.io.permits q = true then 1 else 0
  map : ∀ q, t.io.map q = s.io.map q |||
    if ∃ i < n, q = portAt p i then if s.io.permits q = true then accWrite else accInvalid else 0#8
  invalid : t.mem.invalid = true ↔
    s.mem.invalid = true ∨ ∃ i < n, s.io.permits (portAt p i) = false
  iopl : t.io.ioplOk = s.io.ioplOk

/-- A byte that is sent, counted and logged. -/
def Io.outByte (io : Io) (port : U16) (val : U32) : Io :=
  ((io.mark port accWrite).countO port).log (.out port .b8 (val &&& 0xff))

theorem accepted_succ (io : Io) (p : U16) (n : Nat) (byte : Nat → U8) :
    io.accepted p (n + 1) byte = io.accepted p n byte ++
      if io.permits (portAt p n) = true then [(portAt p n, byte n)] else [] := by
  unfold Io.accepted
  rw [List.range_succ, List.filter_append, List.map_append]
  congr 1
  by_cases hok : io.permits (portAt p n) = true <;> simp [hok]

theorem sent_log (io : Io) (e : PortEvent) : (io.log e).sent = io.sent ++ e.outBytes := by
  unfold Io.sent Io.log
  rw [List.reverse_cons, List.flatMap_append]
  simp

/-- The bytes below bit 16 of a value cut to 16 bits, and below bit 8. -/
theorem extract_masked (val : U32) {k m j : Nat}
    (hmask : ∀ i < k, (BitVec.ofNat 32 m).getLsbD i = true) (hj : j + 8 ≤ k) :
    (val &&& BitVec.ofNat 32 m).extractLsb' j 8 = val.extractLsb' j 8 := by
  apply BitVec.eq_of_getLsbD_eq
  intro i hi
  rw [BitVec.getLsbD_extractLsb', BitVec.getLsbD_extractLsb', BitVec.getLsbD_and,
    hmask (j + i) (by omega), Bool.and_true]

theorem outByte_sent (io : Io) (port : U16) (val : U32) :
    (io.outByte port val).sent = io.sent ++ [(port, val.setWidth 8)] := by
  have hlow : (val &&& 0xff).extractLsb' 0 8 = val.setWidth 8 := by
    rw [BitVec.setWidth_eq_extractLsb' (by decide)]
    exact extract_masked val (k := 8) (m := 0xff) (by decide) (by decide)
  unfold Io.outByte
  rw [sent_log]
  show io.sent ++ [(port, (val &&& 0xff).extractLsb' 0 8)] = _
  rw [hlow]

theorem outByte_stats (io : Io) (port : U16) (val : U32) (q : U16) :
    (io.outByte port val).statsO q = io.statsO q + if q = port then 1 else 0 := by
  show Function.update io.statsO port (io.statsO port + 1) q = _
  by_cases h : q = port
  · subst h
    rw [Function.update_self, if_pos rfl]
  · rw [Function.update_of_ne h, if_neg h]
    exact (BitVec.add_zero _).symm

theorem mark_map (io : Io) (port : U16) (a : U8) (q : U16) :
    (io.mark port a).map q = io.map q ||| if q = port then a else 0#8 := by
  show Function.update io.map port (io.map port ||| a) q = _
  by_cases h : q = port
  · subst h
    rw [Function.update_self, if_pos rfl]
  · rw [Function.update_of_ne h, if_neg h, BitVec.or_zero]

theorem vmOByte_eq (s : St) (addr val : U32) : vmOByte s addr val =
    if s.io.permits (addr.setWidth 16) = true then
      { s with io := s.io.outByte (addr.setWidth 16) val }
    else { s with io := s.io.mark (addr.setWidth 16) accInvalid }.setInvalid := by
  unfold vmOByte Io.permits
  dsimp only
  simp only [Bool.and_eq_true]
  rfl

namespace Sends

variable {p : U16} {n : Nat} {byte : Nat → U8} {s t : St}

theorem zero (p : U16) (byte : Nat → U8) (s : St) : Sends p 0 byte s s where
  sent := (List.append_nil _).symm
  stats q := by simp
  map q := by simp
  invalid := by simp
  iopl := rfl

/-- Ports further on are as before. -/
theorem permits_next (h : Sends p n byte s t) (hn : n < 2 ^ 16) :
    t.io.map (portAt p n) = s.io.map (portAt p n) ∧
      t.io.permits (portAt p n) = s.io.permits (portAt p n) := by
  have hmap : t.io.map (portAt p n) = s.io.map (portAt p n) := by
    rw [h.map, if_neg, BitVec.or_zero]
    rintro ⟨i, hi, heq⟩
    have hin := (portAt_inj p hn (by omega)).mp heq
    omega
  unfold Io.permits
  exact ⟨hmap, by rw [hmap, h.iopl]⟩

/-- One more byte. -/
theorem succ (h : Sends p n byte s t) (hn : n < 2 ^ 16) {addr val : U32}
    (haddr : addr.setWidth 16 = portAt p n) (hval : val.setWidth 8 = byte n) :
    Sends p (n + 1) byte s (vmOByte t addr val) := by
  obtain ⟨hmap, hperm⟩ := h.permits_next hn
  have hnot : ¬∃ i < n, portAt p n = portAt p i := by
    rintro ⟨i, hi, heq⟩
    have hin := (portAt_inj p hn (by omega)).mp heq
    omega
  rw [vmOByte_eq, haddr, hperm]
  by_cases hok : s.io.permits (portAt p n) = true
  · rw [if_pos hok]
    refine ⟨?_, fun q => ?_, fun q => ?_, ?_, h.iopl⟩
    · rw [outByte_sent, h.sent, hval, accepted_succ, if_pos hok, List.append_assoc]
    · rw [outByte_stats, h.stats]
      simp only [Nat.exists_lt_succ_right]
      by_cases hq : q = portAt p n
      · subst hq
        simp [hnot, hok]
      · simp [hq]
    · show (t.io.mark (portAt p n) accWrite).map q = _
      rw [mark_map, h.map]
      simp only [Nat.exists_lt_succ_right]
      by_cases hq : q = portAt p n
      · subst hq
        simp [hnot, hok]
      · simp [hq]
    · rw [Nat.exists_lt_succ_right, hok]
      simpa using h.invalid
  · rw [if_neg hok]
    refine ⟨?_, fun q => ?_, fun q => ?_, ?_, h.iopl⟩
    · rw [accepted_succ, if_neg hok, List.append_nil]
      exact h.sent
    · show t.io.statsO q = _
      rw [h.stats]
      simp only [Nat.exists_lt_succ_right]
      by_cases hq : q = portAt p n
      · subst hq
        simp [hok]
      · simp [hq]
    · show (t.io.mark (portAt p n) accInvalid).map q = _
      rw [mark_map, h.map]
      simp only [Nat.exists_lt_succ_right]
      by_cases hq : q = portAt p n
      · subst hq
        simp [hnot, hok]
      · simp [hq]
    · rw [Nat.exists_lt_succ_right]
      simp [St.setInvalid, Mem.setInvalid, hok]

/-- One more byte to a permitted port. -/
theorem succ_ok (h : Sends p n byte s t) (hn : n < 2 ^ 16)
    (hok : s.io.permits (portAt p n) = true) :
    Sends p (n + 1) byte s { t with io := t.io.outByte (portAt p n) ((byte n).setWidth 32) } := by
  have haddr : ((portAt p n).setWidth 32).setWidth 16 = portAt p n :=
    BitVec.setWidth_setWidth_of_le _ (by decide)
  have hval : ((byte n).setWidth 32).setWidth 8 = byte n :=
    BitVec.setWidth_setWidth_of_le _ (by decide)
  have hnext := h.succ hn haddr hval
  rw [vmOByte_eq, haddr, (h.permits_next hn).2, if_pos hok] at hnext
  exact hnext

theorem congr {t' : St} (h : Sends p n byte s t) (hsent : t'.io.sent = t.io.sent)
    (hstats : t'.io.statsO = t.io.statsO) (hmap : t'.io.map = t.io.map) (hmem : t'.mem = t.mem)
    (hiopl : t'.io.ioplOk = t.io.ioplOk) : Sends p n byte s t' where
  sent := hsent.trans h.sent
  stats q := by rw [hstats, h.stats]
  map q := by rw [hmap, h.map]
  invalid := by rw [hmem, h.invalid]
  iopl := hiopl.trans h.iopl

end Sends

/-! ## The two paths -/

/-- The ports of an access lie in a row below 2^16 and none is refused. -/
def Io.Within (io : Io) (perm : U8) (p : U16) (n : Nat) : Prop :=
  p.toNat + n ≤ 2 ^ 16 ∧ ∀ i < n, io.allows perm (portAt p i) = true

/-- The ports of an output lie in a row below 2^16 and all may be written. -/
def Io.Fast (io : Io) (p : U16) (n : Nat) : Prop :=
  p.toNat + n ≤ 2 ^ 16 ∧ ∀ i < n, io.permits (portAt p i) = true

section Paths

variable (s : St) (addr val : U32)

/-- The bytes of a value. -/
def byteOf (val : U32) (i : Nat) : U8 := val.extractLsb' (8 * i) 8

theorem vmOByte_sends (byte : Nat → U8) (hval : val.setWidth 8 = byte 0) :
    Sends (addr.setWidth 16) 1 byte s (vmOByte s addr val) :=
  (Sends.zero _ _ s).succ (by decide) (portAt_zero _).symm hval

theorem port_next (p : U16) (i : Nat) :
    (p.setWidth 32 + BitVec.ofNat 32 i).setWidth 16 = portAt p i := by
  unfold portAt
  rw [BitVec.setWidth_add _ _ (by decide), BitVec.setWidth_setWidth_of_le _ (by decide),
    BitVec.setWidth_eq, BitVec.setWidth_ofNat_of_le (by decide)]

theorem port_first (p : U16) : (p.setWidth 32).setWidth 16 = portAt p 0 := by
  rw [portAt_zero, BitVec.setWidth_setWidth_of_le _ (by decide), BitVec.setWidth_eq]

/-- The tests of `vm_i_word` and `vm_o_word`. -/
theorem slow_word {perm : U8} (io : Io) (p : U16) :
    (!io.ioplOk ∨ p = 0xffff ∨ !U8.has (io.map p) perm ∨ !U8.has (io.map (p + 1)) perm) ↔
      ¬io.Within perm p 2 := by
  have hlast : p = 0xffff ↔ ¬p.toNat + 2 ≤ 2 ^ 16 := by
    have hlt := p.isLt
    rw [← BitVec.toNat_inj]
    show p.toNat = 65535 ↔ _
    omega
  have hall : (∀ i < 2, io.allows perm (portAt p i) = true) ↔
      io.allows perm p = true ∧ io.allows perm (p + 1) = true := by
    rw [Nat.forall_lt_succ_right, Nat.forall_lt_succ_right, portAt_zero]
    simp [portAt]
  unfold Io.Within
  rw [hall, hlast]
  unfold Io.allows
  simp only [Bool.and_eq_true, Bool.not_eq_true']
  cases io.ioplOk <;> cases U8.has (io.map p) perm <;> cases U8.has (io.map (p + 1)) perm <;> simp

/-- The tests of `vm_i_dword` and `vm_o_dword`. -/
theorem slow_dword {perm : U8} (io : Io) (p : U16) :
    (!io.ioplOk ∨ p ≥ 0xfffd ∨ !U8.has (io.map p) perm ∨ !U8.has (io.map (p + 1)) perm ∨
        !U8.has (io.map (p + 2)) perm ∨ !U8.has (io.map (p + 3)) perm) ↔ ¬io.Within perm p 4 := by
  have hlast : p ≥ 0xfffd ↔ ¬p.toNat + 4 ≤ 2 ^ 16 := by
    have hlt := p.isLt
    show 65533 ≤ p.toNat ↔ _
    omega
  have hall : (∀ i < 4, io.allows perm (portAt p i) = true) ↔
      io.allows perm p = true ∧ io.allows perm (p + 1) = true ∧ io.allows perm (p + 2) = true ∧
        io.allows perm (p + 3) = true := by
    simp only [Nat.forall_lt_succ_right, portAt_zero]
    simp [portAt, and_assoc]
  unfold Io.Within
  rw [hall, hlast]
  unfold Io.allows
  simp only [Bool.and_eq_true, Bool.not_eq_true']
  cases io.ioplOk <;> cases U8.has (io.map p) perm <;> cases U8.has (io.map (p + 1)) perm <;>
    cases U8.has (io.map (p + 2)) perm <;> cases U8.has (io.map (p + 3)) perm <;> simp

theorem outBytes_word (p : U16) (val : U32) :
    PortEvent.outBytes (.out p .b16 (val &&& 0xffff)) =
      [(portAt p 0, byteOf val 0), (portAt p 1, byteOf val 1)] := by
  have hmask : ∀ j, j + 8 ≤ 16 → (val &&& 0xffff).extractLsb' j 8 = val.extractLsb' j 8 :=
    fun j hj => extract_masked val (k := 16) (m := 0xffff) (by decide) hj
  show [(p, (val &&& 0xffff).extractLsb' 0 8), (p + 1, (val &&& 0xffff).extractLsb' 8 8)] = _
  rw [hmask 0 (by decide), hmask 8 (by decide), portAt_zero]
  rfl

theorem outBytes_dword (p : U16) (val : U32) :
    PortEvent.outBytes (.out p .b32 val) = [(portAt p 0, byteOf val 0), (portAt p 1, byteOf val 1),
      (portAt p 2, byteOf val 2), (portAt p 3, byteOf val 3)] := by
  rw [portAt_zero]
  rfl

theorem byteOf_narrow (val : U32) (i : Nat) :
    ((byteOf val i).setWidth 32).setWidth 8 = byteOf val i := by
  rw [BitVec.setWidth_setWidth_of_le _ (by decide), BitVec.setWidth_eq]

theorem vmOWord_fast (h : s.io.Fast (addr.setWidth 16) 2) :
    Sends (addr.setWidth 16) 2 (byteOf val) s (vmOWord s addr val) := by
  have hbytes := ((Sends.zero (addr.setWidth 16) (byteOf val) s).succ_ok (by decide)
    (h.2 0 (by decide))).succ_ok (by decide) (h.2 1 (by decide))
  unfold vmOWord
  dsimp only
  rw [if_neg (fun hslow => (slow_word _ _).mp hslow h)]
  refine hbytes.congr ?_ ?_ ?_ rfl rfl
  · rw [sent_log, outBytes_word, outByte_sent, outByte_sent, byteOf_narrow, byteOf_narrow,
      List.append_assoc]
    rfl
  · rw [portAt_zero]
    rfl
  · rw [portAt_zero]
    rfl

theorem vmOWord_slow (h : ¬s.io.Fast (addr.setWidth 16) 2) :
    Sends (addr.setWidth 16) 2 (fun _ => val.setWidth 8) s (vmOWord s addr val) := by
  unfold vmOWord
  dsimp only
  rw [if_pos ((slow_word _ _).mpr h)]
  exact ((Sends.zero _ _ s).succ (by decide) (port_first _) rfl).succ (by decide) (port_next _ 1)
    rfl

theorem vmODword_fast (h : s.io.Fast (addr.setWidth 16) 4) :
    Sends (addr.setWidth 16) 4 (byteOf val) s (vmODword s addr val) := by
  have hhalf := ((Sends.zero (addr.setWidth 16) (byteOf val) s).succ_ok (by decide)
    (h.2 0 (by decide))).succ_ok (by decide) (h.2 1 (by decide))
  have hbytes := (hhalf.succ_ok (by decide) (h.2 2 (by decide))).succ_ok (by decide)
    (h.2 3 (by decide))
  unfold vmODword
  dsimp only
  rw [if_neg (fun hslow => (slow_dword _ _).mp hslow h)]
  refine hbytes.congr ?_ ?_ ?_ rfl rfl
  · rw [sent_log, outBytes_dword, outByte_sent, outByte_sent, outByte_sent, outByte_sent,
      byteOf_narrow, byteOf_narrow, byteOf_narrow, byteOf_narrow, List.append_assoc,
      List.append_assoc, List.append_assoc]
    rfl
  · rw [portAt_zero]
    simp only [Io.outByte, Io.mark, Io.countO, Io.log]
    rfl
  · rw [portAt_zero]
    simp only [Io.outByte, Io.mark, Io.countO, Io.log]
    rfl

theorem vmODword_slow (h : ¬s.io.Fast (addr.setWidth 16) 4) :
    Sends (addr.setWidth 16) 4 (fun _ => val.setWidth 8) s (vmODword s addr val) := by
  unfold vmODword
  dsimp only
  rw [if_pos ((slow_dword _ _).mpr h)]
  have hfirst : Sends (addr.setWidth 16) 1 (fun _ => val.setWidth 8) s
      (vmOByte s ((addr.setWidth 16).setWidth 32) val) :=
    (Sends.zero _ (fun _ => val.setWidth 8) s).succ (by decide) (port_first (addr.setWidth 16)) rfl
  exact ((hfirst.succ (by decide) (port_next _ 1) rfl).succ (by decide) (port_next _ 2) rfl).succ
    (by decide) (port_next _ 3) rfl

end Paths

/-! ## The output -/

/-- How many bytes an output has. -/
def MemioWidth.count : MemioWidth → Nat
  | .b8 => 1
  | .b16 => 2
  | .b32 => 4

/-- What a port output promises: byte `i` goes to port `p + i` when that may be written; these
ports are counted, the others marked, and the result says whether there were others. -/
structure PortOut (p : U16) (n : Nat) (val : U32) (s : St) (out : (U32 × Bool) × St) : Prop where
  sent : out.2.io.sent = s.io.sent ++ s.io.accepted p n (byteOf val)
  stats : ∀ q, out.2.io.statsO q = s.io.statsO q +
    if (∃ i < n, q = portAt p i) ∧ s.io.permits q = true then 1 else 0
  marked : ∀ i < n, s.io.permits (portAt p i) = false →
    out.2.io.map (portAt p i) = s.io.map (portAt p i) ||| accInvalid
  refused : out.1.2 = true ↔ ∃ i < n, s.io.permits (portAt p i) = false

/-- All bytes go out at once, or the permitted ones are the same as byte 0. -/
def OutHolds (p : U16) (n : Nat) (val : U32) (s : St) : Prop :=
  s.io.Fast p n ∨ ∀ i < n, s.io.permits (portAt p i) = true → byteOf val i = byteOf val 0

theorem accepted_eq_iff (io : Io) (p : U16) (n : Nat) (byte byte' : Nat → U8) :
    io.accepted p n byte = io.accepted p n byte' ↔
      ∀ i < n, io.permits (portAt p i) = true → byte i = byte' i := by
  unfold Io.accepted
  rw [List.map_inj_left]
  simp only [List.mem_filter, List.mem_range, Prod.mk.injEq, true_and, and_imp]

theorem byteOf_zero (val : U32) : val.setWidth 8 = byteOf val 0 :=
  BitVec.setWidth_eq_extractLsb' (by decide)

/-- An output keeps its promise when the bytes sent are those of the value. -/
theorem portOut_of_sends {p : U16} {n : Nat} {byte : Nat → U8} {val : U32} {s t : St}
    (h : Sends p n byte { s with mem := { s.mem with invalid := false } } t) :
    PortOut p n val s ((val, t.mem.invalid), t) ↔
      ∀ i < n, s.io.permits (portAt p i) = true → byte i = byteOf val i := by
  have hsent : t.io.sent = s.io.sent ++ s.io.accepted p n byte := h.sent
  rw [← accepted_eq_iff]
  refine ⟨fun hout => ?_, fun heq => ⟨hsent.trans (by rw [heq]), h.stats, ?_, ?_⟩⟩
  · exact List.append_cancel_left (hsent.symm.trans hout.sent)
  · intro i hi hrefused
    have hmap : t.io.map (portAt p i) = s.io.map (portAt p i) ||| _ := h.map (portAt p i)
    rw [hmap, if_pos ⟨i, hi, rfl⟩, if_neg]
    show ¬s.io.permits (portAt p i) = true
    rw [hrefused]
    exact Bool.false_ne_true
  · refine h.invalid.trans ⟨?_, Or.inr⟩
    rintro (hinv | hsome)
    · cases hinv
    · exact hsome

/-- With one path for the whole value and one that sends byte 0 to every port. -/
theorem portOut_paths {p : U16} {n : Nat} {val : U32} {s t : St}
    (hfast : s.io.Fast p n →
      Sends p n (byteOf val) { s with mem := { s.mem with invalid := false } } t)
    (hslow : ¬s.io.Fast p n →
      Sends p n (fun _ => val.setWidth 8) { s with mem := { s.mem with invalid := false } } t) :
    PortOut p n val s ((val, t.mem.invalid), t) ↔ OutHolds p n val s := by
  unfold OutHolds
  by_cases h : s.io.Fast p n
  · rw [portOut_of_sends (hfast h)]
    exact ⟨fun _ => Or.inl h, fun _ _ _ _ => rfl⟩
  · rw [portOut_of_sends (hslow h), or_iff_right h, byteOf_zero]
    exact forall₃_congr fun _ _ _ => eq_comm

/-- A port output keeps its promise exactly when `OutHolds`. -/
theorem portOut_iff (inp : PortInput) (s : St) (width : MemioWidth) (addr val : U32) :
    PortOut (addr.setWidth 16) width.count val s (vmMemio inp s .o width.bits addr val) ↔
      OutHolds (addr.setWidth 16) width.count val s := by
  cases width with
  | b8 =>
    exact portOut_paths (fun _ => vmOByte_sends _ addr val (byteOf val) (byteOf_zero val))
      (fun _ => vmOByte_sends _ addr val (fun _ => val.setWidth 8) rfl)
  | b16 =>
    exact portOut_paths (fun h => vmOWord_fast _ addr val h)
      (fun h => vmOWord_slow _ addr val h)
  | b32 =>
    exact portOut_paths (fun h => vmODword_fast _ addr val h)
      (fun h => vmODword_slow _ addr val h)

/-- 0x1234 to a port that may be written and that is the last one. -/
theorem portOut_fails :
    ¬PortOut 0xffff 2 0x1234 { io := { map := fun _ => permW } }
      (vmMemio (fun _ _ _ => 0) { io := { map := fun _ => permW } } .o .b16 0xffff 0x1234) := by
  intro hout
  have hsent := hout.sent
  revert hsent
  decide

end X86Emu
