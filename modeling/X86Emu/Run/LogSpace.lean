import X86Emu.Run.DumpTexts

/-!
# Space in the log buffer

A log writer leaves the buffer in order when its text, with the terminating zero, fits into the
space behind `log.ptr`. Writers whose text is shorter than the space they ask for always do so, and
`x86emu_log` does for every text that `vsnprintf` can format.
-/

namespace X86Emu

/-! ## The buffer -/

namespace LogBuf

/-- `log.buf <= log.ptr < log.buf + log.size`, and nothing has been written outside the buffer. -/
structure Ok (b : LogBuf) : Prop where
  start : 0 ≤ b.ptr
  space : b.ptr < b.size.toNat
  lo : 0 ≤ b.lo
  hi : b.hi ≤ b.size.toNat

variable {b : LogBuf}

theorem Ok.free (hb : b.Ok) : (b.free.toNat : Int) = b.size.toNat - b.ptr := by
  have hstart := hb.start
  have hspace := hb.space
  have hsize := b.size.isLt
  unfold LogBuf.free
  rw [BitVec.toNat_ofInt, Int.toNat_of_nonneg (Int.emod_nonneg _ (by decide))]
  exact Int.emod_eq_of_lt (by omega) (by push_cast; omega)

/-- What is written from `ptr` on lies in the buffer. -/
theorem Ok.touch (hb : b.Ok) {n : Nat} (hn : n ≤ b.free.toNat) : (b.touch n).Ok := by
  have hfree := hb.free
  unfold LogBuf.touch
  split
  · exact hb
  · obtain ⟨hstart, hspace, hlo, hhi⟩ := hb
    have hend : b.ptr + n ≤ b.size.toNat := by omega
    exact ⟨hstart, hspace, Int.le_min.mpr ⟨hlo, hstart⟩, Int.max_le.mpr ⟨hhi, hend⟩⟩

theorem Ok.nul (hb : b.Ok) : b.nul.Ok := by
  have hfree := hb.free
  have hspace := hb.space
  exact hb.touch (by omega)

@[simp] theorem touch_ptr (b : LogBuf) (n : Nat) : (b.touch n).ptr = b.ptr := by
  unfold touch
  split <;> rfl

@[simp] theorem touch_size (b : LogBuf) (n : Nat) : (b.touch n).size = b.size := by
  unfold touch
  split <;> rfl

@[simp] theorem nul_ptr (b : LogBuf) : b.nul.ptr = b.ptr := touch_ptr b 1

@[simp] theorem nul_size (b : LogBuf) : b.nul.size = b.size := touch_size b 1

@[simp] theorem put_ptr (b : LogBuf) (t : List Char) : (b.put t).ptr = b.ptr + t.length := by
  show (b.touch t.length).ptr + t.length = _
  rw [touch_ptr]

@[simp] theorem put_size (b : LogBuf) (t : List Char) : (b.put t).size = b.size :=
  touch_size b t.length

/-- The position after bytes that have been written. -/
theorem Ok.at (hb : b.Ok) {ptr : Int} {text : List Char} (hstart : 0 ≤ ptr)
    (hspace : ptr < b.size.toNat) : ({ b with ptr := ptr, text := text } : LogBuf).Ok :=
  ⟨hstart, hspace, hb.lo, hb.hi⟩

/-- A text that leaves space for the terminating zero. -/
theorem Ok.put (hb : b.Ok) {t : List Char} (ht : t.length < b.free.toNat) : (b.put t).Ok := by
  have hfree := hb.free
  have hstart := hb.start
  refine (hb.touch (Nat.le_of_lt ht)).at ?_ ?_
  · rw [touch_ptr]
    omega
  · rw [touch_ptr, touch_size]
    omega

theorem Ok.rewind (hb : b.Ok) : b.rewind.Ok :=
  hb.at (Int.le_refl 0) (Int.lt_of_le_of_lt hb.start hb.space)

end LogBuf

/-! ## States -/

/-- The log buffer and the debug record are the same. -/
structure KeepsBuf (s t : St) : Prop where
  buf : t.log.buf = s.log.buf
  debug : t.debugLen = s.debugLen

/-- The log buffer is in order, and the debug record is short. -/
structure St.LogInv (s : St) : Prop where
  ok : ∀ b, s.log.buf = some b → b.Ok
  debug : s.debugLen.toNat < 128

namespace St.LogInv

variable {s t : St}

theorem of_keeps (hs : s.LogInv) (hst : KeepsBuf s t) : t.LogInv where
  ok b hb := hs.ok b (hst.buf ▸ hb)
  debug := by
    rw [hst.debug]
    exact hs.debug

theorem setBuf (hs : s.LogInv) {b : LogBuf} (hb : b.Ok) : (s.setBuf b).LogInv where
  ok _ hb' := Option.some.inj hb' ▸ hb
  debug := hs.debug

end St.LogInv

/-! ## Clearing -/

section

variable {h : Host} (hh : ∀ {f}, h.flush = some f → ∀ s t, KeepsBuf s (f s t))

include hh

theorem runFlush_keeps (s : St) : KeepsBuf s (runFlush h s) := by
  unfold runFlush
  split
  · next f b hf _ =>
    split
    · exact ⟨rfl, rfl⟩
    · exact hh hf s b.text
  · exact ⟨rfl, rfl⟩

/-- The log is empty after it has been cleared, and all its space free. -/
theorem clearLog_eq {s : St} {b : LogBuf} (hb : s.log.buf = some b) :
    ∃ t, KeepsBuf s t ∧ x86emuClearLog h true s = (b.rewind.nul.free, t.setBuf b.rewind.nul) := by
  have hflush := runFlush_keeps hh s
  refine ⟨runFlush h s, hflush, ?_⟩
  unfold x86emuClearLog
  rw [if_pos rfl]
  dsimp only
  rw [hflush.buf, hb]

theorem clearLog_inv (flush : Bool) {s : St} (hs : s.LogInv) :
    (x86emuClearLog h flush s).2.LogInv := by
  have hstart : KeepsBuf s (if flush then runFlush h s else s) := by
    split
    · exact runFlush_keeps hh s
    · exact ⟨rfl, rfl⟩
  unfold x86emuClearLog
  generalize (if flush then runFlush h s else s) = t at hstart
  have ht := hs.of_keeps hstart
  dsimp only
  cases hb : t.log.buf with
  | none => exact ht
  | some b => exact ht.setBuf (ht.ok b hb).rewind.nul

end

/-- The state in which a writer that asks for `thr` bytes puts its text. -/
def withSpace (thr : U32) (h : Host) (s : St) : St :=
  match s.log.buf with
  | none => s
  | some b => if b.free < thr then (x86emuClearLog h true s).2 else s

/-- The text that a writer puts and the terminating zero fit into the space left. -/
def TextFits (thr : U32) (guard : Log → Bool) (text : St → List Char) (h : Host) (s : St) : Prop :=
  guard s.log = true → ∀ b ∈ (withSpace thr h s).log.buf, thr ≤ b.free →
    (text (withSpace thr h s)).length < b.free.toNat

instance (thr : U32) (guard : Log → Bool) (text : St → List Char) (h : Host) (s : St) :
    Decidable (TextFits thr guard text h s) :=
  inferInstanceAs (Decidable (_ → ∀ b ∈ (withSpace thr h s).log.buf, _ → _))

theorem TextFits.of_lt {thr : U32} {guard : Log → Bool} {text : St → List Char} {h : Host} {s : St}
    (ht : (text (withSpace thr h s)).length < thr.toNat) : TextFits thr guard text h s :=
  fun _ _ _ hle => Nat.lt_of_lt_of_le ht (BitVec.le_def.mp hle)

section

variable {h : Host} (hh : ∀ {f}, h.flush = some f → ∀ s t, KeepsBuf s (f s t))

include hh

/-- The start of every writer: the space that is free, after a clear when it is not enough. -/
theorem withSpace_eq (thr : U32) {s : St} {b : LogBuf} (hb : s.log.buf = some b) :
    ∃ b', (withSpace thr h s).log.buf = some b' ∧
      (if b.free < thr then x86emuClearLog h true s else (b.free, s)) =
        (b'.free, withSpace thr h s) := by
  unfold withSpace
  rw [hb]
  dsimp only
  split
  · obtain ⟨t, -, hclear⟩ := clearLog_eq hh hb
    rw [hclear]
    exact ⟨b.rewind.nul, rfl, rfl⟩
  · exact ⟨b, hb, rfl⟩

theorem withSpace_inv (thr : U32) {s : St} (hs : s.LogInv) : (withSpace thr h s).LogInv := by
  unfold withSpace
  cases hb : s.log.buf with
  | none => exact hs
  | some b =>
    dsimp only
    split
    · exact clearLog_inv hh true hs
    · exact hs

/-- A writer whose text fits leaves the log in order. -/
theorem logLine_inv {thr : U32} {guard : Log → Bool} {text : St → List Char} {s : St}
    (hfits : TextFits thr guard text h s) (hs : s.LogInv) :
    (logLine thr guard text h s).LogInv := by
  cases hguard : guard s.log with
  | false =>
    have hquiet : logLine thr guard text h s = s := by
      unfold logLine
      cases s.log.buf with
      | none => rfl
      | some b =>
        rw [hguard]
        rfl
    rwa [hquiet]
  | true =>
    cases hb : s.log.buf with
    | none =>
      unfold logLine
      rwa [hb]
    | some b =>
      have hspace := withSpace_inv hh thr hs
      obtain ⟨b', hb', hstart⟩ := withSpace_eq hh thr hb
      unfold logLine
      rw [hb]
      dsimp only
      rw [hguard, if_neg (by decide), hstart]
      dsimp only
      rw [hb']
      dsimp only
      split
      · exact hspace
      · next hfree =>
        have hlt := hfits hguard b' hb' (BitVec.not_lt.mp hfree)
        exact hspace.setBuf ((hspace.ok b' hb').put hlt).nul

end

/-! ## `x86emu_log` -/

/-- What `vsnprintf` writes fits: from 2 GB of free space on its limit, which is converted from an
`int`, is none, but no text is longer. -/
theorem LogBuf.Ok.vsnprintf {b : LogBuf} (hb : b.Ok) {t : List Char} (ht : t.length < 2 ^ 31) :
    (b.vsnprintf (sizeT b.free.toInt) (some t)).2.Ok := by
  refine hb.touch ?_
  by_cases hfree : 2 * b.free.toNat < 2 ^ 32
  · have hmax : sizeT b.free.toInt = b.free.toNat := by
      unfold sizeT
      rw [BitVec.toInt_eq_toNat_of_lt hfree, BitVec.ofInt_natCast, BitVec.toNat_ofNat]
      exact Nat.mod_eq_of_lt (b.free.isLt.trans (by decide))
    rw [hmax]
    exact Nat.min_le_right _ _
  · exact (Nat.min_le_left _ _).trans (by omega)

/-- The position is advanced by a text that is shorter than the free space. -/
theorem logDone_inv {s : St} (hs : s.LogInv) {b : LogBuf} (hb : b.Ok) {t : List Char}
    (ht : t.length < 2 ^ 31) :
    (logDone s (b.vsnprintf (sizeT b.free.toInt) (some t)).2 t.length b.free.toInt
      (some t)).LogInv := by
  have hwritten := hb.vsnprintf ht
  have hfree := hb.free
  have hstart := hb.start
  have hint : b.free.toInt ≤ b.free.toNat := by
    rw [BitVec.toInt_eq_toNat_cond]
    split <;> omega
  have hptr : (b.vsnprintf (sizeT b.free.toInt) (some t)).2.ptr = b.ptr := LogBuf.touch_ptr b _
  have hsize : (b.vsnprintf (sizeT b.free.toInt) (some t)).2.size = b.size :=
    LogBuf.touch_size b _
  unfold logDone
  split
  · next hfits =>
    refine hs.setBuf (hwritten.at ?_ ?_)
    · rw [hptr]
      omega
    · rw [hptr, hsize]
      omega
  · exact hs.setBuf hwritten.nul

/-- `x86emu_log` leaves the log in order for a text that can be formatted. -/
theorem x86emuLog_inv {h : Host} (hh : ∀ {f}, h.flush = some f → ∀ s t, KeepsBuf s (f s t))
    {t : List Char} (ht : t.length < 2 ^ 31) {s : St} (hs : s.LogInv) :
    (x86emuLog h (some t) s).LogInv := by
  have hlen : ∀ (b : LogBuf) max, (b.vsnprintf max (some t)).1 = t.length := fun _ _ => if_pos ht
  unfold x86emuLog
  cases hb : s.log.buf with
  | none => exact hs
  | some b =>
    have hok := hs.ok b hb
    dsimp only
    rw [hlen]
    split
    · have hwritten := hs.setBuf (hok.vsnprintf ht)
      generalize (b.vsnprintf (sizeT b.free.toInt) (some t)).2 = w at hwritten
      obtain ⟨v, hkeeps, hclear⟩ := clearLog_eq hh (rfl : (s.setBuf w).log.buf = some w)
      have hrewound := (hwritten.ok w rfl).rewind.nul
      rw [hclear]
      show (logDone (v.setBuf w.rewind.nul) _ _ _ _).LogInv
      rw [hlen]
      exact logDone_inv ((hwritten.of_keeps hkeeps).setBuf hrewound) hrewound ht
    · exact logDone_inv hs hok ht

end X86Emu
