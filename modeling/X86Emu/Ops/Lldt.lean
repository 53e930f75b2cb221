import X86Emu.Decode.SegLoad
import X86Emu.Ops.TwoByte

/-!
# `lldt`

The LDT register is loaded by the routine for code and data segments. So `lldt` refuses the
descriptors of LDTs and takes those of segments; only what is neither is refused as it should be.
-/

namespace X86Emu

open Lib

/-! ## Descriptors of LDTs -/

/-- The entry is the system descriptor of a LDT, and it is present. -/
def SegDescr.IsLdt (d : SegDescr) : Prop :=
  d.acc.getLsbD 4 = false ∧ d.acc.extractLsb' 0 3 = 2 ∧ d.acc.getLsbD 7 = true

/-! ## The handler -/

/-- The selector that `lldt` is given. -/
def St.lldtSel (s : St) : U16 := (s.rm .word).val s

/-- The state after the operand is read. -/
def St.wordRead (s : St) : St :=
  if s.modrm.mod = 3 then s.fetched .b8 else s.rmFetched.loaded .b16 s.rmSeg s.rmAddress

theorem wordRead_reads (s : St) : Reads s s.wordRead := by
  unfold St.wordRead
  split
  · exact Reads.refl.fetched .b8
  · exact (rmFetched_reads s).loaded .b16 s.rmSeg s.rmAddress

theorem seen_lldt {inp : PortInput} {h : Host} (hh : h.Blind inp) {s : St}
    (hreg : s.modrm.regh = 2) (op : U8) :
    seen h (Op2.opc00 op) s = ((), (s.wordRead.segLoaded .ldt s.lldtSel).view) := by
  have htext : Op2.opc00Text s.modrm.regh = some "lldt " := by rw [hreg]; rfl
  have huse : ∀ val, Op2.opc00Use s.modrm.regh val = x86emuSetSegRegister .ldt val := by
    intro val
    rw [hreg]
    rfl
  have hload : ¬s.modrm.regh.toNat < 2 := by rw [hreg]; decide
  unfold Op2.opc00
  rw [seen_step hh (seen_modrm hh s), htext]
  dsimp only
  rw [seen_step hh (seen_opDecode _ _)]
  unfold Op2.opc00Operand St.wordRead St.lldtSel St.rm
  rw [seen_ite]
  by_cases hmod : s.modrm.mod = 3
  · have hdecode : ∀ t, seen h (decodeRmWordRegister s.modrm.regl) t =
        (Reg.ofBits s.modrm.regl, t.view) := fun t => seen_step hh (seen_opDecode _ t)
    rw [if_pos hmod, if_pos hmod, if_pos hmod, seen_step hh (hdecode _), seen_ite, if_neg hload,
      seen_step hh (seen_get16 _ _), huse, seen_setSegRegister hh]
    rfl
  · have hfetch : seen h (fetchDataWord s.rmAddress) s.rmFetched =
        ((s.dataVal .b16 s.rmSeg s.rmAddress).setWidth 16,
          (s.rmFetched.loaded .b16 s.rmSeg s.rmAddress).view) := by
      rw [← (rmFetched_reads s).dataVal, ← rmFetched_dataSeg s]
      exact seen_fetchDataSize hh .word _ _
    rw [if_neg hmod, if_neg hmod, if_neg hmod, seen_step hh (seen_rmAddress hh hmod), seen_ite,
      if_neg hload, seen_step hh hfetch, huse, seen_setSegRegister hh]
    rfl

/-! ## What `lldt` is to do -/

/-- The entry `v >> 3` of the GDT is the image of `d`. -/
def St.GdtEntry (s : St) (v : U16) (d : SegDescr) : Prop :=
  let addr := s.cpu.gdtBase + BitVec.ofNat 32 (8 * (v.toNat / 8))
  (s.mem.access .r .b32 addr 0).1 = (d.encode.1, false) ∧
    (s.mem.access .r .b32 (addr + 4) 0).1 = (d.encode.2, false)

/-- The entry is that of a LDT. -/
def St.GdtLdt (s : St) (v : U16) : Prop := ∃ d, s.GdtEntry v d ∧ d.IsLdt

/-- `lldt` of the selector `v`, from the state `r` in which it is read. -/
structure LdtLoad (v : U16) (r t : St) : Prop where
  load : ∀ d, r.GdtEntry v d → d.IsLdt →
    t.cpu.ldt.base = d.base ∧ t.cpu.ldt.limit = d.byteLimit ∧ t.intr = r.intr
  table : ∀ d, r.GdtEntry v d → d.IsLdt → ∀ w : U16, w.getLsbD 2 = true →
    t.cpu.entryAddr w = d.base + BitVec.ofNat 32 (8 * (w.toNat / 8))
  fault : ¬r.GdtLdt v → t.cpu.ldt = r.cpu.ldt ∧
    ∃ nr mode err, t.intr = (r.raised nr (intrTypeFault ||| mode) err).intr

/-- An interrupt is pending once the operand of `lldt` is read. -/
def St.LldtPending (s : St) : Prop :=
  s.intr.type ≠ 0 ∨ s.modrm.mod ≠ 3 ∧ s.rmAddress + 2 - 1 > (s.cpu.seg s.rmSeg).limit

theorem raised_intr_iff {type : U32} (htype : type ≠ 0) (r : St) (nr : U8) (err : U32) :
    (r.raised nr type err).intr = r.intr ↔ r.intr.type ≠ 0 := by
  unfold St.raised
  dsimp only
  constructor
  · intro h hidle
    rw [if_pos hidle] at h
    exact htype ((congrArg Intr.type h).trans hidle)
  · intro hbusy
    exact if_neg hbusy

theorem fault_ne_zero (mode : U32) : intrTypeFault ||| mode ≠ 0 := by
  intro h
  have hbit : (intrTypeFault ||| mode).getLsbD 1 = (0 : U32).getLsbD 1 := by rw [h]
  rw [BitVec.getLsbD_or, show intrTypeFault.getLsbD 1 = true from rfl, Bool.true_or] at hbit
  exact absurd hbit (by decide)

theorem gdtEntry_unique {s : St} {v : U16} {d d' : SegDescr} (h : s.GdtEntry v d)
    (h' : s.GdtEntry v d') : d = d' := by
  have hlo : d.encode.1 = d'.encode.1 := (Prod.mk.inj (h.1.symm.trans h'.1)).1
  have hhi : d.encode.2 = d'.encode.2 := (Prod.mk.inj (h.2.symm.trans h'.2)).1
  rw [← ofEntry_encode d, ← ofEntry_encode d', hlo, hhi]

/-- Reading the operand changes no entry. -/
theorem Reads.gdtEntry {s r : St} (h : Reads s r) (v : U16) (d : SegDescr) :
    r.GdtEntry v d ↔ s.GdtEntry v d := by
  obtain ⟨eip, segDsSs, halted, hcpu⟩ := h.cpu
  unfold St.GdtEntry
  rw [hcpu]
  dsimp only
  rw [h.marked.access_result (by decide), h.marked.access_result (by decide)]

theorem gdtEntry_encodes {s : St} {v : U16} (hgdt : v.getLsbD 2 = false)
    (hin : 8 * (v.toNat / 8) + 7 ≤ s.cpu.gdtLimit.toNat) (d : SegDescr) :
    s.GdtEntry v d ↔ s.Encodes v d := by
  unfold St.GdtEntry St.Encodes
  rw [hgdt]
  exact (and_iff_right hin).symm

/-- What is pending after the operand is read. -/
theorem wordRead_pending (s : St) : s.wordRead.intr.type ≠ 0 ↔ s.LldtPending := by
  have hraised : ∀ r : St, ∀ err, (r.raisedGp err).intr.type ≠ 0 := by
    intro r err
    unfold St.raisedGp St.raised
    dsimp only
    split
    · exact (by decide : intrTypeFault ||| intrModeRestart ||| intrModeErrcode ≠ 0)
    · next hbusy => exact hbusy
  unfold St.wordRead St.LldtPending
  split
  · next hmod => exact (or_iff_left fun h => h.1 hmod).symm
  · next hmod =>
    have hseg : s.rmFetched.cpu.seg = s.cpu.seg := by
      obtain ⟨eip, segDsSs, halted, hcpu⟩ := (rmFetched_reads s).cpu
      rw [hcpu]
    have hloaded : (s.rmFetched.loaded .b16 s.rmSeg s.rmAddress).intr =
        (if s.rmAddress + 2 - 1 > (s.cpu.seg s.rmSeg).limit then
          s.rmFetched.raisedGp ((s.cpu.seg s.rmSeg).sel.setWidth 32) else s.rmFetched).intr := by
      rw [← hseg]
      rfl
    rw [hloaded]
    split
    · next hlimit => exact iff_of_true (hraised _ _) (Or.inr ⟨hmod, hlimit⟩)
    · next hlimit =>
      rw [rmFetched_intr]
      exact (or_iff_left fun h => hlimit h.2).symm

/-- The entry of a segment is loaded. -/
theorem ldtLoad_present {r t : St} {v : U16} {d : SegDescr} (hd : r.GdtEntry v d)
    (hpresent : d.Present) (hload : OnlySel .ldt (d.cache v) r t) :
    LdtLoad v r t ↔ r.intr.type ≠ 0 ∧ r.cpu.ldt = d.cache v := by
  have hldt : t.cpu.ldt = d.cache v := by rw [hload.1]; rfl
  have hno : ∀ d', r.GdtEntry v d' → ¬d'.IsLdt := by
    intro d' hd' hsys
    rw [gdtEntry_unique hd' hd] at hsys
    exact Bool.false_ne_true (hsys.1.symm.trans hpresent.1)
  constructor
  · intro h
    obtain ⟨hkept, nr, mode, err, hraised⟩ := h.fault fun ⟨d', hd', hsys⟩ => hno d' hd' hsys
    refine ⟨?_, hkept.symm.trans hldt⟩
    rw [hload.2] at hraised
    exact (raised_intr_iff (fault_ne_zero mode) r nr err).mp hraised.symm
  · rintro ⟨hbusy, hsame⟩
    refine ⟨fun d' hd' hsys => absurd hsys (hno d' hd'),
      fun d' hd' hsys => absurd hsys (hno d' hd'), fun _ => ⟨hldt.trans hsame.symm, 0, 0, 0, ?_⟩⟩
    rw [hload.2, (raised_intr_iff (fault_ne_zero 0) r 0 0).mpr hbusy]

/-- The entry of a LDT is refused. -/
theorem ldtLoad_ldt {r t : St} {v : U16} {d : SegDescr} (hd : r.GdtEntry v d) (hsys : d.IsLdt)
    (hfault : Faults v r t) : LdtLoad v r t ↔
      r.intr.type ≠ 0 ∧ r.cpu.ldt.base = d.base ∧ r.cpu.ldt.limit = d.byteLimit := by
  have hintr : t.intr = r.intr ↔ r.intr.type ≠ 0 := by
    rw [hfault.2]
    exact raised_intr_iff (by decide) r 0x0d _
  constructor
  · intro h
    obtain ⟨hbase, hlimit, hsame⟩ := h.load d hd hsys
    rw [hfault.1] at hbase hlimit
    exact ⟨hintr.mp hsame, hbase, hlimit⟩
  · rintro ⟨hbusy, hbase, hlimit⟩
    refine ⟨?_, ?_, fun hno => absurd ⟨d, hd, hsys⟩ hno⟩
    · intro d' hd' _
      rw [gdtEntry_unique hd' hd, hfault.1]
      exact ⟨hbase, hlimit, hintr.mpr hbusy⟩
    · intro d' hd' _ w hw
      unfold Cpu.entryAddr Cpu.descrTable
      rw [gdtEntry_unique hd' hd, hfault.1, hw, if_pos rfl, entryOfs_eq]
      exact congrArg (· + _) hbase

/-- Whatever is neither is refused as it should be. -/
theorem ldtLoad_other {r t : St} {v : U16} (hno : ¬r.GdtLdt v) (hfault : Faults v r t) :
    LdtLoad v r t := by
  refine ⟨fun d hd hsys => absurd ⟨d, hd, hsys⟩ hno, fun d hd hsys => absurd ⟨d, hd, hsys⟩ hno,
    fun _ => ⟨by rw [hfault.1], 0x0d, intrModeRestart ||| intrModeErrcode, v.setWidth 32, ?_⟩⟩
  rw [hfault.2, ← BitVec.or_assoc]
  rfl

/-- `lldt` is right exactly for the entries that are neither of a LDT nor of a segment, and where
nothing of what it does wrong is seen. -/
theorem ldtLoad_iff {r : St} (hprot : r.cpu.prot = true) {v : U16} (hgdt : v.getLsbD 2 = false)
    (hindex : 8 ≤ v.toNat) (hin : 8 * (v.toNat / 8) + 7 ≤ r.cpu.gdtLimit.toNat) :
    LdtLoad v r (r.segLoaded .ldt v) ↔ (∀ d, r.GdtEntry v d → ¬d.IsLdt ∧ ¬d.Present) ∨
      r.intr.type ≠ 0 ∧ ∀ d, r.GdtEntry v d →
        (d.IsLdt → r.cpu.ldt.base = d.base ∧ r.cpu.ldt.limit = d.byteLimit) ∧
        (d.Present → r.cpu.ldt = d.cache v) := by
  have hload : ∀ sel, r.newCache v = some sel ↔
      ∃ d, r.GdtEntry v d ∧ d.Present ∧ sel = d.cache v := by
    intro sel
    simp only [gdtEntry_encodes hgdt hin]
    exact newCache_eq_some (by omega) sel
  have hexcl : ∀ d : SegDescr, d.Present → ¬d.IsLdt :=
    fun d hp hsys => Bool.false_ne_true (hsys.1.symm.trans hp.1)
  rcases hnew : r.newCache v with _ | sel
  · have hfault := segLoaded_none hprot hnew .ldt
    have hnot : ∀ d, r.GdtEntry v d → ¬d.Present := by
      intro d hd hp
      have hsome := (hload _).mpr ⟨d, hd, hp, rfl⟩
      rw [hnew] at hsome
      exact absurd hsome (by simp)
    by_cases hldt : r.GdtLdt v
    · obtain ⟨d, hd, hsys⟩ := hldt
      rw [ldtLoad_ldt hd hsys hfault]
      constructor
      · rintro ⟨hbusy, hsame⟩
        refine Or.inr ⟨hbusy, fun d' hd' => ⟨fun _ => ?_, fun hp => absurd hp (hnot d' hd')⟩⟩
        rw [gdtEntry_unique hd' hd]
        exact hsame
      · rintro (hno | ⟨hbusy, hsame⟩)
        · exact absurd hsys (hno d hd).1
        · exact ⟨hbusy, (hsame d hd).1 hsys⟩
    · exact iff_of_true (ldtLoad_other hldt hfault)
        (Or.inl fun d hd => ⟨fun hsys => hldt ⟨d, hd, hsys⟩, hnot d hd⟩)
  · obtain ⟨d, hd, hp, rfl⟩ := (hload sel).mp hnew
    rw [ldtLoad_present hd hp (segLoaded_some hprot hnew .ldt)]
    constructor
    · rintro ⟨hbusy, hsame⟩
      refine Or.inr ⟨hbusy, fun d' hd' => ?_⟩
      rw [gdtEntry_unique hd' hd]
      exact ⟨fun hsys => absurd hsys (hexcl d hp), fun _ => hsame⟩
    · rintro (hno | ⟨hbusy, hsame⟩)
      · exact absurd hp (hno d hd).2
      · exact ⟨hbusy, (hsame d hd).2 hp⟩

theorem LdtLoad.congr {v : U16} {r t t' : St} (hcpu : t'.cpu = t.cpu) (hintr : t'.intr = t.intr)
    (h : LdtLoad v r t) : LdtLoad v r t' := by
  obtain ⟨hload, htable, hfault⟩ := h
  constructor <;> simp only [hcpu, hintr] <;> assumption

/-- For every selector of the GDT and every content of the GDT: `lldt` loads the descriptors of LDTs
and refuses all others exactly when the entry is neither that of a LDT nor of a segment, or when the
LDT register holds the result already and an interrupt is pending. -/
theorem lldt_iff {inp : PortInput} {h : Host} (hh : h.Blind inp) {s : St}
    (hprot : s.cpu.prot = true) (hreg : s.modrm.regh = 2) (hgdt : s.lldtSel.getLsbD 2 = false)
    (hindex : 8 ≤ s.lldtSel.toNat)
    (hin : 8 * (s.lldtSel.toNat / 8) + 7 ≤ s.cpu.gdtLimit.toNat) :
    LdtLoad s.lldtSel s.wordRead ((Op2.opc00 0x00).run h s).2 ↔
      (∀ d, s.GdtEntry s.lldtSel d → ¬d.IsLdt ∧ ¬d.Present) ∨
        s.LldtPending ∧ ∀ d, s.GdtEntry s.lldtSel d →
          (d.IsLdt → s.cpu.ldt.base = d.base ∧ s.cpu.ldt.limit = d.byteLimit) ∧
          (d.Present → s.cpu.ldt = d.cache s.lldtSel) := by
  have hreads := wordRead_reads s
  obtain ⟨eip, segDsSs, halted, hcpu⟩ := hreads.cpu
  obtain ⟨hcpu', -, hintr'⟩ := view_parts (congrArg Prod.snd (seen_lldt hh hreg 0x00))
  have hsame : LdtLoad s.lldtSel s.wordRead ((Op2.opc00 0x00).run h s).2 ↔
      LdtLoad s.lldtSel s.wordRead (s.wordRead.segLoaded .ldt s.lldtSel) :=
    ⟨.congr hcpu'.symm hintr'.symm, .congr hcpu' hintr'⟩
  rw [hsame, ldtLoad_iff (by rw [hcpu]; exact hprot) hgdt hindex (by rw [hcpu]; exact hin)]
  simp only [hreads.gdtEntry, wordRead_pending]
  rw [hcpu]

/-- Protected mode, with a memory that holds one byte everywhere. -/
def protState (b : U8) : St where
  cpu := { resetCpu with
    crx := Function.update resetCpu.crx 0 1
    gen := Function.update resetCpu.gen .ax 8 }
  mem := fullMem fun _ => b

/-- `lldt [bx+si]` where the word and the entry have all bytes 0x10: the entry is not present. -/
theorem lldt_iff_absent :
    LdtLoad (protState 0x10).lldtSel (protState 0x10).wordRead
        ((Op2.opc00 0x00).run (defaultHost fun _ _ _ => 0) (protState 0x10)).2 ↔
      (∀ d, (protState 0x10).GdtEntry (protState 0x10).lldtSel d → ¬d.IsLdt ∧ ¬d.Present) ∨
        (protState 0x10).LldtPending ∧ ∀ d, (protState 0x10).GdtEntry (protState 0x10).lldtSel d →
          (d.IsLdt → (protState 0x10).cpu.ldt.base = d.base ∧
            (protState 0x10).cpu.ldt.limit = d.byteLimit) ∧
          (d.Present → (protState 0x10).cpu.ldt = d.cache (protState 0x10).lldtSel) :=
  lldt_iff (defaultHost_default _).blind (by decide) (by decide +kernel) (by decide +kernel)
    (by decide +kernel) (by decide +kernel)

/-- `lldt ax` with a data segment as the entry: it is loaded. -/
theorem lldt_fails :
    (protState 0xd0).modrm.regh = 2 ∧ (protState 0xd0).lldtSel = 8 ∧
      ¬LdtLoad (protState 0xd0).lldtSel (protState 0xd0).wordRead
        ((Op2.opc00 0x00).run (defaultHost fun _ _ _ => 0) (protState 0xd0)).2 := by
  have hreg : (protState 0xd0).modrm.regh = 2 := by decide +kernel
  have hsel : (protState 0xd0).lldtSel = 8 := by decide +kernel
  refine ⟨hreg, hsel, fun hload => ?_⟩
  obtain ⟨hcpu, -, hintr⟩ := view_parts
    (congrArg Prod.snd (seen_lldt (defaultHost_default fun _ _ _ => 0).blind hreg 0x00))
  rw [hsel] at hload hcpu hintr
  have hpresent : (SegDescr.ofEntry 0xd0d0d0d0 0xd0d0d0d0).Present := by decide
  have hentry : (protState 0xd0).wordRead.GdtEntry 8 (.ofEntry 0xd0d0d0d0 0xd0d0d0d0) := by
    rw [(wordRead_reads _).gdtEntry]
    unfold St.GdtEntry
    rw [encode_ofEntry]
    decide +kernel
  have hnew : (protState 0xd0).wordRead.newCache 8 =
      some ((SegDescr.ofEntry 0xd0d0d0d0 0xd0d0d0d0).cache 8) := by
    refine (newCache_eq_some (by decide) _).mpr ⟨_, ?_, hpresent, rfl⟩
    exact (gdtEntry_encodes (by decide) (by decide +kernel) _).mp hentry
  have hloaded := segLoaded_some (by decide +kernel) hnew .ldt
  have hexact : OnlySel .ldt ((SegDescr.ofEntry 0xd0d0d0d0 0xd0d0d0d0).cache 8)
      (protState 0xd0).wordRead
      ((Op2.opc00 0x00).run (defaultHost fun _ _ _ => 0) (protState 0xd0)).2 :=
    ⟨hcpu.trans hloaded.1, hintr.trans hloaded.2⟩
  have hbusy := ((ldtLoad_present hentry hpresent hexact).mp hload).1
  rcases (wordRead_pending _).mp hbusy with hbusy | ⟨hmod, -⟩
  · exact hbusy rfl
  · exact hmod (by decide +kernel)

end X86Emu
