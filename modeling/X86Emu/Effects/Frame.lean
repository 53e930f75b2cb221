import X86Emu.Effects.TwoByte
import X86Emu.Run.Steps

/-!
# What programs keep

A relation between states that is kept by the primitive operations with effects in `g` is kept by
every program with effects in `g`. The load of a segment register is looked at once, for all
relations.
-/

namespace X86Emu

open Lib

set_option synthInstance.maxSize 1024

/-! ## Interrupts -/

instance (nr : U8) (cs eip : U32) : Does (idtLookup nr cs eip) 0 ⊥ := by
  unfold idtLookup
  dsimp only
  exact .le

instance (cs eip : U32) : Does (pushFrame cs eip) 0 mayWrite := by unfold pushFrame; exact .le

instance (nr : U8) (type errcode : U32) :
    Does (deliverInt nr type errcode) 0 (mayWrite ⊔ maySeg) := by
  unfold deliverInt
  exact .le

/-! ## Relations -/

/-- A load of a segment register only reads, besides writing the register. -/
theorem setSegRegister_keeps {h : Host} {R : St → St → Prop} (refl : ∀ s, R s s)
    (trans : ∀ {s t u}, R s t → R t u → R s u)
    (quiet : ∀ {α : Type} {x : Emu α}, Does x 0 ⊥ → ∀ s, R s (x.run h s).2)
    {ref : SelRef} (sel : ∀ v s, R s { s with cpu := s.cpu.setSel ref v }) (val : U16)
    (s : St) : R s ((x86emuSetSegRegister ref val).run h s).2 := by
  have hchain : Chain R := ⟨refl, trans⟩
  have hcpu : Stays h R getCpu := ⟨quiet inferInstance⟩
  have hread : ∀ addr, Stays h R (emuMemio .r .b32 addr 0) := fun addr => ⟨quiet inferInstance⟩
  have hdescr : ∀ dl dh, Stays h R (decodeDescriptor dl dh) := fun dl dh => ⟨quiet inferInstance⟩
  have hgp : ∀ err, Stays h R (intrRaiseGp err) := fun err => ⟨quiet inferInstance⟩
  have hsel : ∀ v, Stays h R (setSel ref v) := fun v => ⟨fun s => sel v s⟩
  have hload : Stays h R (loadDescriptor ref val) := by
    unfold loadDescriptor
    dsimp only
    infer_instance
  have hall : Stays h R (x86emuSetSegRegister ref val) := by
    unfold x86emuSetSegRegister
    infer_instance
  exact hall.stays s

/-- A relation that the primitive operations with effects in `g` keep. -/
structure Keeps (h : Host) (R : St → St → Prop) (g : Effects) : Prop where
  refl : ∀ s, R s s
  trans : ∀ {s t u}, R s t → R t u → R s u
  prim : ∀ {β : Type} {n : Nat} {f : Effects} {x : Trans Host St β},
    EmuGrade β n f x → f ≤ g → ∀ s, R s (x h s).2

namespace Keeps

variable {h : Host} {R : St → St → Prop} {g : Effects} {α : Type}

theorem graded (hR : Keeps h R g) {x : Emu α} {n : Nat} {f : Effects} (hx : Does x n f)
    (hf : f ≤ g) (s : St) : R s (x.run h s).2 :=
  Graded.keeps (R := fun _ => R) hR.refl (fun hst _ => hst) hR.trans hR.prim hx.grade hf s

theorem does (hR : Keeps h R g) (x : Emu α) {n : Nat} {f : Effects} [hx : Does x n f]
    (hf : f ≤ g := by decide) (s : St) : R s (x.run h s).2 := hR.graded hx hf s

theorem handler (hR : Keeps h R g) {op1 : U8} (hf : effects1 op1.toNat ≤ g) (s : St) :
    R s (runHandler h op1 s) := hR.graded (handler_does op1) hf s

/-- Writing a segment register besides. -/
theorem withSeg (hR : Keeps h R g) (sel : ∀ ref v s, R s { s with cpu := s.cpu.setSel ref v }) :
    Keeps h R (g ⊔ maySeg) where
  refl := hR.refl
  trans := hR.trans
  prim := by
    have hless : ∀ g f : Effects, ¬maySeg ≤ f → f ≤ g ⊔ maySeg → f ≤ g := by
      rintro ⟨ud, wrmsr, write, flags, seg, crx⟩ ⟨ud', wrmsr', write', flags', seg', crx'⟩
      cases seg' <;> simp [Prod.mk_le_mk, Bool.le_iff_imp]
    have hsilent : Keeps h R ⊥ := ⟨hR.refl, hR.trans, fun hx hf s => hR.prim hx (hf.trans bot_le) s⟩
    intro β n f x hx hf s
    by_cases hseg : maySeg ≤ f
    · cases hx with
      | seg ref val =>
        exact setSegRegister_keeps hsilent.refl hsilent.trans
          (fun hx s => hsilent.graded hx le_rfl s) (sel ref) val s
      | _ => exact absurd hseg (by decide)
    · exact hR.prim hx (hless g f hseg hf) s

end Keeps

/-- A two byte opcode fetches its second byte and goes on with the second table. -/
theorem runHandler_twoByte (h : Host) (s : St) :
    runHandler h 0x0f s = ((handlerAt x86emuOptab2 (fetchByte.run h s).1
      (fetchByte.run h s).1).run h (fetchByte.run h s).2).2 := rfl

/-! ## What most relations do not see -/

/-- A raised interrupt or a failed fetch. -/
def Event.Minor : Event → Prop
  | .raise .. | .fetchError .. => True
  | _ => False

/-- Only `EIP`, the mode, the texts, the pending interrupt, the debug record and the attributes of
the MSRs are changed, and minor events and divisions are recorded. -/
inductive Aside : St → St → Prop
  | mk (eip : U32) (mode : Mode) (bytes : List U8) (text : List Char) (intr : Intr)
      (start len : U32) (perm : Nat → U8) {events : List Event} (hev : ∀ ev ∈ events, ev.Minor)
      (divisions : List CDivision) (s : St) :
      Aside s { s with
        cpu := { s.cpu with eip := eip, mode := mode }
        instrBuf := bytes
        disasm := text
        intr := intr
        debugStart := start
        debugLen := len
        msrPerm := perm
        hist := events ++ s.hist
        divisions := divisions }

namespace Aside

theorem capture (bytes : List U8) (s : St) : Aside s (captureBytes bytes s) := by
  have hnone : ∀ ev ∈ ([] : List Event), ev.Minor := fun _ hev => absurd hev List.not_mem_nil
  unfold captureBytes
  split
  · exact mk s.cpu.eip s.cpu.mode _ s.disasm s.intr s.debugStart s.debugLen s.msrPerm
      hnone s.divisions s
  · exact mk s.cpu.eip s.cpu.mode s.instrBuf s.disasm s.intr s.debugStart s.debugLen s.msrPerm
      hnone s.divisions s

theorem raise (nr : U8) (type err : U32) (s : St) : Aside s (x86emuIntrRaise nr type err s) := by
  have hminor : ∀ ev ∈ [Event.raise nr type err], ev.Minor := by
    intro ev hev
    rw [List.mem_singleton.mp hev]
    exact True.intro
  unfold x86emuIntrRaise
  dsimp only
  split
  · exact mk s.cpu.eip s.cpu.mode s.instrBuf s.disasm _ s.debugStart s.debugLen s.msrPerm
      hminor s.divisions s
  · exact mk s.cpu.eip s.cpu.mode s.instrBuf s.disasm s.intr s.debugStart s.debugLen s.msrPerm
      hminor s.divisions s

theorem stop (s : St) : Aside s s.halt :=
  mk s.cpu.eip _ s.instrBuf s.disasm s.intr s.debugStart s.debugLen s.msrPerm
    (fun _ hev => absurd hev List.not_mem_nil) s.divisions s

theorem refl (s : St) : Aside s s :=
  mk s.cpu.eip s.cpu.mode s.instrBuf s.disasm s.intr s.debugStart s.debugLen s.msrPerm
    (fun _ hev => absurd hev List.not_mem_nil) s.divisions s

theorem ctrl {f : Cpu → Cpu} (hf : CtrlWrite f) (s : St) : Aside s { s with cpu := f s.cpu } := by
  have hnone : ∀ ev ∈ ([] : List Event), ev.Minor := fun _ hev => absurd hev List.not_mem_nil
  cases hf with
  | eip v =>
    exact mk v s.cpu.mode s.instrBuf s.disasm s.intr s.debugStart s.debugLen s.msrPerm
      hnone s.divisions s
  | segDsSs =>
    exact mk s.cpu.eip _ s.instrBuf s.disasm s.intr s.debugStart s.debugLen s.msrPerm
      hnone s.divisions s
  | stop => exact stop s

theorem disasm (text : List Char) (s : St) : Aside s { s with disasm := text } :=
  mk s.cpu.eip s.cpu.mode s.instrBuf text s.intr s.debugStart s.debugLen s.msrPerm
    (fun _ hev => absurd hev List.not_mem_nil) s.divisions s

theorem fetchStop (addr : U32) (s : St) : Aside s (fetchStop addr s) := by
  have hminor : ∀ ev ∈ [Event.fetchError addr], ev.Minor := by
    intro ev hev
    rw [List.mem_singleton.mp hev]
    exact True.intro
  exact mk s.cpu.eip _ s.instrBuf s.disasm s.intr s.debugStart s.debugLen s.msrPerm hminor
    s.divisions s

theorem division (d : CDivision) (s : St) : Aside s (recordDivision d s) :=
  mk s.cpu.eip s.cpu.mode s.instrBuf s.disasm s.intr s.debugStart s.debugLen s.msrPerm
    (fun _ hev => absurd hev List.not_mem_nil) _ s

theorem markMsr (u : Nat) (a : U8) (s : St) : Aside s (s.markMsr u a) :=
  mk s.cpu.eip s.cpu.mode s.instrBuf s.disasm s.intr s.debugStart s.debugLen _
    (fun _ hev => absurd hev List.not_mem_nil) s.divisions s

theorem debugRecord (start : U32) (ofs : U8) (s : St) : Aside s (setDebugRecord start ofs s) := by
  unfold setDebugRecord
  split
  · exact mk s.cpu.eip s.cpu.mode s.instrBuf s.disasm s.intr _ _ s.msrPerm
      (fun _ hev => absurd hev List.not_mem_nil) s.divisions s
  · exact refl s

theorem debugJump (c : Bool) (start : U32) (ofs : U8) (s : St) :
    Aside s (if s.log.has traceDebug && c then setDebugRecord start ofs s else s) := by
  split
  · exact debugRecord start ofs s
  · exact refl s

end Aside

/-- What a relation has to keep for the programs with effects in `g` to keep it. -/
structure KeepsRule (h : Host) (R : St → St → Prop) (g : Effects) : Prop extends LogBlind h R where
  aside : ∀ {s t}, Aside s t → R s t
  read : ∀ {kind}, kind ≠ .w → ∀ width addr val s,
    R s (callMemio kind (MemioWidth.bits width) addr val h s).2
  write : mayWrite ≤ g → ∀ width addr val s,
    R s (callMemio .w (MemioWidth.bits width) addr val h s).2
  data : mayWrite ≤ g → ∀ {f}, DataWrite f → ∀ s, R s { s with cpu := f s.cpu }
  flags : mayWrite ≤ g → ∀ {α} (x : FlagOp α) s,
    R s { s with cpu := { s.cpu with eflg := (x.run () s.cpu.eflg).2 } }
  eflg : mayFlags ≤ g → ∀ v s, R s { s with cpu := { s.cpu with eflg := v } }
  seg : maySeg ≤ g → ∀ ref val s, R s ((x86emuSetSegRegister ref val).run h s).2
  crx : mayCrx ≤ g → ∀ i v s,
    R s { s with cpu := { s.cpu with crx := Function.update s.cpu.crx i v } }
  cpuid : mayWrite ≤ g → ∀ {f}, h.cpuid = some f → ∀ s, R s (f s)
  rdmsr : mayWrite ≤ g → ∀ {f}, h.rdmsr = some f → ∀ s, R s (f s)
  wrmsr : mayWrmsr ≤ g → ∀ {f}, h.wrmsr = some f → ∀ s, R s (f s)

namespace KeepsRule

variable {h : Host} {R : St → St → Prop} {g : Effects} (hR : KeepsRule h R g)

include hR

theorem keeps : Keeps h R g := by
  refine ⟨hR.refl, hR.trans, ?_⟩
  intro β n f x hx hf s
  cases hx with
  | getCpu | hasCpuid => exact hR.refl s
  | ctrl hctrl => exact hR.aside (.ctrl hctrl s)
  | data hdata => exact hR.data hf hdata s
  | eflg v => exact hR.eflg hf v s
  | seg ref val => exact hR.seg hf ref val s
  | crx i v => exact hR.crx hf i v s
  | flags y => exact hR.flags hf y s
  | disasm text => exact hR.aside (.disasm _ s)
  | capture bytes => exact hR.aside (.capture bytes s)
  | read hkind width addr val => exact hR.read hkind width addr val s
  | write width addr val => exact hR.write hf width addr val s
  | fetchStop addr => exact hR.aside (.fetchStop addr s)
  | log thr guard text _ => exact hR.line thr guard text s
  | raise _ err => exact hR.aside (.raise _ _ err s)
  | raiseUd nr type err => exact hR.aside (.raise nr type err s)
  | division d => exact hR.aside (.division d s)
  | cpuid => exact callHandler_keeps hR.refl (hR.cpuid hf) s
  | rdmsr => exact callHandler_keeps hR.refl (hR.rdmsr hf) s
  | wrmsr => exact callHandler_keeps hR.refl (hR.wrmsr (le_sup_left.trans hf)) s
  | rdtsc => exact hR.aside (.markMsr 0x10 accRead s)
  | debugJump c start ofs => exact hR.aside (.debugJump c start ofs s)

end KeepsRule

end X86Emu
