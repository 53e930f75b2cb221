import X86Emu.Run.Inert

/-!
# The memory of a run is the replay of its accesses

With `vm_memio` as the memory handler, the accesses of a run, done one after the other on the flat
memory, return what the run has seen and leave the memory of the run: attributes, access bits and
data at every address. So it is from any state whose pages lie apart, with the debug instruction
off.
-/

namespace X86Emu

open Lib

/-! ## Accesses and events -/

/-- The memory access an event is, and what it has returned. -/
def Event.memAccess : Event → Option (Access × (U32 × Bool))
  | .memio .i _ _ _ _ | .memio .o _ _ _ _ => none
  | .memio kind bits addr val err => some (⟨kind, bits, addr, val⟩, (val, err))
  | _ => none

/-- The memory accesses among the events, the last one first, with what they have returned. -/
def memAccesses (events : List Event) : List (Access × (U32 × Bool)) :=
  events.reverse.filterMap Event.memAccess

theorem memAccesses_append (new old : List Event) :
    memAccesses (new ++ old) = memAccesses old ++ memAccesses new := by
  simp [memAccesses, List.filterMap_append]

/-- The accesses return this and lead from one memory to the other. -/
def Flat.Replays (f : Flat) (accesses : List (Access × (U32 × Bool))) (f' : Flat) : Prop :=
  runAccesses Flat.step (accesses.map Prod.fst) f = (accesses.map Prod.snd, f')

namespace Flat.Replays

variable {f f' f'' : Flat} {as bs : List (Access × (U32 × Bool))}

theorem nil (f : Flat) : f.Replays [] f := rfl

theorem single {a : Access} {res : U32 × Bool} (h : f.step a = (res, f')) :
    f.Replays [(a, res)] f' := by
  show runAccesses Flat.step [a] f = ([res], f')
  unfold runAccesses
  rw [h]
  rfl

theorem cons {a : Access} {res : U32 × Bool} (h : f.step a = (res, f'))
    (hrest : f'.Replays bs f'') :
    f.Replays ((a, res) :: bs) f'' := by
  unfold Replays at hrest ⊢
  rw [List.map_cons, List.map_cons]
  unfold runAccesses
  rw [h]
  dsimp only
  rw [hrest]

theorem append (h : f.Replays as f') (hrest : f'.Replays bs f'') : f.Replays (as ++ bs) f'' := by
  induction as generalizing f with
  | nil =>
    cases h
    exact hrest
  | cons p as ih =>
    obtain ⟨a, res⟩ := p
    unfold Replays at h
    rw [List.map_cons, List.map_cons] at h
    unfold runAccesses at h
    dsimp only at h
    obtain ⟨hres, hmem⟩ := Prod.mk.inj h
    obtain ⟨hhead, htail⟩ := List.cons.inj hres
    exact cons (Prod.ext hhead rfl) (ih (Prod.ext htail hmem))

end Flat.Replays

/-- An access that reads does not look at the value it is given. -/
theorem rule_reads {kind : MemioKind} (hkind : kind = .r ∨ kind = .x) (bits : MemioBits)
    (v w : U8) : Cell.rule kind bits v = Cell.rule kind bits w := by
  rcases hkind with rfl | rfl <;> cases bits <;> rfl

/-- The access is the same when it is given what it returns. -/
theorem access_again (f : Flat) (kind : MemioKind) (bits : MemioBits) (addr val : U32) :
    f.access kind bits addr (f.access kind bits addr val).1.1 = f.access kind bits addr val := by
  by_cases hread : kind = .r ∨ kind = .x ∧ bits ≠ .b8noperm
  · have hkind : kind = .r ∨ kind = .x := hread.imp_right And.left
    generalize (f.access kind bits addr val).1.1 = v
    have haddrs : (accessBytes kind bits addr v).map Prod.fst =
        (accessBytes kind bits addr val).map Prod.fst := by
      unfold accessBytes
      rw [map_fst_addrBytes, map_fst_addrBytes]
    unfold Flat.access
    rw [onCells_congr (rule_reads hkind bits) haddrs]
    dsimp only
    rw [if_pos hread, if_pos hread]
  · have hval : (f.access kind bits addr val).1.1 = val := if_neg hread
    rw [hval]

/-! ## States -/

/-- The host has left alone the memory, the events and what decides about the debug instruction. -/
structure Aloof (s t : St) : Prop where
  mem : t.mem = s.mem
  hist : t.hist = s.hist
  trace : t.log.trace = s.log.trace
  debug : t.debugLen = s.debugLen

/-- The memory of the second state is the replay of the accesses made since the first. -/
structure Replayed (s t : St) : Prop where
  sep : t.mem.Sep
  plain : t.Plain
  replays : ∃ new, t.hist = new ++ s.hist ∧ s.mem.flat.Replays (memAccesses new) t.mem.flat

/-- The relation for states whose pages lie apart, with the debug instruction off. -/
def Replays (s t : St) : Prop := s.mem.Sep → s.Plain → Replayed s t

namespace Replays

theorem of_event {s t : St} (new : List Event) (hnew : memAccesses new = [])
    (hmem : t.mem = s.mem) (hhist : t.hist = new ++ s.hist) (hplain : s.Plain → t.Plain) :
    Replays s t := by
  intro hsep hs
  refine ⟨by rw [hmem]; exact hsep, hplain hs, new, hhist, ?_⟩
  rw [hnew, hmem]
  exact .nil s.mem.flat

theorem of_aloof {s t : St} (h : Aloof s t) : Replays s t := by
  refine of_event [] rfl h.mem h.hist fun hs => ⟨?_, h.debug.trans hs.2⟩
  unfold Log.has
  rw [h.trace]
  exact hs.1

theorem refl (s : St) : Replays s s := of_aloof ⟨rfl, rfl, rfl, rfl⟩

theorem trans {s t u : St} (h₁ : Replays s t) (h₂ : Replays t u) : Replays s u := by
  intro hsep hs
  obtain ⟨hsep₁, hplain₁, new₁, hhist₁, hreplay₁⟩ := h₁ hsep hs
  obtain ⟨hsep₂, hplain₂, new₂, hhist₂, hreplay₂⟩ := h₂ hsep₁ hplain₁
  refine ⟨hsep₂, hplain₂, new₂ ++ new₁, by rw [hhist₂, hhist₁, List.append_assoc], ?_⟩
  rw [memAccesses_append]
  exact hreplay₁.append hreplay₂

end Replays

/-- A host that uses `vm_memio` and whose own functions leave alone the memory, the events and what
decides about the debug instruction. -/
structure Host.Aloof (inp : PortInput) (h : Host) : Prop where
  memio : h.memio = vmMemio inp
  codeCheck : ∀ {f}, h.codeCheck = some f → ∀ s, X86Emu.Aloof s (f s).2
  intr : ∀ {f}, h.intr = some f → ∀ s nr type, X86Emu.Aloof s (f s nr type).2
  cpuid : ∀ {f}, h.cpuid = some f → ∀ s, X86Emu.Aloof s (f s)
  rdmsr : ∀ {f}, h.rdmsr = some f → ∀ s, X86Emu.Aloof s (f s)
  wrmsr : ∀ {f}, h.wrmsr = some f → ∀ s, X86Emu.Aloof s (f s)
  flush : ∀ {f}, h.flush = some f → ∀ s t, X86Emu.Aloof s (f s t)

theorem defaultHost_aloof (inp : PortInput) : (defaultHost inp).Aloof inp where
  memio := rfl
  codeCheck hf := by cases hf
  intr hf := by cases hf
  cpuid hf := by cases hf
  rdmsr hf s := by
    cases hf
    exact ⟨rfl, rfl, rfl, rfl⟩
  wrmsr hf s := by
    cases hf
    exact ⟨rfl, rfl, rfl, rfl⟩
  flush hf := by cases hf

/-! ## Steps -/

section Steps

variable {inp : PortInput} {h : Host} (hh : h.Aloof inp)

include hh

/-- One access is its own replay. -/
theorem callMemio_replays (kind : MemioKind) (bits : MemioBits) (addr val : U32) (s : St) :
    Replays s (callMemio kind bits addr val h s).2 := by
  intro hsep hs
  obtain ⟨mem, io, hframe⟩ := vmMemio_frame inp s kind bits addr val
  obtain ⟨hres, hflat⟩ := access_refines (Or.inl hsep : s.mem.Sep ∨ kind ≠ .w) bits
    addr val
  have hsame := vmMemio_mem inp s kind bits addr val
  have hnext : (vmMemio inp s kind bits addr val).2.mem.flat =
      (s.mem.flat.access kind bits addr val).2 := hsame.flat.trans hflat
  have hplain : (vmMemio inp s kind bits addr val).2.Plain := by
    rw [hframe]
    exact hs
  unfold callMemio
  rw [hh.memio]
  refine ⟨?_, hplain, [.memio kind bits addr (vmMemio inp s kind bits addr val).1.1
    (vmMemio inp s kind bits addr val).1.2], ?_, ?_⟩
  · exact hsep.congr (hsame.hostLoc.trans (access_attr s.mem kind bits addr val).1)
  · show _ :: (vmMemio inp s kind bits addr val).2.hist = _ :: s.hist
    rw [hframe]
  · rw [hnext]
    by_cases hport : kind = .i ∨ kind = .o
    · rcases hport with rfl | rfl <;> cases bits <;> exact .nil s.mem.flat
    · have hkind : kind = .r ∨ kind = .w ∨ kind = .x := by
        cases kind <;> simp at hport ⊢
      have hresult := (vmMemio_result inp s hkind bits addr val).trans hres
      have hagain : s.mem.flat.step ⟨kind, bits, addr, (vmMemio inp s kind bits addr val).1.1⟩ =
          ((vmMemio inp s kind bits addr val).1, (s.mem.flat.access kind bits addr val).2) := by
        rw [hresult]
        exact access_again s.mem.flat kind bits addr val
      rcases hkind with rfl | rfl | rfl <;> exact .single hagain

omit hh in
/-- A raised interrupt is no access. -/
theorem raise_replays (nr : U8) (type err : U32) (s : St) :
    Replays s (x86emuIntrRaise nr type err s) := by
  unfold x86emuIntrRaise
  dsimp only
  split <;> exact .of_event [.raise nr type err] rfl rfl rfl id

theorem logBlind_replays : LogBlind h Replays where
  refl := .refl
  trans := .trans
  log _ _ := .of_aloof ⟨rfl, rfl, rfl, rfl⟩
  flush hf s t := .of_aloof (hh.flush hf s t)

theorem prim_replays {β : Type} {n : Nat} {f : Effects} {x : Trans Host St β}
    (hx : EmuGrade β n f x) (hseg : ¬maySeg ≤ f) (s : St) : Replays s (x h s).2 := by
  cases hx with
  | getCpu | hasCpuid => exact .refl s
  | ctrl _ | data _ | eflg _ | crx _ _ | flags _ | disasm _ | division _ | rdtsc =>
    exact .of_aloof ⟨rfl, rfl, rfl, rfl⟩
  | seg ref val => exact absurd le_rfl hseg
  | capture bytes =>
    refine .of_aloof ?_
    show Aloof s (captureBytes bytes s)
    unfold captureBytes
    split <;> exact ⟨rfl, rfl, rfl, rfl⟩
  | read _ width addr val => exact callMemio_replays hh _ _ addr val s
  | write width addr val => exact callMemio_replays hh _ _ addr val s
  | fetchStop addr => exact .of_event [.fetchError addr] rfl rfl rfl id
  | log thr guard text _ => exact (logBlind_replays hh).line thr guard text s
  | raise _ err => exact raise_replays _ _ err s
  | raiseUd nr type err => exact raise_replays nr type err s
  | cpuid => exact callHandler_keeps .refl (fun hf s => .of_aloof (hh.cpuid hf s)) s
  | rdmsr => exact callHandler_keeps .refl (fun hf s => .of_aloof (hh.rdmsr hf s)) s
  | wrmsr => exact callHandler_keeps .refl (fun hf s => .of_aloof (hh.wrmsr hf s)) s
  | debugJump c start ofs =>
    intro hsep hs
    show Replayed s (if s.log.has traceDebug && c then setDebugRecord start ofs s else s)
    rw [hs.1]
    exact Replays.refl s hsep hs

theorem keeps_replays : Keeps h Replays (⊤ ⊔ maySeg) := by
  have hkeeps : Keeps h Replays (true, true, true, true, false, true) :=
    ⟨.refl, .trans, fun hx hf s => prim_replays hh hx (fun hseg => by
      exact absurd (hseg.trans hf) (by decide)) s⟩
  exact hkeeps.withSeg fun _ _ _ => .of_aloof ⟨rfl, rfl, rfl, rfl⟩

theorem emu_replays {α : Type} (x : Emu α) {n : Nat} {f : Effects} [hx : Does x n f] (s : St) :
    Replays s (x.run h s).2 := (keeps_replays hh).graded hx (le_top.trans le_sup_left) s

theorem delivery_replays {s t : St} (hst : Delivery h s t) : Replays s t := by
  cases hst with
  | deliver nr type => exact .of_event [.deliver nr type] rfl rfl rfl id
  | intr hf nr type => exact .of_aloof (hh.intr hf s nr type)
  | frame nr type err => exact emu_replays hh (deliverInt nr type err) s
  | done => exact .of_aloof ⟨rfl, rfl, rfl, rfl⟩

/-- All that the run loop does; no debug instruction is looked at. -/
theorem loop_replays : LoopRule h Replays where
  toLogBlind := logBlind_replays hh
  cpu _ _ := .of_aloof ⟨rfl, rfl, rfl, rfl⟩
  buffers _ _ _ := .of_aloof ⟨rfl, rfl, rfl, rfl⟩
  clock _ _ := .of_aloof ⟨rfl, rfl, rfl, rfl⟩
  fetch s := emu_replays hh fetchByte s
  peek addr s := callMemio_replays hh _ _ addr _ s
  codeCheck hf s := .of_aloof (hh.codeCheck hf s)
  msr _ _ _ := .of_aloof ⟨rfl, rfl, rfl, rfl⟩
  debug s := by
    intro hsep hs
    unfold processDebug
    rw [if_neg (by rw [hs.2]; exact fun hne => hne rfl)]
    exact Replays.refl s hsep hs
  delivery hst := delivery_replays hh hst
  exec op1 s := by
    have hstart : Replays s { s with hist := .instr op1 :: s.hist } :=
      .of_event [.instr op1] rfl rfl rfl id
    exact hstart.trans ((keeps_replays hh).handler (le_top.trans le_sup_left) _)
  tick _ := .of_aloof ⟨rfl, rfl, rfl, rfl⟩

end Steps

/-- From any state whose pages lie apart, with the debug instruction off, a run of any guest program
has seen of the memory what the flat memory returns for the same accesses in the same order, and it
leaves the memory that these accesses leave. -/
theorem x86emuRun_replay {inp : PortInput} {h : Host} (hh : h.Aloof inp) (flags : U32) (fuel : Nat)
    {s : St} (hsep : s.mem.Sep) (hplain : s.Plain) :
    ∃ new, (x86emuRun h flags fuel s).2.hist = new ++ s.hist ∧
      runAccesses Flat.step ((memAccesses new).map Prod.fst) s.mem.flat =
        ((memAccesses new).map Prod.snd, (x86emuRun h flags fuel s).2.mem.flat) := by
  have hbegin : Replays s (beginRun h flags fuel s).2 := .of_aloof ⟨rfl, rfl, rfl, rfl⟩
  exact (hbegin.trans ((loop_replays hh).x86emuRun flags fuel s) hsep hplain).replays

/-- A run over a memory of `PUSH ES`. -/
theorem x86emuRun_replay_pushes :
    let h := defaultHost fun _ _ _ => 0
    let s := x86emuReset { mem := fullMem fun _ => 0x06, maxInstr := 3 }
    ∃ new, (x86emuRun h runMaxInstr 10 s).2.hist = new ++ s.hist ∧
      runAccesses Flat.step ((memAccesses new).map Prod.fst) s.mem.flat =
        ((memAccesses new).map Prod.snd, (x86emuRun h runMaxInstr 10 s).2.mem.flat) :=
  x86emuRun_replay (defaultHost_aloof _) runMaxInstr 10 (fun a b n ha => by cases ha) ⟨rfl, rfl⟩

end X86Emu
