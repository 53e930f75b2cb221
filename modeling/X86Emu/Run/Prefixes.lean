import X86Emu.Decode.Granularity
import X86Emu.Ops.String

/-!
# Prefixes

The loop over the prefix bytes has no limit. It ends exactly when there is another byte within the
range of the instruction pointer, and leaves the attributes that the handlers look at. Two prefixes
for one size cancel each other, and `REPE` hides `REPNE`.
-/

namespace X86Emu

open Lib

/-! ## The bytes at the instruction pointer -/

/-- The instruction byte that is fetched after `n` others. -/
def St.codeByte (s : St) (n : Nat) : U8 := (s.code .b8 (s.cpu.advance n)).setWidth 8

/-- What the memory gives for it. -/
theorem codeByte_eq (s : St) (n : Nat) :
    s.codeByte n = (s.mem.flat (s.cpu.linear .cs (s.cpu.advance n))).exec.1.1 := by
  have hread := access_exec (by decide : MemioBits.b8 ≠ .b8noperm) s.mem
    (s.cpu.linear .cs (s.cpu.advance n)) 0
  unfold St.codeByte St.code
  rw [show MemioWidth.b8.bits = .b8 from rfl, hread]
  show ((s.mem.flat (s.cpu.linear .cs (s.cpu.advance n) + 0#32)).exec.1.1.setWidth 32).setWidth 8
    = _
  rw [BitVec.add_zero, BitVec.setWidth_setWidth_of_le _ (by decide), BitVec.setWidth_eq]

/-- A byte that the loop over the prefixes takes for one. -/
def IsPrefix (b : U8) : Prop := (prefixEffect b).isSome

instance (b : U8) : Decidable (IsPrefix b) := inferInstanceAs (Decidable (_ = true))

/-- How many bytes there are for the instruction pointer. -/
def Cpu.ipRange (c : Cpu) : Nat := if c.mode.code32 then 2 ^ 32 else 2 ^ 16

theorem advance_mod (c : Cpu) (n : Nat) : c.advance (n % c.ipRange) = c.advance n := by
  have hmod : ∀ w, BitVec.ofNat w (n % 2 ^ w) = BitVec.ofNat w n := fun w => by
    rw [← BitVec.toNat_inj, BitVec.toNat_ofNat, BitVec.toNat_ofNat, Nat.mod_mod]
  unfold Cpu.advance Cpu.ipRange
  split
  · rw [hmod 32]
  · rw [hmod 16]

theorem codeByte_mod (s : St) (n : Nat) : s.codeByte (n % s.cpu.ipRange) = s.codeByte n := by
  unfold St.codeByte
  rw [advance_mod]

/-- What a prefix does to the register file. -/
structure PrefixStep (c c' : Cpu) : Prop where
  eip : c'.eip = c.eip
  seg : c'.seg = c.seg
  code32 : c'.mode.code32 = c.mode.code32

theorem PrefixStep.advance {c c' : Cpu} (h : PrefixStep c c') (n : Nat) :
    c'.advance n = c.advance n := by
  unfold Cpu.advance Cpu.ip
  rw [h.eip, h.code32]

theorem prefixEffect_step {b : U8} {f : St → St} (hf : prefixEffect b = some f) (s : St) :
    PrefixStep s.cpu (f s).cpu ∧ (f s).mem = s.mem := by
  unfold prefixEffect at hf
  split at hf <;> cases hf <;> exact ⟨⟨rfl, rfl, rfl⟩, rfl⟩

theorem prefixEffect_kept {b : U8} {f : St → St} (hf : prefixEffect b = some f) (s : St) :
    (f s).cpu.mode.halted = s.cpu.mode.halted ∧ (f s).cpu.savedEip = s.cpu.savedEip := by
  unfold prefixEffect at hf
  split at hf <;> cases hf <;> exact ⟨rfl, rfl⟩

section

variable {inp : PortInput} {h : Host} (hh : h.Blind inp)

include hh

theorem fetchByte_codeByte (s : St) : (fetchByte.run h s).1 = s.codeByte 0 := by
  have hfetch := congrArg Prod.fst (seen_fetchByte hh s)
  unfold St.codeByte
  rw [advance_zero]
  exact hfetch

theorem fetchByte_state (s : St) : (fetchByte.run h s).2.cpu = (s.fetched .b8).cpu ∧
    (fetchByte.run h s).2.mem = (s.fetched .b8).mem :=
  same_of_view (congrArg Prod.snd (seen_fetchByte hh s))

/-- The bytes after a prefix are the same as before it. -/
theorem codeByte_next {b : U8} {f : St → St} (hf : prefixEffect b = some f) (s : St) (n : Nat) :
    (f (fetchByte.run h s).2).codeByte n = s.codeByte (n + 1) := by
  obtain ⟨hcpu, hmem⟩ := fetchByte_state hh s
  obtain ⟨hstep, hkeep⟩ := prefixEffect_step hf (fetchByte.run h s).2
  rw [hcpu] at hstep
  have hadvance : (f (fetchByte.run h s).2).cpu.advance n = s.cpu.advance (n + 1) := by
    rw [hstep.advance, advance_fetched, Nat.add_comm]
    rfl
  have hmarked : s.mem.Marked (f (fetchByte.run h s).2).mem := by
    rw [hkeep, hmem]
    exact fetched_marked s .b8
  unfold St.codeByte
  rw [hadvance, code_congr hmarked hstep.seg]

theorem prefixLoop_succ (fuel : Nat) (s : St) : prefixLoop h (fuel + 1) s =
    match prefixEffect (s.codeByte 0) with
    | some f => prefixLoop h fuel (f (fetchByte.run h s).2)
    | none => (some (s.codeByte 0), (fetchByte.run h s).2) := by
  rw [← fetchByte_codeByte hh s]
  rfl

/-! ## The end of the loop -/

/-- The loop comes to an end. -/
def PrefixesEnd (h : Host) (s : St) : Prop := ∃ fuel, (prefixLoop h fuel s).1 ≠ none

/-- The loop only goes over prefixes. -/
theorem exists_opcode {fuel : Nat} {s : St} (hend : (prefixLoop h fuel s).1 ≠ none) :
    ∃ n, ¬IsPrefix (s.codeByte n) := by
  induction fuel generalizing s with
  | zero => exact absurd rfl hend
  | succ fuel ih =>
    rw [prefixLoop_succ hh] at hend
    cases hf : prefixEffect (s.codeByte 0) with
    | none =>
      refine ⟨0, ?_⟩
      unfold IsPrefix
      rw [hf]
      exact Bool.false_ne_true
    | some f =>
      rw [hf] at hend
      obtain ⟨n, hn⟩ := ih hend
      rw [codeByte_next hh hf] at hn
      exact ⟨n + 1, hn⟩

/-- It ends at the first other byte. -/
theorem prefixLoop_ends {n : Nat} {s : St} (hop : ¬IsPrefix (s.codeByte n)) : PrefixesEnd h s := by
  induction n generalizing s with
  | zero =>
    refine ⟨1, ?_⟩
    rw [prefixLoop_succ hh, Option.not_isSome_iff_eq_none.mp hop]
    exact Option.some_ne_none _
  | succ n ih =>
    cases hf : prefixEffect (s.codeByte 0) with
    | none =>
      refine ⟨1, ?_⟩
      rw [prefixLoop_succ hh, hf]
      exact Option.some_ne_none _
    | some f =>
      rw [← codeByte_next hh hf] at hop
      obtain ⟨fuel, hend⟩ := ih hop
      refine ⟨fuel + 1, ?_⟩
      rw [prefixLoop_succ hh, hf]
      exact hend

/-- The loop ends exactly when not all bytes of the code segment are prefixes. -/
theorem prefixesEnd_iff (s : St) :
    PrefixesEnd h s ↔ ∃ n < s.cpu.ipRange, ¬IsPrefix (s.codeByte n) := by
  have hpos : 0 < s.cpu.ipRange := by
    unfold Cpu.ipRange
    split <;> decide
  constructor
  · rintro ⟨fuel, hend⟩
    obtain ⟨n, hn⟩ := exists_opcode hh hend
    refine ⟨n % s.cpu.ipRange, Nat.mod_lt n hpos, ?_⟩
    rw [codeByte_mod]
    exact hn
  · rintro ⟨n, -, hn⟩
    exact prefixLoop_ends hh hn

end

/-- `NOP` with three prefixes. -/
theorem prefixesEnd_iff_nop : PrefixesEnd (defaultHost fun _ _ _ => 0)
    { mem := fullMem fun i => if i = 3 then 0x90 else 0x66 } :=
  (prefixesEnd_iff (defaultHost_default fun _ _ _ => 0).blind _).mpr
    ⟨3, by decide, by decide +kernel⟩

/-- A memory that holds one byte everywhere. -/
def oneByteState (b : U8) : St := { mem := fullMem fun _ => b }

theorem oneByte_code (b : U8) (n : Nat) : (oneByteState b).codeByte n = b := by
  rw [codeByte_eq, exec_val]
  exact if_pos (by decide : (permRwx ||| permValid).has permX = true)

/-- Nothing but prefixes for the operand size. -/
theorem prefixesEnd_fails : ¬PrefixesEnd (defaultHost fun _ _ _ => 0) (oneByteState 0x66) := by
  have hh : (defaultHost fun _ _ _ => 0).Blind fun _ _ _ => 0 := (defaultHost_default _).blind
  rintro ⟨fuel, hend⟩
  obtain ⟨n, hn⟩ := exists_opcode hh hend
  rw [oneByte_code] at hn
  exact hn rfl

/-! ## The attributes -/

/-- How a string instruction is repeated. -/
inductive Repeat
  | repe | repne
  deriving DecidableEq

/-- What the handlers take from the prefixes. -/
structure Attrs where
  data32 : Bool
  addr32 : Bool
  seg : Option SegReg
  rep : Option Repeat
  deriving DecidableEq

/-- The string instructions look for `MODE_REPE` first. -/
def Mode.repeated (m : Mode) : Option Repeat :=
  if m.repe then some .repe else if m.repne then some .repne else none

/-- The condition that ends a repeated comparison: `nz` or `z`. -/
def Repeat.cond : Repeat → BitVec 4
  | repe => 5
  | repne => 4

/-- The string instructions go through their loops with either prefix, and the comparisons test for
the condition of the one that counts. -/
theorem repeated_spec (m : Mode) :
    m.rep = m.repeated.isSome ∧ ∀ r, m.repeated = some r → Op.repCond m = r.cond := by
  unfold Mode.rep Mode.repeated Op.repCond
  cases m.repe with
  | true => exact ⟨rfl, fun r hr => by cases hr; rfl⟩
  | false =>
    cases m.repne with
    | true => exact ⟨rfl, fun r hr => by cases hr; rfl⟩
    | false => exact ⟨rfl, fun r hr => by cases hr⟩

def Cpu.attrs (c : Cpu) : Attrs := ⟨c.mode.data32, c.mode.addr32, c.defaultSeg, c.mode.repeated⟩

def prefixSeg (b : U8) : Option SegReg :=
  match b.toNat with
  | 0x26 => some .es
  | 0x2e => some .cs
  | 0x36 => some .ss
  | 0x3e => some .ds
  | 0x64 => some .fs
  | 0x65 => some .gs
  | _ => none

def prefixRep (b : U8) : Option Repeat :=
  match b.toNat with
  | 0xf2 => some .repne
  | 0xf3 => some .repe
  | _ => none

/-- The attributes by the set of prefixes: sizes change once, and the last one of the others
counts. -/
def prefixAttrs (code32 : Bool) (l : List U8) : Attrs where
  data32 := code32 ^^ decide (0x66 ∈ l)
  addr32 := code32 ^^ decide (0x67 ∈ l)
  seg := (l.filterMap prefixSeg).getLast?
  rep := (l.filterMap prefixRep).getLast?

/-- No size prefix an even number of times, and no `REPNE` after a `REPE`. -/
structure PrefixesClean (l : List U8) : Prop where
  data : 0x66 ∈ l → l.count 0x66 % 2 = 1
  addr : 0x67 ∈ l → l.count 0x67 % 2 = 1
  rep : 0xf3 ∈ l → (l.filterMap prefixRep).getLast? = some .repe

/-! ### Collecting prefixes -/

/-- The mode bits and the segment that the loop collects. -/
structure Collected where
  data32 : Bool
  addr32 : Bool
  repe : Bool
  repne : Bool
  seg : Option SegReg

def Cpu.collected (c : Cpu) : Collected :=
  ⟨c.mode.data32, c.mode.addr32, c.mode.repe, c.mode.repne, c.defaultSeg⟩

def Collected.add (r : Collected) (b : U8) : Collected where
  data32 := r.data32 ^^ decide (b = 0x66)
  addr32 := r.addr32 ^^ decide (b = 0x67)
  repe := r.repe || decide (b = 0xf3)
  repne := r.repne || decide (b = 0xf2)
  seg := (prefixSeg b).or r.seg

theorem prefixEffect_collected {b : U8} {f : St → St} (hf : prefixEffect b = some f) (s : St) :
    (f s).cpu.collected = s.cpu.collected.add b := by
  have hbyte : ∀ k < 256, b.toNat = k → b = BitVec.ofNat 8 k := by
    rintro k - rfl
    rw [BitVec.ofNat_toNat, BitVec.setWidth_eq]
  unfold prefixEffect at hf
  split at hf <;> cases hf
  all_goals
    next hb =>
      rw [hbyte _ (by decide) hb]
      simp [Cpu.collected, Collected.add, St.setMode, setOverride, St.opDecode, prefixSeg]

/-- A size is changed once for every prefix. -/
theorem xor_count (b p : U8) (l : List U8) (size : Bool) :
    ((size ^^ decide (b = p)) ^^ decide (l.count p % 2 = 1)) =
      (size ^^ decide ((b :: l).count p % 2 = 1)) := by
  rw [List.count_cons]
  by_cases hb : b = p
  · have hodd : decide ((l.count p + 1) % 2 = 1) = !decide (l.count p % 2 = 1) := by
      rw [Bool.eq_not, ne_eq, decide_eq_decide]
      omega
    simp [hb, hodd]
  · simp [hb]

/-- What is collected from a sequence of prefixes. -/
theorem foldl_add (l : List U8) (r : Collected) : l.foldl Collected.add r =
    { data32 := r.data32 ^^ decide (l.count 0x66 % 2 = 1)
      addr32 := r.addr32 ^^ decide (l.count 0x67 % 2 = 1)
      repe := r.repe || decide (0xf3 ∈ l)
      repne := r.repne || decide (0xf2 ∈ l)
      seg := (l.filterMap prefixSeg).getLast?.or r.seg } := by
  induction l generalizing r with
  | nil => simp
  | cons b l ih =>
    rw [List.foldl_cons, ih, ← xor_count b, ← xor_count b]
    unfold Collected.add
    dsimp only
    congr 1
    · simp [List.mem_cons, Bool.or_assoc, eq_comm]
    · simp [List.mem_cons, Bool.or_assoc, eq_comm]
    · rw [List.filterMap_cons]
      cases prefixSeg b with
      | none => rfl
      | some seg => simp [List.getLast?_cons]

/-! ### The set of prefixes -/

/-- `REPE` wins over `REPNE`, whatever the order. -/
theorem rep_iff (l : List U8) :
    Mode.repeated { repe := decide (0xf3 ∈ l), repne := decide (0xf2 ∈ l) } =
        (l.filterMap prefixRep).getLast? ↔
      (0xf3 ∈ l → (l.filterMap prefixRep).getLast? = some .repe) := by
  have hmem : ∀ b r, b ∈ l → prefixRep b = some r → (l.filterMap prefixRep).getLast? ≠ none := by
    intro b r hb hr hnone
    rw [List.getLast?_eq_none_iff] at hnone
    exact List.not_mem_nil (hnone ▸ List.mem_filterMap.mpr ⟨b, hb, hr⟩)
  have hrepe : ∀ b, prefixRep b = some .repe → b = 0xf3 := by decide
  have hrepne : ∀ b, prefixRep b = some .repne → b = 0xf2 := by decide
  have hlast : ∀ r, (l.filterMap prefixRep).getLast? = some r → ∃ b ∈ l, prefixRep b = some r :=
    fun r hr => List.mem_filterMap.mp (List.mem_of_getLast? hr)
  unfold Mode.repeated
  simp only [decide_eq_true_eq]
  cases hr : (l.filterMap prefixRep).getLast? with
  | none =>
    have hno : 0xf3 ∉ l := fun hb => hmem 0xf3 .repe hb rfl hr
    have hno' : 0xf2 ∉ l := fun hb => hmem 0xf2 .repne hb rfl hr
    rw [if_neg hno, if_neg hno']
    exact ⟨fun _ hb => absurd hb hno, fun _ => rfl⟩
  | some r =>
    obtain ⟨b, hb, hbr⟩ := hlast r hr
    cases r with
    | repe =>
      rw [hrepe b hbr] at hb
      rw [if_pos hb]
      exact ⟨fun _ _ => rfl, fun _ => rfl⟩
    | repne =>
      rw [hrepne b hbr] at hb
      rw [if_pos hb]
      split
      case isTrue hrep =>
        refine ⟨fun heq => ?_, fun himp => (himp hrep).symm⟩
        cases heq
      case isFalse hrep => exact ⟨fun _ hin => absurd hin hrep, fun _ => rfl⟩

/-- Twice the same size is no change. -/
theorem size_iff (p : U8) (l : List U8) (size : Bool) :
    (size ^^ decide (l.count p % 2 = 1)) = (size ^^ decide (p ∈ l)) ↔
      (p ∈ l → l.count p % 2 = 1) := by
  rw [Bool.xor_right_inj, decide_eq_decide]
  refine ⟨fun hiff => hiff.mpr, fun himp => ⟨fun hodd => ?_, himp⟩⟩
  by_contra hno
  rw [List.count_eq_zero_of_not_mem hno] at hodd
  cases hodd

/-- The attributes are those of the set of prefixes. -/
theorem attrs_iff (l : List U8) (code32 : Bool) {c : Cpu}
    (hc : c.collected = l.foldl Collected.add ⟨code32, code32, false, false, none⟩) :
    c.attrs = prefixAttrs code32 l ↔ PrefixesClean l := by
  rw [foldl_add] at hc
  obtain ⟨hdata, haddr, hrepe, hrepne, hseg⟩ := Collected.mk.inj hc
  have hrep : c.mode.repeated =
      Mode.repeated { repe := decide (0xf3 ∈ l), repne := decide (0xf2 ∈ l) } := by
    unfold Mode.repeated
    rw [hrepe, hrepne, Bool.false_or, Bool.false_or]
  unfold Cpu.attrs prefixAttrs
  rw [Attrs.mk.injEq, hdata, haddr, hseg, hrep, Option.or_none, rep_iff, size_iff, size_iff]
  exact ⟨fun ⟨hd, ha, _, hr⟩ => ⟨hd, ha, hr⟩, fun ⟨hd, ha, hr⟩ => ⟨hd, ha, rfl, hr⟩⟩

/-! ### Sequences of the same prefixes -/

/-- The groups of prefixes, of which one counts. -/
def prefixGroup (b : U8) : Nat :=
  if (prefixSeg b).isSome then 2 else if b = 0x66 then 3 else if b = 0x67 then 4 else 1

/-- A prefix twice, or two prefixes of different groups the other way round. -/
inductive PrefixMove : List U8 → List U8 → Prop
  | double (l₁ : List U8) (p : U8) (l₂ : List U8) : PrefixMove (l₁ ++ p :: l₂) (l₁ ++ p :: p :: l₂)
  | swap (l₁ : List U8) (p q : U8) (l₂ : List U8) (h : prefixGroup p ≠ prefixGroup q) :
    PrefixMove (l₁ ++ p :: q :: l₂) (l₁ ++ q :: p :: l₂)

theorem getLast_move {α : Type} (f : U8 → Option α)
    (hf : ∀ p q, (f p).isSome → (f q).isSome → prefixGroup p = prefixGroup q) {l l' : List U8}
    (h : PrefixMove l l') : (l.filterMap f).getLast? = (l'.filterMap f).getLast? := by
  cases h with
  | double l₁ p l₂ =>
    rw [List.filterMap_append, List.filterMap_append, List.filterMap_cons, List.filterMap_cons,
      List.filterMap_cons]
    cases f p <;> simp [List.getLast?_append, List.getLast?_cons]
  | swap l₁ p q l₂ hne =>
    rw [List.filterMap_append, List.filterMap_append]
    simp only [List.filterMap_cons]
    have hgroup := hf p q
    cases hp : f p with
    | none => rfl
    | some x =>
      cases hq : f q with
      | none => rfl
      | some y =>
        rw [hp, hq] at hgroup
        exact absurd (hgroup rfl rfl) hne

/-- Neither changes the attributes. -/
theorem prefixAttrs_move (code32 : Bool) {l l' : List U8} (h : PrefixMove l l') :
    prefixAttrs code32 l = prefixAttrs code32 l' := by
  have hmem : ∀ b, b ∈ l ↔ b ∈ l' := by
    intro b
    cases h with
    | double => simp
    | swap => simp [or_left_comm]
  have hseg := getLast_move prefixSeg (by
    intro p q hp hq
    unfold prefixGroup
    rw [if_pos hp, if_pos hq]) h
  have hone : ∀ b, (prefixRep b).isSome → prefixGroup b = 1 := by decide
  have hrep := getLast_move prefixRep (fun p q hp hq => (hone p hp).trans (hone q hq).symm) h
  unfold prefixAttrs
  simp only [hmem, hseg, hrep]

section

variable {inp : PortInput} {h : Host} (hh : h.Blind inp)

include hh

/-- The loop over a sequence of prefixes: the bytes it fetches, and what it collects. -/
theorem prefixLoop_fetched {l : List U8} {s : St} (hl : ∀ p ∈ l, IsPrefix p)
    (hbytes : (List.range l.length).map s.codeByte = l) (hop : ¬IsPrefix (s.codeByte l.length))
    {fuel : Nat} (hfuel : l.length < fuel) :
    ∃ t v, prefixLoop h fuel s = (some (s.codeByte l.length), t) ∧
      FetchedAt s (s.cpu.byteAddrs (l.length + 1)) v t ∧ s.mem.Marked t.mem ∧
      t.cpu.savedEip = s.cpu.savedEip ∧
      t.cpu.collected = l.foldl Collected.add s.cpu.collected := by
  induction l generalizing s fuel with
  | nil =>
    obtain ⟨fuel, rfl⟩ := Nat.exists_eq_succ_of_ne_zero (Nat.pos_iff_ne_zero.mp hfuel)
    have hnone : prefixEffect (s.codeByte 0) = none := Option.not_isSome_iff_eq_none.mp hop
    obtain ⟨hcpu, hmem⟩ := fetchByte_state hh s
    refine ⟨(fetchByte.run h s).2, _, ?_, fetchByte_at hh s, ?_, ?_, ?_⟩
    · rw [prefixLoop_succ hh, hnone]
      rfl
    · rw [hmem]
      exact fetched_marked s .b8
    · rw [hcpu]
      rfl
    · rw [hcpu]
      rfl
  | cons b l ih =>
    obtain ⟨fuel, rfl⟩ := Nat.exists_eq_succ_of_ne_zero (Nat.ne_zero_of_lt hfuel)
    rw [List.length_cons, List.range_succ_eq_map, List.map_cons, List.map_map, List.cons.injEq]
      at hbytes
    obtain ⟨hb, hrest⟩ := hbytes
    obtain ⟨hp, hl⟩ := List.forall_mem_cons.mp hl
    obtain ⟨f, hf⟩ := Option.isSome_iff_exists.mp hp
    have hnext := codeByte_next hh hf s
    obtain ⟨hcpu, hbyteMem⟩ := fetchByte_state hh s
    obtain ⟨hstep, hmem⟩ := prefixEffect_step hf (fetchByte.run h s).2
    obtain ⟨hhalted, hsaved⟩ := prefixEffect_kept hf (fetchByte.run h s).2
    have hbyte := (fetchByte_at hh s).congr hmem hstep.eip hstep.seg hstep.code32 hhalted
    obtain ⟨t, v, hrun, hfetched, hmarked, hsaved', hcollected⟩ :=
      ih (s := f (fetchByte.run h s).2) hl
      ((List.map_congr_left fun n _ => hnext n).trans hrest) (by rw [hnext]; exact hop)
      (Nat.lt_of_succ_lt_succ hfuel)
    have hall := hbyte.trans hfetched
    rw [List.singleton_append, ← byteAddrs_succ hbyte.seg hbyte.code32 hbyte.eip] at hall
    refine ⟨t, _, ?_, hall, ?_, ?_, ?_⟩
    · rw [prefixLoop_succ hh, hb, hf]
      rw [hnext] at hrun
      exact hrun
    · rw [hmem, hbyteMem] at hmarked
      exact (fetched_marked s .b8).trans hmarked
    · rw [hsaved', hsaved, hcpu]
      rfl
    · rw [hcollected, prefixEffect_collected hf, hcpu]
      rfl

theorem prefixLoop_run {l : List U8} {s : St} (hl : ∀ p ∈ l, IsPrefix p)
    (hbytes : (List.range l.length).map s.codeByte = l) (hop : ¬IsPrefix (s.codeByte l.length)) :
    ∃ t, prefixLoop h (l.length + 1) s = (some (s.codeByte l.length), t) ∧
      t.cpu.collected = l.foldl Collected.add s.cpu.collected := by
  obtain ⟨t, v, hrun, -, -, -, hcollected⟩ :=
    prefixLoop_fetched hh hl hbytes hop (Nat.lt_succ_self _)
  exact ⟨t, hrun, hcollected⟩

/-- Before the prefixes of an instruction are read. -/
def instrStart (s : St) : St := startPrefixes (startInstr s)

/-- The attributes after a sequence of prefixes are those of its set exactly when no size is changed
back and no `REPNE` stands after a `REPE`; sequences that only differ by doubled prefixes and
by the order of different groups have the same set. -/
theorem prefix_attrs_iff {s : St} {l : List U8} (hl : ∀ p ∈ l, IsPrefix p)
    (hbytes : (List.range l.length).map (instrStart s).codeByte = l)
    (hop : ¬IsPrefix ((instrStart s).codeByte l.length)) :
    (∃ t, prefixLoop h (l.length + 1) (instrStart s) =
        (some ((instrStart s).codeByte l.length), t) ∧
      (t.cpu.attrs = prefixAttrs (instrStart s).cpu.mode.code32 l ↔ PrefixesClean l)) ∧
    ∀ l', PrefixMove l l' → prefixAttrs (instrStart s).cpu.mode.code32 l' =
      prefixAttrs (instrStart s).cpu.mode.code32 l := by
  obtain ⟨t, hrun, hcollected⟩ := prefixLoop_run hh hl hbytes hop
  refine ⟨⟨t, hrun, attrs_iff l _ hcollected⟩, fun l' hmove => ?_⟩
  exact (prefixAttrs_move _ hmove).symm

end

/-- A `NOP` after these prefixes. -/
def prefixedNop (l : List U8) : St := { mem := fullMem fun i => l.getD i.toNat 0x90 }

theorem prefix_attrs_iff_once :
    let h := defaultHost fun _ _ _ => 0
    let s := prefixedNop [0x66, 0x26, 0xf2]
    ∃ t, prefixLoop h 4 (instrStart s) = (some ((instrStart s).codeByte 3), t) ∧
      (t.cpu.attrs = prefixAttrs (instrStart s).cpu.mode.code32 [0x66, 0x26, 0xf2] ↔
        PrefixesClean [0x66, 0x26, 0xf2]) := by
  intro h s
  have hh : h.Blind fun _ _ _ => 0 := (defaultHost_default _).blind
  have hbytes : (List.range 3).map (instrStart s).codeByte = [0x66, 0x26, 0xf2] := by decide
  have hop : ¬IsPrefix ((instrStart s).codeByte 3) := by
    rw [show (instrStart s).codeByte 3 = 0x90 by decide]
    decide
  exact (prefix_attrs_iff hh (s := s) (l := [0x66, 0x26, 0xf2]) (by decide) hbytes hop).1

/-- The operand size prefix twice. -/
theorem prefix_attrs_fails :
    let h := defaultHost fun _ _ _ => 0
    let s := prefixedNop [0x66, 0x66]
    (prefixLoop h 3 (instrStart s)).2.cpu.attrs ≠
      prefixAttrs (instrStart s).cpu.mode.code32 [0x66, 0x66] := by
  intro h s
  have hh : h.Blind fun _ _ _ => 0 := (defaultHost_default _).blind
  have hbytes : (List.range 2).map (instrStart s).codeByte = [0x66, 0x66] := by decide
  have hop : ¬IsPrefix ((instrStart s).codeByte 2) := by
    rw [show (instrStart s).codeByte 2 = 0x90 by decide]
    decide
  obtain ⟨t, hrun, hcollected⟩ :=
    prefixLoop_run hh (s := instrStart s) (l := [0x66, 0x66]) (by decide) hbytes hop
  have hafter : (prefixLoop h 3 (instrStart s)).2 = t := congrArg Prod.snd hrun
  rw [hafter, ne_eq]
  intro hattrs
  have hclean := (attrs_iff [0x66, 0x66] _ hcollected).mp hattrs
  exact absurd (hclean.data (by decide)) (by decide)

end X86Emu
