import Mathlib.Algebra.Order.BigOperators.Group.List
import Mathlib.Data.Nat.Digits.Defs
import X86Emu.Run.Dump

/-!
# The texts of the dump

All texts that `x86emu_dump` hands to `x86emu_log` are short, but for the ratio of the time stamps,
which is formatted by the host. A relation that is kept when such texts are logged is kept by the
dump, `TextRule.dump`.
-/

namespace X86Emu

/-! ## Lengths -/

theorem length_hexPad (pad : Char) {width n : Nat} (hwidth : 0 < width) (hn : n < 16 ^ width) :
    (hexPad pad width n).length = width := by
  have hdigits := Nat.toDigits_length 16 n width hwidth hn
  unfold hexPad
  rw [List.length_append, List.length_replicate]
  omega

@[simp] theorem length_hex8 (v : U32) : (hex8 v).length = 8 :=
  length_hexPad _ (by decide) v.isLt

theorem length_hex4 (v : U32) : (hex4 v).length ≤ 8 := by
  have hdigits := Nat.toDigits_length 16 v.toNat 8 (by decide) v.isLt
  unfold hex4 hexPad
  rw [List.length_append, List.length_replicate]
  omega

theorem length_stripRight (t : List Char) : (stripRight t).length ≤ t.length := by
  unfold stripRight
  rw [List.length_reverse]
  exact (List.dropWhile_suffix _).length_le.trans List.length_reverse.le

theorem length_flatMap_le {α : Type} {l : List α} {f : α → List Char} {n : Nat}
    (hf : ∀ a ∈ l, (f a).length ≤ n) : (l.flatMap f).length ≤ l.length * n := by
  have hsum := List.sum_le_card_nsmul (l.map fun a => (f a).length) n
    (by simpa only [List.forall_mem_map] using hf)
  rwa [List.length_map, ← List.length_flatMap] at hsum

/-- One line of `dump_data` shows 16 bytes. -/
theorem length_dumpData (k : DumpKind) (ascii : Bool) {bytes : List (U8 × U8)}
    (hbytes : bytes.length ≤ 16) :
    (dumpData k ascii bytes).1.length ≤ 100 ∧ (dumpData k ascii bytes).2.length ≤ 100 := by
  have hflat : ∀ f : U8 × U8 → List Char, (∀ b, (f b).length ≤ 4) →
      (bytes.flatMap f).length ≤ 64 := by
    intro f hf
    exact (length_flatMap_le fun b _ => hf b).trans (Nat.mul_le_mul_right 4 hbytes)
  have hdata := hflat (fun b => [if b.2.has accInvalid then '*' else ' '] ++
      (if k.shows b.2 then decodeHex2 (b.1.setWidth 32) else "  ".toList) ++ [' ']) (by
    intro b
    split <;> split <;> exact Nat.le_refl 4)
  have hattr := hflat (fun b =>
      if k.shows b.2 then
        [permChar b.2 permR accRead 'r' 'R', permChar b.2 permW accWrite 'w' 'W',
         permChar b.2 permX accExec 'x' 'X', ' ']
      else "    ".toList) (by
    intro b
    split <;> exact Nat.le_refl 4)
  have hchars : (bytes.map fun b => if k.shows b.2 then asciiChar b.1 else ' ').length ≤ 16 := by
    rwa [List.length_map]
  unfold dumpData
  dsimp only
  split
  · constructor
    · refine (length_stripRight _).trans ?_
      split
      · rw [List.length_append, List.length_append, show "  ".toList.length = 2 from rfl]
        omega
      · omega
    · exact (length_stripRight _).trans (hattr.trans (by decide))
  · exact ⟨Nat.zero_le _, Nat.zero_le _⟩

theorem length_flagsText (c : Cpu) : (flagsText c).length ≤ 24 := by
  refine length_flatMap_le (n := 3) fun f _ => ?_
  cases f <;> exact length_flagText _ rfl

theorem length_ioText (io : Io) {u : Nat} (hu : u < 65536) : (ioText io u).length ≤ 60 := by
  unfold ioText
  have hport := length_hexPad '0' (by decide : 0 < 4) hu
  simp [hport]

theorem length_msrText (s : St) {u : Nat} (hu : u < 65536) : (msrText s u).length ≤ 60 := by
  unfold msrText
  have hnr := length_hexPad '0' (by decide : 0 < 4) hu
  have hval := length_hexPad '0' (by decide : 0 < 16) (s.msr u).isLt
  simp [hnr, hval]

theorem length_labeled {l : List (String × List Char)} (hlength : l.length ≤ 13)
    (hl : ∀ p ∈ l, p.1.toList.length ≤ 8 ∧ p.2.length ≤ 8) : (labeled l).length ≤ 208 := by
  have hle : (labeled l).length ≤ l.length * 16 :=
    length_flatMap_le fun p hp => by
      rw [List.length_append]
      exact Nat.add_le_add (hl p hp).1 (hl p hp).2
  omega

/-- Every line of the register section. -/
theorem length_regLines (s : St) : ∀ line ∈ regLines, (line s).length ≤ 209 := by
  have hgen : ∀ l : List (String × Reg), l.length ≤ 13 → (∀ p ∈ l, p.1.toList.length ≤ 8) →
      (genDumpText s.cpu l).length ≤ 209 := by
    intro l hlength hl
    unfold genDumpText
    rw [List.length_append]
    refine Nat.add_le_add_right (length_labeled ?_ ?_) 1
    · rwa [List.length_map]
    · intro p hp
      obtain ⟨q, hq, rfl⟩ := List.mem_map.mp hp
      exact ⟨hl q hq, (length_hex8 _).le⟩
  intro line hline
  simp only [regLines, List.mem_cons, List.not_mem_nil, or_false] at hline
  rcases hline with rfl | rfl | rfl | rfl | rfl | rfl | rfl | rfl | rfl | rfl | rfl | rfl | rfl |
    rfl | rfl
  case inr.inr.inr.inr.inr.inr.inr.inr.inr.inr.inr.inr.inl => exact hgen _ (by simp) (by simp)
  case inr.inr.inr.inr.inr.inr.inr.inr.inr.inr.inr.inr.inr.inl => exact hgen _ (by simp) (by simp)
  all_goals exact (length_labeled (by simp) (by simp [length_hex4])).trans (Nat.le_succ 208)

/-! ## The rule -/

/-- What a relation has to keep for the dump to keep it. -/
structure TextRule (h : Host) (R : St → St → Prop) : Prop where
  refl : ∀ s, R s s
  trans : ∀ {s t u}, R s t → R t u → R s u
  chars : ∀ {t : List Char}, t.length < 2 ^ 31 → ∀ s, R s (logText h t s)
  ratio : ∀ a b s, R s (logText h (", ratio=".toList ++ h.ratio a b) s)

namespace TextRule

variable {h : Host} {R : St → St → Prop} (hR : TextRule h R)

include hR

theorem str {t : String} (ht : t.toList.length < 2 ^ 31) (s : St) : R s (logStr h t s) :=
  hR.chars ht s

theorem loop (n : Nat) {body : Nat → St → St} (hbody : ∀ i < n, ∀ s, R s (body i s)) (s : St) :
    R s (stLoop n body s) := by
  have hfold : ∀ l : List Nat, (∀ i ∈ l, i < n) → ∀ s,
      R s (l.foldl (fun s i => body i s) s) := by
    intro l
    induction l with
    | nil => exact fun _ s => hR.refl s
    | cons i l ih =>
      intro hl s
      exact hR.trans (hbody i (hl i (List.mem_cons_self ..)) s)
        (ih (fun j hj => hl j (List.mem_cons_of_mem i hj)) (body i s))
  exact hfold (List.range n) (fun i hi => List.mem_range.mp hi) s

/-- A text is written when a condition holds. -/
theorem optional (c : Prop) [Decidable c] {f : St → St} (hf : ∀ s, R s (f s)) (s : St) :
    R s (if c then f s else s) := by
  split
  · exact hf s
  · exact hR.refl s

theorem dumpLine (flags : U32) {addr : Nat} (haddr : addr < 16 ^ 8) {line : List Char × List Char}
    (hline : line.1.length ≤ 100 ∧ line.2.length ≤ 100) (s : St) :
    R s (logDumpLine h flags addr line s) := by
  have haddrs := length_hexPad '0' (by decide : 0 < 8) haddr
  have hdata : (hexPad '0' 8 addr ++ ": ".toList ++ line.1 ++ "\n".toList).length < 2 ^ 31 := by
    simp [haddrs]
    omega
  have hattr : ("          ".toList ++ line.2 ++ "\n".toList).length < 2 ^ 31 := by
    simp
    omega
  unfold logDumpLine
  split
  · exact hR.refl s
  · exact hR.trans (hR.chars hdata s) (hR.optional _ (hR.chars hattr) _)

theorem dumpPage (flags : U32) {pdirIdx u1 : Nat} (hpdir : pdirIdx < 1024) (hu1 : u1 < 1024)
    (s : St) : R s (dumpPage h flags pdirIdx u1 s) := by
  unfold X86Emu.dumpPage
  split
  · exact hR.refl s
  · split
    · exact hR.refl s
    · refine hR.loop _ (fun i hi s => hR.dumpLine flags ?_ (length_dumpData _ _ ?_) s) s
      · omega
      · exact (List.length_map _).le.trans List.length_range.le

theorem dumpMemory (flags : U32) (s : St) : R s (dumpMemory h flags s) := by
  have hpages : ∀ s, R s (stLoop 1024 (fun i => stLoop 1024 (X86Emu.dumpPage h flags i)) s) :=
    hR.loop 1024 fun i hi => hR.loop 1024 fun j hj => hR.dumpPage flags hi hj
  have hdigits : ∀ s, R s (stLoop 16 (fun i => logText h (hexPad ' ' 4 i)) s) := by
    refine hR.loop 16 fun i hi => hR.chars ?_
    rw [length_hexPad _ (by decide) (hi.trans (by decide))]
    decide
  unfold X86Emu.dumpMemory
  split
  · exact hR.trans (hR.str (by decide) s) (hR.trans (hR.str (by decide) _) (hR.trans (hdigits _)
      (hR.trans (hR.str (by decide) _) (hR.trans (hpages _) (hR.str (by decide) _)))))
  · exact hR.refl s

theorem dumpPorts (flags : U32) (s : St) : R s (dumpPorts h flags s) := by
  have hport : ∀ u < 65536, ∀ s, R s (if (s.io.map (BitVec.ofNat 16 u)).has
      (accRead ||| accWrite ||| accInvalid) then logText h (ioText s.io u) s else s) :=
    fun u hu s => hR.optional _
      (fun t => hR.chars ((length_ioText s.io hu).trans_lt (by decide)) t) s
  unfold X86Emu.dumpPorts
  split
  · exact hR.trans (hR.str (by decide) s) (hR.trans (hR.loop _ hport _) (hR.str (by decide) _))
  · exact hR.refl s

theorem dumpIntrs (flags : U32) (s : St) : R s (dumpIntrs h flags s) := by
  unfold X86Emu.dumpIntrs
  split
  · refine hR.trans (hR.str (by decide) s) (hR.trans (hR.loop _ (fun u hu t => ?_) _)
      (hR.str (by decide) _))
    have hnr := length_hexPad '0' (by decide : 0 < 2) hu
    refine hR.optional _ (fun t' => hR.chars ?_ t') t
    simp [hnr]
  · exact hR.refl s

theorem msrNote (u : Nat) (s : St) : R s (logMsrNote h u s) := by
  unfold logMsrNote
  split
  · exact hR.str (by decide) s
  · split
    · exact hR.str (by decide) s
    · split
      · exact hR.trans (hR.str (by decide) s) (hR.optional _ (hR.ratio _ _) _)
      · exact hR.refl s

theorem dumpMsr (flags : U32) {u : Nat} (hu : u < 65536) (s : St) : R s (dumpMsr h flags u s) := by
  unfold X86Emu.dumpMsr
  split
  · exact hR.refl s
  · split
    · exact hR.trans (hR.chars ((length_msrText s hu).trans_lt (by decide)) s)
        (hR.trans (hR.msrNote u _) (hR.str (by decide) _))
    · exact hR.refl s

theorem lines {l : List (St → List Char)} (hl : ∀ line ∈ l, ∀ s, (line s).length < 2 ^ 31)
    (s : St) : R s (l.foldl (fun s line => logText h (line s) s) s) := by
  induction l generalizing s with
  | nil => exact hR.refl s
  | cons line l ih =>
    exact hR.trans (hR.chars (hl line (List.mem_cons_self ..) s) s)
      (ih (fun line' hline => hl line' (List.mem_cons_of_mem line hline)) _)

theorem dumpRegisters (flags : U32) (s : St) : R s (dumpRegisters h flags s) := by
  have hlines : ∀ line ∈ regLines, ∀ s, (line s).length < 2 ^ 31 :=
    fun line hline s => (length_regLines s line hline).trans_lt (by decide)
  have hflags : ∀ c, (" ;".toList ++ flagsText c).length < 2 ^ 31 := by
    intro c
    have hle := length_flagsText c
    rw [List.length_append, show " ;".toList.length = 2 from rfl]
    omega
  unfold X86Emu.dumpRegisters
  split
  · exact hR.trans (hR.str (by decide) s)
      (hR.trans (hR.loop _ (fun u hu => hR.dumpMsr flags (hu.trans (by decide))) _)
      (hR.trans (hR.optional _ (hR.str (by decide)) _) (hR.trans (hR.lines hlines _)
        (hR.trans (hR.optional _ (hR.chars (hflags _)) _) (hR.str (by decide) _)))))
  · exact hR.refl s

theorem dump (flags : U32) (s : St) : R s (x86emuDump h flags s) :=
  hR.trans (hR.dumpMemory flags s) (hR.trans (hR.dumpPorts flags _)
    (hR.trans (hR.dumpIntrs flags _) (hR.dumpRegisters flags _)))

end TextRule

end X86Emu
