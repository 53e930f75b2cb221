import Mathlib.Data.List.Induction
import X86Emu.Run.PortProtection

/-!
# Permissions of ports

`x86emu_set_io_perm`, and what the host's ports see of the runs between its calls.
-/

namespace X86Emu

/-! ## x86emu_set_io_perm -/

/-- `while(start <= end) emu->io.map[start++] = perm;` with the number of rounds. -/
def ioPermLoop (perm : U8) : Nat → U32 → (U16 → U8) → U16 → U8
  | 0, _, map => map
  | n + 1, start, map =>
    ioPermLoop perm n (start + 1) (Function.update map (start.setWidth 16) perm)

/-- The permissions of all ports together. -/
def ioPermUsed (map : U16 → U8) : U32 :=
  (List.range 65536).foldl (fun perm p => perm ||| (map (BitVec.ofNat 16 p)).setWidth 32) 0

def x86emuSetIoPerm (h : Host) (start stop perm : U32) (s : St) : St :=
  let stop := if stop > 0xffff then 0xffff else stop
  let map := ioPermLoop (perm.setWidth 8) (stop.toNat + 1 - start.toNat) start s.io.map
  let needed := ioPermUsed map &&& (permR ||| permW).setWidth 32 != 0
  { s with io := { s.io with
    map := map
    ioplNeeded := needed
    ioplOk := !(needed && !h.iopl3) } }

theorem ioPermLoop_eq (perm : U8) (n : Nat) (start : U32) (map : U16 → U8)
    (hn : start.toNat + n ≤ 65536) (p : U16) :
    ioPermLoop perm n start map p =
      if start.toNat ≤ p.toNat ∧ p.toNat < start.toNat + n then perm else map p := by
  induction n generalizing start map with
  | zero =>
    rw [if_neg (by omega)]
    rfl
  | succ n ih =>
    have hstart : (start + 1).toNat = start.toNat + 1 := by
      rw [BitVec.toNat_add]
      exact Nat.mod_eq_of_lt (by simp; omega)
    have hport : p = start.setWidth 16 ↔ p.toNat = start.toNat := by
      rw [← BitVec.toNat_inj, BitVec.toNat_setWidth, Nat.mod_eq_of_lt (by omega)]
    show ioPermLoop perm n (start + 1) _ p = _
    rw [ih _ _ (by omega), hstart, Function.update_apply]
    simp only [hport]
    by_cases hfirst : p.toNat = start.toNat
    · rw [if_pos hfirst, if_pos (by omega : start.toNat ≤ p.toNat ∧ _)]
      split <;> rfl
    · rw [if_neg hfirst]
      congr 1
      apply propext
      omega

theorem foldl_or (f : Nat → U32) (l : List Nat) (acc m : U32) :
    l.foldl (fun acc p => acc ||| f p) acc &&& m = 0#32 ↔
      acc &&& m = 0#32 ∧ ∀ p ∈ l, f p &&& m = 0#32 := by
  induction l generalizing acc with
  | nil => simp
  | cons p l ih =>
    rw [List.foldl_cons, ih, BitVec.and_or_distrib_right, BitVec.or_eq_zero_iff]
    simp [and_assoc]

/-- Some port may be read or written. -/
theorem ioPermUsed_iff (map : U16 → U8) :
    (ioPermUsed map &&& (permR ||| permW).setWidth 32 != 0) = true ↔
      ∃ p, (map p).has (permR ||| permW) = true := by
  have hport : ∀ p : U16, (map p).setWidth 32 &&& (permR ||| permW).setWidth 32 = 0#32 ↔
      (map p).has (permR ||| permW) = false := by
    intro p
    have hwide : (map p).setWidth 32 &&& (permR ||| permW).setWidth 32 =
        (map p &&& (permR ||| permW)).setWidth 32 := by
      rw [BitVec.setWidth_and]
    unfold U8.has
    rw [hwide, bne_eq_false_iff_eq]
    refine ⟨fun hzero => ?_, fun hzero => by rw [hzero]; rfl⟩
    apply BitVec.eq_of_toNat_eq
    have hnat := congrArg BitVec.toNat hzero
    rw [BitVec.toNat_setWidth, Nat.mod_eq_of_lt (by omega)] at hnat
    exact hnat
  have hfold := foldl_or (fun p => (map (BitVec.ofNat 16 p)).setWidth 32) (List.range 65536) 0
    ((permR ||| permW).setWidth 32)
  rw [bne_iff_ne, ← not_iff_not, not_ne_iff, not_exists]
  refine hfold.trans ⟨?_, fun hall => ⟨by simp, fun p _ => ?_⟩⟩
  · rintro ⟨_, hall⟩ p
    have hzero := hall p.toNat (List.mem_range.mpr p.isLt)
    rw [BitVec.ofNat_toNat, BitVec.setWidth_eq, hport] at hzero
    simp [hzero]
  · rw [hport]
    simpa using hall _

theorem last_port (stop : U32) :
    (if stop > 0xffff then 0xffff else stop : U32).toNat = min stop.toNat 65535 := by
  split
  · next habove =>
    have hlt : 65535 < stop.toNat := habove
    exact (Nat.min_eq_right (Nat.le_of_lt hlt)).symm
  · next hbelow =>
    have hle : stop.toNat ≤ 65535 := Nat.le_of_not_lt hbelow
    exact (Nat.min_eq_left hle).symm

section SetIoPerm

variable (h : Host) (start stop perm : U32) (s : St)

theorem setIoPerm_map (p : U16) : (x86emuSetIoPerm h start stop perm s).io.map p =
    if start.toNat ≤ p.toNat ∧ p.toNat ≤ stop.toNat then perm.setWidth 8 else s.io.map p := by
  have hp := p.isLt
  show ioPermLoop _ _ _ _ p = _
  rw [last_port]
  by_cases hstart : start.toNat ≤ 65536
  · rw [ioPermLoop_eq _ _ _ _ (by omega)]
    congr 1
    apply propext
    omega
  · have hnone : min stop.toNat 65535 + 1 - start.toNat = 0 := by omega
    rw [hnone, if_neg (by omega)]
    rfl

theorem setIoPerm_needed : (x86emuSetIoPerm h start stop perm s).io.ioplNeeded = true ↔
    ∃ p, ((x86emuSetIoPerm h start stop perm s).io.map p).has (permR ||| permW) = true :=
  ioPermUsed_iff _

/-- Only the permissions and what follows from them are written. -/
theorem setIoPerm_eq : x86emuSetIoPerm h start stop perm s =
    { s with io := { s.io with
      map := (x86emuSetIoPerm h start stop perm s).io.map
      ioplNeeded := (x86emuSetIoPerm h start stop perm s).io.ioplNeeded
      ioplOk := !((x86emuSetIoPerm h start stop perm s).io.ioplNeeded && !h.iopl3) } } := rfl

/-- What `x86emu_new` does for all ports. -/
theorem setIoPerm_all : x86emuSetIoPerm h 0 0xffff perm s = setIoPermAll h perm s := by
  have hmap : (x86emuSetIoPerm h 0 0xffff perm s).io.map = fun _ => perm.setWidth 8 := by
    funext p
    rw [setIoPerm_map, if_pos]
    exact ⟨Nat.zero_le _, Nat.le_of_lt_succ p.isLt⟩
  have hneeded : (x86emuSetIoPerm h 0 0xffff perm s).io.ioplNeeded =
      U8.has (perm.setWidth 8) (permR ||| permW) := by
    rw [Bool.eq_iff_iff, setIoPerm_needed, hmap]
    exact exists_const _
  rw [setIoPerm_eq, hmap, hneeded]
  rfl

end SetIoPerm

/-! ## Calls -/

/-- The calls that concern ports, and those that load a program. -/
inductive PortCall
  | setIoPerm (start stop perm : U32)
  | writeByte (addr val : U32)
  | run (flags : U32) (fuel : Nat)

/-- `x86emu_write_byte` -/
def x86emuWriteByte (h : Host) (addr val : U32) (s : St) : St := (callMemio .w .b8 addr val h s).2

def PortCall.exec (h : Host) : PortCall → St → St
  | .setIoPerm start stop perm, s => x86emuSetIoPerm h start stop perm s
  | .writeByte addr val, s => x86emuWriteByte h addr val s
  | .run flags fuel, s => (x86emuRun h flags fuel s).2

def execPortCalls (h : Host) (calls : List PortCall) (s : St) : St :=
  calls.foldl (fun s call => call.exec h s) s

/-- The permissions a call gives to a port. -/
def PortCall.gives (p : U16) : PortCall → Option U8
  | .setIoPerm start stop perm =>
    if start.toNat ≤ p.toNat ∧ p.toNat ≤ stop.toNat then some (perm.setWidth 8) else none
  | .writeByte _ _ => none
  | .run _ _ => none

/-- The permissions given to the ports last, by a process that may access ports or not. -/
def lastPerms (h : Host) (defPerm : U8) (calls : List PortCall) : Io :=
  { ioplOk := h.iopl3, map := fun p => (calls.filterMap (PortCall.gives p)).getLast?.getD defPerm }

/-- The permissions in force are the ones given last. -/
structure PermsKept (h : Host) (perms : Io) (s : St) : Prop where
  map : ∀ p a, a &&& permRwx = a → (s.io.map p).has a = (perms.map p).has a
  needed : s.io.ioplNeeded = true ↔ ∃ p, (perms.map p).has (permR ||| permW) = true

theorem lastPerms_snoc (h : Host) (defPerm : U8) (calls : List PortCall) (call : PortCall)
    (p : U16) : (lastPerms h defPerm (calls ++ [call])).map p =
      (call.gives p).getD ((lastPerms h defPerm calls).map p) := by
  unfold lastPerms
  cases hgives : call.gives p <;> simp [List.filterMap_append, hgives]

/-- What the permissions guard leaves them in force. -/
theorem permsKept_guarded {h : Host} {perms perms' : Io} {s t : St} (hs : PermsKept h perms s)
    (hmap : ∀ p, perms'.map p = perms.map p) (hst : PortsGuarded s t) : PermsKept h perms' t := by
  obtain ⟨new, _, hserved, _⟩ := hst
  refine ⟨fun p a ha => ?_, ?_⟩
  · rw [hmap]
    exact (hserved.has_eq ha p).trans (hs.map p a ha)
  · simp only [hmap]
    rw [← hs.needed]
    exact Bool.eq_iff_iff.mp hserved.needed

section Calls

variable {inp : PortInput} {h : Host} (hh : h.PortsApart inp)

include hh

theorem permsKept_snoc {defPerm : U8} {calls : List PortCall} {s : St}
    (hs : PermsKept h (lastPerms h defPerm calls) s) (call : PortCall) :
    PermsKept h (lastPerms h defPerm (calls ++ [call])) (call.exec h s) := by
  cases call with
  | setIoPerm start stop perm =>
    have hmap : ∀ p a, a &&& permRwx = a →
        ((x86emuSetIoPerm h start stop perm s).io.map p).has a =
          ((lastPerms h defPerm (calls ++ [.setIoPerm start stop perm])).map p).has a := by
      intro p a ha
      rw [setIoPerm_map, lastPerms_snoc, PortCall.gives]
      split
      · rfl
      · exact hs.map p a ha
    refine ⟨hmap, (setIoPerm_needed h start stop perm s).trans ?_⟩
    exact exists_congr fun p => by rw [hmap p _ (by decide)]
  | run flags fuel =>
    have hstart : PermsKept h (lastPerms h defPerm calls) (s.withIopl h) := ⟨hs.map, hs.needed⟩
    exact permsKept_guarded hstart (lastPerms_snoc h defPerm calls _) (run_guarded hh flags fuel s)
  | writeByte addr val =>
    exact permsKept_guarded hs (lastPerms_snoc h defPerm calls _)
      (callMemio_guarded hh .w .b8 addr val s)

/-- The permissions in force after any calls. -/
theorem execPortCalls_kept (defMemPerm defIoPerm : U32) (calls : List PortCall) :
    PermsKept h (lastPerms h (defIoPerm.setWidth 8) calls)
      (execPortCalls h calls (x86emuNew h defMemPerm defIoPerm)) := by
  induction calls using List.reverseRecOn with
  | nil =>
    show PermsKept h _ (x86emuNew h defMemPerm defIoPerm)
    unfold x86emuNew
    dsimp only
    split
    · exact ⟨fun p a _ => rfl, (exists_const _).symm⟩
    · next hzero =>
      rw [not_not] at hzero
      subst hzero
      refine ⟨fun p a _ => rfl, ?_⟩
      refine ⟨fun hneeded => Bool.noConfusion hneeded, fun ⟨p, hsome⟩ => ?_⟩
      simp [lastPerms, U8.has] at hsome
  | append_singleton calls call ih =>
    unfold execPortCalls
    rw [List.foldl_append]
    exact permsKept_snoc hh ih call

omit hh in
/-- It takes the permission and the privilege to access a port. -/
theorem PermsKept.allows {perms : Io} (hperms : perms.ioplOk = h.iopl3) {s : St}
    (hs : PermsKept h perms s) {a : U8} (ha : a = permR ∨ a = permW) (p : U16) :
    (s.withIopl h).io.allows a p = perms.allows a p := by
  have hmap : (s.io.map p).has a = (perms.map p).has a :=
    hs.map p a (by rcases ha with rfl | rfl <;> decide)
  show (!(s.io.ioplNeeded && !h.iopl3) && (s.io.map p).has a) = (perms.ioplOk && _)
  rw [hmap, hperms]
  cases hhas : (perms.map p).has a with
  | false => simp
  | true =>
    have hsome : (perms.map p).has (permR ||| permW) = true := by
      unfold U8.has at hhas ⊢
      rw [bne_iff_ne] at hhas ⊢
      intro hzero
      apply hhas
      have hpart : a = (permR ||| permW) &&& a := by rcases ha with rfl | rfl <;> decide
      rw [hpart, ← BitVec.and_assoc, hzero]
      exact BitVec.zero_and
    rw [hs.needed.mpr ⟨p, hsome⟩]
    cases h.iopl3 <;> rfl

/-- After any calls, what the host's ports see of a run is what the permissions given last grant of
its accesses; a process without the privilege sees none. -/
theorem portCalls_guarded (defMemPerm defIoPerm : U32) (calls : List PortCall) (flags : U32)
    (fuel : Nat) {s t : St} (hs : s = execPortCalls h calls (x86emuNew h defMemPerm defIoPerm))
    (ht : t = (x86emuRun h flags fuel s).2) :
    ∃ new, t.hist = new ++ s.hist ∧
      t.io.events =
        ((lastPerms h (defIoPerm.setWidth 8) calls).grantsOf new).reverse ++ s.io.events ∧
      ∀ ev ∈ new, ev.Answered (lastPerms h (defIoPerm.setWidth 8) calls) := by
  have hkept := execPortCalls_kept hh defMemPerm defIoPerm calls
  rw [← hs] at hkept
  have hsame : (lastPerms h (defIoPerm.setWidth 8) calls).SameRules (s.withIopl h).io := by
    intro a q
    refine hkept.allows rfl ?_ q
    unfold PortAccess.perm
    cases a.write
    · exact Or.inl rfl
    · exact Or.inr rfl
  obtain ⟨new, hhist, hserved, hanswered⟩ := run_guarded hh flags fuel s
  rw [← ht] at hhist hserved
  refine ⟨new, hhist, ?_, fun ev hev => hsame.answered (hanswered ev hev)⟩
  rw [← hsame.grantsOf]
  exact hserved.events

end Calls

/-- The ports 0x60 to 0x6f are allowed and 0x64 is taken back, and the program reads both. -/
def keyboardCalls : List PortCall :=
  [.setIoPerm 0x60 0x6f 3, .setIoPerm 0x64 0x64 0, .writeByte 0xffff0 0xe4, .writeByte 0xffff1 0x60,
    .writeByte 0xffff2 0xe4, .writeByte 0xffff3 0x64]

def keyboardSt (h : Host) : St := execPortCalls h keyboardCalls (x86emuNew h 7 0)

theorem portCalls_guarded_keyboard :
    ∃ new, (x86emuRun (defaultHost fun _ _ _ => 0) runMaxInstr 10
        (keyboardSt (defaultHost fun _ _ _ => 0))).2.hist =
          new ++ (keyboardSt (defaultHost fun _ _ _ => 0)).hist ∧
      (x86emuRun (defaultHost fun _ _ _ => 0) runMaxInstr 10
        (keyboardSt (defaultHost fun _ _ _ => 0))).2.io.events =
          ((lastPerms (defaultHost fun _ _ _ => 0) ((0#32).setWidth 8) keyboardCalls).grantsOf
            new).reverse ++ (keyboardSt (defaultHost fun _ _ _ => 0)).io.events ∧
      ∀ ev ∈ new, ev.Answered
        (lastPerms (defaultHost fun _ _ _ => 0) ((0#32).setWidth 8) keyboardCalls) :=
  portCalls_guarded (defaultHost_portsApart fun _ _ _ => 0) 7 0 keyboardCalls runMaxInstr 10 rfl rfl

end X86Emu
