import X86Emu.Effects.Frame

/-!
# Recorded events

`hist` only grows. Which kinds of events are recorded between two states is said once for all
kinds, and then for the programs whose operations record no others.
-/

namespace X86Emu

open Lib

/-- The events between two states. -/
def newEvents (s t : St) : List Event := t.hist.take (t.hist.length - s.hist.length)

theorem newEvents_eq {s t : St} {evs : List Event} (hhist : t.hist = evs ++ s.hist) :
    newEvents s t = evs := by
  unfold newEvents
  rw [hhist, List.length_append, Nat.add_sub_cancel, List.take_left]

/-- All events recorded between the two states satisfy `p`. -/
def Records (p : Event → Prop) (s t : St) : Prop :=
  ∃ evs, t.hist = evs ++ s.hist ∧ ∀ ev ∈ evs, p ev

namespace Records

variable {p q : Event → Prop} {s t u : St}

theorem of_same (hhist : t.hist = s.hist) : Records p s t :=
  ⟨[], hhist, fun _ hev => absurd hev List.not_mem_nil⟩

theorem of_event {ev : Event} (hhist : t.hist = ev :: s.hist) (hev : p ev) : Records p s t := by
  refine ⟨[ev], hhist, fun ev' hmem => ?_⟩
  rwa [List.mem_singleton.mp hmem]

theorem refl (s : St) : Records p s s := of_same rfl

theorem trans (hs : Records p s t) (ht : Records p t u) : Records p s u := by
  obtain ⟨evs, hhist, hevs⟩ := hs
  obtain ⟨evs', hhist', hevs'⟩ := ht
  refine ⟨evs' ++ evs, ?_, fun ev hmem => ?_⟩
  · rw [hhist', hhist, List.append_assoc]
  · rcases List.mem_append.mp hmem with hlate | hearly
    · exact hevs' ev hlate
    · exact hevs ev hearly

theorem mono (hpq : ∀ ev, p ev → q ev) (hs : Records p s t) : Records q s t := by
  obtain ⟨evs, hhist, hevs⟩ := hs
  exact ⟨evs, hhist, fun ev hmem => hpq ev (hevs ev hmem)⟩

theorem newEvents (hs : Records p s t) : ∀ ev ∈ newEvents s t, p ev := by
  obtain ⟨evs, hhist, hevs⟩ := hs
  rw [newEvents_eq hhist]
  exact hevs

/-- An event that is not of the first kind was recorded later. -/
theorem mem_later (hs : Records p s t) (ht : Records q t u) {ev : Event} (hev : ¬p ev)
    (hmem : ev ∈ X86Emu.newEvents s u) : ev ∈ X86Emu.newEvents t u := by
  obtain ⟨evs, hhist, hevs⟩ := hs
  obtain ⟨evs', hhist', -⟩ := ht
  have hall : u.hist = (evs' ++ evs) ++ s.hist := by rw [hhist', hhist, List.append_assoc]
  rw [newEvents_eq hall, List.mem_append] at hmem
  rw [newEvents_eq hhist']
  exact hmem.resolve_right fun hearly => hev (hevs ev hearly)

variable {h : Host} (hh : h.Respects (Records p))

include hh

theorem logBlind : LogBlind h (Records p) where
  refl := refl
  trans := trans
  log _ _ := of_same rfl
  flush hf := hh.flush hf

theorem callMemio (hmemio : ∀ kind bits addr val err, p (.memio kind bits addr val err))
    (kind : MemioKind) (bits : MemioBits) (addr val : U32) (s : St) :
    Records p s (callMemio kind bits addr val h s).2 :=
  (hh.memio s kind bits addr val).trans (of_event rfl (hmemio kind bits addr _ _))

theorem lookRule (hmemio : ∀ kind bits addr val err, p (.memio kind bits addr val err)) :
    LookRule h (Records p) where
  refl := refl
  trans := trans
  peek addr s := callMemio hh hmemio _ _ addr _ s
  halt _ := of_same rfl

/-- Programs with effects in `g` record accesses, failed fetches and, if `g` allows it, raises of
`#UD`, besides the other raises. -/
theorem keeps {g : Effects} (hmemio : ∀ kind bits addr val err, p (.memio kind bits addr val err))
    (hfetch : ∀ addr, p (.fetchError addr))
    (hraise : ∀ nr type err, isUd nr type = false ∨ mayUd ≤ g → p (.raise nr type err))
    (hless : g ≤ (true, true, true, true, false, true)) : Keeps h (Records p) (g ⊔ maySeg) := by
  have hraised : ∀ nr type err s, isUd nr type = false ∨ mayUd ≤ g →
      Records p s (x86emuIntrRaise nr type err s) := by
    intro nr type err s hud
    have hhist : (x86emuIntrRaise nr type err s).hist = .raise nr type err :: s.hist := by
      unfold x86emuIntrRaise
      dsimp only
      split <;> rfl
    exact of_event hhist (hraise nr type err hud)
  have hrest : Keeps h (Records p) g := by
    refine ⟨refl, trans, ?_⟩
    intro β n f x hx hf s
    cases hx with
    | seg ref val => exact absurd (hf.trans hless) (by decide)
    | raiseUd nr type err => exact hraised nr type err s (.inr hf)
    | raise hud err => exact hraised _ _ err s (.inl hud)
    | capture bytes =>
      dsimp only
      unfold captureBytes
      split <;> exact of_same rfl
    | read hkind width addr val => exact callMemio hh hmemio _ _ addr val s
    | write width addr val => exact callMemio hh hmemio _ _ addr val s
    | fetchStop addr => exact of_event rfl (hfetch addr)
    | log thr guard text _ => exact (logBlind hh).line thr guard text s
    | cpuid => exact callHandler_keeps refl (fun hf s => hh.cpuid hf s) s
    | rdmsr => exact callHandler_keeps refl (fun hf s => hh.rdmsr hf s) s
    | wrmsr => exact callHandler_keeps refl (fun hf s => hh.wrmsr hf s) s
    | debugJump c start ofs =>
      dsimp only
      unfold setDebugRecord
      split
      · split <;> exact of_same rfl
      · exact refl s
    | _ => exact of_same rfl
  exact hrest.withSeg fun _ _ _ => of_same rfl

end Records

end X86Emu
