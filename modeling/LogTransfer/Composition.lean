import LogTransfer.Interleave

/-!
# Layers with limits, and two machines side by side

An overlay is a second discipline of a thread that may rely on the first and
also answers for its limits. Two machines run side by side under a wiring: a
condition on the next step of one that looks at both. If each side's limits
follow from what both sides hold, each side holds its discipline in every
joint run.
-/

set_option autoImplicit false

namespace LogTransfer.Interleave
open LogTransfer.Program

section Overlays

variable {Op : Type} {Ans : Op → Type} {S L E D G H : Type} (M : Machine Op Ans S L E D G)
  (next₂ : H → (op : Op) → Ans op → H) (begin₂ : E → H → H)

structure Overlay (R : Rules Op Ans G) (R₂ : Rules Op Ans H) (lim : Limits Op S L E D G)
    (lim₂ : Limits Op S L E D (G × H)) (J : G → S → Prop) (Idle : G → L → Prop)
    (J₂ : G → H → S → Prop) (Idle₂ : H → L → Prop) : Prop where
  start : ∀ g h s l e p s', Idle g l → J g s → Idle₂ h l → J₂ g h s → lim₂.start (g, h) s l e →
    M.start e l s = some (p, s') →
    lim.start g s l e ∧ Keeps next₂ R₂ p (begin₂ e h) Idle₂ ∧ J₂ (M.begin e g) (begin₂ e h) s'
  op : ∀ g h s o b, J g s → R.may g o → J₂ g h s → R₂.may h o → lim₂.op (g, h) s o b →
    lim.op g s o b ∧ R₂.answers h o (M.exec o b s).1 ∧
      J₂ (M.next g o (M.exec o b s).1) (next₂ h o (M.exec o b s).1) (M.exec o b s).2
  peer : ∀ g h s d s', J g s → J₂ g h s → lim₂.peer (g, h) s d → M.peer d s = some s' →
    lim.peer g s d ∧ J₂ g h s'

def overlaid (J : G → S → Prop) (J₂ : G → H → S → Prop) (g : G × H) (s : S) : Prop :=
  J g.1 s ∧ J₂ g.1 g.2 s

theorem overlay_discipline {R : Rules Op Ans G} {R₂ : Rules Op Ans H}
    {lim : Limits Op S L E D G} {lim₂ : Limits Op S L E D (G × H)} {J : G → S → Prop}
    {Idle : G → L → Prop} {J₂ : G → H → S → Prop} {Idle₂ : H → L → Prop}
    (hd : Discipline M R lim J Idle)
    (hl : Overlay M next₂ begin₂ R R₂ lim lim₂ J Idle J₂ Idle₂) :
    Discipline (M.withHistory next₂ begin₂) (R.both R₂) lim₂ (overlaid J J₂)
      (bothHeld Idle Idle₂) where
  start := by
    intro g s l e p s' hi hj hlim hs
    obtain ⟨hbase, hk₂, hj₂⟩ := hl.start g.1 g.2 s l e p s' hi.1 hj.1 hi.2 hj.2 hlim hs
    obtain ⟨hk, hj'⟩ := hd.start g.1 s l e p s' hi.1 hj.1 hbase hs
    exact ⟨keeps_both _ _ _ _ hk hk₂, hj', hj₂⟩
  op := by
    intro g s o b hj hm hlim
    obtain ⟨hbase, ha₂, hj₂⟩ := hl.op g.1 g.2 s o b hj.1 hm.1 hj.2 hm.2 hlim
    obtain ⟨ha, hj'⟩ := hd.op g.1 s o b hj.1 hm.1 hbase
    exact ⟨⟨ha, ha₂⟩, hj', hj₂⟩
  peer := by
    intro g s d s' hj hlim hp
    obtain ⟨hbase, hj₂⟩ := hl.peer g.1 g.2 s d s' hj.1 hj.2 hlim hp
    exact ⟨hd.peer g.1 s d s' hj.1 hbase hp, hj₂⟩

end Overlays

section Pairs

variable {Op₁ Op₂ : Type} {Ans₁ : Op₁ → Type} {Ans₂ : Op₂ → Type}
  {S₁ L₁ E₁ D₁ G₁ S₂ L₂ E₂ D₂ G₂ : Type}
  (M₁ : Machine Op₁ Ans₁ S₁ L₁ E₁ D₁ G₁) (M₂ : Machine Op₂ Ans₂ S₂ L₂ E₂ D₂ G₂)

/-- When one side may take its next step, given the states of both. -/
structure Wiring (Op₁ : Type) (Ans₁ : Op₁ → Type) (S₁ L₁ E₁ D₁ G₁ : Type) (Op₂ : Type)
    (Ans₂ : Op₂ → Type) (S₂ L₂ E₂ D₂ G₂ : Type) where
  first : Config Op₁ Ans₁ S₁ L₁ G₁ → Config Op₂ Ans₂ S₂ L₂ G₂ → Act E₁ D₁ → Prop
  second : Config Op₁ Ans₁ S₁ L₁ G₁ → Config Op₂ Ans₂ S₂ L₂ G₂ → Act E₂ D₂ → Prop

variable (W : Wiring Op₁ Ans₁ S₁ L₁ E₁ D₁ G₁ Op₂ Ans₂ S₂ L₂ E₂ D₂ G₂)

inductive Together (c₀ : Config Op₁ Ans₁ S₁ L₁ G₁) (d₀ : Config Op₂ Ans₂ S₂ L₂ G₂) :
    Config Op₁ Ans₁ S₁ L₁ G₁ → Config Op₂ Ans₂ S₂ L₂ G₂ → Prop
  | init : Together c₀ d₀ c₀ d₀
  | first {c c' : Config Op₁ Ans₁ S₁ L₁ G₁} {d : Config Op₂ Ans₂ S₂ L₂ G₂} (a : Act E₁ D₁) :
      Together c₀ d₀ c d → W.first c d a → step M₁ c a = some c' → Together c₀ d₀ c' d
  | second {c : Config Op₁ Ans₁ S₁ L₁ G₁} {d d' : Config Op₂ Ans₂ S₂ L₂ G₂} (a : Act E₂ D₂) :
      Together c₀ d₀ c d → W.second c d a → step M₂ d a = some d' → Together c₀ d₀ c d'

/-- Assumptions discharged against each other: `K` relates the two sides, and
with both disciplines it gives each side the limits that its own needs. -/
theorem together_held {R₁ : Rules Op₁ Ans₁ G₁} {R₂ : Rules Op₂ Ans₂ G₂}
    {lim₁ : Limits Op₁ S₁ L₁ E₁ D₁ G₁} {lim₂ : Limits Op₂ S₂ L₂ E₂ D₂ G₂}
    {J₁ : G₁ → S₁ → Prop} {Idle₁ : G₁ → L₁ → Prop} {J₂ : G₂ → S₂ → Prop} {Idle₂ : G₂ → L₂ → Prop}
    {K : Config Op₁ Ans₁ S₁ L₁ G₁ → Config Op₂ Ans₂ S₂ L₂ G₂ → Prop}
    (hd₁ : Discipline M₁ R₁ lim₁ J₁ Idle₁) (hd₂ : Discipline M₂ R₂ lim₂ J₂ Idle₂)
    (hfirst : ∀ c d a c', Held M₁ R₁ J₁ Idle₁ c → Held M₂ R₂ J₂ Idle₂ d → K c d →
      W.first c d a → step M₁ c a = some c' → Allowed lim₁ c a ∧ K c' d)
    (hsecond : ∀ c d a d', Held M₁ R₁ J₁ Idle₁ c → Held M₂ R₂ J₂ Idle₂ d → K c d →
      W.second c d a → step M₂ d a = some d' → Allowed lim₂ d a ∧ K c d')
    {c₀ c : Config Op₁ Ans₁ S₁ L₁ G₁} {d₀ d : Config Op₂ Ans₂ S₂ L₂ G₂}
    (h₁ : Held M₁ R₁ J₁ Idle₁ c₀) (h₂ : Held M₂ R₂ J₂ Idle₂ d₀) (hk : K c₀ d₀)
    (h : Together M₁ M₂ W c₀ d₀ c d) :
    Held M₁ R₁ J₁ Idle₁ c ∧ Held M₂ R₂ J₂ Idle₂ d ∧ K c d := by
  induction h with
  | init => exact ⟨h₁, h₂, hk⟩
  | first a _ hw hs ih =>
    obtain ⟨hc, hd, hk⟩ := ih
    obtain ⟨ha, hk'⟩ := hfirst _ _ a _ hc hd hk hw hs
    exact ⟨step_held M₁ hd₁ hc ha hs, hd, hk'⟩
  | second a _ hw hs ih =>
    obtain ⟨hc, hd, hk⟩ := ih
    obtain ⟨ha, hk'⟩ := hsecond _ _ a _ hc hd hk hw hs
    exact ⟨hc, step_held M₂ hd₂ hd ha hs, hk'⟩

/-- A joint schedule, given up at a step that `allow` refuses. -/
def runTogether (allow : Config Op₁ Ans₁ S₁ L₁ G₁ → Config Op₂ Ans₂ S₂ L₂ G₂ →
      Act E₁ D₁ ⊕ Act E₂ D₂ → Bool)
    (c : Config Op₁ Ans₁ S₁ L₁ G₁) (d : Config Op₂ Ans₂ S₂ L₂ G₂) :
    List (Act E₁ D₁ ⊕ Act E₂ D₂) → Option (Config Op₁ Ans₁ S₁ L₁ G₁ × Config Op₂ Ans₂ S₂ L₂ G₂)
  | [] => some (c, d)
  | a::as =>
    if allow c d a then
      match a with
      | .inl a => (step M₁ c a).bind fun c' => runTogether allow c' d as
      | .inr a => (step M₂ d a).bind fun d' => runTogether allow c d' as
    else none

theorem together_trans {c₀ c₁ c₂ : Config Op₁ Ans₁ S₁ L₁ G₁} {d₀ d₁ d₂ : Config Op₂ Ans₂ S₂ L₂ G₂}
    (h : Together M₁ M₂ W c₀ d₀ c₁ d₁) (h' : Together M₁ M₂ W c₁ d₁ c₂ d₂) :
    Together M₁ M₂ W c₀ d₀ c₂ d₂ := by
  induction h' with
  | init => exact h
  | first a _ hw hs ih => exact .first a ih hw hs
  | second a _ hw hs ih => exact .second a ih hw hs

theorem runTogether_together
    {allow : Config Op₁ Ans₁ S₁ L₁ G₁ → Config Op₂ Ans₂ S₂ L₂ G₂ →
      Act E₁ D₁ ⊕ Act E₂ D₂ → Bool}
    (hfirst : ∀ c d a, allow c d (.inl a) = true → W.first c d a)
    (hsecond : ∀ c d a, allow c d (.inr a) = true → W.second c d a)
    (as : List (Act E₁ D₁ ⊕ Act E₂ D₂)) (c c' : Config Op₁ Ans₁ S₁ L₁ G₁)
    (d d' : Config Op₂ Ans₂ S₂ L₂ G₂) (h : runTogether M₁ M₂ allow c d as = some (c', d')) :
    Together M₁ M₂ W c d c' d' := by
  induction as generalizing c d with
  | nil =>
    cases h
    exact .init
  | cons a as ih =>
    unfold runTogether at h
    split at h
    · rename_i hall
      cases a with
      | inl a =>
        obtain ⟨e, he, hr⟩ := Option.bind_eq_some_iff.mp h
        exact together_trans M₁ M₂ W (.first a .init (hfirst c d a hall) he) (ih e d hr)
      | inr a =>
        obtain ⟨e, he, hr⟩ := Option.bind_eq_some_iff.mp h
        exact together_trans M₁ M₂ W (.second a .init (hsecond c d a hall) he) (ih c e hr)
    · cases h

end Pairs

end LogTransfer.Interleave
