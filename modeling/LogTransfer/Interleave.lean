import LogTransfer.Program

/-!
# One programmed thread among free peers

The thread runs callbacks to completion, one operation at a time. Between two
operations, and between two callbacks, every peer may take any number of its
own steps. The history value `ghost` never influences a step; it records what
the thread did and carries the discipline of `Keeps`.
-/

set_option autoImplicit false

namespace LogTransfer.Interleave
open LogTransfer.Program

structure Machine (Op : Type) (Ans : Op → Type) (S L E D G : Type) where
  exec : (op : Op) → Bool → S → Ans op × S
  start : E → L → S → Option (Prog Op Ans L × S)
  peer : D → S → Option S
  next : G → (op : Op) → Ans op → G
  begin : E → G → G

structure Config (Op : Type) (Ans : Op → Type) (S L G : Type) where
  shared : S
  ghost : G
  thread : Prog Op Ans L

/-- The operation the thread is about to execute. -/
def Config.pending {Op : Type} {Ans : Op → Type} {S L G : Type} (c : Config Op Ans S L G) :
    Option Op :=
  match c.thread with
  | .done _ => none
  | .call op _ => some op

inductive Act (E D : Type) where
  | start (e : E)
  | loop (answer : Bool)
  | peer (d : D)

variable {Op : Type} {Ans : Op → Type} {S L E D G : Type} (M : Machine Op Ans S L E D G)

def stepLoop (c : Config Op Ans S L G) (answer : Bool) : Option (Config Op Ans S L G) :=
  match c.thread with
  | .done _ => none
  | .call op k =>
    let r := M.exec op answer c.shared
    some ⟨r.2, M.next c.ghost op r.1, k r.1⟩

def stepStart (c : Config Op Ans S L G) (e : E) : Option (Config Op Ans S L G) :=
  match c.thread with
  | .call _ _ => none
  | .done l => (M.start e l c.shared).map fun r => ⟨r.2, M.begin e c.ghost, r.1⟩

def step (c : Config Op Ans S L G) : Act E D → Option (Config Op Ans S L G)
  | .start e => stepStart M c e
  | .loop answer => stepLoop M c answer
  | .peer d => (M.peer d c.shared).map fun s => { c with shared := s }

/-- What a run may be restricted to: the operations of the thread with the
answers they get, the events that start its callbacks, the steps of its peers.
Each is a condition on the state before the step. -/
structure Limits (Op S L E D G : Type) where
  op : G → S → Op → Bool → Prop
  start : G → S → L → E → Prop
  peer : G → S → D → Prop

def Always : Limits Op S L E D G where
  op _ _ _ _ := True
  start _ _ _ _ := True
  peer _ _ _ := True

/-- A restriction of the thread's operations alone. -/
def onOps (ok : G → S → Op → Prop) : Limits Op S L E D G :=
  { (Always : Limits Op S L E D G) with op := fun g s op _ => ok g s op }

def Allowed (lim : Limits Op S L E D G) (c : Config Op Ans S L G) : Act E D → Prop
  | .start e => match c.thread with
    | .done l => lim.start c.ghost c.shared l e
    | .call _ _ => True
  | .loop b => match c.thread with
    | .done _ => True
    | .call op _ => lim.op c.ghost c.shared op b
  | .peer d => lim.peer c.ghost c.shared d

inductive Reach (lim : Limits Op S L E D G) (c₀ : Config Op Ans S L G) :
    Config Op Ans S L G → Prop
  | init : Reach lim c₀ c₀
  | step {c c' : Config Op Ans S L G} (a : Act E D) : Reach lim c₀ c → Allowed lim c a →
      Interleave.step M c a = some c' → Reach lim c₀ c'

/-- A schedule, given up at a step that `allow` refuses. -/
def run (allow : Config Op Ans S L G → Act E D → Bool) (c : Config Op Ans S L G) :
    List (Act E D) → Option (Config Op Ans S L G)
  | [] => some c
  | a::as =>
    if allow c a then (step M c a).bind fun c' => run allow c' as else none

/-- Refuses a step whose pending operation fails `p`. -/
def pendingAll (p : Op → Bool) (c : Config Op Ans S L G) (_ : Act E D) : Bool := c.pending.all p

theorem reach_trans {lim : Limits Op S L E D G} {c₀ c₁ c₂ : Config Op Ans S L G}
    (h : Reach M lim c₀ c₁) (h' : Reach M lim c₁ c₂) : Reach M lim c₀ c₂ := by
  induction h' with
  | init => exact h
  | step a _ ha hs ih => exact .step a ih ha hs

theorem reach_mono {lim lim' : Limits Op S L E D G} {c₀ c : Config Op Ans S L G}
    (hw : ∀ (c : Config Op Ans S L G) a, Allowed lim c a → Allowed lim' c a)
    (h : Reach M lim c₀ c) : Reach M lim' c₀ c := by
  induction h with
  | init => exact .init
  | step a _ ha hs ih => exact .step a ih (hw _ a ha) hs

theorem allowed_always (c : Config Op Ans S L G) (a : Act E D) : Allowed Always c a := by
  cases a with
  | peer d => trivial
  | start e =>
    simp only [Allowed]
    split <;> trivial
  | loop b =>
    simp only [Allowed]
    split <;> trivial

theorem allowed_onOps {ok : G → S → Op → Prop} {c : Config Op Ans S L G}
    (h : ∀ op, c.pending = some op → ok c.ghost c.shared op) (a : Act E D) :
    Allowed (onOps ok) c a := by
  cases a with
  | peer d => trivial
  | start e =>
    simp only [Allowed]
    split <;> trivial
  | loop b =>
    simp only [Allowed]
    split
    · trivial
    · rename_i op k ht
      exact h op (by simp [Config.pending, ht])

theorem run_reach {lim : Limits Op S L E D G} {allow : Config Op Ans S L G → Act E D → Bool}
    (hok : ∀ c a, allow c a = true → Allowed lim c a) (as : List (Act E D))
    (c c' : Config Op Ans S L G) (h : run M allow c as = some c') : Reach M lim c c' := by
  induction as generalizing c with
  | nil =>
    cases h
    exact .init
  | cons a as ih =>
    unfold run at h
    split at h
    · rename_i hall
      obtain ⟨d, hd, hr⟩ := Option.bind_eq_some_iff.mp h
      exact reach_trans M (.step a .init (hok c a hall) hd) (ih d hr)
    · cases h

/-- Whatever a run is restricted to, it is a run. -/
theorem reach_always {lim : Limits Op S L E D G} {c₀ c : Config Op Ans S L G}
    (h : Reach M lim c₀ c) : Reach M Always c₀ c :=
  reach_mono M (fun c a _ => allowed_always c a) h

theorem run_always {allow : Config Op Ans S L G → Act E D → Bool} {as : List (Act E D)}
    {c c' : Config Op Ans S L G} (h : run M allow c as = some c') : Reach M Always c c' :=
  run_reach M (fun c a _ => allowed_always c a) as c c' h

theorem run_onOps {ok : G → S → Op → Prop} {p : Op → Bool}
    (hp : ∀ g s op, p op = true → ok g s op) (as : List (Act E D)) (c c' : Config Op Ans S L G)
    (h : run M (pendingAll p) c as = some c') : Reach M (onOps ok) c c' := by
  refine run_reach M (fun c a hall => allowed_onOps (fun op hop => ?_) a) as c c' h
  rw [pendingAll, hop] at hall
  exact hp _ _ _ hall

theorem step_inversion {c c' : Config Op Ans S L G} {a : Act E D} (h : step M c a = some c') :
    (∃ e l p s, c.thread = .done l ∧ a = .start e ∧ M.start e l c.shared = some (p, s) ∧
      c' = ⟨s, M.begin e c.ghost, p⟩) ∨
    (∃ op k b, c.thread = .call op k ∧ a = .loop b ∧
      c' = ⟨(M.exec op b c.shared).2, M.next c.ghost op (M.exec op b c.shared).1,
        k (M.exec op b c.shared).1⟩) ∨
    (∃ d s, a = .peer d ∧ M.peer d c.shared = some s ∧ c' = ⟨s, c.ghost, c.thread⟩) := by
  cases a with
  | start e =>
    left
    simp only [step, stepStart] at h
    split at h
    · cases h
    · rename_i l ht
      obtain ⟨⟨p, s⟩, hs, rfl⟩ := Option.map_eq_some_iff.mp h
      exact ⟨e, l, p, s, ht, rfl, hs, rfl⟩
  | loop b =>
    right; left
    simp only [step, stepLoop] at h
    split at h
    · cases h
    · rename_i op k ht
      cases h
      exact ⟨op, k, b, ht, rfl, rfl⟩
  | peer d =>
    right; right
    obtain ⟨s, hs, rfl⟩ := Option.map_eq_some_iff.mp h
    exact ⟨d, s, rfl, hs, rfl⟩

/-- What a callback-driven thread and its peers owe each other. `J` relates the
history value to the shared state, `Idle` to the thread's own state between two
callbacks. -/
structure Discipline (R : Rules Op Ans G) (lim : Limits Op S L E D G)
    (J : G → S → Prop) (Idle : G → L → Prop) : Prop where
  start : ∀ g s l e p s', Idle g l → J g s → lim.start g s l e → M.start e l s = some (p, s') →
    Keeps M.next R p (M.begin e g) Idle ∧ J (M.begin e g) s'
  op : ∀ g s o b, J g s → R.may g o → lim.op g s o b →
    R.answers g o (M.exec o b s).1 ∧ J (M.next g o (M.exec o b s).1) (M.exec o b s).2
  peer : ∀ g s d s', J g s → lim.peer g s d → M.peer d s = some s' → J g s'

def Held (R : Rules Op Ans G) (J : G → S → Prop) (Idle : G → L → Prop)
    (c : Config Op Ans S L G) : Prop :=
  Keeps M.next R c.thread c.ghost Idle ∧ J c.ghost c.shared

theorem step_held {R : Rules Op Ans G} {lim : Limits Op S L E D G} {J : G → S → Prop}
    {Idle : G → L → Prop} (hd : Discipline M R lim J Idle) {c c' : Config Op Ans S L G}
    {a : Act E D} (hc : Held M R J Idle c) (ha : Allowed lim c a) (h : step M c a = some c') :
    Held M R J Idle c' := by
  obtain ⟨hk, hj⟩ := hc
  obtain ⟨e, l, p, s, ht, rfl, hs, rfl⟩ | ⟨op, k, b, ht, rfl, rfl⟩ | ⟨d, s, rfl, hs, rfl⟩ :=
    step_inversion M h
  · rw [ht] at hk
    simp only [Allowed, ht] at ha
    exact hd.start _ _ _ _ _ _ hk hj ha hs
  · rw [ht] at hk
    simp only [Allowed, ht] at ha
    obtain ⟨hans, hj'⟩ := hd.op _ _ op b hj hk.1 ha
    exact ⟨hk.2 _ hans, hj'⟩
  · exact ⟨hk, hd.peer _ _ d s hj ha hs⟩

/-- The invariant rule for whole runs. -/
theorem reach_held {R : Rules Op Ans G} {lim : Limits Op S L E D G} {J : G → S → Prop}
    {Idle : G → L → Prop} (hd : Discipline M R lim J Idle) {c₀ c : Config Op Ans S L G}
    (h₀ : Held M R J Idle c₀) (h : Reach M lim c₀ c) : Held M R J Idle c := by
  induction h with
  | init => exact h₀
  | step a _ ha hs ih => exact step_held M hd ih ha hs

section Layers

variable {H : Type} (next₂ : H → (op : Op) → Ans op → H) (begin₂ : E → H → H)

/-- The same machine with a second history value. -/
def Machine.withHistory : Machine Op Ans S L E D (G × H) where
  exec := M.exec
  start := M.start
  peer := M.peer
  next := nextBoth M.next next₂
  begin e g := (M.begin e g.1, begin₂ e g.2)

/-- A discipline over the second history that may rely on one over the first. -/
structure Layer (R : Rules Op Ans G) (R₂ : Rules Op Ans H) (lim : Limits Op S L E D (G × H))
    (J : G → S → Prop) (Idle : G → L → Prop) (J₂ : H → S → Prop) (Idle₂ : H → L → Prop) :
    Prop where
  start : ∀ g h s l e p s', Idle g l → J g s → Idle₂ h l → J₂ h s → lim.start (g, h) s l e →
    M.start e l s = some (p, s') → Keeps next₂ R₂ p (begin₂ e h) Idle₂ ∧ J₂ (begin₂ e h) s'
  op : ∀ g h s o b, J g s → R.may g o → J₂ h s → R₂.may h o → lim.op (g, h) s o b →
    R₂.answers h o (M.exec o b s).1 ∧ J₂ (next₂ h o (M.exec o b s).1) (M.exec o b s).2
  peer : ∀ g h s d s', J g s → J₂ h s → lim.peer (g, h) s d → M.peer d s = some s' → J₂ h s'

def bothHeld (J : G → S → Prop) (J₂ : H → S → Prop) (g : G × H) (s : S) : Prop :=
  J g.1 s ∧ J₂ g.2 s

theorem layer_discipline {R : Rules Op Ans G} {R₂ : Rules Op Ans H}
    {lim : Limits Op S L E D (G × H)} {J : G → S → Prop} {Idle : G → L → Prop}
    {J₂ : H → S → Prop} {Idle₂ : H → L → Prop} (hd : Discipline M R Always J Idle)
    (hl : Layer M next₂ begin₂ R R₂ lim J Idle J₂ Idle₂) :
    Discipline (M.withHistory next₂ begin₂) (R.both R₂) lim (bothHeld J J₂)
      (bothHeld Idle Idle₂) where
  start := by
    intro g s l e p s' hi hj hlim hs
    obtain ⟨hk, hj'⟩ := hd.start g.1 s l e p s' hi.1 hj.1 trivial hs
    obtain ⟨hk₂, hj₂⟩ := hl.start g.1 g.2 s l e p s' hi.1 hj.1 hi.2 hj.2 hlim hs
    exact ⟨keeps_both _ _ _ _ hk hk₂, hj', hj₂⟩
  op := by
    intro g s o b hj hm hlim
    obtain ⟨ha, hj'⟩ := hd.op g.1 s o b hj.1 hm.1 trivial
    obtain ⟨ha₂, hj₂⟩ := hl.op g.1 g.2 s o b hj.1 hm.1 hj.2 hm.2 hlim
    exact ⟨⟨ha, ha₂⟩, hj', hj₂⟩
  peer := by
    intro g s d s' hj hlim hp
    exact ⟨hd.peer g.1 s d s' hj.1 trivial hp, hl.peer g.1 g.2 s d s' hj.1 hj.2 hlim hp⟩

end Layers

theorem held_pending {R : Rules Op Ans G} {J : G → S → Prop} {Idle : G → L → Prop}
    {c : Config Op Ans S L G} {op : Op} (h : Held M R J Idle c) (hp : c.pending = some op) :
    R.may c.ghost op := by
  obtain ⟨hk, -⟩ := h
  unfold Config.pending at hp
  split at hp
  · cases hp
  · rename_i op' k ht
    cases hp
    rw [ht] at hk
    exact hk.1

end LogTransfer.Interleave
