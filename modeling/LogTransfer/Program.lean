import Mathlib.Logic.Basic
import Mathlib.Data.List.Basic

/-!
# Programs of one thread over shared operations

A callback is a finite tree. Its nodes are operations on state which other
threads also touch, and the subtrees are indexed by the answers, so local
computation between two operations is not a step of its own. `Keeps` says
that a program follows a usage discipline whatever the admitted answers are;
the discipline reads only a history value owned by the thread.
-/

set_option autoImplicit false

namespace LogTransfer.Program

inductive Prog (Op : Type) (Ans : Op → Type) (α : Type) where
  | done (a : α)
  | call (op : Op) (next : Ans op → Prog Op Ans α)

variable {Op : Type} {Ans : Op → Type} {α β γ : Type}

def Prog.bind (p : Prog Op Ans α) (f : α → Prog Op Ans β) : Prog Op Ans β :=
  match p with
  | .done a => f a
  | .call op next => .call op (fun a => (next a).bind f)

instance : Monad (Prog Op Ans) where
  pure := .done
  bind := Prog.bind

def ask (op : Op) : Prog Op Ans (Ans op) := .call op .done

theorem call_bind (op : Op) (next : Ans op → Prog Op Ans α) (f : α → Prog Op Ans β) :
    (.call op next >>= f) = .call op (fun a => next a >>= f) := rfl

theorem bind_assoc (p : Prog Op Ans α) (f : α → Prog Op Ans β) (g : β → Prog Op Ans γ) :
    (p >>= f) >>= g = p >>= fun a => f a >>= g := by
  induction p with
  | done a => rfl
  | call op next ih =>
    simp only [call_bind]
    congr 1
    funext a
    exact ih a

/-- A usage discipline for one thread. `may` is what the thread owes before an
operation, `answers` what it is owed by the other side. -/
structure Rules (Op : Type) (Ans : Op → Type) (G : Type) where
  may : G → Op → Prop
  answers : G → (op : Op) → Ans op → Prop

section Keeps

variable {G : Type} (next : G → (op : Op) → Ans op → G) (R : Rules Op Ans G)

def Keeps : Prog Op Ans α → G → (G → α → Prop) → Prop
  | .done a, g, Q => Q g a
  | .call op k, g, Q => R.may g op ∧ ∀ a, R.answers g op a → Keeps (k a) (next g op a) Q

theorem keeps_call (op : Op) (k : Ans op → Prog Op Ans α) (g : G) (Q : G → α → Prop) :
    Keeps next R (.call op k) g Q ↔
      R.may g op ∧ ∀ a, R.answers g op a → Keeps next R (k a) (next g op a) Q := Iff.rfl

theorem keeps_ask_bind (op : Op) (f : Ans op → Prog Op Ans α) (g : G) (Q : G → α → Prop) :
    Keeps next R (ask op >>= f) g Q ↔
      R.may g op ∧ ∀ a, R.answers g op a → Keeps next R (f a) (next g op a) Q := Iff.rfl

theorem keeps_bind (p : Prog Op Ans α) (f : α → Prog Op Ans β) (g : G) (Q : G → β → Prop) :
    Keeps next R (p >>= f) g Q ↔ Keeps next R p g (fun g a => Keeps next R (f a) g Q) := by
  induction p generalizing g with
  | done a => exact Iff.rfl
  | call op k ih =>
    rw [call_bind, keeps_call, keeps_call]
    constructor
    · intro h
      exact ⟨h.1, fun a ha => (ih a _).mp (h.2 a ha)⟩
    · intro h
      exact ⟨h.1, fun a ha => (ih a _).mpr (h.2 a ha)⟩

theorem keeps_mono (p : Prog Op Ans α) (g : G) {Q Q' : G → α → Prop}
    (hq : ∀ g a, Q g a → Q' g a) (h : Keeps next R p g Q) : Keeps next R p g Q' := by
  induction p generalizing g with
  | done a => exact hq g a h
  | call op k ih => exact ⟨h.1, fun a ha => ih a _ (h.2 a ha)⟩

/-- The usual way a proof about a callback is cut: a specification of the first
part, then the rest from every outcome the specification admits. -/
theorem keeps_seq (p : Prog Op Ans α) (f : α → Prog Op Ans β) (g : G)
    {Q : G → α → Prop} {Q' : G → β → Prop} (hp : Keeps next R p g Q)
    (hf : ∀ g a, Q g a → Keeps next R (f a) g Q') : Keeps next R (p >>= f) g Q' :=
  (keeps_bind next R p f g Q').mpr (keeps_mono next R p g hf hp)

end Keeps

section Both

variable {G H : Type} (next₁ : G → (op : Op) → Ans op → G) (next₂ : H → (op : Op) → Ans op → H)
  (R₁ : Rules Op Ans G) (R₂ : Rules Op Ans H)

/-- Two histories of one thread side by side. -/
def nextBoth (g : G × H) (op : Op) (a : Ans op) : G × H := (next₁ g.1 op a, next₂ g.2 op a)

def Rules.both : Rules Op Ans (G × H) where
  may g op := R₁.may g.1 op ∧ R₂.may g.2 op
  answers g op a := R₁.answers g.1 op a ∧ R₂.answers g.2 op a

theorem keeps_both {p : Prog Op Ans α} {g : G} {h : H} {Q₁ : G → α → Prop} {Q₂ : H → α → Prop}
    (h₁ : Keeps next₁ R₁ p g Q₁) (h₂ : Keeps next₂ R₂ p h Q₂) :
    Keeps (nextBoth next₁ next₂) (R₁.both R₂) p (g, h) (fun g a => Q₁ g.1 a ∧ Q₂ g.2 a) := by
  induction p generalizing g h with
  | done a => exact ⟨h₁, h₂⟩
  | call op k ih => exact ⟨⟨h₁.1, h₂.1⟩, fun a ha => ih a (h₁.2 a ha.1) (h₂.2 a ha.2)⟩

end Both

section Only

/-- Every operation a program can reach, whatever the answers are. -/
def Only (ok : Op → Prop) : Prog Op Ans α → Prop
  | .done _ => True
  | .call op k => ok op ∧ ∀ a, Only ok (k a)

variable {ok : Op → Prop}

theorem only_pure (a : α) : Only ok (pure a : Prog Op Ans α) := trivial

theorem only_ask {op : Op} (h : ok op) : Only ok (ask op : Prog Op Ans (Ans op)) :=
  ⟨h, fun _ => trivial⟩

theorem only_bind {p : Prog Op Ans α} {f : α → Prog Op Ans β} (hp : Only ok p)
    (hf : ∀ a, Only ok (f a)) : Only ok (p >>= f) := by
  induction p with
  | done a => exact hf a
  | call op k ih => exact ⟨hp.1, fun a => ih a (hp.2 a)⟩

/-- A program whose operations the history ignores leaves the history as it is. -/
theorem keeps_only {G : Type} {next : G → (op : Op) → Ans op → G} {R : Rules Op Ans G} {g : G}
    (hnext : ∀ op a, ok op → next g op a = g) (hmay : ∀ op, ok op → R.may g op)
    {p : Prog Op Ans α} (h : Only ok p) : Keeps next R p g (fun g' _ => g' = g) := by
  induction p with
  | done a => rfl
  | call op k ih =>
    refine ⟨hmay op h.1, fun a _ => ?_⟩
    rw [hnext op a h.1]
    exact ih a (h.2 a)

end Only

section Meets

/-- Every path of a program comes to an operation of the kind `hit`. -/
def Meets (hit : Op → Prop) : Prog Op Ans α → Prop
  | .done _ => False
  | .call op k => hit op ∨ ∀ a, Meets hit (k a)

variable {hit : Op → Prop}

/-- What a history owes at the start and not at the end was given on the way. -/
theorem keeps_meets {G : Type} {next : G → (op : Op) → Ans op → G} {R : Rules Op Ans G}
    (owing : G → Prop) {Q : G → α → Prop} (hans : ∀ g op a, R.answers g op a)
    (hstay : ∀ g op a, owing g → ¬ hit op → owing (next g op a))
    (hend : ∀ g a, Q g a → ¬ owing g) {p : Prog Op Ans α} {g : G} (h : Keeps next R p g Q)
    (ho : owing g) : Meets hit p := by
  induction p generalizing g with
  | done a => exact hend g a h ho
  | call op k ih =>
    by_cases hop : hit op
    · exact .inl hop
    · exact .inr fun a => ih a (h.2 a (hans g op a)) (hstay g op a ho hop)

end Meets

section Yields

/-- What every result of a program satisfies, whatever the answers are. -/
def Yields (Q : α → Prop) : Prog Op Ans α → Prop
  | .done a => Q a
  | .call _ k => ∀ a, Yields Q (k a)

variable {Q : α → Prop} {Q' : β → Prop}

theorem yields_bind {p : Prog Op Ans α} {f : α → Prog Op Ans β} (hp : Yields Q p)
    (hf : ∀ a, Q a → Yields Q' (f a)) : Yields Q' (p >>= f) := by
  induction p with
  | done a => exact hf a hp
  | call op k ih => exact fun a => ih a (hp a)

theorem yields_seq (p : Prog Op Ans α) {f : α → Prog Op Ans β} (hf : ∀ a, Yields Q' (f a)) :
    Yields Q' (p >>= f) := by
  induction p with
  | done a => exact hf a
  | call op k ih => exact fun a => ih a

theorem yields_mono {Q₁ : α → Prop} {p : Prog Op Ans α} (hq : ∀ a, Q a → Q₁ a)
    (h : Yields Q p) : Yields Q₁ p := by
  induction p with
  | done a => exact hq a h
  | call op k ih => exact fun a => ih a (h a)

/-- A result of the program under some answers. -/
def Returns (a : α) : Prog Op Ans α → Prop
  | .done b => a = b
  | .call _ k => ∃ x, Returns a (k x)

theorem yields_iff_returns (p : Prog Op Ans α) : Yields Q p ↔ ∀ a, Returns a p → Q a := by
  induction p with
  | done b =>
    constructor
    · rintro h a rfl
      exact h
    · intro h
      exact h b rfl
  | call op k ih =>
    constructor
    · rintro h a ⟨x, hx⟩
      exact (ih x).mp (h x) a hx
    · intro h x
      exact (ih x).mpr fun a ha => h a ⟨x, ha⟩

theorem returns_bind (b : β) (p : Prog Op Ans α) (f : α → Prog Op Ans β) :
    Returns b (p >>= f) ↔ ∃ a, Returns a p ∧ Returns b (f a) := by
  induction p with
  | done a =>
    constructor
    · intro h
      exact ⟨a, rfl, h⟩
    · rintro ⟨_, rfl, h⟩
      exact h
  | call op k ih =>
    constructor
    · rintro ⟨x, hx⟩
      obtain ⟨a, ha, hb⟩ := (ih x).mp hx
      exact ⟨a, ⟨x, ha⟩, hb⟩
    · rintro ⟨a, ⟨x, ha⟩, hb⟩
      exact ⟨x, (ih x).mpr ⟨a, ha, hb⟩⟩

/-- Two programs that go on alike after whatever `p` yields. -/
theorem bind_congr_yields {p : Prog Op Ans α} {f f' : α → Prog Op Ans β} (hp : Yields Q p)
    (h : ∀ a, Q a → f a = f' a) : (p >>= f) = (p >>= f') := by
  induction p with
  | done a => exact h a hp
  | call op k ih =>
    rw [call_bind, call_bind]
    congr 1
    funext x
    exact ih x (hp x)

/-- A discipline that asks nothing of the operations. -/
theorem yields_keeps {G : Type} {next : G → (op : Op) → Ans op → G} {R : Rules Op Ans G}
    (hmay : ∀ g op, R.may g op) {p : Prog Op Ans α} (h : Yields Q p) (g : G) :
    Keeps next R p g (fun _ a => Q a) := by
  induction p generalizing g with
  | done a => exact h
  | call op k ih => exact ⟨hmay g op, fun a _ => ih a (h a) _⟩

end Yields

section Eval

variable {S : Type} (h : (op : Op) → S → Ans op × S)

def eval : Prog Op Ans α → S → α × S
  | .done a, s => (a, s)
  | .call op k, s => eval (k (h op s).1) (h op s).2

theorem eval_pure (a : α) (s : S) : eval h (pure a) s = (a, s) := rfl

theorem eval_ask (op : Op) (s : S) : eval h (ask op) s = h op s := rfl

theorem eval_bind (p : Prog Op Ans α) (f : α → Prog Op Ans β) (s : S) :
    eval h (p >>= f) s = eval h (f (eval h p s).1) (eval h p s).2 := by
  induction p generalizing s with
  | done a => rfl
  | call op k ih => exact ih _ _

theorem yields_eval {Q : α → Prop} {p : Prog Op Ans α} (hp : Yields Q p) (s : S) :
    Q (eval h p s).1 := by
  induction p generalizing s with
  | done a => exact hp
  | call op k ih => exact ih _ (hp _) _

theorem returns_eval (p : Prog Op Ans α) (s : S) : Returns (eval h p s).1 p := by
  induction p generalizing s with
  | done a => rfl
  | call op k ih => exact ⟨_, ih _ _⟩

end Eval

section Ends

variable {G : Type} (next : G → (op : Op) → Ans op → G) (R : Rules Op Ans G)

/-- A way the program can go, from one history value to its last and its result. -/
def Ends : Prog Op Ans α → G → G → α → Prop
  | .done a, g, g', b => g' = g ∧ b = a
  | .call op k, g, g', b => ∃ a, R.answers g op a ∧ Ends (k a) (next g op a) g' b

variable {next R}

theorem ends_bind {p : Prog Op Ans α} {f : α → Prog Op Ans β} {g g' : G} {b : β} :
    Ends next R (p >>= f) g g' b ↔
      ∃ g₁ a, Ends next R p g g₁ a ∧ Ends next R (f a) g₁ g' b := by
  induction p generalizing g with
  | done a =>
    constructor
    · intro h
      exact ⟨g, a, ⟨rfl, rfl⟩, h⟩
    · rintro ⟨_, _, ⟨rfl, rfl⟩, h⟩
      exact h
  | call op k ih =>
    constructor
    · rintro ⟨x, hx, h⟩
      obtain ⟨g₁, a, ha, hb⟩ := (ih x).mp h
      exact ⟨g₁, a, ⟨x, hx, ha⟩, hb⟩
    · rintro ⟨g₁, a, ⟨x, hx, ha⟩, hb⟩
      exact ⟨x, hx, (ih x).mpr ⟨g₁, a, ha, hb⟩⟩

/-- What a program is shown to keep holds however it ends. -/
theorem keeps_ends {p : Prog Op Ans α} {g g' : G} {a : α} {Q : G → α → Prop}
    (h : Keeps next R p g Q) (he : Ends next R p g g' a) : Q g' a := by
  induction p generalizing g with
  | done b =>
    obtain ⟨rfl, rfl⟩ := he
    exact h
  | call op k ih =>
    obtain ⟨x, hx, he⟩ := he
    exact ih x (h.2 x hx) he

end Ends

end LogTransfer.Program
