import Mathlib.Data.List.Basic

/-!
# Handles of an event loop

A loop closes a handle later than it is told to, and the handle's memory must
stay until then. An owner that is destroyed earlier leaves the memory to the
close callback. What can become of a handle is one of six phases.
-/

set_option autoImplicit false

namespace LogTransfer.LoopHandle

inductive Fault
  /-- Memory is used, or freed, that was freed before. -/
  | freed
  /-- A handle that is closing is given what it no longer takes. -/
  | closing
  /-- A call through a null pointer. -/
  | null
  deriving DecidableEq, Repr

/-- `data` tells whether the handle points back at its owner. -/
structure Handle where
  data : Bool
  closing : Bool
  closed : Bool
  deriving DecidableEq, Repr

/-- The owner's pointer, which is null after a failed start, and what it was
told. -/
structure Owner where
  held : Bool
  closed : Bool
  deriving DecidableEq, Repr

structure Life where
  owner : Option Owner
  memory : Option Handle
  deriving DecidableEq, Repr

/-- A handle in the memory of its owner, closed without a callback. -/
structure Static where
  closing : Bool
  closed : Bool
  deriving DecidableEq, Repr

namespace Static

def closeHandle (s : Static) : Static := if s.closing then s else { s with closing := true }

theorem closeHandle_closing (s : Static) : s.closeHandle.closing = true := by
  rw [closeHandle]
  split
  · assumption
  · rfl

end Static

namespace Life

def init (started : Bool) : Life :=
  { owner := some ⟨started, false⟩,
    memory := if started then some ⟨true, false, false⟩ else none }

def close (l : Life) : Except Fault Life :=
  match l.memory with
  | none => .error .freed
  | some h =>
    if h.closing then .error .closing
    else .ok { l with memory := some { h with closing := true } }

/-- The owner's destructor. -/
def destroy (l : Life) : Except Fault Life :=
  match l.owner with
  | none => .error .freed
  | some o =>
    if !o.held then .ok { l with owner := none }
    else match l.memory with
      | none => .error .freed
      | some h =>
        if o.closed then .ok ⟨none, none⟩
        else if h.closing then .ok ⟨none, some { h with data := false }⟩
        else close ⟨none, some { h with data := false }⟩

/-- The close callback. -/
def onClose (l : Life) : Except Fault Life :=
  match l.memory with
  | none => .error .freed
  | some h =>
    if !h.data then .ok { l with memory := none }
    else match l.owner with
      | none => .error .freed
      | some o => .ok ⟨some { o with closed := true }, some { h with closed := true }⟩

/-- The close callback is still to come. -/
def due (l : Life) : Bool := l.memory.any fun h => h.closing && !h.closed

def alive (l : Life) : Bool := l.owner.isSome

def held (l : Life) : Bool := l.owner.any (·.held)

def there (l : Life) : Bool := l.memory.isSome

/-- The loop has the handle among its own. -/
def known (l : Life) : Bool := l.memory.any fun h => !h.closed

/-- The handle takes requests. -/
def takes (l : Life) : Bool := l.memory.any fun h => !h.closing

theorem known_of_due {l : Life} (h : l.due = true) : l.known = true := by
  rw [due, Option.any_eq_true] at h
  obtain ⟨m, hm, h⟩ := h
  rw [known, hm]
  exact (Bool.and_eq_true _ _ ▸ h).2

end Life

inductive HandlePhase
  | refused | opened | closing | closed | orphaned | gone
  deriving DecidableEq, Repr

namespace HandlePhase

def life : HandlePhase → Life
  | refused => ⟨some ⟨false, false⟩, none⟩
  | opened => ⟨some ⟨true, false⟩, some ⟨true, false, false⟩⟩
  | closing => ⟨some ⟨true, false⟩, some ⟨true, true, false⟩⟩
  | closed => ⟨some ⟨true, true⟩, some ⟨true, true, true⟩⟩
  | orphaned => ⟨none, some ⟨false, true, false⟩⟩
  | gone => ⟨none, none⟩

/-- Where the destructor leads. -/
def destroyed : HandlePhase → HandlePhase
  | opened | closing | orphaned => orphaned
  | refused | closed | gone => gone

theorem init_life (started : Bool) :
    Life.init started = (if started then opened else refused).life := by
  cases started <;> rfl

theorem close_life : opened.life.close = .ok closing.life := rfl

/-- No owner's destruction is at fault, whatever the phase. -/
theorem destroy_life {p : HandlePhase} (h : p.life.alive = true) :
    p.life.destroy = .ok p.destroyed.life := by
  cases p <;> first | rfl | cases h

theorem destroyed_dead (p : HandlePhase) : p.destroyed.life.alive = false := by
  cases p <;> rfl

theorem onClose_life {p : HandlePhase} (h : p.life.due = true) :
    p = closing ∧ p.life.onClose = .ok closed.life ∨
      p = orphaned ∧ p.life.onClose = .ok gone.life := by
  cases p with
  | closing => exact .inl ⟨rfl, rfl⟩
  | orphaned => exact .inr ⟨rfl, rfl⟩
  | _ => cases h

theorem orphaned_or_gone {p : HandlePhase} (h : p.life.alive = false) :
    p = orphaned ∨ p = gone := by
  cases p with
  | orphaned => exact .inl rfl
  | gone => exact .inr rfl
  | _ => cases h

theorem due_of_known {p : HandlePhase} (hk : p.life.known = true) (ha : p.life.alive = false) :
    p.life.due = true := by
  obtain rfl | rfl := orphaned_or_gone ha
  · rfl
  · cases hk

theorem opened_of_takes {p : HandlePhase} (h : p.life.takes = true) : p = opened := by
  cases p with
  | opened => rfl
  | _ => cases h

theorem held_there {p : HandlePhase} (h : p.life.held = true) : p.life.there = true := by
  cases p <;> first | rfl | cases h

end HandlePhase

/-- There is no fault, and what comes out is as told. -/
def Fine {α : Type} (r : Except Fault α) (P : α → Prop) : Prop := ∃ a, r = .ok a ∧ P a

theorem fine_bind {α β : Type} {r : Except Fault α} {f : α → Except Fault β} {P : α → Prop}
    {Q : β → Prop} (hr : Fine r P) (hf : ∀ a, P a → Fine (f a) Q) : Fine (r >>= f) Q := by
  obtain ⟨a, rfl, ha⟩ := hr
  exact hf a ha

theorem fine_mono {α : Type} {r : Except Fault α} {P Q : α → Prop} (hr : Fine r P)
    (h : ∀ a, P a → Q a) : Fine r Q := by
  obtain ⟨a, ha, hp⟩ := hr
  exact ⟨a, ha, h a hp⟩

section Orphans

/-! The handles whose owner is gone and whose memory is not. -/

/-- A destructor; the handle may outlive it. -/
def abandon (orphans : List Life) (l : Life) : Except Fault (List Life) := do
  let l ← l.destroy
  pure (if l.there then orphans ++ [l] else orphans)

/-- The close callback of an orphan. -/
def orphanClosed (orphans : List Life) (i : ℕ) : Except Fault (List Life) :=
  match orphans[i]? with
  | none => .ok orphans
  | some l => do
    let l ← l.onClose
    pure (if l.there then orphans.set i l else orphans.eraseIdx i)

def Orphaned (ls : List Life) : Prop := ∀ l ∈ ls, l = HandlePhase.orphaned.life

variable {orphans : List Life}

theorem fine_abandon {p : HandlePhase} (h : Orphaned orphans) (ha : p.life.alive = true) :
    Fine (abandon orphans p.life) Orphaned := by
  refine ⟨_, by rw [abandon, HandlePhase.destroy_life ha]; rfl, ?_⟩
  obtain ho | ho := HandlePhase.orphaned_or_gone (HandlePhase.destroyed_dead p)
  · rw [ho]
    intro l hl
    exact (List.mem_append.mp hl).elim (h l) List.mem_singleton.mp
  · rw [ho]
    exact h

theorem fine_orphanClosed (h : Orphaned orphans) (i : ℕ) :
    Fine (orphanClosed orphans i) fun os => Orphaned os ∧ os = orphans.eraseIdx i := by
  rw [orphanClosed]
  cases hi : orphans[i]? with
  | none => exact ⟨_, rfl, h, (List.eraseIdx_of_length_le (List.getElem?_eq_none_iff.mp hi)).symm⟩
  | some l =>
    obtain rfl := h l (List.mem_of_getElem? hi)
    exact ⟨_, rfl, fun l hl => h l (List.mem_of_mem_eraseIdx hl), rfl⟩

end Orphans

section Flags

/-! Owners that keep a flag of their own for what they asked of the loop. -/

/-- A handle that its owner has asked to close or not, as the flag tells. -/
def Follows : Bool → Life → Prop
  | false, l => l = HandlePhase.opened.life
  | true, l => l = HandlePhase.closing.life ∨ l = HandlePhase.closed.life

variable {flag : Bool} {l : Life}

theorem follows_phase (h : Follows flag l) :
    ∃ p : HandlePhase, l = p.life ∧ p.life.alive = true ∧ p.life.held = true := by
  cases flag with
  | false => exact ⟨.opened, h, rfl, rfl⟩
  | true => exact h.elim (fun h => ⟨.closing, h, rfl, rfl⟩) fun h => ⟨.closed, h, rfl, rfl⟩

theorem fine_close (h : Follows flag l) (hf : flag = false) : Fine l.close (Follows true) := by
  subst hf
  rw [show l = HandlePhase.opened.life from h]
  exact ⟨_, HandlePhase.close_life, .inl rfl⟩

theorem fine_onClose (h : Follows flag l) (hd : l.due = true) :
    Fine l.onClose fun l' => l' = HandlePhase.closed.life ∧ flag = true := by
  cases flag with
  | false =>
    rw [show l = HandlePhase.opened.life from h] at hd
    cases hd
  | true =>
    obtain rfl | rfl := h
    · exact ⟨_, rfl, rfl, rfl⟩
    · cases hd

/-- A handle of which nobody asks whether it ever started. -/
def Ticks (l : Life) : Prop := l = HandlePhase.refused.life ∨ l = HandlePhase.opened.life

theorem ticks_init (started : Bool) : Ticks (.init started) := by
  cases started
  · exact .inl rfl
  · exact .inr rfl

theorem ticks_phase (h : Ticks l) : ∃ p : HandlePhase, l = p.life ∧ p.life.alive = true :=
  h.elim (fun h => ⟨.refused, h, rfl⟩) fun h => ⟨.opened, h, rfl⟩

end Flags

end LogTransfer.LoopHandle
