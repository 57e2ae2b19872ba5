import LogTransfer.ServerInvariant

/-!
# Clean start

The invariant of the abort branch, valid in every run: the flag is raised only
for an aborted session, the parser lowers it only after it emptied the ring and
reset the pipeline, and nothing is committed in between.
-/

set_option autoImplicit false

namespace LogTransfer
open Program Interleave

namespace ParserPc

/-- In the abort branch, before the flag is lowered. -/
def aborting : ParserPc → Bool
  | .drain .abort | .resetState .abort | .checkResume .abort | .wakeResume .abort
  | .clearAbort => true
  | _ => false

def drained : ParserPc → Bool
  | .resetState .abort | .checkResume .abort | .wakeResume .abort | .clearAbort => true
  | _ => false

def wiped : ParserPc → Bool
  | .checkResume .abort | .wakeResume .abort | .clearAbort => true
  | _ => false

def holdsSlot : ParserPc → Bool
  | .checkAbortSlot | .feed | .release => true
  | _ => false

end ParserPc

variable [Doubles]

structure Clean (_ : ℕ) (ph : Phase) (_ : Taking) (t : ParserThread) : Prop where
  flag : t.abortRequested = true → ph = .aborted
  branch : t.pc.aborting = true → t.abortRequested = true
  drained : t.pc.drained = true → t.ring = []
  wiped : t.pc.wiped = true → t.pipe = Pipeline.reset
  clean : ph = .vacant ∨ ph = .fresh ∨ ph = .aborted ∧ t.abortRequested = false →
    t.ring = [] ∧ t.pipe = Pipeline.reset
  slot : t.pc.holdsSlot = true → t.ring ≠ []
  sealed : t.result.Sealed ∧ t.outcome.Sealed

section Steps

variable {n : ℕ} {ph : Phase} {tk : Taking} {t : ParserThread}

theorem clean_goto (h : Clean n ph tk t) (pc : ParserPc)
    (hb : pc.aborting = true → t.abortRequested = true) (hd : pc.drained = true → t.ring = [])
    (hw : pc.wiped = true → t.pipe = Pipeline.reset) (hs : pc.holdsSlot = true → t.ring ≠ []) :
    Clean n ph tk (t.goto pc) :=
  ⟨h.flag, hb, hd, hw, h.clean, hs, h.sealed⟩

theorem clean_edge (h : Clean n ph tk t) {pc : ParserPc} (he : t.Edge pc) :
    Clean n ph tk (t.goto pc) := by
  have hslot := h.slot
  have hdrained := h.drained
  have hwiped := h.wiped
  have hbranch := h.branch
  cases he with
  | toAbort hpc ha => exact clean_goto h _ (fun _ => ha) nofun nofun nofun
  | gotSlot hpc hr => exact clean_goto h _ nofun nofun nofun (fun _ => hr)
  | takeSlot hpc ha =>
    rw [hpc] at hslot
    exact clean_goto h _ nofun nofun nofun hslot
  | drained b hpc hr =>
    rw [hpc] at hbranch
    cases b with
    | abort => exact clean_goto h _ hbranch (fun _ => hr) nofun nofun
    | finish => exact clean_goto h _ nofun nofun nofun nofun
  | toResume b hpc hr =>
    rw [hpc] at hbranch hdrained hwiped
    cases b with
    | abort => exact clean_goto h _ hbranch hdrained hwiped nofun
    | finish => exact clean_goto h _ nofun nofun nofun nofun
  | noResume b hpc hr =>
    rw [hpc] at hbranch hdrained hwiped
    cases b with
    | abort => exact clean_goto h _ hbranch hdrained hwiped nofun
    | finish => exact clean_goto h _ nofun nofun nofun nofun
  | _ => exact clean_goto h _ nofun nofun nofun nofun

theorem finish_reset : Pipeline.reset.finish = Pipeline.reset := rfl

/-- A parser inside the slot loop has a slot, so a clean thread is not there. -/
theorem clean_not_slot (h : Clean n ph tk t) (hs : t.pc.holdsSlot = true)
    (hc : ph = .vacant ∨ ph = .fresh ∨ ph = .aborted ∧ t.abortRequested = false) : False :=
  h.slot hs (h.clean hc).1

theorem clean_step {t' : ParserThread} (h : Clean n ph tk t) (hs : t.parserStep = some t') :
    Clean n ph tk t' := by
  have hslot := h.slot
  have hdrained := h.drained
  have hwiped := h.wiped
  have hbranch := h.branch
  cases ParserThread.step_of_parserStep hs with
  | move pc he => exact clean_edge h he
  | feed hpc =>
    refine ⟨h.flag, nofun, nofun, nofun, fun hc => ?_, fun _ => h.slot (by rw [hpc]; rfl),
      h.sealed⟩
    exact (clean_not_slot h (by rw [hpc]; rfl) hc).elim
  | release hpc =>
    refine ⟨h.flag, nofun, nofun, nofun, fun hc => ?_, nofun, h.sealed⟩
    exact (clean_not_slot h (by rw [hpc]; rfl) hc).elim
  | flush hpc =>
    refine ⟨h.flag, nofun, nofun, nofun, fun hc => ?_, nofun, h.sealed.1,
      Pipeline.result_sealed _⟩
    obtain ⟨hr, hp⟩ := h.clean hc
    exact ⟨hr, by rw [hp, finish_reset]⟩
  | publish hpc =>
    exact ⟨h.flag, nofun, nofun, nofun, h.clean, nofun, h.sealed.2, h.sealed.2⟩
  | discard b hpc hr =>
    rw [hpc] at hbranch
    refine ⟨h.flag, by rw [hpc]; exact hbranch, ?_, ?_, fun hc => ?_, ?_, h.sealed⟩
    · cases b <;> simp [hpc, ParserPc.drained]
    · cases b <;> simp [hpc, ParserPc.wiped]
    · exact absurd (h.clean hc).1 hr
    · cases b <;> simp [hpc, ParserPc.holdsSlot]
  | resetState b hpc =>
    rw [hpc] at hbranch hdrained
    refine ⟨h.flag, ?_, ?_, fun _ => rfl, fun hc => ⟨(h.clean hc).1, rfl⟩, ?_, h.sealed⟩
    · cases b with
      | abort => exact hbranch
      | finish => nofun
    · cases b with
      | abort => exact hdrained
      | finish => nofun
    · cases b <;> nofun
  | wakeResume b hpc =>
    rw [hpc] at hbranch hdrained hwiped
    cases b with
    | abort => exact ⟨h.flag, hbranch, hdrained, hwiped, h.clean, nofun, h.sealed⟩
    | finish => exact ⟨h.flag, nofun, nofun, nofun, h.clean, nofun, h.sealed⟩
  | clearAbort hpc =>
    rw [hpc] at hdrained hwiped
    refine ⟨nofun, nofun, nofun, nofun, fun _ => ⟨hdrained rfl, hwiped rfl⟩, nofun, h.sealed⟩
  | _ => exact ⟨h.flag, nofun, nofun, nofun, h.clean, nofun, h.sealed⟩

end Steps

/-- Nothing is asked of the run. -/
def AnyTime (_ : Phase) (_ : ParserThread) : Prop := True

def SealedOnly (_ : Bytes) (r : AnalysisResult) : Prop := r.Sealed

section Operations

variable {n : ℕ} {ph : Phase} {tk : Taking} {t : ParserThread}

omit [Doubles] in
theorem drained_aborting {pc : ParserPc} (h : pc.drained = true) : pc.aborting = true := by
  cases pc with
  | resetState b => cases b <;> simp_all [ParserPc.drained, ParserPc.aborting]
  | checkResume b => cases b <;> simp_all [ParserPc.drained, ParserPc.aborting]
  | wakeResume b => cases b <;> simp_all [ParserPc.drained, ParserPc.aborting]
  | clearAbort => rfl
  | _ => simp [ParserPc.drained] at h

theorem clean_calm (h : Clean n ph tk t) (hp : ph ≠ .aborted) :
    t.abortRequested = false ∧ t.pc.drained = false := by
  have ha : t.abortRequested = false := by
    by_contra hne
    exact hp (h.flag (by simpa using hne))
  refine ⟨ha, ?_⟩
  by_contra hne
  have := h.branch (drained_aborting (by simpa using hne))
  simp [ha] at this

/-- Changes the parser does not look at while it discards. -/
theorem clean_same {n' : ℕ} {ph' : Phase} {tk' : Taking} {t' : ParserThread}
    (h : Clean n ph tk t) (hflag : t.abortRequested = true → ph' = .aborted)
    (hclean : ph' = .vacant ∨ ph' = .fresh ∨ ph' = .aborted ∧ t.abortRequested = false →
      t.ring = [] ∧ t.pipe = Pipeline.reset)
    (ha : t'.abortRequested = t.abortRequested) (hpc : t'.pc = t.pc) (hr : t'.ring = t.ring)
    (hp : t'.pipe = t.pipe) (hs : t'.result.Sealed) (ho : t'.outcome = t.outcome) :
    Clean n' ph' tk' t' := by
  refine ⟨by rwa [ha], ?_, ?_, ?_, ?_, ?_, hs, ?_⟩
  · rw [hpc, ha]
    exact h.branch
  · rw [hpc, hr]
    exact h.drained
  · rw [hpc, hp]
    exact h.wiped
  · rw [ha, hr, hp]
    exact hclean
  · rw [hpc, hr]
    exact h.slot
  · rw [ho]
    exact h.sealed.2

theorem clean_upholds : Upholds SealedOnly AnyTime Clean where
  deliver := fun n ph tk t r a h _ =>
    clean_same h h.flag h.clean rfl rfl rfl rfl h.sealed.1 rfl
  complete := fun n ph tk t h _ _ =>
    clean_same h h.flag h.clean rfl rfl rfl rfl h.sealed.1 rfl
  seenIdle := fun n t h ha =>
    clean_same h (by simp [ha]) (fun _ => h.clean (.inr (.inr ⟨rfl, ha⟩))) rfl rfl rfl rfl
      h.sealed.1 rfl
  construct := fun n tk t h =>
    clean_same h (by simp [(clean_calm h nofun).1]) (fun _ => h.clean (.inl rfl)) rfl rfl rfl rfl
      h.sealed.1 rfl
  beginSession := fun n tk t h =>
    clean_same h (by simp [(clean_calm h nofun).1]) (by simp) rfl rfl rfl rfl h.sealed.1 rfl
  commit := by
    intro n p d tk t h
    obtain ⟨ha, hd⟩ := clean_calm h nofun
    refine ⟨by simp [ParserThread.commitSlot, ha], h.branch, ?_, h.wiped, by simp, ?_, h.sealed⟩
    · simp [ParserThread.commitSlot, hd]
    · simp [ParserThread.commitSlot]
  mark := fun n p tk t h =>
    clean_same h (by simp [(clean_calm h nofun).1]) (by simp) rfl rfl rfl rfl h.sealed.1 rfl
  abort := by
    intro n ph tk t h hl _
    exact ⟨fun _ => rfl, fun _ => rfl, h.drained, h.wiped, by simp [ParserThread.abortSession],
      h.slot, h.sealed⟩
  take := by
    intro n ph t h
    refine ⟨fun p _ => h.sealed.1, ?_⟩
    exact clean_same h h.flag h.clean rfl rfl rfl rfl AnalysisResult.sealed_blank rfl
  pass := fun n p t h =>
    clean_same h (by simp [(clean_calm h nofun).1]) (by simp) rfl rfl rfl rfl h.sealed.1 rfl
  readStopped := fun n ph tk t b h =>
    clean_same h h.flag h.clean rfl rfl rfl rfl h.sealed.1 rfl
  step := fun _ _ _ _ _ h hs => clean_step h hs

theorem clean_initial : Clean 0 .vacant .idle ParserThread.initial :=
  ⟨nofun, nofun, nofun, nofun, fun _ => ⟨rfl, rfl⟩, nofun,
    AnalysisResult.sealed_blank, AnalysisResult.sealed_blank⟩

end Operations

section Runs

variable {cfg : ServerConfig} {c c' : ServerState}

theorem clean_reach (h : Reach (machine cfg) Always serverInitial c) :
    Held (machine cfg) (rules SealedOnly) (Joint SealedOnly Clean) (Idle cfg) c := by
  refine upholds_reach clean_upholds clean_initial (reach_mono (machine cfg) ?_ h)
  intro c a _
  refine allowed_onOps (fun op _ => ?_) a
  cases op <;> trivial

end Runs

end LogTransfer
