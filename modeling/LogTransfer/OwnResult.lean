import LogTransfer.CleanStart

/-!
# A session gets its own result

In runs where no session is aborted while it is in ANALYZING, the parser's
state follows the current session: payload in the pipeline and the ring, then
the built result, then one outstanding completion. `Own` says where in this
the parser is for each phase.
-/

set_option autoImplicit false

namespace LogTransfer
open Program Interleave

namespace ParserPc

/-- The upload flag was read as set. -/
def late : ParserPc → Bool
  | .checkEmpty => true
  | pc => pc.finishing

/-- From the published result to the completion wake-up. -/
def handing : ParserPc → Bool
  | .drain .finish | .resetState .finish | .checkResume .finish | .wakeResume .finish
  | .sendCompletion => true
  | _ => false

end ParserPc

theorem not_late_finishing {pc : ParserPc} (h : pc.late = false) : pc.finishing = false := by
  cases pc <;> first | exact h | rfl

variable [Doubles]

namespace ParserThread

variable {t t' : ParserThread}

theorem edge_finishing {pc : ParserPc} (h : t.Edge pc) (hf : t.pc.finishing = false) :
    pc.finishing = false := by
  cases h with
  | drained b hpc _ => cases b <;> simp_all [ParserPc.finishing]
  | toResume b hpc _ => cases b <;> simp_all [ParserPc.finishing]
  | noResume b hpc _ => cases b <;> simp_all [ParserPc.finishing, afterReset]
  | _ => rfl

theorem edge_late {pc : ParserPc} (h : t.Edge pc) (hu : t.uploadComplete = false)
    (hl : t.pc.late = false) : pc.late = false := by
  have hf := edge_finishing h (not_late_finishing hl)
  cases h with
  | complete hpc hc => simp [hu] at hc
  | noResume b hpc _ => cases b <;> exact hf
  | _ => exact hf

/-- Outside `finishSession` the parser touches neither the upload flag nor the
results. -/
theorem step_outside (h : t.Step t') (hf : t.pc.finishing = false) :
    t'.uploadComplete = t.uploadComplete ∧ t'.completionPending = t.completionPending ∧
      t'.result = t.result ∧ t'.outcome = t.outcome := by
  cases h with
  | flush hpc => simp [hpc, ParserPc.finishing] at hf
  | publish hpc => simp [hpc, ParserPc.finishing] at hf
  | sendCompletion hpc => simp [hpc, ParserPc.finishing] at hf
  | clearUpload hpc => simp [hpc, ParserPc.finishing] at hf
  | _ => exact ⟨rfl, rfl, rfl, rfl⟩

/-- The one way into `finishSession`. -/
theorem step_enters (h : t.Step t') (hf : t.pc.finishing = false)
    (hf' : t'.pc.finishing = true) : t.pc = .checkEmpty ∧ t.ring = [] ∧ t' = t.enterFinish := by
  cases h with
  | move pc he => simp [goto, edge_finishing he hf] at hf'
  | enter hpc hr => exact ⟨hpc, hr, rfl⟩
  | discard b hpc _ => simp [hf] at hf'
  | resetState b hpc => cases b <;> simp_all [ParserPc.finishing]
  | wakeResume b hpc => cases b <;> simp_all [ParserPc.finishing, afterReset]
  | _ => simp_all [ParserPc.finishing]

theorem step_unmarked (h : t.Step t') (hu : t.uploadComplete = false) (hl : t.pc.late = false) :
    t'.pc.late = false := by
  have hf := not_late_finishing hl
  cases h with
  | move pc he => exact edge_late he hu hl
  | enter hpc _ => simp [hpc, ParserPc.late] at hl
  | flush hpc => simp [hpc, ParserPc.finishing] at hf
  | writeFiles hpc => simp [hpc, ParserPc.finishing] at hf
  | publish hpc => simp [hpc, ParserPc.finishing] at hf
  | sendCompletion hpc => simp [hpc, ParserPc.finishing] at hf
  | discard b hpc _ => exact hl
  | resetState b hpc => cases b <;> simp_all [ParserPc.late, ParserPc.finishing]
  | wakeResume b hpc => cases b <;> simp_all [ParserPc.late, ParserPc.finishing, afterReset]
  | _ => rfl

end ParserThread

/-- No upload is marked and no completion is on its way. -/
def Unmarked (t : ParserThread) : Prop :=
  t.uploadComplete = false ∧ t.pc.late = false ∧ t.completionPending = false

/-- The parser is through with `finishSession`. -/
def Through (t : ParserThread) : Prop :=
  t.uploadComplete = true ∧ t.pc = .clearUpload ∨ t.uploadComplete = false ∧ t.pc.late = false

/-- The slots whose bytes the pipeline has not seen. -/
def unfed (t : ParserThread) : List Bytes := if t.pc = .release then t.ring.tail else t.ring

def Content (p : Bytes) (t : ParserThread) : Prop :=
  ∃ q, t.pipe = Pipeline.after q ∧ q ++ (unfed t).flatten = p

inductive Analysing (p : Bytes) (tk : Taking) (t : ParserThread) : Prop
  | feeding (hu : t.uploadComplete = true) (hf : t.pc.finishing = false) (hc : Content p t)
      (hp : t.completionPending = false) (ht : tk = .idle)
  | flushing (hu : t.uploadComplete = true) (hpc : t.pc = .flush)
      (hpipe : t.pipe = Pipeline.after p) (hp : t.completionPending = false) (ht : tk = .idle)
  | built (hu : t.uploadComplete = true) (hpc : t.pc = .writeFiles ∨ t.pc = .publish)
      (ho : t.outcome = analyze p) (hp : t.completionPending = false) (ht : tk = .idle)
  | published (hu : t.uploadComplete = true) (hpc : t.pc.handing = true)
      (hr : t.result = analyze p) (hp : t.completionPending = false) (ht : tk = .idle)
  | sent (hd : Through t) (ht : tk = .idle) (hp : t.completionPending = true)
      (hr : t.result = analyze p)
  | delivering (hd : Through t) (ht : tk = .started) (hp : t.completionPending = false)
      (hr : t.result = analyze p)
  | delivered (hd : Through t) (ht : tk = .took) (hp : t.completionPending = false)

def OwnPhase (tk : Taking) (t : ParserThread) : Phase → Prop
  | .vacant | .fresh => Unmarked t ∧ tk = .idle
  | .receiving p => Unmarked t ∧ tk = .idle ∧ Content p t
  | .analyzing p => Analysing p tk t
  | .answered _ => Through t ∧ t.completionPending = false ∧ tk ≠ .started
  | .aborted =>
    (t.pc = .clearUpload ∧ t.abortRequested = true ∨ Unmarked t) ∧ t.completionPending = false ∧
      tk ≠ .started

def Own (n : ℕ) (ph : Phase) (tk : Taking) (t : ParserThread) : Prop :=
  Clean n ph tk t ∧ OwnPhase tk t ph

section Steps

variable {n : ℕ} {tk : Taking} {p : Bytes} {t t' : ParserThread}

theorem unmarked_step (h : t.Step t') (hu : Unmarked t) : Unmarked t' := by
  obtain ⟨h1, h2, h3⟩ := hu
  obtain ⟨hu', hp', -⟩ := ParserThread.step_outside h (not_late_finishing h2)
  exact ⟨hu'.trans h1, ParserThread.step_unmarked h h1 h2, hp'.trans h3⟩

theorem edge_release {pc : ParserPc} (h : t.Edge pc) : pc ≠ .release ∧ t.pc ≠ .release := by
  cases h with
  | noResume b hpc _ => cases b <;> simp [hpc, ParserThread.afterReset]
  | _ => simp_all

/-- Feeding and releasing move bytes from the ring to the pipeline and lose
none. -/
theorem content_step {ph : Phase} (hcl : Clean n ph tk t) (hph : ph ≠ .aborted)
    (h : t.Step t') (hf : t.pc.finishing = false) (hf' : t'.pc.finishing = false)
    (hc : Content p t) : Content p t' := by
  obtain ⟨q, hq, hp⟩ := hc
  have hab : t.pc.aborting = false := by
    by_contra hne
    have := hcl.branch (by simpa using hne)
    exact hph (hcl.flag this)
  cases h with
  | move pc he =>
    obtain ⟨h1, h2⟩ := edge_release he
    refine ⟨q, hq, ?_⟩
    simpa [unfed, ParserThread.goto, h1, h2] using hp
  | feed hpc =>
    have hr := hcl.slot (by rw [hpc]; rfl)
    obtain ⟨x, xs, hx⟩ := List.exists_cons_of_ne_nil hr
    refine ⟨q ++ x, ?_, ?_⟩
    · simp only [hq, hx, List.headD_cons]
      exact Pipeline.feed_after q x
    · simpa [unfed, hpc, hx] using hp
  | release hpc =>
    refine ⟨q, hq, ?_⟩
    simpa [unfed, hpc] using hp
  | wakeReader hpc =>
    refine ⟨q, hq, ?_⟩
    simpa [unfed, hpc] using hp
  | enter hpc hr => simp [ParserThread.enterFinish, ParserPc.finishing] at hf'
  | discard b hpc _ => cases b <;> simp_all [ParserPc.finishing, ParserPc.aborting]
  | resetState b hpc => cases b <;> simp_all [ParserPc.finishing, ParserPc.aborting]
  | wakeResume b hpc => cases b <;> simp_all [ParserPc.finishing, ParserPc.aborting]
  | clearAbort hpc => simp [hpc, ParserPc.aborting] at hab
  | sendAbortDone hpc =>
    refine ⟨q, hq, ?_⟩
    simpa [unfed, hpc] using hp
  | _ => simp_all [ParserPc.finishing]

theorem clearUpload_step (hs : t.parserStep = some t') (hpc : t.pc = .clearUpload) :
    t' = { t with uploadComplete := false, pc := .wait } := by
  unfold ParserThread.parserStep at hs
  rw [hpc] at hs
  cases hs
  rfl

theorem through_step (hs : t.parserStep = some t') (hd : Through t) :
    Through t' ∧ t'.completionPending = t.completionPending ∧ t'.result = t.result := by
  rcases hd with ⟨-, hpc⟩ | ⟨hu, hl⟩
  · rw [clearUpload_step hs hpc]
    exact ⟨.inr ⟨rfl, rfl⟩, rfl, rfl⟩
  · have h := ParserThread.step_of_parserStep hs
    obtain ⟨hu', hp', hr', -⟩ := ParserThread.step_outside h (not_late_finishing hl)
    exact ⟨.inr ⟨hu'.trans hu, ParserThread.step_unmarked h hu hl⟩, hp', hr'⟩

theorem handing_step (hs : t.parserStep = some t') (hpc : t.pc.handing = true) :
    (t'.pc.handing = true ∧ t'.uploadComplete = t.uploadComplete ∧
        t'.completionPending = t.completionPending ∨
      t'.pc = .clearUpload ∧ t'.uploadComplete = t.uploadComplete ∧
        t'.completionPending = true) ∧ t'.result = t.result := by
  cases ParserThread.step_of_parserStep hs with
  | move pc he =>
    refine ⟨.inl ⟨?_, rfl, rfl⟩, rfl⟩
    cases he with
    | drained b h _ => cases b <;> simp_all [ParserPc.handing, ParserThread.goto]
    | toResume b h _ => cases b <;> simp_all [ParserPc.handing, ParserThread.goto]
    | noResume b h _ =>
      cases b <;> simp_all [ParserPc.handing, ParserThread.goto, ParserThread.afterReset]
    | _ => simp_all [ParserPc.handing]
  | discard b h _ => exact ⟨.inl ⟨hpc, rfl, rfl⟩, rfl⟩
  | resetState b h => cases b <;> simp_all [ParserPc.handing]
  | wakeResume b h => cases b <;> simp_all [ParserPc.handing, ParserThread.afterReset]
  | sendCompletion h => exact ⟨.inr ⟨rfl, rfl, rfl⟩, rfl⟩
  | _ => simp_all [ParserPc.handing]

/-- One step inside the analysis of `p`. -/
theorem analysing_step (hcl : Clean n (.analyzing p) tk t) (hs : t.parserStep = some t')
    (h : Analysing p tk t) : Analysing p tk t' := by
  have hst := ParserThread.step_of_parserStep hs
  cases h with
  | feeding hu hf hc hp ht =>
    obtain ⟨hu', hp', -, -⟩ := ParserThread.step_outside hst hf
    by_cases hf' : t'.pc.finishing = false
    · exact .feeding (hu'.trans hu) hf' (content_step hcl nofun hst hf hf' hc) (hp'.trans hp) ht
    · obtain ⟨hpc, hr, rfl⟩ := ParserThread.step_enters hst hf (by simpa using hf')
      obtain ⟨q, hq, hqp⟩ := hc
      have hqp' : q = p := by simpa [unfed, hpc, hr] using hqp
      exact .flushing hu rfl (by rw [← hqp']; exact hq) hp ht
  | flushing hu hpc hpipe hp ht =>
    unfold ParserThread.parserStep at hs
    rw [hpc] at hs
    cases hs
    exact .built hu (.inl rfl) (by simp only [hpipe]; rfl) hp ht
  | built hu hpc ho hp ht =>
    unfold ParserThread.parserStep at hs
    rcases hpc with hpc | hpc
    · rw [hpc] at hs
      cases hs
      exact .built hu (.inr rfl) ho hp ht
    · rw [hpc] at hs
      cases hs
      exact .published hu rfl ho hp ht
  | published hu hpc hr hp ht =>
    obtain ⟨⟨h1, h2, h3⟩ | ⟨h1, h2, h3⟩, h4⟩ := handing_step hs hpc
    · exact .published (h2.trans hu) h1 (h4.trans hr) (h3.trans hp) ht
    · exact .sent (.inl ⟨h2.trans hu, h1⟩) ht h3 (h4.trans hr)
  | sent hd ht hp hr =>
    obtain ⟨hd', hp', hr'⟩ := through_step hs hd
    exact .sent hd' ht (hp'.trans hp) (hr'.trans hr)
  | delivering hd ht hp hr =>
    obtain ⟨hd', hp', hr'⟩ := through_step hs hd
    exact .delivering hd' ht (hp'.trans hp) (hr'.trans hr)
  | delivered hd ht hp =>
    obtain ⟨hd', hp', -⟩ := through_step hs hd
    exact .delivered hd' ht (hp'.trans hp)

theorem own_step {ph : Phase} (h : Own n ph tk t) (hs : t.parserStep = some t') :
    Own n ph tk t' := by
  obtain ⟨hcl, ho⟩ := h
  have hst := ParserThread.step_of_parserStep hs
  refine ⟨clean_step hcl hs, ?_⟩
  cases ph with
  | vacant => exact ⟨unmarked_step hst ho.1, ho.2⟩
  | fresh => exact ⟨unmarked_step hst ho.1, ho.2⟩
  | receiving p =>
    obtain ⟨hu, ht, hc⟩ := ho
    have hu' := unmarked_step hst hu
    exact ⟨hu', ht, content_step hcl nofun hst (not_late_finishing hu.2.1)
      (not_late_finishing hu'.2.1) hc⟩
  | analyzing p => exact analysing_step hcl hs ho
  | answered p =>
    obtain ⟨hd, hp, ht⟩ := ho
    obtain ⟨hd', hp', -⟩ := through_step hs hd
    exact ⟨hd', hp'.trans hp, ht⟩
  | aborted =>
    obtain ⟨⟨hpc, -⟩ | hu, hp, ht⟩ := ho
    · rw [clearUpload_step hs hpc]
      exact ⟨.inr ⟨rfl, rfl, hp⟩, hp, ht⟩
    · have hu' := unmarked_step hst hu
      exact ⟨.inr hu', hu'.2.2, ht⟩

end Steps

/-- No session is aborted while it waits for its analysis. -/
def NotAnalyzing (ph : Phase) (_ : ParserThread) : Prop := ∀ p, ph ≠ .analyzing p

def OwnAnalysis (p : Bytes) (r : AnalysisResult) : Prop := r = analyze p

section Operations

variable {n : ℕ} {ph : Phase} {tk : Taking} {t : ParserThread}

/-- The flags which only wake the loop thread play no part. -/
theorem own_flags (r a b : Bool) (h : OwnPhase tk t ph) :
    OwnPhase tk { t with resumePending := r, abortDonePending := a, readStopped := b } ph := by
  cases ph with
  | analyzing p =>
    cases h with
    | feeding hu hf hc hp ht => exact .feeding hu hf hc hp ht
    | flushing hu hpc hpipe hp ht => exact .flushing hu hpc hpipe hp ht
    | built hu hpc ho hp ht => exact .built hu hpc ho hp ht
    | published hu hpc hr hp ht => exact .published hu hpc hr hp ht
    | sent hd ht hp hr => exact .sent hd ht hp hr
    | delivering hd ht hp hr => exact .delivering hd ht hp hr
    | delivered hd ht hp => exact .delivered hd ht hp
  | _ => exact h

theorem own_idle (h : OwnPhase tk t ph) (hq : tk ≠ .idle → ∀ p, ph ≠ .analyzing p) :
    OwnPhase .idle t ph := by
  cases ph with
  | vacant => exact ⟨h.1, rfl⟩
  | fresh => exact ⟨h.1, rfl⟩
  | receiving p => exact ⟨h.1, rfl, h.2.2⟩
  | analyzing p =>
    by_cases ht : tk = .idle
    · rwa [ht] at h
    · exact absurd rfl (hq ht p)
  | answered p => exact ⟨h.1, h.2.1, nofun⟩
  | aborted => exact ⟨h.1, h.2.1, nofun⟩

theorem own_pending (h : OwnPhase tk t ph) (hp : t.completionPending = true) :
    ∃ p, ph = .analyzing p ∧ Through t ∧ t.result = analyze p := by
  cases ph with
  | vacant => simp [h.1.2.2] at hp
  | fresh => simp [h.1.2.2] at hp
  | receiving p => simp [h.1.2.2] at hp
  | answered p => simp [h.2.1] at hp
  | aborted => simp [h.2.1] at hp
  | analyzing p =>
    cases h with
    | sent hd ht hp' hr => exact ⟨p, rfl, hd, hr⟩
    | feeding hu hf hc hp' ht => simp [hp'] at hp
    | flushing hu hpc hpipe hp' ht => simp [hp'] at hp
    | built hu hpc ho hp' ht => simp [hp'] at hp
    | published hu hpc hr hp' ht => simp [hp'] at hp
    | delivering hd ht hp' hr => simp [hp'] at hp
    | delivered hd ht hp' => simp [hp'] at hp

theorem own_started (h : OwnPhase .started t ph) :
    ∃ p, ph = .analyzing p ∧ Through t ∧ t.completionPending = false ∧ t.result = analyze p := by
  cases ph with
  | vacant => exact absurd h.2 nofun
  | fresh => exact absurd h.2 nofun
  | receiving p => exact absurd h.2.1 nofun
  | answered p => exact absurd rfl h.2.2
  | aborted => exact absurd rfl h.2.2
  | analyzing p =>
    cases h with
    | delivering hd ht hp hr => exact ⟨p, rfl, hd, hp, hr⟩
    | _ => contradiction

theorem content_nil (hr : t.ring = []) (hp : t.pipe = Pipeline.reset) : Content [] t := by
  refine ⟨[], hp.trans Pipeline.after_nil.symm, ?_⟩
  unfold unfed
  split <;> simp [hr]

theorem content_commit {p : Bytes} (d : Bytes) (hcl : Clean n ph tk t) (h : Content p t) :
    Content (p ++ d) (t.commitSlot d) := by
  obtain ⟨q, hq, hp⟩ := h
  refine ⟨q, hq, ?_⟩
  by_cases hpc : t.pc = .release
  · have hr := hcl.slot (by rw [hpc]; rfl)
    simp only [unfed, hpc, if_true] at hp
    simp [unfed, ParserThread.commitSlot, hpc, List.tail_append_of_ne_nil hr, ← hp]
  · simp only [unfed, hpc, if_false] at hp
    simp [unfed, ParserThread.commitSlot, hpc, ← hp]

theorem own_upholds : Upholds OwnAnalysis NotAnalyzing Own where
  deliver := fun n ph tk t r a h hq =>
    ⟨clean_upholds.deliver n ph tk t r a h.1 hq, own_flags r a t.readStopped (own_idle h.2 hq)⟩
  complete := by
    intro n ph tk t h hq hp
    refine ⟨clean_upholds.complete n ph tk t h.1 hq hp, ?_⟩
    obtain ⟨p, rfl, hd, hr⟩ := own_pending h.2 hp
    exact .delivering hd rfl rfl hr
  seenIdle := by
    intro n t h ha
    refine ⟨clean_upholds.seenIdle n t h.1 ha, ?_, rfl⟩
    obtain ⟨⟨-, hab⟩ | hu, -⟩ := h.2
    · simp [ha] at hab
    · exact hu
  construct := fun n tk t h => ⟨clean_upholds.construct n tk t h.1, h.2⟩
  beginSession := by
    intro n tk t h
    obtain ⟨hr, hp⟩ := h.1.clean (.inr (.inl rfl))
    exact ⟨clean_upholds.beginSession n tk t h.1, ⟨rfl, h.2.1.2⟩, h.2.2, content_nil hr hp⟩
  commit := fun n p d tk t h =>
    ⟨clean_upholds.commit n p d tk t h.1, h.2.1, h.2.2.1, content_commit d h.1 h.2.2.2⟩
  mark := by
    intro n p tk t h
    obtain ⟨hcl, ⟨-, hl, hp⟩, ht, hc⟩ := h
    exact ⟨clean_upholds.mark n p tk t hcl, .feeding rfl (not_late_finishing hl) hc hp ht⟩
  abort := by
    intro n ph tk t h hl hn
    refine ⟨clean_upholds.abort n ph tk t h.1 hl trivial, ?_⟩
    have ho := h.2
    cases ph with
    | vacant => exact absurd rfl hl.1
    | aborted => exact absurd rfl hl.2
    | fresh => exact ⟨.inr ho.1, ho.1.2.2, by simp [ho.2]⟩
    | receiving p => exact ⟨.inr ho.1, ho.1.2.2, by simp [ho.2.1]⟩
    | analyzing p => exact absurd rfl (hn p)
    | answered p =>
      obtain ⟨⟨-, hpc⟩ | ⟨hu, hl⟩, hp, ht⟩ := ho
      · exact ⟨.inl ⟨hpc, rfl⟩, hp, ht⟩
      · exact ⟨.inr ⟨hu, hl, hp⟩, hp, ht⟩
  take := by
    intro n ph t h
    obtain ⟨p, rfl, hd, hp, hr⟩ := own_started h.2
    refine ⟨?_, (clean_upholds.take n _ t h.1).2, .delivered hd rfl hp⟩
    rintro _ ⟨⟩
    exact hr
  pass := by
    intro n p t h
    refine ⟨clean_upholds.pass n p t h.1, ?_⟩
    cases h.2 with
    | delivered hd ht hp => exact ⟨hd, hp, nofun⟩
    | _ => contradiction
  readStopped := fun n ph tk t b h =>
    ⟨clean_upholds.readStopped n ph tk t b h.1,
      own_flags t.resumePending t.abortDonePending b h.2⟩
  step := fun _ _ _ _ _ h hs => own_step h hs

theorem own_initial : Own 0 .vacant .idle ParserThread.initial :=
  ⟨clean_initial, ⟨rfl, rfl, rfl⟩, rfl⟩

end Operations

section Schedules

/-- A session whose upload of one line is analysed and delivered. -/
def delivery : List (Act Event Peer) :=
  callback .connection 5 ++ arrival (uploadBytes (bytesOf "a") (bytesOf "x")) ++
    callback (.readable 65536) 6 ++ parserSteps 17 ++ callback .completion 1

end Schedules

end LogTransfer
