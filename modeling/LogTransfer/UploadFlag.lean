import LogTransfer.OwnResult

/-!
# The upload flag

Both threads write the flag: the loop thread raises it for a session, the
parser lowers it after `finishSession`. If no session is aborted between the
two, the flag is the current session's or the parser is already past the point
of reading it. An aborted upload then stays unanalysed and a session in
ANALYZING is always owed a completion.
-/

set_option autoImplicit false

namespace LogTransfer
open Program Interleave

variable [Doubles]

/-- A raised flag has been noticed: the parser is in `finishSession`. -/
def Noticed (_ : Phase) (t : ParserThread) : Prop :=
  t.uploadComplete = true → t.pc.finishing = true

structure Flagged (n : ℕ) (ph : Phase) (tk : Taking) (t : ParserThread) : Prop where
  late : t.pc.late = true → t.uploadComplete = true
  whose : t.uploadComplete = true → (∃ p, ph = .analyzing p ∨ ph = .answered p) ∨
    ph = .aborted ∧ t.pc.finishing = true ∧ t.abortRequested = true
  owner : t.uploadComplete = true → ∀ p, ph = .analyzing p → t.log.owner = n
  finishFor : t.pc.finishing = true → t.log.finishFor = t.log.owner ∧ t.log.entered = true
  owed : ∀ p, ph = .analyzing p → t.uploadComplete = true ∨
    t.completionPending = true ∧ t.log.completionFor = n ∨ tk ≠ .idle
  last : t.pc = .clearUpload → ∀ p, ph = .analyzing p →
    t.completionPending = true ∧ t.log.completionFor = n ∨ tk ≠ .idle

section Steps

variable {n : ℕ} {ph : Phase} {tk : Taking} {t t' : ParserThread}

omit [Doubles] in
theorem finishing_late {pc : ParserPc} (h : pc.finishing = true) : pc.late = true := by
  by_contra hl
  simp [not_late_finishing (by simpa using hl)] at h

theorem edge_stays {pc : ParserPc} (h : t.Edge pc) (hf : t.pc.finishing = true) :
    pc.finishing = true := by
  cases h with
  | drained b hpc _ => cases b <;> simp_all [ParserPc.finishing]
  | toResume b hpc _ => cases b <;> simp_all [ParserPc.finishing]
  | noResume b hpc _ => cases b <;> simp_all [ParserPc.finishing, ParserThread.afterReset]
  | _ => simp_all [ParserPc.finishing]

theorem edge_not_clear {pc : ParserPc} (h : t.Edge pc) : pc ≠ .clearUpload := by
  cases h with
  | noResume b hpc _ => cases b <;> simp [ParserThread.afterReset]
  | _ => simp

theorem flagged_edge {pc : ParserPc} (h : Flagged n ph tk t) (he : t.Edge pc) :
    Flagged n ph tk (t.goto pc) := by
  refine ⟨fun hl => ?_, fun hu => ?_, h.owner, fun hf => ?_, h.owed, fun hpc => ?_⟩
  · by_contra hu
    have hu' : t.uploadComplete = false := by simpa [ParserThread.goto] using hu
    have hlate : t.pc.late = false := by
      by_contra hne
      simp [h.late (by simpa using hne)] at hu'
    simp [ParserThread.goto, ParserThread.edge_late he hu' hlate] at hl
  · rcases h.whose hu with hp | ⟨ha, hf, hab⟩
    · exact .inl hp
    · exact .inr ⟨ha, edge_stays he hf, hab⟩
  · refine h.finishFor ?_
    by_contra hne
    simp [ParserThread.goto, ParserThread.edge_finishing he (by simpa using hne)] at hf
  · exact absurd hpc (edge_not_clear he)

/-- Steps outside `finishSession` that stay outside. -/
theorem flagged_outside (h : Flagged n ph tk t) (hf : t.pc.finishing = false)
    (hl : t'.pc.late = false) (hu : t'.uploadComplete = t.uploadComplete)
    (hp : t'.completionPending = t.completionPending) (hlog : t'.log = t.log) :
    Flagged n ph tk t' := by
  refine ⟨by simp [hl], fun hup => ?_, ?_, ?_, ?_, ?_⟩
  · rcases h.whose (hu ▸ hup) with hw | ⟨-, hfin, -⟩
    · exact .inl hw
    · simp [hf] at hfin
  · rw [hu, hlog]
    exact h.owner
  · simp [not_late_finishing hl]
  · rw [hu, hp, hlog]
    exact h.owed
  · intro hpc
    simp [hpc, ParserPc.late, ParserPc.finishing] at hl

/-- Steps inside `finishSession` before the completion. -/
theorem flagged_inside (h : Flagged n ph tk t) (hf : t.pc.finishing = true)
    (hf' : t'.pc.finishing = true) (hne : t'.pc ≠ .clearUpload)
    (hu : t'.uploadComplete = t.uploadComplete) (ha : t'.abortRequested = t.abortRequested)
    (hp : t'.completionPending = t.completionPending) (ho : t'.log.owner = t.log.owner)
    (hff : t'.log.finishFor = t.log.finishFor) (hen : t'.log.entered = t.log.entered)
    (hcf : t'.log.completionFor = t.log.completionFor) : Flagged n ph tk t' := by
  have hup := h.late (finishing_late hf)
  refine ⟨fun _ => hu.trans hup, fun _ => ?_, ?_, fun _ => ?_, ?_, fun hpc => absurd hpc hne⟩
  · rcases h.whose hup with hw | ⟨hw, -, hab⟩
    · exact .inl hw
    · exact .inr ⟨hw, hf', ha.trans hab⟩
  · rw [hu, ho]
    exact h.owner
  · rw [hff, ho, hen]
    exact h.finishFor hf
  · rw [hu, hp, hcf]
    exact h.owed

theorem flagged_step (h : Flagged n ph tk t) (hs : t.parserStep = some t') :
    Flagged n ph tk t' := by
  cases ParserThread.step_of_parserStep hs with
  | move pc he => exact flagged_edge h he
  | feed hpc => exact flagged_outside h (by rw [hpc]; rfl) rfl rfl rfl rfl
  | release hpc => exact flagged_outside h (by rw [hpc]; rfl) rfl rfl rfl rfl
  | wakeReader hpc => exact flagged_outside h (by rw [hpc]; rfl) rfl rfl rfl rfl
  | sendAbortDone hpc => exact flagged_outside h (by rw [hpc]; rfl) rfl rfl rfl rfl
  | clearAbort hpc => exact flagged_outside h (by rw [hpc]; rfl) rfl rfl rfl rfl
  | enter hpc hr =>
    have hup := h.late (by rw [hpc]; rfl)
    refine ⟨fun _ => hup, fun _ => ?_, h.owner, fun _ => ⟨rfl, rfl⟩, h.owed,
      by simp [ParserThread.enterFinish]⟩
    rcases h.whose hup with hw | ⟨-, hf, -⟩
    · exact .inl hw
    · simp [hpc, ParserPc.finishing] at hf
  | flush hpc =>
    exact flagged_inside h (by rw [hpc]; rfl) rfl (by simp) rfl rfl rfl rfl rfl rfl rfl
  | writeFiles hpc =>
    exact flagged_inside h (by rw [hpc]; rfl) rfl (by simp) rfl rfl rfl rfl rfl rfl rfl
  | publish hpc =>
    exact flagged_inside h (by rw [hpc]; rfl) rfl (by simp) rfl rfl rfl rfl rfl rfl rfl
  | discard b hpc hr =>
    cases b with
    | abort => exact flagged_outside h (by rw [hpc]; rfl) (by rw [hpc]; rfl) rfl rfl rfl
    | finish =>
      exact flagged_inside h (by rw [hpc]; rfl) (by rw [hpc]; rfl) (by simp [hpc]) rfl rfl
        rfl rfl rfl rfl rfl
  | resetState b hpc =>
    cases b with
    | abort => exact flagged_outside h (by rw [hpc]; rfl) rfl rfl rfl rfl
    | finish =>
      exact flagged_inside h (by rw [hpc]; rfl) rfl (by simp) rfl rfl rfl rfl rfl rfl rfl
  | wakeResume b hpc =>
    cases b with
    | abort => exact flagged_outside h (by rw [hpc]; rfl) rfl rfl rfl rfl
    | finish =>
      exact flagged_inside h (by rw [hpc]; rfl) rfl (by simp [ParserThread.afterReset]) rfl rfl
        rfl rfl rfl rfl rfl
  | sendCompletion hpc =>
    have hf : t.pc.finishing = true := by rw [hpc]; rfl
    have hup := h.late (finishing_late hf)
    refine ⟨fun _ => hup, fun _ => ?_, h.owner, fun _ => h.finishFor hf, fun p hp => .inl hup,
      fun _ p hp => .inl ⟨rfl, ?_⟩⟩
    · rcases h.whose hup with hw | ⟨hw, -, hab⟩
      · exact .inl hw
      · exact .inr ⟨hw, rfl, hab⟩
    · exact (h.finishFor hf).1.trans (h.owner hup p hp)
  | clearUpload hpc =>
    exact ⟨by simp [ParserPc.late, ParserPc.finishing], by simp, by simp,
      by simp [ParserPc.finishing], fun p hp => .inr (h.last hpc p hp), by simp⟩

end Steps

section Operations

variable {n : ℕ} {ph : Phase} {tk : Taking} {t : ParserThread}

theorem flagged_unmarked (h : Flagged n ph tk t) (hp : ∀ p, ph ≠ .analyzing p ∧ ph ≠ .answered p)
    (ha : ph = .aborted → t.abortRequested = false) :
    t.uploadComplete = false ∧ t.pc.late = false := by
  have hu : t.uploadComplete = false := by
    by_contra hne
    rcases h.whose (by simpa using hne) with ⟨p, hw | hw⟩ | ⟨hw, -, hab⟩
    · exact (hp p).1 hw
    · exact (hp p).2 hw
    · simp [ha hw] at hab
  refine ⟨hu, ?_⟩
  by_contra hne
  simp [h.late (by simpa using hne)] at hu

theorem flagged_lowered {n' : ℕ} {ph' : Phase} {tk' : Taking} {t' : ParserThread}
    (hu : t'.uploadComplete = false) (hl : t'.pc.late = false) (hp : ∀ p, ph' ≠ .analyzing p) :
    Flagged n' ph' tk' t' :=
  ⟨by simp [hl], by simp [hu], by simp [hu], by simp [not_late_finishing hl],
    fun p h => absurd h (hp p), fun _ p h => absurd h (hp p)⟩

/-- Nothing is asked about the result. -/
def AnyResult (_ : Bytes) (_ : AnalysisResult) : Prop := True

theorem flagged_upholds : Upholds AnyResult Noticed Flagged where
  deliver := by
    intro n ph tk t r a h hq
    refine ⟨h.late, h.whose, h.owner, h.finishFor, fun p hp => ?_, fun hpc p hp => ?_⟩
    · exact (h.owed p hp).imp_right fun ho => .inl (ho.resolve_right fun ht => hq ht p hp)
    · exact .inl ((h.last hpc p hp).resolve_right fun ht => hq ht p hp)
  complete := fun n ph tk t h hq hp =>
    ⟨h.late, h.whose, h.owner, h.finishFor, fun _ _ => .inr (.inr nofun),
      fun _ _ _ => .inr nofun⟩
  seenIdle := by
    intro n t h ha
    obtain ⟨hu, hl⟩ := flagged_unmarked h (by simp) (fun _ => ha)
    exact flagged_lowered hu hl (by simp)
  construct := by
    intro n tk t h
    obtain ⟨hu, hl⟩ := flagged_unmarked h (by simp) nofun
    exact flagged_lowered hu hl (by simp)
  beginSession := by
    intro n tk t h
    obtain ⟨-, hl⟩ := flagged_unmarked h (by simp) nofun
    exact flagged_lowered rfl hl (by simp)
  commit := by
    intro n p d tk t h
    obtain ⟨hu, hl⟩ := flagged_unmarked h (by simp) nofun
    exact flagged_lowered hu hl (by simp)
  mark := by
    intro n p tk t h
    obtain ⟨hu, hl⟩ := flagged_unmarked h (by simp) nofun
    have hf := not_late_finishing hl
    refine ⟨fun _ => rfl, fun _ => .inl ⟨p, .inl rfl⟩, fun _ _ _ => rfl, fun hfin => ?_,
      fun _ _ => .inl rfl, fun hpc => ?_⟩
    · simp [ParserThread.markUploadComplete, hf] at hfin
    · have hpc' : t.pc = .clearUpload := hpc
      simp [hpc', ParserPc.finishing] at hf
  abort := fun n ph tk t h hl hn =>
    ⟨h.late, fun hu => .inr ⟨rfl, hn hu, rfl⟩, nofun, h.finishFor, nofun, nofun⟩
  take := fun n ph t h =>
    ⟨fun _ _ => trivial, h.late, h.whose, h.owner, h.finishFor, fun _ _ => .inr (.inr nofun),
      fun _ _ _ => .inr nofun⟩
  pass := fun n p t h =>
    ⟨h.late, fun hu => .inl ⟨p, .inr rfl⟩, nofun, h.finishFor, nofun, nofun⟩
  readStopped := fun n ph tk t b h =>
    ⟨h.late, h.whose, h.owner, h.finishFor, h.owed, h.last⟩
  step := fun _ _ _ _ _ h hs => flagged_step h hs

theorem flagged_initial : Flagged 0 .vacant .idle ParserThread.initial :=
  flagged_lowered rfl rfl (by simp)

end Operations

section Progress

/-- The completion of session `s` is still to come. -/
def CompletionOwed (t : ParserThread) (s : Session) : Prop :=
  t.uploadComplete = true ∧ t.log.owner = s.id ∨
  t.pc.finishing = true ∧ t.log.finishFor = s.id ∨
  t.completionPending = true ∧ t.log.completionFor = s.id

/-- Something other than the peer will move the session on. -/
def Progress (t : ParserThread) (s : Session) : Prop :=
  s.timer.active = true ∨ s.closeAfterSend = true ∧ 0 < s.socket.pendingWrites ∨
    s.state = .analyzing ∧ CompletionOwed t s

/-- Between two callbacks a session that is not cleaned up has a source of
progress. -/
def NeverWedged (c : ServerState) : Prop :=
  ∀ m s, c.thread = .done m → m.session = some s → s.cleanupStarted = false →
    Progress c.shared.parser s

/-- The server never wedges in a run that aborts no session between its upload
mark and the parser's entry into `finishSession`. -/
theorem server_never_wedges (cfg : ServerConfig) (hidle : cfg.idleMs ≠ 0)
    (hresponse : cfg.responseMs ≠ 0) (c : ServerState)
    (h : Reach (machine cfg) (onOps (AbortOnly Noticed)) serverInitial c) : NeverWedged c := by
  intro m s hm hs hc
  obtain ⟨hk, hj⟩ := upholds_reach flagged_upholds flagged_initial h
  rw [hm] at hk
  obtain ⟨⟨-, -, hst⟩, hq⟩ := (show Idle cfg c.ghost m from hk)
  rw [hs] at hst
  have hid : s.id = c.ghost.latest := hst.1.1
  rcases hst.2 with hcl | hcl | ⟨-, -, hw⟩
  · simp [hc] at hcl
  · exact .inr (.inl ⟨hcl.2.1, hcl.2.2.2.1⟩)
  · unfold Session.Working at hw
    split at hw
    · exact .inl (hw.2.2.2 hidle hresponse)
    · exact .inl (hw.2.1 hidle hresponse)
    · rename_i hstate
      obtain ⟨hw, -⟩ := hw
      refine .inr (.inr ⟨hstate, ?_⟩)
      have hfl := hj.1
      rcases hfl.owed _ hw with ho | ho | ho
      · exact .inl ⟨ho, (hfl.owner ho _ hw).trans hid.symm⟩
      · exact .inr (.inr ⟨ho.1, ho.2.trans hid.symm⟩)
      · exact absurd hw (hq ho _)
    · exact .inl (hw.2 hidle hresponse)
    · exact .inl (hw.2 hidle hresponse)
    · exact hw.elim
    · exact hw.elim

omit [Doubles] in
theorem wedge_free_delivery :
    letI := wholeDoubles
    ∃ c : ServerState, Reach (machine defaultConfig) (onOps (AbortOnly Noticed)) serverInitial c ∧
      c.ghost.phase = .analyzing (bytesOf "x") ∧ NeverWedged c := by
  let _ := wholeDoubles
  have hrun : (run (machine defaultConfig) (pendingAll fun op => !op.aborts) serverInitial
      (delivery.take 20)).map (fun c => c.ghost.phase) = some (.analyzing (bytesOf "x")) := by
    decide
  obtain ⟨c, hc, hp⟩ := Option.map_eq_some_iff.mp hrun
  have hr : Reach (machine defaultConfig) (onOps (AbortOnly Noticed)) serverInitial c :=
    run_onOps _ (fun _ _ op h => abortOnly_of_not_aborts op h) _ _ _ hc
  exact ⟨c, hr, hp, server_never_wedges defaultConfig (by decide) (by decide) c hr⟩

/-- The first session is lost in ANALYZING. The parser runs `finishSession` on
its flag while the second session starts, and lowers the flag of the second
session after it was raised. -/
def wedging : List (Act Event Peer) :=
  callback .connection 5 ++ arrival (uploadBytes (bytesOf "a") []) ++
    callback (.readable 65536) 3 ++ callback (.readError "read(eof)") 1 ++
    callback (.writeDone false "ECANCELED") 0 ++ callback .closed 0 ++ callback .reap 1 ++
    parserSteps 7 ++ parserSteps 8 ++ callback .connection 5 ++ parserSteps 4 ++
    callback .completion 1 ++ arrival (uploadBytes (bytesOf "b") []) ++
    callback (.readable 65536) 3 ++ parserSteps 1

def stuck (c : ServerState) : Bool :=
  match c.thread with
  | .call _ _ => false
  | .done m => m.session.any fun s =>
    !s.cleanupStarted && !s.timer.active && !s.closeAfterSend &&
      !c.shared.parser.uploadComplete && !c.shared.parser.pc.finishing &&
      !c.shared.parser.completionPending

theorem stuck_wedged {c : ServerState} (h : stuck c = true) : ¬ NeverWedged c := by
  intro hn
  unfold stuck at h
  split at h
  · cases h
  · rename_i m hm
    cases hs : m.session with
    | none => simp [hs] at h
    | some s =>
      simp only [hs, Option.any_some, Bool.and_eq_true, Bool.not_eq_true'] at h
      obtain ⟨⟨⟨⟨⟨hc, ht⟩, hf⟩, hu⟩, hfin⟩, hp⟩ := h
      have := hn m s hm hs hc
      simp [Progress, CompletionOwed, ht, hf, hu, hfin, hp] at this

omit [Doubles] in
theorem server_can_wedge :
    letI := wholeDoubles
    ¬ ∀ c : ServerState, Reach (machine defaultConfig) Always serverInitial c →
      NeverWedged c := by
  let _ := wholeDoubles
  intro hall
  have hrun : (anyRun wedging).map stuck = some true := by
    decide
  obtain ⟨c, hc, hs⟩ := Option.map_eq_some_iff.mp hrun
  exact stuck_wedged hs (hall c (anyRun_reach hc))

end Progress

section Abort

/-- The run goes on without a further upload being marked. -/
def Unmarking (_ : Ghost) (_ : World) : Op → Prop
  | .markUploadComplete _ => False
  | _ => True

def Op.marks : Op → Bool
  | .markUploadComplete _ => true
  | _ => false

theorem unmarking_of_not_marks {g : Ghost} {w : World} (op : Op) (h : (!op.marks) = true) :
    Unmarking g w op := by
  cases op with
  | markUploadComplete s => simp [Op.marks] at h
  | _ => trivial

/-- Between two states the parser has analysed nothing. -/
def Silent (t t' : ParserThread) : Prop :=
  t'.pc.finishing = false ∧ t'.log.published = t.log.published ∧
    t'.log.completions = t.log.completions ∧ t'.csvFile = t.csvFile ∧
    t'.skipReport = t.skipReport

/-- An abort that comes before the parser entered `finishSession` for the
session keeps it from being analysed. -/
def AbortSilences (cfg : ServerConfig) (c : ServerState) : Prop :=
  ∀ id, c.pending = some (.abortSession id) → c.shared.parser.log.entered = false →
    ∀ c', Reach (machine cfg) (onOps Unmarking) c c' → Silent c.shared.parser c'.shared.parser

def Lowered (t : ParserThread) : Prop := t.uploadComplete = false ∧ t.pc.late = false

variable {t₀ t t' : ParserThread}

theorem lowered_step (h : t.Step t') (hl : Lowered t) (hs : Silent t₀ t) :
    Lowered t' ∧ Silent t₀ t' := by
  obtain ⟨hu, hlate⟩ := hl
  have hf := not_late_finishing hlate
  have hlate' := ParserThread.step_unmarked h hu hlate
  refine ⟨⟨(ParserThread.step_outside h hf).1.trans hu, hlate'⟩, not_late_finishing hlate', ?_⟩
  obtain ⟨-, h1, h2, h3, h4⟩ := hs
  cases h with
  | enter hpc _ => simp [hpc, ParserPc.late] at hlate
  | writeFiles hpc => simp [hpc, ParserPc.finishing] at hf
  | publish hpc => simp [hpc, ParserPc.finishing] at hf
  | sendCompletion hpc => simp [hpc, ParserPc.finishing] at hf
  | _ => exact ⟨h1, h2, h3, h4⟩

theorem lowered_op (cfg : ServerConfig) (g : Ghost) (w : World) (op : Op) (b : Bool)
    (hop : Unmarking g w op) (hl : Lowered w.parser) (hs : Silent t₀ w.parser) :
    Lowered (World.exec cfg op b w).2.parser ∧ Silent t₀ (World.exec cfg op b w).2.parser := by
  cases op with
  | markUploadComplete s => exact hop.elim
  | beginSession => exact ⟨⟨rfl, hl.2⟩, hs⟩
  | acceptPending =>
    simp only [World.exec]
    split <;> exact ⟨hl, hs⟩
  | _ => exact ⟨hl, hs⟩

theorem lowered_reach {cfg : ServerConfig} {c c' : ServerState} (hl : Lowered c.shared.parser)
    (h : Reach (machine cfg) (onOps Unmarking) c c') :
    Lowered c'.shared.parser ∧ Silent c.shared.parser c'.shared.parser := by
  induction h with
  | init => exact ⟨hl, not_late_finishing hl.2, rfl, rfl, rfl, rfl⟩
  | @step c₁ c₂ a _ ha hs ih =>
    obtain ⟨ev, m, p, w, ht, rfl, hst, rfl⟩ | ⟨op, k, b, ht, rfl, rfl⟩ | ⟨d, w, rfl, hst, rfl⟩ :=
      step_inversion (machine cfg) hs
    · obtain ⟨-, -, hd⟩ := Server.start_delivers hst
      split at hd
      · rw [hd.2]
        exact ih
      · obtain ⟨r, a, hd⟩ := hd
        rw [hd]
        exact ih
    · simp only [Allowed, ht] at ha
      exact lowered_op cfg c₁.ghost _ op b ha ih.1 ih.2
    · cases d with
      | parser =>
        obtain ⟨t, ht, rfl⟩ := Option.map_eq_some_iff.mp hst
        exact lowered_step (ParserThread.step_of_parserStep ht) ih.1 ih.2
      | arrive bytes =>
        cases hst
        exact ih

/-- An aborted session is never analysed, in a run whose aborts do not fall
between an upload mark and the parser's entry into `finishSession`. -/
theorem aborted_session_not_analysed (cfg : ServerConfig) (c : ServerState)
    (h : Reach (machine cfg) (onOps (AbortOnly Noticed)) serverInitial c)
    (hok : ∀ op, c.pending = some op → AbortOnly Noticed c.ghost c.shared op) :
    AbortSilences cfg c := by
  intro id hc hne c' h'
  have hfl := (upholds_reach flagged_upholds flagged_initial h).2.1
  have hf : c.shared.parser.pc.finishing = false := by
    by_contra hfin
    simp [(hfl.finishFor (by simpa using hfin)).2] at hne
  have hu : c.shared.parser.uploadComplete = false := by
    by_contra hup
    have hnot : Noticed c.ghost.phase c.shared.parser := hok _ hc
    simp [hnot (by simpa using hup)] at hf
  have hl : c.shared.parser.pc.late = false := by
    by_contra hlate
    simp [hfl.late (by simpa using hlate)] at hu
  exact (lowered_reach ⟨hu, hl⟩ h').2

/-- A session given up before its header. -/
def earlyAbort : List (Act Event Peer) :=
  callback .connection 5 ++ callback (.readError "read(eof)") 0

omit [Doubles] in
theorem early_abort_silences :
    letI := wholeDoubles
    ∃ c : ServerState, c.pending = some (.abortSession 1) ∧ AbortSilences defaultConfig c := by
  let _ := wholeDoubles
  have hrun : (run (machine defaultConfig) (pendingAll fun op => !op.aborts) serverInitial
      earlyAbort).map (fun c => (c.pending, c.shared.parser.uploadComplete)) =
        some (some (.abortSession 1), false) := by
    decide
  obtain ⟨c, hc, hp⟩ := Option.map_eq_some_iff.mp hrun
  obtain ⟨hpend, hu⟩ := Prod.mk.injEq .. ▸ hp
  have hr : Reach (machine defaultConfig) (onOps (AbortOnly Noticed)) serverInitial c :=
    run_onOps _ (fun _ _ op h => abortOnly_of_not_aborts op h) _ _ _ hc
  refine ⟨c, hpend, aborted_session_not_analysed defaultConfig c hr fun op hop => ?_⟩
  cases op with
  | abortSession id => exact fun h => absurd (hu.symm.trans h) (by decide)
  | _ => trivial

/-- The session is lost in ANALYZING, then the parser takes its steps. -/
def lostInAnalyzing : List (Act Event Peer) :=
  callback .connection 5 ++ arrival (uploadBytes (bytesOf "a") []) ++
    callback (.readable 65536) 3 ++ callback (.readError "read(eof)") 0

def afterLoss : List (Act Event Peer) := [.loop true] ++ parserSteps 15

omit [Doubles] in
theorem abort_not_always_silent :
    letI := wholeDoubles
    ¬ ∀ c : ServerState, Reach (machine defaultConfig) Always serverInitial c →
      AbortSilences defaultConfig c := by
  let _ := wholeDoubles
  intro hall
  have hrun : (anyRun lostInAnalyzing).bind (fun c =>
      (run (machine defaultConfig) (pendingAll fun op => !op.marks) c afterLoss).map fun c' =>
        (c.pending, c.shared.parser.log.entered, c.shared.parser.log.published,
          c'.shared.parser.log.published)) = some (some (.abortSession 1), false, 0, 1) := by
    decide
  obtain ⟨c, hc, hrun'⟩ := Option.bind_eq_some_iff.mp hrun
  obtain ⟨c', hc', heq⟩ := Option.map_eq_some_iff.mp hrun'
  simp only [Prod.mk.injEq] at heq
  obtain ⟨hpend, hent, hpub, hpub'⟩ := heq
  have hsil := hall c (anyRun_reach hc) 1 hpend hent c'
    (run_onOps _ (fun _ _ op h => unmarking_of_not_marks op h) _ _ _ hc')
  have := hsil.2.1
  omega

end Abort

end LogTransfer
