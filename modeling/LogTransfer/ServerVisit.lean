import LogTransfer.VisitCallbacks
import LogTransfer.ServerTape
import LogTransfer.OwnResult
import LogTransfer.Composition

/-!
# The server on an errand

The loop thread attends to the one session of the run, over the disciplines of
the own result and of the tape: the first gives the session its own analysis,
the second a free slot whenever it asks for one. The limits are those of the
conversation: one connection, no lost write, no timer, and bytes in time.
-/

set_option autoImplicit false

namespace LogTransfer
open Program Interleave

variable [Doubles] (e : Errand)

/-- Nothing was said yet. -/
def Visit.Blank (v : Visit) : Prop :=
  v.received = [] ∧ v.sent = [] ∧ v.completed = 0 ∧ v.waiting = false ∧ v.closed = false

def VisitIdle (v : Visit) (m : Loop) : Prop :=
  match m.session with
  | none => v.accepted = false ∧ v.Blank ∨ v.accepted = true ∧ v.closed = true
  | some s => Visit.Seat e [] v s

structure VisitTrue (g : Ghost) (v : Visit) (w : World) : Prop where
  backlog : w.backlog = 0 ∨ w.backlog ≤ 1 ∧ v.called = true ∧ v.accepted = false
  asked : v.accepted = true → v.called = true
  analysing : ∀ p, g.phase = .analyzing p → v.waiting = true
  retained : ¬ e.Uploads ∨ v.kept = true → w.retained = some e.kept
  shelved : e.Uploads → 1 < v.sent.length → v.kept = true
  sent : v.sent <+: e.replies
  heard : v.sent ≠ [] → e.request <+: v.received
  ended : v.closed = true → v.received = e.request ++ encodeDownloadDone ∧ v.sent = e.replies

/-- The conversation over which the errand is run. -/
def Conversing : Limits Op World Loop Event Peer ((Ghost × Tape) × Visit) where
  op g w op b :=
    match op with
    | .send _ _ | .startRead => b = true
    | .recv count => InTime e (g.2.received ++ w.inbox.take count) g.2.completed
    | _ => True
  start g _ _ ev :=
    match ev with
    | .connection => g.2.called = false
    | .writeDone ok _ => ok = true
    | .readError _ => g.2.closed = true
    | .timeout => False
    | _ => True
  peer _ _ _ := True

namespace SessionManager

variable {e} {env : Env} {v : Visit} {m : Loop}

theorem acceptWhenParserIdle_attends (hsize : e.csv.length ≤ kMaxCsvSize) (h : VisitIdle e v m) :
    Attends e (acceptWhenParserIdle env m) v (VisitIdle e) := by
  refine (keeps_ask_bind _ _ _ _ _ _).mpr ⟨trivial, fun pending _ => ?_⟩
  split
  · exact h
  unfold acceptIfIdle
  split
  · exact h
  · rename_i hs
    refine (keeps_ask_bind _ _ _ _ _ _).mpr ⟨trivial, fun accepted hacc => ?_⟩
    cases accepted with
    | false => exact h
    | true =>
      have hfresh : v.accepted = false := (hacc rfl).2
      have hnone : m.session = none := by simpa using hs
      simp only [VisitIdle, hnone] at h
      obtain ⟨-, h1, h2, h3, h4, h5⟩ := h.resolve_right fun hn => by simp [hfresh] at hn
      refine (keeps_ask_bind _ _ _ _ _ _).mpr ⟨trivial, fun _ _ => ?_⟩
      refine keeps_seq _ _ _ _ _ (Visit.start_attends env hsize _ rfl h1 h2 h3 h4 h5) ?_
      rintro v' ⟨s', started⟩ ⟨hst, hseat⟩
      rw [show started = true from hst]
      exact hseat

theorem forSession_attends {f : Session → P Session} {v₀ : Visit} (h : VisitIdle e v₀ m)
    (hnone : m.session = none → VisitIdle e v m)
    (hf : ∀ s, Visit.Seat e [] v₀ s → m.session = some s → Attends e (f s) v (Visit.Seat e [])) :
    Attends e (forSession m f) v (VisitIdle e) := by
  unfold forSession
  split
  · rename_i hn
    exact hnone hn
  · rename_i s hs
    simp only [VisitIdle, hs] at h
    exact keeps_seq _ _ _ _ _ (hf s h hs) fun _ _ hq => hq

end SessionManager

section Events

variable {e} {cfg : ServerConfig} {v : Visit} {m : Loop} {w w' : World} {g : Ghost}

/-- A session that the manager is about to drop has ended. -/
theorem finished_closed (hi : Idle cfg g m) (h : VisitIdle e v m) (hf : m.sessionFinished = true) :
    v.accepted = true ∧ v.closed = true := by
  have hm := hi.1.2.2
  cases hs : m.session with
  | none =>
    rw [hs] at hm
    simp [hm.2] at hf
  | some s =>
    rw [hs] at hm
    simp only [VisitIdle, hs] at h
    have hclean : s.cleanupStarted = true := hm.1.2.2.2.2.2.2 hf
    rcases h with hgone | ⟨hl, -⟩
    · exact ⟨hgone.2.2.2.2.2.1, hgone.2.2.2.2.2.2.1⟩
    · simp [hl.1] at hclean

open SessionManager in
theorem start_visit (hsize : e.csv.length ≤ kMaxCsvSize) {ev : Event} {p : P Loop} {t : Tape}
    (hi : Idle cfg g m) (h : VisitIdle e v m) (hlim : (Conversing e).start ((g, t), v) w m ev)
    (hs : Server.start cfg ev m w = some (p, w')) : Attends e p (v.begin ev) (VisitIdle e) := by
  have hsession : ∀ (ready : Session → Bool) (f : Session → P Session),
      (∀ s, ready s = true → Visit.Seat e [] v s → Attends e (f s) (v.begin ev) (Visit.Seat e [])) →
      Server.sessionEvent m w ready f = some (p, w') → Attends e p (v.begin ev) (VisitIdle e) := by
    intro ready f hf hev
    unfold Server.sessionEvent at hev
    split at hev
    · rename_i hready
      cases hev
      refine forSession_attends h (fun hn => by simp [hn] at hready) fun s hseat hs => ?_
      exact hf s (by simpa [hs] using hready) hseat
    · cases hev
  cases ev with
  | connection =>
    cases hs
    unfold onConnection
    split
    · exact h
    · exact acceptWhenParserIdle_attends hsize h
  | readable count =>
    exact hsession _ _ (fun s hr hq => Visit.onReadable_attends _ hsize count hr hq) hs
  | readError text =>
    refine hsession _ _ (fun s hr hq => ?_) hs
    have hc : v.closed = true := hlim
    rcases hq with hgone | ⟨hl, -⟩
    · simp [hgone.2.2.2.1] at hr
    · simp [hl.2.2.2.2.2.1] at hc
  | timeout => exact hlim.elim
  | writeDone ok text =>
    rw [show ok = true from hlim] at hs
    exact hsession _ _ (fun s hr hq => Visit.onWrite_attends _ text (by simpa using hr) hq) hs
  | closed =>
    simp only [Server.start] at hs
    split at hs
    · cases hs
    · rename_i s hsome
      split at hs
      · cases hs
        unfold onClosed
        split
        · exact h
        · simp only [VisitIdle, hsome] at h
          exact h
      · cases hs
  | reap =>
    simp only [Server.start] at hs
    split at hs
    · cases hs
      unfold onReap
      dsimp only
      split
      · exact h
      · rename_i hf
        have hclosed := finished_closed hi h (by simpa using hf)
        exact acceptWhenParserIdle_attends hsize (.inr hclosed)
    · cases hs
  | completion =>
    simp only [Server.start] at hs
    split at hs
    · cases hs
      refine (keeps_ask_bind _ _ _ _ _ _).mpr ⟨trivial, fun result _ => ?_⟩
      exact forSession_attends h (fun _ => h) fun s hq _ =>
        Visit.onAnalysisComplete_attends _ result hq
    · cases hs
  | resume =>
    simp only [Server.start] at hs
    split at hs
    · cases hs
      exact forSession_attends h (fun _ => h) fun s hq _ => Visit.onResume_attends hq
    · cases hs
  | abortDone =>
    simp only [Server.start] at hs
    split at hs
    · cases hs
      exact acceptWhenParserIdle_attends hsize h
    · cases hs
  | tick ms =>
    cases hs
    exact h

end Events

section Shared

variable {e} {cfg : ServerConfig} {v : Visit} {w w' : World} {g : Ghost} {t : Tape}

theorem start_backlog {m : Loop} {ev : Event} {p : P Loop} (hne : ev ≠ .connection)
    (hs : Server.start cfg ev m w = some (p, w')) : w'.backlog = w.backlog := by
  cases ev with
  | connection => exact absurd rfl hne
  | readable count => rw [Server.sessionEvent_world hs]
  | readError text => rw [Server.sessionEvent_world hs]
  | writeDone ok text => rw [Server.sessionEvent_world hs]
  | timeout => rw [Server.sessionEvent_world hs]
  | closed =>
    simp only [Server.start] at hs
    split at hs
    · cases hs
    · split at hs <;> cases hs
      rfl
  | tick ms =>
    cases hs
    rfl
  | _ =>
    simp only [Server.start] at hs
    split at hs <;> cases hs
    rfl

theorem visit_begin {m : Loop} {ev : Event} {p : P Loop} (h : VisitTrue e g v w)
    (hlim : (Conversing e).start ((g, t), v) w m ev)
    (hs : Server.start cfg ev m w = some (p, w')) : VisitTrue e (g.begin ev) (v.begin ev) w' := by
  obtain ⟨hret, -, -⟩ := Server.start_delivers hs
  have hkept : ¬ e.Uploads ∨ v.kept = true → w'.retained = some e.kept :=
    fun hu => hret.trans (h.retained hu)
  by_cases hc : ev = .connection
  · subst hc
    cases hs
    have hnew : v.called = false := hlim
    have hfresh : v.accepted = false := by
      by_contra ha
      simp [h.asked (by simpa using ha)] at hnew
    refine ⟨.inr ⟨?_, rfl, hfresh⟩, fun _ => rfl, h.analysing, hkept, h.shelved, h.sent, h.heard,
      h.ended⟩
    rcases h.backlog with hb | ⟨-, hb, -⟩
    · simp [hb]
    · simp [hnew] at hb
  · have hb := start_backlog hc hs
    have hbacklog := h.backlog
    rw [← hb] at hbacklog
    cases ev with
    | connection => exact absurd rfl hc
    | _ => exact ⟨hbacklog, h.asked, h.analysing, hkept, h.shelved, h.sent, h.heard, h.ended⟩

omit [Doubles] in
theorem done_ne_nil : encodeDownloadDone ≠ [] := by decide

/-- A step that the history of the visit does not look at. -/
theorem visit_frame {g' : Ghost} (h : VisitTrue e g v w) (hb : w'.backlog = w.backlog)
    (hr : w'.retained = w.retained) (hp : ∀ p, g'.phase = .analyzing p → v.waiting = true) :
    VisitTrue e g' v w' :=
  ⟨hb ▸ h.backlog, h.asked, hp, fun hk => hr.trans (h.retained hk), h.shelved, h.sent, h.heard,
    h.ended⟩

theorem visit_op (gh : Ghost) (op : Op) (b : Bool) (hm : may OwnAnalysis gh op)
    (htape : TapeTrue cfg t w) (ht : Tape.rules.may t op) (h : VisitTrue e gh v w)
    (hv : (visitRules e).may v op) (hlim : (Conversing e).op ((gh, t), v) w op b) :
    AbortOnly NotAnalyzing gh w op ∧ (visitRules e).answers v op (World.exec cfg op b w).1 ∧
      VisitTrue e (gh.next op (World.exec cfg op b w).1) (v.next op (World.exec cfg op b w).1)
        (World.exec cfg op b w).2 := by
  cases op with
  | abortPending =>
    refine ⟨trivial, trivial, visit_frame h rfl rfl fun p hp => ?_⟩
    cases hph : gh.phase with
    | analyzing q => exact h.analysing q hph
    | aborted =>
      simp only [Ghost.next, hph, Ghost.seen] at hp
      split at hp <;> cases hp
    | _ => simp [Ghost.next, hph, Ghost.seen] at hp
  | acceptPending =>
    simp only [World.exec]
    split
    · rename_i hyes
      simp only [Bool.and_eq_true, decide_eq_true_eq] at hyes
      obtain ⟨hb, hcalled, hfresh⟩ := h.backlog.resolve_left (by omega)
      refine ⟨trivial, fun _ => ⟨hcalled, hfresh⟩, .inl ?_, fun _ => hcalled, h.analysing,
        h.retained, h.shelved, h.sent, h.heard, h.ended⟩
      simp only
      omega
    · exact ⟨trivial, (fun hn => by cases hn), h⟩
  | construct id => exact ⟨trivial, trivial, visit_frame h rfl rfl fun p hp => by cases hp⟩
  | beginSession => exact ⟨trivial, trivial, visit_frame h rfl rfl fun p hp => by cases hp⟩
  | startRead => exact ⟨trivial, hlim, h⟩
  | tryAcquireSlot =>
    have hlt := htape.room ht
    have hacq : w.parser.tryAcquireSlot cfg.ringSlots = true := by
      simp only [ParserThread.tryAcquireSlot, ne_eq, decide_eq_true_eq]
      omega
    exact ⟨trivial, hacq, h⟩
  | recv count =>
    refine ⟨trivial, hlim, h.backlog, h.asked, h.analysing, h.retained, h.shelved, h.sent,
      fun hs => ?_, fun hc => ?_⟩
    · exact (h.heard hs).trans (List.prefix_append _ _)
    · obtain ⟨hr, hs⟩ := h.ended hc
      have hin := hlim.1
      refine ⟨?_, hs⟩
      rw [hr] at hin
      have hnil := List.append_right_eq_self.mp (hin.eq_of_length_le (by simp))
      simp only [Visit.next, World.exec, hr, hnil, List.append_nil]
  | commitSlot id data =>
    refine ⟨trivial, trivial, visit_frame h rfl rfl fun p hp => ?_⟩
    obtain ⟨-, q, hq⟩ := hm
    simp [Ghost.next, hq, Ghost.commit] at hp
  | markUploadComplete s =>
    exact ⟨trivial, trivial, h.backlog, h.asked, fun _ _ => rfl, h.retained, h.shelved, h.sent,
      h.heard, h.ended⟩
  | abortSession id =>
    obtain ⟨hr, hs, hc, hw⟩ := hv
    refine ⟨fun p hp => ?_, trivial, h.backlog, h.asked, (fun p hp => by cases hp), h.retained,
      h.shelved, h.sent, h.heard, fun _ => ⟨hr, hs⟩⟩
    simp [h.analysing p hp] at hw
  | passGuard s r =>
    obtain ⟨-, hp, -, ha, -⟩ := hm
    refine ⟨trivial, ha, h.backlog, h.asked, fun q hq => ?_, h.retained, h.shelved, h.sent,
      h.heard, h.ended⟩
    simp [Ghost.next, hp, Ghost.answer] at hq
  | retain id kept =>
    refine ⟨trivial, trivial, h.backlog, h.asked, h.analysing, fun _ => ?_, fun _ _ => rfl, h.sent,
      h.heard, h.ended⟩
    rw [show kept = e.kept from hv]
    rfl
  | lookup filename fileSize crc =>
    refine ⟨trivial, fun hu => ?_, h⟩
    simp only [World.exec, h.retained (.inl hu)]
  | send id bytes =>
    have hb : b = true := hlim
    subst hb
    refine ⟨trivial, rfl, h.backlog, h.asked, h.analysing, h.retained, fun hu hmany => ?_, hv.2.1,
      fun _ => ?_, fun hc => ?_⟩
    · refine hv.2.2 hu fun hn => ?_
      simp [Visit.next, World.exec, hn] at hmany
    · rw [← hv.1]
      exact List.prefix_rfl
    · have hr := (h.ended hc).1
      rw [hv.1] at hr
      exact absurd (List.self_eq_append_right.mp hr) done_ne_nil
  | _ => exact ⟨trivial, trivial, visit_frame h rfl rfl h.analysing⟩

end Shared

section Discipline

variable {e} {cfg : ServerConfig}

theorem may_sealed {g : Ghost} {op : Op} (h : may OwnAnalysis g op) : may SealedOnly g op := by
  cases op with
  | passGuard s r =>
    obtain ⟨h1, h2, h3, h4, h5⟩ := h
    refine ⟨h1, h2, h3, ?_, h5⟩
    rw [show r = analyze s.payload from h4]
    exact analyze_sealed _
  | _ => exact h

theorem joint_sealed {g : Ghost} {w : World} (h : Joint OwnAnalysis Own g w) :
    Joint SealedOnly Clean g w := by
  refine ⟨h.1.1, h.2.1, fun entry he => ?_⟩
  rw [show entry.2 = analyze entry.1.payload from h.2.2 entry he]
  exact analyze_sealed _

/-- No session is aborted in ANALYZING. -/
def Orderly : Limits Op World Loop Event Peer (Ghost × Tape) :=
  onOps fun g w op => AbortOnly NotAnalyzing g.1 w op

abbrev orderlyRules : Rules Op Ans (Ghost × Tape) := (rules OwnAnalysis).both Tape.rules

theorem orderly_discipline (cfg : ServerConfig) :
    Discipline (tapeMachine cfg) orderlyRules Orderly
      (overlaid (Joint OwnAnalysis Own) fun _ => TapeTrue cfg) (bothHeld (Idle cfg) TapeIdle) := by
  refine overlay_discipline _ _ _ (upholds_discipline own_upholds cfg) ⟨?_, ?_, ?_⟩
  · exact fun _ _ _ _ _ _ _ _ _ hi hj _ hs => ⟨trivial, start_tape hi hs, tape_begin hj hs⟩
  · intro g t w op b hj hm ht hr hlim
    exact ⟨hlim, tape_op g op b (joint_sealed hj) (may_sealed hm) ht hr⟩
  · intro g t w d w' hj ht _ hp
    exact ⟨trivial, (tape_layer cfg Always).peer g t w d w' (joint_sealed hj) ht trivial hp⟩

def visitMachine (cfg : ServerConfig) :
    Machine Op Ans World Loop Event Peer ((Ghost × Tape) × Visit) :=
  (tapeMachine cfg).withHistory Visit.next Visit.begin

theorem visit_discipline (hsize : e.csv.length ≤ kMaxCsvSize) (cfg : ServerConfig) :
    Discipline (visitMachine cfg) (orderlyRules.both (visitRules e)) (Conversing e)
      (overlaid (overlaid (Joint OwnAnalysis Own) fun _ => TapeTrue cfg)
        fun g => VisitTrue e g.1)
      (bothHeld (bothHeld (Idle cfg) TapeIdle) (VisitIdle e)) := by
  refine overlay_discipline _ _ _ (orderly_discipline cfg) ⟨?_, ?_, ?_⟩
  · intro g v w m ev p w' hi _ hv hj hlim hs
    exact ⟨trivial, start_visit hsize hi.1 hv hlim hs, visit_begin hj hlim hs⟩
  · intro g v w op b hj hm ht hr hlim
    exact visit_op g.1 op b hm.1 hj.2 hm.2 ht hr hlim
  · intro g v w d w' _ hv _ hp
    refine ⟨trivial, ?_⟩
    cases d with
    | parser =>
      obtain ⟨t, -, rfl⟩ := Option.map_eq_some_iff.mp hp
      exact visit_frame hv rfl rfl hv.analysing
    | arrive bytes =>
      cases hp
      exact visit_frame hv rfl rfl hv.analysing

end Discipline

end LogTransfer
