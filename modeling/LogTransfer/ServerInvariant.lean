import LogTransfer.ManagerConduct

/-!
# Invariants across the two threads

An invariant of the parser thread relates its state to the current session's
phase. `Upholds` lists what it has to survive: each of the loop thread's
operations under the rules, the delivery of wake-ups, and the parser's own
steps. `C` is a condition on the state in which `abortSession` is called.
-/

set_option autoImplicit false

namespace LogTransfer
open Program Interleave

variable [Doubles]

/-- The only operation a run may be asked to restrict. -/
def AbortOnly (C : Phase → ParserThread → Prop) (g : Ghost) (w : World) : Op → Prop
  | .abortSession _ => C g.phase w.parser
  | _ => True

def Op.aborts : Op → Bool
  | .abortSession _ => true
  | _ => false

theorem abortOnly_of_not_aborts {C : Phase → ParserThread → Prop} {g : Ghost} {w : World}
    (op : Op) (h : (!op.aborts) = true) : AbortOnly C g w op := by
  cases op with
  | abortSession id => simp [Op.aborts] at h
  | _ => trivial

structure Upholds (A : Bytes → AnalysisResult → Prop) (C : Phase → ParserThread → Prop)
    (I : ℕ → Phase → Taking → ParserThread → Prop) : Prop where
  deliver : ∀ n ph tk t r a, I n ph tk t → (tk ≠ .idle → ∀ p, ph ≠ .analyzing p) →
    I n ph .idle { t with resumePending := r, abortDonePending := a }
  complete : ∀ n ph tk t, I n ph tk t → (tk ≠ .idle → ∀ p, ph ≠ .analyzing p) →
    t.completionPending = true → I n ph .started { t with completionPending := false }
  seenIdle : ∀ n t, I n .aborted .idle t → t.abortRequested = false → I n .vacant .idle t
  construct : ∀ n tk t, I n .vacant tk t →
    I (n + 1) .fresh tk { t with log := { t.log with entered := false } }
  beginSession : ∀ n tk t, I n .fresh tk t → I n (.receiving []) tk t.beginSession
  commit : ∀ n p d tk t, I n (.receiving p) tk t → I n (.receiving (p ++ d)) tk (t.commitSlot d)
  mark : ∀ n p tk t, I n (.receiving p) tk t → I n (.analyzing p) tk (t.markUploadComplete n)
  abort : ∀ n ph tk t, I n ph tk t → ph.Live → C ph t → I n .aborted tk t.abortSession
  take : ∀ n ph t, I n ph .started t →
    (∀ p, ph = .analyzing p → A p t.result) ∧ I n ph .took t.takeResult.2
  pass : ∀ n p t, I n (.analyzing p) .took t → I n (.answered p) .took t
  readStopped : ∀ n ph tk t b, I n ph tk t → I n ph tk (t.setReadStopped b)
  step : ∀ n ph tk t t', I n ph tk t → t.parserStep = some t' → I n ph tk t'

def Joint (A : Bytes → AnalysisResult → Prop) (I : ℕ → Phase → Taking → ParserThread → Prop)
    (g : Ghost) (w : World) : Prop :=
  I g.latest g.phase g.taking w.parser ∧ w.retained = g.kept ∧
    ∀ e ∈ g.guards, A e.1.payload e.2

variable {A : Bytes → AnalysisResult → Prop} {C : Phase → ParserThread → Prop}
  {I : ℕ → Phase → Taking → ParserThread → Prop}

theorem upholds_op (hu : Upholds A C I) (cfg : ServerConfig) (g : Ghost) (w : World) (op : Op)
    (b : Bool) (hj : Joint A I g w) (hm : may A g op) (hok : AbortOnly C g w op) :
    answers A g op (World.exec cfg op b w).1 ∧
      Joint A I (g.next op (World.exec cfg op b w).1) (World.exec cfg op b w).2 := by
  obtain ⟨hi, hk⟩ := hj
  cases op with
  | abortPending =>
    have ht : g.taking = .idle := hm
    refine ⟨trivial, ?_, hk⟩
    simp only [Ghost.next, World.exec, ht] at hi ⊢
    cases hp : g.phase with
    | aborted =>
      cases ha : w.parser.abortRequested with
      | true => simpa [Ghost.seen, hp] using hi
      | false =>
        rw [hp] at hi
        exact hu.seenIdle _ _ hi ha
    | _ => simpa [Ghost.seen, hp] using hi
  | acceptPending =>
    refine ⟨trivial, ?_⟩
    simp only [World.exec, Ghost.next]
    split <;> exact ⟨hi, hk⟩
  | construct id =>
    obtain ⟨hp, rfl⟩ := hm
    rw [hp] at hi
    exact ⟨trivial, hu.construct _ _ _ hi, hk⟩
  | startRead => exact ⟨trivial, hi, hk⟩
  | beginSession =>
    rw [show g.phase = .fresh from hm] at hi
    exact ⟨trivial, hu.beginSession _ _ _ hi, hk⟩
  | tryAcquireSlot => exact ⟨trivial, hi, hk⟩
  | recv count => exact ⟨trivial, hi, hk⟩
  | commitSlot id data =>
    obtain ⟨-, p, hp⟩ := hm
    rw [hp] at hi
    refine ⟨trivial, ?_, hk⟩
    simp only [Ghost.next, hp, Ghost.commit]
    exact hu.commit _ _ _ _ _ hi
  | ringFull => exact ⟨trivial, hi, hk⟩
  | setReadStopped stopped => exact ⟨trivial, hu.readStopped _ _ _ _ _ hi, hk⟩
  | markUploadComplete s =>
    obtain ⟨hid, ⟨p, hp⟩, -⟩ := hm
    rw [hp] at hi
    refine ⟨trivial, ?_, hk⟩
    simp only [Ghost.next, World.exec, hp, Ghost.mark, hid]
    exact hu.mark _ _ _ _ hi
  | abortSession id => exact ⟨trivial, hu.abort _ _ _ _ hi hm.2 hok, hk⟩
  | takeResult =>
    rw [show g.taking = .started from hm] at hi
    obtain ⟨ha, hi'⟩ := hu.take _ _ _ hi
    exact ⟨ha, hi', hk⟩
  | passGuard s r =>
    obtain ⟨-, hp, ht, ha, -⟩ := hm
    rw [hp, ht] at hi
    refine ⟨trivial, ?_, hk.1, ?_⟩
    · simp only [Ghost.next, hp, Ghost.answer, ht]
      exact hu.pass _ _ _ hi
    · exact List.forall_mem_cons.mpr ⟨ha, hk.2⟩
  | retain id kept => exact ⟨trivial, hi, rfl, hk.2⟩
  | lookup filename fileSize crc => exact ⟨trivial, hi, hk⟩
  | send id bytes => cases b <;> exact ⟨trivial, hi, hk⟩

theorem upholds_deliver (hu : Upholds A C I) {cfg : ServerConfig} {g : Ghost} {w w' : World}
    {m : Loop} {ev : Event} (hj : Joint A I g w) (hi : Idle cfg g m)
    (hd : Server.Delivers ev w w') : Joint A I (g.begin ev) w' := by
  obtain ⟨hret, -, hp⟩ := hd
  refine ⟨?_, hret.trans hj.2.1, hj.2.2⟩
  split at hp
  · rename_i he
    rw [hp.2, he]
    exact hu.complete _ _ _ _ hj.1 hi.2 hp.1
  · rename_i he
    obtain ⟨r, a, hp⟩ := hp
    have hb : (g.begin ev).taking = .idle := by simp [Ghost.begin, he]
    rw [hp, hb]
    exact hu.deliver _ _ _ _ _ _ hj.1 hi.2

/-- An upheld invariant is a discipline of the whole server. -/
theorem upholds_discipline (hu : Upholds A C I) (cfg : ServerConfig) :
    Discipline (machine cfg) (rules A) (onOps (AbortOnly C)) (Joint A I) (Idle cfg) where
  start := by
    intro g w m ev p w' hi hj _ hs
    exact ⟨Server.start_idle hi hs, upholds_deliver hu hj hi (Server.start_delivers hs)⟩
  op := fun g w op b hj hm hok => upholds_op hu cfg g w op b hj hm hok
  peer := by
    intro g w d w' hj _ hp
    cases d with
    | parser =>
      obtain ⟨t, ht, rfl⟩ := Option.map_eq_some_iff.mp hp
      exact ⟨hu.step _ _ _ _ _ hj.1 ht, hj.2⟩
    | arrive bytes =>
      cases hp
      exact hj

theorem upholds_reach (hu : Upholds A C I) {cfg : ServerConfig} {c : ServerState}
    (h₀ : I 0 .vacant .idle ParserThread.initial)
    (h : Reach (machine cfg) (onOps (AbortOnly C)) serverInitial c) :
    Held (machine cfg) (rules A) (Joint A I) (Idle cfg) c := by
  have hstart : Held (machine cfg) (rules A) (Joint A I) (Idle cfg) serverInitial :=
    ⟨idle_initial cfg, h₀, rfl, List.forall_mem_nil _⟩
  exact reach_held (machine cfg) (upholds_discipline hu cfg) hstart h

end LogTransfer
