import LogTransfer.TapeConduct
import LogTransfer.CleanStart

/-!
# The tape of every run

The loop thread keeps the tape through every event, and the tape is true of
the shared state: the ring has room when the tape says so, and a stopped reader
is owed a wake-up by somebody. The ring is empty when a session starts, as the
discipline of `Clean` has it.
-/

set_option autoImplicit false

namespace LogTransfer
open Program Interleave
open Session (Taped)

def TapeIdle (g : Tape) (m : Loop) : Prop := ∀ s, m.session = some s → Taped [] g s

namespace ParserPc

/-- Between a release and the end of the check of `_readStopped` that follows
it, as long as the flag has not been read. -/
def beforeCheck : ParserPc → Bool
  | .checkReadStopped | .drain _ | .resetState _ | .checkResume _ => true
  | _ => false

/-- The flag was read as set; the wake-up is the next step. -/
def waking : ParserPc → Bool
  | .wakeReader | .wakeResume _ => true
  | _ => false

end ParserPc

namespace SessionManager

variable {e : Env} {g : Tape} {m : Loop}

theorem taped_acceptWhenParserIdle (h : TapeIdle g m) :
    OnTape (acceptWhenParserIdle e m) g TapeIdle := by
  refine (keeps_ask_bind _ _ _ _ _ _).mpr ⟨trivial, fun pending _ => ?_⟩
  cases pending with
  | true => exact h
  | false =>
    rw [if_neg (by simp)]
    unfold acceptIfIdle
    split
    · exact h
    · refine (keeps_ask_bind _ _ _ _ _ _).mpr ⟨trivial, fun accepted _ => ?_⟩
      cases accepted with
      | false => exact h
      | true =>
        refine (keeps_ask_bind _ _ _ _ _ _).mpr ⟨trivial, fun _ _ => ?_⟩
        refine keeps_seq _ _ _ _ _ (Session.taped_start rfl ⟨rfl, rfl, rfl⟩ rfl rfl) ?_
        rintro g' ⟨s', started⟩ hs' s hs
        cases started with
        | true =>
          cases hs
          exact hs' rfl
        | false => cases hs

theorem taped_forSession {f : Session → P Session}
    (hf : ∀ s, m.session = some s → OnTape (f s) g (Taped [])) :
    OnTape (forSession m f) g TapeIdle := by
  unfold forSession
  split
  · rename_i hn
    intro s hs
    simp [hn] at hs
  · rename_i s hs
    refine keeps_seq _ _ _ _ _ (hf s hs) ?_
    rintro g' s' hs' s'' hs''
    cases hs''
    exact hs'

end SessionManager

section Shared

variable [Doubles]

/-- The parser has released slots and will send the wake-up for it. -/
def ParserThread.Signalling (t : ParserThread) : Prop :=
  t.pc.beforeCheck = true ∧ t.readStopped = true ∨ t.pc.waking = true

def ParserThread.Wakes (t : ParserThread) : Prop :=
  t.ring ≠ [] ∧ t.readStopped = true ∨ t.resumePending = true ∨ t.Signalling

structure TapeTrue (cfg : ServerConfig) (g : Tape) (w : World) : Prop where
  bounded : w.parser.ring.length ≤ cfg.ringSlots
  room : g.room = true → w.parser.ring.length < cfg.ringSlots
  stopped : w.parser.readStopped = g.stopped
  owed : g.owed = true → w.parser.Wakes
  speaks : Speaks g.received g.sent
  kept : ∀ kept, w.retained = some kept → Tape.sealedRecord kept

theorem wakes_step {t t' : ParserThread} (hs : t.parserStep = some t') (h : t.Wakes) :
    t'.Wakes := by
  cases ParserThread.step_of_parserStep hs with
  | wakeReader hpc => exact .inr (.inl rfl)
  | wakeResume b hpc => exact .inr (.inl rfl)
  | release hpc =>
    rcases h with ⟨-, hf⟩ | h | ⟨hb, -⟩ | hw
    · exact .inr (.inr (.inl ⟨rfl, hf⟩))
    · exact .inr (.inl h)
    · simp [hpc, ParserPc.beforeCheck] at hb
    · simp [hpc, ParserPc.waking] at hw
  | discard b hpc hr =>
    rcases h with ⟨-, hf⟩ | h | ⟨hb, hf⟩ | hw
    · exact .inr (.inr (.inl ⟨by rw [hpc]; rfl, hf⟩))
    · exact .inr (.inl h)
    · exact .inr (.inr (.inl ⟨hb, hf⟩))
    · simp [hpc, ParserPc.waking] at hw
  | resetState b hpc =>
    rcases h with h | h | ⟨-, hf⟩ | hw
    · exact .inl h
    · exact .inr (.inl h)
    · exact .inr (.inr (.inl ⟨rfl, hf⟩))
    · simp [hpc, ParserPc.waking] at hw
  | publish hpc =>
    rcases h with h | h | ⟨hb, hf⟩ | hw
    · exact .inl h
    · exact .inr (.inl h)
    · exact .inr (.inr (.inl ⟨rfl, hf⟩))
    · simp [hpc, ParserPc.waking] at hw
  | move pc he =>
    rcases h with h | h | ⟨hb, hf⟩ | hw
    · exact .inl h
    · exact .inr (.inl h)
    · cases he with
      | toReader hpc _ => exact .inr (.inr (.inr rfl))
      | toResume b hpc _ => exact .inr (.inr (.inr rfl))
      | drained b hpc _ => exact .inr (.inr (.inl ⟨rfl, hf⟩))
      | nextSlot hpc hn => simp [hf] at hn
      | noResume b hpc hn => simp [hf] at hn
      | _ => simp_all [ParserPc.beforeCheck]
    · cases he <;> simp_all [ParserPc.waking]
  | _ =>
    rcases h with h | h | ⟨hb, hf⟩ | hw
    · exact .inl h
    · exact .inr (.inl h)
    · simp_all [ParserPc.beforeCheck]
    · simp_all [ParserPc.waking]

theorem step_ring {t t' : ParserThread} (hs : t.parserStep = some t') :
    t'.ring.length ≤ t.ring.length ∧ t'.readStopped = t.readStopped := by
  cases ParserThread.step_of_parserStep hs with
  | release hpc => exact ⟨by simp, rfl⟩
  | discard b hpc hr => exact ⟨by simp, rfl⟩
  | _ => exact ⟨le_refl _, rfl⟩

variable {cfg : ServerConfig} {g : Tape} {w : World}

omit [Doubles] in
theorem speaks_received {received : Bytes} {messages : List Bytes} (data : Bytes)
    (h : Speaks received messages) : Speaks (received ++ data) messages := by
  obtain ⟨full, hf, hp⟩ := h
  refine ⟨full, ?_, hp⟩
  cases hf with
  | refused status count hst => exact .refused status count hst
  | uploaded u payload csv hu hup =>
    exact .uploaded u payload csv (hu.trans (List.prefix_append _ _)) hup
  | resumed csv offset ho => exact .resumed csv offset ho

theorem tape_step {t : ParserThread} (h : TapeTrue cfg g w) (hs : w.parser.parserStep = some t) :
    TapeTrue cfg g { w with parser := t } := by
  obtain ⟨hlen, hstop⟩ := step_ring hs
  exact ⟨hlen.trans h.bounded, fun hr => lt_of_le_of_lt hlen (h.room hr), hstop.trans h.stopped,
    fun ho => wakes_step hs (h.owed ho), h.speaks, h.kept⟩

theorem wakes_ring {t : ParserThread} (d : Bytes) (h : t.Wakes) : (t.commitSlot d).Wakes := by
  rcases h with ⟨-, hf⟩ | h | h
  · exact .inl ⟨by simp [ParserThread.commitSlot], hf⟩
  · exact .inr (.inl h)
  · exact .inr (.inr h)

theorem tape_ringFull (h : TapeTrue cfg g w) :
    TapeTrue cfg (g.next .ringFull (w.parser.ringFull cfg.ringSlots)) w := by
  refine ⟨h.bounded, fun hr => ?_, h.stopped, fun ho => ?_, h.speaks, h.kept⟩
  · have hne : w.parser.ring.length ≠ cfg.ringSlots := by
      simpa [Tape.next, ParserThread.ringFull] using hr
    exact lt_of_le_of_ne h.bounded hne
  · simp only [Tape.next, ParserThread.ringFull, Bool.or_eq_true, Bool.and_eq_true,
      decide_eq_true_eq] at ho
    rcases ho with ho | ⟨hfull, hst⟩
    · exact h.owed ho
    · refine .inl ⟨fun hnil => ?_, h.stopped.trans hst⟩
      have hpos := cfg.slots_pos
      simp [hnil] at hfull
      omega

/-- One operation of the loop thread. The first discipline is needed where a
session is constructed, and for the results it hands out. -/
theorem tape_op (gh : Ghost) (op : Op) (b : Bool) (hj : Joint SealedOnly Clean gh w)
    (hm : may SealedOnly gh op) (h : TapeTrue cfg g w) (ht : Tape.rules.may g op) :
    Tape.rules.answers g op (World.exec cfg op b w).1 ∧
      TapeTrue cfg (g.next op (World.exec cfg op b w).1) (World.exec cfg op b w).2 := by
  cases op with
  | acceptPending =>
    refine ⟨trivial, ?_⟩
    simp only [World.exec]
    split <;> exact ⟨h.bounded, h.room, h.stopped, h.owed, h.speaks, h.kept⟩
  | construct id =>
    have hring : w.parser.ring = [] := (hj.1.clean (.inl hm.1)).1
    have hpos := cfg.slots_pos
    refine ⟨trivial, h.bounded, fun _ => ?_, h.stopped, (fun ho => by cases ho), ?_, h.kept⟩
    · simpa [World.exec, hring] using hpos
    · exact ⟨_, .refused .crcMismatch 0 (by simp), List.nil_prefix⟩
  | startRead => exact ⟨trivial, h.bounded, h.room, h.stopped, h.owed, h.speaks, h.kept⟩
  | beginSession =>
    exact ⟨trivial, h.bounded, h.room, rfl, (fun ho => by cases ho), h.speaks, h.kept⟩
  | tryAcquireSlot =>
    have hlt := h.room ht
    have hacq : w.parser.tryAcquireSlot cfg.ringSlots = true := by
      simp only [ParserThread.tryAcquireSlot, ne_eq, decide_eq_true_eq]
      omega
    exact ⟨hacq, h.bounded, fun _ => hlt, h.stopped, h.owed, h.speaks, h.kept⟩
  | recv count =>
    refine ⟨by simp [World.exec, Tape.rules], h.bounded, h.room, h.stopped, h.owed, ?_, h.kept⟩
    exact speaks_received _ h.speaks
  | commitSlot id data =>
    have hlt := h.room ht
    refine ⟨trivial, ?_, (fun hr => by cases hr), h.stopped, fun ho => wakes_ring data (h.owed ho),
      h.speaks, h.kept⟩
    simp [World.exec, ParserThread.commitSlot]
    omega
  | ringFull => exact ⟨trivial, tape_ringFull h⟩
  | setReadStopped stopped =>
    refine ⟨trivial, h.bounded, h.room, rfl, fun ho => ?_, h.speaks, h.kept⟩
    simp only [Tape.next, Bool.and_eq_true] at ho
    rcases h.owed ho.1 with ⟨hr, -⟩ | hp | ⟨hb, -⟩ | hw
    · exact .inl ⟨hr, ho.2⟩
    · exact .inr (.inl hp)
    · exact .inr (.inr (.inl ⟨hb, ho.2⟩))
    · exact .inr (.inr (.inr hw))
  | takeResult => exact ⟨hj.1.sealed.1, h.bounded, h.room, h.stopped, h.owed, h.speaks, h.kept⟩
  | retain id kept =>
    refine ⟨trivial, h.bounded, h.room, h.stopped, h.owed, h.speaks, fun k hk => ?_⟩
    cases hk
    exact ht
  | lookup filename fileSize crc =>
    refine ⟨fun k hk => ?_, h⟩
    simp only [World.exec, retainedResult] at hk
    split at hk
    · cases hk
    · rename_i kept hkept
      split at hk
      · cases hk
      · cases hk
        exact h.kept _ hkept
  | send id bytes =>
    cases b with
    | true => exact ⟨trivial, h.bounded, h.room, h.stopped, h.owed, ht.2.2, h.kept⟩
    | false => exact ⟨trivial, h⟩
  | _ => exact ⟨trivial, h.bounded, h.room, h.stopped, h.owed, h.speaks, h.kept⟩

open SessionManager in
theorem start_tape {m : Loop} {ev : Event} {w' : World} {p : P Loop} (hi : TapeIdle g m)
    (h : Server.start cfg ev m w = some (p, w')) : OnTape p (g.begin ev) TapeIdle := by
  have hsession : ∀ (ready : Session → Bool) (f : Session → P Session), g.begin ev = g →
      (∀ s, ready s = true → Taped [] g s → OnTape (f s) g (Taped [])) →
      Server.sessionEvent m w ready f = some (p, w') → OnTape p (g.begin ev) TapeIdle := by
    intro ready f hb hf hev
    unfold Server.sessionEvent at hev
    split at hev
    · rename_i hready
      cases hev
      rw [hb]
      refine taped_forSession fun s hs => hf s ?_ (hi s hs)
      simpa [hs] using hready
    · cases hev
  cases ev with
  | connection =>
    cases h
    unfold onConnection
    split
    · exact hi
    · exact taped_acceptWhenParserIdle hi
  | readable count =>
    exact hsession _ _ rfl (fun s hr hs => Session.taped_onReadable count hs hr) h
  | readError text => exact hsession _ _ rfl (fun s _ hs => Session.taped_stop _ hs) h
  | writeDone ok text => exact hsession _ _ rfl (fun s _ hs => Session.taped_onWrite ok text hs) h
  | timeout =>
    refine hsession _ expire rfl (fun s _ hs => ?_) h
    exact Session.taped_stop (s := { s with timer := s.timer.stop }) _ hs
  | closed =>
    simp only [Server.start] at h
    split at h
    · cases h
    · rename_i s hs
      split at h
      · cases h
        unfold onClosed
        split
        · exact hi
        · intro s' hs'
          cases hs'
          exact hi s hs
      · cases h
  | reap =>
    simp only [Server.start] at h
    split at h
    · cases h
      unfold onReap
      dsimp only
      split
      · exact hi
      · exact taped_acceptWhenParserIdle fun s hs => by cases hs
    · cases h
  | completion =>
    simp only [Server.start] at h
    split at h
    · cases h
      refine (keeps_ask_bind _ _ _ _ _ _).mpr ⟨trivial, fun result hr => ?_⟩
      exact taped_forSession fun s hs => Session.taped_onAnalysisComplete result hr (hi s hs)
    · cases h
  | resume =>
    simp only [Server.start] at h
    split at h
    · cases h
      exact taped_forSession fun s hs => Session.taped_onResume (hi s hs)
    · cases h
  | abortDone =>
    simp only [Server.start] at h
    split at h
    · cases h
      exact taped_acceptWhenParserIdle hi
    · cases h
  | tick ms =>
    cases h
    exact hi

theorem tape_begin {m : Loop} {ev : Event} {w' : World} {p : P Loop} (hj : TapeTrue cfg g w)
    (h : Server.start cfg ev m w = some (p, w')) : TapeTrue cfg (g.begin ev) w' := by
  have hkeep : ∀ (ready : Session → Bool) (f : Session → P Session), g.begin ev = g →
      Server.sessionEvent m w ready f = some (p, w') → TapeTrue cfg (g.begin ev) w' := by
    intro ready f hb hev
    rw [hb, Server.sessionEvent_world hev]
    exact hj
  obtain ⟨h1, h2, h3, h4, h5, h6⟩ := hj
  cases ev with
  | connection =>
    cases h
    exact ⟨h1, h2, h3, h4, h5, h6⟩
  | readable count => exact hkeep _ _ rfl h
  | readError text => exact hkeep _ _ rfl h
  | writeDone ok text => exact hkeep _ _ rfl h
  | timeout => exact hkeep _ _ rfl h
  | closed =>
    simp only [Server.start] at h
    split at h
    · cases h
    · split at h
      · cases h
        exact ⟨h1, h2, h3, h4, h5, h6⟩
      · cases h
  | reap =>
    simp only [Server.start] at h
    split at h
    · cases h
      exact ⟨h1, h2, h3, h4, h5, h6⟩
    · cases h
  | completion =>
    simp only [Server.start] at h
    split at h
    · cases h
      exact ⟨h1, h2, h3, h4, h5, h6⟩
    · cases h
  | resume =>
    simp only [Server.start] at h
    split at h
    · cases h
      exact ⟨h1, h2, h3, (fun ho => by cases ho), h5, h6⟩
    · cases h
  | abortDone =>
    simp only [Server.start] at h
    split at h
    · cases h
      exact ⟨h1, h2, h3, h4, h5, h6⟩
    · cases h
  | tick ms =>
    cases h
    exact ⟨h1, h2, h3, h4, h5, h6⟩

theorem clean_discipline (cfg : ServerConfig) :
    Discipline (machine cfg) (rules SealedOnly) Always (Joint SealedOnly Clean) (Idle cfg) where
  start := fun g w m ev p w' hi hj _ hs =>
    (upholds_discipline clean_upholds cfg).start g w m ev p w' hi hj trivial hs
  op := fun g w op b hj hm _ =>
    upholds_op clean_upholds cfg g w op b hj hm (by cases op <;> trivial)
  peer := fun g w d w' hj _ hp =>
    (upholds_discipline clean_upholds cfg).peer g w d w' hj trivial hp

def tapeMachine (cfg : ServerConfig) : Machine Op Ans World Loop Event Peer (Ghost × Tape) :=
  (machine cfg).withHistory Tape.next Tape.begin

theorem tape_layer (cfg : ServerConfig) (lim : Limits Op World Loop Event Peer (Ghost × Tape)) :
    Layer (machine cfg) Tape.next Tape.begin (rules SealedOnly) Tape.rules lim
      (Joint SealedOnly Clean) (Idle cfg) (TapeTrue cfg) TapeIdle where
  start := fun _ _ _ _ _ _ _ _ _ hi hj _ hs => ⟨start_tape hi hs, tape_begin hj hs⟩
  op := fun gh _ _ op b hj hm h ht _ => tape_op gh op b hj hm h ht
  peer := by
    intro gh g w d w' _ h _ hp
    cases d with
    | parser =>
      obtain ⟨t, ht, rfl⟩ := Option.map_eq_some_iff.mp hp
      exact tape_step h ht
    | arrive bytes =>
      cases hp
      exact ⟨h.bounded, h.room, h.stopped, h.owed, h.speaks, h.kept⟩

abbrev TapeState := Config Op Ans World Loop (Ghost × Tape)

def tapeInitial : TapeState :=
  { shared := World.initial, ghost := (Ghost.initial, Tape.initial),
    thread := .done SessionManager.initial }

abbrev TapeHeld (cfg : ServerConfig) (c : TapeState) : Prop :=
  Held (tapeMachine cfg) ((rules SealedOnly).both Tape.rules)
    (bothHeld (Joint SealedOnly Clean) (TapeTrue cfg)) (bothHeld (Idle cfg) TapeIdle) c

theorem tape_initial (cfg : ServerConfig) : TapeTrue cfg Tape.initial World.initial :=
  ⟨Nat.zero_le _, fun _ => cfg.slots_pos, rfl, (fun ho => by cases ho),
    ⟨_, .refused .crcMismatch 0 (by simp), List.nil_prefix⟩, fun kept hk => by cases hk⟩

theorem tape_reach {lim : Limits Op World Loop Event Peer (Ghost × Tape)} {c : TapeState}
    (h : Reach (tapeMachine cfg) lim tapeInitial c) : TapeHeld cfg c := by
  have hstart : TapeHeld cfg tapeInitial :=
    ⟨⟨idle_initial cfg, fun s hs => by cases hs⟩, ⟨clean_initial, rfl, List.forall_mem_nil _⟩,
      tape_initial cfg⟩
  exact reach_held _ (layer_discipline _ _ _ (clean_discipline cfg) (tape_layer cfg lim)) hstart h

end Shared

end LogTransfer
