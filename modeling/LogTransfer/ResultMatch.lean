import LogTransfer.UploadConduct

/-!
# A stored result matches its header

Whatever the server sends and whatever the user does, `finishDownload` stores
only bytes whose number and checksum the last ResultHeader announced.
-/

set_option autoImplicit false

namespace LogTransfer.Client
open Program Interleave

/-- The history is the last ResultHeader taken. -/
def lastHeader (g : Option ResultHeader) : (op : Op) → Ans op → Option ResultHeader
  | .note (.header header), _ => some header
  | _, _ => g

def MatchesHeader (g : Option ResultHeader) (csv : Bytes) : Prop :=
  ∃ header, g = some header ∧ csv.length = header.csvSize ∧ crc32 0#32 csv = header.crc32

def headerRules : Rules Op Ans (Option ResultHeader) where
  may g op :=
    match op with
    | .setResult csv => MatchesHeader g csv
    | _ => True
  answers _ _ _ := True

abbrev Stores {α : Type} (p : P α) (g : Option ResultHeader)
    (Q : Option ResultHeader → α → Prop) : Prop :=
  Keeps lastHeader headerRules p g Q

/-- The bytes under way are those of the last header. -/
def Announced (g : Option ResultHeader) (s : Service) : Prop :=
  s.expecting = .csvPayload → g = some { csvSize := s.csvSize, crc32 := s.csvExpectedCrc }

section Service

variable {g : Option ResultHeader} {s : Service} {α : Type}

theorem stores_act (op : Op) (f : Ans op → P α) {Q : Option ResultHeader → α → Prop}
    (hm : headerRules.may g op) (h : ∀ a, Stores (f a) (lastHeader g op a) Q) :
    Stores (act op >>= f) g Q := ⟨hm, fun a _ => h a⟩

theorem stores_drain (n : ℕ) : Stores (Service.drainLoop n) g (fun g' _ => g' = g) := by
  induction n with
  | zero => exact rfl
  | succ n ih =>
    refine stores_act _ _ trivial fun view => ?_
    cases view with
    | none => exact rfl
    | some chunk => exact stores_act _ _ trivial fun _ => ih

theorem stores_abort (reason : Bytes) (level : LogLevel) (h : Announced g s) :
    Stores (s.abortUpload reason level) g Announced := by
  refine stores_act _ _ trivial fun _ => ?_
  refine keeps_seq _ _ _ _ _ (stores_drain _) ?_
  rintro g' _ rfl
  exact stores_act _ _ trivial fun _ => stores_act _ _ trivial fun _ => h

theorem announced_failed (s : Service) : Announced g s.failed.closeSocket := by
  intro he
  have : s.failed.expecting = .csvPayload := he
  unfold Service.failed at this
  split at this <;> cases this

theorem stores_fail (reason : Bytes) (level : LogLevel) :
    Stores (s.failSession reason level) g Announced := by
  refine keeps_seq _ _ _ _ _ (Q := fun _ _ => True) ?_ ?_
  · unfold Service.stopReader
    split
    · refine stores_act _ _ trivial fun _ => ?_
      exact keeps_mono _ _ _ _ (fun _ _ _ => trivial) (stores_drain _)
    · trivial
  · intro g' _ _
    exact stores_act _ _ trivial fun _ => stores_act _ _ trivial fun _ => announced_failed s

theorem stores_send (m : Message) (h : Announced g s) :
    Stores (s.send m) g (fun g r => Announced g r.1) := by
  unfold Service.send
  split
  · exact h
  · refine stores_act _ _ trivial fun ok => ?_
    cases ok with
    | true => exact h
    | false => exact h

theorem stores_finishUpload (h : Announced g s) : Stores s.finishUpload g Announced := by
  refine keeps_seq _ _ _ _ _ (stores_send (s := { s with trailerSent := true }) _ h) ?_
  rintro g' ⟨s', ok⟩ h'
  cases ok with
  | false => exact stores_abort _ _ h'
  | true =>
    refine stores_act _ _ trivial fun _ => stores_act _ _ trivial fun _ => ?_
    exact fun he => by cases he

theorem stores_pumpLoop (n : ℕ) (h : Announced g s) :
    Stores (Service.pumpLoop n s) g (fun g r => Announced g r.1) := by
  induction n generalizing g s with
  | zero => exact h
  | succ n ih =>
    unfold Service.pumpLoop
    split
    swap
    · exact h
    refine stores_act _ _ trivial fun view => ?_
    cases view with
    | none => exact h
    | some chunk =>
      refine keeps_seq _ _ _ _ _
        (stores_send (s := { s with uploadCrc := crc32 s.uploadCrc chunk }) _ h) ?_
      rintro g' ⟨s', ok⟩ h'
      refine stores_act _ _ trivial fun _ => ?_
      cases ok with
      | false => exact keeps_seq _ _ _ _ _ (stores_abort _ _ h') fun _ _ h => h
      | true => exact ih h'

theorem stores_pumpUpload (h : Announced g s) : Stores s.pumpUpload g Announced := by
  unfold Service.pumpUpload
  split
  · exact h
  · refine stores_act _ _ trivial fun failed => ?_
    split
    · exact stores_act _ _ trivial fun error => stores_abort _ _ h
    · refine keeps_seq _ _ _ _ _ (stores_pumpLoop _ h) ?_
      rintro g' ⟨s', going⟩ h'
      cases going with
      | false => exact h'
      | true =>
        change Stores s'.pumpEnd g' Announced
        unfold Service.pumpEnd
        split
        · exact h'
        · refine stores_act _ _ trivial fun complete => ?_
          split
          · exact h'
          · refine stores_act _ _ trivial fun empty => ?_
            split
            · exact stores_finishUpload h'
            · exact h'

theorem stores_completed (h : g = some { csvSize := s.csvSize, crc32 := s.csvExpectedCrc }) :
    Stores s.completed g Announced := by
  unfold Service.completed
  split
  swap
  · exact fun _ => h
  rename_i hlen
  unfold Service.finishDownload
  dsimp only
  split
  · exact stores_fail _ _
  · rename_i hcrc
    have hm : MatchesHeader g s.csv := ⟨_, h, hlen, by simpa using hcrc⟩
    refine stores_act _ _ hm fun _ => stores_act _ _ trivial fun _ => ?_
    refine keeps_seq _ _ _ _ _ (Q := fun _ r => r.1.expecting = .nothing) ?_ ?_
    · unfold Service.send
      split
      · exact rfl
      · refine stores_act _ _ trivial fun ok => ?_
        cases ok with
        | true => exact rfl
        | false => exact rfl
    rintro g' ⟨s', ok⟩ he
    cases ok with
    | false => exact stores_fail _ _
    | true =>
      refine stores_act _ _ trivial fun _ => ?_
      refine keeps_seq _ _ _ _ _ (Q := fun _ _ => True) ?_ ?_
      · unfold Service.warnSkipped
        split
        · trivial
        · exact ⟨trivial, fun _ _ => trivial⟩
      · intro g'' _ _
        refine stores_act _ _ trivial fun _ => fun hc => ?_
        have : s'.expecting = .csvPayload := hc
        rw [show s'.expecting = .nothing from he] at this
        cases this

theorem stores_beginCsvReceive (header : ResultHeader) (resuming : Bool) :
    Stores (s.beginCsvReceive header resuming) g (fun g r => Announced g r.1) := by
  refine stores_act _ _ trivial fun _ => ?_
  split
  · exact keeps_seq _ _ _ _ _ (stores_fail _ _) fun _ _ h => h
  · split
    · exact keeps_seq _ _ _ _ _ (stores_fail _ _) fun _ _ h => h
    · refine keeps_seq _ _ _ _ _ ?_ fun _ _ h => h
      refine stores_act _ _ trivial fun _ => stores_act _ _ trivial fun _ => ?_
      exact stores_completed rfl

theorem stores_failBytes (reason : String) :
    Stores (s.failBytes reason) g (fun g r => Announced g r.1) :=
  keeps_seq _ _ _ _ _ (stores_fail _ _) fun _ _ h => h

theorem stores_framed (data : Bytes) (malformed : String) (whole : Service → ℕ → P (Service × ℕ))
    (h : Announced g s) (hw : ∀ s n, Stores (whole s n) g (fun g r => Announced g r.1)) :
    Stores (s.framed data malformed whole) g (fun g r => Announced g r.1) := by
  unfold Service.framed
  dsimp only
  split
  · exact h
  · exact hw _ _
  · exact stores_failBytes _

theorem stores_headerFramed (resuming : Bool) (n : ℕ) :
    Stores (s.headerFramed resuming n) g (fun g r => Announced g r.1) := by
  unfold Service.headerFramed
  split
  · exact stores_failBytes _
  · exact keeps_seq _ _ _ _ _ (stores_beginCsvReceive _ _) fun _ _ h => h

theorem stores_ackFramed (n : ℕ) : Stores (s.ackFramed n) g (fun g r => Announced g r.1) := by
  unfold Service.ackFramed
  split
  · exact stores_failBytes _
  · split
    · exact keeps_seq _ _ _ _ _ (stores_fail _ _) fun _ _ h => h
    · refine keeps_seq _ _ _ _ _ (Q := Announced) ?_ fun _ _ h => h
      refine stores_act _ _ trivial fun _ => stores_act _ _ trivial fun _ => ?_
      exact stores_act _ _ trivial fun _ => fun he => by cases he

theorem stores_resumeFramed (n : ℕ) :
    Stores (s.resumeFramed n) g (fun g r => Announced g r.1) := by
  unfold Service.resumeFramed
  split
  · refine stores_act _ _ trivial fun _ => ?_
    exact keeps_seq _ _ _ _ _ (stores_fail _ _) fun _ _ h => h
  · exact stores_headerFramed _ _

theorem stores_consume (data : Bytes) (h : Announced g s) :
    Stores (s.consume data) g (fun g r => Announced g r.1) := by
  unfold Service.consume
  cases he : s.expecting with
  | ack => exact stores_framed _ _ _ h fun _ n => stores_ackFramed n
  | resultHeader => exact stores_framed _ _ _ h fun _ n => stores_headerFramed _ n
  | csvPayload =>
    refine stores_act _ _ trivial fun _ => ?_
    exact keeps_seq _ _ _ _ _ (stores_completed (s := s.appended _) (h he)) fun _ _ h => h
  | resumeReply => exact stores_framed _ _ _ h fun _ n => stores_resumeFramed n
  | nothing =>
    refine stores_act _ _ trivial fun _ => ?_
    exact keeps_seq _ _ _ _ _ (stores_fail _ _) fun _ _ h => h

theorem stores_onBytes (n : ℕ) (data : Bytes) (h : Announced g s) :
    Stores (Service.onBytes n s data) g Announced := by
  apply Service.keeps_rounds _ n data h
  intro data g s h
  exact stores_consume data h

theorem stores_handle (command : Command) (h : Announced g s) :
    Stores (s.handle command) g Announced := by
  cases command with
  | connect ip port =>
    change Stores (s.handleConnect ip port) g Announced
    unfold Service.handleConnect
    split
    · exact stores_act _ _ trivial fun _ => h
    · refine stores_act _ _ trivial fun _ => stores_act _ _ trivial fun ok => ?_
      cases ok with
      | false => exact stores_act _ _ trivial fun _ => stores_act _ _ trivial fun _ => h
      | true => exact stores_act _ _ trivial fun _ => h
  | disconnect =>
    change Stores s.handleDisconnect g Announced
    unfold Service.handleDisconnect
    dsimp only
    split
    · exact stores_act _ _ trivial fun _ => h
    · refine stores_act _ _ trivial fun _ => ?_
      split
      · exact stores_abort _ _ h
      · split
        · exact stores_fail _ _
        · exact h
  | startUpload path filename size =>
    change Stores (s.handleStartUpload path filename size) g Announced
    unfold Service.handleStartUpload
    split
    · exact stores_act _ _ trivial fun _ => h
    · split
      · exact stores_act _ _ trivial fun _ => h
      · refine keeps_seq _ _ _ _ _ (stores_drain _) ?_
        rintro g' _ rfl
        refine stores_act _ _ trivial fun error => ?_
        cases error with
        | some error => exact stores_act _ _ trivial fun _ => h
        | none =>
          refine stores_act _ _ trivial fun _ => stores_act _ _ trivial fun _ => ?_
          refine stores_act _ _ trivial fun _ => stores_act _ _ trivial fun _ => ?_
          refine keeps_seq _ _ _ _ _ (stores_send _ fun he => by cases he) ?_
          rintro g'' ⟨s', ok⟩ h'
          cases ok with
          | false => exact stores_abort _ _ h'
          | true =>
            refine stores_act _ _ trivial fun _ => stores_act _ _ trivial fun _ => ?_
            exact stores_pumpUpload h'
  | cancelUpload =>
    change Stores s.handleCancelUpload g Announced
    unfold Service.handleCancelUpload
    split
    · exact h
    · exact stores_abort _ _ h
  | requestResult =>
    change Stores s.handleRequestResult g Announced
    unfold Service.handleRequestResult
    split
    · exact stores_act _ _ trivial fun _ => h
    · split
      · exact stores_act _ _ trivial fun _ => h
      · refine stores_act _ _ trivial fun _ => ?_
        refine keeps_seq _ _ _ _ _ (stores_send _ h) ?_
        rintro g' ⟨s', ok⟩ h'
        cases ok with
        | false => exact stores_fail _ _
        | true =>
          refine stores_act _ _ trivial fun _ => stores_act _ _ trivial fun _ => ?_
          exact fun he => by cases he

theorem stores_drainCommands (n : ℕ) (h : Announced g s) :
    Stores (Service.drainCommands n s) g Announced := by
  apply Service.keeps_drainCommands (fun _ => trivial) (fun _ _ h => h) _ n h
  intro g s command h _
  exact stores_handle command h

theorem stores_sayError (what : Option Bytes) :
    Stores (s.sayError what) g (fun g' _ => g' = g) := by
  cases what with
  | some text => exact ⟨trivial, fun _ _ => rfl⟩
  | none =>
    change Stores s.sayClosed g _
    unfold Service.sayClosed
    split
    · exact ⟨trivial, fun _ _ => rfl⟩
    · split
      · exact rfl
      · exact ⟨trivial, fun _ _ => rfl⟩

theorem stores_onError (what : Option Bytes) (h : Announced g s) :
    Stores (s.onError what) g Announced := by
  refine keeps_seq _ _ _ _ _ (stores_sayError what) ?_
  rintro _ _ rfl
  refine keeps_seq _ _ _ _ _ (Q := Announced) ?_ fun g' s' h' => ?_
  · unfold Service.giveUp
    split
    · exact stores_abort _ _ h
    · split
      · exact stores_fail _ _
      · exact h
  · exact stores_act _ _ trivial fun _ => h'

theorem stores_callback (e : Signal) (h : Announced g s) :
    Stores (callback s e) g Announced := by
  cases e with
  | async passes =>
    exact keeps_seq _ _ _ _ _ (stores_drainCommands _ h) fun _ _ => stores_pumpUpload
  | connectDone ok text =>
    change Stores (s.onConnect ok text) g Announced
    unfold Service.onConnect
    cases ok with
    | false => exact stores_act _ _ trivial fun _ => stores_act _ _ trivial fun _ => h
    | true =>
      refine stores_act _ _ trivial fun _ => stores_act _ _ trivial fun _ => ?_
      by_cases ho : (s.answered true).isOpen = true
      · rw [Service.startRead, if_pos ho]
        exact h
      · rw [Service.startRead, if_neg ho]
        exact stores_act _ _ trivial fun _ => h
  | readable count => exact stores_act _ _ trivial fun data => stores_onBytes _ data h
  | readError error => exact stores_onError _ h
  | writeDone ok text =>
    cases ok with
    | true =>
      exact keeps_seq _ _ _ _ _ (stores_pumpUpload (s := { s.written with
        inFlightWrites := s.inFlightWrites - 1 }) h) fun _ _ h => h
    | false =>
      refine keeps_seq _ _ _ _ _ (Q := Announced) ?_ fun _ _ h' => stores_onError _ h'
      change Stores (if s.uploading then _ else _) g Announced
      split
      · exact stores_abort _ _ h
      · exact h
  | connectTimeout =>
    change Stores s.onConnectTimeout g Announced
    unfold Service.onConnectTimeout
    dsimp only
    split
    · refine stores_act _ _ trivial fun _ => stores_act _ _ trivial fun _ => ?_
      exact stores_act _ _ trivial fun _ => h
    · exact h
  | closed => exact stores_act _ _ trivial fun _ => h

end Service

section Runs

variable {files : Bytes → Option Bytes} {c : ClientState (Option ResultHeader)}

theorem header_discipline : Discipline (machine files lastHeader) headerRules Always
    (fun _ _ => True) Announced where
  start g s l e p s' hb _ _ hs := by
    simp only [machine] at hs
    split at hs
    · cases hs
      exact ⟨stores_callback e hb, trivial⟩
    · cases hs
  op g s o b _ _ _ := ⟨trivial, trivial⟩
  peer g s d s' _ _ _ := trivial

theorem header_initial : Held (machine files lastHeader) headerRules (fun _ _ => True) Announced
    (clientInitial none) := by
  refine ⟨?_, trivial⟩
  intro he
  cases he

/-- Every result that any run stores is the one its last header announced. -/
theorem stored_matches (h : Reach (machine files lastHeader) Always (clientInitial none) c)
    {csv : Bytes} (hp : c.pending = some (.setResult csv)) : MatchesHeader c.ghost csv :=
  held_pending _ (reach_held _ header_discipline header_initial h) hp

end Runs

end LogTransfer.Client
