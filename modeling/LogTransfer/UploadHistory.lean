import LogTransfer.ClientWorld

/-!
# History of the bytes handed to a connection

`Wire` follows what the service hands to the socket of the current connection.
While an upload is streamed, the bytes handed over and what the reader still
owes make up the file, provided the ring held nothing when the upload began.
-/

set_option autoImplicit false

namespace LogTransfer.Client
open Program Interleave

inductive Stage where
  | settled
  | accepted (path : Bytes) (size : ℕ)
  | streaming (path : Bytes) (header : UploadHeader) (data : Bytes)
  | broken
  deriving DecidableEq, Repr

/-- The front slot of the ring: not looked at, seen, or already sent. -/
inductive Slot where
  | free
  | peeked (chunk : Bytes)
  | spent
  deriving DecidableEq, Repr

/-- `before` is what the connection was handed before the current upload. -/
structure Wire where
  bytes : Bytes
  before : Bytes
  stage : Stage
  slot : Slot
  deriving DecidableEq, Repr

namespace Wire

def initial : Wire := { bytes := [], before := [], stage := .settled, slot := .free }

def sent (m : Message) : Stage → Stage
  | .accepted path size =>
    match m with
    | .header h => .streaming path h []
    | _ => .accepted path size
  | .streaming path h data =>
    match m with
    | .chunk chunk => .streaming path h (data ++ chunk)
    | .trailer _ => .settled
    | _ => .streaming path h data
  | stage => stage

def spend (m : Message) (slot : Slot) : Slot :=
  match m with
  | .chunk _ => .spent
  | _ => slot

def next (g : Wire) : (op : Op) → Ans op → Wire
  | .connect _ _, ok => if ok then initial else g
  | .send m, ok =>
    if ok then { g with bytes := g.bytes ++ m.bytes, stage := sent m g.stage,
                        slot := spend m g.slot }
    else { g with stage := .broken, slot := spend m g.slot }
  | .beginUpload path size, error =>
    if error.isNone then { g with before := g.bytes, stage := .accepted path size, slot := .free }
    else g
  | .abortUpload, _ => { g with stage := .broken }
  | .tryPeek, view => { g with slot := (view.map Slot.peeked).getD .free }
  | .release, _ => { g with slot := .free }
  | .takeCommand, _ | .recv _, _ | .emit _, _ | .failed, _ | .takeError, _ | .readComplete, _
  | .ringEmpty, _ | .setResult _, _ | .clearResult, _ | .note _, _ => g

end Wire

section Rules

def Streaming (stage : Stage) : Prop := ∃ path h data, stage = .streaming path h data

def AtRest (stage : Stage) : Prop := stage = .settled ∨ stage = .broken

def mayHand (g : Wire) : Message → Prop
  | .header h => ∃ path, g.stage = .accepted path h.fileSize
  | .chunk chunk => Streaming g.stage ∧ g.slot = .peeked chunk
  | .trailer t => ∃ path h data, g.stage = .streaming path h data ∧ h.fileSize ≤ data.length ∧
    t.crc32 = crc32 0#32 data ∧ g.slot ≠ .spent
  | .request _ | .downloadDone => g.stage = .settled

def wireRules : Rules Op Ans Wire where
  may g op :=
    match op with
    | .send m => mayHand g m
    | .beginUpload _ _ => g.stage = .settled
    | .release => AtRest g.stage ∨ Streaming g.stage ∧ g.slot = .spent
    | .tryPeek => AtRest g.stage ∨ Streaming g.stage ∧ g.slot ≠ .spent
    | _ => True
  answers _ _ _ := True

end Rules

section Exact

/-- The bytes of one upload of `size` bytes of a file. -/
def exactUpload (name content : Bytes) (size : ℕ) : Bytes :=
  encodeUploadHeader { fileSize := size, filename := name } ++ content.take size ++
    encodeUploadTrailer { crc32 := crc32 0#32 (content.take size) }

variable (files : Bytes → Option Bytes)

/-- A connection that was handed whole messages and whole uploads only. -/
inductive Conversation : Bytes → Prop
  | nil : Conversation []
  | request {w : Bytes} (m : ResultRequest) : Conversation w →
      Conversation (w ++ encodeResultRequest m)
  | downloadDone {w : Bytes} : Conversation w → Conversation (w ++ encodeDownloadDone)
  | upload {w path content : Bytes} (name : Bytes) (size : ℕ) : Conversation w →
      files path = some content → size ≤ content.length →
      Conversation (w ++ exactUpload name content size)

/-- What the reader owes of the file, the front slot apart once it was sent. -/
def owed (slot : Slot) (r : FileReader) : Bytes :=
  match slot with
  | .spent => r.release.rest
  | _ => r.rest

def FrontOk (slot : Slot) (r : FileReader) : Prop :=
  match slot with
  | .free => True
  | .peeked chunk => r.ring.head? = some chunk
  | .spent => r.ring ≠ []

/-- The bytes sent and the bytes owed are the file. -/
structure Feeds (path : Bytes) (size : ℕ) (data : Bytes) (slot : Slot) (r : FileReader) : Prop where
  running : r.abort = false
  front : FrontOk slot r
  whole : ∃ content, files path = some content ∧ data ++ owed slot r = content.take size

def StageOk (g : Wire) (r : FileReader) : Prop :=
  match g.stage with
  | .settled => Conversation files g.bytes
  | .accepted path size =>
    g.bytes = g.before ∧ Conversation files g.before ∧ Feeds files path size [] g.slot r
  | .streaming path h data =>
    g.bytes = g.before ++ encodeUploadHeader h ++ data ∧ Conversation files g.before ∧
      Feeds files path h.fileSize data g.slot r
  | .broken => True

def WireOk (g : Wire) (w : World) : Prop := w.reader.Sound ∧ StageOk files g w.reader

/-- An upload is taken only by a reader whose ring is empty. -/
def NoLeftover (_ : Wire) (w : World) : Op → Prop
  | .beginUpload _ _ => w.reader.uploading = false → w.reader.ring = []
  | _ => True

end Exact

section Reader

variable {files : Bytes → Option Bytes} {path data : Bytes} {size : ℕ} {slot : Slot}
  {r r' : FileReader}

theorem ring_step (hs : r.readerStep = some r') : r.ring <+: r'.ring := by
  have hchunk : r.readChunk.ring = r.ring := by
    unfold FileReader.readChunk
    dsimp only
    split
    · rfl
    · split <;> rfl
  unfold FileReader.readerStep at hs
  split at hs
  all_goals first
    | (cases hs; exact List.prefix_append _ _)
    | (cases hs; exact ⟨[], by rw [List.append_nil, hchunk]⟩)
    | (cases hs; exact List.prefix_rfl)
    | (split at hs <;> cases hs; exact List.prefix_rfl)

theorem rest_release (hne : r.ring ≠ []) :
    r.rest = r.ring.headD [] ++ r.release.rest := by
  cases hr : r.ring with
  | nil => exact absurd hr hne
  | cons chunk ring => simp [FileReader.rest, FileReader.release, FileReader.inHand, hr]

theorem frontOk_prefix (h : FrontOk slot r) (hp : r.ring <+: r'.ring) : FrontOk slot r' := by
  obtain ⟨more, hm⟩ := hp
  cases slot with
  | free => trivial
  | peeked chunk =>
    change r.ring.head? = some chunk at h
    change r'.ring.head? = some chunk
    rw [← hm, List.head?_append, h]
    rfl
  | spent =>
    intro hn
    rw [hn] at hm
    exact h (List.append_eq_nil_iff.mp hm).1

theorem owed_grown (h : FrontOk slot r) (hp : r.ring <+: r'.ring) (hrest : r'.rest = r.rest) :
    owed slot r' = owed slot r := by
  cases slot with
  | free => exact hrest
  | peeked chunk => exact hrest
  | spent =>
    have hne : r.ring ≠ [] := h
    have hfront : FrontOk .spent r' := frontOk_prefix h hp
    have hne' : r'.ring ≠ [] := hfront
    have hhead : r'.ring.headD [] = r.ring.headD [] := by
      obtain ⟨more, hm⟩ := hp
      rw [← hm]
      cases hr : r.ring with
      | nil => exact absurd hr hne
      | cons chunk ring => rfl
    rw [rest_release hne, rest_release hne', hhead] at hrest
    exact List.append_cancel_left hrest

theorem feeds_step (hs : r.Sound) (h : Feeds files path size data slot r)
    (hst : r.readerStep = some r') : Feeds files path size data slot r' := by
  obtain ⟨hrest, habort⟩ := FileReader.rest_step hs h.running hst
  obtain ⟨content, hf, hw⟩ := h.whole
  have hp := ring_step hst
  exact ⟨habort.trans h.running, frontOk_prefix h.front hp,
    content, hf, by rw [owed_grown h.front hp hrest]; exact hw⟩

theorem feeds_peek (h : Feeds files path size data slot r) (hn : slot ≠ .spent) :
    Feeds files path size data ((r.tryPeek.map Slot.peeked).getD .free) r := by
  obtain ⟨content, hf, hw⟩ := h.whole
  have hrest : owed slot r = r.rest := by
    cases slot with
    | spent => exact absurd rfl hn
    | _ => rfl
  rw [hrest] at hw
  cases hp : r.tryPeek with
  | none => exact ⟨h.running, trivial, content, hf, hw⟩
  | some chunk => exact ⟨h.running, hp, content, hf, hw⟩

theorem feeds_spend {chunk : Bytes} (h : Feeds files path size data (.peeked chunk) r) :
    Feeds files path size (data ++ chunk) .spent r := by
  obtain ⟨content, hf, hw⟩ := h.whole
  have hhead : r.ring.head? = some chunk := h.front
  have hne : r.ring ≠ [] := by
    intro hn
    simp [hn] at hhead
  refine ⟨h.running, hne, content, hf, ?_⟩
  have : r.ring.headD [] = chunk := by rw [List.headD_eq_head?_getD, hhead]; rfl
  change data ++ r.rest = _ at hw
  rw [rest_release hne, this] at hw
  rw [List.append_assoc]
  exact hw

theorem feeds_release (h : Feeds files path size data .spent r) :
    Feeds files path size data .free r.release := by
  obtain ⟨content, hf, hw⟩ := h.whole
  exact ⟨h.running, trivial, content, hf, hw⟩

/-- As many bytes as announced are all of them. -/
theorem feeds_done (h : Feeds files path size data slot r) (hlen : size ≤ data.length) :
    ∃ content, files path = some content ∧ data = content.take size ∧ size ≤ content.length := by
  obtain ⟨content, hf, hw⟩ := h.whole
  have hl := congrArg List.length hw
  simp only [List.length_append, List.length_take] at hl
  have hnil : owed slot r = [] := List.length_eq_zero_iff.mp (by omega)
  rw [hnil, List.append_nil] at hw
  exact ⟨content, hf, hw, by omega⟩

/-- An idle reader with an empty ring starts out owing the file. -/
theorem feeds_begin {content : Bytes} (size : ℕ) (hs : r.Sound) (hu : r.uploading = false)
    (hr : r.ring = []) (hf : files path = some content) :
    Feeds files path size [] .free (r.beginUpload (some content) size).2 ∧
      (r.beginUpload (some content) size).2.Sound := by
  have hpc : r.pc = .waitUpload := by
    by_contra hne
    simp [hs.working hne] at hu
  have hb : (r.beginUpload (some content) size).2 =
      { r with file := content, remaining := size, uploading := true, error := "",
               abort := false, readComplete := false, failed := false } := by
    simp [FileReader.beginUpload, hu]
  rw [hb]
  refine ⟨⟨rfl, trivial, content, hf, ?_⟩, ⟨fun _ => rfl, ?_⟩⟩
  · simp [owed, FileReader.rest, FileReader.inHand, hr, hpc]
  · simp [hpc, FileReader.ReaderPc.last]

end Reader

section World

variable {files : Bytes → Option Bytes} {g : Wire} {w w' : World} {b : Bool}

theorem stageOk_reader {r' : FileReader} (h : StageOk files g w.reader)
    (hf : ∀ path size data, Feeds files path size data g.slot w.reader →
      Feeds files path size data g.slot r') : StageOk files g r' := by
  unfold StageOk at h ⊢
  split at h
  · exact h
  · exact ⟨h.1, h.2.1, hf _ _ _ h.2.2⟩
  · exact ⟨h.1, h.2.1, hf _ _ _ h.2.2⟩
  · trivial

/-- A step of the reader that changes neither its ring, its work nor its abort
flag. -/
theorem feeds_same {r r' : FileReader} {path data : Bytes} {size : ℕ} {slot : Slot}
    (hr : r'.ring = r.ring) (hp : r'.pc = r.pc) (hf : r'.file = r.file)
    (hm : r'.remaining = r.remaining) (ha : r'.abort = r.abort)
    (h : Feeds files path size data slot r) : Feeds files path size data slot r' := by
  have hrest : r'.rest = r.rest := by simp [FileReader.rest, FileReader.inHand, hr, hp, hf, hm]
  have hpre : r.ring <+: r'.ring := hr ▸ List.prefix_rfl
  obtain ⟨content, hc, hw⟩ := h.whole
  exact ⟨ha.trans h.running, frontOk_prefix h.front hpre, content, hc,
    by rw [owed_grown h.front hpre hrest]; exact hw⟩

theorem wireOk_reader {r' : FileReader} (hr : r'.ring = w.reader.ring)
    (hp : r'.pc = w.reader.pc) (hu : r'.uploading = w.reader.uploading)
    (hf : r'.file = w.reader.file) (hm : r'.remaining = w.reader.remaining)
    (ha : r'.abort = w.reader.abort) (h : WireOk files g w) :
    r'.Sound ∧ StageOk files g r' := by
  refine ⟨⟨fun hne => ?_, fun hl hab => ?_⟩,
    stageOk_reader h.2 fun _ _ _ => feeds_same hr hp hf hm ha⟩
  · rw [hu]
    exact h.1.working (hp ▸ hne)
  · rw [hf, hm]
    exact h.1.spent (hp ▸ hl) (ha ▸ hab)

theorem stageOk_atRest {r r' : FileReader} {slot : Slot} (hst : AtRest g.stage)
    (h : StageOk files g r) : StageOk files { g with slot := slot } r' := by
  rcases hst with hst | hst
  · simpa [StageOk, hst] using h
  · simp [StageOk, hst]

theorem wireOk_sent {m : Message} (h : WireOk files g w) (hm : mayHand g m) :
    StageOk files (Wire.next g (.send m) true) w.reader := by
  obtain ⟨-, h⟩ := h
  cases m with
  | header header =>
    obtain ⟨path, hst⟩ := hm
    simp only [StageOk, hst] at h
    obtain ⟨hb, hc, hf⟩ := h
    simp only [Wire.next, hst, Wire.sent, Wire.spend, StageOk, if_true]
    exact ⟨by simp [hb, Message.bytes], hc, hf⟩
  | chunk chunk =>
    obtain ⟨⟨path, header, data, hst⟩, hs⟩ := hm
    simp only [StageOk, hst] at h
    obtain ⟨hb, hc, hf⟩ := h
    rw [hs] at hf
    simp only [Wire.next, hst, Wire.sent, Wire.spend, StageOk, if_true]
    exact ⟨by simp [hb, Message.bytes], hc, feeds_spend hf⟩
  | trailer t =>
    obtain ⟨path, header, data, hst, hlen, hcrc, hn⟩ := hm
    simp only [StageOk, hst] at h
    obtain ⟨hb, hc, hf⟩ := h
    obtain ⟨content, hcont, hdata, hsize⟩ := feeds_done hf hlen
    simp only [Wire.next, hst, Wire.sent, Wire.spend, StageOk, if_true]
    have hex := Conversation.upload header.filename header.fileSize hc hcont hsize
    simpa [exactUpload, ← hdata, hb, Message.bytes, ← hcrc] using hex
  | request m =>
    have hst : g.stage = .settled := hm
    simp only [StageOk, hst] at h
    simp only [Wire.next, hst, Wire.sent, StageOk, if_true]
    exact h.request m
  | downloadDone =>
    have hst : g.stage = .settled := hm
    simp only [StageOk, hst] at h
    simp only [Wire.next, hst, Wire.sent, StageOk, if_true]
    exact h.downloadDone

theorem wireOk_begin {path : Bytes} {size : ℕ} (h : WireOk files g w) (hst : g.stage = .settled)
    (hleft : w.reader.uploading = false → w.reader.ring = []) :
    let r := w.reader.beginUpload (files path) size
    r.2.Sound ∧ StageOk files (Wire.next g (.beginUpload path size) r.1) r.2 := by
  intro r
  obtain ⟨hs, hok⟩ := h
  simp only [StageOk, hst] at hok
  have hsame (err : String) :
      StageOk files (Wire.next g (.beginUpload path size) (some err)) w.reader := by
    simpa [Wire.next, StageOk, hst] using hok
  by_cases hu : w.reader.uploading = true
  · have hr : r = (some "An upload is already in progress.", w.reader) := by
      simp [r, FileReader.beginUpload, hu]
    rw [hr]
    exact ⟨hs, hsame _⟩
  · cases hf : files path with
    | none =>
      have hr : r = (some "Cannot open the selected file.", w.reader) := by
        simp [r, FileReader.beginUpload, hu, hf]
      rw [hr]
      exact ⟨hs, hsame _⟩
    | some content =>
      have hu' : w.reader.uploading = false := by simpa using hu
      obtain ⟨hfeeds, hsound⟩ := feeds_begin size hs hu' (hleft hu') hf
      have hr : r = (none, (w.reader.beginUpload (some content) size).2) := by
        simp [r, FileReader.beginUpload, hu, hf]
      rw [hr]
      exact ⟨hsound, rfl, hok, hfeeds⟩

theorem wireOk_exec (op : Op) (h : WireOk files g w) (hm : wireRules.may g op)
    (hleft : NoLeftover g w op) :
    WireOk files (Wire.next g op (World.exec files op b w).1) (World.exec files op b w).2 := by
  cases op with
  | takeCommand =>
    simp only [World.exec]
    split <;> exact h
  | connect ip port =>
    cases b with
    | true => exact ⟨h.1, Conversation.nil⟩
    | false => exact h
  | send m =>
    cases b with
    | true => exact ⟨h.1, wireOk_sent h hm⟩
    | false => exact ⟨h.1, trivial⟩
  | beginUpload path size => exact wireOk_begin h hm hleft
  | abortUpload => exact ⟨⟨h.1.working, fun _ ha => by cases ha⟩, trivial⟩
  | tryPeek =>
    refine ⟨h.1, ?_⟩
    rcases hm with hrest | ⟨⟨path, header, data, hst⟩, hn⟩
    · exact stageOk_atRest hrest h.2
    · have hok := h.2
      simp only [World.exec, Wire.next]
      simp only [StageOk, hst] at hok ⊢
      exact ⟨hok.1, hok.2.1, feeds_peek hok.2.2 hn⟩
  | release =>
    refine ⟨⟨h.1.working, h.1.spent⟩, ?_⟩
    rcases hm with hrest | ⟨⟨path, header, data, hst⟩, hn⟩
    · exact stageOk_atRest hrest h.2
    · have hok := h.2
      simp only [World.exec, Wire.next]
      simp only [StageOk, hst] at hok ⊢
      rw [hn] at hok
      exact ⟨hok.1, hok.2.1, feeds_release hok.2.2⟩
  | takeError => exact wireOk_reader (w := w) rfl rfl rfl rfl rfl rfl h
  | _ => exact h

theorem wireOk_post (command : Command) (h : WireOk files g w) :
    WireOk files g (w.post command) := wireOk_reader (w := w) rfl rfl rfl rfl rfl rfl h

theorem wireOk_peer (d : Peer) (h : WireOk files g w) (hs : peer w d = some w') :
    WireOk files g w' := by
  cases d with
  | reader =>
    obtain ⟨r, hr, rfl⟩ := Option.map_eq_some_iff.mp hs
    exact ⟨FileReader.sound_step h.1 hr,
      stageOk_reader h.2 fun _ _ _ hf => feeds_step h.1 hf hr⟩
  | arrive bytes =>
    cases hs
    exact h
  | post command =>
    cases hs
    exact wireOk_post command h
  | frame =>
    cases hs
    exact h
  | click action =>
    simp only [peer] at hs
    split at hs
    · cases hs
      cases action with
      | connect =>
        simp only [World.click]
        split
        · exact h
        · split
          · exact h
          · exact wireOk_post _ h
      | send confirmed =>
        simp only [World.click]
        split
        · exact h
        · exact wireOk_post _ h
      | edit ip port => exact h
      | browse path name size => exact h
      | disconnect => exact wireOk_post _ h
      | cancel => exact wireOk_post _ h
      | requestResult => exact wireOk_post _ h
    · cases hs

end World

end LogTransfer.Client
