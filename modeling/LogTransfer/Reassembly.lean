import LogTransfer.DownloadConduct
import LogTransfer.ResultMatch

/-!
# A resumed download is the original

From the state in which the upload's Ack is awaited, through any number of
lost connections and requests, the service holds a prefix of the record, asks
for exactly the rest, and shows Done only with the whole record stored. The
last part holds in every run, whatever the server sends.
-/

set_option autoImplicit false

namespace LogTransfer.Client
open Program Interleave

/-- The service after `finishUpload`, on a connection that works. -/
structure Waiting (kept : RetainedResult) (s : Service) : Prop where
  expecting : s.expecting = .ack
  framer : s.framer = Framer.reset .ack .ack
  upload : s.uploading = false
  bare : s.hasClaim = false ∧ s.csv = []
  ticket : s.uploadFilename = kept.filename ∧ s.uploadTotal = kept.fileSize ∧
    s.uploadCrc = kept.uploadCrc32
  timer : s.connectTimer = false
  socket : ∃ k, s.socket = some k ∧ k.connected = true ∧ k.connecting = false ∧ k.closing = false

/-- The server has the upload, and none of its answer has arrived. -/
structure AwaitsAck (kept : RetainedResult) (c : ClientState Download) : Prop where
  thread : ∃ s, c.thread = .done s ∧ Waiting kept s
  ghost : c.ghost = { stream := firstDelivery kept, got := [], stored := false }
  inbox : c.shared.inbox = []
  screen : c.shared.drained.session ≠ .done

variable {files : Bytes → Option Bytes} {kept : RetainedResult} {c₀ c : ClientState Download}

theorem download_discipline (hmax : kept.csv.length ≤ kMaxCsvSize) :
    Discipline (machine files (Download.next kept)) (downloadRules kept) (Rounds files)
      (Delivers kept) (Follows kept) where
  start g s l e p s' hb hj _ hs := by
    simp only [machine] at hs
    split at hs
    · rename_i hready
      cases hs
      refine ⟨callback_follows hmax e hb hready, ?_⟩
      cases e with
      | async passes => exact ⟨hj.inbox, hj.stored, hj.shown⟩
      | _ => exact hj
    · cases hs
  op g s o b hj hm hl := delivers_exec o b hj hm hl
  peer g s d s' hj hl hs := delivers_peer d hj hl hs

theorem waiting_follows {s : Service} {g : Download} (h : Waiting kept s)
    (hs : g.stream = firstDelivery kept) (hg : g.got = []) : Follows kept g s := by
  obtain ⟨k, hk, hconn, hdial, hopen⟩ := h.socket
  refine ⟨⟨⟨fun ht => ?_, fun k' hk' hd => ?_⟩, fun k' hk' _ => ?_, h.upload, ?_⟩, fun _ => ?_, ?_⟩
  · simp [h.timer] at ht
  · obtain rfl : k = k' := by simpa [hk] using hk'
    simp [hdial] at hd
  · obtain rfl : k = k' := by simpa [hk] using hk'
    exact hopen
  · refine ⟨h.bare.2 ▸ List.nil_prefix, fun hn => ?_, fun _ => h.bare.2,
      fun _ => ⟨h.bare.1, h.ticket⟩⟩
    simp [h.bare.1] at hn
  · exact ⟨k, hk, fun hn => by simp [hconn] at hn, fun hc => by simp [hopen] at hc⟩
  · simp only [Track, h.expecting, h.framer]
    refine ⟨hs, ?_⟩
    rw [hg]
    exact midway_reset _ _ (ackOf_ne_nil kept)

theorem download_held (hmax : kept.csv.length ≤ kMaxCsvSize) (h₀ : AwaitsAck kept c₀)
    (h : Reach (machine files (Download.next kept)) (Rounds files) c₀ c) :
    Held (machine files (Download.next kept)) (downloadRules kept) (Delivers kept)
      (Follows kept) c := by
  refine reach_held _ (download_discipline hmax) ?_ h
  obtain ⟨s, ht, hw⟩ := h₀.thread
  refine ⟨?_, ?_⟩
  · rw [ht, h₀.ghost]
    exact waiting_follows hw rfl rfl
  · rw [h₀.ghost]
    refine ⟨by simp [h₀.inbox], nofun, fun hd => absurd hd h₀.screen⟩

/-- A resumable download reassembles the original. The first four parts are
about every run of rounds against a server that keeps `kept`; the last is about
every run. -/
theorem resumed_download_exact (files : Bytes → Option Bytes) (kept : RetainedResult)
    (c₀ c : ClientState Download) (hmax : kept.csv.length ≤ kMaxCsvSize)
    (h₀ : AwaitsAck kept c₀)
    (h : Reach (machine files (Download.next kept)) (Rounds files) c₀ c) :
    (∀ s, c.thread = .done s → s.csv <+: kept.csv) ∧
    (∀ s q, c.pending = some (.note (.request s q)) → s.csv <+: kept.csv ∧
      s.claim.received = s.csv.length ∧ q.startOffset = s.csv.length) ∧
    (∀ s, c.pending = some (.note (.payload s)) → s.csv <+: kept.csv ∧
      s.csv.length ≤ s.csvSize) ∧
    (c.shared.drained.session = .done → c.shared.resultCsv = kept.csv) ∧
    ∀ (d : ClientState (Option ResultHeader)) csv,
      Reach (machine files lastHeader) Always (clientInitial none) d →
      d.pending = some (.setResult csv) → ∃ header, d.ghost = some header ∧
        csv.length = header.csvSize ∧ crc32 0#32 csv = header.crc32 := by
  have hheld := download_held hmax h₀ h
  refine ⟨fun s ht => ?_, fun s q hp => ?_, fun s hp => ?_, fun hd => ?_, fun d csv hr hp => ?_⟩
  · have hf := hheld.1
    rw [ht] at hf
    exact hf.1.holds.csv
  · obtain ⟨hcsv, hrec, hq⟩ := held_pending _ hheld hp
    exact ⟨hcsv, hrec, by rw [hq]; exact hrec⟩
  · exact held_pending _ hheld hp
  · exact hheld.2.stored (hheld.2.shown hd)
  · exact stored_matches hr hp

section Schedules

def recordB : RetainedResult :=
  { filename := bytesOf "b", fileSize := 1, uploadCrc32 := crc32 0#32 (bytesOf "z"),
    csv := bytesOf "qr", csvCrc32 := crc32 0#32 (bytesOf "qr") }

def uploadedB : List (Act Signal Peer) :=
  connecting ++ posted (.startUpload (bytesOf "b") (bytesOf "b") 1) ++ signal (.async 1) 17 ++
    readerSteps 11 ++ signal (.async 0) 11

/-- Half of the result, the loss of the connection, and one round. -/
def oneRound : List (Act Signal Peer) :=
  [.peer (.arrive (ackOf recordB ++ announce recordB.csv ++ bytesOf "q"))] ++
    signal (.readable 65536) 8 ++ signal (.readError none) 3 ++ signal (.writeDone true []) 0 ++
    signal (.writeDone true []) 0 ++ signal (.writeDone true []) 0 ++ signal .closed 1 ++
    connecting ++ posted .requestResult ++ signal (.async 1) 6 ++
    [.peer (.arrive (announce recordB.csv ++ bytesOf "r"))] ++ signal (.readable 65536) 10

def orderly (c : ClientState Download) : Act Signal Peer → Bool
  | .loop _ =>
    match c.pending with
    | some (.send (.request _)) => c.ghost.stream.isEmpty
    | some (.beginUpload _ _) => false
    | _ => true
  | .peer (.arrive bytes) => (c.ghost.got ++ c.shared.inbox ++ bytes).isPrefixOf c.ghost.stream
  | _ => true

theorem orderly_allowed (files : Bytes → Option Bytes) (c : ClientState Download)
    (a : Act Signal Peer) (h : orderly c a = true) : Allowed (Rounds files) c a := by
  cases a with
  | start e =>
    simp only [Allowed]
    split <;> trivial
  | loop b =>
    simp only [Allowed]
    split
    · trivial
    · rename_i op k ht
      have hp : c.pending = some op := by simp [Config.pending, ht]
      simp only [orderly, hp] at h
      cases op with
      | send m =>
        cases m with
        | request q => exact List.isEmpty_iff.mp h
        | _ => trivial
      | beginUpload path size => cases h
      | _ => trivial
  | peer d =>
    cases d with
    | arrive bytes => exact List.isPrefixOf_iff_prefix.mp h
    | _ => trivial

def idleService {G : Type} (c : ClientState G) : Option Service :=
  match c.thread with
  | .done s => some s
  | .call _ _ => none

theorem idleService_some {G : Type} {c : ClientState G} {s : Service}
    (h : idleService c = some s) : c.thread = .done s := by
  unfold idleService at h
  split at h
  · rename_i s' ht
    cases h
    exact ht
  · cases h

/-- The service once the trailer of `b` is out. -/
def awaitingB : Service :=
  { Service.initial with
    socket := some { connecting := false, connected := true, reading := true, closing := false,
                     pendingWrites := 3 },
    inFlightWrites := 1, trailerSent := true, uploadTotal := 1, uploadSent := 1,
    uploadCrc := crc32 0#32 (bytesOf "z"), uploadFilename := bytesOf "b", expecting := .ack }

theorem waiting_awaitingB : Waiting recordB awaitingB :=
  ⟨rfl, rfl, rfl, ⟨rfl, rfl⟩, ⟨rfl, rfl, rfl⟩, rfl, _, rfl, rfl, rfl, rfl⟩

end Schedules

theorem one_round_suffices : ∃ c₀ c : ClientState Download,
    AwaitsAck recordB c₀ ∧
    Reach (machine twoFiles (Download.next recordB)) (Rounds twoFiles) c₀ c ∧
    c.shared.resultCsv = recordB.csv := by
  let M := machine twoFiles (Download.next recordB)
  have hrun : ((run M (fun _ _ => true) (clientInitial Download.initial) uploadedB).bind fun c₀ =>
      (run M orderly c₀ oneRound).map fun c => ((idleService c₀, c₀.ghost, c₀.shared.inbox,
        c₀.shared.drained.session), c.shared.drained.session)) =
      some ((some awaitingB, { stream := firstDelivery recordB, got := [], stored := false }, [],
        .waitAck), .done) := by decide
  obtain ⟨c₀, hc₀, hrest⟩ := Option.bind_eq_some_iff.mp hrun
  obtain ⟨c, hc, hk⟩ := Option.map_eq_some_iff.mp hrest
  simp only [Prod.mk.injEq] at hk
  obtain ⟨⟨hs, hg, hi, hses⟩, hdone⟩ := hk
  have haw : AwaitsAck recordB c₀ :=
    ⟨⟨awaitingB, idleService_some hs, waiting_awaitingB⟩, hg, hi, by simp [hses]⟩
  have hr := run_reach M (orderly_allowed twoFiles) _ _ _ hc
  refine ⟨c₀, c, haw, hr, ?_⟩
  exact (resumed_download_exact twoFiles recordB c₀ c (by decide) haw hr).2.2.2.1 hdone

end LogTransfer.Client
