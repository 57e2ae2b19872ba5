import LogTransfer.UploadConduct

/-!
# An upload is the file and nothing else

Whenever the trailer is about to be handed over, the connection was given the
header and exactly the announced bytes of the file, as long as no upload is
taken over a ring that still holds a slot. A reader that was aborted between
its read and its commit can leave such a slot after the loop drained the ring.
-/

set_option autoImplicit false

namespace LogTransfer.Client
open Program Interleave

variable {files : Bytes → Option Bytes}

theorem wire_discipline :
    Discipline (machine files Wire.next) wireRules (onOps NoLeftover) (WireOk files) Between where
  start g s l e p s' hb hj _ hs := by
    simp only [machine] at hs
    split at hs
    · rename_i hready
      cases hs
      refine ⟨callback_between e hb hready, ?_⟩
      cases e with
      | async passes => exact wireOk_reader (w := s) rfl rfl rfl rfl rfl rfl hj
      | _ => exact hj
    · cases hs
  op g s o b hj hm hleft := ⟨trivial, wireOk_exec o hj hm hleft⟩
  peer g s d s' hj _ hs := wireOk_peer d hj hs

theorem wire_initial : Held (machine files Wire.next) wireRules (WireOk files) Between
    (clientInitial Wire.initial) := by
  refine ⟨.inl ⟨⟨nofun, nofun⟩, rfl, .inl rfl⟩, FileReader.sound_initial, ?_⟩
  exact Conversation.nil

/-- With the trailer the connection has been given `before` and one whole
upload. -/
def SentExactly (files : Bytes → Option Bytes) (c : ClientState Wire) : Prop :=
  ∀ t, c.pending = some (.send (.trailer t)) →
    ∃ path header data content, c.ghost.stage = .streaming path header data ∧
      files path = some content ∧ header.fileSize ≤ content.length ∧
      Conversation files c.ghost.before ∧
      c.ghost.bytes ++ encodeUploadTrailer t =
        c.ghost.before ++ exactUpload header.filename content header.fileSize

/-- In every run in which no upload is taken over a leftover slot, every upload
whose trailer is sent was sent exactly. -/
theorem upload_stream_exact (files : Bytes → Option Bytes) (c : ClientState Wire)
    (h : Reach (machine files Wire.next) (onOps NoLeftover) (clientInitial Wire.initial) c) :
    SentExactly files c := by
  intro t hp
  have hheld := reach_held _ wire_discipline wire_initial h
  obtain ⟨path, header, data, hst, hlen, hcrc, -⟩ := held_pending _ hheld hp
  have hok := hheld.2.2
  simp only [StageOk, hst] at hok
  obtain ⟨hb, hc, hf⟩ := hok
  obtain ⟨content, hcont, hdata, hsize⟩ := feeds_done hf hlen
  refine ⟨path, header, data, content, hst, hcont, hsize, hc, ?_⟩
  obtain ⟨crc⟩ := t
  have hcrc : crc = crc32 0#32 data := hcrc
  simp [exactUpload, ← hdata, hb, hcrc]

section Schedules

def posted (command : Command) : List (Act Signal Peer) := [.peer (.post command)]

def readerSteps (n : ℕ) : List (Act Signal Peer) := List.replicate n (.peer .reader)

/-- The first `n` operations of a callback, all of them answered with success. -/
def signal (e : Signal) (n : ℕ) : List (Act Signal Peer) :=
  .start e :: List.replicate n (.loop true)

def connecting : List (Act Signal Peer) :=
  posted (.connect (bytesOf "h") 1) ++ signal (.async 1) 5 ++ signal (.connectDone true []) 2

def twoFiles (path : Bytes) : Option Bytes :=
  if path = bytesOf "a" then some (bytesOf "xy")
  else if path = bytesOf "b" then some (bytesOf "z")
  else none

def streamed : List (Act Signal Peer) :=
  connecting ++ posted (.startUpload (bytesOf "a") (bytesOf "a") 2) ++ signal (.async 1) 17 ++
    readerSteps 11 ++ signal (.async 0) 8

def clean (c : ClientState Wire) (_ : Act Signal Peer) : Bool :=
  match c.pending with
  | some (.beginUpload _ _) => c.shared.reader.uploading || c.shared.reader.ring.isEmpty
  | _ => true

theorem clean_allowed (c : ClientState Wire) (a : Act Signal Peer) (h : clean c a = true) :
    Allowed (onOps NoLeftover) c a := by
  refine allowed_onOps (fun op hop => ?_) a
  cases op with
  | beginUpload path size =>
    intro hu
    simpa [clean, hop, hu] using h
  | _ => trivial

def trailerDue (c : ClientState Wire) : Bool :=
  match c.pending with
  | some (.send (.trailer _)) => true
  | _ => false

end Schedules

theorem uploaded_file_exact : ∃ c : ClientState Wire,
    trailerDue c = true ∧ SentExactly twoFiles c := by
  have hrun : ((run (machine twoFiles Wire.next) clean (clientInitial Wire.initial)
      streamed).map trailerDue) = some true := by decide
  obtain ⟨c, hc, ht⟩ := Option.map_eq_some_iff.mp hrun
  exact ⟨c, ht, upload_stream_exact twoFiles c (run_reach _ clean_allowed _ _ _ hc)⟩

/-- The first upload is cancelled after its reader read a chunk. The second is
drained for, then the old chunk is committed, then the reader is found idle. -/
def overtaken : List (Act Signal Peer) :=
  connecting ++ posted (.startUpload (bytesOf "a") (bytesOf "a") 2) ++ signal (.async 1) 17 ++
    readerSteps 4 ++ posted .cancelUpload ++ signal (.async 1) 6 ++
    signal (.writeDone true []) 0 ++ signal .closed 1 ++
    connecting ++ posted (.startUpload (bytesOf "b") (bytesOf "b") 1) ++ signal (.async 1) 2 ++
    readerSteps 4 ++ List.replicate 18 (.loop true) ++ readerSteps 11 ++ signal (.async 0) 8

theorem upload_not_always_exact :
    ¬ ∀ (files : Bytes → Option Bytes) (c : ClientState Wire),
      Reach (machine files Wire.next) Always (clientInitial Wire.initial) c →
        SentExactly files c := by
  intro h
  have hrun : ((run (machine twoFiles Wire.next) (fun _ _ => true) (clientInitial Wire.initial)
      overtaken).map fun c => (trailerDue c, c.ghost)) = some (true,
        { bytes := encodeUploadHeader { fileSize := 1, filename := bytesOf "b" } ++ bytesOf "xyz",
          before := [], slot := .free,
          stage := .streaming (bytesOf "b") { fileSize := 1, filename := bytesOf "b" }
            (bytesOf "xyz") }) := by decide
  obtain ⟨c, hc, hk⟩ := Option.map_eq_some_iff.mp hrun
  simp only [Prod.mk.injEq] at hk
  obtain ⟨hdue, hg⟩ := hk
  have hr : Reach _ Always _ c := run_always _ hc
  unfold trailerDue at hdue
  split at hdue
  · rename_i t hp
    obtain ⟨path, header, data, content, hst, hf, hl, -, heq⟩ := h twoFiles c hr t hp
    rw [hg] at hst heq
    simp only [Stage.streaming.injEq] at hst
    obtain ⟨rfl, rfl, -⟩ := hst
    cases hf
    have := congrArg List.length heq
    revert this
    simp [exactUpload, encodeUploadHeader, encodeUploadTrailer, preamble_length, putU64, putU32,
      putU16, putBE_length]
    decide
  · cases hdue

end LogTransfer.Client
