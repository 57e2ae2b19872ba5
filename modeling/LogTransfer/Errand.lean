import LogTransfer.ResultSize
import LogTransfer.SessionTape
import LogTransfer.DownloadConduct

/-!
# What a client and the server have to say to each other

An errand is one upload of a file, or the fetch of the rest of a result the
server still has. It fixes the bytes both sides are to send: the request, the
replies to it, and DownloadDone at the end. The checks are those of the file
dialog; a name that passes them is one the server takes.
-/

set_option autoImplicit false

namespace LogTransfer

namespace Client

section FileDialog

/-- The loop over the characters of a file name; the error is its text. -/
def nameError : Bytes → Option String
  | [] => none
  | b::rest =>
    if b.toNat < 0x20 || b.toNat = 0x7F then some "File name contains a control character."
    else if b = ch '/' || b = ch '\\' then some "File name contains a path separator."
    else nameError rest

def isAcceptableFileName (name : Bytes) : Option String :=
  if name.isEmpty || name.length > kMaxFilenameLen then
    some "File name must be 1 to 255 bytes when encoded as UTF-8."
  else nameError name

/-- The check of `queryFileSize` on the size that the file system gave. -/
def queryFileSize (size : ℕ) : Option String :=
  if size > kMaxFileSize then some "File is larger than the 8 GiB protocol limit." else none

theorem nameError_all (name : Bytes) (h : nameError name = none) :
    name.all (fun b => !(b ≤ 0x1F#8 || b = 0x7F#8 || b = 0x2F#8 || b = 0x5C#8)) = true := by
  induction name with
  | nil => rfl
  | cons b rest ih =>
    unfold nameError at h
    split at h
    · cases h
    · rename_i hctrl
      split at h
      · cases h
      · rename_i hsep
        rw [List.all_cons, ih h, Bool.and_true]
        simp only [Bool.or_eq_true, decide_eq_true_eq, not_or] at hctrl hsep
        have h1 : ¬ b ≤ 0x1F#8 := by
          rw [BitVec.le_def]
          have : (0x1F#8).toNat = 31 := rfl
          omega
        have h2 : b ≠ 0x7F#8 := fun hb => hctrl.2 (by rw [hb]; rfl)
        have h3 : b ≠ 0x2F#8 := fun hb => hsep.1 (by rw [hb]; rfl)
        have h4 : b ≠ 0x5C#8 := fun hb => hsep.2 (by rw [hb]; rfl)
        simp [h1, h2, h3, h4]

/-- The client's check of a name is as strict as the server's. -/
theorem acceptable_valid (name : Bytes) (h : isAcceptableFileName name = none) :
    isValidFilename name = true := by
  unfold isAcceptableFileName at h
  split at h
  · cases h
  · rename_i hlen
    simp only [Bool.or_eq_true, decide_eq_true_eq, not_or, Bool.not_eq_true] at hlen
    simp only [isValidFilename, Bool.and_eq_true, decide_eq_true_eq, Bool.not_eq_true']
    exact ⟨⟨hlen.1, Nat.le_of_not_lt hlen.2⟩, nameError_all name h⟩

theorem query_size (size : ℕ) (h : queryFileSize size = none) : size ≤ kMaxFileSize := by
  unfold queryFileSize at h
  split at h
  · cases h
  · rename_i hn
    exact Nat.le_of_not_lt hn

end FileDialog

end Client

/-- `path` is where the client finds the file, `offset` what it has of the
result. -/
inductive Task where
  | upload (path : Bytes)
  | resume (offset : ℕ)
  deriving DecidableEq, Repr

structure Errand [Doubles] where
  name : Bytes
  content : Bytes
  task : Task
  named : Client.isAcceptableFileName name = none
  sized : Client.queryFileSize content.length = none
  partly : ∀ n, task = .resume n → n ≤ (analyze content).csv.length

namespace Errand

variable [Doubles] (e : Errand)

def csv : Bytes := (analyze e.content).csv

/-- The record the server keeps of the upload. -/
def kept : RetainedResult :=
  { filename := e.name, fileSize := e.content.length, uploadCrc32 := crc32 0#32 e.content,
    csv := e.csv, csvCrc32 := (analyze e.content).crc32 }

def header : UploadHeader := { fileSize := e.content.length, filename := e.name }

def trailer : Bytes := encodeUploadTrailer { crc32 := crc32 0#32 e.content }

def claim (offset : ℕ) : ResultRequest :=
  Client.Service.requestOf (Client.ticketOf e.kept offset)

/-- The first message of the client. -/
def opening : Bytes :=
  match e.task with
  | .upload _ => encodeUploadHeader e.header
  | .resume n => encodeResultRequest (e.claim n)

def request : Bytes :=
  match e.task with
  | .upload _ => e.opening ++ e.content ++ e.trailer
  | .resume _ => e.opening

def ack : Bytes := encodeAck { status := .ok, receivedBytes := e.content.length }

def replies : List Bytes :=
  match e.task with
  | .upload _ => [e.ack, wholeHeader e.csv, e.csv]
  | .resume n => wholeHeader e.csv :: if n = e.csv.length then [] else [e.csv.drop n]

def stream : Bytes := e.replies.flatten

def Uploads : Prop := ∃ path, e.task = .upload path

theorem valid : isValidFilename e.name = true := Client.acceptable_valid _ e.named

theorem size_le : e.content.length ≤ kMaxFileSize := Client.query_size _ e.sized

theorem sealed_csv : e.kept.csvCrc32 = crc32 0#32 e.csv := analyze_sealed e.content

variable {e}

theorem offset_le {n : ℕ} (h : e.task = .resume n) : n ≤ e.csv.length := e.partly n h

section Opening

theorem opening_upload {path : Bytes} (h : e.task = .upload path) :
    e.opening = encodeUploadHeader e.header := by
  simp only [opening, h]

theorem opening_resume {n : ℕ} (h : e.task = .resume n) :
    e.opening = encodeResultRequest (e.claim n) := by
  simp only [opening, h]

theorem request_upload {path : Bytes} (h : e.task = .upload path) :
    e.request = e.opening ++ e.content ++ e.trailer := by
  simp only [request, h]

theorem request_resume {n : ℕ} (h : e.task = .resume n) : e.request = e.opening := by
  simp only [request, h]

theorem replies_upload {path : Bytes} (h : e.task = .upload path) :
    e.replies = [e.ack, wholeHeader e.csv, e.csv] := by
  simp only [replies, h]

theorem replies_resume {n : ℕ} (h : e.task = .resume n) :
    e.replies = wholeHeader e.csv :: if n = e.csv.length then [] else [e.csv.drop n] := by
  simp only [replies, h]

theorem headerOf_opening {path : Bytes} (h : e.task = .upload path) :
    Reception.HeaderOf e.opening e.header := by
  rw [opening_upload h]
  exact ⟨decodeUploadHeader_encode _ e.size_le e.valid, encodeUploadHeader_length _⟩

theorem requestOf_opening (hsize : e.csv.length ≤ kMaxCsvSize) {n : ℕ}
    (h : e.task = .resume n) : Reception.RequestOf e.opening (e.claim n) := by
  rw [opening_resume h]
  refine ⟨decodeResultRequest_encode _ ⟨e.size_le, ?_, e.valid⟩, encodeResultRequest_length _⟩
  exact (offset_le h).trans hsize

theorem whole_opening (hsize : e.csv.length ≤ kMaxCsvSize) :
    (Framer.reset .uploadHeader .resultRequest).Whole e.opening := by
  cases h : e.task with
  | upload path => exact Reception.whole_headerOf _ _ (headerOf_opening h)
  | resume n => exact Reception.whole_requestOf _ _ (requestOf_opening hsize h)

theorem trailerOf_trailer (e : Errand) :
    Reception.TrailerOf e.trailer { crc32 := crc32 0#32 e.content } :=
  ⟨decodeUploadTrailer_encode _, encodeUploadTrailer_length _⟩

theorem whole_trailer (e : Errand) :
    (Framer.reset .uploadTrailer .uploadTrailer).Whole e.trailer :=
  Reception.whole_trailerOf _ _ (trailerOf_trailer e)

omit [Doubles] in
theorem whole_done : (Framer.reset .downloadDone .downloadDone).Whole encodeDownloadDone := by
  refine ⟨by rfl, by decide, .inl (by rfl)⟩

end Opening

section Replies

omit [Doubles] in
theorem wholeHeader_ne_nil (csv : Bytes) : wholeHeader csv ≠ [] := Client.announce_ne_nil csv

theorem reply_ne_nil (r : Bytes) (h : r ∈ e.replies) : r ≠ [] := by
  cases ht : e.task with
  | upload path =>
    rw [replies_upload ht] at h
    simp only [List.mem_cons, List.not_mem_nil, or_false] at h
    rcases h with rfl | rfl | rfl
    · exact Client.ackOf_ne_nil e.kept
    · exact wholeHeader_ne_nil _
    · exact csv_ne_nil _
  | resume n =>
    have hle := offset_le ht
    rw [replies_resume ht] at h
    split at h
    · simp only [List.mem_singleton] at h
      rw [h]
      exact wholeHeader_ne_nil _
    · rename_i hne
      simp only [List.mem_cons, List.not_mem_nil, or_false] at h
      rcases h with rfl | rfl
      · exact wholeHeader_ne_nil _
      · intro hn
        have := List.drop_eq_nil_iff.mp hn
        omega

theorem replies_pos (e : Errand) : 0 < e.replies.length := by
  cases ht : e.task with
  | upload path => simp [replies_upload ht]
  | resume n => simp [replies_resume ht]

theorem trailer_pos (e : Errand) : 0 < e.trailer.length := by
  rw [trailer, encodeUploadTrailer_length]
  decide

theorem request_pos (e : Errand) : 0 < e.request.length := by
  cases ht : e.task with
  | upload path =>
    have := trailer_pos e
    rw [request_upload ht, List.length_append]
    omega
  | resume n =>
    rw [request_resume ht, opening_resume ht, encodeResultRequest_length]
    exact Nat.add_pos_left (by decide) _

/-- Replies are complete once all their bytes are out. -/
theorem replies_complete {sent : List Bytes} (h : sent <+: e.replies)
    (hall : e.stream.length ≤ sent.flatten.length) : sent = e.replies := by
  obtain ⟨rest, hr⟩ := h
  have hlen : e.stream.length = sent.flatten.length + rest.flatten.length := by
    rw [stream, ← hr, List.flatten_append, List.length_append]
  have hnil : rest.flatten = [] := List.length_eq_zero_iff.mp (by omega)
  have hrest : rest = [] := by
    cases rest with
    | nil => rfl
    | cons r rest =>
      have hne := reply_ne_nil r (by rw [← hr]; simp)
      rw [List.flatten_cons, List.append_eq_nil_iff] at hnil
      exact absurd hnil.1 hne
  rw [← hr, hrest, List.append_nil]

end Replies

end Errand

end LogTransfer
