import LogTransfer.Crc32

/-!
# File reader of the client

The producer thread of an upload. Each step of `readerStep` is one shared
access of `run` or `readLoop`; a section under the mutex is one step. A read
from the file and the commit of what it read are two steps, so the loop thread
can abort, drain the ring and go on in between.
-/

set_option autoImplicit false

namespace LogTransfer.Client

def kDefaultSlotCount : ℕ := 64
def kDefaultSlotSize : ℕ := 64 * 1024

inductive ReaderPc where
  | waitUpload
  | checkAbort | acquire | waitSpace | woken | read
  | commit (chunk : Bytes) | wakeChunk
  | complete | wakeLast | leave
  deriving DecidableEq, Repr

/-- `file` is what is left of the open file. -/
structure FileReader where
  ring : List Bytes
  uploading : Bool
  file : Bytes
  remaining : ℕ
  error : String
  abort : Bool
  readComplete : Bool
  failed : Bool
  wake : Bool
  pc : ReaderPc
  deriving DecidableEq, Repr

namespace FileReader

def initial : FileReader :=
  { ring := [], uploading := false, file := [], remaining := 0, error := "", abort := false,
    readComplete := false, failed := false, wake := false, pc := .waitUpload }

def goto (r : FileReader) (pc : ReaderPc) : FileReader := { r with pc := pc }

section Loop

/-- The loop thread's side of a new upload. `file` is the answer of the file
system; the error is what `beginUpload` leaves in its last argument. -/
def beginUpload (r : FileReader) (file : Option Bytes) (size : ℕ) : Option String × FileReader :=
  if r.uploading then (some "An upload is already in progress.", r)
  else
    match file with
    | none => (some "Cannot open the selected file.", r)
    | some content =>
      (none, { r with file := content, remaining := size, uploading := true, error := "",
                      abort := false, readComplete := false, failed := false })

def abortUpload (r : FileReader) : FileReader := { r with abort := true }

def takeError (r : FileReader) : String × FileReader := (r.error, { r with error := "" })

def tryPeek (r : FileReader) : Option Bytes := r.ring.head?

def release (r : FileReader) : FileReader := { r with ring := r.ring.tail }

end Loop

section Thread

def full (r : FileReader) : Bool := r.ring.length = kDefaultSlotCount

/-- The section of `readLoop` under the mutex. -/
def readChunk (r : FileReader) : FileReader :=
  let toRead := min kDefaultSlotSize r.remaining
  if toRead = 0 then r.goto .complete
  else if r.file.isEmpty then
    { r with error := "File ended earlier than its reported size.", failed := true,
             pc := .wakeLast }
  else
    let chunk := r.file.take toRead
    { r with file := r.file.drop toRead, remaining := r.remaining - chunk.length,
             pc := .commit chunk }

-- `none`: asleep in the condition variable. The quit flag is left out.
def readerStep (r : FileReader) : Option FileReader :=
  match r.pc with
  | .waitUpload => if r.uploading then some (r.goto .checkAbort) else none
  | .checkAbort => some (r.goto (if r.abort then .leave else .acquire))
  | .acquire => some (r.goto (if r.full then .waitSpace else .read))
  | .waitSpace => if r.abort || !r.full then some (r.goto .woken) else none
  | .woken => some (r.goto (if r.abort then .leave else .checkAbort))
  | .read => some r.readChunk
  | .commit chunk => some { r with ring := r.ring ++ [chunk], pc := .wakeChunk }
  | .wakeChunk => some { r with wake := true, pc := .checkAbort }
  | .complete => some { r with readComplete := true, pc := .wakeLast }
  | .wakeLast => some { r with wake := true, pc := .leave }
  | .leave => some { r with file := [], uploading := false, pc := .waitUpload }

/-- The chunk read and not yet committed. -/
def inHand (r : FileReader) : Bytes :=
  match r.pc with
  | .commit chunk => chunk
  | _ => []

/-- What the ring, the thread and the file still owe the reader of the ring. -/
def rest (r : FileReader) : Bytes := r.ring.flatten ++ r.inHand ++ r.file.take r.remaining

def ReaderPc.last : ReaderPc → Bool
  | .complete | .wakeLast | .leave => true
  | _ => false

/-- Outside `waitUpload` the thread works on an upload it has not closed, and
it is about to close one that was aborted or has nothing left to read. -/
structure Sound (r : FileReader) : Prop where
  working : r.pc ≠ .waitUpload → r.uploading = true
  spent : ReaderPc.last r.pc = true → r.abort = false → r.file.take r.remaining = []

theorem sound_initial : Sound initial := ⟨fun h => absurd rfl h, nofun⟩

theorem sound_goto {r : FileReader} {pc : ReaderPc} (h : r.Sound) (hpc : r.pc ≠ .waitUpload)
    (hl : ReaderPc.last pc = true → r.abort = true) : (r.goto pc).Sound := by
  refine ⟨fun _ => h.working hpc, fun hlast ha => ?_⟩
  have : r.abort = false := ha
  simp [hl hlast] at this

theorem sound_readChunk {r : FileReader} (h : r.Sound) (hpc : r.pc = .read) :
    r.readChunk.Sound := by
  have hu : r.uploading = true := h.working (by simp [hpc])
  unfold readChunk
  dsimp only
  split
  · rename_i hz
    have hrem : r.remaining = 0 := by
      have : kDefaultSlotSize = 65536 := rfl
      omega
    exact ⟨fun _ => hu, fun _ _ => by simp [goto, hrem]⟩
  · split
    · rename_i he
      exact ⟨fun _ => hu, fun _ _ => by simp [List.isEmpty_iff.mp he]⟩
    · exact ⟨fun _ => hu, nofun⟩

theorem sound_step {r r' : FileReader} (h : r.Sound) (hs : r.readerStep = some r') :
    r'.Sound := by
  unfold readerStep at hs
  cases hpc : r.pc with
  | waitUpload =>
    simp only [hpc] at hs
    split at hs
    · rename_i hu
      cases hs
      exact ⟨fun _ => hu, nofun⟩
    · cases hs
  | checkAbort =>
    simp only [hpc] at hs
    cases hs
    exact sound_goto h (by simp [hpc]) (by split <;> simp_all [ReaderPc.last])
  | acquire =>
    simp only [hpc] at hs
    cases hs
    exact sound_goto h (by simp [hpc]) (by split <;> simp [ReaderPc.last])
  | waitSpace =>
    simp only [hpc] at hs
    split at hs
    · cases hs
      exact sound_goto h (by simp [hpc]) (by simp [ReaderPc.last])
    · cases hs
  | woken =>
    simp only [hpc] at hs
    cases hs
    exact sound_goto h (by simp [hpc]) (by split <;> simp_all [ReaderPc.last])
  | read =>
    simp only [hpc] at hs
    cases hs
    exact sound_readChunk h hpc
  | commit chunk =>
    simp only [hpc] at hs
    cases hs
    exact ⟨fun _ => h.working (by simp [hpc]), nofun⟩
  | wakeChunk =>
    simp only [hpc] at hs
    cases hs
    exact ⟨fun _ => h.working (by simp [hpc]), nofun⟩
  | complete =>
    simp only [hpc] at hs
    cases hs
    exact ⟨fun _ => h.working (by simp [hpc]),
      fun _ ha => h.spent (by simp [hpc, ReaderPc.last]) ha⟩
  | wakeLast =>
    simp only [hpc] at hs
    cases hs
    exact ⟨fun _ => h.working (by simp [hpc]),
      fun _ ha => h.spent (by simp [hpc, ReaderPc.last]) ha⟩
  | leave =>
    simp only [hpc] at hs
    cases hs
    exact ⟨fun hne => absurd rfl hne, nofun⟩

theorem take_chunk (file : Bytes) (n remaining : ℕ) (h : n ≤ remaining) :
    file.take n ++ (file.drop n).take (remaining - (file.take n).length) =
      file.take remaining := by
  by_cases hl : n ≤ file.length
  · rw [List.length_take_of_le hl, ← List.take_add, Nat.add_sub_of_le h]
  · rw [List.drop_of_length_le (by omega), List.take_nil, List.append_nil,
      List.take_of_length_le (by omega), List.take_of_length_le (by omega)]

theorem rest_readChunk (r : FileReader) (hpc : r.pc = .read) : r.readChunk.rest = r.rest := by
  unfold readChunk
  dsimp only
  split
  · simp [rest, goto, inHand, hpc]
  · split
    · simp [rest, inHand, hpc]
    · simp only [rest, inHand, hpc, List.append_nil]
      rw [List.append_assoc, take_chunk _ _ _ (Nat.min_le_right _ _)]

/-- While an upload is not aborted, no step of the thread changes what it
owes. -/
theorem rest_step {r r' : FileReader} (h : r.Sound) (ha : r.abort = false)
    (hs : r.readerStep = some r') : r'.rest = r.rest ∧ r'.abort = r.abort := by
  unfold readerStep at hs
  cases hpc : r.pc with
  | leave =>
    simp only [hpc] at hs
    cases hs
    have := h.spent (by simp [hpc, ReaderPc.last]) ha
    simp [rest, inHand, hpc, this]
  | read =>
    simp only [hpc] at hs
    cases hs
    refine ⟨rest_readChunk r hpc, ?_⟩
    unfold readChunk
    dsimp only
    split
    · rfl
    · split <;> rfl
  | waitUpload =>
    simp only [hpc] at hs
    split at hs
    · cases hs
      simp [rest, goto, inHand, hpc]
    · cases hs
  | waitSpace =>
    simp only [hpc] at hs
    split at hs
    · cases hs
      simp [rest, goto, inHand, hpc]
    · cases hs
  | checkAbort =>
    simp only [hpc] at hs
    cases hs
    split <;> simp [rest, goto, inHand, hpc]
  | acquire =>
    simp only [hpc] at hs
    cases hs
    split <;> simp [rest, goto, inHand, hpc]
  | woken =>
    simp only [hpc] at hs
    cases hs
    split <;> simp [rest, goto, inHand, hpc]
  | commit chunk =>
    simp only [hpc] at hs
    cases hs
    simp [rest, inHand, hpc]
  | wakeChunk =>
    simp only [hpc] at hs
    cases hs
    simp [rest, inHand, hpc]
  | complete =>
    simp only [hpc] at hs
    cases hs
    simp [rest, inHand, hpc]
  | wakeLast =>
    simp only [hpc] at hs
    cases hs
    simp [rest, inHand, hpc]

end Thread

end FileReader

end LogTransfer.Client
