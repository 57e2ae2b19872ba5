import LogTransfer.ResultShelf

/-!
# A verified result stays saveable

The screen offers Save while its session is Done. A stored result stays within
reach as long as nothing else writes the session: the user's Disconnect, the
connect timer, a failed DownloadDone and stray bytes from the server all do.
-/

set_option autoImplicit false

namespace LogTransfer.Client
open Program Interleave

section Runs

variable {files : Bytes → Option Bytes}

theorem shelf_discipline :
    Discipline (machine files Shelf.next) shelfRules Undisturbed Shows Kept where
  start g s l e p s' hb hj hl hs := by
    simp only [machine] at hs
    split at hs
    · rename_i hready
      cases hs
      refine ⟨callback_kept e hb hready hl, ?_⟩
      cases e <;> exact hj
    · cases hs
  op g s o b hj hm hl := shows_exec files o b hj hm hl
  peer g s d s' hj hl hs := shows_peer d hj hl hs

theorem shelf_initial :
    Held (machine files Shelf.next) shelfRules Shows Kept (clientInitial .empty) :=
  ⟨⟨⟨nofun, nofun⟩, .inl rfl⟩, nofun⟩

/-- A result was stored since the last upload, and the callback that stored it
is over or has announced it. -/
def Stored (c : ClientState Shelf) : Prop :=
  c.ghost = .saved ∨ c.ghost = .storing ∧ ∃ s, c.thread = .done s

/-- In every undisturbed run a stored result can be saved once the pending
events are drained. -/
theorem stored_result_saveable (files : Bytes → Option Bytes) (c : ClientState Shelf)
    (h : Reach (machine files Shelf.next) Undisturbed (clientInitial .empty) c)
    (hs : Stored c) : c.shared.drained.canSaveResult = true := by
  obtain ⟨hk, hj⟩ := reach_held _ shelf_discipline shelf_initial h
  have hg : c.ghost = .saved := by
    rcases hs with hg | ⟨hg, s, ht⟩
    · exact hg
    · rw [ht] at hk
      rcases hk.2 with he | ⟨hsv, -⟩
      · simp [hg] at he
      · exact hsv
  simpa [UiState.canSaveResult] using hj hg

section Schedules

/-- The server's side of the upload of `b`, and its result. -/
def served : Bytes :=
  encodeAck { status := .ok, receivedBytes := 1 } ++
    encodeResultHeader { csvSize := 1, crc32 := crc32 0#32 (bytesOf "q") } ++ bytesOf "q"

def downloaded : List (Act Signal Peer) :=
  connecting ++ posted (.startUpload (bytesOf "b") (bytesOf "b") 1) ++ signal (.async 1) 17 ++
    readerSteps 11 ++ signal (.async 0) 11 ++ [.peer (.arrive served)] ++
    signal (.readable 65536) 13 ++ [.peer .frame]

def calm (c : ClientState Shelf) : Act Signal Peer → Bool
  | .loop answer =>
    match c.pending with
    | some (.send .downloadDone) => answer
    | some (.note (.unexpected _)) => c.ghost ≠ .saved
    | _ => true
  | .start .connectTimeout => c.ghost ≠ .saved
  | .peer (.click .disconnect) => c.ghost ≠ .saved
  | _ => true

theorem calm_allowed (c : ClientState Shelf) (a : Act Signal Peer) (h : calm c a = true) :
    Allowed Undisturbed c a := by
  cases a with
  | start e =>
    simp only [Allowed]
    split
    · cases e with
      | connectTimeout =>
        intro hg
        simp [calm, hg] at h
      | _ => trivial
    · trivial
  | loop b =>
    simp only [Allowed]
    split
    · trivial
    · rename_i op k ht
      have hp : c.pending = some op := by simp [Config.pending, ht]
      simp only [calm, hp] at h
      cases op with
      | send m =>
        cases m with
        | downloadDone => exact h
        | _ => trivial
      | note n =>
        cases n with
        | unexpected count =>
          show c.ghost ≠ .saved
          simpa using h
        | _ => trivial
      | _ => trivial
  | peer d =>
    cases d with
    | click action =>
      cases action with
      | disconnect =>
        intro hg
        simp [calm, hg] at h
      | _ => trivial
    | _ => trivial

end Schedules

theorem downloaded_result_saveable : ∃ c : ClientState Shelf,
    c.shared.resultCsv = bytesOf "q" ∧ Stored c ∧ c.shared.drained.canSaveResult = true := by
  have hrun : ((run (machine twoFiles Shelf.next) calm (clientInitial .empty) downloaded).map
      fun c => (c.shared.resultCsv, c.ghost)) = some (bytesOf "q", .saved) := by decide +kernel
  obtain ⟨c, hc, hk⟩ := Option.map_eq_some_iff.mp hrun
  simp only [Prod.mk.injEq] at hk
  have hs : Stored c := .inl hk.2
  exact ⟨c, hk.1, hs,
    stored_result_saveable twoFiles c (run_reach _ calm_allowed _ _ _ hc) hs⟩

/-- The user presses Disconnect after the screen showed Done. -/
theorem stored_result_not_always_saveable :
    ¬ ∀ (files : Bytes → Option Bytes) (c : ClientState Shelf),
      Reach (machine files Shelf.next) Always (clientInitial .empty) c → Stored c →
        c.shared.drained.canSaveResult = true := by
  intro h
  have hrun : ((run (machine twoFiles Shelf.next) (fun _ _ => true) (clientInitial .empty)
      (downloaded ++ [.peer (.click .disconnect)])).map fun c =>
        (c.shared.drained.canSaveResult, c.ghost)) = some (false, .saved) := by decide +kernel
  obtain ⟨c, hc, hk⟩ := Option.map_eq_some_iff.mp hrun
  simp only [Prod.mk.injEq] at hk
  have hr : Reach _ Always _ c := run_always _ hc
  have := h twoFiles c hr (.inl hk.2)
  simp [hk.1] at this

end Runs

end LogTransfer.Client
