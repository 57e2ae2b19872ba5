import LogTransfer.Retention
import LogTransfer.ResultShelf

/-!
# Rounds of a resumable download

The server keeps one record. `Download` holds what the server sends on the
current connection and what of it the service has received: the Ack, the
header and the result after the upload, and the answer of `reply` to a
request. A connection that is lost takes its unread bytes with it.
-/

set_option autoImplicit false

namespace LogTransfer.Client
open Program Interleave

section Server

def announce (csv : Bytes) : Bytes :=
  encodeResultHeader { csvSize := csv.length, crc32 := crc32 0#32 csv }

def ackOf (kept : RetainedResult) : Bytes :=
  encodeAck { status := .ok, receivedBytes := kept.fileSize }

def firstDelivery (kept : RetainedResult) : Bytes := ackOf kept ++ (announce kept.csv ++ kept.csv)

/-- The claim that the record answers to. -/
def ticketOf (kept : RetainedResult) (received : ℕ) : ResultClaim :=
  { filename := kept.filename, fileSize := kept.fileSize, crc32 := kept.uploadCrc32,
    received := received }

theorem reply_ticket (kept : RetainedResult) (n : ℕ) (h : n ≤ kept.csv.length) :
    (reply (some kept) (Service.requestOf (ticketOf kept n))).flatten =
      announce kept.csv ++ kept.csv.drop n := by
  have hm : kept.filename = (Service.requestOf (ticketOf kept n)).filename ∧
      kept.fileSize = (Service.requestOf (ticketOf kept n)).fileSize ∧
      kept.uploadCrc32 = (Service.requestOf (ticketOf kept n)).crc32 := ⟨rfl, rfl, rfl⟩
  have hn : (Service.requestOf (ticketOf kept n)).startOffset = n := rfl
  simp only [reply]
  rw [if_pos hm, hn, if_pos h]
  by_cases he : n = kept.csv.length
  · simp [he, announce]
  · simp [he, announce]

end Server

structure Download where
  stream : Bytes
  got : Bytes
  stored : Bool
  deriving DecidableEq, Repr

namespace Download

def initial : Download := { stream := [], got := [], stored := false }

def answered (kept : RetainedResult) (stream : Bytes) : Message → Bytes
  | .request q => (reply (some kept) q).flatten
  | .trailer _ => firstDelivery kept
  | _ => stream

def next (kept : RetainedResult) (g : Download) : (op : Op) → Ans op → Download
  | .connect _ _, ok => if ok then { g with stream := [], got := [] } else g
  | .send m, ok => if ok then { g with stream := answered kept g.stream m } else g
  | .recv _, data => { g with got := g.got ++ data }
  | .setResult _, _ => { g with stored := true }
  | _, _ => g

end Download

variable (files : Bytes → Option Bytes) (kept : RetainedResult)

/-- No upload is taken any more, each request goes out on a connection of its
own, and the server's bytes arrive in order and unchanged. -/
def Rounds : Limits Op World Service Signal Peer Download where
  op g w op _ :=
    match op with
    | .send (.request _) => g.stream = []
    | .beginUpload path size => (w.reader.beginUpload (files path) size).1.isSome = true
    | _ => True
  start _ _ _ _ := True
  peer g w d :=
    match d with
    | .arrive bytes => g.got ++ w.inbox ++ bytes <+: g.stream
    | _ => True

def downloadRules : Rules Op Ans Download where
  may g op :=
    match op with
    | .send (.trailer _) | .clearResult => False
    | .setResult csv => csv = kept.csv
    | .emit (.session .done) => g.stored = true
    | .note (.request s q) =>
      s.csv <+: kept.csv ∧ s.claim.received = s.csv.length ∧ q = Service.requestOf s.claim
    | .note (.payload s) => s.csv <+: kept.csv ∧ s.csv.length ≤ s.csvSize
    | _ => True
  answers g op a :=
    match op, a with
    | .send (.request _), _ => g.stream = [] ∧ g.got = []
    | .beginUpload _ _, error => error.isSome = true
    | .recv _, data => g.got ++ data <+: g.stream
    | _, _ => True

structure Delivers (g : Download) (w : World) : Prop where
  inbox : g.got ++ w.inbox <+: g.stream
  stored : g.stored = true → w.resultCsv = kept.csv
  shown : w.drained.session = .done → g.stored = true

section World

variable {files kept} {g : Download} {w w' : World}

theorem delivers_fresh (h : Delivers kept g w) (hs : g.stream = []) :
    g.got = [] ∧ w.inbox = [] := by
  have hi := h.inbox
  rw [hs] at hi
  exact List.append_eq_nil_iff.mp (List.prefix_nil.mp hi)

theorem delivers_emit (event : Event) (h : Delivers kept g w)
    (hm : (downloadRules kept).may g (.emit event)) :
    Delivers kept g { w with events := w.events ++ [event] } := by
  refine ⟨h.inbox, h.stored, fun hd => ?_⟩
  rw [drained_emit] at hd
  cases event with
  | session session =>
    have : session = .done := hd
    subst this
    exact hm
  | _ => exact h.shown hd

theorem delivers_send (m : Message) (b : Bool) (h : Delivers kept g w)
    (hm : (downloadRules kept).may g (.send m)) (hl : (Rounds files).op g w (.send m) b) :
    (downloadRules kept).answers g (.send m) b ∧
      Delivers kept (Download.next kept g (.send m) b) w := by
  cases m with
  | trailer t => exact hm.elim
  | request q =>
    obtain ⟨hg, hi⟩ := delivers_fresh h hl
    refine ⟨⟨hl, hg⟩, ?_⟩
    cases b with
    | true => exact ⟨by simp [Download.next, hg, hi], h.stored, h.shown⟩
    | false => exact h
  | _ =>
    refine ⟨trivial, ?_⟩
    cases b <;> exact ⟨h.inbox, h.stored, h.shown⟩

theorem delivers_exec (op : Op) (b : Bool) (h : Delivers kept g w)
    (hm : (downloadRules kept).may g op) (hl : (Rounds files).op g w op b) :
    (downloadRules kept).answers g op (World.exec files op b w).1 ∧
      Delivers kept (Download.next kept g op (World.exec files op b w).1)
        (World.exec files op b w).2 := by
  cases op with
  | takeCommand =>
    refine ⟨trivial, ?_⟩
    simp only [World.exec]
    split <;> exact ⟨h.inbox, h.stored, h.shown⟩
  | connect ip port =>
    refine ⟨trivial, ?_⟩
    cases b with
    | true => exact ⟨List.prefix_rfl, h.stored, h.shown⟩
    | false => exact h
  | send m => exact delivers_send m b h hm hl
  | recv count =>
    have hsplit : g.got ++ (w.inbox.take count ++ w.inbox.drop count) <+: g.stream := by
      rw [List.take_append_drop]
      exact h.inbox
    rw [← List.append_assoc] at hsplit
    exact ⟨(List.prefix_append _ _).trans hsplit, hsplit, h.stored, h.shown⟩
  | emit event => exact ⟨trivial, delivers_emit event h hm⟩
  | beginUpload path size => exact ⟨hl, h.inbox, h.stored, h.shown⟩
  | setResult csv => exact ⟨trivial, h.inbox, fun _ => hm, fun _ => rfl⟩
  | clearResult => exact hm.elim
  | note n => exact ⟨trivial, h⟩
  | _ => exact ⟨trivial, h.inbox, h.stored, h.shown⟩

theorem delivers_peer (d : Peer) (h : Delivers kept g w) (hl : (Rounds files).peer g w d)
    (hs : peer w d = some w') : Delivers kept g w' := by
  cases d with
  | reader =>
    obtain ⟨r, -, rfl⟩ := Option.map_eq_some_iff.mp hs
    exact ⟨h.inbox, h.stored, h.shown⟩
  | arrive bytes =>
    cases hs
    refine ⟨?_, h.stored, h.shown⟩
    rw [← List.append_assoc]
    exact hl
  | post command =>
    cases hs
    exact ⟨h.inbox, h.stored, h.shown⟩
  | frame =>
    cases hs
    exact ⟨h.inbox, h.stored, h.shown⟩
  | click action =>
    simp only [peer] at hs
    split at hs
    · cases hs
      have hui (u : UiState) (hu : u.session = w.ui.session ∨ u.session = .idle)
          (hd : (w.events.foldl UiState.apply u).session = .done) : g.stored = true := by
        refine h.shown ?_
        by_cases he : w.events.any isSession = true
        · rw [← hd]
          exact foldl_session _ _ _ he
        · rcases hu with hu | hu
          · rw [← hd]
            exact foldl_session_congr _ hu.symm
          · rw [foldl_noSession _ _ he, hu] at hd
            cases hd
      cases action with
      | edit ip port => exact ⟨h.inbox, h.stored, hui _ (.inl rfl)⟩
      | browse path name size => exact ⟨h.inbox, h.stored, hui _ (.inl rfl)⟩
      | disconnect => exact ⟨h.inbox, h.stored, hui _ (.inr rfl)⟩
      | connect =>
        simp only [World.click]
        split
        · exact h
        · split
          · exact h
          · exact ⟨h.inbox, h.stored, h.shown⟩
      | send confirmed =>
        simp only [World.click]
        split
        · exact h
        · exact ⟨h.inbox, h.stored, h.shown⟩
      | cancel => exact ⟨h.inbox, h.stored, h.shown⟩
      | requestResult => exact ⟨h.inbox, h.stored, h.shown⟩
    · cases hs

end World

end LogTransfer.Client
