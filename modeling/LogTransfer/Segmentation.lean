import LogTransfer.SessionStream
import LogTransfer.SessionHistory

/-!
# Segmentation of the upload stream

Whatever the cut of a byte stream into reads, a session ends as `Reception`
does on the stream, unless a non-empty upload is followed by a few more bytes:
these are ignored when they share a ring slot with the trailer and end the
session when they do not.
-/

set_option autoImplicit false

namespace LogTransfer
open Program

structure Segment where
  now : ℕ
  data : Bytes
  deriving DecidableEq, Repr

namespace Stream

variable (cfg : ServerConfig)

def envAt (now : ℕ) : Env := { cfg with now := now }

def opened (id now : ℕ) (retained : Option RetainedResult) : Session × Quiet :=
  let r := quietly (Session.start (envAt cfg now) (Session.construct id))
    { committed := [], sent := [], retained := retained }
  (r.1.1, r.2)

/-- The size of the buffer `onAllocate` hands out. -/
def room (c : Session × Quiet) (now : ℕ) : ℕ :=
  (quietly (Session.onAllocate (envAt cfg now) c.1) c.2).1.2

def read (e : Env) (s : Session) (data : Bytes) : P Session := do
  let (s, _) ← Session.onAllocate e s
  Session.onRead e s data

def deliver (c : Session × Quiet) (r : Segment) : Session × Quiet :=
  quietly (read (envAt cfg r.now) c.1 r.data) c.2

def deliverAll (c : Session × Quiet) (rs : List Segment) : Session × Quiet :=
  rs.foldl (deliver cfg) c

/-- Non-empty reads, each within the buffer it was given. -/
def Cut : Session × Quiet → List Segment → Prop
  | _, [] => True
  | c, r::rs => r.data ≠ [] ∧ r.data.length ≤ room cfg c r.now ∧ Cut (deliver cfg c r) rs

def content (rs : List Segment) : Bytes := (rs.map Segment.data).flatten

end Stream

structure Outcome where
  state : SessionState
  sent : List Bytes
  committed : Bytes
  receivedBytes : ℕ
  payloadCrc : Crc
  cleanupStarted : Bool
  deriving DecidableEq, Repr

def outcome (c : Session × Quiet) : Outcome :=
  { state := c.1.state, sent := c.2.sent, committed := c.2.committed,
    receivedBytes := c.1.receivedBytes, payloadCrc := c.1.payloadCrc,
    cleanupStarted := c.1.cleanupStarted }

def Reception.outcome (a : Reception) : Outcome :=
  { state := a.stage.state, sent := a.sent, committed := a.payload,
    receivedBytes := a.payload.length, payloadCrc := crc32 0#32 a.payload,
    cleanupStarted := decide (a.stage = .closed) }

section Delivery

variable {cfg : ServerConfig} {s : Session} {q : Quiet} {a : Reception}

theorem mirrors_outcome {c : Session × Quiet} (hm : Mirrors c a) : outcome c = a.outcome := by
  have hc := hm.carries
  have hst := hm.stage
  have hflag : c.1.cleanupStarted = decide (a.stage = .closed) := by
    cases ha : a.stage <;> simp only [AtStage, ha] at hst
    case header f => simp [hst.1.cleanup]
    case payload => simp [hst.1.cleanup]
    case trailer f => simp [hst.1.cleanup]
    case analyzing => simp [hst.cleanup]
    case sendingResult => simp [hst.cleanup]
    case failing state => simp [hst.1]
    case closed => simp [hst]
  simp [outcome, Reception.outcome, hm.state, hc.sent, hc.committed, hc.received, hc.crc, hflag]

theorem mirrors_touch (t : Timer) (b : Bool) (hm : Mirrors (s, q) a) :
    Mirrors ({ s with timer := t, slotAcquired := b }, q) a := by
  have hc : Carries s q a := hm.carries
  have hst : AtStage s a := hm.stage
  have hlive (hl : Live s) : Live { s with timer := t, slotAcquired := b } :=
    ⟨hl.cleanup, hl.failing, hl.closing, hl.reading⟩
  refine ⟨⟨hc.sent, hc.committed, hc.retained, hc.received, hc.crc⟩, hm.state, ?_⟩
  unfold AtStage at hst ⊢
  split at hst
  · exact ⟨hlive hst.1, hst.2⟩
  · exact ⟨hlive hst.1, hst.2⟩
  · exact ⟨hlive hst.1, hst.2⟩
  · exact hlive hst
  · exact hlive hst
  · exact hst
  · exact hst

/-- A slot is handed out exactly while payload is missing. -/
theorem allocates_slot (hm : Mirrors (s, q) a) :
    (s.state = .receiving ∧ s.receivedBytes < s.fileSize) ↔ a.stage = .payload := by
  have hs : s.state = a.stage.state := hm.state
  have hc : Carries s q a := hm.carries
  have hst : AtStage s a := hm.stage
  rw [hs]
  cases ha : a.stage <;> simp only [AtStage, ha] at hst
  case payload => simp [Stage.state, hc.received, hst.2.1, hst.2.2.1]
  case trailer f => simp [Stage.state, hc.received, hst.2.1, hst.2.2.1]
  case failing state =>
    simp only [Stage.state, reduceCtorEq, iff_false, not_and, not_lt]
    exact hst.2.2
  all_goals simp [Stage.state]

theorem quietly_allocate (e : Env) (hm : Mirrors (s, q) a) :
    quietly (Session.onAllocate e s) q =
      if a.stage = .payload then (({ s with slotAcquired := true }, e.chunkSize), q)
      else (({ s with slotAcquired := false }, min kSuggestedSize e.chunkSize), q) := by
  have halloc := allocates_slot hm
  split
  · rename_i ha
    have hcond := halloc.mpr ha
    simp [Session.onAllocate, hcond, quietly, eval_bind, eval_ask, Quiet.answer, eval_pure]
  · rename_i ha
    have hcond := mt halloc.mp ha
    simp only [Session.onAllocate]
    rw [if_neg (by exact hcond), quietly_pure]

theorem room_eq {c : Session × Quiet} (hm : Mirrors c a) (now : ℕ) :
    Stream.room cfg c now =
      if a.stage = .payload then cfg.chunkSize else min kSuggestedSize cfg.chunkSize := by
  rw [Stream.room, quietly_allocate _ hm]
  split <;> rfl

theorem deliver_slot (cfg : ServerConfig) {c : Session × Quiet} (r : Segment) (hm : Mirrors c a)
    (ha : a.stage = .payload) (hne : r.data ≠ []) :
    Mirrors (Stream.deliver cfg c r) (a.takeAll (r.data.take (slotTake a r.data))) := by
  rw [Stream.deliver, Stream.read, quietly_bind, quietly_allocate _ hm, if_pos ha]
  exact mirrors_readSlot r.data (mirrors_touch (s := c.1) (q := c.2) _ _ hm) ha hne

theorem deliver_buffered (cfg : ServerConfig) {c : Session × Quiet} (r : Segment)
    (hm : Mirrors c a) (ha : a.stage ≠ .payload) :
    Mirrors (Stream.deliver cfg c r) (a.takeAll r.data) := by
  rw [Stream.deliver, Stream.read, quietly_bind, quietly_allocate _ hm, if_neg ha]
  exact mirrors_readLoop _ r.data (Nat.le_succ _) (mirrors_touch (s := c.1) (q := c.2) _ _ hm)

/-- A read is taken whole, or it ends a non-empty upload and what follows in
its slot is dropped. -/
theorem deliver_cases (cfg : ServerConfig) {c : Session × Quiet} (r : Segment)
    (hm : Mirrors c a) (hne : r.data ≠ []) (hroom : r.data.length ≤ Stream.room cfg c r.now) :
    Mirrors (Stream.deliver cfg c r) (a.takeAll r.data) ∨
      ∃ k, Mirrors (Stream.deliver cfg c r) (a.takeAll (r.data.take k)) ∧
        (a.takeAll (r.data.take k)).stage = .analyzing ∧ a.stage = .payload ∧
        k < r.data.length ∧ kUploadTrailerSize < k ∧ r.data.length ≤ cfg.chunkSize := by
  by_cases ha : a.stage = .payload
  · rw [room_eq hm, if_pos ha] at hroom
    have hl : a.payload.length < a.fileSize := by
      have hst := hm.stage
      simp only [AtStage, ha] at hst
      exact hst.2.2.1
    have hslot := deliver_slot cfg r hm ha hne
    have hsplit : a.takeAll r.data = (a.takeAll (r.data.take (slotTake a r.data))).takeAll
        (r.data.drop (slotTake a r.data)) := by
      rw [← Reception.takeAll_append, List.take_append_drop]
    rcases slotTake_cases r.data ha hl hne with hall | hgone | ⟨han, hk⟩
    · rw [hall, List.take_length] at hslot
      exact .inl hslot
    · rw [hsplit, Reception.takeAll_over _ _ hgone]
      exact .inl hslot
    · by_cases hlt : slotTake a r.data < r.data.length
      · exact .inr ⟨_, hslot, han, ha, hlt, hk, hroom⟩
      · rw [List.take_of_length_le (by omega)] at hslot
        exact .inl hslot
  · exact .inl (deliver_buffered cfg r hm ha)

end Delivery

section Runs

variable {cfg : ServerConfig} {a : Reception}

/-- A complete upload of a non-empty file with a few more bytes behind it. -/
def SlotSurplus (chunkSize : ℕ) (bytes : Bytes) : Prop :=
  ∃ u payload x, bytes = u ++ x ∧ Reception.Upload u payload ∧ payload ≠ [] ∧ x ≠ [] ∧
    x.length + kUploadTrailerSize < chunkSize

/-- The session after the bytes `u`: in step with `Reception`, or in ANALYZING
with the surplus `x` dropped. -/
def InStep (chunkSize : ℕ) (a : Reception) (c : Session × Quiet) (u : Bytes) : Prop :=
  Mirrors c (a.takeAll u) ∨
    ∃ v x, u = v ++ x ∧ x ≠ [] ∧ x.length + kUploadTrailerSize < chunkSize ∧
      Mirrors c (a.takeAll v) ∧ (a.takeAll v).stage = .analyzing ∧ (a.takeAll v).payload ≠ []

theorem inStep_deliver {c : Session × Quiet} {u : Bytes} (r : Segment)
    (h : InStep cfg.chunkSize a c u) (hne : r.data ≠ [])
    (hroom : r.data.length ≤ Stream.room cfg c r.now) :
    InStep cfg.chunkSize a (Stream.deliver cfg c r) (u ++ r.data) := by
  rcases h with hm | ⟨v, x, rfl, hx, hlen, hm, han, hp⟩
  · rcases deliver_cases cfg r hm hne hroom with hd | ⟨k, hd, han, ha, hk, h12, hchunk⟩
    · left
      rwa [Reception.takeAll_append]
    · right
      refine ⟨u ++ r.data.take k, r.data.drop k, ?_, ?_, ?_, ?_, ?_, ?_⟩
      · rw [List.append_assoc, List.take_append_drop]
      · exact List.length_pos_iff.mp (by simp only [List.length_drop]; omega)
      · simp only [List.length_drop]
        omega
      · rwa [Reception.takeAll_append]
      · rwa [Reception.takeAll_append]
      · rw [Reception.takeAll_append]
        exact Reception.payload_ne_nil _ _ ha
          (List.length_pos_iff.mp (by simp only [List.length_take]; omega))
  · left
    have ha : (a.takeAll v).stage ≠ .payload := by simp [han]
    have hd := deliver_buffered cfg r hm ha
    rw [Reception.takeAll_refused _ _ hne (.inl han)] at hd
    rw [Reception.takeAll_append, Reception.takeAll_append,
      Reception.takeAll_refused _ _ hx (.inl han),
      Reception.takeAll_over (Reception.close _) _ trivial]
    exact hd

theorem inStep_deliverAll {c : Session × Quiet} {u : Bytes} (rs : List Segment)
    (h : InStep cfg.chunkSize a c u) (hcut : Stream.Cut cfg c rs) :
    InStep cfg.chunkSize a (Stream.deliverAll cfg c rs) (u ++ Stream.content rs) := by
  induction rs generalizing c u with
  | nil => simpa [Stream.deliverAll, Stream.content] using h
  | cons r rs ih =>
    obtain ⟨hne, hroom, hrest⟩ := hcut
    have := ih (inStep_deliver r h hne hroom) hrest
    simpa [Stream.deliverAll, Stream.content] using this

theorem mirrors_opened (cfg : ServerConfig) (id now : ℕ) (retained : Option RetainedResult) :
    Mirrors (Stream.opened cfg id now retained) (Reception.initial retained) := by
  obtain ⟨t, ht⟩ := Session.armTimer_eq (e := Stream.envAt cfg now)
    (Session.setReading (Session.construct id) true)
  have hopen : Stream.opened cfg id now retained =
      ({ Session.setReading (Session.construct id) true with timer := t },
        { committed := [], sent := [], retained := retained }) := by
    rw [← ht]
    rfl
  rw [hopen]
  exact ⟨⟨rfl, rfl, rfl, rfl, (crc32_nil _).symm⟩, rfl, ⟨rfl, rfl, rfl, rfl⟩, rfl, ⟨rfl, 8, rfl⟩,
    rfl⟩

/-- Without such a surplus every cut ends as `Reception` does on the stream. -/
theorem deliverAll_outcome (id now : ℕ) (retained : Option RetainedResult) (rs : List Segment)
    (hcut : Stream.Cut cfg (Stream.opened cfg id now retained) rs)
    (hs : ¬ SlotSurplus cfg.chunkSize (Stream.content rs)) :
    outcome (Stream.deliverAll cfg (Stream.opened cfg id now retained) rs) =
      ((Reception.initial retained).takeAll (Stream.content rs)).outcome := by
  have hstart : InStep cfg.chunkSize (Reception.initial retained)
      (Stream.opened cfg id now retained) [] := .inl (mirrors_opened cfg id now retained)
  have h := inStep_deliverAll rs hstart hcut
  rw [List.nil_append] at h
  rcases h with hm | ⟨v, x, hu, hx, hlen, -, han, hp⟩
  · exact mirrors_outcome hm
  · have hbehind := Reception.behind_initial retained v
    simp only [Reception.Behind, han] at hbehind
    exact absurd ⟨v, _, x, hu, hbehind, hp, hx, hlen⟩ hs

def bytewise (bytes : Bytes) : List Segment := bytes.map fun b => { now := 0, data := [b] }

theorem content_bytewise (bytes : Bytes) : Stream.content (bytewise bytes) = bytes := by
  induction bytes with
  | nil => rfl
  | cons b bytes ih => simpa [Stream.content, bytewise] using ih

theorem content_append (rs rs' : List Segment) :
    Stream.content (rs ++ rs') = Stream.content rs ++ Stream.content rs' := by
  simp [Stream.content]

/-- Reads of one byte each are never too long and drop nothing. -/
theorem deliverAll_bytewise (cfg : ServerConfig) {c : Session × Quiet} (bytes : Bytes)
    (hm : Mirrors c a) :
    Stream.Cut cfg c (bytewise bytes) ∧
      Mirrors (Stream.deliverAll cfg c (bytewise bytes)) (a.takeAll bytes) := by
  induction bytes generalizing c a with
  | nil => exact ⟨trivial, hm⟩
  | cons b bytes ih =>
    have hroom : [b].length ≤ Stream.room cfg c 0 := by
      have := cfg.chunk_pos
      rw [room_eq hm]
      split
      · exact this
      · exact Nat.le_min.mpr ⟨by simp [kSuggestedSize], this⟩
    have hd : Mirrors (Stream.deliver cfg c { now := 0, data := [b] }) (a.take b) := by
      rcases deliver_cases cfg { now := 0, data := [b] } hm (by simp) hroom with
        hd | ⟨k, -, -, -, hk, h12, -⟩
      · exact hd
      · simp only [List.length_singleton, kUploadTrailerSize, kPreambleSize] at hk h12
        omega
    obtain ⟨hcut, hrest⟩ := ih hd
    exact ⟨⟨by simp, hroom, hcut⟩, hrest⟩

theorem cut_append {c : Session × Quiet} (rs rs' : List Segment) (h : Stream.Cut cfg c rs)
    (h' : Stream.Cut cfg (Stream.deliverAll cfg c rs) rs') : Stream.Cut cfg c (rs ++ rs') := by
  induction rs generalizing c with
  | nil => exact h'
  | cons r rs ih => exact ⟨h.1, h.2.1, ih h.2.2 h'⟩

/-- The last payload byte, the trailer and what follows in one slot: the
session stops looking after the trailer. -/
theorem slotTake_surplus (t x : Bytes) (trailer : UploadTrailer) (b : Byte)
    (ht : Reception.TrailerOf t trailer) (hl : a.payload.length + 1 = a.fileSize) :
    slotTake a (b :: (t ++ x)) = 1 + t.length := by
  have hn : min (a.fileSize - a.payload.length) (b :: (t ++ x)).length = 1 := by
    simp only [List.length_cons]
    omega
  have hw := Reception.whole_trailerOf t trailer ht
  have habs : Reception.trailerFramer.absorb t =
      ({ Reception.trailerFramer with buffer := t, status := .ok }, t.length) :=
    Framer.absorb_whole Reception.trailerFramer t rfl hw (Reception.whole_ne_nil _ _ hw)
  rw [slotTake, hn]
  simp only [List.drop_succ_cons, List.drop_zero]
  rw [Framer.absorb_append, habs]
  rfl

theorem takeAll_front (retained : Option RetainedResult) (hd front : Bytes) (header : UploadHeader)
    (hh : Reception.HeaderOf hd header) (hl : front.length < header.fileSize) :
    (Reception.initial retained).takeAll (hd ++ front) =
      { Reception.initial retained with
        stage := .payload, fileSize := header.fileSize, payload := front } := by
  have hpos : 0 < header.fileSize := by omega
  rw [Reception.takeAll_append, Reception.takeAll_headerOf retained hd header hh]
  have hopen : Reception.receive
      { Reception.initial retained with fileSize := header.fileSize } =
        { Reception.initial retained with stage := .payload, fileSize := header.fileSize } := by
    simp [Reception.receive, Reception.initial, hpos]
  rw [hopen]
  by_cases hnil : front = []
  · subst hnil
    rfl
  · rw [Reception.takeAll_payload _ _ rfl hnil (by simp [Reception.initial]; omega)]
    simp [Reception.receive, Reception.initial, hl]

theorem takeAll_rest (t : Bytes) (trailer : UploadTrailer) (b : Byte) (ha : a.stage = .payload)
    (hl : a.payload.length + 1 = a.fileSize) (ht : Reception.TrailerOf t trailer)
    (hcrc : trailer.crc32 = crc32 0#32 (a.payload ++ [b])) :
    (a.takeAll (b :: t)).stage = .analyzing := by
  have hb : a.take b = Reception.receive { a with payload := a.payload ++ [b] } := by
    rw [Reception.take, ha]
  have hst : (a.take b).stage = .trailer Reception.trailerFramer := by
    rw [hb]
    simp only [Reception.receive, List.length_append, List.length_singleton]
    exact if_neg (by omega)
  have hrest := Reception.takeAll_trailerOf (a.take b) t trailer hst ht
  rw [Reception.takeAll, List.foldl_cons]
  rw [Reception.takeAll] at hrest
  rw [hrest, Reception.verify, if_neg (by rw [hb]; simpa [Reception.receive] using hcrc)]

/-- The two cuts of a surplus: byte by byte, and with the end of the upload and
the surplus in one slot. -/
theorem surplus_cuts (id now : ℕ) (retained : Option RetainedResult) (bytes : Bytes)
    (h : SlotSurplus cfg.chunkSize bytes) :
    ∃ rs rs', Stream.Cut cfg (Stream.opened cfg id now retained) rs ∧
      Stream.Cut cfg (Stream.opened cfg id now retained) rs' ∧
      Stream.content rs = bytes ∧ Stream.content rs' = bytes ∧
      (Stream.deliverAll cfg (Stream.opened cfg id now retained) rs).1.state = .cleanup ∧
      (Stream.deliverAll cfg (Stream.opened cfg id now retained) rs').1.state = .analyzing := by
  obtain ⟨u, payload, x, rfl, ⟨hd, header, t, trailer, hh, hs, ht, hcrc, rfl⟩, hp, hx, hlen⟩ := h
  obtain ⟨front, b, rfl⟩ := (List.eq_nil_or_concat' payload).resolve_left hp
  rw [List.length_append, List.length_singleton] at hs
  have hm := mirrors_opened cfg id now retained
  have hfront := takeAll_front retained hd front header hh (by omega)
  have hend :
      ((Reception.initial retained).takeAll (hd ++ front ++ b :: t)).stage = .analyzing := by
    rw [Reception.takeAll_append, hfront]
    exact takeAll_rest t trailer b rfl hs.symm ht hcrc
  obtain ⟨hcut, hall⟩ := deliverAll_bytewise cfg (hd ++ (front ++ [b]) ++ t ++ x) hm
  obtain ⟨hcut', hpart⟩ := deliverAll_bytewise cfg (hd ++ front) hm
  rw [hfront] at hpart
  have htake := slotTake_surplus (a := { Reception.initial retained with
    stage := .payload, fileSize := header.fileSize, payload := front }) t x trailer b ht hs.symm
  have hslot := deliver_slot cfg { now := 0, data := b :: (t ++ x) } hpart rfl (by simp)
  refine ⟨bytewise (hd ++ (front ++ [b]) ++ t ++ x),
    bytewise (hd ++ front) ++ [{ now := 0, data := b :: (t ++ x) }], hcut, ?_,
    content_bytewise _, ?_, ?_, ?_⟩
  · refine cut_append _ _ hcut' ⟨by simp, ?_, trivial⟩
    rw [room_eq hpart, if_pos rfl]
    have h12 := ht.2
    simp only [List.length_cons, List.length_append]
    omega
  · rw [content_append, content_bytewise]
    simp [Stream.content]
  · rw [hall.state]
    have : hd ++ (front ++ [b]) ++ t ++ x = hd ++ front ++ b :: t ++ x := by simp
    rw [this, Reception.takeAll_append, Reception.takeAll_refused _ _ hx (.inl hend)]
    rfl
  · rw [Stream.deliverAll, List.foldl_append]
    change (Stream.deliver cfg (Stream.deliverAll cfg _ (bytewise (hd ++ front))) _).1.state = _
    rw [hslot.state, htake, ← hfront, ← Reception.takeAll_append]
    have : (b :: (t ++ x)).take (1 + t.length) = b :: t := by
      rw [Nat.add_comm, List.take_succ_cons, List.take_left]
    rw [this, hend]
    rfl

/-- Segmentation independence of a fresh session on `bytes`: every two cuts end
alike. -/
def SegmentationFree (cfg : ServerConfig) (id now : ℕ) (retained : Option RetainedResult)
    (bytes : Bytes) : Prop :=
  ∀ rs rs', Stream.Cut cfg (Stream.opened cfg id now retained) rs →
    Stream.Cut cfg (Stream.opened cfg id now retained) rs' →
    Stream.content rs = bytes → Stream.content rs' = bytes →
    outcome (Stream.deliverAll cfg (Stream.opened cfg id now retained) rs) =
      outcome (Stream.deliverAll cfg (Stream.opened cfg id now retained) rs')

theorem surplus_not_free (cfg : ServerConfig) (id now : ℕ) (retained : Option RetainedResult)
    (bytes : Bytes) (hs : SlotSurplus cfg.chunkSize bytes) :
    ¬ SegmentationFree cfg id now retained bytes := by
  intro hfree
  obtain ⟨rs, rs', hcut, hcut', hb, hb', hst, hst'⟩ := surplus_cuts id now retained bytes hs
  have heq := congrArg Outcome.state (hfree rs rs' hcut hcut' hb hb')
  simp only [outcome, hst, hst'] at heq
  cases heq

/-- The cut of a stream is invisible exactly when no complete non-empty upload
is followed by a surplus that fits into the trailer's slot. -/
theorem segmentation_free_iff (cfg : ServerConfig) (id now : ℕ)
    (retained : Option RetainedResult) (bytes : Bytes) :
    SegmentationFree cfg id now retained bytes ↔ ¬ SlotSurplus cfg.chunkSize bytes := by
  constructor
  · exact fun hfree hs => surplus_not_free cfg id now retained bytes hs hfree
  · rintro hs rs rs' hcut hcut' rfl hb'
    rw [deliverAll_outcome id now retained rs hcut hs,
      deliverAll_outcome id now retained rs' hcut' (hb' ▸ hs), hb']

/-- One byte after the upload of a one-byte file. -/
theorem segmentation_not_free : ¬ ∀ bytes, SegmentationFree defaultConfig 1 0 none bytes := by
  intro hall
  refine surplus_not_free defaultConfig 1 0 none _ ?_
    (hall (uploadBytes (bytesOf "a") (bytesOf "x") ++ [0#8]))
  refine ⟨_, bytesOf "x", [0#8], rfl, ⟨encodeUploadHeader ⟨1, bytesOf "a"⟩, ⟨1, bytesOf "a"⟩,
    encodeUploadTrailer ⟨crc32 0#32 (bytesOf "x")⟩, ⟨crc32 0#32 (bytesOf "x")⟩, ?_, rfl, ?_, rfl,
    rfl⟩, by decide, by decide, by decide⟩
  · exact ⟨by decide, by decide⟩
  · exact ⟨by decide, by decide⟩

end Runs

end LogTransfer
