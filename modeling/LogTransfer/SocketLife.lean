import LogTransfer.TcpSocket
import Mathlib.Data.List.Nodup

/-!
# Memory of the socket

The owner may call any function from any callback, and destroy the socket at any
time, but for three calls: a connection while one is under way or after `close`,
the destructor meanwhile, and the destructor or a null callback from
`onSendComplete` of a failed write.
-/

set_option autoImplicit false

namespace LogTransfer.Net
open LoopHandle

/-- The request whose memory a frame keeps. -/
def Frame.request : Frame → Option ℕ
  | .sent i _ | .failed i => some i
  | .plain | .closed => none

/-- The write requests: those in the heap are the loop's and a frame's, each of
them once, and they point back at a socket that is alive. -/
structure Requests (writes : List ℕ) (heap : ℕ → Option WriteRequest) (fresh : ℕ)
    (waiting : List ℕ) (held : Option ℕ) (alive : Bool) : Prop where
  nodup : writes.Nodup
  below : ∀ i ∈ writes, i < fresh
  apart : ∀ i, held = some i → ¬ i ∈ writes ∧ i < fresh
  live : ∀ i, heap i ≠ none ↔ i ∈ writes ∨ held = some i
  back : ∀ i ∈ writes, ∀ r, heap i = some r → r.socket = alive
  pending : alive = true → waiting = writes

/-- The connect requests: the heap has the socket's, and the loop no other. -/
structure Connects (heap : ℕ → Bool) (request connecting : Option ℕ) (alive : Bool) :
    Prop where
  owned : ∀ i, heap i = true ↔ request = some i
  flight : ∀ i, connecting = some i → request = some i
  dead : alive = false → request = none

namespace SocketWorld

section Invariant

/-- A callback that tells of a failed write runs; `onError` is called next. -/
def Failing (w : SocketWorld) : Prop :=
  ∃ i status, w.frame = some (.sent i status) ∧ status ≠ 0

/-- The calls that are safe. -/
def Careful (w : SocketWorld) : Act → Prop
  | .connect address _ => w.life.held = true → address = 0 →
      w.life.takes = true ∧ w.connecting = none
  | .destroy => w.connecting = none ∧ ¬ w.Failing
  | .setCallback callback => w.Failing → callback = true
  | _ => True

/-- The close callback of the handle has not been called. -/
def Busy (p : HandlePhase) : Prop := p = .opened ∨ p = .closing ∨ p = .orphaned

structure Sound (w : SocketWorld) (p : HandlePhase) : Prop where
  life : w.life = p.life
  flag : p.life.alive = true → (w.closing = true ↔ p = .closing ∨ p = .closed)
  streams : w.streaming = true → p = .opened
  requests : Requests w.writes w.writeRequests w.fresh w.pendingWrites
    (w.frame.bind Frame.request) p.life.alive
  connects : Connects w.connectRequests w.connectRequest w.connecting p.life.alive
  still : ¬ Busy p → w.writes = [] ∧ w.connecting = none ∧ w.lent = false
  frames : ∀ f, w.frame = some f → (Busy p ↔ f ≠ .closed)
  failing : w.Failing → p.life.alive = true ∧ w.callback = true

theorem sound_create (started : Bool) :
    (create started).Sound (if started then .opened else .refused) where
  life := HandlePhase.init_life started
  flag _ := by cases started <;> simp [create]
  streams h := by cases h
  requests :=
    { nodup := List.nodup_nil
      below := fun i h => by cases h
      apart := fun i h => by cases h
      live := fun i => by simp [create]
      back := fun i h => by cases h
      pending := fun _ => rfl }
  connects :=
    { owned := fun i => by simp [create]
      flight := fun i h => by cases h
      dead := fun _ => rfl }
  still _ := ⟨rfl, rfl, rfl⟩
  frames f h := by cases h
  failing h := by
    obtain ⟨i, status, hf, -⟩ := h
    cases hf

end Invariant

section Calls

variable {w : SocketWorld} {p : HandlePhase}

theorem held_there (h : w.Sound p) (hh : w.life.held = true) : w.life.there = true := by
  rw [h.life] at hh ⊢
  exact HandlePhase.held_there hh

theorem onHandle_of_held (h : w.Sound p) (hh : w.life.held = true) (r : SocketWorld × ℤ) :
    w.onHandle r = .ok r := by
  rw [onHandle, if_pos (held_there h hh)]

/-- The phase in which the object takes calls and the handle takes requests. -/
theorem opened_of_free (h : w.Sound p) (hh : w.life.held = true) (hc : w.closing = false) :
    p = .opened := by
  rw [h.life] at hh
  have hflag := h.flag
  rw [hc] at hflag
  cases p with
  | opened => rfl
  | closing => simpa using hflag rfl
  | closed => simpa using hflag rfl
  | _ => cases hh

theorem sound_setCallback (h : w.Sound p) (callback : Bool)
    (hc : w.Careful (.setCallback callback)) : (w.setCallback callback).Sound p :=
  ⟨h.life, h.flag, h.streams, h.requests, h.connects, h.still, h.frames,
    fun hf => ⟨(h.failing hf).1, hc hf⟩⟩

theorem connects_reset (h : w.Sound p) (hc : w.connecting = none) (alive : Bool) :
    Connects w.resetConnect.connectRequests w.resetConnect.connectRequest
      w.resetConnect.connecting alive where
  owned i := by
    have howned := h.connects.owned i
    simp only [resetConnect, Bool.and_eq_true, decide_eq_true_eq, howned]
    exact ⟨fun hi => absurd hi.2 hi.1, fun hi => by cases hi⟩
  flight i hi := by cases hc.symm.trans hi
  dead _ := rfl

theorem connects_renew (h : w.Sound p) (hp : p = .opened) :
    Connects w.renewConnect.connectRequests w.renewConnect.connectRequest
      (some w.freshConnect) p.life.alive where
  owned i := by
    have howned := h.connects.owned i
    simp only [renewConnect, Bool.or_eq_true, Bool.and_eq_true, decide_eq_true_eq, howned,
      Option.some.injEq]
    constructor
    · rintro (rfl | ⟨hne, he⟩)
      · rfl
      · exact absurd he hne
    · exact fun he => .inl he.symm
  flight i hi := hi
  dead hd := by
    subst hp
    cases hd

theorem sound_connect (h : w.Sound p) {address rc : ℤ} (hc : w.Careful (.connect address rc)) :
    ∃ w', w.act (.connect address rc) = .ok w' ∧ w'.Sound p := by
  cases hh : w.life.held with
  | false => exact ⟨w, by simp [act, connect, hh, Except.map], h⟩
  | true =>
    by_cases ha : address = 0
    · obtain ⟨htakes, hnone⟩ := hc hh ha
      have hp : p = .opened := HandlePhase.opened_of_takes (h.life ▸ htakes)
      by_cases hrc : rc = 0
      · refine ⟨{ w.renewConnect with connecting := some w.freshConnect }, ?_, ?_⟩
        · simp [act, connect, hh, ha, htakes, hrc, onHandle_of_held h hh, Except.map]
        · exact ⟨h.life, h.flag, h.streams, h.requests, connects_renew h hp,
            fun hb => absurd (.inl hp) hb, h.frames, h.failing⟩
      · refine ⟨w.renewConnect.resetConnect, ?_, ?_⟩
        · simp [act, connect, hh, ha, htakes, hrc, onHandle_of_held h hh, Except.map]
        · have hrenew : w.renewConnect.Sound p :=
            ⟨h.life, h.flag, h.streams, h.requests, ⟨(connects_renew h hp).owned,
              fun i hi => (by cases hnone.symm.trans hi), (connects_renew h hp).dead⟩,
              h.still, h.frames, h.failing⟩
          exact ⟨h.life, h.flag, h.streams, h.requests, connects_reset hrenew hnone _, h.still,
            h.frames, h.failing⟩
    · exact ⟨w, by simp [act, connect, hh, ha, Except.map], h⟩

theorem sound_startRead (h : w.Sound p) (rc : ℤ) :
    ∃ w', w.act (.startRead rc) = .ok w' ∧ w'.Sound p := by
  by_cases hfree : w.life.held = true ∧ w.closing = false
  · obtain ⟨hh, hc⟩ := hfree
    by_cases hr : w.reading = true
    · exact ⟨w, by simp [act, startRead, hh, hc, hr, Except.map], h⟩
    · have hp := opened_of_free h hh hc
      refine ⟨if rc = 0 then { w with reading := true, streaming := true } else w, ?_, ?_⟩
      · simp [act, startRead, hh, hc, hr, onHandle_of_held h hh, Except.map]
      · split
        · exact ⟨h.life, h.flag, fun _ => hp, h.requests, h.connects, h.still, h.frames,
            h.failing⟩
        · exact h
  · refine ⟨w, ?_, h⟩
    have hout : (!w.life.held || w.closing) = true := by
      cases hh : w.life.held <;> cases hc : w.closing <;> simp_all
    simp [act, startRead, hout, Except.map]

/-- `stopRead` is about reading only. -/
theorem stopRead_eq (hh : w.life.held = true → w.life.there = true) (rc : ℤ) :
    ∃ reading streaming rc', w.stopRead rc =
      .ok ({ w with reading := reading, streaming := streaming }, rc') ∧
        (streaming = true → w.streaming = true) := by
  cases hin : !w.life.held || !w.reading with
  | true => exact ⟨w.reading, w.streaming, 0, by rw [stopRead, if_pos hin], id⟩
  | false =>
    have hheld : w.life.held = true := by
      cases hheld : w.life.held with
      | true => rfl
      | false => rw [hheld] at hin; cases hin
    have hstop : w.stopRead rc = w.onHandle
        (if rc = 0 then { w with reading := false, streaming := false } else w, rc) :=
      if_neg (by rw [hin]; decide)
    rw [hstop, onHandle, if_pos (hh hheld)]
    split
    · exact ⟨false, false, rc, rfl, fun h => by cases h⟩
    · exact ⟨w.reading, w.streaming, rc, rfl, id⟩

theorem sound_stopRead (h : w.Sound p) (rc : ℤ) :
    ∃ w', w.act (.stopRead rc) = .ok w' ∧ w'.Sound p := by
  obtain ⟨reading, streaming, rc', hstop, hs⟩ := stopRead_eq (held_there h) rc
  refine ⟨{ w with reading := reading, streaming := streaming }, by rw [act, hstop]; rfl, ?_⟩
  exact ⟨h.life, h.flag, fun hon => h.streams (hs hon), h.requests, h.connects, h.still,
    h.frames, h.failing⟩

theorem requests_send (h : w.Sound p) (hp : p = .opened) (data : Bytes) :
    Requests (w.writes ++ [w.fresh])
      (Function.update w.writeRequests w.fresh (some ⟨data, true⟩)) (w.fresh + 1)
      (w.pendingWrites ++ [w.fresh]) (w.frame.bind Frame.request) p.life.alive where
  nodup := by
    refine List.nodup_append.mpr ⟨h.requests.nodup, List.nodup_singleton _, ?_⟩
    intro i hi j hj he
    obtain rfl := List.mem_singleton.mp hj
    exact absurd (h.requests.below i hi) (by omega)
  below i hi := by
    obtain hi | hi := List.mem_append.mp hi
    · exact (h.requests.below i hi).trans (Nat.lt_succ_self _)
    · rw [List.mem_singleton.mp hi]
      exact Nat.lt_succ_self _
  apart i hi := by
    obtain ⟨hnot, hlt⟩ := h.requests.apart i hi
    refine ⟨fun hm => ?_, hlt.trans (Nat.lt_succ_self _)⟩
    obtain hm | hm := List.mem_append.mp hm
    · exact hnot hm
    · exact absurd (List.mem_singleton.mp hm) hlt.ne
  live i := by
    by_cases hi : i = w.fresh
    · subst hi
      simp
    · rw [Function.update_of_ne hi, h.requests.live i]
      simp [hi]
  back i hi r hr := by
    subst hp
    by_cases he : i = w.fresh
    · subst he
      rw [Function.update_self] at hr
      cases hr
      rfl
    · rw [Function.update_of_ne he] at hr
      obtain hi | hi := List.mem_append.mp hi
      · exact h.requests.back i hi r hr
      · exact absurd (List.mem_singleton.mp hi) he
  pending ha := by rw [h.requests.pending ha]

theorem sound_send (h : w.Sound p) (data : Bytes) (rc : ℤ) :
    ∃ w', w.act (.send data rc) = .ok w' ∧ w'.Sound p := by
  by_cases hfree : w.life.held = true ∧ w.closing = false
  · obtain ⟨hh, hc⟩ := hfree
    have hp := opened_of_free h hh hc
    by_cases hrc : rc = 0
    · refine ⟨w.accept data,
        by simp [act, send, hh, hc, hrc, onHandle_of_held h hh, Except.map], ?_⟩
      exact ⟨h.life, h.flag, h.streams, requests_send h hp data, h.connects,
        fun hb => absurd (.inl hp) hb, h.frames, h.failing⟩
    · exact ⟨w, by simp [act, send, hh, hc, hrc, onHandle_of_held h hh, Except.map], h⟩
  · refine ⟨w, ?_, h⟩
    have hout : (!w.life.held || w.closing) = true := by
      cases hh : w.life.held <;> cases hc : w.closing <;> simp_all
    simp [act, send, hout, Except.map]

theorem close_eq (h : w.Sound .opened) (hh : w.life.held = true) (hc : w.closing = false)
    (rcStop : ℤ) :
    ∃ reading, w.act (.close rcStop) = .ok { w with
      closing := true, reading := reading, streaming := false,
      life := HandlePhase.life .closing } := by
  have hthere : w.life.held = true → w.life.there = true := held_there h
  obtain ⟨reading, streaming, rc, hstop, -⟩ :=
    stopRead_eq (w := { w with closing := true }) hthere rcStop
  have hclose : w.life.close = .ok (HandlePhase.life .closing) := by
    rw [h.life]
    exact HandlePhase.close_life
  refine ⟨reading, ?_⟩
  rw [act, close, hh, hc]
  change (({ w with closing := true } : SocketWorld).stopRead rcStop).bind _ = _
  rw [hstop]
  change (w.life.close).bind _ = _
  rw [hclose]
  rfl

/-- A second `close` does nothing. -/
theorem close_again (h : ¬ (w.life.held = true ∧ w.closing = false)) (rcStop : ℤ) :
    w.act (.close rcStop) = .ok w := by
  have hout : (!w.life.held || w.closing) = true := by
    cases hh : w.life.held <;> cases hc : w.closing <;> simp_all
  rw [act, close, if_pos hout]

theorem sound_close (h : w.Sound p) (rcStop : ℤ) :
    ∃ w' p', w.act (.close rcStop) = .ok w' ∧ w'.Sound p' := by
  by_cases hfree : w.life.held = true ∧ w.closing = false
  · obtain rfl := opened_of_free h hfree.1 hfree.2
    obtain ⟨reading, hact⟩ := close_eq h hfree.1 hfree.2 rcStop
    refine ⟨_, .closing, hact, ?_⟩
    exact ⟨rfl, fun _ => by simp, fun hs => (by cases hs), h.requests, h.connects,
      fun hb => absurd (.inr (.inl rfl)) hb,
      fun f hf => ⟨fun _ => (h.frames f hf).mp (.inl rfl), fun _ => .inr (.inl rfl)⟩,
      fun hf => h.failing hf⟩
  · exact ⟨w, p, close_again hfree rcStop, h⟩

theorem orphan_eq {requests : ℕ → Option WriteRequest} {l : List ℕ}
    (h : ∀ i ∈ l, requests i ≠ none) :
    ∃ requests', orphan requests l = .ok requests' ∧ ∀ i, requests' i =
      if i ∈ l then (requests i).map fun r => { r with socket := false } else requests i := by
  induction l generalizing requests with
  | nil => exact ⟨requests, rfl, fun i => by simp⟩
  | cons j rest ih =>
    obtain ⟨r, hr⟩ := Option.ne_none_iff_exists'.mp (h j List.mem_cons_self)
    have hrest : ∀ i ∈ rest,
        Function.update requests j (some { r with socket := false }) i ≠ none := fun i hi => by
      by_cases hij : i = j
      · subst hij
        simp
      · rw [Function.update_of_ne hij]
        exact h i (List.mem_cons_of_mem _ hi)
    obtain ⟨requests', hrun, heq⟩ := ih hrest
    refine ⟨requests', by rw [orphan, hr]; exact hrun, fun i => ?_⟩
    rw [heq i]
    by_cases hij : i = j
    · subst hij
      simp [hr]
    · simp [hij]

theorem busy_destroyed (p : HandlePhase) : Busy p.destroyed ↔ Busy p := by
  cases p <;> simp [Busy, HandlePhase.destroyed]

theorem requests_orphan (h : w.Sound p) (ha : p.life.alive = true)
    {requests : ℕ → Option WriteRequest}
    (heq : ∀ i, requests i = if i ∈ w.pendingWrites then
      (w.writeRequests i).map fun r => { r with socket := false } else w.writeRequests i) :
    Requests w.writes requests w.fresh [] (w.frame.bind Frame.request) false where
  nodup := h.requests.nodup
  below := h.requests.below
  apart := h.requests.apart
  live i := by
    rw [heq i, ← h.requests.live i]
    split <;> simp
  back i hi r hr := by
    rw [heq i, h.requests.pending ha, if_pos hi] at hr
    obtain ⟨r', -, rfl⟩ := Option.map_eq_some_iff.mp hr
    rfl
  pending hd := by cases hd

theorem destroy_eq (h : w.Sound p) (ha : w.life.alive = true) :
    ∃ requests, w.act .destroy = .ok { w.resetConnect with
        life := p.destroyed.life, writeRequests := requests, pendingWrites := [],
        streaming := w.streaming && p.destroyed.life.takes } ∧
      ∀ i, requests i = if i ∈ w.pendingWrites then
        (w.writeRequests i).map fun r => { r with socket := false } else w.writeRequests i := by
  rw [h.life] at ha
  have hlive : ∀ i ∈ w.pendingWrites, w.writeRequests i ≠ none := fun i hi =>
    (h.requests.live i).mpr (.inl (h.requests.pending ha ▸ hi))
  obtain ⟨requests, horphan, heq⟩ := orphan_eq hlive
  refine ⟨requests, ?_, heq⟩
  rw [act, destroy, horphan, h.life]
  change p.life.destroy.bind _ = _
  rw [HandlePhase.destroy_life ha]
  rfl

theorem sound_destroy (h : w.Sound p) (ha : w.life.alive = true) (hc : w.Careful .destroy) :
    ∃ w', w.act .destroy = .ok w' ∧ w'.Sound p.destroyed := by
  have hdead := HandlePhase.destroyed_dead p
  obtain ⟨requests, hact, heq⟩ := destroy_eq h ha
  have hrequests := requests_orphan h (h.life ▸ ha) heq
  rw [← hdead] at hrequests
  refine ⟨_, hact, rfl, fun hal => ?_, fun hs => ?_, hrequests, connects_reset h hc.1 _,
    fun hb => ?_, fun f hf => ?_, fun hf => absurd hf hc.2⟩
  · rw [hdead] at hal
    cases hal
  · have htakes := (Bool.and_eq_true_iff.mp hs).2
    rw [HandlePhase.opened_of_takes htakes] at hdead
    cases hdead
  · exact h.still fun hbusy => hb ((busy_destroyed p).mpr hbusy)
  · exact (busy_destroyed p).trans (h.frames f hf)

end Calls

section Callbacks

variable {w : SocketWorld} {p : HandlePhase}

theorem there_of_busy (h : Busy p) : p.life.there = true := by
  obtain rfl | rfl | rfl := h <;> rfl

theorem self_eq (h : w.Sound p) (hb : Busy p) : w.self = .ok p.life.alive := by
  rw [self, h.life]
  obtain rfl | rfl | rfl := hb <;> rfl

/-- A frame on top changes nothing but the frame. -/
theorem sound_plain (h : w.Sound p) (hn : w.frame = none) (hb : Busy p) :
    (w.call .plain).Sound p := by
  unfold call
  split
  · refine ⟨h.life, h.flag, h.streams, ?_, h.connects, h.still, fun f hf => ?_, fun hf => ?_⟩
    · have hrequests := h.requests
      rw [hn] at hrequests
      exact hrequests
    · cases hf
      exact iff_of_true hb (by decide)
    · obtain ⟨i, status, hf, -⟩ := hf
      cases hf
  · exact h

theorem idle_iff : w.idle = true ↔ w.frame = none ∧ w.lent = false := by
  simp [idle]

theorem busy_of_takes (h : w.Sound p) (ht : w.life.takes = true) : Busy p :=
  .inl (HandlePhase.opened_of_takes (h.life ▸ ht))

theorem sound_alloc (h : w.Sound p) (he : w.enabled .alloc = true) :
    ∃ w', w.act .alloc = .ok w' ∧ w'.Sound p := by
  simp only [enabled, Bool.and_eq_true, idle_iff] at he
  obtain ⟨⟨⟨hframe, -⟩, -⟩, htakes⟩ := he
  have hbusy := busy_of_takes h htakes
  have hlent : ({ w with lent := true } : SocketWorld).Sound p :=
    ⟨h.life, h.flag, h.streams, h.requests, h.connects, fun hb => absurd hbusy hb, h.frames,
      h.failing⟩
  refine ⟨if p.life.alive then { w with lent := true }.call .plain else { w with lent := true },
    ?_, ?_⟩
  · rw [act, onAllocCb, self_eq h hbusy]
    rfl
  · split
    · exact sound_plain hlent hframe hbusy
    · exact hlent

theorem sound_read (h : w.Sound p) {nread : ℤ} (he : w.enabled (.read nread) = true) :
    ∃ w', w.act (.read nread) = .ok w' ∧ w'.Sound p := by
  simp only [enabled, Bool.and_eq_true, Option.isNone_iff_eq_none] at he
  obtain ⟨hframe, hlent⟩ := he
  have hbusy : Busy p := by
    by_contra hb
    rw [(h.still hb).2.2] at hlent
    cases hlent
  have hback : ({ w with lent := false } : SocketWorld).Sound p :=
    ⟨h.life, h.flag, h.streams, h.requests, h.connects, fun hb => absurd hbusy hb, h.frames,
      h.failing⟩
  refine ⟨if p.life.alive && decide (nread ≠ 0) then { w with lent := false }.call .plain
    else { w with lent := false }, ?_, ?_⟩
  · rw [act, onReadCb, self_eq h hbusy]
    rfl
  · split
    · exact sound_plain hback hframe hbusy
    · exact hback

/-- The loop gives a request up to its callback. -/
theorem requests_take {i : ℕ} {rest waiting waiting' : List ℕ}
    {heap : ℕ → Option WriteRequest} {fresh : ℕ} {alive : Bool}
    (h : Requests (i :: rest) heap fresh waiting none alive)
    (hw : alive = true → waiting' = rest) : Requests rest heap fresh waiting' (some i) alive where
  nodup := (List.nodup_cons.mp h.nodup).2
  below j hj := h.below j (List.mem_cons_of_mem _ hj)
  apart j hj := by
    cases hj
    exact ⟨(List.nodup_cons.mp h.nodup).1, h.below i List.mem_cons_self⟩
  live j := by
    rw [h.live j]
    simp [eq_comm, or_comm]
  back j hj := h.back j (List.mem_cons_of_mem _ hj)
  pending := hw

theorem requests_free {i : ℕ} {writes waiting : List ℕ} {heap : ℕ → Option WriteRequest}
    {fresh : ℕ} {alive : Bool} (h : Requests writes heap fresh waiting (some i) alive) :
    Requests writes (Function.update heap i none) fresh waiting none alive where
  nodup := h.nodup
  below := h.below
  apart j hj := by cases hj
  live j := by
    obtain ⟨hnot, -⟩ := h.apart i rfl
    by_cases hj : j = i
    · subst hj
      simp [hnot]
    · rw [Function.update_of_ne hj, h.live j]
      simp [Ne.symm hj]
  back j hj r hr := by
    obtain ⟨hnot, -⟩ := h.apart i rfl
    have hne : j ≠ i := fun he => hnot (he ▸ hj)
    rw [Function.update_of_ne hne] at hr
    exact h.back j hj r hr
  pending := h.pending

/-- The request that a callback held is freed with it. -/
theorem sound_free {f : Frame} {i : ℕ} (h : w.Sound p) (hf : w.frame = some f)
    (hi : f.request = some i) (hb : Busy p) :
    ∃ w', w.freeRequest i = .ok w' ∧ w'.Sound p := by
  have hrequests := h.requests
  rw [hf, Option.bind_some, hi] at hrequests
  have hlive := Option.isSome_iff_ne_none.mpr ((hrequests.live i).mpr (.inr rfl))
  refine ⟨{ w with writeRequests := Function.update w.writeRequests i none, frame := none },
    ?_, ?_⟩
  · rw [freeRequest, hlive, h.life, there_of_busy hb]
    rfl
  · exact ⟨h.life, h.flag, h.streams, requests_free hrequests, h.connects, h.still,
      fun f hf => (by cases hf), fun ⟨i, status, hf, _⟩ => (by cases hf)⟩

theorem sound_ret (h : w.Sound p) (he : w.enabled .ret = true) :
    ∃ w', w.act .ret = .ok w' ∧ w'.Sound p := by
  obtain ⟨f, hf⟩ := Option.isSome_iff_exists.mp he
  have hframe := h.frames f hf
  have hrequests := h.requests
  rw [hf] at hrequests
  have hreturned : f.request = none → ({ w with frame := none } : SocketWorld).Sound p := by
    intro hnone
    rw [Option.bind_some, hnone] at hrequests
    exact ⟨h.life, h.flag, h.streams, hrequests, h.connects, h.still, fun f hf => (by cases hf),
      fun ⟨i, status, hf, _⟩ => (by cases hf)⟩
  rw [act, hf, Option.elim_some]
  cases f with
  | plain =>
    have hthere := there_of_busy (hframe.mpr (by decide))
    exact ⟨_, by rw [ret, h.life, if_pos hthere], hreturned rfl⟩
  | closed => exact ⟨_, rfl, hreturned rfl⟩
  | failed i => exact sound_free h hf rfl (hframe.mpr (by simp))
  | sent i status =>
    have hbusy : Busy p := hframe.mpr (by simp)
    by_cases hs : status = 0
    · rw [ret, if_pos hs]
      exact sound_free h hf rfl hbusy
    · obtain ⟨halive, hcallback⟩ := h.failing ⟨i, status, hf, hs⟩
      refine ⟨{ w with frame := some (.failed i) }, ?_, ?_⟩
      · have hnot : ¬ (!w.life.alive) = true := by rw [h.life, halive]; decide
        rw [ret, if_neg hs, if_neg hnot, if_neg (by rw [hcallback]; decide), call,
          if_pos hcallback]
      · exact ⟨h.life, h.flag, h.streams, hrequests, h.connects, h.still,
          fun f hf => (by cases hf; exact iff_of_true hbusy (by simp)),
          fun ⟨j, status, hf, _⟩ => (by cases hf)⟩

theorem sound_written (h : w.Sound p) {status : ℤ} (he : w.enabled (.written status) = true) :
    ∃ w', w.act (.written status) = .ok w' ∧ w'.Sound p := by
  simp only [enabled, Bool.and_eq_true, idle_iff, Bool.not_eq_true', List.isEmpty_eq_false_iff]
    at he
  obtain ⟨⟨hframe, -⟩, hwrites⟩ := he
  obtain ⟨i, rest, hcons⟩ := List.exists_cons_of_ne_nil hwrites
  have hbusy : Busy p := by
    by_contra hb
    exact hwrites (h.still hb).1
  have hrequests := h.requests
  rw [hframe, Option.bind_none, hcons] at hrequests
  obtain ⟨r, hr⟩ := Option.ne_none_iff_exists'.mp
    ((hrequests.live i).mpr (.inl List.mem_cons_self))
  have hback := hrequests.back i List.mem_cons_self r hr
  have hlive : w.life.alive = p.life.alive := by rw [h.life]
  -- The request between the loop and its callback, as if the callback ran already.
  have htaken : ∀ waiting status, (p.life.alive = true → waiting = rest) →
      (status ≠ 0 → p.life.alive = true ∧ w.callback = true) →
      ({ w with writes := rest, pendingWrites := waiting,
                frame := some (.sent i status) } : SocketWorld).Sound p :=
    fun waiting status hw hs =>
    ⟨h.life, h.flag, h.streams, requests_take hrequests hw, h.connects,
      fun hb => absurd hbusy hb, fun f hf => (by cases hf; exact iff_of_true hbusy (by simp)),
      fun ⟨j, s, hf, hne⟩ => (by cases hf; exact hs hne)⟩
  have hfreed : ∀ waiting, (p.life.alive = true → waiting = rest) →
      ∃ w', ({ w with writes := rest, pendingWrites := waiting } : SocketWorld).freeRequest i =
        .ok w' ∧ w'.Sound p := fun waiting hw =>
    sound_free (w := { w with
        writes := rest, pendingWrites := waiting, frame := some (.sent i 0) })
      (htaken waiting 0 hw fun hne => absurd rfl hne) rfl rfl hbusy
  have hact : w.act (.written status) = w.onWriteCb i rest status := by
    rw [act]
    split
    · rename_i hnil
      exact absurd hnil hwrites
    · rename_i j rest' hcons'
      obtain ⟨rfl, rfl⟩ := List.cons.inj (hcons.symm.trans hcons')
      rfl
  rw [hact, onWriteCb, hr]
  dsimp only
  cases hsocket : r.socket with
  | false => exact hfreed w.pendingWrites fun ha => by rw [← hback, hsocket] at ha; cases ha
  | true =>
    have ha : p.life.alive = true := hback.symm.trans hsocket
    have hfilter : w.pendingWrites.filter (· ≠ i) = rest := by
      rw [hrequests.pending ha, List.filter_cons_of_neg (by simp)]
      refine List.filter_eq_self.mpr fun j hj => decide_eq_true fun he => ?_
      exact (List.nodup_cons.mp hrequests.nodup).1 (he ▸ hj)
    rw [if_neg (by decide), if_neg (by rw [hlive, ha]; decide)]
    split
    · rename_i hcallback
      rw [call, if_pos hcallback]
      exact ⟨_, rfl, htaken _ status (fun _ => hfilter) fun _ => ⟨ha, hcallback⟩⟩
    · exact hfreed _ fun _ => hfilter

theorem sound_connected (h : w.Sound p) {status : ℤ}
    (he : w.enabled (.connected status) = true) :
    ∃ w', w.act (.connected status) = .ok w' ∧ w'.Sound p := by
  simp only [enabled, Bool.and_eq_true, idle_iff] at he
  obtain ⟨⟨hframe, -⟩, hconnecting⟩ := he
  obtain ⟨i, hi⟩ := Option.isSome_iff_exists.mp hconnecting
  have hbusy : Busy p := by
    by_contra hb
    rw [(h.still hb).2.1] at hi
    cases hi
  have howned := h.connects.flight i hi
  have hheap := (h.connects.owned i).mpr howned
  have halive : w.life.alive = true := by
    rw [h.life]
    cases ha : p.life.alive with
    | true => rfl
    | false => cases (h.connects.dead ha).symm.trans howned
  refine ⟨({ w with connecting := none } : SocketWorld).call .plain, ?_, ?_⟩
  · rw [act, hi, Option.elim_some, onConnectCb, hheap, halive]
    rfl
  · exact sound_plain (w := { w with connecting := none }) ⟨h.life, h.flag, h.streams, h.requests,
      ⟨h.connects.owned, fun j hj => (by cases hj), h.connects.dead⟩,
      fun hb => absurd hbusy hb, h.frames, h.failing⟩ hframe hbusy

theorem sound_closed (h : w.Sound p) (he : w.enabled .closed = true) :
    ∃ w' p', w.act .closed = .ok w' ∧ w'.Sound p' := by
  simp only [enabled, Bool.and_eq_true, idle_iff, List.isEmpty_iff, Option.isNone_iff_eq_none]
    at he
  obtain ⟨⟨⟨⟨hframe, hlent⟩, hdue⟩, hwrites⟩, hconnecting⟩ := he
  have hrequests := h.requests
  rw [hframe] at hrequests
  rw [h.life] at hdue
  obtain ⟨rfl, hclose⟩ | ⟨rfl, hclose⟩ := HandlePhase.onClose_life hdue
  · have hclosed : ({ w with life := HandlePhase.life .closed, reading := false } :
        SocketWorld).Sound .closed :=
      ⟨rfl, fun _ => ⟨fun _ => .inr rfl, fun _ => (h.flag rfl).mpr (.inl rfl)⟩,
        fun hs => (by cases h.streams hs), h.requests, h.connects,
        fun _ => ⟨hwrites, hconnecting, hlent⟩, fun f hf => (by cases hframe.symm.trans hf),
        fun hf => h.failing hf⟩
    refine ⟨({ w with life := HandlePhase.life .closed, reading := false } : SocketWorld).call
      .closed, .closed, ?_, ?_⟩
    · rw [act, onCloseCb, h.life, hclose]
      rfl
    · unfold call
      split
      · exact ⟨rfl, hclosed.flag, hclosed.streams, hrequests, h.connects, hclosed.still,
          fun f hf => (by cases hf; simp [Busy]),
          fun ⟨i, status, hf, _⟩ => (by cases hf)⟩
      · exact hclosed
  · refine ⟨{ w with life := HandlePhase.life .gone }, .gone, ?_, ?_⟩
    · rw [act, onCloseCb, h.life, hclose]
      rfl
    · exact ⟨rfl, fun ha => (by cases ha), fun hs => (by cases h.streams hs), h.requests,
        h.connects, fun _ => ⟨hwrites, hconnecting, hlent⟩,
        fun f hf => (by cases hframe.symm.trans hf), fun hf => h.failing hf⟩

end Callbacks

section Runs

variable {w w' : SocketWorld} {p : HandlePhase} {a : Act} {started : Bool} {acts : List Act}
  {events : List Heard}

/-- A careful step is not at fault. -/
theorem sound_act (h : w.Sound p) (he : w.enabled a = true) (hc : w.Careful a) :
    ∃ w' p', w.act a = .ok w' ∧ w'.Sound p' := by
  cases a with
  | setCallback callback => exact ⟨_, p, rfl, sound_setCallback h callback hc⟩
  | connect address rc =>
    obtain ⟨w', hw, hs⟩ := sound_connect h hc
    exact ⟨w', p, hw, hs⟩
  | startRead rc =>
    obtain ⟨w', hw, hs⟩ := sound_startRead h rc
    exact ⟨w', p, hw, hs⟩
  | stopRead rc =>
    obtain ⟨w', hw, hs⟩ := sound_stopRead h rc
    exact ⟨w', p, hw, hs⟩
  | send data rc =>
    obtain ⟨w', hw, hs⟩ := sound_send h data rc
    exact ⟨w', p, hw, hs⟩
  | close rcStop => exact sound_close h rcStop
  | destroy =>
    obtain ⟨w', hw, hs⟩ := sound_destroy h (Bool.and_eq_true_iff.mp he).1 hc
    exact ⟨w', _, hw, hs⟩
  | ret =>
    obtain ⟨w', hw, hs⟩ := sound_ret h he
    exact ⟨w', p, hw, hs⟩
  | alloc =>
    obtain ⟨w', hw, hs⟩ := sound_alloc h he
    exact ⟨w', p, hw, hs⟩
  | read nread =>
    obtain ⟨w', hw, hs⟩ := sound_read h he
    exact ⟨w', p, hw, hs⟩
  | written status =>
    obtain ⟨w', hw, hs⟩ := sound_written h he
    exact ⟨w', p, hw, hs⟩
  | connected status =>
    obtain ⟨w', hw, hs⟩ := sound_connected h he
    exact ⟨w', p, hw, hs⟩
  | closed => exact sound_closed h he

theorem careful_of_loop (ha : a.ofOwner = false) : w.Careful a := by
  cases a <;> trivial

theorem run_sound {allowed : SocketWorld → Act → Prop}
    (hallowed : ∀ w a, allowed w a → w.Careful a) (hr : Run allowed w acts events w')
    (h : ∃ p, w.Sound p) : ∃ p, w'.Sound p := by
  induction hr with
  | start => exact h
  | step a _ he ha hact ih =>
    obtain ⟨p, hs⟩ := ih
    obtain ⟨w₂, p₂, hact₂, hs₂⟩ := sound_act hs he (hallowed _ _ ha)
    obtain rfl := Except.ok.inj (hact.symm.trans hact₂)
    exact ⟨p₂, hs₂⟩

theorem run_created (hr : Run Careful (create started) acts events w) : ∃ p, w.Sound p :=
  run_sound (fun _ _ => id) hr ⟨_, sound_create started⟩

end Runs

end SocketWorld

end LogTransfer.Net
