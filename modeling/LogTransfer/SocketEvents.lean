import LogTransfer.SocketSafety
import Mathlib.Data.List.Range

/-!
# What the owner of a socket hears

Every write that was taken is told once, in the order of the calls and before
`onClosed`, and a failed one is followed by its error.
-/

set_option autoImplicit false

namespace LogTransfer.Net
open LoopHandle

/-- The request whose end is told. -/
def Heard.completion : Heard → Option ℕ
  | .sendComplete i _ => some i
  | _ => none

/-- The writes that were told, by number. -/
def completed (events : List Heard) : List ℕ := events.filterMap Heard.completion

theorem completed_append (x y : List Heard) : completed (x ++ y) = completed x ++ completed y :=
  List.filterMap_append

namespace SocketWorld

section Owner

variable {w w' : SocketWorld} {p p' : HandlePhase} {a : Act}

/-- What a call of the owner leaves alone. A write that is taken gets the next
number, on an open handle only. -/
structure Quiet (w w' : SocketWorld) : Prop where
  frame : w'.frame = w.frame
  callback : w'.callback = w.callback
  writes : w'.writes = w.writes ∧ w'.fresh = w.fresh ∨
    w.life.takes = true ∧ w'.life = w.life ∧ w'.writes = w.writes ++ [w.fresh] ∧
      w'.fresh = w.fresh + 1
  pending : w'.life.memory.any (!·.closed) = w.life.memory.any (!·.closed)

theorem quiet_refl (w : SocketWorld) : Quiet w w := ⟨rfl, rfl, .inl ⟨rfl, rfl⟩, rfl⟩

theorem quiet_onHandle {r : SocketWorld × ℤ} (hr : Quiet w r.1)
    (hact : (w.onHandle r).map Prod.fst = .ok w') : Quiet w w' := by
  unfold onHandle at hact
  split at hact
  · obtain rfl := Except.ok.inj hact
    exact hr
  · cases hact

theorem busy_iff (p : HandlePhase) : Busy p ↔ p.life.memory.any (!·.closed) = true := by
  cases p <;> simp [Busy, HandlePhase.life]

theorem owner_quiet (h : w.Sound p) (ha : a.ofOwner = true) (he : w.enabled a = true)
    (hset : ∀ callback, a = .setCallback callback → callback = w.callback)
    (hact : w.act a = .ok w') : Quiet w w' := by
  cases a with
  | setCallback callback =>
    obtain rfl := Except.ok.inj hact
    exact ⟨rfl, hset callback rfl, .inl ⟨rfl, rfl⟩, rfl⟩
  | connect address rc =>
    rw [act, connect] at hact
    split at hact
    · obtain rfl := Except.ok.inj hact
      exact quiet_refl w
    · split at hact
      · obtain rfl := Except.ok.inj hact
        exact quiet_refl w
      · split at hact
        · cases hact
        · split at hact
          · exact quiet_onHandle ⟨rfl, rfl, .inl ⟨rfl, rfl⟩, rfl⟩ hact
          · exact quiet_onHandle ⟨rfl, rfl, .inl ⟨rfl, rfl⟩, rfl⟩ hact
  | startRead rc =>
    rw [act, startRead] at hact
    split at hact
    · obtain rfl := Except.ok.inj hact
      exact quiet_refl w
    · split at hact
      · obtain rfl := Except.ok.inj hact
        exact quiet_refl w
      · refine quiet_onHandle ?_ hact
        dsimp only
        split
        · exact ⟨rfl, rfl, .inl ⟨rfl, rfl⟩, rfl⟩
        · exact quiet_refl w
  | stopRead rc =>
    rw [act, stopRead] at hact
    split at hact
    · obtain rfl := Except.ok.inj hact
      exact quiet_refl w
    · refine quiet_onHandle ?_ hact
      dsimp only
      split
      · exact ⟨rfl, rfl, .inl ⟨rfl, rfl⟩, rfl⟩
      · exact quiet_refl w
  | send data rc =>
    rw [act, send] at hact
    split at hact
    · obtain rfl := Except.ok.inj hact
      exact quiet_refl w
    · rename_i hfree
      have hopen : p = .opened := by
        simp only [Bool.or_eq_true, Bool.not_eq_true', not_or, Bool.not_eq_false,
          Bool.not_eq_true] at hfree
        exact opened_of_free h hfree.1 hfree.2
      refine quiet_onHandle ?_ hact
      dsimp only
      split
      · exact ⟨rfl, rfl, .inr ⟨by rw [h.life, hopen]; rfl, rfl, rfl, rfl⟩, rfl⟩
      · exact quiet_refl w
  | close rcStop =>
    by_cases hfree : w.life.held = true ∧ w.closing = false
    · obtain rfl := opened_of_free h hfree.1 hfree.2
      obtain ⟨reading, hact'⟩ := close_eq h hfree.1 hfree.2 rcStop
      obtain rfl := Except.ok.inj (hact'.symm.trans hact)
      exact ⟨rfl, rfl, .inl ⟨rfl, rfl⟩, by rw [h.life]; rfl⟩
    · obtain rfl := Except.ok.inj ((close_again hfree rcStop).symm.trans hact)
      exact quiet_refl w
  | destroy =>
    obtain ⟨requests, hact', -⟩ := destroy_eq h (Bool.and_eq_true_iff.mp he).1
    obtain rfl := Except.ok.inj (hact'.symm.trans hact)
    refine ⟨rfl, rfl, .inl ⟨rfl, rfl⟩, ?_⟩
    rw [h.life]
    cases p <;> rfl
  | _ => cases ha

theorem owner_silent (ha : a.ofOwner = true) : w.heard a = [] := by
  cases a <;> first | rfl | cases ha

end Owner

section Told

variable {w w' : SocketWorld} {p : HandlePhase} {a : Act} {events : List Heard}

/-- The close callback is still to come, or there was never a handle. -/
def Open (w : SocketWorld) : Prop := w.life.memory.any (!·.closed) = true

structure Told (w : SocketWorld) (events : List Heard) : Prop where
  sound : ∃ p, w.Sound p
  set : w.callback = true
  order : w.life.alive = true → completed events ++ w.writes = List.range w.fresh
  first : ∃ k ≤ w.fresh, completed events = List.range k
  last : ∀ before after, events = before ++ .closed :: after →
    after = [] ∧ ¬ w.Open ∧ completed events = List.range w.fresh
  errors : ∀ before i status after, events = before ++ .sendComplete i status :: after →
    status ≠ 0 → after.head? = some (.error status "write") ∨
      after = [] ∧ w.frame = some (.sent i status)

theorem snoc_eq {α : Type} {xs before after : List α} {x y : α}
    (h : xs ++ [x] = before ++ y :: after) :
    after = [] ∧ before = xs ∧ y = x ∨
      ∃ after', after = after' ++ [x] ∧ xs = before ++ y :: after' := by
  obtain rfl | ⟨after', z, rfl⟩ := List.eq_nil_or_concat after
  · obtain ⟨rfl, he⟩ := List.append_inj' h rfl
    cases he
    exact .inl ⟨rfl, rfl, rfl⟩
  · rw [List.concat_eq_append, ← List.cons_append, ← List.append_assoc] at h
    obtain ⟨rfl, he⟩ := List.append_inj' h rfl
    cases he
    exact .inr ⟨after', List.concat_eq_append, rfl⟩

theorem told_silent (h : Told w events) (hs : ∃ p, w'.Sound p) (hset : w'.callback = true)
    (horder : w'.life.alive = true → completed events ++ w'.writes = List.range w'.fresh)
    (hfresh : w.fresh ≤ w'.fresh) (hopen : ¬ w.Open → ¬ w'.Open ∧ w'.fresh = w.fresh)
    (hframe : w.Failing → w'.frame = w.frame) : Told w' events where
  sound := hs
  set := hset
  order := horder
  first := by
    obtain ⟨k, hk, he⟩ := h.first
    exact ⟨k, hk.trans hfresh, he⟩
  last before after he := by
    obtain ⟨hafter, hclosed, hall⟩ := h.last before after he
    obtain ⟨hclosed', hsame⟩ := hopen hclosed
    exact ⟨hafter, hclosed', hsame ▸ hall⟩
  errors before i status after he hne := by
    obtain hhead | ⟨hafter, hf⟩ := h.errors before i status after he hne
    · exact .inl hhead
    · exact .inr ⟨hafter, (hframe ⟨i, status, hf, hne⟩).trans hf⟩

theorem told_says {x : Heard} (h : Told w events) (hs : ∃ p, w'.Sound p)
    (hset : w'.callback = true) (hopen : w.Open)
    (horder : completed (events ++ [x]) ++ w'.writes = List.range w'.fresh)
    (hlast : x = .closed → ¬ w'.Open ∧ w'.writes = [])
    (hsent : ∀ i status, x = .sendComplete i status → status ≠ 0 →
      w'.frame = some (.sent i status))
    (hfailed : ∀ i status, w.frame = some (.sent i status) → status ≠ 0 →
      x = .error status "write") : Told w' (events ++ [x]) where
  sound := hs
  set := hset
  order _ := horder
  first := by
    have htake := congrArg (List.take (completed (events ++ [x])).length) horder
    rw [List.take_left, List.take_range] at htake
    exact ⟨_, Nat.min_le_right _ _, htake⟩
  last before after he := by
    obtain ⟨hafter, rfl, hx⟩ | ⟨after', -, hbefore⟩ := snoc_eq he
    · obtain ⟨hclosed, hnil⟩ := hlast hx.symm
      rw [hnil, List.append_nil] at horder
      exact ⟨hafter, hclosed, horder⟩
    · exact absurd hopen (h.last before after' hbefore).2.1
  errors before i status after he hne := by
    obtain ⟨hafter, rfl, hx⟩ | ⟨after', rfl, hbefore⟩ := snoc_eq he
    · exact .inr ⟨hafter, hsent i status hx.symm hne⟩
    · obtain hhead | ⟨rfl, hf⟩ := h.errors before i status after' hbefore hne
      · left
        cases after' with
        | nil => cases hhead
        | cons y rest => exact hhead
      · left
        rw [hfailed i status hf hne]
        rfl

theorem told_owner (h : Told w events) (ha : a.ofOwner = true) (he : w.enabled a = true)
    (hset : a ≠ .setCallback false) (hs : ∃ p, w'.Sound p) (hact : w.act a = .ok w') :
    Told w' events := by
  obtain ⟨p, hp⟩ := h.sound
  have halive : w.life.alive = true := by
    cases a with
    | connect address rc => exact (Bool.and_eq_true_iff.mp (Bool.and_eq_true_iff.mp he).1).1
    | ret => cases ha
    | alloc => cases ha
    | read nread => cases ha
    | written status => cases ha
    | connected status => cases ha
    | closed => cases ha
    | _ => exact (Bool.and_eq_true_iff.mp he).1
  have hquiet := owner_quiet hp ha he (fun callback hc => by
    rw [h.set]
    cases callback with
    | true => rfl
    | false => exact absurd hc hset) hact
  have horder := h.order halive
  refine told_silent h hs (hquiet.callback.trans h.set) (fun _ => ?_) ?_ (fun hclosed => ?_)
    fun _ => hquiet.frame
  · obtain ⟨hw, hf⟩ | ⟨-, -, hw, hf⟩ := hquiet.writes
    · rw [hw, hf, horder]
    · rw [hw, hf, ← List.append_assoc, horder, List.range_succ]
  · obtain ⟨-, hf⟩ | ⟨-, -, -, hf⟩ := hquiet.writes <;> omega
  · refine ⟨by rw [Open, hquiet.pending]; exact hclosed, ?_⟩
    obtain ⟨-, hf⟩ | ⟨htakes, -⟩ := hquiet.writes
    · exact hf
    · have hopen := HandlePhase.opened_of_takes (hp.life ▸ htakes)
      exact absurd (by rw [Open, hp.life, hopen]; rfl) hclosed

/-- The requests, the handle and the callback stay. -/
structure Same (w w' : SocketWorld) : Prop where
  writes : w'.writes = w.writes
  fresh : w'.fresh = w.fresh
  life : w'.life = w.life
  callback : w'.callback = w.callback

theorem same_call (w : SocketWorld) (b : Bool) (f : Frame) :
    Same w (if b = true then w.call f else w) := by
  unfold call
  split
  · split <;> exact ⟨rfl, rfl, rfl, rfl⟩
  · exact ⟨rfl, rfl, rfl, rfl⟩

/-- A step between callbacks that takes no request from the loop. -/
theorem told_plain {x : List Heard} (h : Told w events) (hs : ∃ p, w'.Sound p)
    (hw : Same w w') (hnone : ¬ w.Failing)
    (hx : x = [] ∨ w.Open ∧ w.life.alive = true ∧
      ∃ y, x = [y] ∧ y.completion = none ∧ y ≠ .closed) : Told w' (events ++ x) := by
  obtain rfl | ⟨hopen, halive, y, rfl, hy, hne⟩ := hx
  · rw [List.append_nil]
    exact told_silent h hs (hw.callback.trans h.set)
      (fun ha => by rw [hw.writes, hw.fresh, h.order (hw.life ▸ ha)]) hw.fresh.ge
      (fun hc => ⟨by rw [Open, hw.life]; exact hc, hw.fresh⟩) fun hf => absurd hf hnone
  · have hsame : completed (events ++ [y]) = completed events := by
      rw [completed_append, completed, completed, List.filterMap_cons_none hy,
        List.filterMap_nil, List.append_nil]
    refine told_says h hs (hw.callback.trans h.set) hopen ?_ (fun he => absurd he hne) ?_ ?_
    · rw [hsame, hw.writes, hw.fresh, h.order halive]
    · intro i status he hstatus
      rw [he] at hy
      cases hy
    · intro i status hf hstatus
      exact absurd ⟨i, status, hf, hstatus⟩ hnone

theorem not_failing_of_idle (h : w.frame = none) : ¬ w.Failing := fun ⟨_, _, hf, _⟩ => by
  cases h.symm.trans hf

theorem told_ret (h : Told w events) (hs : ∃ p, w'.Sound p) (he : w.enabled .ret = true)
    (hact : w.act .ret = .ok w') : Told w' (events ++ w.heard .ret) := by
  obtain ⟨p, hp⟩ := h.sound
  obtain ⟨f, hf⟩ := Option.isSome_iff_exists.mp he
  rw [act, hf, Option.elim_some] at hact
  have hsilent : w.heard .ret = [] → ¬ w.Failing → Same w w' →
      Told w' (events ++ w.heard .ret) := fun hx hn hw => told_plain h hs hw hn (.inl hx)
  have hother : ∀ g : Frame, w.frame = some g → (∀ i status, g = .sent i status → status = 0) →
      ¬ w.Failing := by
    rintro g hg hz ⟨i, status, hf, hne⟩
    exact hne (hz i status (Option.some.inj (hg.symm.trans hf)))
  cases f with
  | plain =>
    rw [ret] at hact
    split at hact
    · obtain rfl := Except.ok.inj hact
      exact hsilent (by simp [heard, hf]) (hother _ hf fun i s he => by cases he)
        ⟨rfl, rfl, rfl, rfl⟩
    · cases hact
  | closed =>
    obtain rfl := Except.ok.inj hact
    exact hsilent (by simp [heard, hf]) (hother _ hf fun i s he => by cases he) ⟨rfl, rfl, rfl, rfl⟩
  | failed i =>
    obtain rfl := freeRequest_eq hact
    exact hsilent (by simp [heard, hf]) (hother _ hf fun i s he => by cases he) ⟨rfl, rfl, rfl, rfl⟩
  | sent i status =>
    by_cases hz : status = 0
    · rw [ret, if_pos hz] at hact
      obtain rfl := freeRequest_eq hact
      exact hsilent (by simp [heard, hf, hz])
        (hother _ hf fun i s he => by cases he; exact hz) ⟨rfl, rfl, rfl, rfl⟩
    · have halive : w.life.alive = true := hp.life ▸ (hp.failing ⟨i, status, hf, hz⟩).1
      have hbusy := (hp.frames _ hf).mpr (by simp)
      have hx : w.heard .ret = [.error status "write"] := by simp [heard, hf, hz]
      have hnone : completed [.error status "write"] = [] := rfl
      rw [ret, if_neg hz, if_neg (by rw [halive]; decide), if_neg (by rw [h.set]; decide), call,
        if_pos h.set] at hact
      obtain rfl := Except.ok.inj hact
      rw [hx]
      have hopen : w.Open := by
        rw [Open, hp.life]
        exact (busy_iff p).mp hbusy
      refine told_says h hs h.set hopen ?_ (fun he => by cases he) (fun j s he => by cases he)
        fun j s hj hne => ?_
      · rw [completed_append, hnone, List.append_nil]
        exact h.order halive
      · cases hf.symm.trans hj
        rfl

theorem told_written (h : Told w events) {status : ℤ} (hs : ∃ p, w'.Sound p)
    (he : w.enabled (.written status) = true) (hact : w.act (.written status) = .ok w') :
    Told w' (events ++ w.heard (.written status)) := by
  obtain ⟨p, hp⟩ := h.sound
  simp only [enabled, Bool.and_eq_true, idle_iff, Bool.not_eq_true', List.isEmpty_eq_false_iff]
    at he
  obtain ⟨⟨hframe, -⟩, hwrites⟩ := he
  have hfail := not_failing_of_idle hframe
  have hopen : w.Open := by
    by_contra hc
    refine hwrites (hp.still fun hb => hc ?_).1
    rw [Open, hp.life]
    exact (busy_iff p).mp hb
  rw [act] at hact
  split at hact
  · rename_i hnil
    exact absurd hnil hwrites
  · rename_i i rest hcons
    have hrequests := hp.requests
    rw [hcons] at hrequests
    obtain ⟨r, hr⟩ := Option.ne_none_iff_exists'.mp
      ((hrequests.live i).mpr (.inl List.mem_cons_self))
    have hback := hrequests.back i List.mem_cons_self r hr
    have hlife : w.life.alive = r.socket := by rw [hp.life, hback]
    rw [onWriteCb, hr] at hact
    dsimp only at hact
    cases hsocket : r.socket with
    | false =>
      rw [hsocket, if_pos (by decide)] at hact
      obtain rfl := freeRequest_eq hact
      have hx : w.heard (.written status) = [] := by simp [heard, hlife, hsocket]
      rw [hx, List.append_nil]
      refine told_silent h hs h.set (fun ha => ?_) le_rfl (fun hc => ⟨hc, rfl⟩)
        fun hf => absurd hf hfail
      cases (hlife.trans hsocket).symm.trans ha
    | true =>
      rw [hsocket, hlife, hsocket, if_neg (by decide), if_neg (by decide)] at hact
      rw [if_pos h.set, call, if_pos h.set] at hact
      obtain rfl := Except.ok.inj hact
      have hx : w.heard (.written status) = [.sendComplete i status] := by
        simp [heard, hlife, hsocket, h.set, hcons]
      have hone : completed [.sendComplete i status] = [i] := rfl
      rw [hx]
      refine told_says h hs h.set hopen ?_ (fun he => by cases he) (fun j s he _ => ?_)
        fun j s hj _ => by cases hframe.symm.trans hj
      · have horder := h.order (hlife.trans hsocket)
        rw [hcons] at horder
        rw [completed_append, hone, List.append_assoc]
        exact horder
      · cases he
        rfl

theorem told_closed (h : Told w events) (hs : ∃ p, w'.Sound p)
    (he : w.enabled .closed = true) (hact : w.act .closed = .ok w') :
    Told w' (events ++ w.heard .closed) := by
  obtain ⟨p, hp⟩ := h.sound
  simp only [enabled, Bool.and_eq_true, idle_iff, List.isEmpty_iff] at he
  obtain ⟨⟨⟨⟨hframe, -⟩, hdue⟩, hwrites⟩, -⟩ := he
  have hfail := not_failing_of_idle hframe
  rw [hp.life] at hdue
  obtain ⟨rfl, hclose⟩ | ⟨rfl, hclose⟩ := HandlePhase.onClose_life hdue
  · rw [act, onCloseCb, hp.life, hclose] at hact
    obtain rfl := Except.ok.inj hact
    have halive : w.life.alive = true := by rw [hp.life]; rfl
    have hx : w.heard .closed = [.closed] := by simp [heard, halive, h.set]
    have hclosed : (HandlePhase.life .closed).alive = true := rfl
    rw [hx]
    dsimp only at hs ⊢
    rw [if_pos hclosed, call, if_pos h.set] at hs ⊢
    refine told_says h hs h.set (by rw [Open, hp.life]; rfl) ?_
      (fun _ => ⟨by simp [Open, HandlePhase.life], hwrites⟩) (fun i s he => by cases he)
      fun i s hf _ => by cases hframe.symm.trans hf
    have hnone : completed [.closed] = [] := rfl
    rw [completed_append, hnone, List.append_nil]
    exact h.order halive
  · rw [act, onCloseCb, hp.life, hclose] at hact
    obtain rfl := Except.ok.inj hact
    have hdead : w.life.alive = false := by rw [hp.life]; rfl
    have hx : w.heard .closed = [] := by simp [heard, hdead]
    rw [hx, List.append_nil]
    exact told_silent h hs h.set (fun ha => by cases ha) le_rfl
      (fun _ => ⟨by simp [Open, HandlePhase.life, Life.alive], rfl⟩) fun hf => absurd hf hfail

/-- The steps of a loop that is between two callbacks and takes no request. -/
theorem told_between (h : Told w events) (hs : ∃ p, w'.Sound p) (he : w.enabled a = true)
    (ha : a = .alloc ∨ (∃ nread, a = .read nread) ∨ ∃ status, a = .connected status)
    (hact : w.act a = .ok w') : Told w' (events ++ w.heard a) := by
  obtain ⟨p, hp⟩ := h.sound
  -- What is heard is one callback where there is a socket, and nothing else.
  have hone : ∀ (b : Bool) (y : Heard), Busy p → (b = true → w.life.alive = true) →
      y.completion = none → y ≠ .closed → (if b = true then [y] else []) = [] ∨ w.Open ∧
        w.life.alive = true ∧ ∃ z, (if b = true then [y] else []) = [z] ∧
          z.completion = none ∧ z ≠ .closed := by
    intro b y hb halive hy hne
    cases b with
    | false => exact .inl rfl
    | true =>
      exact .inr ⟨by rw [Open, hp.life]; exact (busy_iff p).mp hb, halive rfl, y, rfl, hy, hne⟩
  have halive : (w.life.alive && w.callback) = true → w.life.alive = true := fun hb =>
    (Bool.and_eq_true_iff.mp hb).1
  have hlent : ∀ lent, Same w { w with lent := lent } := fun _ => ⟨rfl, rfl, rfl, rfl⟩
  have htrans : ∀ {w₁ w₂ : SocketWorld}, Same w w₁ → Same w₁ w₂ → Same w w₂ := fun h₁ h₂ =>
    ⟨h₂.writes.trans h₁.writes, h₂.fresh.trans h₁.fresh, h₂.life.trans h₁.life,
      h₂.callback.trans h₁.callback⟩
  obtain rfl | ⟨nread, rfl⟩ | ⟨status, rfl⟩ := ha
  · simp only [enabled, Bool.and_eq_true, idle_iff] at he
    have hbusy := busy_of_takes hp he.2
    rw [act, onAllocCb, self_eq hp hbusy] at hact
    obtain rfl := Except.ok.inj hact
    exact told_plain h hs (htrans (hlent true) (same_call _ _ _))
      (not_failing_of_idle he.1.1.1) (hone _ _ hbusy halive rfl (by decide))
  · simp only [enabled, Bool.and_eq_true, Option.isNone_iff_eq_none] at he
    have hbusy : Busy p := by
      by_contra hb
      rw [(hp.still hb).2.2] at he
      cases he.2
    rw [act, onReadCb, self_eq hp hbusy] at hact
    obtain rfl := Except.ok.inj hact
    refine told_plain h hs (htrans (hlent false) (same_call _ _ _)) (not_failing_of_idle he.1) ?_
    rw [heard]
    have hread : (w.life.alive && w.callback && decide (nread ≠ 0)) = true →
        w.life.alive = true := fun hb => halive (Bool.and_eq_true_iff.mp hb).1
    by_cases hpos : nread > 0
    · rw [if_pos hpos]
      exact hone _ _ hbusy hread rfl (by simp)
    · rw [if_neg hpos]
      exact hone _ _ hbusy hread rfl (by simp)
  · simp only [enabled, Bool.and_eq_true, idle_iff] at he
    obtain ⟨i, hi⟩ := Option.isSome_iff_exists.mp he.2
    have hbusy : Busy p := by
      by_contra hb
      rw [(hp.still hb).2.1] at hi
      cases hi
    rw [act, hi, Option.elim_some, onConnectCb] at hact
    split at hact
    · obtain rfl := Except.ok.inj hact
      have hconnecting : Same w { w with connecting := none } := ⟨rfl, rfl, rfl, rfl⟩
      exact told_plain h hs (htrans hconnecting (same_call _ true _)) (not_failing_of_idle he.1.1)
        (hone _ _ hbusy halive rfl (by simp))
    · cases hact

/-- Careful calls that leave the callback where it is. -/
def Listening (w : SocketWorld) (a : Act) : Prop := w.Careful a ∧ a ≠ .setCallback false

theorem told_step (h : Told w events) (he : w.enabled a = true) (ha : w.Listening a)
    (hact : w.act a = .ok w') : Told w' (events ++ w.heard a) := by
  obtain ⟨p, hp⟩ := h.sound
  obtain ⟨w₁, p', hact', hs⟩ := sound_act hp he ha.1
  obtain rfl := Except.ok.inj (hact.symm.trans hact')
  have howner : a.ofOwner = true → Told w' (events ++ w.heard a) := fun ho => by
    rw [owner_silent ho, List.append_nil]
    exact told_owner h ho he ha.2 ⟨p', hs⟩ hact
  cases a with
  | ret => exact told_ret h ⟨p', hs⟩ he hact
  | alloc => exact told_between h ⟨p', hs⟩ he (.inl rfl) hact
  | read nread => exact told_between h ⟨p', hs⟩ he (.inr (.inl ⟨_, rfl⟩)) hact
  | written status => exact told_written h ⟨p', hs⟩ he hact
  | connected status => exact told_between h ⟨p', hs⟩ he (.inr (.inr ⟨_, rfl⟩)) hact
  | closed => exact told_closed h ⟨p', hs⟩ he hact
  | _ => exact howner rfl

theorem run_told {acts : List Act} (hr : Run Listening w acts events w') (h : Told w []) :
    Told w' events := by
  induction hr with
  | start => exact h
  | step a _ he ha hact ih => exact told_step ih he ha hact

theorem told_create (started : Bool) : Told ((create started).setCallback true) [] where
  sound := ⟨_, sound_setCallback (sound_create started) true fun _ => rfl⟩
  set := rfl
  order _ := rfl
  first := ⟨0, le_rfl, rfl⟩
  last before after he := by simp at he
  errors before i status after he := by simp at he

/-- The writes that were taken are told once each, in the order in which they
were taken, and all of them before `onClosed`, after which nothing is told; the
next that is heard after a failed one is its error. -/
theorem sends_told {started : Bool} {acts : List Act}
    (hr : Run Listening ((create started).setCallback true) acts events w) :
    (∃ k ≤ w.fresh, completed events = List.range k) ∧
      (w.life.alive = true → completed events ++ w.writes = List.range w.fresh) ∧
      (∀ before after, events = before ++ .closed :: after →
        after = [] ∧ completed before = List.range w.fresh) ∧
      ∀ before i status after, events = before ++ .sendComplete i status :: after →
        status ≠ 0 → after.head? = some (.error status "write") ∨
          after = [] ∧ w.frame = some (.sent i status) := by
  have h := run_told hr (told_create started)
  refine ⟨h.first, h.order, fun before after he => ?_, h.errors⟩
  obtain ⟨rfl, -, hall⟩ := h.last before after he
  have hnone : completed [.closed] = [] := rfl
  rw [he, completed_append, hnone, List.append_nil] at hall
  exact ⟨rfl, hall⟩

/-- A write that fails, while its error is told. -/
def sampleFailed : SocketWorld :=
  { ((create true).setCallback true).accept [] with
    writes := [], pendingWrites := [], frame := some (.failed 0) }

def sampleHeard : List Heard := [.sendComplete 0 (-32), .error (-32) "write"]

theorem sampleFailed_run : Run Listening ((create true).setCallback true)
    [.send [] 0, .written (-32), .ret] sampleHeard sampleFailed := by
  have hsent : Run Listening ((create true).setCallback true) [.send [] 0] []
      (((create true).setCallback true).accept []) :=
    .step (.send [] 0) .start rfl ⟨trivial, by simp⟩ rfl
  have hwritten : Run Listening ((create true).setCallback true) [.send [] 0, .written (-32)]
      [.sendComplete 0 (-32)] { sampleFailed with frame := some (.sent 0 (-32)) } :=
    .step (.written (-32)) hsent rfl ⟨trivial, by simp⟩ rfl
  exact .step .ret hwritten rfl ⟨trivial, by simp⟩ rfl

theorem sends_told_failed :
    (∃ k ≤ sampleFailed.fresh, completed sampleHeard = List.range k) ∧
      (sampleFailed.life.alive = true →
        completed sampleHeard ++ sampleFailed.writes = List.range sampleFailed.fresh) ∧
      (∀ before after, sampleHeard = before ++ .closed :: after →
        after = [] ∧ completed before = List.range sampleFailed.fresh) ∧
      ∀ before i status after, sampleHeard = before ++ .sendComplete i status :: after →
        status ≠ 0 → after.head? = some (.error status "write") ∨
          after = [] ∧ sampleFailed.frame = some (.sent i status) :=
  sends_told sampleFailed_run

end Told

end SocketWorld

end LogTransfer.Net
