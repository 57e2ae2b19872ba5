import LogTransfer.SocketLife

/-!
# Safety of the socket

Which calls of the owner are safe, and what the loop does with a socket that is
gone.
-/

set_option autoImplicit false

namespace LogTransfer.Net.SocketWorld
open LoopHandle

section Safety

variable {w w' : SocketWorld} {p : HandlePhase} {a : Act} {started : Bool} {acts : List Act}
  {events : List Heard}

/-- The loop alone comes to a fault. -/
def Doomed (w : SocketWorld) : Prop :=
  ∃ acts events w' b f, Run byLoop w acts events w' ∧ b.ofOwner = false ∧
    w'.enabled b = true ∧ w'.act b = .error f

theorem sound_not_doomed (h : w.Sound p) : ¬ w.Doomed := by
  rintro ⟨acts, events, w', b, f, hr, hb, he, hf⟩
  obtain ⟨p', hs⟩ := run_sound (fun _ _ => careful_of_loop) hr ⟨p, h⟩
  obtain ⟨w'', -, hok, -⟩ := sound_act hs he (careful_of_loop hb)
  cases hf.symm.trans hok

theorem run_trans {allowed : SocketWorld → Act → Prop} {w w₁ w₂ : SocketWorld}
    {acts₁ acts₂ : List Act} {events₁ events₂ : List Heard}
    (h₁ : Run allowed w acts₁ events₁ w₁) (h₂ : Run allowed w₁ acts₂ events₂ w₂) :
    Run allowed w (acts₁ ++ acts₂) (events₁ ++ events₂) w₂ := by
  induction h₂ with
  | start => rw [List.append_nil, List.append_nil]; exact h₁
  | step a _ he ha hact ih =>
    rw [← List.append_assoc, ← List.append_assoc]
    exact .step a ih he ha hact

/-- A step of the loop leads to a fault when it is one, or what it leads to does. -/
theorem doomed_step (ha : a.ofOwner = false) (he : w.enabled a = true)
    (h : ∀ w', w.act a = .ok w' → w'.Doomed) : w.Doomed := by
  cases hact : w.act a with
  | error f => exact ⟨[], [], w, a, f, .start, ha, he, hact⟩
  | ok w₁ =>
    obtain ⟨acts, events, w', b, f, hr, hb, hen, hf⟩ := h w₁ hact
    exact ⟨_, _, w', b, f, run_trans (.step a .start he ha hact) hr, hb, hen, hf⟩

/-- The loop holds a connect request whose memory, or whose socket, is gone. -/
def Dangling (w : SocketWorld) : Prop :=
  ∃ i, w.connecting = some i ∧ (w.connectRequests i && w.life.alive) = false

theorem doomed_of_frameless (h : w.Dangling) (hf : w.frame = none) : w.Doomed := by
  obtain ⟨i, hi, hgone⟩ := h
  have hidle : ∀ w₁ : SocketWorld, w₁.frame = none → w₁.lent = false →
      w₁.connecting = some i → (w₁.connectRequests i && w₁.life.alive) = false →
      w₁.Doomed := fun w₁ hf hl hi hg =>
    doomed_step (a := .connected 0) rfl (by simp [enabled, idle, hf, hl, hi]) fun w' hact => by
      rw [act, hi, Option.elim_some, onConnectCb, hg] at hact
      cases hact
  cases hl : w.lent with
  | false => exact hidle w hf hl hi hgone
  | true =>
    refine doomed_step (a := .read 0) rfl (by simp [enabled, hf, hl]) fun w' hact => ?_
    rw [act, onReadCb] at hact
    cases hself : w.self with
    | error f => rw [hself] at hact; cases hact
    | ok b =>
      rw [hself] at hact
      obtain rfl := Except.ok.inj hact
      simp only [ne_eq, not_true_eq_false, decide_false, Bool.and_false]
      exact hidle _ hf rfl hi hgone

theorem freeRequest_dangling {i : ℕ} (h : w.Dangling) (hf : w.freeRequest i = .ok w') :
    w'.Dangling ∧ w'.frame = none := by
  unfold freeRequest at hf
  split at hf
  · obtain rfl := Except.ok.inj hf
    exact ⟨h, rfl⟩
  · cases hf

/-- When the callbacks have returned, the loop comes to the request. -/
theorem doomed_of_dangling (h : w.Dangling) : w.Doomed := by
  have hret : ∀ w : SocketWorld, ∀ f, w.frame = some f → w.enabled .ret = true ∧
      w.act .ret = w.ret f := fun w f hf => by simp [enabled, act, hf]
  have hfree : ∀ (w : SocketWorld) i, w.Dangling → ∀ w', w.freeRequest i = .ok w' → w'.Doomed :=
    fun w i hw w' hw' => by
      obtain ⟨hd, hf⟩ := freeRequest_dangling hw hw'
      exact doomed_of_frameless hd hf
  have hfailed : ∀ (w : SocketWorld) i, w.Dangling → w.frame = some (.failed i) → w.Doomed :=
    fun w i hw hf => doomed_step (a := .ret) rfl (hret w _ hf).1 fun w' hact =>
      hfree w i hw w' ((hret w _ hf).2.symm.trans hact)
  cases hf : w.frame with
  | none => exact doomed_of_frameless h hf
  | some f =>
    refine doomed_step (a := .ret) rfl (hret w f hf).1 fun w' hact => ?_
    rw [(hret w f hf).2] at hact
    cases f with
    | plain =>
      rw [ret] at hact
      split at hact
      · obtain rfl := Except.ok.inj hact
        exact doomed_of_frameless h rfl
      · cases hact
    | closed =>
      obtain rfl := Except.ok.inj hact
      exact doomed_of_frameless h rfl
    | failed i => exact hfree w i h w' hact
    | sent i status =>
      rw [ret] at hact
      split at hact
      · exact hfree w i h w' hact
      · split at hact
        · cases hact
        · split at hact
          · cases hact
          · rename_i hcallback
            obtain rfl := Except.ok.inj hact
            have hset : w.callback = true := by simpa using hcallback
            rw [call, if_pos hset]
            exact hfailed _ i h rfl

/-- Where a failed write is told, the socket and its callback must stay. -/
theorem doomed_of_failing (h : w.Failing) (hgone : (w.life.alive && w.callback) = false) :
    w.Doomed := by
  obtain ⟨i, status, hf, hs⟩ := h
  refine doomed_step (a := .ret) rfl (by simp [enabled, hf]) fun w' hact => ?_
  rw [act, hf, Option.elim_some, ret, if_neg hs] at hact
  split at hact
  · cases hact
  · rename_i halive
    have hset : w.life.alive = true := by simpa using halive
    rw [hset, Bool.true_and] at hgone
    rw [hgone] at hact
    cases hact

theorem destroy_keeps (h : w.Sound p) (ha : w.life.alive = true) (hact : w.act .destroy = .ok w') :
    w'.connecting = w.connecting ∧ w'.frame = w.frame ∧ w'.life.alive = false := by
  obtain ⟨requests, hact', -⟩ := destroy_eq h ha
  obtain rfl := Except.ok.inj (hact'.symm.trans hact)
  exact ⟨rfl, rfl, HandlePhase.destroyed_dead p⟩

/-- What is not careful is a fault, or leads the loop to one. -/
theorem careless_doomed (h : w.Sound p) (he : w.enabled a = true) (hc : ¬ w.Careful a)
    (hact : w.act a = .ok w') : w'.Doomed := by
  cases a with
  | setCallback callback =>
    obtain ⟨hfail, hset⟩ := Classical.not_imp.mp hc
    obtain rfl := Except.ok.inj hact
    have hfalse : callback = false := by simpa using hset
    exact doomed_of_failing (w := w.setCallback callback) hfail (by simp [setCallback, hfalse])
  | connect address rc =>
    simp only [Careful, Classical.not_imp] at hc
    obtain ⟨hh, ha, hnot⟩ := hc
    cases htakes : w.life.takes with
    | false => simp [act, connect, hh, ha, htakes, Except.map] at hact
    | true =>
      obtain ⟨i, hi⟩ := Option.ne_none_iff_exists'.mp fun hn => hnot ⟨htakes, hn⟩
      have hrc : rc ≠ 0 := by
        rintro rfl
        simp [enabled, hi] at he
      have howned := h.connects.flight i hi
      have hw' : w' = w.renewConnect.resetConnect := by
        simpa [act, connect, hh, ha, htakes, hrc, onHandle_of_held h hh, Except.map] using hact.symm
      subst hw'
      refine doomed_of_dangling ⟨i, hi, ?_⟩
      simp [resetConnect, renewConnect, howned, eq_comm]
  | destroy =>
    have ha := (Bool.and_eq_true_iff.mp he).1
    obtain ⟨hconnecting, hframe, hdead⟩ := destroy_keeps h ha hact
    by_cases hnone : w.connecting = none
    · have hfail : w.Failing := not_not.mp fun hn => hc ⟨hnone, hn⟩
      obtain ⟨i, status, hf, hs⟩ := hfail
      exact doomed_of_failing ⟨i, status, hframe.trans hf, hs⟩ (by rw [hdead]; rfl)
    · obtain ⟨i, hi⟩ := Option.ne_none_iff_exists'.mp hnone
      exact doomed_of_dangling ⟨i, hconnecting.trans hi, by rw [hdead, Bool.and_false]⟩
  | _ => exact absurd trivial hc

/-- After careful calls, the next one is careful exactly when the loop can come
to no fault after it. -/
theorem careful_iff_safe (hr : Run Careful (create started) acts events w)
    (he : w.enabled a = true) :
    w.Careful a ↔ ∃ w', w.act a = .ok w' ∧ ¬ w'.Doomed := by
  obtain ⟨p, hs⟩ := run_created hr
  constructor
  · intro hc
    obtain ⟨w', p', hact, hs'⟩ := sound_act hs he hc
    exact ⟨w', hact, sound_not_doomed hs'⟩
  · rintro ⟨w', hact, hsafe⟩
    by_contra hc
    exact hsafe (careless_doomed hs he hc hact)

/-- A connection under way, which the destructor may not meet. -/
theorem careful_iff_safe_connecting :
    { (create true).renewConnect with connecting := some 0 }.Careful .destroy ↔
      ∃ w', { (create true).renewConnect with connecting := some 0 }.act .destroy = .ok w' ∧
        ¬ w'.Doomed :=
  careful_iff_safe (.step (.connect 0 0) (.start (w := create true)) rfl
    (fun _ _ => ⟨rfl, rfl⟩) rfl) rfl

end Safety

section Release

variable {w w' : SocketWorld} {p : HandlePhase} {a : Act} {started : Bool} {acts : List Act}
  {events : List Heard}

/-- The steps the loop still has for a socket that is gone. -/
def left (w : SocketWorld) : ℕ :=
  w.writes.length + w.lent.toNat + w.frame.isSome.toNat + w.life.due.toNat

theorem freeRequest_eq {i : ℕ} (h : w.freeRequest i = .ok w') :
    w' = { w with writeRequests := Function.update w.writeRequests i none, frame := none } := by
  unfold freeRequest at h
  split at h
  · exact (Except.ok.inj h).symm
  · cases h

/-- When the loop has nothing left to do, nothing is left of a socket. -/
theorem drained (h : w.Sound p) (hd : w.life.alive = false)
    (hn : ∀ a, a.ofOwner = false → w.enabled a = false) :
    w.life.memory = none ∧ (∀ i, w.writeRequests i = none) ∧
      ∀ i, w.connectRequests i = false := by
  have hframe : w.frame = none := by simpa [enabled] using hn .ret rfl
  have hlent : w.lent = false := by simpa [enabled, hframe] using hn (.read 0) rfl
  have hidle : w.idle = true := idle_iff.mpr ⟨hframe, hlent⟩
  have hwrites : w.writes = [] := by simpa [enabled, hidle] using hn (.written 0) rfl
  have hconnecting : w.connecting = none := by
    simpa [enabled, hidle] using hn (.connected 0) rfl
  have hdue : w.life.due = false := by
    simpa [enabled, hidle, hwrites, hconnecting] using hn .closed rfl
  have hdead : p.life.alive = false := h.life ▸ hd
  refine ⟨?_, fun i => ?_, fun i => ?_⟩
  · obtain rfl | rfl := HandlePhase.orphaned_or_gone hdead
    · rw [h.life] at hdue
      cases hdue
    · rw [h.life]
      rfl
  · have hlive := h.requests.live i
    rw [hwrites, hframe] at hlive
    by_contra hne
    obtain hm | hm := hlive.mp hne
    · cases hm
    · cases hm
  · rw [← Bool.not_eq_true, h.connects.owned i, h.connects.dead hdead]
    exact fun he => by cases he

end Release

end LogTransfer.Net.SocketWorld
