import LogTransfer.ServerVisit
import LogTransfer.ClientCall

/-!
# Client and server on one errand

The two sides run side by side over two byte streams. Bytes arrive in order,
any number at a time and any time later, and the end of a stream comes behind
its last byte. No timer runs out and no write is lost. Of libuv it is assumed
that the completion of a write is delivered before bytes which the other side
handed over after it had received that write.
-/

set_option autoImplicit false

namespace LogTransfer
open Program Interleave

section Links

variable [Doubles]

abbrev ClientSide := Client.ClientState (Client.Wire × Client.Call)

abbrev ServerSide := Config Op Ans World Loop ((Ghost × Tape) × Visit)

/-- `seen` has what the client had received when it handed over each byte; of
the first `count` bytes each comes behind the completions of the writes the
client had then received. -/
def Completed (v : Visit) (seen : List ℕ) (count : ℕ) : Prop :=
  ∀ i < count, ∀ k ≤ v.sent.length,
    (v.sent.take k).flatten.length ≤ seen.getD i 0 → k ≤ v.completed

instance (v : Visit) (seen : List ℕ) (count : ℕ) : Decidable (Completed v seen count) :=
  inferInstanceAs (Decidable (∀ i < count, ∀ k ≤ v.sent.length,
    (v.sent.take k).flatten.length ≤ seen.getD i 0 → k ≤ v.completed))

/-- The requests that the socket of the client takes. -/
def granted : Client.Op → Bool
  | .connect _ _ | .send _ => true
  | _ => false

/-- The requests that the socket of the server takes. -/
def conceded : Op → Bool
  | .send _ _ | .startRead => true
  | _ => false

def recvCount : Op → Option ℕ
  | .recv count => some count
  | _ => none

variable (e : Errand) (ip : Bytes) (port : ℕ)

def ClientMay (c : ClientSide) (d : ServerSide) : Act Client.Signal Client.Peer → Prop
  | .start (.connectDone ok _) | .start (.writeDone ok _) => ok = true
  | .start (.readError error) => error = none ∧ d.ghost.2.closed = true ∧
    c.ghost.2.got = d.ghost.2.sent.flatten
  | .start .connectTimeout => False
  | .start _ => True
  | .loop answer => c.pending.any granted = true → answer = true
  | .peer (.arrive bytes) =>
    c.ghost.2.got ++ (c.shared.inbox ++ bytes) <+: d.ghost.2.sent.flatten
  | .peer (.post command) =>
    c.ghost.2.taken ++ (c.shared.commands ++ [command]) <+: Client.plan e ip port
  | .peer (.click action) =>
    c.ghost.2.taken ++ (c.shared.click action).commands <+: Client.plan e ip port
  | .peer _ => True

/-- A socket that the client closes is one whose end it was told of. -/
def ServerMay (c : ClientSide) (d : ServerSide) : Act Event Peer → Prop
  | .start .connection => d.ghost.2.called = false ∧ c.ghost.2.stage ≠ .away
  | .start (.writeDone ok _) => ok = true
  | .start (.readError _) => c.ghost.2.ended = true
  | .start .timeout => False
  | .start _ => True
  | .loop answer => (d.pending.any conceded = true → answer = true) ∧
    ∀ count ∈ d.pending.bind recvCount, Completed d.ghost.2 c.ghost.2.seen
      (d.ghost.2.received ++ d.shared.inbox.take count).length
  | .peer (.arrive bytes) => d.ghost.2.accepted = true ∧
    d.ghost.2.received ++ (d.shared.inbox ++ bytes) <+: c.ghost.1.bytes
  | .peer .parser => True

instance (c : ClientSide) (d : ServerSide) (a : Act Client.Signal Client.Peer) :
    Decidable (ClientMay e ip port c d a) :=
  match a with
  | .start (.connectDone ok _) => inferInstanceAs (Decidable (ok = true))
  | .start (.writeDone ok _) => inferInstanceAs (Decidable (ok = true))
  | .start (.readError _) => inferInstanceAs (Decidable (_ ∧ _ ∧ _))
  | .start .connectTimeout => isFalse fun h => h
  | .start (.async _) | .start (.readable _) | .start .closed => isTrue trivial
  | .loop _ => inferInstanceAs (Decidable (_ → _))
  | .peer (.arrive _) => inferInstanceAs (Decidable (_ <+: _))
  | .peer (.post _) => inferInstanceAs (Decidable (_ <+: _))
  | .peer (.click _) => inferInstanceAs (Decidable (_ <+: _))
  | .peer .reader | .peer .frame => isTrue trivial

instance (c : ClientSide) (d : ServerSide) (a : Act Event Peer) : Decidable (ServerMay c d a) :=
  match a with
  | .start .connection => inferInstanceAs (Decidable (_ ∧ _))
  | .start (.writeDone ok _) => inferInstanceAs (Decidable (ok = true))
  | .start (.readError _) => inferInstanceAs (Decidable (_ = true))
  | .start .timeout => isFalse fun h => h
  | .start (.readable _) | .start .closed | .start .reap | .start .completion | .start .resume
  | .start .abortDone | .start (.tick _) => isTrue trivial
  | .loop _ => inferInstanceAs (Decidable (_ ∧ _))
  | .peer (.arrive _) => inferInstanceAs (Decidable (_ ∧ _))
  | .peer .parser => isTrue trivial

def wiring : Wiring Client.Op Client.Ans Client.World Client.Service Client.Signal Client.Peer
    (Client.Wire × Client.Call) Op Ans World Loop Event Peer ((Ghost × Tape) × Visit) where
  first := ClientMay e ip port
  second := ServerMay

/-- Each side has heard a part of what the other side said. -/
structure Joined (c : ClientSide) (d : ServerSide) : Prop where
  heard : c.ghost.2.stage ≠ .away →
    c.ghost.2.got ++ c.shared.inbox <+: d.ghost.2.sent.flatten
  told : d.ghost.2.received ++ d.shared.inbox <+: c.ghost.1.bytes
  ended : c.ghost.2.ended = true → d.ghost.2.closed = true

abbrev ClientHeld (files : Bytes → Option Bytes) (c : ClientSide) : Prop :=
  Held (Client.callMachine files) (Client.wireRules.both (Client.callRules e ip port))
    (overlaid (Client.WireOk files) (Client.CallTrue e ip port))
    (bothHeld Client.Between (Client.Call.OnErrand e ip port)) c

abbrev ServerHeld (cfg : ServerConfig) (d : ServerSide) : Prop :=
  Held (visitMachine cfg) (orderlyRules.both (visitRules e))
    (overlaid (overlaid (Joint OwnAnalysis Own) fun _ => TapeTrue cfg) fun g => VisitTrue e g.1)
    (bothHeld (bothHeld (Idle cfg) TapeIdle) (VisitIdle e)) d

end Links

section Bounds

variable [Doubles] {e : Errand} {ip : Bytes} {port : ℕ} {files : Bytes → Option Bytes}
  {cfg : ServerConfig} {c c' : ClientSide} {d d' : ServerSide}

theorem sent_stream (hd : ServerHeld e cfg d) : d.ghost.2.sent.flatten <+: e.stream := by
  obtain ⟨rest, hr⟩ := hd.2.2.sent
  exact ⟨rest.flatten, by rw [Errand.stream, ← hr, List.flatten_append]⟩

/-- A server that says anything was asked for it. -/
theorem sent_spoken (hf : Client.Keeping e files) (hc : ClientHeld e ip port files c)
    (hd : ServerHeld e cfg d) (hk : Joined c d) (hs : d.ghost.2.sent ≠ []) :
    c.ghost.2.Spoken := by
  have hreq := ((hd.2.2.heard hs).trans (List.prefix_append _ _)).trans hk.told
  exact Client.handed_spoken hf hc.2.1.2 hc.2.2.handed hreq.length_le

theorem closed_thanked (hf : Client.Keeping e files) (hc : ClientHeld e ip port files c)
    (hd : ServerHeld e cfg d) (hk : Joined c d) (hcl : d.ghost.2.closed = true) :
    c.ghost.2.stage = .thanked := by
  have hlen := ((List.prefix_append _ _).trans hk.told).length_le
  rw [(hd.2.2.ended hcl).1, List.length_append] at hlen
  have hpos : 0 < encodeDownloadDone.length := by decide
  exact Client.handed_thanked hf hc.2.1.2 hc.2.2.handed (by omega)

/-- DownloadDone is the answer to all of the replies. -/
theorem thanked_sent (hc : ClientHeld e ip port files c) (hd : ServerHeld e cfg d)
    (hk : Joined c d) (hst : c.ghost.2.stage = .thanked) : d.ghost.2.sent = e.replies := by
  have hheard := (hk.heard (by simp [hst])).length_le
  rw [hc.2.2.complete hst, List.length_append] at hheard
  exact Errand.replies_complete hd.2.2.sent (by omega)

theorem recv_inTime {count : ℕ} (hf : Client.Keeping e files) (hc : ClientHeld e ip port files c)
    (hd : ServerHeld e cfg d) (hk : Joined c d)
    (h : Completed d.ghost.2 c.ghost.2.seen
      (d.ghost.2.received ++ d.shared.inbox.take count).length) :
    InTime e (d.ghost.2.received ++ d.shared.inbox.take count) d.ghost.2.completed := by
  have hpre : d.ghost.2.received ++ d.shared.inbox.take count <+: c.ghost.1.bytes := by
    refine List.IsPrefix.trans ?_ hk.told
    exact (List.prefix_append_right_inj _).mpr (List.take_prefix _ _)
  refine ⟨hpre.trans (Client.handed_within hf hc.2.1.2 hc.2.2.handed), fun hlong => ?_⟩
  -- the first byte behind the request was handed over behind the last reply
  have hbytes : e.request.length < c.ghost.1.bytes.length := lt_of_lt_of_le hlong hpre.length_le
  have hst := Client.handed_thanked hf hc.2.1.2 hc.2.2.handed hbytes
  have hsent := thanked_sent hc hd hk hst
  have hi : e.request.length < c.ghost.2.seen.length := by
    rw [hc.2.2.seen]
    exact hbytes
  have hseen : c.ghost.2.seen.getD e.request.length 0 = e.stream.length := by
    rw [List.getD_eq_getElem?_getD, List.getElem?_eq_getElem hi, Option.getD_some]
    refine hc.2.2.late _ ?_
    rw [List.drop_eq_getElem_cons hi]
    exact List.mem_cons_self
  have hlast := h _ hlong d.ghost.2.sent.length (le_refl _)
  rw [List.take_length, hseen, hsent] at hlast
  exact hlast (le_refl _)

end Bounds

section Steps

variable [Doubles] {e : Errand} {ip : Bytes} {port : ℕ} {files : Bytes → Option Bytes}
  {cfg : ServerConfig} {c c' : ClientSide} {d d' : ServerSide}

theorem client_allowed (hf : Client.Keeping e files) (hc : ClientHeld e ip port files c)
    (hd : ServerHeld e cfg d) (hk : Joined c d) (a : Act Client.Signal Client.Peer)
    (hw : ClientMay e ip port c d a) : Allowed (Client.Calling e ip port) c a := by
  cases a with
  | start signal =>
    simp only [Allowed]
    split
    · cases signal with
      | connectDone ok text => exact hw
      | writeDone ok text => exact hw
      | readError error => exact ⟨hw.1, closed_thanked hf hc hd hk hw.2.1⟩
      | connectTimeout => exact hw
      | _ => trivial
    · trivial
  | loop answer =>
    simp only [Allowed]
    split
    · trivial
    · rename_i op k ht
      have hp : c.pending = some op := by simp [Config.pending, ht]
      have hw : c.pending.any granted = true → answer = true := hw
      rw [hp] at hw
      cases op with
      | connect ip' port' => exact hw rfl
      | send m => exact hw rfl
      | _ => trivial
  | peer p =>
    cases p with
    | arrive bytes =>
      have hbytes : c.ghost.2.got ++ (c.shared.inbox ++ bytes) <+: d.ghost.2.sent.flatten := hw
      refine fun _ => ⟨hbytes.trans (sent_stream hd), fun hne => sent_spoken hf hc hd hk ?_⟩
      intro hn
      rw [hn] at hbytes
      exact hne (List.prefix_nil.mp hbytes)
    | post command => exact hw
    | click action => exact hw
    | _ => trivial

omit [Doubles] in
/-- An operation of the client neither loses nor invents a byte. -/
theorem client_flow (files : Bytes → Option Bytes) (op : Client.Op) (b : Bool)
    (g : Client.Wire) (call : Client.Call) (w : Client.World)
    (hne : ∀ ip port, op ≠ .connect ip port) :
    let r := Client.World.exec files op b w
    (Client.Call.next call op r.1).got ++ r.2.inbox = call.got ++ w.inbox ∧
      g.bytes <+: (Client.Wire.next g op r.1).bytes ∧
      (Client.Call.next call op r.1).ended = call.ended := by
  intro r
  cases op with
  | connect ip port => exact absurd rfl (hne ip port)
  | recv count =>
    refine ⟨?_, List.prefix_rfl, rfl⟩
    simp [r, Client.World.exec, Client.Call.next]
  | send m =>
    cases b with
    | true => exact ⟨rfl, List.prefix_append _ _, rfl⟩
    | false => exact ⟨rfl, List.prefix_rfl, rfl⟩
  | takeCommand =>
    cases hcmd : w.commands with
    | nil => simp [r, Client.World.exec, hcmd, Client.Call.next, Client.Wire.next]
    | cons command commands => simp [r, Client.World.exec, hcmd, Client.Call.next, Client.Wire.next]
  | beginUpload path size =>
    cases herr : (w.reader.beginUpload (files path) size).1 with
    | none => simp [r, Client.World.exec, herr, Client.Call.next, Client.Wire.next]
    | some error => simp [r, Client.World.exec, herr, Client.Call.next, Client.Wire.next]
  | emit event =>
    cases event with
    | session session =>
      cases session with
      | _ => exact ⟨rfl, List.prefix_rfl, rfl⟩
    | _ => exact ⟨rfl, List.prefix_rfl, rfl⟩
  | _ => exact ⟨rfl, List.prefix_rfl, rfl⟩

theorem away_stays (op : Client.Op) (a : Client.Ans op) {call : Client.Call}
    (hm : (Client.callRules e ip port).may call op) (hst : call.stage = .away)
    (hne : ∀ ip port, op ≠ .connect ip port) : (Client.Call.next call op a).stage = .away := by
  cases op with
  | connect ip port => exact absurd rfl (hne ip port)
  | send m =>
    cases m with
    | header h => exact absurd hm.1 (by simp [hst])
    | chunk data =>
      obtain ⟨data, hs⟩ := hm
      simp [hst] at hs
    | trailer t =>
      obtain ⟨data, hs⟩ := hm
      simp [hst] at hs
    | request q => exact absurd hm.1 (by simp [hst])
    | downloadDone => exact absurd hm.1 (by simp [hst])
  | beginUpload path size => exact absurd hm.1 (by simp [hst])
  | emit event =>
    cases event with
    | session session =>
      cases session with
      | _ => exact hst
    | _ => exact hst
  | _ => exact hst

theorem client_op_joined {op : Client.Op} {k : Client.Ans op → Client.P Client.Service} (b : Bool)
    (hc : ClientHeld e ip port files c) (hk : Joined c d) (ht : c.thread = .call op k) :
    Joined ⟨(Client.World.exec files op b c.shared).2,
      (Client.callMachine files).next c.ghost op (Client.World.exec files op b c.shared).1,
      k (Client.World.exec files op b c.shared).1⟩ d := by
  have hp : c.pending = some op := by simp [Config.pending, ht]
  have hm := (held_pending _ hc hp).2
  by_cases hconn : ∃ ip port, op = .connect ip port
  swap
  · have hne : ∀ ip port, op ≠ .connect ip port := fun ip port h => hconn ⟨ip, port, h⟩
    obtain ⟨hgot, hbytes, hended⟩ := client_flow files op b c.ghost.1 c.ghost.2
      c.shared hne
    refine ⟨fun hst => ?_, hk.told.trans hbytes, fun he => hk.ended (hended ▸ he)⟩
    change (Client.Call.next c.ghost.2 op _).got ++ _ <+: _
    rw [hgot]
    exact hk.heard fun haway => hst (away_stays op _ hm haway hne)
  · obtain ⟨ip', port', rfl⟩ := hconn
    have hst : c.ghost.2.stage = .away := hm
    have hh := hc.2.2.handed
    simp only [Client.Handed, hst] at hh
    cases b with
    | true =>
      refine ⟨fun _ => List.nil_prefix, ?_, hk.ended⟩
      have htold := hk.told
      rw [hh.1] at htold
      exact htold
    | false => exact ⟨hk.heard, hk.told, hk.ended⟩

theorem client_peer_joined (p : Client.Peer) {w : Client.World} (hk : Joined c d)
    (hw : ClientMay e ip port c d (.peer p)) (hs : Client.peer c.shared p = some w) :
    Joined { c with shared := w } d := by
  have hsame (hi : w.inbox = c.shared.inbox) : Joined { c with shared := w } d :=
    ⟨fun hst => by rw [hi]; exact hk.heard hst, hk.told, hk.ended⟩
  cases p with
  | reader =>
    obtain ⟨r, -, rfl⟩ := Option.map_eq_some_iff.mp hs
    exact hsame rfl
  | arrive bytes =>
    cases hs
    exact ⟨fun _ => hw, hk.told, hk.ended⟩
  | post command =>
    cases hs
    exact hsame rfl
  | frame =>
    cases hs
    exact hsame rfl
  | click action =>
    simp only [Client.peer] at hs
    split at hs
    · cases hs
      refine hsame ?_
      cases action with
      | connect =>
        simp only [Client.World.click]
        split
        · rfl
        · split <;> rfl
      | send confirmed =>
        simp only [Client.World.click]
        split <;> rfl
      | _ => rfl
    · cases hs

theorem client_joined (hc : ClientHeld e ip port files c) (hk : Joined c d)
    (a : Act Client.Signal Client.Peer) (hw : ClientMay e ip port c d a)
    (hs : step (Client.callMachine files) c a = some c') : Joined c' d := by
  obtain ⟨signal, s, p, w, ht, rfl, hst, rfl⟩ | ⟨op, k, b, ht, rfl, rfl⟩ | ⟨p, w, rfl, hp, rfl⟩ :=
    step_inversion _ hs
  · simp only [Client.callMachine, Machine.withHistory, Client.machine] at hst
    split at hst
    · cases hst
      cases signal with
      | readError error => exact ⟨hk.heard, hk.told, fun _ => hw.2.1⟩
      | _ => exact ⟨hk.heard, hk.told, hk.ended⟩
    · cases hst
  · exact client_op_joined b hc hk ht
  · exact client_peer_joined p hk hw hp

theorem server_allowed (hf : Client.Keeping e files) (hc : ClientHeld e ip port files c)
    (hd : ServerHeld e cfg d) (hk : Joined c d) (a : Act Event Peer) (hw : ServerMay c d a) :
    Allowed (Conversing e) d a := by
  cases a with
  | start ev =>
    simp only [Allowed]
    split
    · cases ev with
      | connection => exact hw.1
      | writeDone ok text => exact hw
      | readError text => exact hk.ended hw
      | timeout => exact hw
      | _ => trivial
    · trivial
  | loop answer =>
    simp only [Allowed]
    split
    · trivial
    · rename_i op k ht
      have hp : d.pending = some op := by simp [Config.pending, ht]
      obtain ⟨hans, hrecv⟩ : (d.pending.any conceded = true → answer = true) ∧ _ := hw
      rw [hp] at hans hrecv
      cases op with
      | send id bytes => exact hans rfl
      | startRead => exact hans rfl
      | recv count => exact recv_inTime hf hc hd hk (hrecv count rfl)
      | _ => trivial
  | peer p => trivial

/-- An operation of the server neither loses nor invents a byte. -/
theorem server_flow (cfg : ServerConfig) (op : Op) (b : Bool) (v : Visit) (w : World) :
    let r := World.exec cfg op b w
    (v.next op r.1).received ++ r.2.inbox <+: v.received ++ w.inbox ∧
      v.sent <+: (v.next op r.1).sent ∧ (v.closed = true → (v.next op r.1).closed = true) := by
  intro r
  cases op with
  | recv count =>
    refine ⟨?_, List.prefix_rfl, fun h => h⟩
    simp [r, World.exec, Visit.next]
  | construct id => exact ⟨by simp [r, World.exec, Visit.next], List.prefix_rfl, fun h => h⟩
  | send id bytes =>
    cases b with
    | true => exact ⟨List.prefix_rfl, List.prefix_append _ _, fun h => h⟩
    | false => exact ⟨List.prefix_rfl, List.prefix_rfl, fun h => h⟩
  | acceptPending =>
    simp only [r, World.exec]
    split
    · exact ⟨List.prefix_rfl, List.prefix_rfl, fun h => h⟩
    · exact ⟨List.prefix_rfl, List.prefix_rfl, fun h => h⟩
  | abortSession id => exact ⟨List.prefix_rfl, List.prefix_rfl, fun _ => rfl⟩
  | _ => exact ⟨List.prefix_rfl, List.prefix_rfl, fun h => h⟩

theorem start_inbox {m : Loop} {w w' : World} {ev : Event} {p : P Loop}
    (hs : Server.start cfg ev m w = some (p, w')) : w'.inbox = w.inbox := by
  cases ev with
  | readable count => rw [Server.sessionEvent_world hs]
  | readError text => rw [Server.sessionEvent_world hs]
  | writeDone ok text => rw [Server.sessionEvent_world hs]
  | timeout => rw [Server.sessionEvent_world hs]
  | connection =>
    cases hs
    rfl
  | closed =>
    simp only [Server.start] at hs
    split at hs
    · cases hs
    · split at hs <;> cases hs
      rfl
  | tick ms =>
    cases hs
    rfl
  | _ =>
    simp only [Server.start] at hs
    split at hs <;> cases hs
    rfl

omit [Doubles] in
theorem flatten_grown {xs ys : List Bytes} (h : xs <+: ys) : xs.flatten <+: ys.flatten := by
  obtain ⟨more, rfl⟩ := h
  exact ⟨more.flatten, by rw [List.flatten_append]⟩

theorem server_joined (hk : Joined c d) (a : Act Event Peer) (hw : ServerMay c d a)
    (hs : step (visitMachine cfg) d a = some d') : Joined c d' := by
  obtain ⟨ev, m, p, w, ht, rfl, hst, rfl⟩ | ⟨op, k, b, ht, rfl, rfl⟩ | ⟨p, w, rfl, hp, rfl⟩ :=
    step_inversion _ hs
  · have hinbox := start_inbox (show Server.start cfg ev m d.shared = some (p, w) from hst)
    have hsame : (d.ghost.2.begin ev).received = d.ghost.2.received ∧
        (d.ghost.2.begin ev).sent = d.ghost.2.sent ∧
        (d.ghost.2.begin ev).closed = d.ghost.2.closed := by
      cases ev with
      | _ => exact ⟨rfl, rfl, rfl⟩
    obtain ⟨hr, hsent, hcl⟩ := hsame
    refine ⟨fun hn => ?_, ?_, fun he => hcl.trans (hk.ended he)⟩
    · change _ <+: (d.ghost.2.begin ev).sent.flatten
      rw [hsent]
      exact hk.heard hn
    · change (d.ghost.2.begin ev).received ++ w.inbox <+: _
      rw [hr, hinbox]
      exact hk.told
  · obtain ⟨hr, hsent, hcl⟩ := server_flow cfg op b d.ghost.2 d.shared
    exact ⟨fun hn => (hk.heard hn).trans (flatten_grown hsent), hr.trans hk.told,
      fun he => hcl (hk.ended he)⟩
  · cases p with
    | parser =>
      obtain ⟨t, -, rfl⟩ := Option.map_eq_some_iff.mp hp
      exact ⟨hk.heard, hk.told, hk.ended⟩
    | arrive bytes =>
      cases hp
      exact ⟨hk.heard, hw.2, hk.ended⟩

end Steps

end LogTransfer
