import LogTransfer.CallConduct

/-!
# The callbacks of a service on an errand

A service whose commands are those of the errand, whose writes succeed and that
receives the replies in order ends no session, aborts no upload and reports no
error. Reads that come before the request or behind the last reply are empty.
-/

set_option autoImplicit false

namespace LogTransfer.Client
open Program

variable [Doubles] {e : Errand} {ip : Bytes} {port : ℕ}

namespace Call

section Upload

variable {c : Call} {s : Service}

theorem feeds_uploading (h : Feeds e ip port c s) : s.uploading = true ∧ s.isOpen = true := by
  obtain ⟨data, -, -, -, ho, hf⟩ := h
  exact ⟨hf.uploading, ho⟩

theorem onErrand_rest (h : OnErrand e ip port c s) (hn : ¬ Feeds e ip port c s) :
    s.uploading = false := by
  rcases h with h | h | h | h | h
  · exact h.2.2.2.2.1
  · exact h.2.2.2.2.1
  · exact absurd h hn
  · exact h.1.2.2.2.1
  · exact h.2.2.2.1

theorem onErrand_asked (hst : c.stage = .asked) (ht : c.taken = plan e ip port)
    (hg : c.got = []) (ho : s.isOpen = true) (hu : s.uploading = false) (hf : Follow e s []) :
    OnErrand e ip port c s := by
  refine .inr (.inr (.inr (.inl ⟨⟨hst, ht, ho, hu, by simp, ?_⟩, ?_⟩)))
  · exact hg ▸ List.nil_prefix
  · rw [hg]
    exact hf

theorem finishUpload_calls (h : Feeds e ip port c s) :
    Calls e ip port s.finishUpload c (OnErrand e ip port) := by
  obtain ⟨data, hst, ht, hg, ho, hf⟩ := h
  unfold Service.finishUpload
  refine keeps_seq _ _ _ _ _ (send_calls (s := { s with trailerSent := true }) _ ho ⟨data, hst⟩) ?_
  rintro c' _ ⟨rfl, rfl⟩
  refine calls_act _ _ trivial fun _ _ => calls_act _ _ trivial fun _ _ => ?_
  refine onErrand_asked rfl ht hg ((isOpen_queued s).trans ho) rfl ⟨hf.uploads, hf.csv, ?_⟩
  exact midway_reset _ _ (ackOf_ne_nil e.kept)

theorem pumpLoop_calls (n : ℕ) (h : Feeds e ip port c s) :
    Calls e ip port (Service.pumpLoop n s) c
      (fun c r => r.2 = true ∧ Feeds e ip port c r.1) := by
  induction n generalizing c s with
  | zero => exact ⟨rfl, h⟩
  | succ n ih =>
    unfold Service.pumpLoop
    split
    swap
    · exact ⟨rfl, h⟩
    obtain ⟨data, hst, ht, hg, ho, hf⟩ := h
    refine calls_act _ _ trivial fun view _ => ?_
    cases view with
    | none => exact ⟨rfl, data, hst, ht, hg, ho, hf⟩
    | some chunk =>
      refine keeps_seq _ _ _ _ _ (send_calls (s := { s with uploadCrc := crc32 s.uploadCrc chunk })
        (.chunk chunk) ho ⟨data, hst⟩) ?_
      rintro c' _ ⟨rfl, rfl⟩
      refine calls_act _ _ trivial fun _ _ => ih ?_
      refine ⟨data ++ chunk, ?_, ht, hg, (isOpen_queued s).trans ho, ?_⟩
      · simp [Call.next, said, hst]
      · refine ⟨hf.uploads, hf.uploading, hf.silent, hf.csv, hf.trailer, hf.total, ?_, ?_⟩
        · change s.uploadSent + chunk.length = _
          rw [hf.sent, List.length_append]
        · change crc32 s.uploadCrc chunk = _
          rw [hf.crc, crc32_append]

theorem pumpEnd_calls (h : Feeds e ip port c s) :
    Calls e ip port s.pumpEnd c (OnErrand e ip port) := by
  have hsame : OnErrand e ip port c s := .inr (.inr (.inl h))
  unfold Service.pumpEnd
  split
  · exact hsame
  · refine calls_act _ _ trivial fun complete _ => ?_
    split
    · exact hsame
    · refine calls_act _ _ trivial fun empty _ => ?_
      split
      · exact finishUpload_calls h
      · exact hsame

theorem pumpUpload_calls (h : OnErrand e ip port c s) :
    Calls e ip port s.pumpUpload c (OnErrand e ip port) := by
  unfold Service.pumpUpload
  by_cases hf : Feeds e ip port c s
  · obtain ⟨hu, ho⟩ := feeds_uploading hf
    rw [if_neg (by simp [hu, ho])]
    refine calls_act _ _ trivial fun failed hfail => ?_
    have hstreams : c.Streams := hf.imp fun _ h => h.1
    rw [show failed = false from hfail hstreams]
    refine keeps_seq _ _ _ _ _ (pumpLoop_calls _ hf) ?_
    rintro c' ⟨s', going⟩ ⟨hgo, hf'⟩
    rw [show going = true from hgo]
    exact pumpEnd_calls hf'
  · rw [if_pos (by simp [onErrand_rest h hf])]
    exact h

end Upload

section Commands

variable {c : Call} {s : Service}

theorem handleConnect_calls (hst : c.stage = .away) (ht : c.taken = [.connect ip port])
    (hk : s.socket = none) (hp : Prepared e s) :
    Calls e ip port (s.handleConnect ip port) c (OnErrand e ip port) := by
  unfold Service.handleConnect
  rw [if_neg (by simp [hk])]
  refine calls_act _ _ trivial fun _ _ => calls_act _ _ hst fun ok hok => ?_
  rw [show ok = true from hok]
  exact calls_act _ _ trivial fun _ _ => .inr (.inl ⟨rfl, ht, rfl, rfl, hp⟩)

theorem drainRing_calls (hup : e.Uploads) (hst : c.stage = .linked) :
    Calls e ip port Service.drainRing c (fun c' _ => c' = c) := by
  refine calls_act _ _ trivial fun view hv => ?_
  rw [show view = none from hv hup hst]
  rfl

theorem uploadAccepted_calls (hst : c.stage = .accepted) (ht : c.taken = plan e ip port)
    (hg : c.got = []) (ho : s.isOpen = true) (hup : e.Uploads) :
    Calls e ip port (s.uploadAccepted e.name e.content.length) c (OnErrand e ip port) := by
  refine calls_act _ _ trivial fun _ _ => calls_act _ _ hst fun _ _ => ?_
  refine calls_act _ _ trivial fun _ _ => ?_
  refine keeps_seq _ _ _ _ _ (send_calls _ ho ⟨hst, rfl⟩) ?_
  rintro c' _ ⟨rfl, rfl⟩
  refine calls_act _ _ trivial fun _ _ => calls_act _ _ trivial fun _ _ => pumpUpload_calls ?_
  refine .inr (.inr (.inl ⟨[], rfl, ht, hg, (isOpen_queued s).trans ho, ?_⟩))
  exact ⟨hup, rfl, rfl, rfl, rfl, rfl, rfl, (crc32_nil _).symm⟩

theorem handleStartUpload_calls {path : Bytes} (htask : e.task = .upload path)
    (hst : c.stage = .linked) (ht : c.taken = plan e ip port) (hg : c.got = [])
    (ho : s.isOpen = true) (hu : s.uploading = false) :
    Calls e ip port (s.handleStartUpload path e.name e.content.length) c (OnErrand e ip port) := by
  unfold Service.handleStartUpload
  rw [if_neg (by simp [hu]), if_neg (by simp [ho])]
  refine keeps_seq _ _ _ _ _ (drainRing_calls ⟨path, htask⟩ hst) ?_
  rintro _ _ rfl
  refine calls_act _ _ ⟨hst, htask, rfl⟩ fun error he => ?_
  rw [show error = none from he]
  exact calls_act _ _ trivial fun _ _ => uploadAccepted_calls rfl ht hg ho ⟨path, htask⟩

theorem handleRequestResult_calls {n : ℕ} (htask : e.task = .resume n)
    (hst : c.stage = .linked) (ht : c.taken = plan e ip port) (hg : c.got = [])
    (ho : s.isOpen = true) (hp : Prepared e s) :
    Calls e ip port s.handleRequestResult c (OnErrand e ip port) := by
  obtain ⟨hu, -, hclaim⟩ := hp
  obtain ⟨hc, hticket, hcsv⟩ := hclaim n htask
  obtain ⟨k, hk, -⟩ := isOpen_some ho
  unfold Service.handleRequestResult
  rw [if_neg (by simp [hc]), if_neg (by simp [hk])]
  refine calls_act _ _ trivial fun _ _ => ?_
  refine keeps_seq _ _ _ _ _ (send_calls _ ho ⟨hst, n, htask, by rw [hticket]; rfl⟩) ?_
  rintro c' _ ⟨rfl, rfl⟩
  refine calls_act _ _ trivial fun _ _ => calls_act _ _ trivial fun _ _ => ?_
  refine onErrand_asked rfl ht hg ((isOpen_queued s).trans ho) hu ⟨n, htask, hcsv, ?_⟩
  exact midway_reset _ _ (Errand.wholeHeader_ne_nil _)

theorem handle_calls (command : Command) (h : OnErrand e ip port c s)
    (hplan : c.taken ++ [command] <+: plan e ip port) :
    Calls e ip port (s.handle command) { c with taken := c.taken ++ [command] }
      (OnErrand e ip port) := by
  have hfull (ht : c.taken = plan e ip port) : False := by
    have := hplan.length_le
    rw [ht, List.length_append, List.length_singleton] at this
    omega
  rcases h with ⟨hst, ht, -, hk, hp⟩ | ⟨hst, ht, hg, ho, hp⟩ | ⟨_, _, ht, -⟩ | ⟨⟨-, ht, -⟩, -⟩ |
    ⟨-, ht, -⟩
  · rw [ht] at hplan ⊢
    obtain rfl : command = .connect ip port := by simpa [plan] using hplan
    exact handleConnect_calls hst rfl hk hp
  · rw [ht] at hplan ⊢
    obtain rfl : command = errandCommand e := by simpa [plan] using hplan
    cases htask : e.task with
    | upload path =>
      have hcmd : errandCommand e = .startUpload path e.name e.content.length := by
        simp only [errandCommand, htask]
      rw [hcmd]
      exact handleStartUpload_calls htask hst (by rw [plan, hcmd]; rfl) hg ho hp.1
    | resume n =>
      have hcmd : errandCommand e = .requestResult := by
        simp only [errandCommand, htask]
      rw [hcmd]
      exact handleRequestResult_calls htask hst (by rw [plan, hcmd]; rfl) hg ho hp
  · exact (hfull ht).elim
  · exact (hfull ht).elim
  · exact (hfull ht).elim

theorem drainCommands_calls (n : ℕ) (h : OnErrand e ip port c s) :
    Calls e ip port (Service.drainCommands n s) c (OnErrand e ip port) := by
  have hsame (c : Call) : Call.next c .takeCommand none = c := by simp [Call.next]
  apply Service.keeps_drainCommands (fun _ => trivial) (fun c s h => (hsame c).symm ▸ h) _ n h
  intro c s command h hplan
  exact handle_calls command h hplan

end Commands

section Callbacks

variable {c : Call} {s : Service} {w : World}

/-- What happens to the socket does not matter as long as it stays open. -/
theorem onErrand_socket {k : Option Socket} {timer : Bool} {writes : ℕ}
    (ho : s.isOpen = true → k.any (fun k => !k.closing) = true)
    (hn : s.socket = none → k = none) (h : OnErrand e ip port c s) :
    OnErrand e ip port c
      { s with socket := k, connectTimer := timer, inFlightWrites := writes } := by
  rcases h with ⟨hst, ht, hg, hk, hp⟩ | ⟨hst, ht, hg, hopen, hp⟩ | ⟨data, hst, ht, hg, hopen, hf⟩ |
    ⟨⟨hst, ht, hopen, hrest⟩, hf⟩ | h
  · exact .inl ⟨hst, ht, hg, hn hk, hp⟩
  · exact .inr (.inl ⟨hst, ht, hg, ho hopen, hp⟩)
  · refine .inr (.inr (.inl ⟨data, hst, ht, hg, ho hopen, ?_⟩))
    exact ⟨hf.uploads, hf.uploading, hf.silent, hf.csv, hf.trailer, hf.total, hf.sent, hf.crc⟩
  · exact .inr (.inr (.inr (.inl ⟨⟨hst, ht, ho hopen, hrest⟩, hf⟩)))
  · exact .inr (.inr (.inr (.inr h)))

theorem onConnect_calls (text : Bytes) (h : OnErrand e ip port c s)
    (hready : ready s w (.connectDone true text) = true) :
    Calls e ip port (s.onConnect true text) c (OnErrand e ip port) := by
  obtain ⟨k, hk, hcond⟩ := Option.any_eq_true _ _ |>.mp hready
  have hopen : k.closing = false := by
    simp only [Bool.and_eq_true, Bool.or_eq_true, Bool.not_eq_true'] at hcond
    simpa using hcond.2
  unfold Service.onConnect
  refine calls_act _ _ trivial fun _ _ => calls_act _ _ trivial fun _ _ => ?_
  have hstart : (s.answered true).startRead = ({ s.answered true with
      socket := (s.answered true).socket.map fun k => { k with reading := true } }, true) := by
    simp [Service.startRead, Service.answered, Service.isOpen, hk, hopen]
  rw [hstart]
  refine onErrand_socket (s := s) (fun _ => ?_) (fun hn => ?_) h
  · simp [Service.answered, hk, hopen]
  · simp [hk] at hn

theorem onErrand_connected {k : Socket} (h : OnErrand e ip port c s) (hk : s.socket = some k) :
    c.stage ≠ .away := by
  intro hst
  rcases h with h | h | ⟨_, h, -⟩ | ⟨h, -⟩ | h
  · exact absurd h.2.2.2.1 (by simp [hk])
  · exact absurd h.1 (by simp [hst])
  · exact absurd h (by simp [hst])
  · exact absurd h.1 (by simp [hst])
  · exact absurd h.1 (by simp [hst])

/-- Before the request and behind the last reply there is nothing to read. -/
theorem onReadable_calls (hmax : e.csv.length ≤ kMaxCsvSize) (count : ℕ)
    (h : OnErrand e ip port c s) (hready : ready s w (.readable count) = true) :
    Calls e ip port (s.onReadable count) c (OnErrand e ip port) := by
  obtain ⟨k, hk, -⟩ := Option.any_eq_true _ _ |>.mp hready
  refine calls_act _ _ (onErrand_connected h hk) fun data hdata => ?_
  obtain ⟨hin, hspoken⟩ := hdata
  have hempty (hd : data = []) : Calls e ip port (Service.onBytes (data.length + 1) s data)
      (Call.next c (.recv (min count kSuggestedSize)) data) (OnErrand e ip port) := by
    subst hd
    have hsame : Call.next c (.recv (min count kSuggestedSize)) [] = c := by simp [Call.next]
    rw [hsame]
    exact h
  have hsilent (hg : c.got = []) (hs : ¬ c.Spoken) : data = [] := by
    by_contra hd
    exact hs (hspoken (by simp [hg, hd]))
  rcases h with h | h | h | ⟨⟨hst, ht, ho, hu, -, -⟩, hf⟩ | h
  · exact hempty (hsilent h.2.2.1 (by simp [Spoken, h.1]))
  · exact hempty (hsilent h.2.2.1 (by simp [Spoken, h.1]))
  · obtain ⟨_, hst, -, hg, -⟩ := h
    exact hempty (hsilent hg (by simp [Spoken, hst]))
  · refine onBytes_calls hmax _ (Nat.lt_succ_self _) (.inl ⟨c.got, ?_, hf⟩)
    exact ⟨hst, ht, ho, hu, rfl, hin⟩
  · refine hempty ?_
    rw [h.2.2.1] at hin
    exact List.append_right_eq_self.mp (hin.eq_of_length_le (by simp))

theorem onError_calls (hst : c.stage = .thanked) (h : OnErrand e ip port c s) :
    Calls e ip port (s.onError none) c (OnErrand e ip port) := by
  have ht : Thanked e ip port c s := by
    rcases h with h | h | ⟨_, h, -⟩ | ⟨h, -⟩ | h
    · exact absurd h.1 (by simp [hst])
    · exact absurd h.1 (by simp [hst])
    · exact absurd h (by simp [hst])
    · exact absurd h.1 (by simp [hst])
    · exact h
  obtain ⟨-, htaken, hg, hu, he, hc⟩ := ht
  unfold Service.onError Service.sayError Service.sayClosed Service.giveUp
  rw [if_pos hc]
  refine calls_act _ _ trivial fun _ _ => ?_
  rw [if_neg (by simp [hu]), if_neg (by simp [he])]
  refine calls_act _ _ trivial fun _ _ => .inr (.inr (.inr (.inr ?_)))
  exact ⟨hst, htaken, hg, hu, he, hc⟩

theorem onWrite_calls (text : Bytes) (h : OnErrand e ip port c s) :
    Calls e ip port (s.onWrite true text) c (OnErrand e ip port) := by
  refine keeps_seq _ _ _ _ _ (Q := OnErrand e ip port) ?_ fun _ _ h => h
  refine pumpUpload_calls (onErrand_socket (s := s) (fun ho => ?_) (fun hn => ?_) h)
  · obtain ⟨k, hk, hopen⟩ := isOpen_some ho
    simp [Service.written, hk, hopen]
  · simp [Service.written, hn]

theorem onClosed_calls (h : OnErrand e ip port c s) (hready : ready s w .closed = true) :
    Calls e ip port s.onClosed c (OnErrand e ip port) := by
  obtain ⟨k, hk, hcond⟩ := Option.any_eq_true _ _ |>.mp hready
  simp only [Bool.and_eq_true, decide_eq_true_eq] at hcond
  have hshut (ho : s.isOpen = true) : False := by
    obtain ⟨k', hk', hopen⟩ := isOpen_some ho
    obtain rfl : k = k' := by simpa [hk] using hk'
    simp [hopen] at hcond
  refine calls_act _ _ trivial fun _ _ => ?_
  exact onErrand_socket (s := s) (fun ho => (hshut ho).elim) (fun _ => rfl) h

/-- What libuv may report to a service on an errand. -/
def Reported (c : Call) : Signal → Prop
  | .connectDone ok _ | .writeDone ok _ => ok = true
  | .readError error => error = none ∧ c.stage = .thanked
  | .connectTimeout => False
  | _ => True

theorem callback_calls (hmax : e.csv.length ≤ kMaxCsvSize) (signal : Signal)
    (hrep : Reported c signal) (h : OnErrand e ip port c s) (hready : ready s w signal = true) :
    Calls e ip port (callback s signal) c (OnErrand e ip port) := by
  cases signal with
  | async passes =>
    exact keeps_seq _ _ _ _ _ (drainCommands_calls _ h) fun _ _ => pumpUpload_calls
  | connectDone ok text =>
    obtain rfl : ok = true := hrep
    exact onConnect_calls text h hready
  | readable count => exact onReadable_calls hmax count h hready
  | readError error =>
    obtain ⟨rfl, hst⟩ := hrep
    exact onError_calls hst h
  | writeDone ok text =>
    obtain rfl : ok = true := hrep
    exact onWrite_calls text h
  | connectTimeout => exact hrep.elim
  | closed => exact onClosed_calls h hready

end Callbacks

end Call

end LogTransfer.Client
