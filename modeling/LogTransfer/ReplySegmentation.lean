import LogTransfer.ReplyState
import LogTransfer.Reassembly

/-!
# Segmentation of the server's bytes

Reads of one byte stream leave the client in one state, whatever the cut. A
pass over the front of a read either waits for more and goes on where it
stopped, or has decided and does not look at the rest. After a decision to
close, what is left of the read only fails the session again.
-/

set_option autoImplicit false

namespace LogTransfer.Client
open Program Interleave

/-- The world of a service that is left alone, and what was handed to `send`. -/
abbrev Line := World × List Message

def handed (sent : List Message) : Op → List Message
  | .send m => sent ++ [m]
  | _ => sent

/-- Every call into libuv succeeds. -/
def granted (files : Bytes → Option Bytes) (op : Op) (l : Line) : Ans op × Line :=
  let r := World.exec files op true l.1
  (r.1, r.2, handed l.2 op)

section Runs

variable (files : Bytes → Option Bytes)

def settle {α : Type} (p : P α) (l : Line) : α × Line := eval (granted files) p l

def deliver (c : Service × Line) (data : Bytes) : Service × Line :=
  settle files (Service.onBytes (data.length + 1) c.1 data) c.2

/-- The reads of a stream; a closed socket is not read. -/
def deliverAll : Service × Line → List Bytes → Service × Line
  | c, [] => c
  | c, r::rs => if c.1.isOpen then deliverAll (deliver files c r) rs else c

end Runs

structure ReplyOutcome where
  expecting : Expecting
  csv : Bytes
  csvSize : ℕ
  resultCsv : Bytes
  hasClaim : Bool
  claim : ResultClaim
  sent : List Message
  isOpen : Bool
  deriving DecidableEq, Repr

def replyOutcome (c : Service × Line) : ReplyOutcome :=
  { expecting := c.1.expecting, csv := c.1.csv, csvSize := c.1.csvSize,
    resultCsv := c.2.1.resultCsv, hasClaim := c.1.hasClaim, claim := c.1.claim,
    sent := c.2.2, isOpen := c.1.isOpen }

/-- The same configuration, or two closed ones with one outcome. -/
def Same (c c' : Service × Line) : Prop :=
  c = c' ∨ c.1.isOpen = false ∧ c'.1.isOpen = false ∧ replyOutcome c = replyOutcome c'

section Passes

variable {files : Bytes → Option Bytes} {s : Service} {l : Line} {α β : Type}

theorem settle_pure (a : α) (l : Line) : settle files (pure a : P α) l = (a, l) := rfl

theorem settle_bind (p : P α) (f : α → P β) (l : Line) :
    settle files (p >>= f) l = settle files (f (settle files p l).1) (settle files p l).2 :=
  eval_bind _ p f l

theorem same_outcome {c c' : Service × Line} (h : Same c c') :
    replyOutcome c = replyOutcome c' := by
  rcases h with rfl | h
  · rfl
  · exact h.2.2

theorem same_trans {a b c : Service × Line} (h : Same a b) (h' : Same b c) : Same a c := by
  rcases h with rfl | ⟨ha, hb, hab⟩
  · exact h'
  · rcases h' with rfl | ⟨-, hc, hbc⟩
    · exact .inr ⟨ha, hb, hab⟩
    · exact .inr ⟨ha, hc, hab.trans hbc⟩

theorem onBytes_fuel (n m : ℕ) (s : Service) (data : Bytes) (hn : data.length < n)
    (hm : data.length < m) : Service.onBytes n s data = Service.onBytes m s data := by
  induction n generalizing m s data with
  | zero => omega
  | succ n ih =>
    cases m with
    | zero => omega
    | succ m =>
      unfold Service.onBytes
      split
      · rfl
      · rename_i hd
        have hpos : 0 < data.length := List.length_pos_iff.mpr (by simpa using hd)
        congr 1
        funext r
        obtain ⟨s', consumed⟩ := r
        dsimp only
        split
        · rfl
        · rename_i hr
          refine ih m _ _ ?_ ?_
          · simp only [List.length_drop]
            omega
          · simp only [List.length_drop]
            omega

theorem deliver_nil (c : Service × Line) : deliver files c [] = c := rfl

/-- One pass, then the rest of the read. -/
theorem deliver_pass (c : Service × Line) (data : Bytes) (hd : data ≠ []) :
    deliver files c data =
      let r := settle files (c.1.consume data) c.2
      if r.1.2 = 0 then (r.1.1, r.2) else deliver files (r.1.1, r.2) (data.drop r.1.2) := by
  have hpos : 0 < data.length := List.length_pos_iff.mpr hd
  unfold deliver
  rw [Service.onBytes, if_neg (by simpa using hd), settle_bind]
  dsimp only
  split
  · rfl
  · rename_i hr
    congr 1
    refine onBytes_fuel _ _ _ _ ?_ (Nat.lt_succ_self _)
    simp only [List.length_drop]
    omega

end Passes

section Ends

variable {files : Bytes → Option Bytes} {s : Service} {l : Line} {α : Type}

/-- The operations of a session that is given up. -/
def windsUp : Op → Prop
  | .emit _ | .abortUpload | .tryPeek | .release | .note _ => True
  | _ => False

variable (files) in
theorem settle_windsUp {p : P α} (h : Only windsUp p) (l : Line) :
    (settle files p l).2.1.resultCsv = l.1.resultCsv ∧ (settle files p l).2.2 = l.2 := by
  induction p generalizing l with
  | done a => exact ⟨rfl, rfl⟩
  | call op k ih =>
    obtain ⟨hop, hk⟩ := h
    obtain ⟨hr, hs⟩ := ih _ (hk _) (granted files op l).2
    change (settle files (k (granted files op l).1) (granted files op l).2).2.1.resultCsv = _ ∧
      (settle files (k (granted files op l).1) (granted files op l).2).2.2 = _
    rw [hr, hs]
    cases op <;> first | exact ⟨rfl, rfl⟩ | exact hop.elim

theorem drainLoop_windsUp (n : ℕ) : Only windsUp (Service.drainLoop n) := by
  induction n with
  | zero => exact trivial
  | succ n ih =>
    refine only_bind (only_ask trivial) fun view => ?_
    cases view with
    | none => exact trivial
    | some chunk => exact only_bind (only_ask trivial) fun _ => ih

theorem failSession_windsUp (reason : Bytes) (level : LogLevel) :
    Only windsUp (s.failSession reason level) := by
  refine only_bind ?_ fun _ => only_bind (only_ask trivial) fun _ =>
    only_bind (only_ask trivial) fun _ => trivial
  unfold Service.stopReader
  split
  · exact only_bind (only_ask trivial) fun _ => drainLoop_windsUp _
  · exact trivial

theorem settle_fail (reason : Bytes) (level : LogLevel) (l : Line) :
    (settle files (s.failSession reason level) l).1 = s.failed.closeSocket := by
  have h : Yields (fun s' => s' = s.failed.closeSocket) (s.failSession reason level) :=
    yields_seq _ fun _ => yields_seq _ fun _ => yields_seq _ fun _ => rfl
  exact yields_eval _ h l

variable (files) in
/-- A session that expects nothing is given up at the first byte. -/
theorem deliver_nothing (data : Bytes) (he : s.expecting = .nothing) (hd : data ≠ []) :
    replyOutcome (deliver files (s, l) data) = replyOutcome (s.failed.closeSocket, l) ∧
      (deliver files (s, l) data).1.isOpen = false := by
  rw [deliver_pass _ _ hd]
  dsimp only
  unfold Service.consume
  rw [he]
  dsimp only
  rw [settle_bind, settle_bind]
  generalize hl : (settle files (act (.note (.unexpected data.length))) l).2 = l'
  have hcalm : l'.1.resultCsv = l.1.resultCsv ∧ l'.2 = l.2 := by
    rw [← hl]
    exact ⟨rfl, rfl⟩
  rw [settle_pure, if_pos rfl, settle_fail]
  have hw := settle_windsUp files (failSession_windsUp (s := s)
    (bytesOf "Unexpected " ++ decimal data.length ++
      bytesOf " bytes from server - closing the session.") .error) l'
  refine ⟨?_, isOpen_close _⟩
  simp only [replyOutcome]
  rw [hw.1, hw.2, hcalm.1, hcalm.2]

theorem spent_outcome (h : Spent s) :
    replyOutcome (s.failed.closeSocket, l) = replyOutcome (s, l) := by
  obtain ⟨ho, he, hc, hn⟩ := h
  have hclose : s.failed.closeSocket.isOpen = s.isOpen := by rw [ho, isOpen_close]
  simp only [replyOutcome, hclose]
  unfold Service.failed
  split
  · rename_i hclaim
    simp [Service.closeSocket, he, ← hc hclaim]
  · rename_i hclaim
    simp [Service.closeSocket, he, hn (by simpa using hclaim)]

variable (files) in
theorem deliver_spent (data : Bytes) (h : Spent s) :
    replyOutcome (deliver files (s, l) data) = replyOutcome (s, l) ∧
      (deliver files (s, l) data).1.isOpen = false := by
  by_cases hd : data = []
  · subst hd
    exact ⟨rfl, h.1⟩
  · obtain ⟨ho, hc⟩ := deliver_nothing files (l := l) data h.2.1 hd
    exact ⟨ho.trans (spent_outcome h), hc⟩

end Ends

section Cuts

variable {files : Bytes → Option Bytes} {s : Service} {l : Line}

/-- A pass over `a` waits for more, and a pass over a longer read goes on where
it stopped. -/
def Resumes (files : Bytes → Option Bytes) (s : Service) (l : Line) (a b : Bytes) : Prop :=
  ∃ s', Ripe s' ∧ s'.isOpen = s.isOpen ∧ settle files (s.consume a) l = ((s', a.length), l) ∧
    settle files (s.consume (a ++ b)) l =
      let r := settle files (s'.consume b) l
      ((r.1.1, if r.1.2 = 0 then 0 else a.length + r.1.2), r.2)

/-- A pass over `a` does not look at what follows. -/
def Decided (files : Bytes → Option Bytes) (s : Service) (l : Line) (a b : Bytes) : Prop :=
  settle files (s.consume (a ++ b)) l = settle files (s.consume a) l ∧
    (settle files (s.consume a) l).1.2 ≤ a.length

/-- The count that a handler of a whole message reports is all or nothing. -/
def AllOrNone (files : Bytes → Option Bytes) (whole : Service → ℕ → P (Service × ℕ)) : Prop :=
  ∀ s l, (∃ r l', ∀ n, settle files (whole s n) l = ((r, n), l')) ∨
    ∃ r l', ∀ n, settle files (whole s n) l = ((r, 0), l')

theorem settle_counted (p : P Service) (n : ℕ) (l : Line) :
    settle files (p >>= fun s => pure (s, n)) l =
      (((settle files p l).1, n), (settle files p l).2) := settle_bind _ _ _

variable (files) in
theorem failBytes_none (s : Service) (reason : String) (l : Line) :
    ∃ r l', settle files (s.failBytes reason) l = ((r, 0), l') := ⟨_, _, settle_counted _ 0 l⟩

theorem ackFramed_all : AllOrNone files Service.ackFramed := by
  intro s l
  unfold Service.ackFramed
  split
  · exact .inr ⟨_, _, fun _ => settle_counted _ 0 l⟩
  · split
    · exact .inr ⟨_, _, fun _ => settle_counted _ 0 l⟩
    · exact .inl ⟨_, _, fun n => settle_counted _ n l⟩

theorem headerFramed_all (resuming : Bool) :
    AllOrNone files (fun s n => s.headerFramed resuming n) := by
  intro s l
  dsimp only
  unfold Service.headerFramed
  split
  · exact .inr ⟨_, _, fun _ => settle_counted _ 0 l⟩
  · rename_i header _
    cases hb : (settle files (s.beginCsvReceive header resuming) l).1.2 with
    | true =>
      refine .inl ⟨(settle files (s.beginCsvReceive header resuming) l).1.1,
        (settle files (s.beginCsvReceive header resuming) l).2, fun n => ?_⟩
      rw [settle_bind]
      simp [hb, settle_pure]
    | false =>
      refine .inr ⟨(settle files (s.beginCsvReceive header resuming) l).1.1,
        (settle files (s.beginCsvReceive header resuming) l).2, fun n => ?_⟩
      rw [settle_bind]
      simp [hb, settle_pure]

theorem resumeFramed_all : AllOrNone files Service.resumeFramed := by
  intro s l
  unfold Service.resumeFramed
  split
  · exact .inr ⟨_, _, fun _ => (settle_bind _ _ l).trans (settle_counted _ 0 _)⟩
  · exact headerFramed_all true s l

/-- What a pass over a read does, by the state that the framer is left in. -/
theorem framed_eq (data : Bytes) (malformed : String) (whole : Service → ℕ → P (Service × ℕ))
    (ho : s.framer.Open) :
    s.framed data malformed whole =
      let r := Framer.absorb s.framer data
      let s' := { s with framer := r.1 }
      match r.1.status with
      | .needMoreData => pure (s', r.2)
      | .ok => whole s' r.2
      | _ => s'.failBytes malformed := by
  have hfeed := Framer.feed_eq_absorb s.framer data (.inr ho)
  cases hst : (Framer.absorb s.framer data).1.status <;> simp only [Service.framed, hfeed, hst]

theorem framed_cut (a b : Bytes) (malformed : String) (whole : Service → ℕ → P (Service × ℕ))
    (hw : AllOrNone files whole) (ho : s.framer.Open) (hb : b ≠ [])
    (he : s.expecting ≠ .csvPayload)
    (hc : ∀ (s' : Service) data, s'.expecting = s.expecting →
      s'.consume data = s'.framed data malformed whole) :
    Resumes files s l a b ∨ Decided files s l a b := by
  have hcut := Framer.absorb_append s.framer a b
  have hused := Framer.absorb_consumed s.framer a
  have hset := Framer.settled_absorb s.framer a (.inr ho)
  by_cases hst : (Framer.absorb s.framer a).1.status = .needMoreData
  · left
    have hopen : (Framer.absorb s.framer a).1.Open := hset.resolve_left fun hn => hn hst
    rw [if_pos hst, hused.2 hst] at hcut
    refine ⟨{ s with framer := (Framer.absorb s.framer a).1 },
      ⟨fun h => absurd h he, fun _ _ => hopen⟩, rfl, ?_, ?_⟩
    · rw [hc s a rfl, framed_eq _ _ _ ho]
      dsimp only
      rw [hst, hused.2 hst]
      rfl
    · rw [hc s _ rfl, hc { s with framer := (Framer.absorb s.framer a).1 } b rfl,
        framed_eq _ _ _ ho, framed_eq _ _ _ hopen, hcut]
      dsimp only
      have hpos := Framer.absorb_pos (Framer.absorb s.framer a).1 b hst hb
      generalize Framer.absorb (Framer.absorb s.framer a).1 b = r at hpos ⊢
      obtain ⟨f, n⟩ := r
      have hn : n ≠ 0 := by
        have hpos : 0 < n := hpos
        omega
      dsimp only
      cases hf : f.status with
      | needMoreData => simp [settle_pure, hn]
      | ok =>
        dsimp only
        rcases hw { s with framer := f } l with ⟨r, l', hr⟩ | ⟨r, l', hr⟩
        · simp [hr, hn]
        · simp [hr]
      | _ =>
        obtain ⟨r, l', hr⟩ := failBytes_none files { s with framer := f } malformed l
        simp [hr]
  · right
    rw [if_neg hst] at hcut
    refine ⟨?_, ?_⟩
    · rw [hc s _ rfl, hc s _ rfl, framed_eq _ _ _ ho, framed_eq _ _ _ ho, hcut]
    · rw [hc s _ rfl, framed_eq _ _ _ ho]
      dsimp only
      split
      · exact hused.1
      · rcases hw { s with framer := (Framer.absorb s.framer a).1 } l with
          ⟨r, l', hr⟩ | ⟨r, l', hr⟩
        · rw [hr]
          exact hused.1
        · rw [hr]
          exact Nat.zero_le _
      · obtain ⟨r, l', hr⟩ := failBytes_none files
          { s with framer := (Framer.absorb s.framer a).1 } malformed l
        rw [hr]
        exact Nat.zero_le _

theorem appended_append (s : Service) (x y : Bytes) :
    (s.appended x).appended y = s.appended (x ++ y) := by
  cases hc : s.hasClaim with
  | true => simp [Service.appended, hc]
  | false => simp [Service.appended, hc]

theorem csv_eq (he : s.expecting = .csvPayload) (hl : s.csv.length < s.csvSize)
    (hm : s.csvSize ≤ kMaxCsvSize) (data : Bytes) :
    settle files (s.consume data) l =
      let take := min data.length (s.csvSize - s.csv.length)
      let r := settle files (s.appended (data.take take)).completed l
      ((r.1, take), r.2) := by
  unfold Service.consume
  rw [he]
  change settle files (act (.note (.payload s)) >>= _) l = _
  rw [settle_bind, remaining_eq hl hm]
  exact settle_counted _ _ _

theorem csv_cut (a b : Bytes) (he : s.expecting = .csvPayload) (hl : s.csv.length < s.csvSize)
    (hm : s.csvSize ≤ kMaxCsvSize) (hb : b ≠ []) :
    Resumes files s l a b ∨ Decided files s l a b := by
  have hpos : 0 < b.length := List.length_pos_iff.mpr hb
  by_cases hroom : a.length < s.csvSize - s.csv.length
  · left
    have hlen : (s.appended a).csv.length = s.csv.length + a.length := by simp [Service.appended]
    have hsize : (s.appended a).csvSize = s.csvSize := rfl
    have hwait : (s.appended a).completed = pure (s.appended a) := by
      unfold Service.completed
      rw [if_neg (by omega)]
    refine ⟨s.appended a, ⟨fun _ => ⟨by omega, hm⟩, fun _ h => absurd he h⟩, rfl, ?_, ?_⟩
    · rw [csv_eq he hl hm]
      dsimp only
      rw [Nat.min_eq_left (by omega), List.take_length, hwait]
      rfl
    · rw [csv_eq he hl hm, csv_eq (s := s.appended a) he (by omega) hm]
      dsimp only
      rw [hsize, hlen, appended_append]
      have htake : min (a ++ b).length (s.csvSize - s.csv.length) =
          a.length + min b.length (s.csvSize - (s.csv.length + a.length)) := by
        simp only [List.length_append]
        omega
      rw [htake, List.take_append, List.take_of_length_le (by omega), Nat.add_sub_cancel_left,
        if_neg (by omega)]
  · right
    have htake : min (a ++ b).length (s.csvSize - s.csv.length) =
        min a.length (s.csvSize - s.csv.length) := by
      simp only [List.length_append]
      omega
    refine ⟨?_, ?_⟩
    · rw [csv_eq he hl hm, csv_eq he hl hm]
      dsimp only
      rw [htake, List.take_append_of_le_length (Nat.min_le_left _ _)]
    · rw [csv_eq he hl hm]
      exact Nat.min_le_left _ _

variable (files) in
theorem consume_cut (a b : Bytes) (h : Ripe s) (hb : b ≠ []) (he : s.expecting ≠ .nothing) :
    Resumes files s l a b ∨ Decided files s l a b := by
  cases hx : s.expecting with
  | ack =>
    refine framed_cut a b "Malformed ack from server - closing the session." _ ackFramed_all
      (h.2 he (by simp [hx])) hb (by simp [hx]) ?_
    intro s' data hs'
    rw [Service.consume, hs', hx]
    rfl
  | resultHeader =>
    refine framed_cut a b "Malformed result header from server." _ (headerFramed_all false)
      (h.2 he (by simp [hx])) hb (by simp [hx]) ?_
    intro s' data hs'
    rw [Service.consume, hs', hx]
    rfl
  | csvPayload => exact csv_cut a b hx (h.1 hx).1 (h.1 hx).2 hb
  | resumeReply =>
    refine framed_cut a b "Malformed reply to the result request." _ resumeFramed_all
      (h.2 he (by simp [hx])) hb (by simp [hx]) ?_
    intro s' data hs'
    rw [Service.consume, hs', hx]
    rfl
  | nothing => exact absurd hx he

end Cuts

section Reads

variable {files : Bytes → Option Bytes}

variable (files) in
theorem deliver_goes (c : Service × Line) (data : Bytes) (h : Ripe c.1) :
    Goes c.1 (deliver files c data).1 :=
  yields_eval _ (onBytes_goes (data.length + 1) data h) c.2

/-- The second read of a cut, if the first left the socket open. -/
def andThen (files : Bytes → Option Bytes) (c : Service × Line) (data : Bytes) : Service × Line :=
  if c.1.isOpen then deliver files c data else c

theorem deliver_cut (c : Service × Line) (a b : Bytes) (hr : Ripe c.1) (ho : c.1.isOpen = true)
    (ha : a ≠ []) (hb : b ≠ []) :
    Same (deliver files c (a ++ b)) (andThen files (deliver files c a) b) := by
  induction hn : a.length using Nat.strong_induction_on generalizing c a with
  | _ n ih =>
  obtain ⟨s, l⟩ := c
  have hab : a ++ b ≠ [] := by simp [ha]
  by_cases he : s.expecting = .nothing
  · -- both reads fail at their first byte
    obtain ⟨hout, hclosed⟩ := deliver_nothing files (l := l) a he ha
    obtain ⟨hout', hclosed'⟩ := deliver_nothing files (l := l) (a ++ b) he hab
    rw [andThen, if_neg (by simp [hclosed])]
    exact .inr ⟨hclosed', hclosed, hout'.trans hout.symm⟩
  · rcases consume_cut files (l := l) a b hr hb he with
      ⟨s', hr', ho', hpass, hcut⟩ | ⟨hcut, hle⟩
    · -- the first read is used up and the second goes on with it
      left
      have hpos : a.length ≠ 0 := by simpa using ha
      have hfirst : deliver files (s, l) a = (s', l) := by
        rw [deliver_pass _ _ ha]
        simp [hpass, hpos, deliver_nil]
      rw [hfirst, andThen, if_pos (ho'.trans ho), deliver_pass _ _ hab, deliver_pass _ _ hb, hcut]
      dsimp only
      split
      · rfl
      · rw [if_neg (by omega), List.drop_append, List.drop_of_length_le (by omega)]
        simp
    · -- the pass is the same, and its rest is cut
      rw [deliver_pass _ _ hab, deliver_pass _ _ ha, hcut]
      have hcount : Counts s (settle files (s.consume a) l).1 :=
        yields_eval _ (consume_counts a hr ha) l
      dsimp only
      generalize settle files (s.consume a) l = r at hcount hle ⊢
      obtain ⟨⟨s', k⟩, l'⟩ := r
      have hle : k ≤ a.length := hle
      dsimp only
      split
      · rename_i hk
        rcases hcount with hs | ⟨-, hpos⟩
        · rw [andThen, if_neg (by simp [hs.1])]
          exact .inl rfl
        · exact absurd hpos (by simp [hk])
      · rename_i hk
        rw [List.drop_append_of_le_length hle]
        rcases counts_goes hcount with hs | ⟨hr', ho'⟩
        · obtain ⟨hout, hclosed⟩ := deliver_spent files (l := l') (a.drop k) hs
          obtain ⟨hout', hclosed'⟩ :=
            deliver_spent files (l := l') (a.drop k ++ b) hs
          rw [andThen, if_neg (by simp [hclosed])]
          exact .inr ⟨hclosed', hclosed, hout'.trans hout.symm⟩
        · have hopen : s'.isOpen = true := ho'.trans ho
          by_cases hrest : a.drop k = []
          · rw [hrest, deliver_nil, andThen, if_pos hopen]
            exact .inl rfl
          · refine ih (a.drop k).length ?_ (s', l') (a.drop k) hr' hopen hrest rfl
            simp only [List.length_drop]
            omega

variable (files) in
/-- Reads are one read. -/
theorem deliverAll_flatten (rs : List Bytes) (c : Service × Line) (hr : Ripe c.1)
    (ho : c.1.isOpen = true) (hne : ∀ r ∈ rs, r ≠ []) :
    Same (deliver files c rs.flatten) (deliverAll files c rs) := by
  induction rs generalizing c with
  | nil => exact .inl rfl
  | cons r rs ih =>
    have hrest : ∀ r ∈ rs, r ≠ [] := fun x hx => hne x (List.mem_cons_of_mem _ hx)
    rw [deliverAll, if_pos ho, List.flatten_cons]
    have hgoes := deliver_goes files c r hr
    by_cases hnil : rs.flatten = []
    · cases rs with
      | nil =>
        rw [hnil, List.append_nil]
        exact .inl rfl
      | cons x xs => simp [hrest x List.mem_cons_self] at hnil
    · refine same_trans (deliver_cut c r rs.flatten hr ho (hne r List.mem_cons_self) hnil) ?_
      unfold andThen
      split
      · rename_i hopen
        exact ih _ (goes_ripe hgoes) hopen hrest
      · rename_i hclosed
        have hstop : deliverAll files (deliver files c r) rs = deliver files c r := by
          cases rs with
          | nil => rfl
          | cons x xs => rw [deliverAll, if_neg hclosed]
        rw [hstop]
        exact .inl rfl

variable (files) in
/-- Two cuts of one byte stream leave the client alike, from every state that a
run can reach. -/
theorem reply_segmentation_free {G : Type} (next : G → (op : Op) → Ans op → G) (g : G)
    (c : ClientState G) (s : Service) (w : World) (rs rs' : List Bytes)
    (h : Reach (machine files next) Always (clientInitial g) c) (ht : c.thread = .done s)
    (ho : s.isOpen = true) (hne : ∀ r ∈ rs, r ≠ []) (hne' : ∀ r ∈ rs', r ≠ [])
    (hb : rs.flatten = rs'.flatten) :
    replyOutcome (deliverAll files (s, w, []) rs) =
      replyOutcome (deliverAll files (s, w, []) rs') := by
  have hr := reach_ripe h ht
  have hs := same_outcome (deliverAll_flatten files rs (s, w, []) hr ho hne)
  have hs' := same_outcome (deliverAll_flatten files rs' (s, w, []) hr ho hne')
  rw [← hs, ← hs', hb]

end Reads

section Schedules

def replyB : Bytes := ackOf recordB ++ announce recordB.csv ++ recordB.csv

def awaitsAck (c : ClientState Unit) : Bool :=
  match c.thread with
  | .done s => s.isOpen && s.expecting = .ack
  | .call _ _ => false

end Schedules

/-- The whole reply to an upload, in one read and byte by byte. -/
theorem reply_bytewise : ∃ s : Service, s.isOpen = true ∧ s.expecting = .ack ∧
    replyOutcome (deliverAll twoFiles (s, World.initial, []) [replyB]) =
      replyOutcome (deliverAll twoFiles (s, World.initial, []) (replyB.map fun b => [b])) := by
  have hrun : ((run (machine twoFiles fun g _ _ => g) (fun _ _ => true) (clientInitial ())
      uploadedB).map awaitsAck) = some true := by decide
  obtain ⟨c, hc, ha⟩ := Option.map_eq_some_iff.mp hrun
  unfold awaitsAck at ha
  split at ha
  · rename_i s hs
    simp only [Bool.and_eq_true, decide_eq_true_eq] at ha
    refine ⟨s, ha.1, ha.2, ?_⟩
    refine reply_segmentation_free twoFiles (fun g _ _ => g) () c s World.initial _ _
      (run_always _ hc) hs ha.1 ?_ ?_ ?_
    · intro r hr
      obtain rfl := List.mem_singleton.mp hr
      decide
    · intro r hr
      obtain ⟨b, -, rfl⟩ := List.mem_map.mp hr
      exact List.cons_ne_nil b []
    · simp [← List.flatMap_def]
  · cases ha

end LogTransfer.Client
