import LogTransfer.VisitConduct

/-!
# The callbacks of a session on an errand

Reads of any size, completions, the resumed reader and the analysis leave the
session on a seat. In the file the bytes go to the ring; behind it nothing is
left to be read but the end of the conversation.
-/

set_option autoImplicit false

namespace LogTransfer
open Program
open Client (Midway midway_feed midway_reset midway_status)

variable [Doubles] {e : Errand}

namespace Visit

section File

variable {v : Visit} {s : Session} {data : Bytes}

/-- The bytes of the file in this read are counted. -/
theorem counted_body (n : ℕ) (hl : Live e v s) (hst : s.state = .receiving) (hs : v.sent = [])
    (hw : v.waiting = false) (hc : Counted s) (ha : Announced e s) (h : AtFile e v s data)
    (hn : n = min (s.fileSize - s.receivedBytes) data.length) :
    Live e v (Session.countPayload s (data.take n)) ∧
      AtBody e v (Session.countPayload s (data.take n)) (data.drop n) ∧
      (data.drop n ≠ [] → (s.payload ++ data.take n).length = e.content.length) := by
  obtain ⟨path, ht⟩ := ha.1
  obtain ⟨hlt, hf, hr⟩ := h
  rw [ha.2.1, hc.1] at hn
  have hin := hl.2.2.2.2.2.2
  rw [hr] at hin
  obtain ⟨hpre, hrest⟩ := take_file (file_next ht hin) hlt hn
  have hcount : Counted (Session.countPayload s (data.take n)) := by
    refine ⟨?_, ?_⟩
    · simp [Session.countPayload, hc.1]
    · simp [Session.countPayload, hc.2, crc32_append]
  have hsplit : v.received = e.opening ++ (s.payload ++ data.take n) ++ data.drop n := by
    rw [hr]
    simp [List.append_assoc]
  refine ⟨hl, ⟨hst, hs, hw, hcount, ha, ?_⟩, fun hne => ?_⟩
  · by_cases hfull : (s.payload ++ data.take n).length < e.content.length
    · exact .inl ⟨hfull, hf, hsplit⟩
    · have heq : s.payload ++ data.take n = e.content :=
        hpre.eq_of_length_le (Nat.le_of_not_lt hfull)
      refine .inr ⟨heq, [], ?_, ?_⟩
      · rw [hsplit, heq, List.append_nil]
      · change Midway s.framer _ _ _ _
        rw [hf]
        exact midway_reset _ _ (Reception.whole_ne_nil _ _ (Errand.whole_trailer e))
  · by_contra hshort
    have := hpre.length_le
    exact hne (hrest (by omega))

theorem body_reading {rest : Bytes} (b : Bool) (h : AtBody e v s rest) :
    AtBody e v (Session.setReading s b) rest := h

theorem consumePayload_attends (env : Env) (hne : data ≠ []) (hl : Live e v s)
    (hst : s.state = .receiving) (hs : v.sent = []) (hw : v.waiting = false) (hc : Counted s)
    (ha : Announced e s) (h : AtFile e v s data) :
    Attends e (Session.consumePayload env s data) v (Passed e data) := by
  unfold Session.consumePayload
  dsimp only
  generalize hn : min (s.fileSize - s.receivedBytes) data.length = n
  obtain ⟨hl', hb, -⟩ := counted_body n hl hst hs hw hc ha h hn.symm
  have hpos : 0 < n := by
    have hd := List.length_pos_iff.mpr hne
    have hlt := h.1
    rw [ha.2.1, hc.1] at hn
    omega
  refine keeps_seq _ _ _ _ _ (copySlots_attends env _ _) ?_
  rintro v' _ ⟨rfl, rfl⟩
  refine keeps_seq _ _ _ _ _ (applyBackpressure_attends hl'.1 hl'.2.1) ?_
  rintro v' _ ⟨rfl, b, rfl⟩
  exact ⟨hpos, .inr ⟨live_reading b hl', .inr (.inl (body_reading b hb))⟩⟩

theorem readSlot_attends (env : Env) (hl : Live e v s) (hst : s.state = .receiving)
    (hs : v.sent = []) (hw : v.waiting = false) (hc : Counted s) (ha : Announced e s)
    (h : AtFile e v s data) : Attends e (Session.readSlot env s data) v (Seat e []) := by
  unfold Session.readSlot
  dsimp only
  generalize hn : min (s.fileSize - s.receivedBytes) data.length = n
  obtain ⟨hl', hb, hfull⟩ := counted_body n hl hst hs hw hc ha h hn.symm
  refine (keeps_ask_bind _ _ _ _ _ _).mpr ⟨trivial, fun _ _ => ?_⟩
  refine keeps_seq _ _ _ _ _ (applyBackpressure_attends hl'.1 hl'.2.1) ?_
  rintro v' _ ⟨rfl, b, rfl⟩
  split
  · rename_i hempty
    rw [List.isEmpty_iff.mp hempty] at hb
    exact .inr ⟨live_reading b hl', .inr (.inl (body_reading b hb))⟩
  · rename_i hempty
    have hne : data.drop n ≠ [] := by simpa using hempty
    obtain ⟨hst', hs', hw', hc', ha', hfile⟩ := body_reading b hb
    have htrailer := hfile.resolve_left fun hf => by
      have hlt : (s.payload ++ data.take n).length < e.content.length := hf.1
      have := hfull hne
      omega
    refine keeps_seq _ _ _ _ _ (consumeTrailer_attends env (live_reading b hl') hst' hs' hw' hc'
      ha' htrailer) ?_
    rintro v'' ⟨s'', k⟩ ⟨-, hseat⟩
    exact hseat

end File

section Callbacks

variable {v : Visit} {s : Session} {data : Bytes}

/-- A session behind its request has nothing to read before it waits for
DownloadDone. -/
theorem behind_done (hne : data ≠ []) (hl : Live e v s) (h : Behind e v s data) :
    AtDone e v s data := by
  have hin := hl.2.2.2.2.2.2
  rcases h with ⟨-, hsent, -, -, ha, -, hr⟩ | ⟨-, -, -, hfew, hr⟩ | h
  · rw [hr] at hin
    obtain ⟨path, ht⟩ := ha.1
    refine absurd (inTime_nothing (v := v) hin ?_) hne
    have hsum := hl.2.2.2.1
    rw [hsent, List.length_singleton] at hsum
    rw [Errand.replies_upload ht]
    simp only [List.length_cons, List.length_nil]
    omega
  · rw [hr] at hin
    exact absurd (inTime_nothing (v := v) hin hfew) hne
  · exact h

theorem consumeStage_attends (env : Env) (hsize : e.csv.length ≤ kMaxCsvSize) (hne : data ≠ [])
    (hl : Live e v s) (h : AtOpening e v s data ∨ AtBody e v s data ∨ Behind e v s data) :
    Attends e (Session.consumeStage env s data) v (Passed e data) := by
  unfold Session.consumeStage
  rcases h with h | ⟨hst, hs, hw, hc, ha, hbody⟩ | h
  · simp only [h.1]
    exact consumeHeader_attends env hsize hne hl h
  · simp only [hst]
    rcases hbody with hfile | htrailer
    · rw [if_pos (by rw [ha.2.1, hc.1]; exact hfile.1)]
      exact consumePayload_attends env hne hl hst hs hw hc ha hfile
    · rw [if_neg (by rw [ha.2.1, hc.1, htrailer.1]; exact lt_irrefl _)]
      refine keeps_mono _ _ _ _ ?_ (consumeTrailer_attends env hl hst hs hw hc ha htrailer)
      rintro v' ⟨s', n⟩ ⟨hn, hseat⟩
      rw [show n = data.length from hn]
      refine ⟨List.length_pos_iff.mpr hne, ?_⟩
      dsimp only
      rw [List.drop_length]
      exact hseat
  · have hdone := behind_done hne hl h
    simp only [hdone.1]
    exact consumeDone_attends hne hl hdone

theorem readLoop_attends (env : Env) (hsize : e.csv.length ≤ kMaxCsvSize) (fuel : ℕ)
    (data : Bytes) (hfuel : data.length < fuel) (h : Seat e data v s) :
    Attends e (Session.readLoop env fuel s data) v (Seat e []) := by
  refine Session.keeps_readLoop (I := Seat e) ?_ ?_ fuel data (.inl hfuel) h
  · rintro data v s (hgone | ⟨hl, hstage⟩) hend
    · exact .inl hgone
    · rcases hend with hn | hc | hf
      · rw [hn] at hstage
        exact .inr ⟨hl, hstage⟩
      · simp [hl.1] at hc
      · simp [hl.2.2.1] at hf
  · rintro data v s (hgone | ⟨hl, hstage⟩) hne hc _
    · simp [hgone.1] at hc
    · refine keeps_mono _ _ _ _ ?_ (consumeStage_attends env hsize hne hl hstage)
      rintro v' r ⟨hpos, hseat⟩
      exact ⟨fun hz => absurd hz (Nat.ne_of_gt hpos), fun _ => hseat⟩

theorem seat_received (data : Bytes) (h : Seat e [] v s)
    (hin : InTime e (v.received ++ data) v.completed) (hopen : s.cleanupStarted = false) :
    Seat e data { v with received := v.received ++ data } s := by
  rcases h with hgone | ⟨⟨h1, h2, h3, h4, h5, h6, -⟩, hstage⟩
  · simp [hgone.1] at hopen
  · refine .inr ⟨⟨h1, h2, h3, h4, h5, h6, hin⟩, ?_⟩
    rcases hstage with ⟨g1, g2, g3, g4, g5, part, hr, hmid⟩ | ⟨g1, g2, g3, g4, g5, hbody⟩ | hbehind
    · exact .inl ⟨g1, g2, g3, g4, g5, part, by simp [hr], hmid⟩
    · refine .inr (.inl ⟨g1, g2, g3, g4, g5, ?_⟩)
      rcases hbody with ⟨f1, f2, hr⟩ | ⟨f1, part, hr, hmid⟩
      · exact .inl ⟨f1, f2, by simp [hr]⟩
      · exact .inr ⟨f1, part, by simp [hr], hmid⟩
    · refine .inr (.inr ?_)
      rcases hbehind with ⟨b1, b2, b3, b4, b5, b6, hr⟩ | ⟨b1, b2, b3, b4, hr⟩ |
        ⟨b1, b2, b3, b4, part, hr, hmid⟩
      · exact .inl ⟨b1, b2, b3, b4, b5, b6, by simp [hr]⟩
      · exact .inr (.inl ⟨b1, b2, b3, b4, by simp [hr]⟩)
      · exact .inr (.inr ⟨b1, b2, b3, b4, part, by simp [hr], hmid⟩)

/-- Where a slot is handed out. -/
theorem seat_file (ht : Session.Takes s) (h : Seat e data v s) :
    Live e v s ∧ v.sent = [] ∧ v.waiting = false ∧ Counted s ∧ Announced e s ∧
      AtFile e v s data := by
  obtain ⟨hst, hlt⟩ := ht
  rcases h with hgone | ⟨hl, hopening | ⟨-, hs, hw, hc, ha, hbody⟩ | hbehind⟩
  · simp [hgone.2.1] at hst
  · simp [hopening.1] at hst
  · refine ⟨hl, hs, hw, hc, ha, hbody.resolve_right fun htr => ?_⟩
    rw [ha.2.1, hc.1, htr.1] at hlt
    exact lt_irrefl _ hlt
  · rcases hbehind with hb | hb | hb <;> simp [hb.1] at hst

theorem onAllocate_attends (env : Env) :
    Attends e (Session.onAllocate env s) v (fun v' r => v' = v ∧
      ∃ b, r.1 = { s with slotAcquired := b } ∧ (b = true ↔ Session.Takes s)) := by
  unfold Session.onAllocate
  dsimp only
  split
  · rename_i ht
    refine (keeps_ask_bind _ _ _ _ _ _).mpr ⟨trivial, fun acquired hacq => ?_⟩
    rw [show acquired = true from hacq]
    exact ⟨rfl, true, rfl, fun _ => ht, fun _ => rfl⟩
  · rename_i ht
    exact ⟨rfl, false, rfl, (fun hn => by cases hn), fun hn => absurd hn ht⟩

theorem onReadable_attends (env : Env) (hsize : e.csv.length ≤ kMaxCsvSize) (count : ℕ)
    (hread : s.socket.reading = true) (h : Seat e [] v s) :
    Attends e (Session.onReadable env s count) v (Seat e []) := by
  have hopen : s.cleanupStarted = false := by
    rcases h with hgone | ⟨hl, -⟩
    · simp [hgone.2.2.2.1] at hread
    · exact hl.1
  refine keeps_seq _ _ _ _ _ (onAllocate_attends env) ?_
  rintro v' ⟨s', size⟩ ⟨rfl, b, hs', hb⟩
  have hs' : s' = { s with slotAcquired := b } := hs'
  subst hs'
  refine (keeps_ask_bind _ _ _ _ _ _).mpr ⟨trivial, fun data hin => ?_⟩
  have hseat := seat_received data h hin hopen
  split
  · rename_i hempty
    rw [List.isEmpty_iff.mp hempty] at hseat ⊢
    exact hseat
  · unfold Session.onRead
    dsimp only
    split
    · rename_i hslot
      have ht : Session.Takes s := hb.mp hslot
      obtain ⟨hl, hsent, hw, hc, ha, hfile⟩ := seat_file ht hseat
      exact readSlot_attends env hl ht.1 hsent hw hc ha hfile
    · exact readLoop_attends env hsize _ data (Nat.lt_succ_self _) hseat

/-- The oldest write is over; the history has counted it already. -/
theorem onWrite_attends (env : Env) (text : String) (hw : 0 < s.socket.pendingWrites)
    (h : Seat e [] v s) :
    Attends e (Session.onWrite env s true text) { v with completed := v.completed + 1 }
      (Seat e []) := by
  rcases h with hgone | ⟨hl, hstage⟩
  · simp [hgone.2.2.1] at hw
  obtain ⟨h1, h2, h3, h4, h5, h6, h7⟩ := hl
  have hmany : v.completed < v.sent.length := by omega
  have hlive : Live e { v with completed := v.completed + 1 } { s with
      socket := { s.socket with pendingWrites := s.socket.pendingWrites - 1 } } := by
    refine ⟨h1, h2, h3, ?_, h5, h6, h7.1, fun hlong => (h7.2 hlong).trans (Nat.le_succ _)⟩
    change s.socket.pendingWrites - 1 + (v.completed + 1) = v.sent.length
    omega
  refine keeps_seq _ _ _ _ _ (Q := Seat e []) ?_ fun _ _ hs => hs
  unfold Session.onSendComplete
  rw [if_neg (by simp), if_neg (by simp [h3])]
  dsimp only
  rcases hstage with ⟨-, hsent, -⟩ | ⟨-, hsent, -⟩ | hbehind
  · simp [hsent] at hmany
  · simp [hsent] at hmany
  · rcases hbehind with ⟨b1, b2, b3, b4, b5, b6, hr⟩ | ⟨b1, b2, b3, b4, hr⟩ |
      ⟨b1, b2, b3, b4, part, hr, hmid⟩
    · rw [if_neg (by simp [b1])]
      exact .inr ⟨hlive, .inr (.inr (.inl ⟨b1, b2, b3, b4, b5, b6, hr⟩))⟩
    · rw [if_pos b1]
      refine keeps_mono _ _ _ _ ?_ (transition_attends (s := { s with
        socket := { s.socket with pendingWrites := s.socket.pendingWrites - 1 },
        timer := s.timer.restart env.now,
        framer := Framer.reset .downloadDone .downloadDone }) env .waitDone (by simp [b1])
        (by decide) h1 h2)
      rintro v' _ ⟨rfl, t, rfl⟩
      refine .inr ⟨hlive, .inr (.inr (.inr (.inr ⟨rfl, b2, b3, rfl, [], ?_, ?_⟩)))⟩
      · rw [List.append_nil]
        exact hr
      · exact midway_reset _ _ (by decide)
    · rw [if_neg (by simp [b1])]
      exact .inr ⟨hlive, .inr (.inr (.inr (.inr ⟨b1, b2, b3, b4, part, hr, hmid⟩)))⟩

theorem onResume_attends (h : Seat e [] v s) :
    Attends e (Session.resumeReading s) v (Seat e []) := by
  rcases h with hgone | ⟨hl, hstage⟩
  · unfold Session.resumeReading
    rw [if_pos (by simp [hgone.1])]
    exact .inl hgone
  · refine keeps_mono _ _ _ _ ?_ (resumeReading_attends hl.1 hl.2.1)
    rintro v' _ ⟨rfl, b, rfl, hb⟩
    refine .inr ⟨live_reading b hl, ?_⟩
    rcases hstage with h | h | h | h | ⟨b1, b2, b3, -, hmid⟩
    · exact .inl h
    · exact .inr (.inl h)
    · exact .inr (.inr (.inl h))
    · exact .inr (.inr (.inr (.inl h)))
    · exact .inr (.inr (.inr (.inr ⟨b1, b2, b3, hb (by simp [b1]), hmid⟩)))

theorem onAnalysisComplete_attends (env : Env) (result : AnalysisResult) (h : Seat e [] v s) :
    Attends e (Session.onAnalysisComplete env s result) v (Seat e []) := by
  unfold Session.onAnalysisComplete
  split
  · exact h
  · rename_i hguard
    simp only [Bool.or_eq_true, decide_eq_true_eq, not_or, Bool.not_eq_true, not_not] at hguard
    obtain ⟨hopen, hst⟩ := hguard
    have han : Live e v s ∧ AtAnalysis e v s [] := by
      rcases h with hgone | ⟨hl, h | h | h | h | h⟩
      · simp [hgone.1] at hopen
      · simp [h.1] at hst
      · simp [h.1] at hst
      · exact ⟨hl, h⟩
      · simp [h.1] at hst
      · simp [h.1] at hst
    obtain ⟨hl, -, hsent, -, hc, ha, hp, hr⟩ := han
    obtain ⟨path, ht⟩ := ha.1
    rw [List.append_nil] at hr
    refine (keeps_ask_bind _ _ _ _ _ _).mpr ⟨trivial, fun _ hres => ?_⟩
    have hresult : result = analyze e.content := by
      rw [← hp]
      exact hres
    refine (keeps_ask_bind _ _ _ _ _ _).mpr ⟨?_, fun _ _ => ?_⟩
    · change Session.recordOf s result = e.kept
      simp only [Session.recordOf, Errand.kept, Errand.csv, hresult, ha.2.1, ha.2.2, hc.2, hp]
    · refine keeps_mono _ _ _ _ ?_ (sendResult_attends
        (v := { v with waiting := false, kept := true }) (s := { s with csv := result.csv }) env
        result.crc32 result.csv false hl (by simp [hst]) hr rfl (fun _ => rfl) ?_ ?_ ?_)
      · exact fun v' s' hq => .inr ⟨hq.1, .inr (.inr (.inr (.inl hq.2)))⟩
      · rw [hresult]
        rfl
      · rw [hresult]
        exact analyze_sealed e.content
      · rw [Errand.replies_upload ht, hsent, hresult]
        rfl

theorem start_attends (env : Env) (hsize : e.csv.length ≤ kMaxCsvSize) (id : ℕ)
    (ha : v.accepted = true) (hr : v.received = []) (hs : v.sent = []) (hn : v.completed = 0)
    (hw : v.waiting = false) (hc : v.closed = false) :
    Attends e (Session.start env (Session.construct id)) v
      (fun v' r => r.2 = true ∧ Seat e [] v' r.1) := by
  refine keeps_seq _ _ _ _ _ (startRead_attends rfl) ?_
  rintro v' _ ⟨rfl, rfl⟩
  refine ⟨trivial, fun _ _ => ⟨rfl, ?_⟩⟩
  obtain ⟨t, ht⟩ := Session.armTimer_eq (e := env) (Session.setReading (Session.construct id) true)
  change Seat e [] v' (Session.armTimer env _)
  rw [ht]
  refine .inr ⟨⟨rfl, rfl, rfl, ?_, ha, hc, ?_⟩, .inl ⟨rfl, hs, hw, ⟨rfl, ?_⟩, rfl, [], ?_, ?_⟩⟩
  · simp [hs, hn, Session.setReading, Session.construct]
  · rw [hr]
    exact ⟨List.nil_prefix, fun hlong => by simp at hlong⟩
  · exact (crc32_nil _).symm
  · rw [hr]
    rfl
  · exact midway_reset _ _ (Reception.whole_ne_nil _ _ (Errand.whole_opening hsize))

end Callbacks

end Visit

end LogTransfer
