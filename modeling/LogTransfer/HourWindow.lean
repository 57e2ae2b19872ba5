import LogTransfer.Conservation
import Mathlib.Data.Finset.Card
import Mathlib.Data.Int.Interval

/-!
# The statistics stay small

Every counted hour lies within 48 hours of the anchor, both ends included, so
a module has at most 97 of them. The limit of the statistics is out of reach
and its reason is never reported.
-/

set_option autoImplicit false

namespace LogTransfer

section Window

theorem nodup_window {xs : List ℤ} {a b : ℤ} (hnodup : xs.Nodup) (h : ∀ x ∈ xs, a ≤ x ∧ x ≤ b) :
    xs.length ≤ (b + 1 - a).toNat := by
  have hsub : xs.toFinset ⊆ Finset.Icc a b := by
    intro x hx
    rw [Finset.mem_Icc]
    exact h x (List.mem_toFinset.mp hx)
  calc xs.length = xs.toFinset.card := (List.toFinset_card_of_nodup hnodup).symm
    _ ≤ (Finset.Icc a b).card := Finset.card_le_card hsub
    _ = (b + 1 - a).toNat := Int.card_Icc a b

/-- The number of the hour that a key stands for. -/
def keyIndex (key : HourKey) : ℤ :=
  hourIndex (key / 1000000) (key / 10000 % 100) (key / 100 % 100) (key % 100)

def ValidKey (key : HourKey) : Prop :=
  ∃ y m d h, ValidHour y m d h ∧ key = makeHourKey y m d h

theorem keyIndex_makeHourKey {y m d h : ℕ} (hv : ValidHour y m d h) :
    keyIndex (makeHourKey y m d h) = hourIndex y m d h := by
  obtain ⟨hy, hm, hd, hh⟩ := makeHourKey_fields hv _ rfl
  rw [keyIndex, hy, hm, hd, hh]

theorem keyIndex_inj {k k' : HourKey} (hk : ValidKey k) (hk' : ValidKey k')
    (he : keyIndex k = keyIndex k') : k = k' := by
  obtain ⟨y, m, d, h, hv, rfl⟩ := hk
  obtain ⟨y', m', d', h', hv', rfl⟩ := hk'
  rw [keyIndex_makeHourKey hv, keyIndex_makeHourKey hv'] at he
  obtain ⟨rfl, rfl, rfl, rfl⟩ := hourIndex_inj hv hv' he
  rfl

/-- A valid hour within 48 hours of a time in seconds. -/
def HourNear (a : ℤ) (key : HourKey) : Prop :=
  ValidKey key ∧ a / 3600 - 48 ≤ keyIndex key ∧ keyIndex key ≤ a / 3600 + 48

theorem near_length {a : ℤ} {keys : List HourKey} (hnodup : keys.Nodup)
    (h : ∀ k ∈ keys, HourNear a k) : keys.length ≤ 97 := by
  have hindex : (keys.map keyIndex).Nodup := by
    apply List.Nodup.map_on _ hnodup
    intro k hk k' hk'
    exact keyIndex_inj (h k hk).1 (h k' hk').1
  have hwindow : ∀ x ∈ keys.map keyIndex, a / 3600 - 48 ≤ x ∧ x ≤ a / 3600 + 48 := by
    intro x hx
    obtain ⟨k, hk, rfl⟩ := List.mem_map.mp hx
    exact (h k hk).2
  have := nodup_window hindex hwindow
  rw [List.length_map] at this
  omega

end Window

section Invariant

variable [Doubles] {p : Pipeline}

theorem accepted_key {anchor : Option ℤ} {text : Bytes} {f : Frame} {ts : Timestamp}
    {parsed : ParsedLine} (h : LogLineParser.Accepted anchor text f ts parsed) :
    ValidHour ts.year ts.month ts.day ts.hour ∧
      parsed.key = makeHourKey ts.year ts.month ts.day ts.hour ∧
      keyIndex parsed.key = ts.absSeconds / 3600 := by
  obtain ⟨hv, hindex, -⟩ := parseTimestamp_hour f.stamp ts h.stamp
  obtain ⟨hy, hm, hd, hh⟩ := h.date
  have hkey : parsed.key = makeHourKey ts.year ts.month ts.day ts.hour := by
    rw [ParsedLine.key, hy, hm, hd, hh]
  refine ⟨hv, hkey, ?_⟩
  rw [hkey, keyIndex_makeHourKey hv, hindex]

omit [Doubles] in
theorem checkRange_ok {anchor : Option ℤ} {absSeconds : ℤ}
    (h : LogLineParser.checkRange anchor absSeconds = .ok ()) :
    absSeconds - anchor.getD absSeconds ≤ 172800 ∧
      -172800 ≤ absSeconds - anchor.getD absSeconds := by
  unfold LogLineParser.checkRange at h
  cases anchor with
  | none => simp
  | some a =>
    dsimp only at h
    split_ifs at h with hout
    have hk : kTsRangeHours = 48 := rfl
    simp only [Bool.or_eq_true, decide_eq_true_eq, not_or] at hout
    rw [Option.getD_some]
    omega

theorem accepted_near {anchor : Option ℤ} {text : Bytes} {f : Frame} {ts : Timestamp}
    {parsed : ParsedLine} (h : LogLineParser.Accepted anchor text f ts parsed) :
    HourNear (anchor.getD ts.absSeconds) parsed.key := by
  obtain ⟨hv, hkey, hindex⟩ := accepted_key h
  obtain ⟨hhigh, hlow⟩ := checkRange_ok h.range
  refine ⟨⟨_, _, _, _, hv, hkey⟩, ?_⟩
  rw [hindex]
  omega

/-- Nothing is counted before there is an anchor, and only near hours after. -/
structure Windowed (p : Pipeline) : Prop where
  fresh : p.parser.anchor = none → ∀ m, p.stats.buckets m = []
  hours : ∀ a, p.parser.anchor = some a →
    ∀ m, ∀ k ∈ (p.stats.buckets m).map Prod.fst, HourNear a k

omit [Doubles] in
theorem countHour_keys {key k : HourKey} {bucket : List (HourKey × ℕ)}
    (h : k ∈ (countHour key bucket).map Prod.fst) : k = key ∨ k ∈ bucket.map Prod.fst := by
  unfold countHour at h
  split at h
  · rw [bumpKey_keys] at h
    exact .inr h
  · obtain ⟨⟨k', c⟩, he, rfl⟩ := List.mem_map.mp h
    rcases (mem_insertKey _ k' c).mp he with heq | he
    · cases heq
      exact .inl rfl
    · exact .inr (List.mem_map_of_mem he)

/-- What was counted so far stays near the anchor, old or just set. -/
theorem windowed_anchor (h : Windowed p) (sec : ℤ) (m : ModuleId) :
    ∀ k ∈ (p.stats.buckets m).map Prod.fst, HourNear (p.parser.anchor.getD sec) k := by
  cases ha : p.parser.anchor with
  | none =>
    rw [h.fresh ha m]
    intro k hk
    cases hk
  | some a => exact h.hours a ha m

theorem windowed_line (l : Line) (h : Windowed p) : Windowed (p.line l) := by
  have hstep := line_step p l
  generalize p.fate l = f, p.line l = q at hstep ⊢
  cases hstep with
  | rejected _ _ _ => exact ⟨h.fresh, h.hours⟩
  | refused _ _ ts _ _ _ =>
    refine ⟨fun hn => (Option.some_ne_none _ hn).elim, ?_⟩
    intro a ha
    cases ha
    exact windowed_anchor h ts.absSeconds
  | entered parsed f ts _ ha hr =>
    refine ⟨fun hn => (Option.some_ne_none _ hn).elim, ?_⟩
    intro a hanchor m k hk
    cases hanchor
    have hold := windowed_anchor h ts.absSeconds
    rw [record_true hr, sample_buckets] at hk
    by_cases hm : m = parsed.module
    · subst hm
      rw [withBucket_self] at hk
      rcases countHour_keys hk with rfl | hk
      · exact accepted_near ha
      · exact hold _ k hk
    · rw [withBucket_of_ne _ _ hm] at hk
      exact hold m k hk

theorem windowed_lines (ls : List Line) (h : Windowed p) : Windowed (p.lines ls) := by
  induction ls generalizing p with
  | nil => exact h
  | cons l ls ih => exact ih (windowed_line l h)

theorem windowed_reset : Windowed Pipeline.reset :=
  ⟨fun _ _ => rfl, fun a h => by cases h⟩

end Invariant

section Bounds

variable [Doubles]

theorem keys_nodup {fs : List Fate} {p : Pipeline} (h : Books fs p) (m : ModuleId) :
    ((p.stats.buckets m).map Prod.fst).Nodup := (h.buckets m).nodup fun k => lt_irrefl k

theorem windowed_length {p : Pipeline} (h : Windowed p) (m : ModuleId)
    (hnodup : ((p.stats.buckets m).map Prod.fst).Nodup) : (p.stats.buckets m).length ≤ 97 := by
  cases ha : p.parser.anchor with
  | none =>
    rw [h.fresh ha m]
    exact Nat.zero_le 97
  | some a =>
    rw [← List.length_map (f := Prod.fst)]
    exact near_length hnodup (h.hours a ha m)

theorem entries_bound {s : StatsCollector} (h : ∀ m, (s.buckets m).length ≤ 97) :
    s.totalEntries ≤ 485 := by
  have h1 := h .radarTrackNodeState
  have h2 := h .antennaProfileSpec
  have h3 := h .beamSteerCtrlUnitImpl
  have h4 := h .detectionTaskRunner
  have h5 := h .sectorSchedulerRTS
  simp only [StatsCollector.totalEntries, moduleIds, List.foldl_cons, List.foldl_nil]
  omega

theorem record_taken {s : StatsCollector} (parsed : ParsedLine)
    (h : s.totalEntries < kMaxStatsEntries) : (s.record parsed).2 = true := by
  unfold StatsCollector.record
  dsimp only
  split
  · rfl
  · rw [if_neg (Nat.not_le.mpr h)]

theorem lines_taken (ls : List Line) (parsed : ParsedLine) :
    ((Pipeline.reset.lines ls).stats.record parsed).2 = true := by
  apply record_taken
  have hw := windowed_lines ls windowed_reset
  have := entries_bound fun m => windowed_length hw m (keys_nodup (books_session ls) m)
  exact lt_of_le_of_lt this (by decide)

/-- No line in a run from the initial state is refused by the statistics. -/
theorem limit_not_reported (ls : List Line) :
    SkipReason.mapLimit ∉ reported (Pipeline.reset.fates ls) := by
  induction ls using List.reverseRecOn with
  | nil => simp [Pipeline.fates, reported]
  | append_singleton ls l ih =>
    have htaken := lines_taken ls
    have hstep := line_step (Pipeline.reset.lines ls) l
    rw [fates_append, reported, List.filterMap_append, List.mem_append]
    rintro (hin | hin)
    · exact ih hin
    · rw [Pipeline.fates, Pipeline.fates] at hin
      generalize (Pipeline.reset.lines ls).fate l = f, (Pipeline.reset.lines ls).line l = q
        at hstep hin
      cases hstep with
      | rejected reason _ hne =>
        simp only [List.filterMap_cons, List.filterMap_nil, List.mem_singleton] at hin
        exact hne hin.symm
      | refused parsed _ _ _ _ hr =>
        rw [htaken parsed] at hr
        cases hr
      | entered _ _ _ _ _ _ => simp at hin

theorem limit_count {fs : List Fate} {p : Pipeline} (h : Books fs p)
    (hn : SkipReason.mapLimit ∉ reported fs) : p.reporter.counts .mapLimit = 0 := by
  rw [h.reasons]
  exact List.count_eq_zero.mpr hn

/-- After any lines whatsoever the statistics have at most 97 hours a module,
the next line is never refused, and no upload reports the limit. -/
theorem window_bounds :
    (∀ ls : List Line, let p := Pipeline.reset.lines ls
      (∀ m, ((p.stats.buckets m).map Prod.fst).Nodup ∧ (p.stats.buckets m).length ≤ 97) ∧
        p.stats.totalEntries ≤ 485 ∧ p.reporter.counts .mapLimit = 0 ∧
        ∀ parsed, (p.stats.record parsed).2 = true) ∧
      ∀ chunks, (Pipeline.analysed chunks).reporter.counts .mapLimit = 0 := by
  refine ⟨?_, ?_⟩
  · intro ls p
    have hbooks : Books (Pipeline.reset.fates ls) p := books_session ls
    have hw : Windowed p := windowed_lines ls windowed_reset
    have hlength (m : ModuleId) := windowed_length hw m (keys_nodup hbooks m)
    exact ⟨fun m => ⟨keys_nodup hbooks m, hlength m⟩, entries_bound hlength,
      limit_count hbooks (limit_not_reported ls), lines_taken ls⟩
  · intro chunks
    exact limit_count (Pipeline.analysed_books chunks) (limit_not_reported _)

end Bounds

end LogTransfer
